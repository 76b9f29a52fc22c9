import Otic.Pack.Names
import Otic.Pack.Overrun

/-!
# Records and raw buffers

`inject_b` writes a buffer behind a tag, an index and eight bytes for the length.  Such
a row or a record is a `Piece`.  While every flush goes through and the bucket is not
overrun, scalar injects and `inject_b` lay down whole pieces: `Laid` says which of them
were sent, block by block, and which are still in the bucket.
-/

namespace Otic

/-! ### Pieces -/

/-- A record or the row of a buffer. -/
inductive Piece where
  | record (r : Record)
  | buffer (index : UInt32) (bytes : List UInt8)

/-- The length of a buffer is a `size_t`, copied as it lies in memory. -/
def Piece.encode : Piece → List UInt8
  | .record r => r.encode
  | .buffer index bytes =>
      OticType.rawbuffer.toByte :: (leb128EncodeUnsigned index.toUInt64 ++
        (Bytes.ofUInt64 (UInt64.ofNat bytes.length) ++ bytes))

def encodePieces (pieces : List Piece) : List UInt8 := pieces.flatMap Piece.encode

@[simp] theorem encodePieces_nil : encodePieces [] = [] := rfl

@[simp] theorem encodePieces_cons (p : Piece) (ps : List Piece) :
    encodePieces (p :: ps) = p.encode ++ encodePieces ps := by
  simp [encodePieces]

@[simp] theorem encodePieces_append (ps ps' : List Piece) :
    encodePieces (ps ++ ps') = encodePieces ps ++ encodePieces ps' := by
  simp [encodePieces]

@[simp] theorem encodePieces_record (rs : List Record) :
    encodePieces (rs.map .record) = encodeAll rs := by
  induction rs with
  | nil => rfl
  | cons r rs ih =>
    rw [List.map_cons, encodePieces_cons, encodeAll_cons, ih]
    rfl

theorem Piece.length_encode_pos (p : Piece) : 0 < p.encode.length := by
  cases p with
  | record r => exact r.length_encode_pos
  | buffer index bytes => simp [encode]

def Piece.record? : Piece → Option Record
  | .record r => some r
  | .buffer _ _ => none

def Piece.isBuffer : Piece → Bool
  | .record _ => false
  | .buffer _ _ => true

/-- The records, without the buffers. -/
def recordsIn (pieces : List Piece) : List Record := pieces.filterMap Piece.record?

/-- How many buffers there are. -/
def buffersIn (pieces : List Piece) : Nat := pieces.countP Piece.isBuffer

@[simp] theorem recordsIn_append (ps ps' : List Piece) :
    recordsIn (ps ++ ps') = recordsIn ps ++ recordsIn ps' := List.filterMap_append

@[simp] theorem buffersIn_append (ps ps' : List Piece) :
    buffersIn (ps ++ ps') = buffersIn ps + buffersIn ps' := List.countP_append

@[simp] theorem recordsIn_record (rs : List Record) : recordsIn (rs.map .record) = rs := by
  induction rs with
  | nil => rfl
  | cons r rs ih => exact congrArg (List.cons r) ih

@[simp] theorem buffersIn_record (rs : List Record) : buffersIn (rs.map .record) = 0 := by
  induction rs with
  | nil => rfl
  | cons r rs ih => exact ih

end Otic

namespace Otic.Pack

variable {zstd : Zstd} {h₀ h : Handle} {ps : List Piece}

/-! ### What a call writes -/

/-- The pieces of a timestamp. -/
def Encoder.stampPieces (enc : Encoder) (tick : UInt64) : List Piece :=
  ((enc.clock tick).getD []).map .record

theorem Encoder.encode_stampPieces (enc : Encoder) (tick : UInt64) :
    encodePieces (enc.stampPieces tick) = enc.stamp tick := by
  unfold stampPieces stamp
  rw [encodePieces_record]
  cases enc.clock tick <;> rfl

/-- The pieces of a row; those of an array are left out. -/
def AnyCall.rowPieces (enc : Encoder) (c : AnyCall) : List Piece :=
  match c.value with
  | .scalar value => (((enc.row (c.scalar value)).map Prod.snd).getD []).map .record
  | .buffer bytes =>
      match Channel.entryFind enc.cache c.sensorName with
      | none =>
          if h : c.Fits then
            [.record (.nameAssign ⟨c.sensorName, c.unitStr.bytes, h⟩),
              .buffer enc.totalEntries.toUInt32 bytes]
          else []
      | some entry => [.buffer entry.index bytes]
  | .array _ => []

/-- The pieces of a call: a timestamp, and if the call is accepted its row. -/
def AnyCall.pieces (zstd : Zstd) (c : AnyCall) (h : Handle) : List Piece :=
  h.channel.encoder.stampPieces c.tick ++
    if (c.inject zstd h).1 = true then
      c.rowPieces { h.channel.encoder with timestampCurrent := c.tick }
    else []

/-- A scalar or a buffer. -/
def AnyCall.Plain (c : AnyCall) : Prop := ∀ aval, c.value ≠ .array aval

/-- What an encoder has written since it was new. -/
structure Encoder.Wrote (enc : Encoder) (ps : List Piece) : Prop where
  counted : enc.Counted (namesAfter 0 (recordsIn ps))
  valid : ValidFrom 0 (recordsIn ps)
  unmarked : ∀ count, Record.eof count ∉ recordsIn ps
  rows : enc.rowCounter = UInt64.ofNat (rowsIn (recordsIn ps) + buffersIn ps)

namespace Encoder

variable {enc enc' : Encoder}

theorem wrote_init : Encoder.init.Wrote [] :=
  ⟨counted_init, trivial, fun _ hmem => (by cases hmem), rfl⟩

theorem rowsIn_clock {tick : UInt64} {records : List Record}
    (hclock : enc.clock tick = some records) :
    rowsIn records = 0 ∧ ∀ count, Record.eof count ∉ records := by
  unfold Encoder.clock at hclock
  split_ifs at hclock <;> cases hclock <;> exact ⟨rfl, fun count hmem => by simp at hmem⟩

theorem rowsIn_row {c : Call} {records : List Record} (hrow : enc.row c = some (enc', records)) :
    enc'.rowCounter = enc.rowCounter + 1 ∧ rowsIn records = 1 ∧
      ∀ count, Record.eof count ∉ records := by
  have hvalue : ∀ index, (c.value.record index).index?.isSome = true := by
    intro index
    rw [index?_record]
    rfl
  have heof : ∀ index count, c.value.record index ≠ .eof count := by
    intro index count heq
    have hsome := hvalue index
    rw [heq] at hsome
    cases hsome
  unfold Encoder.row at hrow
  split at hrow
  · unfold Encoder.newRow at hrow
    split at hrow
    · simp only [Option.some.injEq, Prod.mk.injEq] at hrow
      obtain ⟨rfl, rfl⟩ := hrow
      refine ⟨rfl, ?_, ?_⟩
      · rw [rowsIn, List.countP_cons_of_neg (by simp [Record.index?]), List.countP_singleton,
          if_pos (hvalue _)]
      · intro count hmem
        simp only [List.mem_cons, List.not_mem_nil, or_false, reduceCtorEq, false_or] at hmem
        exact heof _ count hmem.symm
    · cases hrow
  · unfold Encoder.knownRow at hrow
    split at hrow
    · simp only [Option.some.injEq, Prod.mk.injEq] at hrow
      obtain ⟨rfl, rfl⟩ := hrow
      refine ⟨rfl, rfl, ?_⟩
      intro count hmem
      simp at hmem
    · simp only [Option.some.injEq, Prod.mk.injEq] at hrow
      obtain ⟨rfl, rfl⟩ := hrow
      refine ⟨rfl, ?_, ?_⟩
      · simp [rowsIn, hvalue]
      · intro count hmem
        exact heof _ count (List.mem_singleton.mp hmem).symm

/-- Records are written that end no channel. -/
theorem Wrote.records (hwrote : enc.Wrote ps) {records : List Record}
    (hcounted : enc'.Counted (namesAfter (namesAfter 0 (recordsIn ps)) records))
    (hvalid : ValidFrom (namesAfter 0 (recordsIn ps)) records)
    (hunmarked : ∀ count, Record.eof count ∉ records)
    (hrows : enc'.rowCounter = enc.rowCounter + UInt64.ofNat (rowsIn records)) :
    enc'.Wrote (ps ++ records.map .record) where
  counted := by
    rw [recordsIn_append, recordsIn_record, namesAfter_append]
    exact hcounted
  valid := by
    rw [recordsIn_append, recordsIn_record, validFrom_append]
    exact ⟨hwrote.valid, hvalid⟩
  unmarked := by
    intro count hmem
    rw [recordsIn_append, recordsIn_record, List.mem_append] at hmem
    rcases hmem with hmem | hmem
    · exact hwrote.unmarked count hmem
    · exact hunmarked count hmem
  rows := by
    rw [recordsIn_append, recordsIn_record, rowsIn_append, buffersIn_append, buffersIn_record,
      hrows, hwrote.rows, ← UInt64.ofNat_add]
    congr 1
    omega

theorem Wrote.stamp (hwrote : enc.Wrote ps) (tick tick' : UInt64) :
    Encoder.Wrote { enc with timestampCurrent := tick' } (ps ++ enc.stampPieces tick) := by
  have hrows : enc.rowCounter = enc.rowCounter + UInt64.ofNat 0 := (UInt64.add_zero _).symm
  unfold stampPieces
  cases hclock : enc.clock tick with
  | none =>
    exact hwrote.records (hwrote.counted.tick tick') trivial (fun _ hmem => by cases hmem) hrows
  | some records =>
    obtain ⟨hnames, hvalid⟩ := clock_plain hclock (namesAfter 0 (recordsIn ps))
    have hnone := rowsIn_clock hclock
    rw [Option.getD_some]
    apply hwrote.records
    · rw [hnames]
      exact hwrote.counted.tick tick'
    · exact hvalid
    · exact hnone.2
    · rw [hnone.1]
      exact hrows

/-- A buffer is counted, whatever index it has. -/
theorem Wrote.buffer (hwrote : enc.Wrote ps) (index : UInt32) (bytes : List UInt8)
    (hcounted : enc'.Counted (namesAfter 0 (recordsIn ps)))
    (hrows : enc'.rowCounter = enc.rowCounter + 1) :
    enc'.Wrote (ps ++ [.buffer index bytes]) := by
  have hrecords : recordsIn (ps ++ [.buffer index bytes]) = recordsIn ps := by
    rw [recordsIn_append]
    exact List.append_nil _
  have hone : buffersIn (ps ++ [.buffer index bytes]) = buffersIn ps + 1 := by
    rw [buffersIn_append]
    rfl
  constructor
  · rw [hrecords]
    exact hcounted
  · rw [hrecords]
    exact hwrote.valid
  · rw [hrecords]
    exact hwrote.unmarked
  · rw [hrecords, hone, hrows, hwrote.rows, ← Nat.add_assoc, UInt64.ofNat_add _ 1]
    rfl

/-- The name of a sensor whose first value is a buffer. -/
theorem Wrote.bufferName (hwrote : enc.Wrote ps) {c : AnyCall} {bytes : List UInt8}
    (hvalue : c.value = .buffer bytes) (hfits : c.Fits) :
    Encoder.Wrote
      { enc with
        cache := c.injection.insert enc.cache c.sensorName c.unitStr enc.totalEntries
        totalEntries := enc.totalEntries + 1 }
      (ps ++ [Record.nameAssign ⟨c.sensorName, c.unitStr.bytes, hfits⟩].map .record) := by
  have hinjection : c.injection = Channel.bInjection bytes := by
    simp only [AnyCall.injection, hvalue]
  have hindex : enc.totalEntries.toUInt32.toNat < namesAfter 0 (recordsIn ps) + 1 := by
    have htotal := hwrote.counted.total
    rw [UInt16.toNat_toUInt32]
    omega
  have hmore : Chained.All (fun entry => entry.index.toNat < namesAfter 0 (recordsIn ps) + 1)
      enc.cache := hwrote.counted.index.imp fun entry hlt => by omega
  apply hwrote.records
  · refine ⟨toNat_succ_total hwrote.counted, ?_⟩
    change Chained.All _ (c.injection.insert enc.cache c.sensorName c.unitStr enc.totalEntries)
    rw [hinjection]
    exact @Channel.all_entryInsertRoutine (fun i => i.toNat < namesAfter 0 (recordsIn ps) + 1) _
      hmore _ _ _ hindex _
  · exact ⟨fun i hi => (by cases hi), trivial⟩
  · intro count hmem
    simp at hmem
  · exact (UInt64.add_zero _).symm

theorem Wrote.bufferRow (hwrote : enc.Wrote ps) {c : AnyCall} {bytes encoded : List UInt8}
    (hvalue : c.value = .buffer bytes) (hrow : c.row enc = some (enc', encoded)) :
    enc'.Wrote (ps ++ c.rowPieces enc) ∧ encodePieces (c.rowPieces enc) = encoded := by
  have hpayload : ∀ index, c.payload index = (Piece.buffer index bytes).encode := by
    intro index
    simp only [AnyCall.payload, hvalue, Piece.encode]
  have hinjection : c.injection = Channel.bInjection bytes := by
    simp only [AnyCall.injection, hvalue]
  unfold AnyCall.row at hrow
  unfold AnyCall.rowPieces
  rw [hvalue]
  dsimp only
  cases hentry : Channel.entryFind enc.cache c.sensorName with
  | none =>
    rw [hentry] at hrow
    dsimp only [AnyCall.newRow] at hrow ⊢
    split at hrow
    · rename_i hfits
      rw [dif_pos hfits]
      simp only [Option.some.injEq, Prod.mk.injEq] at hrow
      obtain ⟨rfl, rfl⟩ := hrow
      constructor
      · -- the name first, the buffer after it
        have hnamed := hwrote.bufferName hvalue hfits
        rw [show ∀ p, [Piece.record (.nameAssign ⟨c.sensorName, c.unitStr.bytes, hfits⟩), p] =
          [Record.nameAssign ⟨c.sensorName, c.unitStr.bytes, hfits⟩].map .record ++ [p] from
            fun _ => rfl, ← List.append_assoc]
        exact hnamed.buffer _ _ ⟨hnamed.counted.total, hnamed.counted.index⟩ rfl
      · rw [hpayload, encodePieces_cons, encodePieces_cons, encodePieces_nil, List.append_nil]
        rfl
    · cases hrow
  | some entry =>
    rw [hentry] at hrow
    have hknown : c.knownRow enc entry = ({ enc with
        cache := Channel.setLastValue enc.cache c.sensorName .rawbuffer
        rowCounter := enc.rowCounter + 1 }, c.payload entry.index) := by
      rw [AnyCall.knownRow, hinjection]
      rfl
    dsimp only at hrow ⊢
    rw [hknown, Option.some.injEq, Prod.mk.injEq] at hrow
    obtain ⟨rfl, rfl⟩ := hrow
    constructor
    · apply hwrote.buffer
      · exact ⟨hwrote.counted.total, @Channel.all_setLastValue
          (fun i => i.toNat < namesAfter 0 (recordsIn ps)) _ hwrote.counted.index _ _⟩
      · rfl
    · rw [hpayload, encodePieces_cons, encodePieces_nil, List.append_nil]

/-- **The row** of a scalar or a buffer. -/
theorem Wrote.row (hwrote : enc.Wrote ps) {c : AnyCall} (hplain : c.Plain) {encoded : List UInt8}
    (hrow : c.row enc = some (enc', encoded)) :
    enc'.Wrote (ps ++ c.rowPieces enc) ∧ encodePieces (c.rowPieces enc) = encoded := by
  cases hvalue : c.value with
  | buffer bytes => exact hwrote.bufferRow hvalue hrow
  | array aval => exact absurd hvalue (hplain aval)
  | scalar value =>
    have hany : c.row enc = (c.scalar value).any.row enc := by
      obtain ⟨tick, sensorName, unit, value', heap, equal, stale⟩ := c
      cases hvalue
      rfl
    rw [hany, row_any, Option.map_eq_some_iff] at hrow
    obtain ⟨⟨enc₁, records⟩, hrecords, heq⟩ := hrow
    simp only [Prod.mk.injEq] at heq
    obtain ⟨rfl, rfl⟩ := heq
    obtain ⟨hcount, hone, hunmarked⟩ := rowsIn_row hrecords
    obtain ⟨hcounted, hvalid⟩ := hwrote.counted.row hrecords
    have hpieces : c.rowPieces enc = records.map .record := by
      unfold AnyCall.rowPieces
      rw [hvalue]
      dsimp only
      rw [hrecords]
      rfl
    rw [hpieces]
    constructor
    · apply hwrote.records hcounted hvalid hunmarked
      rw [hone, hcount]
      rfl
    · exact encodePieces_record records

end Encoder

end Otic.Pack
