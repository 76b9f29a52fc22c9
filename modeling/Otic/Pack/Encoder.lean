import Otic.Format.Record
import Otic.Pack.Channel

/-!
# The writer at the level of records

An inject writes whole records.  `Channel.writeRecord` writes one with the writers
of `pack.c`, and every write of an inject is one of these.  `Encoder` is what is
left of a channel once the bucket is taken away: the clock, the dictionary and the
counters, which alone decide what records an inject writes.  That the channel
refines it, whatever is flushed in between, is shown in the next module.
-/

namespace Otic.Pack

/-! ### Calls -/

/-- Ticks that a timestamp can be converted to. -/
abbrev Tick := { tick : UInt64 // tick < TS_NULL }

theorem seven_lt_TS_NULL : 7 < TS_NULL := by decide

/-- The value of a scalar inject; doubles are their bits. -/
inductive Value where
  | bool (value : Bool)
  | intNeg (value : UInt64)
  | intPos (value : UInt64)
  | double (value : UInt64)
  | string (value : CStr)
  | null
deriving DecidableEq

/-- A call of a scalar inject.  `heap` is only looked at by `inject_s`. -/
structure Call where
  tick : Tick
  sensorName : CStr
  unit : Option CStr
  value : Value
  heap : List UInt8

def Call.unitStr (c : Call) : CStr := c.unit.getD CStr.empty

/-- Name and unit fit a name record. -/
abbrev Call.Fits (c : Call) : Prop := c.sensorName.size + c.unitStr.bytes.length + 1 ≤ UINT8_MAX

def Call.injection (c : Call) : Channel.Injection :=
  match c.value with
  | .bool value => Channel.boolInjection value
  | .intNeg value => Channel.iNegInjection value
  | .intPos value => Channel.iInjection value
  | .double value => Channel.dInjection value
  | .string value => Channel.sInjection value c.heap
  | .null => Channel.nInjection

/-- The call itself. -/
def Call.inject (zstd : Zstd) (c : Call) (h : Handle) : Bool × Handle :=
  match c.value with
  | .bool value => h.injectBool zstd c.tick c.sensorName c.unit value
  | .intNeg value => h.injectINeg zstd c.tick c.sensorName c.unit value
  | .intPos value => h.injectI zstd c.tick c.sensorName c.unit value
  | .double value => h.injectD zstd c.tick c.sensorName c.unit value
  | .string value => h.injectS zstd c.tick c.sensorName c.unit value c.heap
  | .null => h.injectN zstd c.tick c.sensorName c.unit

/-- What the length of a value is checked against the threshold for. -/
def Value.textSize : Value → Nat
  | .string value => value.size
  | _ => 0

theorem toUInt8_lt_limit {value : UInt64} (h : value < SMALL_INT_LIMIT.toUInt64) :
    value.toUInt8 < SMALL_INT_LIMIT := by
  rw [UInt64.lt_iff_toNat_lt] at h
  rw [UInt8.lt_iff_toNat_lt, UInt64.toNat_toUInt8]
  have hlimit : SMALL_INT_LIMIT.toUInt64.toNat = 0xC9 := rfl
  have hlimit' : SMALL_INT_LIMIT.toNat = 0xC9 := rfl
  omega

/-- The record of a value. -/
def Value.record (value : Value) (index : UInt32) : Record :=
  match value with
  | .bool value => if value then .true index else .false index
  | .intNeg value => .intNeg index value
  | .intPos value =>
      if h : value < SMALL_INT_LIMIT.toUInt64 then
        .smallInt ⟨value.toUInt8, toUInt8_lt_limit h⟩ index
      else .intPos index value
  | .double value => .double index value
  | .string value => .string index ⟨value.bytes, by have := value.sized; omega⟩
  | .null => .null index

/-! ### Records and the writers of `pack.c` -/

namespace Channel

@[simp] theorem put_put (ch : Channel) (bytes bytes' : List UInt8) :
    (ch.put bytes).put bytes' = ch.put (bytes ++ bytes') := by
  simp only [put, List.append_assoc, Bool.or_assoc, Channel.mk.injEq, true_and, and_true]
  congr 1
  -- if the longer string stays inside, so does the shorter one
  rw [← Bool.decide_or]
  apply decide_eq_decide.mpr
  simp only [List.length_append]
  omega

@[simp] theorem put_nil_pending (ch : Channel) : (ch.put []).pending = ch.pending := by
  simp [put]

/-- A record written with the functions of `pack.c`. -/
def writeRecord (ch : Channel) : Record → Channel
  | .setTimestamp tick => (ch.writeByte OticType.setTimestamp.toByte).writeLong tick
  | .shiftTimestamp shift => (ch.writeByte OticType.shiftTimestamp.toByte).writeLong shift
  | .nameAssign a => ch.idAssign a.name a.unit
  | .smallInt value index => (ch.writeByte value.val).writeLong index.toUInt64
  | .intPos index value =>
      ((ch.writeByte OticType.intPos.toByte).writeLong index.toUInt64).writeLong value
  | .intNeg index value =>
      ((ch.writeByte OticType.intNeg.toByte).writeLong index.toUInt64).writeLong value
  | .double index value =>
      ((ch.writeByte OticType.double.toByte).writeLong index.toUInt64).writeDouble value
  | .string index s =>
      ((ch.writeByte OticType.string.toByte).writeLong index.toUInt64).writeString2 s.bytes
  | .null index => (ch.writeByte OticType.null.toByte).writeLong index.toUInt64
  | .true index => (ch.writeByte OticType.true.toByte).writeLong index.toUInt64
  | .false index => (ch.writeByte OticType.false.toByte).writeLong index.toUInt64
  | .unmodified index => (ch.writeByte OticType.unmodified.toByte).writeLong index.toUInt64
  | .eof count => (ch.writeByte OticType.eof.toByte).writeLong count

/-- The writers put exactly the encoding of the record. -/
theorem writeRecord_eq_put (ch : Channel) (r : Record) : ch.writeRecord r = ch.put r.encode := by
  cases r <;> simp [writeRecord, Record.encode, idAssign, writeByte, writeLong, writeDouble,
    writeString2]

/-- Several records one after the other. -/
def writeRecords (ch : Channel) (rs : List Record) : Channel := rs.foldl writeRecord ch

@[simp] theorem writeRecords_pending (ch : Channel) (rs : List Record) :
    (ch.writeRecords rs).pending = ch.pending ++ encodeAll rs := by
  induction rs generalizing ch with
  | nil => simp [writeRecords]
  | cons r rs ih =>
    rw [writeRecords, List.foldl_cons]
    change ((ch.writeRecord r).writeRecords rs).pending = _
    rw [ih, writeRecord_eq_put, put, encodeAll_cons, List.append_assoc]

/-- Every inject writes its row as one record. -/
theorem write_injection (c : Call) (index : UInt32) (ch : Channel) :
    c.injection.write index.toUInt64 ch = ch.writeRecord (c.value.record index) := by
  unfold Call.injection Value.record
  cases hvalue : c.value with
  | bool value => cases value <;> rfl
  | intPos value =>
    simp only [iInjection]
    by_cases h : value < SMALL_INT_LIMIT.toUInt64
    · rw [if_pos h, dif_pos h]
      rfl
    · rw [if_neg h, dif_neg h]
      rfl
  | intNeg value => rfl
  | double value => rfl
  | string value => rfl
  | null => rfl

end Channel

/-! ### The encoder -/

/-- What decides the records of an inject. -/
structure Encoder where
  timestampCurrent : UInt64
  cache : Chained.Table Entry
  totalEntries : UInt16
  rowCounter : UInt64

/-- The encoder of a channel that was just initialised. -/
def Encoder.init : Encoder where
  timestampCurrent := TS_NULL
  cache := fun _ => []
  totalEntries := 0
  rowCounter := 0

def Channel.encoder (ch : Channel) : Encoder where
  timestampCurrent := ch.base.timestampCurrent
  cache := ch.cache
  totalEntries := ch.totalEntries
  rowCounter := ch.base.rowCounter

@[simp] theorem Channel.encoder_init (id channelType : UInt8) (bucketSize : UInt32) :
    (Channel.init id channelType bucketSize).encoder = Encoder.init := rfl

namespace Encoder

/-- The records that bring the clock to a tick; `none` if it is past it. -/
def clock (enc : Encoder) (tick : UInt64) : Option (List Record) :=
  if enc.timestampCurrent = tick then some []
  else if enc.timestampCurrent = TS_NULL then some [.setTimestamp tick]
  else if tick < enc.timestampCurrent then none
  else some [.shiftTimestamp (tick - enc.timestampCurrent)]

/-- The row of a call whose sensor is new. -/
def newRow (enc : Encoder) (c : Call) : Option (Encoder × List Record) :=
  if h : c.Fits then
    some
      ({ enc with
        cache := c.injection.insert enc.cache c.sensorName c.unitStr enc.totalEntries
        totalEntries := enc.totalEntries + 1
        rowCounter := enc.rowCounter + 1 },
        [.nameAssign ⟨c.sensorName, c.unitStr.bytes, h⟩,
          c.value.record enc.totalEntries.toUInt32])
  else none

/-- The row of a call whose sensor has an entry. -/
def knownRow (enc : Encoder) (c : Call) (entry : Entry) : Encoder × List Record :=
  if c.injection.same entry.lastValue then
    ({ enc with rowCounter := enc.rowCounter + 1 }, [.unmodified entry.index])
  else
    ({ enc with
      cache := Channel.setLastValue enc.cache c.sensorName c.injection.changed
      rowCounter := enc.rowCounter + 1 },
      [c.value.record entry.index])

/-- The row of a call; `none` if name and unit of a new sensor are too long. -/
def row (enc : Encoder) (c : Call) : Option (Encoder × List Record) :=
  match Channel.entryFind enc.cache c.sensorName with
  | none => enc.newRow c
  | some entry => some (enc.knownRow c entry)

/-- What a call comes to: its result, the encoder after it, and what it writes. -/
structure Outcome where
  ok : Bool
  encoder : Encoder
  records : List Record

/-- A call, where `limit` is the length of the longest string there is room for. -/
def inject (limit : Nat) (enc : Encoder) (c : Call) : Outcome :=
  match enc.clock c.tick with
  | none => ⟨false, enc, []⟩
  | some clock =>
      let enc := { enc with timestampCurrent := c.tick }
      if limit < c.value.textSize then ⟨false, enc, clock⟩
      else
        match enc.row c with
        | none => ⟨false, enc, clock⟩
        | some (enc, row) => ⟨true, enc, clock ++ row⟩

/-- What a sequence of calls comes to: the results and all that is written. -/
structure Outcomes where
  oks : List Bool
  encoder : Encoder
  records : List Record

def run (limit : Nat) : Encoder → List Call → Outcomes
  | enc, [] => ⟨[], enc, []⟩
  | enc, c :: cs =>
      let first := enc.inject limit c
      let later := first.encoder.run limit cs
      ⟨first.ok :: later.oks, later.encoder, first.records ++ later.records⟩

@[simp] theorem run_nil (limit : Nat) (enc : Encoder) : enc.run limit [] = ⟨[], enc, []⟩ := rfl

/-- The calls that a run accepts. -/
def accepted (limit : Nat) : Encoder → List Call → List Call
  | _, [] => []
  | enc, c :: cs =>
      let first := enc.inject limit c
      if first.ok then c :: first.encoder.accepted limit cs
      else first.encoder.accepted limit cs

theorem run_append (limit : Nat) (enc : Encoder) (cs cs' : List Call) :
    enc.run limit (cs ++ cs') =
      let first := enc.run limit cs
      let later := first.encoder.run limit cs'
      ⟨first.oks ++ later.oks, later.encoder, first.records ++ later.records⟩ := by
  induction cs generalizing enc with
  | nil => rfl
  | cons c cs ih =>
    simp only [List.cons_append, run, ih, List.append_assoc]

theorem run_concat (limit : Nat) (enc : Encoder) (cs : List Call) (c : Call) :
    enc.run limit (cs ++ [c]) =
      let first := enc.run limit cs
      let last := first.encoder.inject limit c
      ⟨first.oks ++ [last.ok], last.encoder, first.records ++ last.records⟩ := by
  rw [run_append]
  simp only [run, List.append_nil]

end Encoder

end Otic.Pack
