import Otic.Format.Heard
import Otic.Pack.Ample
import Otic.Pack.FlushPoints
import Otic.Pack.Pieces
import Otic.System.SingleChannel
import Otic.Unpack.Fetch

/-!
# Frames that are lost

Writer and reader count the rows of a channel, and the end mark carries the writer's
number.  Take DATA frames out of a file, but none with a name or the end mark: the reader
goes through the rest, and its number is the writer's less the rows that are lost
(`raised_iff`).  Both count in 64 bits, so that the end mark gives away all losses but
those of a multiple of 2^64 rows.
-/

namespace Otic

open Pack Unpack

/-! ### What is taken out -/

variable {zstd : Zstd} {seeker : Bool} {select : List UInt8} {features channelType id : UInt8}
  {bufferSize size : UInt32} {answers : List Bool} {moves : List Move}

/-- The frames that are left. -/
def kept (marked : List (Sent × Bool)) : List Sent := (marked.filter Prod.snd).map Prod.fst

/-- The frames that are taken out. -/
def deleted (marked : List (Sent × Bool)) : List Sent :=
  (marked.filter fun m => !m.2).map Prod.fst

/-- Frames are taken out that hold neither a name nor the end mark. -/
structure Deletes (sent : List Sent) (marked : List (Sent × Bool)) : Prop where
  frames : marked.map Prod.fst = sent
  names : ∀ s ∈ deleted marked, s.block.filterMap Record.assigned? = []
  marks : ∀ s ∈ deleted marked, ∀ count, Record.eof count ∉ s.block

@[simp] theorem blocksOf_nil : blocksOf [] = [] := rfl

@[simp] theorem blocksOf_cons (s : Sent) (sent : List Sent) :
    blocksOf (s :: sent) = s.block ++ blocksOf sent := List.flatMap_cons

@[simp] theorem kept_cons_true (s : Sent) (marked : List (Sent × Bool)) :
    kept ((s, true) :: marked) = s :: kept marked := rfl

@[simp] theorem kept_cons_false (s : Sent) (marked : List (Sent × Bool)) :
    kept ((s, false) :: marked) = kept marked := rfl

@[simp] theorem deleted_cons_true (s : Sent) (marked : List (Sent × Bool)) :
    deleted ((s, true) :: marked) = deleted marked := rfl

@[simp] theorem deleted_cons_false (s : Sent) (marked : List (Sent × Bool)) :
    deleted ((s, false) :: marked) = s :: deleted marked := rfl

theorem mem_of_mem_kept {marked : List (Sent × Bool)} {s : Sent} (hs : s ∈ kept marked) :
    s ∈ marked.map Prod.fst := by
  obtain ⟨m, hm, rfl⟩ := List.mem_map.mp hs
  exact List.mem_map_of_mem (List.mem_of_mem_filter hm)

/-- Rows are left or lost. -/
theorem rowsIn_marked (marked : List (Sent × Bool)) :
    rowsIn (blocksOf (marked.map Prod.fst)) =
      rowsIn (blocksOf (kept marked)) + rowsIn (blocksOf (deleted marked)) := by
  induction marked with
  | nil => rfl
  | cons m marked ih =>
    obtain ⟨s, keep⟩ := m
    cases keep with
    | true =>
      simp only [List.map_cons, blocksOf_cons, kept_cons_true, deleted_cons_true, rowsIn_append, ih]
      omega
    | false =>
      simp only [List.map_cons, blocksOf_cons, kept_cons_false, deleted_cons_false, rowsIn_append,
        ih]
      omega

theorem sublist_kept (marked : List (Sent × Bool)) :
    (blocksOf (kept marked)).Sublist (blocksOf (marked.map Prod.fst)) := by
  induction marked with
  | nil => exact List.Sublist.refl _
  | cons m marked ih =>
    obtain ⟨s, keep⟩ := m
    cases keep with
    | true => exact (List.Sublist.refl s.block).append ih
    | false => exact ih.trans (List.sublist_append_right _ _)

theorem namesAfter_of_unnamed {records : List Record}
    (h : records.filterMap Record.assigned? = []) (n : Nat) : namesAfter n records = n := by
  induction records generalizing n with
  | nil => rfl
  | cons r records ih =>
    rw [List.filterMap_eq_nil_iff] at h
    rw [namesAfter_cons, ih (List.filterMap_eq_nil_iff.mpr fun r' hr' =>
      h r' (List.mem_cons_of_mem _ hr'))]
    have hr := h r List.mem_cons_self
    cases r with
    | nameAssign a => cases hr
    | setTimestamp | shiftTimestamp | smallInt | intPos | intNeg | double | string | null | true
    | false | unmodified | eof => rfl

/-- What is left can be read: no name is missing. -/
theorem validFrom_kept {marked : List (Sent × Bool)}
    (hnames : ∀ s ∈ deleted marked, s.block.filterMap Record.assigned? = []) :
    ∀ {n : Nat}, ValidFrom n (blocksOf (marked.map Prod.fst)) →
      ValidFrom n (blocksOf (kept marked)) := by
  induction marked with
  | nil => exact fun h => h
  | cons m marked ih =>
    intro n hvalid
    obtain ⟨s, keep⟩ := m
    rw [List.map_cons, blocksOf_cons, validFrom_append] at hvalid
    cases keep with
    | true =>
      rw [kept_cons_true, blocksOf_cons, validFrom_append]
      exact ⟨hvalid.1, ih hnames hvalid.2⟩
    | false =>
      rw [namesAfter_of_unnamed (hnames s List.mem_cons_self)] at hvalid
      exact ih (fun s' hs' => hnames s' (List.mem_cons_of_mem _ hs')) hvalid.2

/-- **What is left** ends with the end mark. -/
theorem kept_eq {sent : List Sent} {marked : List (Sent × Bool)} (h : Deletes sent marked)
    {records : List Record} {count : UInt64} (hrecords : blocksOf sent = records ++ [.eof count])
    (hunmarked : ∀ count, Record.eof count ∉ records) :
    ∃ rest, blocksOf (kept marked) = rest ++ [.eof count] ∧
      ∀ count, Record.eof count ∉ rest := by
  have hsublist := sublist_kept marked
  rw [h.frames, hrecords, List.sublist_append_iff] at hsublist
  obtain ⟨rest, mark, hkept, hrest, hmark⟩ := hsublist
  have hclean : ∀ count, Record.eof count ∉ rest :=
    fun count hmem => hunmarked count (hrest.subset hmem)
  refine ⟨rest, ?_, hclean⟩
  rw [hkept]
  congr 1
  -- the end mark was written, and is in no frame that was taken out
  have hmem : Record.eof count ∈ blocksOf (kept marked) := by
    have hwritten : Record.eof count ∈ blocksOf (marked.map Prod.fst) := by
      rw [h.frames, hrecords]
      exact List.mem_append_right _ List.mem_cons_self
    obtain ⟨s, hs, hmem⟩ := List.mem_flatMap.mp hwritten
    obtain ⟨⟨s, keep⟩, hm, rfl⟩ := List.mem_map.mp hs
    cases keep with
    | true =>
      exact List.mem_flatMap.mpr ⟨s, List.mem_map_of_mem (List.mem_filter.mpr ⟨hm, rfl⟩), hmem⟩
    | false =>
      have hs' : s ∈ deleted marked := List.mem_map_of_mem (List.mem_filter.mpr ⟨hm, rfl⟩)
      exact absurd hmem (h.marks s hs' count)
  rcases List.sublist_cons_iff.mp hmark with hnone | ⟨more, rfl, hmore⟩
  · rw [hkept, List.sublist_nil.mp hnone, List.append_nil] at hmem
    exact absurd hmem (hclean count)
  · rw [List.sublist_nil.mp hmore]

/-! ### The flag of a wrong count -/

/-- The reader has found the count of the end mark to be wrong. -/
def Unpack.Channel.Raised (ch : Unpack.Channel) : Prop :=
  ch.base.state = .onError ∧ ch.base.error = .rowCountMismatch

/-- The error comes with the state. -/
def Unpack.Channel.Flagged (ch : Unpack.Channel) : Prop :=
  ch.base.error = .rowCountMismatch → ch.base.state = .onError

namespace Unpack.Channel

variable {ch ch' : Unpack.Channel}

theorem Flagged.of_same (h : ch.Flagged) (herror : ch'.base.error = ch.base.error)
    (hstate : ch'.base.state = ch.base.state) : ch'.Flagged := by
  unfold Flagged
  rw [herror, hstate]
  exact h

theorem Flagged.readRow (h : ch.Flagged)
    {payload : Unpack.Entry → List UInt8 → Exec (Oval × List UInt8)}
    (hread : Channel.readRow payload ch = .ok ch') : ch'.Flagged := by
  obtain ⟨⟨i, e, top⟩, -, hread⟩ := Exec.bind_eq_ok.mp hread
  obtain ⟨⟨value, top'⟩, -, hread⟩ := Exec.bind_eq_ok.mp hread
  cases hread
  have hbase : ∀ (c : Unpack.Channel) (e : Unpack.Entry), (c.flushIfFlushable e).base = c.base := by
    intro c e
    unfold flushIfFlushable
    split <;> rfl
  refine h.of_same ?_ ?_ <;>
  · dsimp only
    rw [hbase]

theorem Flagged.readRecord (h : ch.Flagged) {version tag : UInt8}
    (hread : Channel.readRecord version tag ch = .ok ch') : ch'.Flagged := by
  unfold Channel.readRecord at hread
  split at hread
  case h_9 | h_10 | h_15 =>
    obtain ⟨⟨value, top⟩, -, hread⟩ := Exec.bind_eq_ok.mp hread
    cases hread
    exact h.of_same rfl rfl
  case h_11 =>
    obtain ⟨⟨length, top⟩, -, hread⟩ := Exec.bind_eq_ok.mp hread
    obtain ⟨ch₁, hinsert, hread⟩ := Exec.bind_eq_ok.mp hread
    obtain ⟨e, rfl⟩ := insertEntry_eq_ok hinsert
    cases hread
    have hbase := reserve_base { ch with top := top }
    exact h.of_same (congrArg Base.error hbase) (congrArg Base.state hbase)
  case h_13 =>
    obtain ⟨⟨expected, top⟩, -, hread⟩ := Exec.bind_eq_ok.mp hread
    dsimp only at hread
    split at hread
    · cases hread
      exact fun _ => rfl
    · cases hread
      exact h.of_same rfl rfl
  case h_16 =>
    cases hread
    exact h
  all_goals exact h.readRow hread

theorem Flagged.parseBlock (h : ch.Flagged) {version : UInt8}
    (hparse : Channel.parseBlock version ch = .ok ch') : ch'.Flagged := by
  obtain ⟨⟨flag, ch₁⟩, hrun, hparse⟩ := Exec.bind_eq_ok.mp hparse
  cases hparse
  refine Loop.run_invariant Flagged (fun c go c' hc hread => ?_) _ ch h flag _ hrun
  unfold parseRecord at hread
  split at hread
  · cases hread
    exact hc
  · rename_i tag top htop
    obtain ⟨c₁, htagged, hread⟩ := Exec.bind_eq_ok.mp hread
    cases hread
    have hpast : Flagged { c with top := top } := hc.of_same rfl rfl
    unfold readTagged at htagged
    split at htagged
    · exact hpast.readRow htagged
    · exact hpast.readRecord htagged

end Unpack.Channel

/-- The same for all channels of a reader. -/
def Unpack.OticUnpack.Flagged (u : OticUnpack) : Prop := ∀ ch ∈ u.channels, ch.Flagged

namespace Unpack.OticUnpack

variable {u u' : OticUnpack}

theorem Flagged.store (h : u.Flagged) (before : Unpack.Channel) {after : Unpack.Channel}
    (hafter : after.Flagged) : (u.store before after).Flagged := by
  intro ch hch
  obtain ⟨ch₀, hmem, rfl⟩ := List.mem_map.mp hch
  split
  · exact hafter
  · exact h ch₀ hmem

theorem Flagged.readData (h : u.Flagged) {ch : Unpack.Channel} (hch : ch.Flagged) {n : Nat}
    {go : Bool} (hread : u.readData zstd ch n = .ok (go, u')) : u'.Flagged := by
  cases (readData_eq_ok.mp hread).2 with
  | short =>
    have hcut : (ch.setBlockSize n).Flagged := by
      obtain ⟨top, topEnd, hset⟩ := ch.setBlockSize_eq n
      rw [hset]
      exact hch.of_same rfl rfl
    exact h.store ch hcut
  | @broken frame out _ hpayload =>
    obtain ⟨input, -, rfl⟩ := fetch_eq_some hpayload
    have h' : Flagged { u with input := input } := h
    have hbroken : ((ch.receive frame).spoil out).Flagged := by
      obtain ⟨top, topEnd, hspoil⟩ := (ch.receive frame).spoil_eq out
      rw [hspoil]
      intro herror
      cases herror
    exact h'.store ch hbroken
  | @read frame block _ _ hpayload _ hparse =>
    obtain ⟨input, -, rfl⟩ := fetch_eq_some hpayload
    have h' : Flagged { u with input := input } := h
    have hloaded : ((ch.receive frame).load block).Flagged := hch.of_same rfl rfl
    exact h'.store ch (hloaded.parseBlock hparse)

/-- **A DATA frame** leaves the channels flagged; only a definition would open one again. -/
theorem Flagged.parse_data (h : u.Flagged) {rest : List UInt8}
    (hinput : u.input = MetaType.data.toByte :: rest) {go : Bool}
    (hparse : u.parse zstd = .ok (go, u')) : u'.Flagged := by
  have htyped : ∀ {byte channelId : UInt8} {w : OticUnpack},
      u.fetch 2 = some ([byte, channelId], w) → MetaType.ofByte? byte = some .data := by
    intro byte channelId w hhead
    unfold fetch at hhead
    split at hhead
    · simp only [hinput, List.take_succ_cons, Option.some.injEq, Prod.mk.injEq,
        List.cons.injEq] at hhead
      rw [← hhead.1.1, MetaType.ofByte?_toByte]
    · cases hhead
  cases parse_eq_ok.mp hparse with
  | eof => exact h
  | unknown hhead | cut hhead =>
    obtain ⟨input, -, rfl⟩ := fetch_eq_some hhead
    exact h
  | data hhead _ hsize hfind hread =>
    obtain ⟨input, -, rfl⟩ := fetch_eq_some hhead
    obtain ⟨input', -, rfl⟩ := fetch_eq_some hsize
    have h' : Flagged { u with input := input' } := h
    exact h'.readData (h _ (mem_of_findChannel hfind).1) hread
  | @skip _ _ size _ _ hhead _ hsize =>
    obtain ⟨input, -, rfl⟩ := fetch_eq_some hhead
    obtain ⟨input', -, rfl⟩ := fetch_eq_some hsize
    obtain ⟨input'', -, hskip⟩ := skip_eq { u with input := input' } (Bytes.toUInt32 size).toNat
    rw [hskip]
    exact h
  | define hhead htype | compressionMethod hhead htype | channelType hhead htype
  | chunkSize hhead htype =>
    rw [htyped hhead] at htype
    cases htype

end Unpack.OticUnpack

/-! ### Reading what is left -/

/-- The frames are compressions of their records, for a bucket of this size. -/
def Compressed (zstd : Zstd) (size : UInt32) (sent : List Sent) : Prop :=
  ∀ s ∈ sent, zstd.compress size.toNat (encodeAll s.block) = some s.frame

/-- The buffers of a reader have room for the blocks. -/
def Fitting (size : UInt32) (sent : List Sent) : Prop :=
  ∀ s ∈ sent, (encodeAll s.block).length ≤ size.toNat

/-- **Some frames** of a channel are read one after the other. -/
theorem parse_sent (hlossless : zstd.Lossless) {sent : List Sent} :
    ∀ {events : List Event} {rest : List UInt8} {u : OticUnpack},
      Reads select events (bytesOf (sent.map (Sent.event id)) ++ rest) u →
      sizeOf id events = some size → Compressed zstd size sent → Fitting size sent →
      ValidFrom (namesAfter 0 (recordsOf id events)) (blocksOf sent) → u.Flagged →
        ∃ u', Loop.Goes (OticUnpack.parse zstd) u u' ∧
          Reads select (events ++ sent.map (Sent.event id)) rest u' ∧ u'.Flagged := by
  induction sent with
  | nil =>
    intro events rest u h _ _ _ _ hflagged
    rw [List.map_nil, List.append_nil]
    exact ⟨u, .refl u, h, hflagged⟩
  | cons s sent ih =>
    intro events rest u h hsize hcompressed hfitting hvalid hflagged
    rw [blocksOf_cons, validFrom_append] at hvalid
    rw [List.map_cons, bytesOf_cons, List.append_assoc] at h
    have hsound : Event.Sound zstd events id s.block s.frame :=
      ⟨⟨size, hsize, hcompressed s List.mem_cons_self, hfitting s List.mem_cons_self⟩, hvalid.1⟩
    obtain ⟨u₁, hparse, h₁⟩ := parse_data hlossless hsound h
    have hflagged₁ : u₁.Flagged := hflagged.parse_data h.input hparse
    obtain ⟨u', hgoes, h', hflagged'⟩ := ih h₁
      (by rw [sizeOf_concat_data]; exact hsize)
      (fun s' hs' => hcompressed s' (List.mem_cons_of_mem _ hs'))
      (fun s' hs' => hfitting s' (List.mem_cons_of_mem _ hs'))
      (by
        rw [recordsOf_append, namesAfter_append]
        simpa [Event.blockOf] using hvalid.2)
      hflagged₁
    refine ⟨u', .step hparse hgoes, ?_, hflagged'⟩
    rw [List.map_cons, List.append_cons]
    exact h'

/-- The error of a channel is what its records say. -/
theorem error_of_reads {events : List Event} {rest : List UInt8} {u : OticUnpack}
    (h : Reads select events rest u) {ch : Unpack.Channel} (hch : ch ∈ u.channels) :
    ch.base.error = (View.init.applyAll (recordsOf ch.channelId events)).error := by
  obtain ⟨⟨fr, top, hstands, -⟩, -⟩ := h.holds ch hch
  exact congrArg View.error hstands.view

/-- **The file** is read to its end, and the channel holds what its records amount to. -/
theorem read_fileOf (hlossless : zstd.Lossless) {sent : List Sent}
    (hcompressed : Compressed zstd size sent) (hfitting : Fitting size sent)
    (hvalid : ValidFrom 0 (blocksOf sent)) (hselect : select.Nodup) (hid : id ∈ select)
    (seeker : Bool) (features channelType : UInt8) :
    ∃ u ch, readFile zstd seeker select (fileOf features channelType id size sent) = .ok u ∧
      u.findChannel id = some ch ∧ ch.Flagged ∧
      ch.base.error = (View.init.applyAll (blocksOf sent)).error := by
  obtain ⟨u₀, hstart, h₀⟩ := start_reads Unpack.Channel.Allocated seeker hselect features
    (Event.defineBytes id channelType size ++ bytesOf (sent.map (Sent.event id)))
    fun _ _ hnone => nomatch hnone
  have hdefine : Reads select [] ((Event.define id channelType size).bytes ++
      bytesOf (sent.map (Sent.event id))) u₀ := h₀
  obtain ⟨u₁, hgoes₁, h₁⟩ := parse_define hdefine
  have hflagged₁ : u₁.Flagged := by
    intro ch hch herror
    rw [error_of_reads h₁ hch] at herror
    cases herror
  rw [← List.append_nil (bytesOf _)] at h₁
  obtain ⟨u, hgoes, h, hflagged⟩ := parse_sent hlossless h₁
    (by rw [sizeOf_concat_define, if_pos rfl]) hcompressed hfitting
    (by simpa [Event.blockOf] using hvalid) hflagged₁
  have hrun := (hgoes₁.trans hgoes).run h.stop (fun u => u.input.length)
    (fun _ _ => length_input_of_parse) (u₀.input.length + 1) (Nat.lt_succ_self _)
  obtain ⟨ch, hmem, hfind, hch⟩ := h.find hid
  refine ⟨u, ch, ?_, hfind, hflagged ch hmem, ?_⟩
  · rw [readFile, fileOf, hstart, Exec.ok_bind, OticUnpack.parseAll, hrun]
    rfl
  · have hrecords : recordsOf id (sent.map (Sent.event id)) = blocksOf sent := by
      rw [recordsOf_sent, if_pos rfl, blocksOf]
    rw [error_of_reads h hmem, hch, List.nil_append, recordsOf_append, hrecords]
    rfl

/-- What a channel has written when it is closed: rows that are counted, and the end mark. -/
structure Counts (records : List Record) (count : UInt64) : Prop where
  valid : ValidFrom 0 records
  unmarked : ∀ count, Record.eof count ∉ records
  rows : count = UInt64.ofNat (rowsIn records)

/-- **Lost rows** are found unless their number is a multiple of 2^64. -/
theorem raised_iff (hlossless : zstd.Lossless) {sent : List Sent}
    (hcompressed : Compressed zstd size sent) {records : List Record} {count : UInt64}
    (hrecords : blocksOf sent = records ++ [.eof count]) (hcounts : Counts records count)
    {marked : List (Sent × Bool)} (hdeletes : Deletes sent marked)
    (hfitting : Fitting size (kept marked)) (hselect : select.Nodup) (hid : id ∈ select)
    (seeker : Bool) (features channelType : UInt8) :
    ∃ u ch, readFile zstd seeker select (fileOf features channelType id size (kept marked)) =
        .ok u ∧ u.findChannel id = some ch ∧
      (ch.Raised ↔ ¬ 2 ^ 64 ∣ rowsIn (blocksOf (deleted marked))) := by
  obtain ⟨rest, hkept, hunmarked⟩ := kept_eq hdeletes hrecords hcounts.unmarked
  have hvalid : ValidFrom 0 (blocksOf (kept marked)) := by
    apply validFrom_kept hdeletes.names
    rw [hdeletes.frames, hrecords, validFrom_append]
    exact ⟨hcounts.valid, fun i hi => (by cases hi), trivial⟩
  have hleft : Compressed zstd size (kept marked) := by
    intro s hs
    have hmem := mem_of_mem_kept hs
    rw [hdeletes.frames] at hmem
    exact hcompressed s hmem
  obtain ⟨u, ch, hread, hfind, hflagged, herror⟩ :=
    read_fileOf hlossless hleft hfitting hvalid hselect hid seeker features channelType
  refine ⟨u, ch, hread, hfind, ?_⟩
  -- the reader has counted the rows that are left
  rw [hkept, validFrom_append] at hvalid
  obtain ⟨hcounter, hquiet⟩ := @View.counted_applyAll rest View.init hvalid.1 hunmarked
  have hrows := rowsIn_marked marked
  rw [hdeletes.frames, hrecords, hkept, rowsIn_append, rowsIn_append] at hrows
  have hmark : rowsIn [Record.eof count] = 0 := rfl
  have hwrong : count ≠ (View.init.applyAll rest).rowCounter ↔
      ¬ 2 ^ 64 ∣ rowsIn (blocksOf (deleted marked)) := by
    have hstart : View.init.rowCounter + UInt64.ofNat (rowsIn rest) = UInt64.ofNat (rowsIn rest) :=
      UInt64.zero_add _
    rw [hcounter, hstart, hcounts.rows, Ne, ← UInt64.toNat_inj, UInt64.toNat_ofNat',
      UInt64.toNat_ofNat']
    omega
  rw [hkept, View.applyAll_append, View.applyAll_cons, View.applyAll_nil, View.apply] at herror
  rw [← hwrong]
  constructor
  · rintro ⟨-, hraised⟩ hsame
    rw [herror, if_neg (not_not.mpr hsame), hquiet] at hraised
    cases hraised
  · intro hne
    rw [if_pos hne] at herror
    exact ⟨hflagged herror, herror⟩

/-! ### What a channel writes -/

namespace Pack.Encoder

/-- A call counts the rows it writes, and ends no channel. -/
theorem counts_inject (limit : Nat) (enc : Encoder) (c : Call) :
    (enc.inject limit c).encoder.rowCounter =
        enc.rowCounter + UInt64.ofNat (rowsIn (enc.inject limit c).records) ∧
      ∀ count, Record.eof count ∉ (enc.inject limit c).records := by
  have hnothing : enc.rowCounter = enc.rowCounter + UInt64.ofNat 0 := (UInt64.add_zero _).symm
  unfold Encoder.inject
  cases hclock : enc.clock c.tick with
  | none => exact ⟨hnothing, fun count hmem => by cases hmem⟩
  | some clock =>
    obtain ⟨hzero, hunmarked⟩ := rowsIn_clock hclock
    dsimp only
    split
    · rw [hzero]
      exact ⟨hnothing, hunmarked⟩
    · cases hrow : Encoder.row { enc with timestampCurrent := c.tick } c with
      | none =>
        dsimp only
        rw [hzero]
        exact ⟨hnothing, hunmarked⟩
      | some out =>
        obtain ⟨hcount, hone, hunmarked'⟩ := rowsIn_row hrow
        dsimp only
        rw [rowsIn_append, hzero, hone]
        refine ⟨hcount, fun count hmem => ?_⟩
        rcases List.mem_append.mp hmem with hmem | hmem
        · exact hunmarked count hmem
        · exact hunmarked' count hmem

theorem counts_run (limit : Nat) (cs : List Call) : ∀ enc : Encoder,
    (enc.run limit cs).encoder.rowCounter =
        enc.rowCounter + UInt64.ofNat (rowsIn (enc.run limit cs).records) ∧
      ∀ count, Record.eof count ∉ (enc.run limit cs).records := by
  induction cs with
  | nil => exact fun enc => ⟨(UInt64.add_zero _).symm, fun count hmem => by cases hmem⟩
  | cons c cs ih =>
    intro enc
    obtain ⟨hfirst, hunmarked⟩ := counts_inject limit enc c
    obtain ⟨hlater, hunmarked'⟩ := ih (enc.inject limit c).encoder
    simp only [Encoder.run]
    rw [hlater, hfirst, rowsIn_append, UInt64.ofNat_add, UInt64.add_assoc]
    refine ⟨rfl, fun count hmem => ?_⟩
    rcases List.mem_append.mp hmem with hmem | hmem
    · exact hunmarked count hmem
    · exact hunmarked' count hmem

end Pack.Encoder

/-- **The writer's count** is that of the rows it has written. -/
theorem counts_init (limit : Nat) (cs : List Call) :
    Counts (Encoder.init.run limit cs).records (Encoder.init.run limit cs).encoder.rowCounter := by
  obtain ⟨hrows, hunmarked⟩ := Encoder.counts_run limit cs Encoder.init
  refine ⟨(Encoder.Counted.run limit cs Encoder.counted_init).2, hunmarked, ?_⟩
  rw [hrows]
  exact UInt64.zero_add _

/-- The output is made of these frames, and one of them has the end mark. -/
structure Frames (zstd : Zstd) (features channelType id : UInt8) (size : UInt32)
    (output : List UInt8) (sent : List Sent) : Prop where
  output : output = fileOf features channelType id size sent
  compressed : Compressed zstd size sent
  ended : ∃ count, Record.eof count ∈ blocksOf sent

/-- A frame is told from what follows, and its records are told from it. -/
theorem Sent.eq_of_bytes (hlossless : zstd.Lossless) {s s' : Sent} {rest rest' : List UInt8}
    (hframe : zstd.compress size.toNat (encodeAll s.block) = some s.frame)
    (hframe' : zstd.compress size.toNat (encodeAll s'.block) = some s'.frame)
    (h : (s.event id).bytes ++ rest = (s'.event id).bytes ++ rest') : s = s' ∧ rest = rest' := by
  have hlt : ∀ {t : Sent}, zstd.compress size.toNat (encodeAll t.block) = some t.frame →
      t.frame.length < 2 ^ 32 := by
    intro t ht
    exact lt_of_le_of_lt (hlossless.compress_le ht) size.toNat_lt
  obtain ⟨block, frame⟩ := s
  obtain ⟨block', frame'⟩ := s'
  simp only [Sent.event, Event.bytes, Event.dataHeader, List.cons_append, List.append_assoc,
    List.cons.injEq, true_and] at h
  obtain ⟨hcount, hbytes⟩ := List.append_inj h (by simp)
  have hlength : frame.length = frame'.length := by
    have hsame := congrArg Bytes.toUInt32 hcount
    rw [Bytes.toUInt32_ofUInt32, Bytes.toUInt32_ofUInt32] at hsame
    have hnat := congrArg UInt32.toNat hsame
    rw [UInt32.toNat_ofNat', UInt32.toNat_ofNat', Nat.mod_eq_of_lt (hlt hframe),
      Nat.mod_eq_of_lt (hlt hframe')] at hnat
    exact hnat
  obtain ⟨rfl, hrest⟩ := List.append_inj hbytes hlength
  have hblock := hlossless.decompress_compress hframe
    (Nat.le_max_left _ (encodeAll block').length)
  have hblock' := hlossless.decompress_compress hframe'
    (Nat.le_max_right (encodeAll block).length _)
  rw [hblock, Option.some.injEq] at hblock'
  have hsame : block = block' := encodeAll_injective hblock'
  subst hsame
  exact ⟨rfl, hrest⟩

theorem sent_eq_of_fileOf (hlossless : zstd.Lossless) {sent : List Sent} :
    ∀ {sent' : List Sent}, Compressed zstd size sent → Compressed zstd size sent' →
      fileOf features channelType id size sent = fileOf features channelType id size sent' →
        sent = sent' := by
  intro sent' hcompressed hcompressed' h
  have hbytes : bytesOf (sent.map (Sent.event id)) = bytesOf (sent'.map (Sent.event id)) :=
    List.append_cancel_left (List.append_cancel_left h)
  induction sent generalizing sent' with
  | nil =>
    cases sent' with
    | nil => rfl
    | cons s' sent' => simp [Sent.event, Event.bytes, Event.dataHeader] at hbytes
  | cons s sent ih =>
    cases sent' with
    | nil => simp [Sent.event, Event.bytes, Event.dataHeader] at hbytes
    | cons s' sent' =>
      rw [List.map_cons, List.map_cons, bytesOf_cons, bytesOf_cons] at hbytes
      obtain ⟨rfl, hrest⟩ := Sent.eq_of_bytes hlossless (hcompressed s List.mem_cons_self)
        (hcompressed' s' List.mem_cons_self) hbytes
      rw [ih (fun t ht => hcompressed t (List.mem_cons_of_mem _ ht))
        (fun t ht => hcompressed' t (List.mem_cons_of_mem _ ht))
        (by rw [fileOf, fileOf, hrest]) hrest]

/-- **The frames of a run** hold what the encoder writes when it is told some calls. -/
theorem Frames.records (hlossless : zstd.Lossless) (hid : id ≠ 0) (hwilling : Willing answers)
    {sent : List Sent} (hframes : Frames zstd features channelType id
      (OticPack.effectiveSize bufferSize)
      (closedAfter zstd features channelType id bufferSize answers moves).parent.accepted sent) :
    ∃ told, blocksOf sent = (Encoder.init.run
      (OticPack.effectiveSize bufferSize - OTIC_PACK_CACHE_TOP_LIMIT).toNat told).closed := by
  obtain ⟨told, sent', lost, -, -, hhanded, -⟩ :=
    handed_closedAfter hlossless hid hwilling moves rfl
  have hsame := sent_eq_of_fileOf hlossless hframes.compressed hhanded.compressed
    (hframes.output.symm.trans hhanded.accepted)
  subst hsame
  obtain ⟨count, hmark⟩ := hframes.ended
  have hcontent := hhanded.content
  have hunmarked := (counts_init
    (OticPack.effectiveSize bufferSize - OTIC_PACK_CACHE_TOP_LIMIT).toNat told).unmarked
  refine ⟨told, ?_⟩
  -- the end mark is the last record, so nothing is missing behind it
  cases lost using List.reverseRecOn with
  | nil =>
    rw [hcontent, List.append_nil]
  | append_singleton lost last =>
    rw [Encoder.Outcomes.closed, ← List.append_assoc] at hcontent
    obtain ⟨hrecords, -⟩ := List.append_inj' hcontent rfl
    refine absurd ?_ (hunmarked count)
    rw [hrecords]
    exact List.mem_append_left _ hmark

/-- What is sent up to the close of a channel are the frames of the output. -/
theorem frames_closedAfter (hlossless : zstd.Lossless) (hid : id ≠ 0) (hwilling : Willing answers)
    (moves : List Move)
    (hclosable : ((firstChannel features channelType id bufferSize answers).moves zstd
      moves).2.channel.Closable zstd) :
    ∃ sent, Frames zstd features channelType id (OticPack.effectiveSize bufferSize)
        (closedAfter zstd features channelType id bufferSize answers moves).parent.accepted sent ∧
      ((closedAfter zstd features channelType id bufferSize answers moves).channel.overrun =
        false → Fitting (OticPack.effectiveSize bufferSize) sent) := by
  obtain ⟨told, sent, lost, -, -, hhanded, hnone, -⟩ :=
    @handed_closedAfter zstd features channelType id bufferSize answers hlossless hid hwilling
      moves _ rfl
  have hcontent := hhanded.content
  rw [hnone hclosable, List.append_nil] at hcontent
  refine ⟨sent, ⟨hhanded.accepted, hhanded.compressed, ?_⟩, hhanded.sized⟩
  rw [← hcontent]
  exact ⟨_, List.mem_append_right _ List.mem_cons_self⟩

/-- The sensor `"a"` has no value at tick 7. -/
def nothing : Call := ⟨⟨7, seven_lt_TS_NULL⟩, ⟨[0x61], notMem_a, sized_a⟩, none, .null, []⟩

/-- A row and a flush, and then some rows and a flush. -/
def manyRows (n : Nat) : List Move :=
  .inject nothing :: .flush :: ((List.replicate n nothing).map Move.inject ++ [.flush])

/-- **The end mark gives away lost rows**, unless their number is a multiple of 2^64: after
any calls on a channel, whatever frames without names are taken out, if the reader has room
for the blocks of the others.  A channel whose last block is compressed leaves such frames,
and if nothing was written past the end of its bucket, the reader has room for all of them. -/
theorem lostRows_iff (hlossless : zstd.Lossless) (hid : id ≠ 0) (hwilling : Willing answers)
    (moves : List Move) (hselect : select.Nodup) (hmem : id ∈ select) (seeker : Bool) :
    let first := firstChannel features channelType id bufferSize answers
    let size := OticPack.effectiveSize bufferSize
    let closed := closedAfter zstd features channelType id bufferSize answers moves
    ((first.moves zstd moves).2.channel.Closable zstd →
      ∃ sent, Frames zstd features channelType id size closed.parent.accepted sent ∧
        (closed.channel.overrun = false → Fitting size sent)) ∧
    ∀ sent, Frames zstd features channelType id size closed.parent.accepted sent →
      ∀ marked, Deletes sent marked → Fitting size (kept marked) →
        ∃ u ch, readFile zstd seeker select
            (fileOf features channelType id size (kept marked)) = .ok u ∧
          u.findChannel id = some ch ∧
          (ch.Raised ↔ ¬ 2 ^ 64 ∣ rowsIn (blocksOf (deleted marked))) := by
  intro first size closed
  constructor
  · exact frames_closedAfter hlossless hid hwilling moves
  · intro sent hframes marked hdeletes hfitting
    obtain ⟨told, hrecords⟩ := hframes.records hlossless hid hwilling
    exact raised_iff hlossless hframes.compressed hrecords (counts_init _ _) hdeletes hfitting
      hselect hmem seeker features channelType

/-- Two frames with a row each, and the one with the end mark. -/
theorem lostRows_iff_manyRows :
    ∃ sent, Frames Zstd.stored 0 0 1 512
        (closedAfter Zstd.stored 0 0 1 512 [] (manyRows 1)).parent.accepted sent ∧
      ∀ marked, Deletes sent marked →
        ∃ u ch, readFile Zstd.stored false [1] (fileOf 0 0 1 512 (kept marked)) = .ok u ∧
          u.findChannel 1 = some ch ∧
          (ch.Raised ↔ ¬ 2 ^ 64 ∣ rowsIn (blocksOf (deleted marked))) := by
  have hclosable : ((firstChannel 0 0 1 512 []).moves Zstd.stored
      (manyRows 1)).2.channel.Closable Zstd.stored := by decide +kernel
  have hinside : (closedAfter Zstd.stored 0 0 1 512 [] (manyRows 1)).channel.overrun = false := by
    decide +kernel
  obtain ⟨hleaves, hall⟩ := @lostRows_iff Zstd.stored [1] 0 0 1 512 [] Zstd.stored_lossless
    (by decide) (by decide) (manyRows 1) (List.nodup_singleton 1) List.mem_cons_self false
  obtain ⟨sent, hframes, hfitting⟩ := hleaves hclosable
  refine ⟨sent, hframes, fun marked hdeletes => hall sent hframes marked hdeletes ?_⟩
  intro s hs
  have hmem := mem_of_mem_kept hs
  rw [hdeletes.frames] at hmem
  exact hfitting hinside s hmem

/-! ### As many rows as the counters have numbers -/

/-- The end mark gives away every loss of rows that a reader can read the rest of. -/
def DetectsLostRows (zstd : Zstd) (seeker : Bool) (select : List UInt8)
    (features channelType id : UInt8) (bufferSize : UInt32) (answers : List Bool)
    (moves : List Move) : Prop :=
  ∀ sent marked, Frames zstd features channelType id (OticPack.effectiveSize bufferSize)
      (closedAfter zstd features channelType id bufferSize answers moves).parent.accepted sent →
    Deletes sent marked → Fitting (OticPack.effectiveSize bufferSize) (kept marked) →
      ∃ u ch, readFile zstd seeker select (fileOf features channelType id
          (OticPack.effectiveSize bufferSize) (kept marked)) = .ok u ∧
        u.findChannel id = some ch ∧ (ch.Raised ↔ ∃ s ∈ deleted marked, rowsIn s.block ≠ 0)

/-- A call that says nothing new, at the tick of the one before it. -/
theorem run_replicate {limit : Nat} {c : Call} {entry : Pack.Entry} (n : Nat) :
    ∀ {enc : Encoder}, enc.timestampCurrent = c.tick.val → c.value.textSize ≤ limit →
      Pack.Channel.entryFind enc.cache c.sensorName = some entry →
      c.injection.same entry.lastValue = true →
        (enc.run limit (List.replicate n c)).records =
          List.replicate n (.unmodified entry.index) := by
  induction n with
  | zero => exact fun _ _ _ _ => rfl
  | succ n ih =>
    intro enc htick htext hentry hsame
    have hinject : enc.inject limit c =
        ⟨true, { enc with rowCounter := enc.rowCounter + 1 }, [.unmodified entry.index]⟩ := by
      have hclock : enc.clock c.tick = some [] := if_pos htick
      have hrow : Encoder.row { enc with timestampCurrent := c.tick } c =
          some ({ enc with rowCounter := enc.rowCounter + 1 }, [.unmodified entry.index]) := by
        unfold Encoder.row
        rw [← htick]
        dsimp only
        rw [hentry]
        dsimp only [Encoder.knownRow]
        rw [if_pos hsame]
      simp only [Encoder.inject, hclock, if_neg (Nat.not_lt.mpr htext), hrow, List.nil_append]
    have hlater := @ih { enc with rowCounter := enc.rowCounter + 1 } htick htext hentry hsame
    rw [List.replicate_succ, List.replicate_succ]
    simp only [Encoder.run, hinject, hlater]
    rfl

theorem moves_append (ms ms' : List Move) : ∀ h : Handle,
    (h.moves zstd (ms ++ ms')).2 = ((h.moves zstd ms).2.moves zstd ms').2 := by
  induction ms with
  | nil => exact fun _ => rfl
  | cons m ms ih =>
    intro h
    cases m with
    | inject c => exact ih _
    | flush => exact ih _

/-- **Some injects and a flush**: everything is sent. -/
theorem sends_flushed (hlossless : zstd.Lossless) {h : Handle} (hempty : h.channel.pending = [])
    (he : h.Easy zstd 0) (calls : List Call) :
    ∃ h' sent, (∀ moves, (h.moves zstd (calls.map Move.inject ++ .flush :: moves)).2 =
        (h'.moves zstd moves).2) ∧
      h'.channel.encoder = (h.channel.encoder.run h.channel.threshold calls).encoder ∧
      h'.Easy zstd 0 ∧
      Sends zstd h [] (h.channel.encoder.run h.channel.threshold calls).records sent h' [] := by
  have hinjects : injectsOf (calls.map Move.inject) = calls := by
    simp [injectsOf, List.filterMap_map]
  obtain ⟨hfeeds, he₁⟩ := he.moves hlossless (calls.map Move.inject)
  obtain ⟨-, hencoder, sent, held, hsends⟩ := moves_spec hlossless (calls.map Move.inject)
    (hempty.trans encodeAll_nil.symm) he.roomy.sound he.willing hfeeds.packed
  rw [hinjects] at hencoder hsends
  obtain ⟨ok, h', hflush, hencoder', -, hsent⟩ :=
    channelFlush_spec hlossless hsends.pending he₁.roomy.sound he₁.willing.neverTorn
  obtain ⟨hok, -, he', -⟩ := he₁.flush hlossless (by omega)
  rw [hflush] at hok he'
  rcases hsent with ⟨-, frame, hsends'⟩ | ⟨rfl, -⟩
  · have hall := hsends.trans hsends'
    rw [List.append_nil] at hall
    refine ⟨h', _, fun moves => ?_, hencoder'.trans hencoder, he', hall⟩
    rw [moves_append, Handle.moves, hflush]
  · cases hok

/-- What is taken out from the middle. -/
def withoutMiddle (first middle last : List Sent) : List (Sent × Bool) :=
  first.map (fun s => (s, true)) ++ (middle.map (fun s => (s, false)) ++
    last.map (fun s => (s, true)))

theorem deleted_withoutMiddle (first middle last : List Sent) :
    deleted (withoutMiddle first middle last) = middle := by
  simp [withoutMiddle, deleted, List.filter_append, List.filter_map, Function.comp_def]

/-- Frames of rows that say nothing new can be taken out. -/
theorem deletes_unmodified {first middle last : List Sent} {index : UInt32} {n : Nat}
    (hrows : blocksOf middle = List.replicate n (.unmodified index)) :
    Deletes (first ++ middle ++ last) (withoutMiddle first middle last) := by
  have hblock : ∀ s ∈ middle, ∀ r ∈ s.block, r = Record.unmodified index := by
    intro s hs r hr
    have hmem : r ∈ blocksOf middle := List.mem_flatMap.mpr ⟨s, hs, hr⟩
    rw [hrows] at hmem
    exact List.eq_of_mem_replicate hmem
  refine ⟨by simp [withoutMiddle, Function.comp_def], ?_, ?_⟩
  · rw [deleted_withoutMiddle]
    intro s hs
    refine List.filterMap_eq_nil_iff.mpr fun r hr => ?_
    rw [hblock s hs r hr]
    rfl
  · rw [deleted_withoutMiddle]
    intro s hs count hmem
    cases hblock s hs _ hmem

/-- **The frames of many rows**: those of the second flush hold rows only. -/
theorem frames_manyRows (hlossless : zstd.Lossless) (hample : zstd.Ample 512) (n : Nat) :
    ∃ first middle last index, Frames zstd 0 0 1 512
        (closedAfter zstd 0 0 1 512 [] (manyRows n)).parent.accepted (first ++ middle ++ last) ∧
      Fitting 512 (first ++ middle ++ last) ∧
      blocksOf middle = List.replicate n (.unmodified index) := by
  have he : (firstChannel 0 0 1 512 []).Easy zstd 0 :=
    ⟨Pack.Channel.roomy_init 1 0 (by decide), hample, fun _ h => by cases h⟩
  obtain ⟨h₁, first, hmoves₁, hencoder₁, he₁, hsends₁⟩ :=
    sends_flushed hlossless rfl he [nothing]
  obtain ⟨h₂, middle, hmoves₂, hencoder₂, he₂, hsends₂⟩ :=
    sends_flushed hlossless hsends₁.pending he₁ (List.replicate n nothing)
  obtain ⟨frame, hlast⟩ := finish_spec hlossless hsends₂.pending he₂.willing
    (Channel.closable_of_ample he₂.roomy he₂.ample)
  have hclosed : closedAfter zstd 0 0 1 512 [] (manyRows n) = h₂.finish zstd := by
    have hall := (hmoves₁ _).trans (hmoves₂ [])
    exact congrArg (Handle.finish zstd) hall
  have hthreshold : h₁.channel.threshold = (firstChannel 0 0 1 512 []).channel.threshold :=
    congrArg Shape.threshold hsends₁.shape
  rw [hencoder₁, hthreshold] at hsends₂
  -- the sensor is known after the first flush
  obtain ⟨entry, hentry, hsame⟩ : ∃ entry, Pack.Channel.entryFind
      (Encoder.init.run (firstChannel 0 0 1 512 []).channel.threshold [nothing]).encoder.cache
        nothing.sensorName = some entry ∧ nothing.injection.same entry.lastValue = true :=
    ⟨_, rfl, rfl⟩
  have hcontent := hsends₂.content
  have htick : (Encoder.init.run (firstChannel 0 0 1 512 []).channel.threshold
      [nothing]).encoder.timestampCurrent = nothing.tick.val := rfl
  have htext : nothing.value.textSize ≤ (firstChannel 0 0 1 512 []).channel.threshold :=
    Nat.zero_le _
  rw [List.nil_append, List.append_nil] at hcontent
  have hall := ((hsends₁.trans hsends₂).trans hlast).handed (by decide)
  have hsize : OticPack.effectiveSize 512 = 512 := rfl
  rw [← hclosed, hsize] at hall
  have hmark : Record.eof h₂.channel.base.rowCounter ∈
      blocksOf [⟨[] ++ [.eof h₂.channel.base.rowCounter], frame⟩] := by
    simp [blocksOf]
  generalize ([⟨[] ++ [.eof h₂.channel.base.rowCounter], frame⟩] : List Sent) = last at hall hmark
  refine ⟨first, middle, last, entry.index, ?_, ?_,
    hcontent.symm.trans (run_replicate n htick htext hentry hsame)⟩
  · refine ⟨hall.accepted, hall.compressed, h₂.channel.base.rowCounter, ?_⟩
    rw [blocksOf, List.flatMap_append]
    exact List.mem_append_right _ hmark
  · apply hall.sized
    rw [hclosed]
    exact inside_finish he₂.roomy

theorem rowsIn_blocksOf_eq_zero {sent : List Sent} (h : ∀ s ∈ sent, rowsIn s.block = 0) :
    rowsIn (blocksOf sent) = 0 := by
  rw [rowsIn, List.countP_eq_zero]
  intro r hr
  obtain ⟨s, hs, hr⟩ := List.mem_flatMap.mp hr
  exact List.countP_eq_zero.mp (h s hs) r hr

/-- **What is not detected**: the loss of a positive multiple of 2^64 rows. -/
theorem not_detects_of_deletes (hlossless : zstd.Lossless) (hid : id ≠ 0)
    (hwilling : Willing answers) {sent : List Sent}
    (hframes : Frames zstd features channelType id (OticPack.effectiveSize bufferSize)
      (closedAfter zstd features channelType id bufferSize answers moves).parent.accepted sent)
    {marked : List (Sent × Bool)} (hdeletes : Deletes sent marked)
    (hfitting : Fitting (OticPack.effectiveSize bufferSize) (kept marked))
    (hsome : rowsIn (blocksOf (deleted marked)) ≠ 0)
    (hdvd : 2 ^ 64 ∣ rowsIn (blocksOf (deleted marked))) (hselect : select.Nodup)
    (hmem : id ∈ select) :
    ¬ DetectsLostRows zstd seeker select features channelType id bufferSize answers moves := by
  intro hdetects
  obtain ⟨told, hrecords⟩ := hframes.records hlossless hid hwilling
  obtain ⟨u, ch, hread, hfind, hraised⟩ := raised_iff hlossless hframes.compressed hrecords
    (counts_init _ _) hdeletes hfitting hselect hmem seeker features channelType
  obtain ⟨u', ch', hread', hfind', hraised'⟩ := hdetects _ _ hframes hdeletes hfitting
  -- it is the same reading
  rw [hread, Except.ok.injEq] at hread'
  subst hread'
  rw [hfind, Option.some.injEq] at hfind'
  subst hfind'
  refine hraised.mp (hraised'.mpr ?_) hdvd
  by_contra hnone
  push Not at hnone
  exact hsome (rowsIn_blocksOf_eq_zero hnone)

/-- 2^64 rows are lost, and the numbers are the same. -/
theorem not_detectsLostRows :
    ¬ DetectsLostRows Zstd.stored false [1] 0 0 1 512 [] (manyRows (2 ^ 64)) := by
  obtain ⟨first, middle, last, index, hframes, hfitting, hrows⟩ :=
    frames_manyRows Zstd.stored_lossless (Zstd.stored_ample 512) (2 ^ 64)
  have hdeletes := @deletes_unmodified first middle last index _ hrows
  have hcount : rowsIn (blocksOf (deleted (withoutMiddle first middle last))) = 2 ^ 64 := by
    rw [deleted_withoutMiddle, hrows, rowsIn, List.countP_replicate]
    exact if_pos rfl
  refine not_detects_of_deletes Zstd.stored_lossless (by decide) (by decide) hframes hdeletes ?_
    ?_ ?_ (List.nodup_singleton 1) List.mem_cons_self
  · intro s hs
    have hmem := mem_of_mem_kept hs
    rw [hdeletes.frames] at hmem
    exact hfitting s hmem
  · rw [hcount]
    norm_num
  · rw [hcount]

end Otic
