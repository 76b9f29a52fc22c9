import Otic.Unpack.Buffers

/-!
# The fetch list

`otic_unpack_channel_toFetch` keeps the hashes of some sensor names, and a row of a sensor
whose name has another hash does not get to the callback.  Everything else is decoded all
the same: a reader with the list is at every step what the reader without it is, but for
the flags of its entries and the calls it made (`parseAll_select`).
-/

namespace Otic.Unpack

/-- The hash of the name is among these. -/
def fetches (hashes : List UInt64) (name : List UInt8) : Bool := hashes.contains (hashBytes name)

/-- An entry in a channel with a fetch list. -/
def Entry.select (hashes : List UInt64) (e : Entry) : Entry :=
  { e with ignore := !fetches hashes (Bytes.untilZero e.name) }

namespace Channel

/-- `otic_unpack_channel_toFetch`. -/
def setToFetch (ch : Channel) (values : List CStr) : Channel :=
  if values = [] then ch else { ch with toFetch := values.map fun value => hashBytes value.bytes }

/-- A channel that had a fetch list all the time. -/
def select (hashes : List UInt64) (ch : Channel) : Channel :=
  { ch with
    toFetch := hashes
    cache := ch.cache.map (Option.map (Entry.select hashes))
    flushed := ch.flushed.filter fun row => fetches hashes row.name }

variable {hashes : List UInt64} {ch ch' : Channel}

/-! ### Records -/

theorem flushIfFlushable_select (hhashes : hashes ≠ []) (hch : ch.toFetch = []) (e : Entry) :
    (ch.select hashes).flushIfFlushable (e.select hashes) =
      (ch.flushIfFlushable e).select hashes := by
  have hlist : hashes.isEmpty = false := by simpa using hhashes
  unfold flushIfFlushable
  simp only [hch, List.isEmpty_nil, Bool.not_true, Bool.and_false, Bool.false_eq_true, if_false,
    select, hlist, Bool.not_false, Bool.and_true, Entry.select, List.filter_append]
  cases hfetch : fetches hashes (Bytes.untilZero e.name) with
  | true => simp [hfetch]
  | false => simp [hfetch]

theorem selectEntry_select {i : Nat} {e : Entry} {top : List UInt8}
    (hselect : selectEntry ch = .ok (i, e, top)) :
    selectEntry (ch.select hashes) = .ok (i, e.select hashes, top) := by
  obtain ⟨⟨number, top'⟩, hnumber, hslot⟩ := Exec.bind_eq_ok.mp hselect
  have hnumber' : leb128DecodeUnsigned (ch.select hashes).top = .ok (number, top') := hnumber
  simp only [selectEntry, hnumber', Exec.ok_bind]
  dsimp only at hslot
  split at hslot
  · rename_i entry hentry
    cases hslot
    simp only [select, List.getElem?_map, hentry]
    rfl
  · cases hslot

/-- What comes of one record: the same in a channel with a fetch list, and the calls so
far stay. -/
def Parallel (hashes : List UInt64) (step : Channel → Exec Channel) (ch : Channel) : Prop :=
  ∀ ch', step ch = .ok ch' →
    step (ch.select hashes) = .ok (ch'.select hashes) ∧ ch.flushed <+: ch'.flushed

/-- **A row** is read in the same way, and delivered if its sensor was listed. -/
theorem readRow_parallel (hhashes : hashes ≠ []) (hch : ch.toFetch = [])
    {payload : Entry → List UInt8 → Exec (Oval × List UInt8)}
    (hpayload : ∀ e top, payload (e.select hashes) top = payload e top) :
    Parallel hashes (readRow payload) ch := by
  intro ch' hread
  obtain ⟨⟨i, e, top⟩, hselect, hread⟩ := Exec.bind_eq_ok.mp hread
  obtain ⟨⟨value, top'⟩, hvalue, hread⟩ := Exec.bind_eq_ok.mp hread
  cases hread
  have hflush := @flushIfFlushable_select hashes
    { ch with top := top', cache := ch.cache.set i (some { e with value := value }) } hhashes hch
    { e with value := value }
  constructor
  · simp only [readRow, selectEntry_select hselect, Exec.ok_bind, hpayload, hvalue]
    have hset : (ch.select hashes).cache.set i (some { e.select hashes with value := value }) =
        (ch.cache.set i (some { e with value := value })).map
          (Option.map (Entry.select hashes)) := by
      rw [List.map_set]
      rfl
    rw [hset]
    have hcount := congrArg (fun c : Channel =>
      { c with base := { c.base with rowCounter := c.base.rowCounter + 1 } }) hflush
    exact congrArg Except.ok hcount
  · unfold flushIfFlushable
    split
    · exact List.prefix_refl _
    · exact List.prefix_append _ _

theorem reserve_select (ch : Channel) : (ch.select hashes).reserve = ch.reserve.select hashes := by
  unfold reserve
  by_cases hleft : ch.allocationLeft = 0
  · rw [if_pos hleft, if_pos (show (ch.select hashes).allocationLeft = 0 from hleft)]
    simp [select]
  · rw [if_neg hleft, if_neg (show (ch.select hashes).allocationLeft ≠ 0 from hleft)]

theorem pushEntry_select (ch : Channel) (e : Entry) :
    (ch.select hashes).pushEntry (e.select hashes) = (ch.pushEntry e).select hashes := by
  simp [pushEntry, select, List.map_set]

/-- **A name** is entered in both, with its own flag. -/
theorem insertEntry_select {value : List UInt8} {length : Nat}
    (hinsert : insertEntry ch value length = .ok ch') :
    insertEntry (ch.select hashes) value length = .ok (ch'.select hashes) := by
  unfold insertEntry at hinsert ⊢
  dsimp only at hinsert ⊢
  rw [reserve_select]
  split at hinsert
  · cases hinsert
  · rename_i hend
    rw [if_neg hend]
    split at hinsert
    · cases hinsert
    · rename_i hunit
      rw [if_neg hunit]
      split at hinsert
      · cases hinsert
      · rename_i hlength
        rw [if_neg hlength]
        cases hinsert
        rw [← pushEntry_select]
        rfl

theorem readNameAssign_parallel (ch : Channel) : Parallel hashes readNameAssign ch := by
  intro ch' hread
  obtain ⟨⟨length, top⟩, hlength, hread⟩ := Exec.bind_eq_ok.mp hread
  obtain ⟨ch₁, hinsert, hread⟩ := Exec.bind_eq_ok.mp hread
  cases hread
  have hlength' : takeByte (ch.select hashes).top = .ok (length, top) := hlength
  have hinsert' : insertEntry { ch.select hashes with top := top } top length.toNat =
      .ok (ch₁.select hashes) := @insertEntry_select _ { ch with top := top } _ _ _ hinsert
  constructor
  · simp only [readNameAssign, hlength', hinsert', Exec.ok_bind]
    rfl
  · obtain ⟨e, rfl⟩ := insertEntry_eq_ok hinsert
    change ch.flushed <+: (reserve { ch with top := top }).flushed
    rw [reserve_flushed]

/-- **A record**: only rows are delivered, and only names look at the list. -/
theorem readRecord_parallel (hhashes : hashes ≠ []) (hch : ch.toFetch = []) (version tag : UInt8) :
    Parallel hashes (readRecord version tag) ch := by
  intro ch' hread
  unfold readRecord at hread ⊢
  split at hread
  case h_9 | h_10 | h_15 =>
    obtain ⟨⟨value, top⟩, hvalue, hread⟩ := Exec.bind_eq_ok.mp hread
    cases hread
    have hvalue' : leb128DecodeUnsigned (ch.select hashes).top = .ok (value, top) := hvalue
    refine ⟨?_, List.prefix_refl _⟩
    simp only [readSetTimestamp, readShiftTimestamp, readRawbuffer, hvalue', Exec.ok_bind]
    rfl
  case h_11 => exact readNameAssign_parallel ch ch' hread
  case h_13 =>
    obtain ⟨⟨expected, top⟩, hexpected, hread⟩ := Exec.bind_eq_ok.mp hread
    have hexpected' : leb128DecodeUnsigned (ch.select hashes).top = .ok (expected, top) := hexpected
    simp only [readEof, hexpected', Exec.ok_bind]
    dsimp only at hread
    split at hread
    · rename_i hcount
      cases hread
      exact ⟨if_pos hcount, List.prefix_refl _⟩
    · rename_i hcount
      cases hread
      exact ⟨if_neg hcount, List.prefix_refl _⟩
  case h_16 =>
    cases hread
    exact ⟨rfl, List.prefix_refl _⟩
  all_goals exact readRow_parallel hhashes hch (fun _ _ => rfl) ch' hread

theorem readTagged_parallel (hhashes : hashes ≠ []) (hch : ch.toFetch = []) (version tag : UInt8) :
    Parallel hashes (readTagged version tag) ch := by
  intro ch' hread
  unfold readTagged at hread ⊢
  split at hread
  · rename_i hsmall
    rw [if_pos hsmall]
    exact readRow_parallel hhashes hch (fun _ _ => rfl) ch' hread
  · rename_i hsmall
    rw [if_neg hsmall]
    exact readRecord_parallel hhashes hch version tag ch' hread

theorem parseRecord_parallel (hhashes : hashes ≠ []) (hch : ch.toFetch = []) {version : UInt8}
    {go : Bool} (hparse : parseRecord version ch = .ok (go, ch')) :
    parseRecord version (ch.select hashes) = .ok (go, ch'.select hashes) ∧
      ch.flushed <+: ch'.flushed := by
  unfold parseRecord at hparse ⊢
  split at hparse
  · rename_i hempty
    cases hparse
    have hempty' : (ch.select hashes).top = [] := hempty
    rw [hempty']
    exact ⟨rfl, List.prefix_refl _⟩
  · rename_i tag top htop
    obtain ⟨ch₁, hread, hparse⟩ := Exec.bind_eq_ok.mp hparse
    cases hparse
    have htop' : (ch.select hashes).top = tag :: top := htop
    obtain ⟨hread', hflushed⟩ :=
      @readTagged_parallel _ { ch with top := top } hhashes hch version tag ch' hread
    have hread'' : readTagged version tag { ch.select hashes with top := top } =
        .ok (ch'.select hashes) := hread'
    rw [htop']
    dsimp only
    rw [hread'']
    exact ⟨rfl, hflushed⟩

/-- **A block**, by the rule for the loop. -/
theorem parseBlock_parallel (hhashes : hashes ≠ []) (hch : ch.toFetch = []) (version : UInt8) :
    Parallel hashes (parseBlock version) ch := by
  intro ch' hparse
  obtain ⟨⟨flag, ch₁⟩, hrun, hparse⟩ := Exec.bind_eq_ok.mp hparse
  cases hparse
  let inv (c : Channel) : Prop := c.toFetch = [] ∧ ch.flushed <+: c.flushed
  have hkeeps : ∀ c go c', inv c → parseRecord version c = .ok (go, c') → inv c' := by
    intro c go c' hc hread
    have hlist : c'.toFetch = c.toFetch := congrArg Frame.toFetch (parseRecord_frame hread)
    exact ⟨hlist.trans hc.1, hc.2.trans (parseRecord_parallel hhashes hc.1 hread).2⟩
  have hstart : inv ch := ⟨hch, List.prefix_refl _⟩
  constructor
  · have hrun' := Loop.run_map (select hashes) inv
      (fun c go c' hc hread =>
        ⟨hkeeps c go c' hc hread, (parseRecord_parallel hhashes hc.1 hread).1⟩)
      (ch.top.length + 1) ch hstart flag _ hrun
    have hlength : (ch.select hashes).top.length = ch.top.length := rfl
    rw [parseBlock, hlength, hrun']
    rfl
  · exact (Loop.run_invariant inv hkeeps _ ch hstart flag _ hrun).2

/-- The channel of an id has the list, all others are as they were. -/
def selectIf (id : UInt8) (hashes : List UInt64) (ch : Channel) : Channel :=
  if ch.channelId = id then ch.select hashes else ch

@[simp] theorem selectIf_channelId (id : UInt8) (ch : Channel) :
    (ch.selectIf id hashes).channelId = ch.channelId := by
  unfold selectIf
  split <;> rfl

theorem selectIf_buffers (ch : Channel) (id : UInt8) (hashes : List UInt64) :
    (ch.selectIf id hashes).cacheAlloc = ch.cacheAlloc ∧
      (ch.selectIf id hashes).outAlloc = ch.outAlloc ∧
      (ch.selectIf id hashes).base = ch.base ∧ (ch.selectIf id hashes).out = ch.out := by
  unfold selectIf
  split <;> exact ⟨rfl, rfl, rfl, rfl⟩

/-- What is done to a channel without regard to the list. -/
theorem apply_selectIf {f : Channel → Channel} (hid : ∀ ch, (f ch).channelId = ch.channelId)
    (hf : ∀ ch, f (ch.select hashes) = (f ch).select hashes) (ch : Channel) (id : UInt8) :
    f (ch.selectIf id hashes) = (f ch).selectIf id hashes := by
  unfold selectIf
  rw [hid]
  split
  · exact hf ch
  · rfl

theorem setBlockSize_select (ch : Channel) (blockSize : Nat) :
    (ch.select hashes).setBlockSize blockSize = (ch.setBlockSize blockSize).select hashes := by
  have hoffset : (ch.select hashes).offset = ch.offset := rfl
  unfold setBlockSize
  rw [hoffset]
  cases ch.offset <;> rfl

theorem setBlockSize_selectIf (ch : Channel) (id : UInt8) (blockSize : Nat) :
    (ch.selectIf id hashes).setBlockSize blockSize =
      (ch.setBlockSize blockSize).selectIf id hashes :=
  apply_selectIf (f := fun ch => ch.setBlockSize blockSize)
    (fun ch => congrArg Frame.channelId (ch.setBlockSize_frame blockSize))
    (fun ch => ch.setBlockSize_select blockSize) ch id

theorem spoil_selectIf (ch : Channel) (id : UInt8) (out : List UInt8) :
    (ch.selectIf id hashes).spoil out = (ch.spoil out).selectIf id hashes := by
  refine apply_selectIf (f := fun ch => ch.spoil out)
    (fun ch => congrArg Frame.channelId (ch.spoil_frame out)) (fun ch => ?_) ch id
  have hset := @setBlockSize_select hashes { ch with out := out } ZSTD_ERROR_GENERIC
  exact congrArg (fun c : Channel => { c with base := { ch.base with error := .zstd } }) hset

theorem load_selectIf (ch : Channel) (id : UInt8) (block : List UInt8) :
    (ch.selectIf id hashes).load block = (ch.load block).selectIf id hashes :=
  apply_selectIf (f := fun ch => ch.load block) (fun _ => rfl) (fun _ => rfl) ch id

theorem receive_selectIf (ch : Channel) (id : UInt8) (payload : List UInt8) :
    (ch.selectIf id hashes).receive payload = (ch.receive payload).selectIf id hashes :=
  apply_selectIf (f := fun ch => ch.receive payload) (fun _ => rfl) (fun _ => rfl) ch id

/-- A block that was decompressed. -/
theorem parseBlock_selectIf {id : UInt8} {version : UInt8} (hhashes : hashes ≠ [])
    (hch : ch.channelId = id → ch.toFetch = []) (hparse : parseBlock version ch = .ok ch') :
    parseBlock version (ch.selectIf id hashes) =
        .ok (ch'.selectIf id hashes) ∧ ch'.channelId = ch.channelId ∧
      (ch.channelId = id → ch.flushed <+: ch'.flushed) := by
  have hid : ch'.channelId = ch.channelId := congrArg Frame.channelId (parseBlock_frame hparse)
  unfold selectIf
  rw [hid]
  by_cases heq : ch.channelId = id
  · obtain ⟨hparse', hflushed⟩ := parseBlock_parallel hhashes (hch heq) version ch' hparse
    rw [if_pos heq, if_pos heq]
    exact ⟨hparse', rfl, fun _ => hflushed⟩
  · rw [if_neg heq, if_neg heq]
    exact ⟨hparse, rfl, fun h => absurd h heq⟩

end Channel

/-! ### Frames -/

namespace OticUnpack

open Channel

/-- `otic_unpack_channel_toFetch` on the channel of an id. -/
def setToFetch (u : OticUnpack) (id : UInt8) (values : List CStr) : OticUnpack :=
  u.modify id fun ch => ch.setToFetch values

/-- The call is not one the list of this id holds back. -/
def heard (id : UInt8) (hashes : List UInt64) (call : UInt8 × Row) : Bool :=
  call.1 ≠ id || fetches hashes call.2.name

/-- A reader whose channel of an id had a fetch list all the time. -/
def select (id : UInt8) (hashes : List UInt64) (u : OticUnpack) : OticUnpack :=
  { u with
    channels := u.channels.map (Channel.selectIf id hashes)
    calls := u.calls.filter (heard id hashes) }

/-- No channel of the id has a fetch list. -/
def Unlisted (id : UInt8) (u : OticUnpack) : Prop :=
  ∀ ch ∈ u.channels, ch.channelId = id → ch.toFetch = []

variable {zstd : Zstd} {u u' w : OticUnpack} {id : UInt8} {hashes : List UInt64}

theorem fetch_select (u : OticUnpack) (n : Nat) : (u.select id hashes).fetch n =
    (u.fetch n).map fun (bytes, w) => (bytes, w.select id hashes) := by
  unfold fetch
  by_cases hn : n ≤ u.input.length
  · rw [if_pos hn, if_pos (show n ≤ (u.select id hashes).input.length from hn)]
    rfl
  · rw [if_neg hn, if_neg (show ¬ n ≤ (u.select id hashes).input.length from hn)]
    rfl

theorem findChannel_select (u : OticUnpack) (id' : UInt8) :
    (u.select id hashes).findChannel id' =
      (u.findChannel id').map (Channel.selectIf id hashes) := by
  unfold findChannel select
  rw [List.find?_map]
  congr 2
  funext ch
  rw [Function.comp_apply, Channel.selectIf_channelId]

/-- What a frame sets in a channel has nothing to do with the list. -/
theorem modify_select (u : OticUnpack) (id' : UInt8) {f : Channel → Channel}
    (hid : ∀ ch, (f ch).channelId = ch.channelId)
    (hf : ∀ ch, f (ch.select hashes) = (f ch).select hashes) :
    (u.select id hashes).modify id' f = (u.modify id' f).select id hashes := by
  simp only [modify, select, List.map_map, OticUnpack.mk.injEq, and_true]
  refine List.map_congr_left fun ch _ => ?_
  rw [Function.comp_apply, Function.comp_apply, Channel.selectIf_channelId]
  by_cases hch : ch.channelId = id'
  · rw [if_pos hch, if_pos hch]
    unfold Channel.selectIf
    rw [hid ch]
    split
    · exact hf ch
    · rfl
  · rw [if_neg hch, if_neg hch]

theorem Unlisted.modify (h : u.Unlisted id) (id' : UInt8) {f : Channel → Channel}
    (hid : ∀ ch, (f ch).channelId = ch.channelId) (hf : ∀ ch, (f ch).toFetch = ch.toFetch) :
    (u.modify id' f).Unlisted id := by
  intro ch hch
  obtain ⟨ch₀, hmem, rfl⟩ := List.mem_map.mp hch
  split
  · rw [hid, hf]
    exact h ch₀ hmem
  · exact h ch₀ hmem

/-- The calls of the list's channel are those it lets through, all others are made. -/
theorem calls_select {before after : Channel} (hid : after.channelId = before.channelId)
    (hflushed : before.channelId = id → before.flushed <+: after.flushed) :
    ((after.selectIf id hashes).flushed.drop (before.selectIf id hashes).flushed.length).map
        (fun row => (before.channelId, row)) =
      ((after.flushed.drop before.flushed.length).map
        fun row => (before.channelId, row)).filter (heard id hashes) := by
  unfold Channel.selectIf
  rw [hid]
  by_cases hch : before.channelId = id
  · obtain ⟨rows, hrows⟩ := hflushed hch
    rw [if_pos hch, if_pos hch]
    simp only [Channel.select, ← hrows, List.filter_append, List.drop_left, List.filter_map]
    congr 1
    refine List.filter_congr fun row _ => ?_
    simp [heard, hch]
  · rw [if_neg hch, if_neg hch, List.filter_eq_self.mpr]
    intro call hcall
    obtain ⟨row, -, rfl⟩ := List.mem_map.mp hcall
    simp [heard, hch]

/-- A channel after its callback may have been called. -/
theorem store_select {before after : Channel} (hid : after.channelId = before.channelId)
    (hflushed : before.channelId = id → before.flushed <+: after.flushed) :
    (u.select id hashes).store (before.selectIf id hashes) (after.selectIf id hashes) =
      (u.store before after).select id hashes := by
  have hchannels : ((u.select id hashes).modify before.channelId
      fun _ => after.selectIf id hashes).channels =
        ((u.modify before.channelId fun _ => after).select id hashes).channels := by
    simp only [modify, select, List.map_map]
    refine List.map_congr_left fun ch _ => ?_
    rw [Function.comp_apply, Function.comp_apply, Channel.selectIf_channelId]
    split <;> rfl
  have hcalls := @calls_select id hashes before after hid hflushed
  simp only [store, select, Channel.selectIf_channelId, hcalls, List.filter_append]
  exact congrArg (fun channels : List Channel =>
    ({ u with
      channels := channels
      calls := u.calls.filter (heard id hashes) ++
        ((after.flushed.drop before.flushed.length).map
          fun row => (before.channelId, row)).filter (heard id hashes) } : OticUnpack)) hchannels

theorem skip_select (u : OticUnpack) (size : Nat) :
    (u.select id hashes).skip size = (u.skip size).select id hashes := by
  unfold skip
  rw [fetch_select]
  by_cases hseeker : u.seeker = true
  · rw [if_pos hseeker, if_pos (show (u.select id hashes).seeker = true from hseeker)]
    rfl
  · rw [if_neg hseeker, if_neg (show ¬ (u.select id hashes).seeker = true from hseeker)]
    cases u.fetch size with
    | none => rfl
    | some found => rfl

theorem fetch_select_some {n : Nat} {bytes : List UInt8} (hfetch : u.fetch n = some (bytes, w)) :
    (u.select id hashes).fetch n = some (bytes, w.select id hashes) := by
  rw [fetch_select, hfetch, Option.map_some]

theorem fetch_select_none {n : Nat} (hfetch : u.fetch n = none) :
    (u.select id hashes).fetch n = none := by
  rw [fetch_select, hfetch, Option.map_none]

/-- Decompressing has nothing to do with the list. -/
theorem decompress_select {ch ch' : Channel} {frame : List UInt8} {ok : Bool}
    (hblock : decompress zstd ch frame = .ok (ok, ch')) :
    decompress zstd (ch.selectIf id hashes) frame = .ok (ok, ch'.selectIf id hashes) := by
  obtain ⟨-, hroom, hbase, hout⟩ := ch.selectIf_buffers id hashes
  rw [decompress_eq_ok, hbase, hroom, hout]
  rcases decompress_eq_ok.mp hblock with
    ⟨rfl, block, hsome, hfits, rfl⟩ | ⟨rfl, hnone, left, hleft, hfits, rfl⟩
  · exact Or.inl ⟨rfl, block, hsome, hfits, (ch.load_selectIf id block).symm⟩
  · exact Or.inr ⟨rfl, hnone, left, hleft, hfits, (ch.spoil_selectIf id left).symm⟩

/-- **A payload** is decompressed and parsed in the same way. -/
theorem readData_select (hhashes : hashes ≠ []) {ch : Channel} {size : Nat} {go : Bool}
    (hch : ch.channelId = id → ch.toFetch = []) (hread : u.readData zstd ch size = .ok (go, u')) :
    (u.select id hashes).readData zstd (ch.selectIf id hashes) size =
      .ok (go, u'.select id hashes) := by
  obtain ⟨hcacheAlloc, -⟩ := ch.selectIf_buffers id hashes
  obtain ⟨hcache, hpayload⟩ := readData_eq_ok.mp hread
  have hcache' : ¬ (ch.selectIf id hashes).cacheAlloc < size := by rwa [hcacheAlloc]
  cases hpayload with
  | short hpayload =>
    have hset := ch.setBlockSize_eq size
    have hstore := @store_select u id hashes ch (ch.setBlockSize size)
      (congrArg Frame.channelId (ch.setBlockSize_frame size)) fun _ => by
        obtain ⟨top, topEnd, hset⟩ := hset
        rw [hset]
    rw [← setBlockSize_selectIf] at hstore
    exact (readData_eq_ok.mpr ⟨hcache', .short (fetch_select_none hpayload)⟩).trans
      (congrArg (fun w : OticUnpack => Except.ok (false, w)) hstore)
  | @broken frame left w hpayload hblock =>
    have hspoil := (ch.receive frame).spoil_eq left
    have hstore := @store_select w id hashes ch ((ch.receive frame).spoil left)
      (congrArg Frame.channelId ((ch.receive frame).spoil_frame left)) fun _ => by
        obtain ⟨top, topEnd, hspoil⟩ := hspoil
        rw [hspoil]
        rfl
    have hblock' := @decompress_select _ id hashes _ _ _ _ hblock
    rw [← spoil_selectIf, ← receive_selectIf] at hstore hblock'
    exact (readData_eq_ok.mpr ⟨hcache', .broken (fetch_select_some hpayload) hblock'⟩).trans
      (congrArg (fun w : OticUnpack => Except.ok (false, w.fail .zstd)) hstore)
  | @read frame block w ch' hpayload hblock hparse =>
    have hblock' := @decompress_select _ id hashes _ _ _ _ hblock
    have hloaded : ((ch.receive frame).load block).channelId = id →
        ((ch.receive frame).load block).toFetch = [] := hch
    obtain ⟨hparse', hid, hflushed⟩ := parseBlock_selectIf hhashes hloaded hparse
    rw [← load_selectIf, ← receive_selectIf] at hblock' hparse'
    exact (readData_eq_ok.mpr
      ⟨hcache', .read (fetch_select_some hpayload) hblock' hparse'⟩).trans
      (congrArg (fun w : OticUnpack => Except.ok (true, w)) (store_select hid hflushed))

theorem Unlisted.store (h : u.Unlisted id) {before after : Channel}
    (hbefore : before.channelId = id → before.toFetch = [])
    (hframe : after.frame = before.frame) : (u.store before after).Unlisted id := by
  have hid : after.channelId = before.channelId := congrArg Frame.channelId hframe
  have hlist : after.toFetch = before.toFetch := congrArg Frame.toFetch hframe
  intro ch hch
  obtain ⟨ch₀, hmem, rfl⟩ := List.mem_map.mp hch
  split
  · rw [hid, hlist]
    exact hbefore
  · exact h ch₀ hmem

theorem Unlisted.readData (h : u.Unlisted id) {ch : Channel} {size : Nat} {go : Bool}
    (hch : ch.channelId = id → ch.toFetch = []) (hread : u.readData zstd ch size = .ok (go, u')) :
    u'.Unlisted id := by
  cases (readData_eq_ok.mp hread).2 with
  | short => exact h.store hch (ch.setBlockSize_frame size)
  | @broken frame left _ hpayload =>
    obtain ⟨input, -, rfl⟩ := fetch_eq_some hpayload
    have h' : Unlisted id { u with input := input } := h
    have hstore := h'.store hch ((ch.receive frame).spoil_frame left)
    exact hstore
  | read hpayload _ hparse =>
    obtain ⟨input, -, rfl⟩ := fetch_eq_some hpayload
    have h' : Unlisted id { u with input := input } := h
    have hframe := parseBlock_frame hparse
    exact h'.store hch hframe

/-- No call of `otic_unpack_parse` gives a channel a list. -/
theorem Unlisted.parse (h : u.Unlisted id) {go : Bool} (hparse : u.parse zstd = .ok (go, u')) :
    u'.Unlisted id := by
  have h' : ∀ input, Unlisted id { u with input := input } := fun _ => h
  cases parse_eq_ok.mp hparse with
  | eof => exact h
  | unknown hhead | cut hhead =>
    obtain ⟨input, -, rfl⟩ := fetch_eq_some hhead
    exact h
  | define hhead =>
    obtain ⟨input, -, rfl⟩ := fetch_eq_some hhead
    exact (h' input).modify _ (fun _ => rfl) fun _ => rfl
  | data hhead _ hsize hfind hread =>
    obtain ⟨input, -, rfl⟩ := fetch_eq_some hhead
    obtain ⟨input', -, rfl⟩ := fetch_eq_some hsize
    exact (h' input').readData (h' input' _ (mem_of_findChannel hfind).1) hread
  | @skip _ _ size _ _ hhead _ hsize =>
    obtain ⟨input, -, rfl⟩ := fetch_eq_some hhead
    obtain ⟨input', -, rfl⟩ := fetch_eq_some hsize
    obtain ⟨input'', -, hskip⟩ := skip_eq { u with input := input' } (Bytes.toUInt32 size).toNat
    rw [hskip]
    exact h
  | compressionMethod hhead _ hread =>
    obtain ⟨input, -, rfl⟩ := fetch_eq_some hhead
    obtain ⟨input', -, rfl⟩ := fetch_eq_some hread
    exact h
  | channelType hhead _ hread | chunkSize hhead _ hread =>
    obtain ⟨input, -, rfl⟩ := fetch_eq_some hhead
    obtain ⟨input', -, rfl⟩ := fetch_eq_some hread
    exact (h' input').modify _ (fun _ => rfl) fun _ => rfl

/-- **`otic_unpack_parse`** reads the next frame in the same way. -/
theorem parse_select (hhashes : hashes ≠ []) (h : u.Unlisted id) {go : Bool}
    (hparse : u.parse zstd = .ok (go, u')) :
    (u.select id hashes).parse zstd = .ok (go, u'.select id hashes) := by
  cases parse_eq_ok.mp hparse with
  | eof hhead => exact parse_eq_ok.mpr (.eof (fetch_select_none hhead))
  | unknown hhead htype => exact parse_eq_ok.mpr (.unknown (fetch_select_some hhead) htype)
  | cut hhead htype hread =>
    exact parse_eq_ok.mpr (.cut (fetch_select_some hhead) htype (fetch_select_none hread))
  | define hhead htype =>
    exact (parse_eq_ok.mpr (.define (fetch_select_some hhead) htype)).trans
      (congrArg (fun w => Except.ok (true, w)) (modify_select _ _ (fun _ => rfl) fun _ => rfl))
  | @data _ id' _ _ _ ch _ hhead htype hsize hfind hread =>
    obtain ⟨input, -, rfl⟩ := fetch_eq_some hhead
    obtain ⟨input', -, rfl⟩ := fetch_eq_some hsize
    have hlist : ch.channelId = id → ch.toFetch = [] := h ch (mem_of_findChannel hfind).1
    have hfind' : ({ u with input := input' }.select id hashes).findChannel id' =
        some (ch.selectIf id hashes) := by
      rw [findChannel_select, hfind, Option.map_some]
    exact parse_eq_ok.mpr (.data (fetch_select_some hhead) htype (fetch_select_some hsize) hfind'
      (readData_select hhashes hlist hread))
  | @skip _ id' _ _ w' hhead htype hsize hfind =>
    have hfind' : (w'.select id hashes).findChannel id' = none := by
      rw [findChannel_select, hfind, Option.map_none]
    exact (parse_eq_ok.mpr
      (.skip (fetch_select_some hhead) htype (fetch_select_some hsize) hfind')).trans
      (congrArg (fun w => Except.ok (true, w)) (skip_select _ _))
  | compressionMethod hhead htype hread =>
    exact parse_eq_ok.mpr
      (.compressionMethod (fetch_select_some hhead) htype (fetch_select_some hread))
  | channelType hhead htype hread =>
    exact (parse_eq_ok.mpr
      (.channelType (fetch_select_some hhead) htype (fetch_select_some hread))).trans
      (congrArg (fun w => Except.ok (true, w)) (modify_select _ _ (fun _ => rfl) fun _ => rfl))
  | chunkSize hhead htype hread =>
    exact (parse_eq_ok.mpr
      (.chunkSize (fetch_select_some hhead) htype (fetch_select_some hread))).trans
      (congrArg (fun w => Except.ok (true, w)) (modify_select _ _ (fun _ => rfl) fun _ => rfl))

/-- **All of `otic_unpack_parse`** until it returns 0, on any input: the reader with the
list makes the calls of the reader without it that the list lets through. -/
theorem parseAll_select (hhashes : hashes ≠ []) (h : u.Unlisted id)
    (hparse : u.parseAll zstd = .ok u') :
    (u.select id hashes).parseAll zstd = .ok (u'.select id hashes) := by
  obtain ⟨⟨flag, w⟩, hrun, hparse⟩ := Exec.bind_eq_ok.mp hparse
  cases hparse
  have hrun' := Loop.run_map (select id hashes) (Unlisted id)
    (fun w go w' hw hread => ⟨hw.parse hread, parse_select hhashes hw hread⟩)
    (u.input.length + 1) u h flag _ hrun
  have hlength : (u.select id hashes).input.length = u.input.length := rfl
  rw [parseAll, hlength, hrun']
  rfl

/-! ### Giving the list -/

/-- A reader that has read nothing of its channels. -/
def Fresh (u : OticUnpack) : Prop :=
  u.calls = [] ∧ ∀ ch ∈ u.channels, ch = Channel.init ch.channelId

theorem Fresh.defineChannel (h : u.Fresh) (id' : UInt8) : (u.defineChannel id').2.Fresh := by
  unfold OticUnpack.defineChannel
  split
  · exact h
  split
  · exact h
  · refine ⟨h.1, fun ch hch => ?_⟩
    rcases List.mem_cons.mp hch with rfl | hch
    · rfl
    · exact h.2 ch hch

theorem fresh_start {seeker : Bool} {ids : List UInt8} {input : List UInt8}
    (hstart : start seeker ids input = .ok u) : u.Fresh := by
  obtain ⟨⟨ok, w⟩, hinit, hstart⟩ := Exec.bind_eq_ok.mp hstart
  cases hstart
  have hw : w.Fresh := by
    unfold init at hinit
    dsimp only at hinit
    split at hinit
    · cases hinit
    · rename_i hfetch
      obtain ⟨rest, -, rfl⟩ := fetch_eq_some hfetch
      split at hinit
      · cases hinit
        exact ⟨rfl, fun ch hch => by cases hch⟩
      split at hinit <;>
      · cases hinit
        exact ⟨rfl, fun ch hch => by cases hch⟩
  clear hstart hinit
  induction ids generalizing w with
  | nil => exact hw
  | cons id' ids ih => exact ih _ (hw.defineChannel id')

/-- **Before parsing** a channel that is given the list might as well have had it. -/
theorem Fresh.setToFetch (h : u.Fresh) {values : List CStr} (hvalues : values ≠ []) :
    u.setToFetch id values = u.select id (values.map fun value => hashBytes value.bytes) := by
  obtain ⟨hcalls, hchannels⟩ := h
  simp only [OticUnpack.setToFetch, modify, select, hcalls, List.filter_nil]
  congr 1
  refine List.map_congr_left fun ch hch => ?_
  rw [hchannels ch hch]
  unfold Channel.selectIf Channel.setToFetch
  rw [if_neg hvalues]
  rfl

theorem Fresh.unlisted (h : u.Fresh) (id : UInt8) : u.Unlisted id := by
  intro ch hch _
  rw [h.2 ch hch]
  rfl

end OticUnpack

end Otic.Unpack
