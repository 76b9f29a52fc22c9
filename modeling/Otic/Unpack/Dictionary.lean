import Otic.Format.Record

/-!
# The reader's dictionary

`cache.cache` is an array of slots that grows by eight; the first `totalEntries`
of them hold the entries in the order of their assignment and the remaining
`allocationLeft` are null.  `WellFormed` says so, and `Channel.view` reads the
state of a channel as a `View`.
-/

namespace Otic.Unpack

/-- The sensor an entry stands for: its name and unit are C strings. -/
def Entry.sensor (e : Entry) : Sensor :=
  ⟨Bytes.untilZero e.name, Bytes.untilZero e.unit, e.value⟩

/-- What reading a block never changes. -/
structure Frame where
  channelId : UInt8
  channelType : UInt8
  cacheSize : UInt32
  cacheAlloc : Nat
  outAlloc : Nat
  toFetch : List UInt64

namespace Channel

/-- The entries, without the null slots. -/
def entries (ch : Channel) : List Entry := ch.cache.filterMap id

/-- The filled slots come first, and the counters count them and the null ones. -/
structure WellFormed (ch : Channel) : Prop where
  slots : ch.cache = ch.entries.map some ++ List.replicate ch.allocationLeft none
  total : ch.totalEntries = ch.entries.length

/-- The state of a channel as a view; nothing reads `base.state`. -/
def view (ch : Channel) : View where
  sensors := ch.entries.map Entry.sensor
  clock := ch.base.timestampCurrent
  ts := ch.ts
  rowCounter := ch.base.rowCounter
  rows := ch.flushed
  error := ch.base.error

def frame (ch : Channel) : Frame where
  channelId := ch.channelId
  channelType := ch.channelType
  cacheSize := ch.base.cacheSize
  cacheAlloc := ch.cacheAlloc
  outAlloc := ch.outAlloc
  toFetch := ch.toFetch

/-- Setting `blockSize` concerns the block only. -/
theorem setBlockSize_eq (ch : Channel) (blockSize : Nat) : ∃ top topEnd,
    ch.setBlockSize blockSize =
      { ch with top := top, topEnd := topEnd, blockSize := blockSize } := by
  unfold setBlockSize
  split
  · exact ⟨_, _, rfl⟩
  · exact ⟨_, _, rfl⟩

@[simp] theorem setBlockSize_frame (ch : Channel) (blockSize : Nat) :
    (ch.setBlockSize blockSize).frame = ch.frame := by
  obtain ⟨top, topEnd, hset⟩ := ch.setBlockSize_eq blockSize
  rw [hset]
  rfl

theorem spoil_eq (ch : Channel) (out : List UInt8) : ∃ top topEnd, ch.spoil out =
    { ch with
      base := { ch.base with error := .zstd }
      top := top
      topEnd := topEnd
      out := out
      blockSize := ZSTD_ERROR_GENERIC } := by
  obtain ⟨top, topEnd, hset⟩ := setBlockSize_eq { ch with out := out } ZSTD_ERROR_GENERIC
  refine ⟨top, topEnd, ?_⟩
  rw [spoil, hset]

@[simp] theorem spoil_frame (ch : Channel) (out : List UInt8) :
    (ch.spoil out).frame = ch.frame := by
  obtain ⟨top, topEnd, hspoil⟩ := ch.spoil_eq out
  rw [hspoil]
  rfl

@[simp] theorem load_frame (ch : Channel) (block : List UInt8) :
    (ch.load block).frame = ch.frame := rfl

theorem filterMap_slots (es : List Entry) (n : Nat) :
    (es.map some ++ List.replicate n none).filterMap id = es := by
  rw [List.filterMap_append, List.filterMap_map]
  simp

/-- Slots of the right shape make a well-formed channel, with these entries. -/
theorem wellFormed_of_slots {ch : Channel} {es : List Entry}
    (hslots : ch.cache = es.map some ++ List.replicate ch.allocationLeft none)
    (htotal : ch.totalEntries = es.length) : ch.WellFormed ∧ ch.entries = es := by
  have hentries : ch.entries = es := by
    rw [entries, hslots, filterMap_slots]
  exact ⟨⟨by rw [hentries]; exact hslots, by rw [hentries]; exact htotal⟩, hentries⟩

theorem wellFormed_init (id : UInt8) : (init id).WellFormed :=
  (@wellFormed_of_slots (init id) [] rfl rfl).1

@[simp] theorem view_init (id : UInt8) : (init id).view = View.init := rfl

theorem view_sensors_length (ch : Channel) : ch.view.sensors.length = ch.entries.length := by
  simp [view]

theorem WellFormed.slot {ch : Channel} (h : ch.WellFormed) {i : Nat} {e : Entry} :
    ch.cache[i]? = some (some e) ↔ ch.entries[i]? = some e := by
  rw [h.slots]
  by_cases hi : i < ch.entries.length
  · rw [List.getElem?_append_left (by simpa using hi), List.getElem?_map]
    cases ch.entries[i]? <;> simp
  · rw [List.getElem?_append_right (by simpa using hi), List.getElem?_replicate,
      List.getElem?_eq_none (by omega)]
    split <;> simp

theorem WellFormed.set {ch : Channel} (h : ch.WellFormed) {i : Nat} (hi : i < ch.entries.length)
    (e : Entry) : ch.cache.set i (some e) =
      (ch.entries.set i e).map some ++ List.replicate ch.allocationLeft none := by
  conv_lhs => rw [h.slots]
  rw [List.set_append_left _ _ (by simpa using hi), List.map_set]

@[simp] theorem reserve_base (ch : Channel) : ch.reserve.base = ch.base := by
  unfold reserve; split <;> rfl

@[simp] theorem reserve_totalEntries (ch : Channel) :
    ch.reserve.totalEntries = ch.totalEntries := by
  unfold reserve; split <;> rfl

@[simp] theorem reserve_ts (ch : Channel) : ch.reserve.ts = ch.ts := by
  unfold reserve; split <;> rfl

@[simp] theorem reserve_flushed (ch : Channel) : ch.reserve.flushed = ch.flushed := by
  unfold reserve; split <;> rfl

@[simp] theorem reserve_frame (ch : Channel) : ch.reserve.frame = ch.frame := by
  unfold reserve; split <;> rfl

/-- The first null slot after the reallocation takes the next entry. -/
theorem WellFormed.push {ch : Channel} (h : ch.WellFormed) (e : Entry) (top : List UInt8) :
    let ch' := { ch.reserve.pushEntry e with top := top, totalEntries := ch.totalEntries + 1 }
    ch'.WellFormed ∧ ch'.entries = ch.entries ++ [e] := by
  have hpush : ∀ n, (ch.entries.map some ++ List.replicate (n + 1) none).set
      ch.entries.length (some e) = (ch.entries ++ [e]).map some ++ List.replicate n none := by
    intro n
    rw [List.set_append_right _ _ (by simp), List.replicate_succ]
    simp
  refine wellFormed_of_slots ?_ (by simp [h.total])
  simp only [pushEntry, reserve_totalEntries, h.total]
  unfold reserve
  by_cases hleft : ch.allocationLeft = 0
  · have hslots : ch.cache = ch.entries.map some := by simpa [hleft] using h.slots
    simp only [if_pos hleft]
    rw [hslots]
    exact hpush 7
  · simp only [if_neg hleft]
    obtain ⟨n, hn⟩ : ∃ n, ch.allocationLeft = n + 1 := ⟨ch.allocationLeft - 1, by omega⟩
    have hslots := h.slots
    rw [hn] at hslots ⊢
    conv_lhs => rw [hslots]
    exact hpush n

/-- Where a channel stands between two records. -/
structure Stands (fr : Frame) (v : View) (top : List UInt8) (ch : Channel) : Prop where
  wellFormed : ch.WellFormed
  view : ch.view = v
  top : ch.top = top
  frame : ch.frame = fr

theorem WellFormed.stands {ch : Channel} (h : ch.WellFormed) :
    ch.Stands ch.frame ch.view ch.top := ⟨h, rfl, rfl, rfl⟩

end Channel

end Otic.Unpack
