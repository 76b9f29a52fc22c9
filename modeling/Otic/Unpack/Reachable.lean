import Otic.Unpack.BlockCorrect

/-!
# The dictionary is well formed in every reachable state

`Reachable` lists what can happen to a channel of the reader: blocks and single
records of any contents are read, and frames and the caller set everything but the
dictionary.  Every record reader that returns keeps the dictionary well formed,
whatever bytes it reads.
-/

namespace Otic.Unpack.Channel

variable {ch ch' : Channel}

/-- The states of a channel over any history. -/
inductive Reachable : Channel → Prop
  | init (id : UInt8) : Reachable (Channel.init id)
  /-- sizes, types, flags, clocks and the fetch list are set from outside -/
  | configured {ch ch' : Channel} (h : Reachable ch) (hcache : ch'.cache = ch.cache)
      (hleft : ch'.allocationLeft = ch.allocationLeft)
      (htotal : ch'.totalEntries = ch.totalEntries) : Reachable ch'
  | block {ch ch' : Channel} (h : Reachable ch) (version : UInt8) (block : List UInt8)
      (hparse : parseBlock version { ch with top := block } = .ok ch') : Reachable ch'
  | line {ch ch' : Channel} (h : Reachable ch) (version : UInt8) {result used : Bool}
      (hline : getLine version ch = .ok (result, used, ch')) : Reachable ch'

theorem WellFormed.of_same (h : ch.WellFormed) (hcache : ch'.cache = ch.cache)
    (hleft : ch'.allocationLeft = ch.allocationLeft)
    (htotal : ch'.totalEntries = ch.totalEntries) : ch'.WellFormed := by
  have hentries : ch'.entries = ch.entries := by rw [entries, hcache, entries]
  exact ⟨by rw [hentries, hcache, hleft]; exact h.slots, by rw [hentries, htotal]; exact h.total⟩

theorem WellFormed.withTop (h : ch.WellFormed) (top : List UInt8) :
    WellFormed { ch with top := top } := h.of_same rfl rfl rfl

theorem selectEntry_eq_ok (h : ch.WellFormed) {i : Nat} {e : Entry} {top : List UInt8}
    (hselect : selectEntry ch = .ok (i, e, top)) :
    i < ch.totalEntries ∧ ch.entries[i]? = some e := by
  obtain ⟨⟨number, top'⟩, -, hslot⟩ := Exec.bind_eq_ok.mp hselect
  dsimp only at hslot
  split at hslot
  · rename_i entry hentry
    cases hslot
    have hfound := h.slot.mp hentry
    rw [h.total]
    exact ⟨(List.getElem?_eq_some_iff.mp hfound).1, hfound⟩
  · cases hslot

theorem readRow_wellFormed {payload : Entry → List UInt8 → Exec (Oval × List UInt8)}
    (h : ch.WellFormed) (hread : readRow payload ch = .ok ch') : ch'.WellFormed := by
  obtain ⟨⟨i, e, top⟩, hselect, hread⟩ := Exec.bind_eq_ok.mp hread
  obtain ⟨⟨value, top'⟩, -, hread⟩ := Exec.bind_eq_ok.mp hread
  obtain ⟨hi, -⟩ := selectEntry_eq_ok h hselect
  rw [h.total] at hi
  cases hread
  -- the entry is exchanged, and the callback sees no slot
  have hset := @wellFormed_of_slots
    { ch with top := top', cache := ch.cache.set i (some { e with value := value }) } _
    (h.set hi { e with value := value }) (by simp [h.total])
  refine hset.1.of_same ?_ ?_ ?_ <;>
  · dsimp only
    unfold flushIfFlushable
    split <;> rfl

theorem insertEntry_eq_ok {value : List UInt8} {length : Nat}
    (hinsert : insertEntry ch value length = .ok ch') : ∃ e, ch' = ch.reserve.pushEntry e := by
  unfold insertEntry at hinsert
  dsimp only at hinsert
  split at hinsert
  · cases hinsert
  split at hinsert
  · cases hinsert
  split at hinsert
  · cases hinsert
  · cases hinsert
    exact ⟨_, rfl⟩

theorem readNameAssign_wellFormed (h : ch.WellFormed) (hread : readNameAssign ch = .ok ch') :
    ch'.WellFormed := by
  obtain ⟨⟨length, top⟩, -, hread⟩ := Exec.bind_eq_ok.mp hread
  obtain ⟨ch₁, hinsert, hread⟩ := Exec.bind_eq_ok.mp hread
  obtain ⟨e, rfl⟩ := insertEntry_eq_ok hinsert
  cases hread
  have htop := h.withTop top
  refine (htop.push e (top.drop length.toNat)).1.of_same rfl rfl ?_
  simp [pushEntry]

/-- **Every record**: a reader that returns leaves the dictionary well formed. -/
theorem readRecord_wellFormed {version tag : UInt8} (h : ch.WellFormed)
    (hread : readRecord version tag ch = .ok ch') : ch'.WellFormed := by
  unfold readRecord at hread
  split at hread
  case h_9 =>
    obtain ⟨⟨value, top⟩, -, hread⟩ := Exec.bind_eq_ok.mp hread
    cases hread
    exact h.of_same rfl rfl rfl
  case h_10 =>
    obtain ⟨⟨value, top⟩, -, hread⟩ := Exec.bind_eq_ok.mp hread
    cases hread
    exact h.of_same rfl rfl rfl
  case h_11 => exact readNameAssign_wellFormed h hread
  case h_13 =>
    obtain ⟨⟨expected, top⟩, -, hread⟩ := Exec.bind_eq_ok.mp hread
    dsimp only at hread
    split at hread <;>
    · cases hread
      exact h.of_same rfl rfl rfl
  case h_15 =>
    obtain ⟨⟨size, top⟩, -, hread⟩ := Exec.bind_eq_ok.mp hread
    cases hread
    exact h.of_same rfl rfl rfl
  case h_16 =>
    cases hread
    exact h
  all_goals exact readRow_wellFormed h hread

theorem takeByte_eq_ok {top rest : List UInt8} {b : UInt8}
    (hread : takeByte top = .ok (b, rest)) : top = b :: rest := by
  cases top with
  | nil => cases hread
  | cons b' bytes =>
    cases hread
    rfl

theorem parseRecord_wellFormed {version : UInt8} {go : Bool} (h : ch.WellFormed)
    (hparse : parseRecord version ch = .ok (go, ch')) : ch'.WellFormed := by
  unfold parseRecord at hparse
  split at hparse
  · cases hparse
    exact h
  · rename_i tag top _
    obtain ⟨ch₁, hread, hparse⟩ := Exec.bind_eq_ok.mp hparse
    cases hparse
    have htop := h.withTop top
    unfold readTagged at hread
    split at hread
    · exact readRow_wellFormed htop hread
    · exact readRecord_wellFormed htop hread

theorem parseBlock_wellFormed {version : UInt8} (h : ch.WellFormed)
    (hparse : parseBlock version ch = .ok ch') : ch'.WellFormed := by
  obtain ⟨⟨flag, ch₁⟩, hrun, hparse⟩ := Exec.bind_eq_ok.mp hparse
  cases hparse
  exact Loop.run_invariant WellFormed (fun ch go ch₂ => parseRecord_wellFormed) _ ch h flag _ hrun

/-- **What `otic_unpack_getLine` does**: it finds the block used up, or takes a line. -/
theorem getLine_eq_ok {version : UInt8} {result used : Bool}
    (hline : getLine version ch = .ok (result, used, ch')) :
    (used = true ∧ ch' = ch) ∨
      (used = false ∧ ∃ first rest ch₁ tag top, ch.top = first :: rest ∧
        (if first < SMALL_INT_LIMIT then readSmallint first { ch with top := rest } else .ok ch) =
          .ok ch₁ ∧
        ch₁.top = tag :: top ∧ readRecord version tag { ch₁ with top := top } = .ok ch') := by
  obtain ⟨used', -, hline⟩ := Exec.bind_eq_ok.mp hline
  cases used' with
  | true =>
    cases hline
    exact Or.inl ⟨rfl, rfl⟩
  | false =>
    obtain ⟨⟨first, rest⟩, htop, hline⟩ := Exec.bind_eq_ok.mp hline
    obtain ⟨ch₁, hfirst, hline⟩ := Exec.bind_eq_ok.mp hline
    obtain ⟨⟨tag, top⟩, htag, hline⟩ := Exec.bind_eq_ok.mp hline
    obtain ⟨ch₂, hread, hline⟩ := Exec.bind_eq_ok.mp hline
    cases hline
    exact Or.inr ⟨rfl, first, rest, ch₁, tag, top, takeByte_eq_ok htop, hfirst,
      takeByte_eq_ok htag, hread⟩

theorem getLine_wellFormed {version : UInt8} {result used : Bool} (h : ch.WellFormed)
    (hline : getLine version ch = .ok (result, used, ch')) : ch'.WellFormed := by
  rcases getLine_eq_ok hline with ⟨-, rfl⟩ | ⟨-, first, rest, ch₁, tag, top, -, hfirst, -, hread⟩
  · exact h
  · have h₁ : ch₁.WellFormed := by
      split at hfirst
      · exact readRow_wellFormed (h.withTop rest) hfirst
      · cases hfirst
        exact h
    exact readRecord_wellFormed (h₁.withTop top) hread

/-- **Reachable channels are well formed.** -/
theorem Reachable.wellFormed (h : ch.Reachable) : ch.WellFormed := by
  induction h with
  | init id => exact wellFormed_init id
  | configured _ hcache hleft htotal ih => exact ih.of_same hcache hleft htotal
  | block _ version block hparse ih =>
    exact parseBlock_wellFormed (ih.withTop block) hparse
  | line _ version hline ih => exact getLine_wellFormed ih hline

end Otic.Unpack.Channel
