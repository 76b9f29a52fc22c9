import Mathlib.Data.List.Basic
import Mathlib.Data.List.Nodup

/-!
# Singly linked lists in a heap

Nodes are allocated at addresses that the allocator chooses, point to the next node, and
are freed.  Reading, writing or freeing an address where no node is allocated is an error
(`none`), and so is an answer of the allocator that is in use.  A walk is given fuel above
the number of nodes ever allocated; one that runs out of it goes in circles, which is an
error too.

`IsList` says which nodes hang on a pointer, in which order; every operation has one rule
about it.
-/

namespace Linked

variable {α : Type}

/-- A node: what it holds, and the address of the next one. -/
structure Node (α : Type) where
  content : α
  next : Option Nat

/-- The allocated nodes, and how many were ever allocated. -/
structure Heap (α : Type) where
  node : Nat → Option (Node α)
  mallocs : Nat

namespace Heap

def empty : Heap α := ⟨fun _ => none, 0⟩

/-- Another node, or none, at an address. -/
def set (heap : Heap α) (p : Nat) (node : Option (Node α)) : Heap α :=
  { heap with node := fun q => if q = p then node else heap.node q }

/-- The allocator answers `p`. -/
def malloc (heap : Heap α) (p : Nat) (node : Node α) : Option (Heap α) :=
  if (heap.node p).isSome then none
  else some ⟨(heap.set p (some node)).node, heap.mallocs + 1⟩

def write (heap : Heap α) (p : Nat) (node : Node α) : Option (Heap α) :=
  if (heap.node p).isSome then some (heap.set p (some node)) else none

def free (heap : Heap α) (p : Nat) : Option (Heap α) :=
  if (heap.node p).isSome then some (heap.set p none) else none

/-- What the node at an address holds. -/
def content (heap : Heap α) (p : Nat) : Option α := (heap.node p).map Node.content

/-- The content of a node changes, its pointer stays. -/
def modify (heap : Heap α) (p : Nat) (f : α → α) : Option (Heap α) := do
  let node ← heap.node p
  heap.write p { node with content := f node.content }

/-! ### Walks -/

/-- `for (current = head; current; current = current->next) ++counter;` -/
def countLoop (heap : Heap α) : (fuel : Nat) → (current : Option Nat) → Option Nat
  | _, none => some 0
  | 0, some _ => none
  | fuel + 1, some p => do
      let node ← heap.node p
      let counter ← countLoop heap fuel node.next
      some (counter + 1)

def count (heap : Heap α) (head : Option Nat) : Option Nat := heap.countLoop (heap.mallocs + 1) head

/-- The nodes of a list, with their addresses. -/
def toListLoop (heap : Heap α) : (fuel : Nat) → (current : Option Nat) → Option (List (Nat × α))
  | _, none => some []
  | 0, some _ => none
  | fuel + 1, some p => do
      let node ← heap.node p
      let nodes ← toListLoop heap fuel node.next
      some ((p, node.content) :: nodes)

def toList (heap : Heap α) (head : Option Nat) : Option (List (Nat × α)) :=
  heap.toListLoop (heap.mallocs + 1) head

/-- What nodes hold from now on. -/
def refill : Heap α → List (Nat × α) → Option (Heap α)
  | heap, [] => some heap
  | heap, (p, content) :: rest => do
      let heap ← heap.modify p fun _ => content
      heap.refill rest

/-- A walk with a trailing pointer to the first node with `stop`, if there is one: the
pointer, and the address of the node. -/
def seekLoop (heap : Heap α) (stop : Nat → α → Bool) :
    (fuel : Nat) → (before current : Option Nat) → Option (Option (Option Nat × Nat))
  | _, _, none => some none
  | 0, _, some _ => none
  | fuel + 1, before, some p => do
      let node ← heap.node p
      if stop p node.content then some (some (before, p))
      else seekLoop heap stop fuel (some p) node.next

def seek (heap : Heap α) (stop : Nat → α → Bool) (head : Option Nat) :
    Option (Option (Option Nat × Nat)) :=
  heap.seekLoop stop (heap.mallocs + 1) head head

/-- Take the node at `p` out of the list, given a pointer to the node before it. -/
def unlink (heap : Heap α) (head before : Option Nat) (p : Nat) :
    Option (Heap α × Option Nat) := do
  let node ← heap.node p
  if head = some p then some (heap, node.next)
  else
    let q ← before
    let nodeBefore ← heap.node q
    let heap ← heap.write q { nodeBefore with next := node.next }
    some (heap, head)

/-- Unlink the first node with `stop` and free it; `some none` if there is no such node. -/
def remove (heap : Heap α) (stop : Nat → α → Bool) (head : Option Nat) :
    Option (Option (Heap α × Option Nat)) := do
  match ← heap.seek stop head with
  | none => some none
  | some (before, p) =>
      let (heap, head) ← heap.unlink head before p
      let heap ← heap.free p
      some (some (heap, head))

end Heap

/-! ### Lists -/

/-- From `head` on, these nodes follow each other. -/
def Chain (heap : Heap α) : Option Nat → List (Nat × α) → Prop
  | head, [] => head = none
  | head, (p, content) :: rest =>
      head = some p ∧ ∃ next, heap.node p = some ⟨content, next⟩ ∧ Chain heap next rest

/-- The list that hangs on `head`: its nodes with their addresses. -/
structure IsList (heap : Heap α) (head : Option Nat) (nodes : List (Nat × α)) : Prop where
  chain : Chain heap head nodes
  nodup : (nodes.map Prod.fst).Nodup
  bounded : nodes.length ≤ heap.mallocs

variable {heap heap' : Heap α} {head : Option Nat} {nodes : List (Nat × α)}

theorem isList_empty : IsList (Heap.empty : Heap α) none [] := ⟨rfl, List.nodup_nil, Nat.le_refl 0⟩

/-- What other addresses hold is of no concern. -/
theorem Chain.frame (h : Chain heap head nodes)
    (hsame : ∀ n ∈ nodes, heap'.node n.1 = heap.node n.1) : Chain heap' head nodes := by
  induction nodes generalizing head with
  | nil => exact h
  | cons n nodes ih =>
    obtain ⟨rfl, next, hnode, hrest⟩ := h
    refine ⟨rfl, next, ?_, ih hrest fun m hm => hsame m (List.mem_cons_of_mem _ hm)⟩
    rw [hsame n List.mem_cons_self, hnode]

theorem Chain.head_eq (h : Chain heap head nodes) : head = nodes.head?.map Prod.fst := by
  cases nodes with
  | nil => exact h
  | cons n nodes => exact h.1

theorem Chain.content {p : Nat} {a : α} (h : Chain heap head nodes) (hmem : (p, a) ∈ nodes) :
    heap.content p = some a := by
  induction nodes generalizing head with
  | nil => simp at hmem
  | cons n nodes ih =>
    obtain ⟨-, next, hnode, hrest⟩ := h
    rcases List.mem_cons.mp hmem with rfl | hmem
    · rw [Heap.content, hnode, Option.map_some]
    · exact ih hrest hmem

theorem map_of_ne (f : α → α) {p : Nat} (h : ∀ n ∈ nodes, n.1 ≠ p) :
    (nodes.map fun n => if n.1 = p then (n.1, f n.2) else n) = nodes :=
  (List.map_congr_left fun n hn => if_neg (h n hn)).trans (List.map_id _)

/-- Without the node at `p`, where there is no other. -/
theorem filter_ne_eq {front back : List (Nat × α)} {p : Nat} {a : α}
    (hnodup : ((front ++ (p, a) :: back).map Prod.fst).Nodup) :
    (∀ n ∈ front ++ back, n.1 ≠ p) ∧
      (front ++ (p, a) :: back).filter (fun n => n.1 ≠ p) = front ++ back := by
  rw [List.map_append, List.map_cons, List.nodup_middle] at hnodup
  obtain ⟨hnotin, -⟩ := List.nodup_cons.mp hnodup
  rw [← List.map_append] at hnotin
  have hother : ∀ n ∈ front ++ back, n.1 ≠ p := by
    rintro n hn rfl
    exact hnotin (List.mem_map.mpr ⟨n, hn, rfl⟩)
  have hall := List.filter_eq_self.mpr fun n hn => decide_eq_true (hother n hn)
  rw [List.filter_append] at hall
  rw [List.filter_append, List.filter_cons_of_neg (by simp), hall]
  exact ⟨hother, rfl⟩

namespace Heap

theorem set_self (heap : Heap α) (p : Nat) (node : Option (Node α)) :
    (heap.set p node).node p = node := if_pos rfl

theorem set_of_ne (heap : Heap α) {p q : Nat} (node : Option (Node α)) (h : q ≠ p) :
    (heap.set p node).node q = heap.node q := if_neg h

theorem write_eq {p : Nat} {old node : Node α} (h : heap.node p = some old) :
    heap.write p node = some (heap.set p (some node)) := by
  rw [write, h]
  rfl

theorem free_node {heap heap' : Heap α} {p : Nat} (h : heap.free p = some heap') :
    heap'.node p = none := by
  unfold free at h
  split at h
  · cases h
    exact set_self heap p none
  · cases h

theorem free_eq {p : Nat} {old : Node α} (h : heap.node p = some old) :
    heap.free p = some (heap.set p none) := by
  rw [free, h]
  rfl

end Heap

/-! ### Rules -/

/-- **Allocation** at the head of a list. -/
theorem IsList.malloc (h : IsList heap head nodes) {p : Nat} (hfree : heap.node p = none) (a : α) :
    ∃ heap', heap.malloc p ⟨a, head⟩ = some heap' ∧ IsList heap' (some p) ((p, a) :: nodes) ∧
      ∀ q, (heap'.node q).isSome ↔ q = p ∨ (heap.node q).isSome := by
  have hnew : p ∉ nodes.map Prod.fst := by
    intro hmem
    obtain ⟨n, hn, rfl⟩ := List.mem_map.mp hmem
    have hcontent := h.chain.content (a := n.2) hn
    rw [Heap.content, hfree] at hcontent
    cases hcontent
  refine ⟨⟨(heap.set p (some ⟨a, head⟩)).node, heap.mallocs + 1⟩, by rw [Heap.malloc, hfree]; rfl,
    ⟨⟨rfl, head, Heap.set_self heap _ _, ?_⟩, List.nodup_cons.mpr ⟨hnew, h.nodup⟩,
      Nat.succ_le_succ h.bounded⟩, fun q => ?_⟩
  · refine h.chain.frame fun n hn => Heap.set_of_ne heap _ fun heq => hnew ?_
    exact heq ▸ List.mem_map_of_mem hn
  · change ((heap.set p (some ⟨a, head⟩)).node q).isSome ↔ _
    by_cases hqp : q = p
    · rw [hqp, Heap.set_self]
      simp
    · rw [Heap.set_of_ne heap _ hqp]
      simp [hqp]

/-- **Change** of what a node holds. -/
theorem IsList.modify (h : IsList heap head nodes) {p : Nat} {a : α} (hmem : (p, a) ∈ nodes)
    (f : α → α) :
    ∃ heap', heap.modify p f = some heap' ∧
      IsList heap' head (nodes.map fun n => if n.1 = p then (n.1, f n.2) else n) ∧
      ∀ q, (heap'.node q).isSome = (heap.node q).isSome := by
  obtain ⟨node, hnode, rfl⟩ : ∃ node, heap.node p = some node ∧ node.content = a := by
    simpa [Heap.content] using h.chain.content hmem
  refine ⟨heap.set p (some { node with content := f node.content }), ?_, ⟨?_, ?_, ?_⟩, ?_⟩
  · simp only [Heap.modify, hnode, Option.bind_eq_bind, Option.bind_some, Heap.write_eq hnode]
  · have hchain := h.chain
    clear h hmem
    induction nodes generalizing head with
    | nil => exact hchain
    | cons n nodes ih =>
      obtain ⟨q, content⟩ := n
      obtain ⟨rfl, next, hq, hrest⟩ := hchain
      rw [List.map_cons]
      by_cases hqp : q = p
      · subst hqp
        rw [hnode, Option.some.injEq] at hq
        subst hq
        rw [if_pos rfl]
        exact ⟨rfl, next, Heap.set_self _ _ _, ih hrest⟩
      · rw [if_neg hqp]
        exact ⟨rfl, next, (Heap.set_of_ne heap _ hqp).trans hq, ih hrest⟩
  · have hfst : (nodes.map fun n => if n.1 = p then (n.1, f n.2) else n).map Prod.fst =
        nodes.map Prod.fst := by
      rw [List.map_map]
      refine List.map_congr_left fun n _ => ?_
      simp only [Function.comp_apply]
      split <;> rfl
    rw [hfst]
    exact h.nodup
  · rw [List.length_map]
    exact h.bounded
  · intro q
    by_cases hqp : q = p
    · rw [hqp, Heap.set_self, hnode]
      rfl
    · rw [Heap.set_of_ne heap _ hqp]

/-- **Reading** a list. -/
theorem IsList.toList (h : IsList heap head nodes) : heap.toList head = some nodes := by
  have hloop : ∀ (nodes : List (Nat × α)) (head : Option Nat) (fuel : Nat),
      Chain heap head nodes → nodes.length ≤ fuel → heap.toListLoop fuel head = some nodes := by
    intro nodes
    induction nodes with
    | nil =>
      intro head fuel hchain _
      obtain rfl : head = none := hchain
      cases fuel <;> rfl
    | cons n nodes ih =>
      intro head fuel hchain hfuel
      obtain ⟨rfl, next, hnode, hrest⟩ := hchain
      obtain ⟨fuel, rfl⟩ : ∃ k, fuel = k + 1 := ⟨fuel - 1, by simp at hfuel; omega⟩
      have hread := ih next fuel hrest (by simpa using hfuel)
      simp only [Heap.toListLoop, hnode, Option.bind_eq_bind, Option.bind_some, hread]
  exact hloop nodes head _ h.chain (by have := h.bounded; omega)

/-- **Writing** to the nodes of a list, behind those that stay. -/
theorem IsList.refill {front back back' : List (Nat × α)} (h : IsList heap head (front ++ back))
    (hsame : back'.map Prod.fst = back.map Prod.fst) :
    ∃ heap', heap.refill back' = some heap' ∧ IsList heap' head (front ++ back') ∧
      ∀ q, (heap'.node q).isSome = (heap.node q).isSome := by
  induction back generalizing heap front back' with
  | nil =>
    obtain rfl : back' = [] := List.map_eq_nil_iff.mp hsame
    exact ⟨heap, rfl, h, fun _ => rfl⟩
  | cons n back ih =>
    obtain ⟨p, a⟩ := n
    cases back' with
    | nil => simp at hsame
    | cons n' back' =>
      obtain ⟨p', a'⟩ := n'
      simp only [List.map_cons, List.cons.injEq] at hsame
      obtain ⟨rfl, hsame⟩ := hsame
      obtain ⟨heap₁, hmodify, hlist, hsome⟩ :=
        h.modify (p := p') (a := a) (by simp) fun _ => a'
      obtain ⟨hother, -⟩ := filter_ne_eq h.nodup
      have hmap : (front ++ (p', a) :: back).map
          (fun n => if n.1 = p' then (n.1, a') else n) = (front ++ [(p', a')]) ++ back := by
        have hkeep := map_of_ne (fun _ => a') hother
        rw [List.map_append] at hkeep
        obtain ⟨hfront, hback⟩ := List.append_inj hkeep (List.length_map _)
        rw [List.map_append, List.map_cons, if_pos rfl, hfront, hback, List.append_assoc]
        rfl
      rw [hmap] at hlist
      obtain ⟨heap', hrefill, hlist', hsome'⟩ := ih hlist hsame
      refine ⟨heap', ?_, ?_, fun q => (hsome' q).trans (hsome q)⟩
      · simp only [Heap.refill, hmodify, Option.bind_eq_bind, Option.bind_some, hrefill]
      · simpa using hlist'

/-- **Counting** gives the length. -/
theorem IsList.count (h : IsList heap head nodes) : heap.count head = some nodes.length := by
  have hloop : ∀ (nodes : List (Nat × α)) (head : Option Nat) (fuel : Nat),
      Chain heap head nodes → nodes.length ≤ fuel →
        heap.countLoop fuel head = some nodes.length := by
    intro nodes
    induction nodes with
    | nil =>
      intro head fuel hchain _
      obtain rfl : head = none := hchain
      cases fuel <;> rfl
    | cons n nodes ih =>
      intro head fuel hchain hfuel
      obtain ⟨rfl, next, hnode, hrest⟩ := hchain
      obtain ⟨fuel, rfl⟩ : ∃ k, fuel = k + 1 := ⟨fuel - 1, by simp at hfuel; omega⟩
      have hcount := ih next fuel hrest (by simpa using hfuel)
      simp only [Heap.countLoop, hnode, Option.bind_eq_bind, Option.bind_some, hcount,
        List.length_cons]
  exact hloop nodes head _ h.chain (by have := h.bounded; omega)

/-- The address before the end of a list that starts behind `before`. -/
def lastOf (before : Option Nat) (front : List (Nat × α)) : Option Nat :=
  front.foldl (fun _ n => some n.1) before

/-- **A walk** without an end. -/
theorem Chain.seek_none {stop : Nat → α → Bool} (h : Chain heap head nodes)
    (hstop : ∀ n ∈ nodes, stop n.1 n.2 = false) (fuel : Nat) (hfuel : nodes.length ≤ fuel)
    (before : Option Nat) : heap.seekLoop stop fuel before head = some none := by
  induction nodes generalizing head fuel before with
  | nil =>
    obtain rfl : head = none := h
    cases fuel <;> rfl
  | cons n nodes ih =>
    obtain ⟨rfl, next, hnode, hrest⟩ := h
    obtain ⟨fuel, rfl⟩ : ∃ k, fuel = k + 1 := ⟨fuel - 1, by simp at hfuel; omega⟩
    have hn := hstop n List.mem_cons_self
    have hnext := ih hrest (fun m hm => hstop m (List.mem_cons_of_mem _ hm)) fuel
      (by simpa using hfuel) (some n.1)
    simp only [Heap.seekLoop, hnode, Option.bind_eq_bind, Option.bind_some, hn, Bool.false_eq_true,
      if_false, hnext]

/-- **A walk** to the first node with `stop`; the pointer trails by one node. -/
theorem Chain.seek_some {stop : Nat → α → Bool} {front back : List (Nat × α)} {p : Nat} {a : α}
    (h : Chain heap head (front ++ (p, a) :: back))
    (hfront : ∀ n ∈ front, stop n.1 n.2 = false) (hstop : stop p a = true) (fuel : Nat)
    (hfuel : front.length < fuel) (before : Option Nat) :
    heap.seekLoop stop fuel before head = some (some (lastOf before front, p)) := by
  induction front generalizing head fuel before with
  | nil =>
    obtain ⟨rfl, next, hnode, hrest⟩ := h
    obtain ⟨fuel, rfl⟩ : ∃ k, fuel = k + 1 := ⟨fuel - 1, by omega⟩
    simp only [Heap.seekLoop, hnode, Option.bind_eq_bind, Option.bind_some, hstop, if_true]
    rfl
  | cons n front ih =>
    obtain ⟨rfl, next, hnode, hrest⟩ := h
    obtain ⟨fuel, rfl⟩ : ∃ k, fuel = k + 1 := ⟨fuel - 1, by omega⟩
    have hn := hfront n List.mem_cons_self
    have hnext := ih hrest (fun m hm => hfront m (List.mem_cons_of_mem _ hm)) fuel
      (by simpa using hfuel) (some n.1)
    simp only [Heap.seekLoop, hnode, Option.bind_eq_bind, Option.bind_some, hn, Bool.false_eq_true,
      if_false, hnext]
    rfl

/-- **Looking** for a node with `stop`. -/
theorem IsList.seek (h : IsList heap head nodes) (stop : Nat → α → Bool) :
    ∃ found, heap.seek stop head = some found ∧
      found.isSome = nodes.any fun n => stop n.1 n.2 := by
  have hbounded := h.bounded
  cases hfind : nodes.find? fun n => stop n.1 n.2 with
  | none =>
    have hstop : ∀ n ∈ nodes, stop n.1 n.2 = false := by
      simpa using List.find?_eq_none.mp hfind
    refine ⟨none, h.chain.seek_none hstop _ (by omega) head, ?_⟩
    rw [Option.isSome_none, eq_comm, List.any_eq_false]
    simpa using hstop
  | some n =>
    obtain ⟨hn, front, back, rfl, hfront⟩ := List.find?_eq_some_iff_append.mp hfind
    rw [List.length_append, List.length_cons] at hbounded
    refine ⟨some _, h.chain.seek_some (by simpa using hfront) hn _ (by omega) head, ?_⟩
    simp [hn]

/-- The pointer of the node before `p` is made to skip it. -/
theorem Chain.skip {front back : List (Nat × α)} {p q : Nat} {a b : α} {next : Option Nat}
    (h : Chain heap head (front ++ (q, b) :: (p, a) :: back))
    (hnodup : ((front ++ (q, b) :: (p, a) :: back).map Prod.fst).Nodup)
    (hp : heap.node p = some ⟨a, next⟩) :
    Chain (heap.set q (some ⟨b, next⟩)) head (front ++ (q, b) :: back) := by
  induction front generalizing head with
  | nil =>
    obtain ⟨rfl, -, -, rfl, next', hp', hback⟩ := h
    rw [hp, Option.some.injEq, Node.mk.injEq] at hp'
    obtain ⟨-, rfl⟩ := hp'
    refine ⟨rfl, next, Heap.set_self heap _ _, hback.frame fun n hn => ?_⟩
    refine Heap.set_of_ne heap _ fun heq => ?_
    have hq : q ∉ ((p, a) :: back).map Prod.fst := (List.nodup_cons.mp hnodup).1
    exact hq (heq ▸ List.mem_map_of_mem (List.mem_cons_of_mem _ hn))
  | cons n front ih =>
    obtain ⟨rfl, next', hn, hrest⟩ := h
    obtain ⟨hnotin, hnodup⟩ := List.nodup_cons.mp hnodup
    have hne : n.1 ≠ q := by
      rintro rfl
      exact hnotin (by simp)
    exact ⟨rfl, next', (Heap.set_of_ne heap _ hne).trans hn, ih hrest hnodup⟩

theorem Chain.node {front back : List (Nat × α)} {p : Nat} {a : α}
    (h : Chain heap head (front ++ (p, a) :: back)) :
    ∃ next, heap.node p = some ⟨a, next⟩ ∧ (front = [] → head = some p ∧ Chain heap next back) := by
  induction front generalizing head with
  | nil =>
    obtain ⟨rfl, next, hnode, hrest⟩ := h
    exact ⟨next, hnode, fun _ => ⟨rfl, hrest⟩⟩
  | cons n front ih =>
    obtain ⟨rfl, next', hn, hrest⟩ := h
    obtain ⟨next, hnode, -⟩ := ih hrest
    exact ⟨next, hnode, fun h => absurd h (by simp)⟩

/-- **Removal** of the first node with `stop`, from any position. -/
theorem IsList.remove_some {stop : Nat → α → Bool} {front back : List (Nat × α)} {p : Nat} {a : α}
    (h : IsList heap head (front ++ (p, a) :: back))
    (hfront : ∀ n ∈ front, stop n.1 n.2 = false) (hstop : stop p a = true) :
    ∃ heap' head', heap.remove stop head = some (some (heap', head')) ∧
      IsList heap' head' (front ++ back) ∧ heap'.node p = none ∧
      ∀ q, q ≠ p → (heap'.node q).isSome = (heap.node q).isSome := by
  have hseek : heap.seek stop head = some (some (lastOf head front, p)) :=
    h.chain.seek_some hfront hstop _ (by
      have hbound := h.bounded
      simp only [List.length_append, List.length_cons] at hbound
      omega) head
  have hnodup := h.nodup
  rw [List.map_append, List.map_cons, List.nodup_middle] at hnodup
  obtain ⟨hnotin, hrestNodup⟩ := List.nodup_cons.mp hnodup
  rw [← List.map_append] at hnotin hrestNodup
  have hbounded : (front ++ back).length ≤ heap.mallocs := by
    have hbound := h.bounded
    simp only [List.length_append, List.length_cons] at hbound ⊢
    omega
  obtain ⟨next, hnode, hfirst⟩ := h.chain.node
  have hframe : ∀ {heap₁ : Heap α}, ∀ n ∈ front ++ back,
      (heap₁.set p none).node n.1 = heap₁.node n.1 := by
    intro heap₁ n hn
    have hmem : n.1 ∈ (front ++ back).map Prod.fst := List.mem_map_of_mem hn
    exact Heap.set_of_ne heap₁ _ fun heq => hnotin (heq ▸ hmem)
  rcases List.eq_nil_or_concat front with rfl | ⟨front, ⟨q, b⟩, rfl⟩
  · obtain ⟨rfl, hback⟩ := hfirst rfl
    refine ⟨heap.set p none, next, ?_, ⟨?_, hrestNodup, hbounded⟩, Heap.set_self heap _ _,
      fun q hq => by rw [Heap.set_of_ne heap _ hq]⟩
    · simp only [Heap.remove, hseek, Option.bind_eq_bind, Option.bind_some, Heap.unlink, hnode,
        if_true, Heap.free_eq hnode]
    · rw [List.nil_append]
      exact hback.frame fun n hn => hframe n (by simpa using hn)
  · rw [List.concat_eq_append] at *
    have hchain := h.chain
    rw [List.append_assoc, List.singleton_append] at hchain
    obtain ⟨nextq, hq, -⟩ := hchain.node
    have hne : q ≠ p := by
      rintro rfl
      exact hnotin (by simp)
    have hhead : head ≠ some p := by
      intro heq
      have hfirst := h.chain.head_eq
      obtain ⟨n, hn, hnp⟩ : ∃ n, (front ++ [(q, b)]).head? = some n ∧ n.1 = p := by
        rw [heq] at hfirst
        cases front <;> simpa using hfirst.symm
      have hmem : n.1 ∈ (front ++ [(q, b)] ++ back).map Prod.fst :=
        List.mem_map_of_mem (List.mem_append_left _ (List.mem_of_mem_head? hn))
      exact hnotin (hnp ▸ hmem)
    have hlast : lastOf head (front ++ [(q, b)]) = some q := by
      rw [lastOf, List.foldl_append]
      rfl
    have hnode' : (heap.set q (some ⟨b, next⟩)).node p = some ⟨a, next⟩ :=
      (Heap.set_of_ne heap _ hne.symm).trans hnode
    refine ⟨(heap.set q (some ⟨b, next⟩)).set p none, head, ?_, ⟨?_, hrestNodup, hbounded⟩,
      Heap.set_self _ _ _, fun r hr => ?_⟩
    · simp only [Heap.remove, hseek, hlast, Option.bind_eq_bind, Option.bind_some, Heap.unlink,
        hnode, if_neg hhead, hq, Heap.write_eq hq, Heap.free_eq hnode']
    · have hskip := hchain.skip (by simpa using h.nodup) hnode
      refine Chain.frame ?_ hframe
      simpa using hskip
    · rw [Heap.set_of_ne _ _ hr]
      by_cases hrq : r = q
      · rw [hrq, Heap.set_self, hq]
        rfl
      · rw [Heap.set_of_ne _ _ hrq]

/-- **Removal** of the node that a condition singles out; the others stay in order. -/
theorem IsList.remove {stop : Nat → α → Bool} (h : IsList heap head nodes) {p : Nat}
    (hmem : p ∈ nodes.map Prod.fst) (hstop : ∀ n ∈ nodes, stop n.1 n.2 = true ↔ n.1 = p) :
    ∃ heap' head', heap.remove stop head = some (some (heap', head')) ∧
      IsList heap' head' (nodes.filter fun n => n.1 ≠ p) ∧ heap'.node p = none ∧
      ∀ q, q ≠ p → (heap'.node q).isSome = (heap.node q).isSome := by
  obtain ⟨⟨p, a⟩, hpa, rfl⟩ := List.mem_map.mp hmem
  obtain ⟨front, back, rfl⟩ := List.append_of_mem hpa
  obtain ⟨hother, hfilter⟩ := filter_ne_eq h.nodup
  have hfront : ∀ n ∈ front, stop n.1 n.2 = false := by
    intro n hn
    rw [Bool.eq_false_iff, ne_eq, hstop n (List.mem_append_left _ hn)]
    exact hother n (List.mem_append_left _ hn)
  rw [hfilter]
  exact h.remove_some hfront ((hstop (p, a) (by simp)).mpr rfl)

theorem IsList.remove_none {stop : Nat → α → Bool} (h : IsList heap head nodes)
    (hstop : ∀ n ∈ nodes, stop n.1 n.2 = false) : heap.remove stop head = some none := by
  obtain ⟨found, hseek, hfound⟩ := h.seek stop
  have hnone : (nodes.any fun n => stop n.1 n.2) = false := by
    rw [List.any_eq_false]
    simpa using hstop
  rw [hnone, Option.isSome_eq_false_iff, Option.isNone_iff_eq_none] at hfound
  simp only [Heap.remove, hseek, hfound, Option.bind_eq_bind, Option.bind_some]

/-! ### Heaps with one list -/

/-- The list is all that is allocated. -/
structure Owns (heap : Heap α) (head : Option Nat) (nodes : List (Nat × α)) : Prop extends
    IsList heap head nodes where
  allocated : ∀ p, (heap.node p).isSome ↔ p ∈ nodes.map Prod.fst

theorem owns_empty : Owns (Heap.empty : Heap α) none [] :=
  ⟨isList_empty, fun _ => by simp [Heap.empty]⟩

/-- What is allocated is in the list. -/
theorem Owns.mem (h : Owns heap head nodes) {p : Nat} {a : α} (hp : heap.content p = some a) :
    (p, a) ∈ nodes := by
  obtain ⟨node, hnode, -⟩ := Option.map_eq_some_iff.mp hp
  obtain ⟨n, hn, rfl⟩ := List.mem_map.mp ((h.allocated p).mp (by rw [hnode]; rfl))
  rw [h.chain.content hn, Option.some.injEq] at hp
  exact hp ▸ hn

/-- An address that is free can be allocated. -/
theorem Owns.can_malloc (h : Owns heap head nodes) {p : Nat} (hp : p ∉ nodes.map Prod.fst) (a : α) :
    ∃ heap', heap.malloc p ⟨a, head⟩ = some heap' := by
  have hfree : heap.node p = none := Option.not_isSome_iff_eq_none.mp (mt (h.allocated p).mp hp)
  obtain ⟨heap', hmalloc, -⟩ := h.toIsList.malloc hfree a
  exact ⟨heap', hmalloc⟩

theorem Owns.malloc (h : Owns heap head nodes) {p : Nat} {a : α}
    (hmalloc : heap.malloc p ⟨a, head⟩ = some heap') : Owns heap' (some p) ((p, a) :: nodes) := by
  have hfree : heap.node p = none := by
    by_contra hused
    rw [Heap.malloc, if_pos (Option.isSome_iff_ne_none.mpr hused)] at hmalloc
    cases hmalloc
  obtain ⟨heap₁, hmalloc₁, hlist, hsome⟩ := h.toIsList.malloc hfree a
  obtain rfl : heap' = heap₁ := Option.some.inj (hmalloc.symm.trans hmalloc₁)
  refine ⟨hlist, fun q => ?_⟩
  rw [hsome, h.allocated, List.map_cons, List.mem_cons]

/-- A list at the same addresses. -/
theorem Owns.of_addresses (h : Owns heap head nodes) {head' : Option Nat} {nodes' : List (Nat × α)}
    (hlist : IsList heap' head' nodes')
    (hsome : ∀ q, (heap'.node q).isSome = (heap.node q).isSome)
    (hsame : nodes'.map Prod.fst = nodes.map Prod.fst) : Owns heap' head' nodes' := by
  refine ⟨hlist, fun q => ?_⟩
  rw [hsome, h.allocated, hsame]

theorem Owns.remove {stop : Nat → α → Bool} (h : Owns heap head nodes) {p : Nat}
    (hmem : p ∈ nodes.map Prod.fst) (hstop : ∀ n ∈ nodes, stop n.1 n.2 = true ↔ n.1 = p) :
    ∃ heap' head', heap.remove stop head = some (some (heap', head')) ∧
      Owns heap' head' (nodes.filter fun n => n.1 ≠ p) := by
  obtain ⟨heap', head', hremove, hlist, hnone, hsome⟩ := h.toIsList.remove hmem hstop
  refine ⟨heap', head', hremove, hlist, fun q => ?_⟩
  simp only [List.mem_map, List.mem_filter, decide_eq_true_eq]
  by_cases hq : q = p
  · subst hq
    simp [hnone]
  · rw [hsome q hq, h.allocated, List.mem_map]
    constructor
    · rintro ⟨n, hn, rfl⟩
      exact ⟨n, ⟨hn, hq⟩, rfl⟩
    · rintro ⟨n, ⟨hn, -⟩, rfl⟩
      exact ⟨n, hn, rfl⟩

end Linked
