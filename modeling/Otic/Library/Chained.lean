import Mathlib.Data.List.Basic
import Mathlib.Data.List.Nodup

/-!
# Tables of chains searched by key

A hash table with chaining, as a function from bucket numbers to chains.  An
entry is pushed at the head of its chain, changed in place, and found by
walking the one chain its key hashes to.  Nothing is assumed about the hash
function: looking up `k` after a push or a change under another key is
unaffected whether or not the two keys share a bucket.
-/

namespace Chained

variable {κ α : Type*}

/-- The chain of every bucket, newest entry first. -/
abbrev Table (α : Type*) := Nat → List α

/-- Change the first element that satisfies `p`, if there is one. -/
def modifyFirst (p : α → Bool) (f : α → α) : List α → List α
  | [] => []
  | a :: as => if p a then f a :: as else a :: modifyFirst p f as

theorem mem_modifyFirst {p : α → Bool} {f : α → α} {as : List α} {a : α}
    (h : a ∈ modifyFirst p f as) : a ∈ as ∨ ∃ b ∈ as, p b ∧ a = f b := by
  induction as with
  | nil => simp [modifyFirst] at h
  | cons c cs ih =>
    rw [modifyFirst] at h
    split at h
    · rename_i hc
      rcases List.mem_cons.mp h with rfl | hmem
      · exact Or.inr ⟨c, List.mem_cons_self, hc, rfl⟩
      · exact Or.inl (List.mem_cons_of_mem _ hmem)
    · rcases List.mem_cons.mp h with rfl | hmem
      · exact Or.inl List.mem_cons_self
      · rcases ih hmem with hmem | ⟨b, hb, hpb, rfl⟩
        · exact Or.inl (List.mem_cons_of_mem _ hmem)
        · exact Or.inr ⟨b, List.mem_cons_of_mem _ hb, hpb, rfl⟩

/-- A change that keeps `p` is found again by `p`. -/
theorem find?_modifyFirst_self {p : α → Bool} {f : α → α} (hf : ∀ a, p a → p (f a))
    (as : List α) : (modifyFirst p f as).find? p = (as.find? p).map f := by
  induction as with
  | nil => rfl
  | cons a as ih =>
    rw [modifyFirst]
    by_cases ha : p a = true
    · simp [ha, hf a ha]
    · simp [ha, ih]

/-- A change of elements that `q` never sees is invisible to `q`. -/
theorem find?_modifyFirst_of_not {p q : α → Bool} {f : α → α}
    (hq : ∀ a, p a → q a = false ∧ q (f a) = false) (as : List α) :
    (modifyFirst p f as).find? q = as.find? q := by
  induction as with
  | nil => rfl
  | cons a as ih =>
    rw [modifyFirst]
    by_cases ha : p a = true
    · simp [ha, hq a ha]
    · simp [ha, List.find?_cons, ih]

/-- Push an entry at the head of a bucket's chain. -/
def push (table : Table α) (bucket : Nat) (a : α) : Table α :=
  fun b => if b = bucket then a :: table b else table b

/-- Change the first entry of a bucket's chain that satisfies `p`. -/
def modify (table : Table α) (bucket : Nat) (p : α → Bool) (f : α → α) : Table α :=
  fun b => if b = bucket then modifyFirst p f (table b) else table b

section Lookup

variable [DecidableEq κ] (hash : κ → Nat) (key : α → κ)

/-- Walk the chain of the bucket that `k` hashes to. -/
def find (table : Table α) (k : κ) : Option α :=
  (table (hash k)).find? fun a => decide (key a = k)

theorem key_of_find {table : Table α} {k : κ} {a : α} (h : find hash key table k = some a) :
    key a = k := by
  simpa using List.find?_some h

theorem mem_of_find {table : Table α} {k : κ} {a : α} (h : find hash key table k = some a) :
    a ∈ table (hash k) :=
  List.mem_of_find?_eq_some h

@[simp] theorem find_empty (k : κ) : find hash key (fun _ => []) k = none := rfl

theorem find_push_self (table : Table α) (a : α) :
    find hash key (push table (hash (key a)) a) (key a) = some a := by
  simp [find, push]

theorem find_push_of_ne (table : Table α) (bucket : Nat) {a : α} {k : κ} (h : key a ≠ k) :
    find hash key (push table bucket a) k = find hash key table k := by
  unfold find push
  split
  · simp [h]
  · rfl

theorem find_modify_self (table : Table α) (k : κ) {f : α → α} (hf : ∀ a, key (f a) = key a) :
    find hash key (modify table (hash k) (fun a => decide (key a = k)) f) k =
      (find hash key table k).map f := by
  unfold find modify
  rw [if_pos rfl]
  exact find?_modifyFirst_self (fun a ha => by simpa [hf] using ha) _

theorem find_modify_of_ne (table : Table α) (bucket : Nat) {k k' : κ} (h : k' ≠ k) {f : α → α}
    (hf : ∀ a, key (f a) = key a) :
    find hash key (modify table bucket (fun a => decide (key a = k)) f) k' =
      find hash key table k' := by
  unfold find modify
  split
  · refine find?_modifyFirst_of_not (fun a ha => ?_) _
    have hkey : key a = k := by simpa using ha
    simp only [hf, hkey, decide_eq_false_iff_not]
    exact ⟨h.symm, h.symm⟩
  · rfl

end Lookup

section Everywhere

/-- Every entry of every chain satisfies `P`. -/
def All (P : α → Prop) (table : Table α) : Prop := ∀ b, ∀ a ∈ table b, P a

variable {P : α → Prop} {table : Table α}

theorem All.push (h : All P table) (bucket : Nat) {a : α} (ha : P a) :
    All P (push table bucket a) := by
  intro b c hc
  unfold Chained.push at hc
  split at hc
  · rcases List.mem_cons.mp hc with rfl | hc
    · exact ha
    · exact h b c hc
  · exact h b c hc

theorem All.modify (h : All P table) (bucket : Nat) (p : α → Bool) {f : α → α}
    (hf : ∀ a, P a → P (f a)) : All P (modify table bucket p f) := by
  intro b c hc
  unfold Chained.modify at hc
  split at hc
  · rcases mem_modifyFirst hc with hc | ⟨d, hd, _, rfl⟩
    · exact h b c hc
    · exact hf d (h b d hd)
  · exact h b c hc

theorem All.of_find [DecidableEq κ] {hash : κ → Nat} {key : α → κ} (h : All P table)
    {k : κ} {a : α} (ha : find hash key table k = some a) : P a :=
  h _ a (mem_of_find hash key ha)

theorem All.imp {Q : α → Prop} (h : All P table) (himp : ∀ a, P a → Q a) : All Q table :=
  fun b a ha => himp a (h b a ha)

end Everywhere

section Listing

variable {hash : κ → Nat} {key : α → κ} {table : Table α}

/-- Every entry is in the bucket of its key, and no chain has a key twice. -/
structure Tidy (hash : κ → Nat) (key : α → κ) (table : Table α) : Prop where
  placed : ∀ b, ∀ a ∈ table b, hash (key a) = b
  distinct : ∀ b, ((table b).map key).Nodup

/-- An entry is pushed under a key that was not found. -/
theorem Tidy.push [DecidableEq κ] (h : Tidy hash key table) {a : α}
    (habsent : find hash key table (key a) = none) :
    Tidy hash key (push table (hash (key a)) a) := by
  constructor
  · intro b c hc
    unfold Chained.push at hc
    split at hc
    · rename_i hb
      rcases List.mem_cons.mp hc with rfl | hc
      · exact hb.symm
      · exact h.placed b c hc
    · exact h.placed b c hc
  · intro b
    unfold Chained.push
    split
    · rename_i hb
      rw [List.map_cons, List.nodup_cons]
      refine ⟨fun hmem => ?_, h.distinct b⟩
      obtain ⟨c, hc, hkey⟩ := List.mem_map.mp hmem
      rw [hb] at hc
      have hnot := List.find?_eq_none.mp habsent c hc
      exact hnot (by simp [hkey])
    · exact h.distinct b

/-- A change that keeps the keys. -/
theorem Tidy.modify (h : Tidy hash key table) (bucket : Nat) {p : α → Bool} {f : α → α}
    (hf : ∀ a, p a = true → key (f a) = key a) : Tidy hash key (modify table bucket p f) := by
  have hkeys : ∀ as : List α, (modifyFirst p f as).map key = as.map key := by
    intro as
    induction as with
    | nil => rfl
    | cons a as ih =>
      rw [modifyFirst]
      split
      · rename_i ha
        rw [List.map_cons, List.map_cons, hf a ha]
      · rw [List.map_cons, List.map_cons, ih]
  constructor
  · intro b c hc
    unfold Chained.modify at hc
    split at hc
    · rcases mem_modifyFirst hc with hc | ⟨d, hd, hp, rfl⟩
      · exact h.placed b c hc
      · rw [hf d hp]
        exact h.placed b d hd
    · exact h.placed b c hc
  · intro b
    unfold Chained.modify
    split
    · rw [hkeys]
      exact h.distinct b
    · exact h.distinct b

end Listing

end Chained
