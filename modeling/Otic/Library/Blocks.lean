import Mathlib.Data.List.Basic
import Mathlib.Logic.Function.Basic

/-!
# Blocks that are allocated and freed

Blocks are numbered as they are allocated, and no number is used twice.  A word is a
number, the address of a block, or neither, when a part of it was overwritten.  To free
anything but a block that is live, or null, breaks the heap, and a heap stays broken.

`Owned own heap` says that every place owns at most one block, that the blocks are live,
and that no two places own the same one; every operation has one rule about it.
-/

namespace Blocks

/-- A machine word, as `free` takes it. -/
inductive Word where
  | bits (n : Nat)
  | block (b : Nat)
  | torn
deriving DecidableEq, Repr

/-- The blocks that were allocated and those of them that are live. -/
structure Heap where
  mallocs : Nat
  live : List Nat
  broken : Bool
deriving DecidableEq, Repr

namespace Heap

def empty : Heap := ⟨0, [], false⟩

def malloc (heap : Heap) : Word × Heap :=
  (.block heap.mallocs,
    { heap with mallocs := heap.mallocs + 1, live := heap.mallocs :: heap.live })

/-- Nothing else than null and the address of a live block may be freed. -/
def free (heap : Heap) : Word → Heap
  | .bits n => if n = 0 then heap else { heap with broken := true }
  | .block b =>
      if b ∈ heap.live then { heap with live := heap.live.filter (· ≠ b) }
      else { heap with broken := true }
  | .torn => { heap with broken := true }

/-- A word that is not null and that is the address of no live block, now and later. -/
def Stale (heap : Heap) : Word → Prop
  | .bits n => n ≠ 0
  | .block b => b < heap.mallocs ∧ b ∉ heap.live
  | .torn => True

variable {heap : Heap} {w w' : Word}

@[simp] theorem free_null (heap : Heap) : heap.free (.bits 0) = heap := rfl

@[simp] theorem mallocs_free : (heap.free w).mallocs = heap.mallocs := by
  cases w <;> simp only [free] <;> split <;> rfl

theorem live_of_free {b : Nat} (h : b ∈ (heap.free w).live) : b ∈ heap.live := by
  cases w with
  | bits n =>
    rw [free] at h
    split at h
    · exact h
    · exact h
  | block b' =>
    rw [free] at h
    split at h
    · exact List.mem_of_mem_filter h
    · exact h
  | torn => exact h

theorem free_stale (h : heap.Stale w) : heap.free w = { heap with broken := true } := by
  cases w with
  | bits n => rw [free, if_neg h]
  | block b => rw [free, if_neg h.2]
  | torn => rfl

theorem Stale.free (h : heap.Stale w) (w' : Word) : (heap.free w').Stale w := by
  cases w with
  | bits n => exact h
  | block b => exact ⟨by rw [mallocs_free]; exact h.1, fun hlive => h.2 (live_of_free hlive)⟩
  | torn => exact h

theorem Stale.malloc (h : heap.Stale w) : heap.malloc.2.Stale w := by
  cases w with
  | bits n => exact h
  | block b =>
    refine ⟨Nat.lt_succ_of_lt h.1, fun hlive => ?_⟩
    rcases List.mem_cons.mp hlive with rfl | hlive
    · exact Nat.lt_irrefl _ h.1
    · exact h.2 hlive
  | torn => exact h

/-- A block that was live is stale once it is freed. -/
theorem stale_free {b : Nat} (hb : b < heap.mallocs) : (heap.free (.block b)).Stale (.block b) := by
  refine ⟨by rw [mallocs_free]; exact hb, ?_⟩
  rw [free]
  split
  · simp
  · assumption

end Heap

/-- Every place owns at most one live block, and no two places own the same one. -/
structure Owned {ι : Type*} (own : ι → Option Nat) (heap : Heap) : Prop where
  live : ∀ i b, own i = some b → b ∈ heap.live
  apart : ∀ i j b, own i = some b → own j = some b → i = j
  counted : ∀ b ∈ heap.live, b < heap.mallocs

namespace Owned

theorem empty {ι : Type*} : Owned (fun _ : ι => none) Heap.empty where
  live := fun _ _ h => by cases h
  apart := fun _ _ _ h => by cases h
  counted := fun _ h => by cases h

variable {ι : Type*} {own : ι → Option Nat} {heap : Heap}

theorem congr {heap' : Heap} (h : Owned own heap) (hlive : heap'.live = heap.live)
    (hmallocs : heap'.mallocs = heap.mallocs) : Owned own heap' where
  live := fun j b hj => by rw [hlive]; exact h.live j b hj
  apart := h.apart
  counted := fun b hb => by rw [hmallocs]; exact h.counted b (by rwa [hlive] at hb)

variable [DecidableEq ι] {i : ι} {b : Nat}

/-- **A place frees its block.** -/
theorem free (h : Owned own heap) (hi : own i = some b) :
    (heap.free (.block b)).broken = heap.broken ∧
      (heap.free (.block b)).Stale (.block b) ∧
      Owned (Function.update own i none) (heap.free (.block b)) := by
  have hlive := h.live i b hi
  have hfree : heap.free (.block b) = { heap with live := heap.live.filter (· ≠ b) } := by
    rw [Heap.free, if_pos hlive]
  refine ⟨by rw [hfree], Heap.stale_free (h.counted b hlive), ?_⟩
  have hold : ∀ j b', Function.update own i none j = some b' → own j = some b' ∧ b' ≠ b := by
    intro j b' hj
    by_cases hji : j = i
    · rw [hji, Function.update_self] at hj
      cases hj
    · rw [Function.update_of_ne hji] at hj
      refine ⟨hj, fun hb => hji ?_⟩
      rw [hb] at hj
      exact h.apart j i b hj hi
  rw [hfree]
  refine ⟨fun j b' hj => ?_, fun j k b' hj hk => ?_, fun b' hb' => ?_⟩
  · obtain ⟨hj, hne⟩ := hold j b' hj
    simpa [hne] using h.live j b' hj
  · exact h.apart j k b' (hold j b' hj).1 (hold k b' hk).1
  · exact h.counted b' (List.mem_of_mem_filter hb')

/-- **A place takes a new block**; one that it owned before stays live. -/
theorem malloc (h : Owned own heap) (i : ι) :
    heap.malloc.1 = .block heap.mallocs ∧
      Owned (Function.update own i (some heap.mallocs)) heap.malloc.2 := by
  have hnew : ∀ j b, own j = some b → b ≠ heap.mallocs := fun j b hj hb =>
    Nat.lt_irrefl _ (hb ▸ h.counted b (h.live j b hj))
  have hold : ∀ j b, Function.update own i (some heap.mallocs) j = some b →
      (j = i ∧ b = heap.mallocs) ∨ (j ≠ i ∧ own j = some b) := by
    intro j b hj
    by_cases hji : j = i
    · rw [hji, Function.update_self, Option.some.injEq] at hj
      exact Or.inl ⟨hji, hj.symm⟩
    · rw [Function.update_of_ne hji] at hj
      exact Or.inr ⟨hji, hj⟩
  refine ⟨rfl, fun j b hj => ?_, fun j k b hj hk => ?_, fun b hb => ?_⟩
  · rcases hold j b hj with ⟨-, rfl⟩ | ⟨-, hj⟩
    · exact List.mem_cons_self
    · exact List.mem_cons_of_mem _ (h.live j b hj)
  · rcases hold j b hj with ⟨rfl, rfl⟩ | ⟨-, hj⟩
    · rcases hold k _ hk with ⟨rfl, -⟩ | ⟨-, hk⟩
      · rfl
      · exact absurd rfl (hnew k _ hk)
    · rcases hold k b hk with ⟨-, rfl⟩ | ⟨-, hk⟩
      · exact absurd rfl (hnew j _ hj)
      · exact h.apart j k b hj hk
  · rcases List.mem_cons.mp hb with rfl | hb
    · exact Nat.lt_succ_self _
    · exact Nat.lt_succ_of_lt (h.counted b hb)

end Owned

end Blocks
