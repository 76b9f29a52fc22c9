import Mathlib.Order.Bounds.Basic
import Mathlib.Order.MinMax
import Mathlib.Data.List.Perm.Basic

/-!
# Running extremes

A running extreme starts at some value and is replaced by whatever of a list lies
beyond it.  In the end it is the extreme of the list and the start together, in
whatever order the list is gone through.
-/

namespace Running

variable {α : Type*} [LinearOrder α]

theorem ite_lt_eq_min (x acc : α) : (if x < acc then x else acc) = min acc x := by
  split
  · rename_i h
    exact (min_eq_right h.le).symm
  · rename_i h
    exact (min_eq_left (not_lt.mp h)).symm

theorem ite_gt_eq_max (x acc : α) : (if x > acc then x else acc) = max acc x := by
  split
  · rename_i h
    exact (max_eq_right (le_of_lt h)).symm
  · rename_i h
    exact (max_eq_left (not_lt.mp h)).symm

theorem isLeast_foldl_min (start : α) (l : List α) :
    IsLeast {x | x = start ∨ x ∈ l} (l.foldl min start) := by
  induction l generalizing start with
  | nil =>
    exact ⟨Or.inl rfl, fun x hx => by simpa using (le_of_eq (hx.resolve_right (by simp)).symm)⟩
  | cons y l ih =>
    obtain ⟨hmem, hle⟩ := ih (min start y)
    rw [List.foldl_cons]
    constructor
    · rcases hmem with h | h
      · rcases min_choice start y with hmin | hmin
        · exact Or.inl (h.trans hmin)
        · exact Or.inr (by rw [h, hmin]; exact List.mem_cons_self)
      · exact Or.inr (List.mem_cons_of_mem y h)
    · have hstart : l.foldl min (min start y) ≤ min start y := hle (Or.inl rfl)
      rintro x (rfl | hx)
      · exact hstart.trans (min_le_left _ _)
      · rcases List.mem_cons.mp hx with rfl | hx
        · exact hstart.trans (min_le_right _ _)
        · exact hle (Or.inr hx)

theorem isGreatest_foldl_max (start : α) (l : List α) :
    IsGreatest {x | x = start ∨ x ∈ l} (l.foldl max start) :=
  isLeast_foldl_min (α := αᵒᵈ) start l

end Running
