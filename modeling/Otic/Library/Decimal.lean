import Mathlib.Data.List.TakeWhile

/-!
# Decimal numerals

A number as the characters that it is printed with, and characters as the number that they
are read as.  Reading undoes printing (`value_numeral`), whatever follows the digits
(`takeWhile_numeral`).
-/

namespace Decimal

/-- The characters `'0'` to `'9'`. -/
def IsDigit (char : UInt8) : Prop := 48 ≤ char ∧ char ≤ 57

instance : DecidablePred IsDigit := fun char => by
  unfold IsDigit
  infer_instance

/-- The digits of a number, without leading zeros. -/
def numeral (n : ℕ) : List UInt8 := (Nat.toDigits 10 n).map fun char => .ofNat char.toNat

/-- The number that some digits stand for. -/
def value (text : List UInt8) : ℕ :=
  text.foldl (fun number digit => 10 * number + (digit.toNat - 48)) 0

theorem digitChar_eq {d : ℕ} (h : d < 10) :
    UInt8.ofNat (Nat.digitChar d).toNat = UInt8.ofNat (48 + d) := by
  revert d
  decide

/-- The last digit comes off the end. -/
theorem numeral_eq (n : ℕ) :
    numeral n = (if n < 10 then [] else numeral (n / 10)) ++ [.ofNat (48 + n % 10)] := by
  unfold numeral
  rw [Nat.toDigits_eq_if (by decide)]
  by_cases h : n < 10
  · rw [if_pos h, if_pos h, List.map_singleton, digitChar_eq h, Nat.mod_eq_of_lt h]
    rfl
  · rw [if_neg h, if_neg h, List.map_append, List.map_singleton,
      digitChar_eq (Nat.mod_lt n (by decide))]

theorem numeral_ne_nil (n : ℕ) : numeral n ≠ [] := by
  rw [numeral_eq]
  exact List.append_ne_nil_of_right_ne_nil _ (List.cons_ne_nil _ _)

theorem isDigit_ofNat {d : ℕ} (h : d < 10) :
    IsDigit (.ofNat (48 + d)) ∧ (UInt8.ofNat (48 + d)).toNat - 48 = d := by
  revert d
  decide

theorem isDigit_numeral (n : ℕ) : ∀ char ∈ numeral n, IsDigit char := by
  induction n using Nat.strongRecOn with
  | ind n ih =>
    intro char hchar
    rw [numeral_eq, List.mem_append, List.mem_singleton] at hchar
    rcases hchar with hchar | rfl
    · by_cases h : n < 10
      · rw [if_pos h] at hchar
        cases hchar
      · rw [if_neg h] at hchar
        exact ih _ (Nat.div_lt_self (by omega) (by decide)) char hchar
    · exact (isDigit_ofNat (Nat.mod_lt n (by decide))).1

theorem value_concat (text : List UInt8) (digit : UInt8) :
    value (text ++ [digit]) = 10 * value text + (digit.toNat - 48) := by
  simp only [value, List.foldl_append, List.foldl_cons, List.foldl_nil]

/-- **Reading undoes printing.** -/
theorem value_numeral (n : ℕ) : value (numeral n) = n := by
  induction n using Nat.strongRecOn with
  | ind n ih =>
    rw [numeral_eq, value_concat, (isDigit_ofNat (Nat.mod_lt n (by decide))).2]
    by_cases h : n < 10
    · rw [if_pos h, Nat.mod_eq_of_lt h]
      exact Nat.zero_add n
    · rw [if_neg h, ih _ (Nat.div_lt_self (by omega) (by decide))]
      exact Nat.div_add_mod n 10

theorem takeWhile_numeral (n : ℕ) : (numeral n).takeWhile IsDigit = numeral n :=
  List.takeWhile_eq_self_iff.mpr fun char hchar => decide_eq_true (isDigit_numeral n char hchar)

end Decimal
