import Mathlib.Data.UInt
import Mathlib.Tactic.Ring
import Mathlib.Tactic.Linarith

/-!
# Base-128 numbers with a continuation bit

A number is written as groups of seven bits, lowest group first; every byte but
the last has its high bit set.  This module is about byte strings and natural
numbers only: which strings are one complete number (`Terminated`), what number
such a string denotes (`value`), and the shortest string for a number
(`encode`).  A machine decoder is compared with `value`, so that the facts
about it hold for every terminated string and not only for shortest ones.
-/

namespace Varint

/-- The number denoted by a string of groups, lowest group first. -/
def value : List UInt8 → Nat
  | [] => 0
  | b :: bs => b.toNat % 128 + 128 * value bs

/-- One complete number: every byte but the last continues. -/
inductive Terminated : List UInt8 → Prop
  | last (b : UInt8) (h : b.toNat < 128) : Terminated [b]
  | more (b : UInt8) (bs : List UInt8) (h : 128 ≤ b.toNat) (hbs : Terminated bs) :
      Terminated (b :: bs)

/-- The shortest string that denotes `n`. -/
def encode (n : Nat) : List UInt8 :=
  if n < 128 then [UInt8.ofNat n] else UInt8.ofNat (n % 128 + 128) :: encode (n / 128)
termination_by n
decreasing_by omega

theorem encode_of_lt {n : Nat} (h : n < 128) : encode n = [UInt8.ofNat n] := by
  rw [encode, if_pos h]

theorem encode_of_le {n : Nat} (h : 128 ≤ n) :
    encode n = UInt8.ofNat (n % 128 + 128) :: encode (n / 128) := by
  rw [encode, if_neg (by omega)]

theorem toNat_ofNat_of_lt {n : Nat} (h : n < 256) : (UInt8.ofNat n).toNat = n := by
  rw [UInt8.toNat_ofNat']
  exact Nat.mod_eq_of_lt h

theorem terminated_encode (n : Nat) : Terminated (encode n) := by
  induction n using Nat.strongRecOn with
  | ind n ih =>
    by_cases h : n < 128
    · rw [encode_of_lt h]
      exact Terminated.last _ (by rw [toNat_ofNat_of_lt (by omega)]; exact h)
    · rw [encode_of_le (by omega)]
      have hbyte : (UInt8.ofNat (n % 128 + 128)).toNat = n % 128 + 128 :=
        toNat_ofNat_of_lt (by omega)
      exact Terminated.more _ _ (by omega) (ih (n / 128) (by omega))

@[simp] theorem value_encode (n : Nat) : value (encode n) = n := by
  induction n using Nat.strongRecOn with
  | ind n ih =>
    by_cases h : n < 128
    · rw [encode_of_lt h, value, toNat_ofNat_of_lt (by omega), value]
      omega
    · rw [encode_of_le (by omega), value, toNat_ofNat_of_lt (by omega),
        ih (n / 128) (by omega)]
      omega

theorem value_lt (bs : List UInt8) : value bs < 128 ^ bs.length := by
  induction bs with
  | nil => simp [value]
  | cons b bs ih =>
    rw [value, List.length_cons, Nat.pow_succ]
    have hgroup : b.toNat % 128 < 128 := Nat.mod_lt _ (by decide)
    omega

theorem Terminated.ne_nil {bs : List UInt8} (h : Terminated bs) : bs ≠ [] := by
  cases h <;> simp

theorem Terminated.length_pos {bs : List UInt8} (h : Terminated bs) : 0 < bs.length :=
  List.length_pos_iff.mpr h.ne_nil

theorem length_encode_pos (n : Nat) : 0 < (encode n).length :=
  (terminated_encode n).length_pos

theorem length_encode_le (k : Nat) : ∀ n, n < 128 ^ (k + 1) → (encode n).length ≤ k + 1 := by
  induction k with
  | zero =>
    intro n h
    rw [encode_of_lt (by simpa using h)]
    simp
  | succ k ih =>
    intro n h
    by_cases hn : n < 128
    · rw [encode_of_lt hn]
      simp
    · rw [encode_of_le (by omega), List.length_cons]
      have hdiv : n / 128 < 128 ^ (k + 1) := by
        rw [Nat.div_lt_iff_lt_mul (by decide)]
        calc n < 128 ^ (k + 1 + 1) := h
          _ = 128 ^ (k + 1) * 128 := by rw [Nat.pow_succ]
      have := ih (n / 128) hdiv
      omega

/-! ### Signed numbers

The highest bit of the last group is the sign: it counts for all bits above it. -/

/-- The number denoted by a string of groups whose last one carries the sign. -/
def signedValue : List UInt8 → Int
  | [] => 0
  | [b] => if 64 ≤ b.toNat % 128 then (b.toNat % 128 : Int) - 128 else b.toNat % 128
  | b :: b' :: bs => b.toNat % 128 + 128 * signedValue (b' :: bs)

/-- The sign bit of a string: that of its last group. -/
def negative : List UInt8 → Bool
  | [] => false
  | [b] => 64 ≤ b.toNat % 128
  | _ :: b' :: bs => negative (b' :: bs)

/-- The shortest string that denotes `n` with a sign. -/
def encodeSigned (n : Int) : List UInt8 :=
  if -64 ≤ n ∧ n < 64 then [UInt8.ofNat (n % 128).toNat]
  else UInt8.ofNat ((n % 128).toNat + 128) :: encodeSigned (n / 128)
termination_by n.natAbs
decreasing_by omega

theorem encodeSigned_of_small {n : Int} (h : -64 ≤ n ∧ n < 64) :
    encodeSigned n = [UInt8.ofNat (n % 128).toNat] := by
  rw [encodeSigned, if_pos h]

theorem encodeSigned_of_large {n : Int} (h : ¬ (-64 ≤ n ∧ n < 64)) :
    encodeSigned n = UInt8.ofNat ((n % 128).toNat + 128) :: encodeSigned (n / 128) := by
  rw [encodeSigned, if_neg h]

theorem terminated_encodeSigned (n : Int) : Terminated (encodeSigned n) := by
  induction hsize : n.natAbs using Nat.strongRecOn generalizing n with
  | ind size ih =>
    by_cases h : -64 ≤ n ∧ n < 64
    · rw [encodeSigned_of_small h]
      exact Terminated.last _ (by rw [toNat_ofNat_of_lt (by omega)]; omega)
    · rw [encodeSigned_of_large h]
      have hbyte : (UInt8.ofNat ((n % 128).toNat + 128)).toNat = (n % 128).toNat + 128 :=
        toNat_ofNat_of_lt (by omega)
      exact Terminated.more _ _ (by omega) (ih (n / 128).natAbs (by omega) (n / 128) rfl)

theorem signedValue_cons (b : UInt8) {bs : List UInt8} (h : bs ≠ []) :
    signedValue (b :: bs) = b.toNat % 128 + 128 * signedValue bs := by
  cases bs with
  | nil => exact absurd rfl h
  | cons b' bs => rfl

theorem negative_cons (b : UInt8) {bs : List UInt8} (h : bs ≠ []) :
    negative (b :: bs) = negative bs := by
  cases bs with
  | nil => exact absurd rfl h
  | cons b' bs => rfl

@[simp] theorem signedValue_encodeSigned (n : Int) : signedValue (encodeSigned n) = n := by
  induction hsize : n.natAbs using Nat.strongRecOn generalizing n with
  | ind size ih =>
    by_cases h : -64 ≤ n ∧ n < 64
    · rw [encodeSigned_of_small h, signedValue, toNat_ofNat_of_lt (by omega)]
      split <;> omega
    · rw [encodeSigned_of_large h, signedValue_cons _ (terminated_encodeSigned _).ne_nil,
        toNat_ofNat_of_lt (by omega), ih (n / 128).natAbs (by omega) (n / 128) rfl]
      omega

/-- The sign takes the groups above the last one away. -/
theorem signedValue_eq {bs : List UInt8} (h : Terminated bs) :
    signedValue bs = value bs - if negative bs then 128 ^ bs.length else 0 := by
  induction h with
  | last b hb =>
    simp only [signedValue, negative, value, decide_eq_true_eq]
    split <;> simp
  | more b bs hb hbs ih =>
    rw [signedValue_cons b hbs.ne_nil, negative_cons b hbs.ne_nil, ih, value, List.length_cons,
      pow_succ]
    split <;> push_cast <;> ring

theorem length_encodeSigned_le (k : Nat) : ∀ n : Int, -(64 * 128 ^ k) ≤ n → n < 64 * 128 ^ k →
    (encodeSigned n).length ≤ k + 1 := by
  induction k with
  | zero =>
    intro n hlow hhigh
    rw [encodeSigned_of_small (by constructor <;> omega)]
    simp
  | succ k ih =>
    intro n hlow hhigh
    by_cases h : -64 ≤ n ∧ n < 64
    · rw [encodeSigned_of_small h]
      simp
    · rw [encodeSigned_of_large h, List.length_cons]
      have hpow : (128 : Int) ^ (k + 1) = 128 * 128 ^ k := by ring
      rw [hpow] at hlow hhigh
      have := ih (n / 128) (by omega) (by omega)
      omega

end Varint
