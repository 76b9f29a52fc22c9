import Mathlib.Data.UInt
import Mathlib.Tactic.Linarith

/-!
# Fixed-width integers and zero-terminated strings in memory

Two pieces of memory layout that have nothing to do with any format: unsigned
integers of a fixed number of bytes, lowest byte first, and byte strings that
end at their first zero byte.
-/

namespace Bytes

/-! ### Little-endian integers -/

/-- The `width` low bytes of `n`, lowest first. -/
def ofNat : (width : Nat) → Nat → List UInt8
  | 0, _ => []
  | width + 1, n => UInt8.ofNat (n % 256) :: ofNat width (n / 256)

/-- The number whose bytes these are, lowest first. -/
def toNat : List UInt8 → Nat
  | [] => 0
  | b :: bs => b.toNat + 256 * toNat bs

@[simp] theorem length_ofNat (width n : Nat) : (ofNat width n).length = width := by
  induction width generalizing n with
  | zero => rfl
  | succ width ih => simp [ofNat, ih]

theorem toNat_ofNat (width : Nat) : ∀ n, toNat (ofNat width n) = n % 256 ^ width := by
  induction width with
  | zero =>
    intro n
    simp [ofNat, toNat, Nat.mod_one]
  | succ width ih =>
    intro n
    have hbyte : (UInt8.ofNat (n % 256)).toNat = n % 256 := by
      rw [UInt8.toNat_ofNat']
      exact Nat.mod_eq_of_lt (Nat.mod_lt _ (by decide))
    rw [ofNat, toNat, hbyte, ih, Nat.pow_succ, Nat.mul_comm (256 ^ width), Nat.mod_mul]

theorem toNat_ofNat_of_lt {width n : Nat} (h : n < 256 ^ width) : toNat (ofNat width n) = n := by
  rw [toNat_ofNat, Nat.mod_eq_of_lt h]

theorem toNat_lt (bs : List UInt8) : toNat bs < 256 ^ bs.length := by
  induction bs with
  | nil => simp [toNat]
  | cons b bs ih =>
    rw [toNat, List.length_cons, Nat.pow_succ]
    have := b.toNat_lt
    omega

/-- A 64-bit word written as its eight bytes. -/
def ofUInt64 (w : UInt64) : List UInt8 := ofNat 8 w.toNat

/-- The 64-bit word whose bytes these are. -/
def toUInt64 (bs : List UInt8) : UInt64 := UInt64.ofNat (toNat bs)

@[simp] theorem length_ofUInt64 (w : UInt64) : (ofUInt64 w).length = 8 := length_ofNat _ _

@[simp] theorem toUInt64_ofUInt64 (w : UInt64) : toUInt64 (ofUInt64 w) = w := by
  rw [toUInt64, ofUInt64, toNat_ofNat_of_lt w.toNat_lt]
  exact UInt64.ofNat_toNat

/-- A 32-bit word written as its four bytes. -/
def ofUInt32 (w : UInt32) : List UInt8 := ofNat 4 w.toNat

/-- The 32-bit word whose bytes these are. -/
def toUInt32 (bs : List UInt8) : UInt32 := UInt32.ofNat (toNat bs)

@[simp] theorem length_ofUInt32 (w : UInt32) : (ofUInt32 w).length = 4 := length_ofNat _ _

@[simp] theorem toUInt32_ofUInt32 (w : UInt32) : toUInt32 (ofUInt32 w) = w := by
  rw [toUInt32, ofUInt32, toNat_ofNat_of_lt w.toNat_lt]
  exact UInt32.ofNat_toNat

/-! ### Zero-terminated strings -/

/-- What a reader of a zero-terminated string sees: the bytes before the first zero. -/
def untilZero : List UInt8 → List UInt8
  | [] => []
  | b :: bs => if b = 0 then [] else b :: untilZero bs

/-- Bytes in front of a string without a zero only lengthen what is seen. -/
theorem untilZero_append {bs : List UInt8} (h : (0 : UInt8) ∉ bs) (rest : List UInt8) :
    untilZero (bs ++ rest) = bs ++ untilZero rest := by
  induction bs with
  | nil => rfl
  | cons b bs ih =>
    simp only [List.mem_cons, not_or] at h
    rw [List.cons_append, untilZero, if_neg (fun hb => h.1 hb.symm), ih h.2]
    rfl

theorem untilZero_append_zero {bs : List UInt8} (h : (0 : UInt8) ∉ bs) (rest : List UInt8) :
    untilZero (bs ++ 0 :: rest) = bs := by
  rw [untilZero_append h]
  simp [untilZero]

theorem untilZero_of_notMem {bs : List UInt8} (h : (0 : UInt8) ∉ bs) : untilZero bs = bs := by
  simpa [untilZero] using untilZero_append h []

@[simp] theorem untilZero_append_singleton_zero (bs : List UInt8) :
    untilZero (bs ++ [0]) = untilZero bs := by
  induction bs with
  | nil => rfl
  | cons b bs ih =>
    rw [List.cons_append, untilZero, untilZero, ih]

theorem notMem_untilZero (bs : List UInt8) : (0 : UInt8) ∉ untilZero bs := by
  induction bs with
  | nil => exact List.not_mem_nil
  | cons b bs ih =>
    rw [untilZero]
    split
    · exact List.not_mem_nil
    · rename_i hb
      rw [List.mem_cons, not_or]
      exact ⟨fun hzero => hb hzero.symm, ih⟩

theorem length_untilZero_le (bs : List UInt8) : (untilZero bs).length ≤ bs.length := by
  induction bs with
  | nil => exact Nat.le_refl 0
  | cons b bs ih =>
    rw [untilZero]
    split
    · exact Nat.zero_le _
    · exact Nat.succ_le_succ ih

/-- The bytes up to and including the first zero, or all of them, and the bytes after. -/
def splitZero : List UInt8 → List UInt8 × List UInt8
  | [] => ([], [])
  | b :: bs => if b = 0 then ([b], bs) else (b :: (splitZero bs).1, (splitZero bs).2)

@[simp] theorem splitZero_append (bs : List UInt8) : (splitZero bs).1 ++ (splitZero bs).2 = bs := by
  induction bs with
  | nil => rfl
  | cons b bs ih =>
    rw [splitZero]
    split
    · rfl
    · simp [ih]

theorem splitZero_of_notMem {bs : List UInt8} (h : (0 : UInt8) ∉ bs) (rest : List UInt8) :
    splitZero (bs ++ 0 :: rest) = (bs ++ [0], rest) := by
  induction bs with
  | nil => simp [splitZero]
  | cons b bs ih =>
    simp only [List.mem_cons, not_or] at h
    rw [List.cons_append, splitZero, if_neg (fun hb => h.1 hb.symm), ih h.2]
    rfl

end Bytes
