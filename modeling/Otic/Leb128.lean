import Otic.Base
import Otic.Library.Varint
import Mathlib.Order.Bounds.Basic
import Mathlib.Tactic.Ring
import Mathlib.Tactic.NormNum

/-!
# LEB128 as `base.c` reads and writes it

`leb128_encode_unsigned` and `leb128_decode_unsigned`, each compared with the
mathematical description in `Library/Varint`.  The decoder reads from the bytes
between `base.top` and the end of the block; it fails when it would read past
them, and when its shift counter would reach 64.
-/

namespace Otic

/-! ### Encoder -/

/-- The `while (value >= 128)` loop; ten rounds are enough for 64 bits. -/
def leb128EncodeLoop : (rounds : Nat) → UInt64 → List UInt8
  | 0, value => [value.toUInt8]
  | rounds + 1, value =>
      if value < 128 then [value.toUInt8]
      else (0x80 ||| (value &&& 0x7F).toUInt8) :: leb128EncodeLoop rounds (value >>> 7)

/-- `leb128_encode_unsigned`: the bytes written at `dest`. -/
def leb128EncodeUnsigned (value : UInt64) : List UInt8 := leb128EncodeLoop 9 value

theorem toNat_shiftRight_seven (value : UInt64) : (value >>> 7).toNat = value.toNat / 128 := by
  rw [UInt64.toNat_shiftRight]
  simp [Nat.shiftRight_eq_div_pow]

theorem toNat_continued (value : UInt64) :
    ((0x80 : UInt8) ||| (value &&& 0x7F).toUInt8).toNat = value.toNat % 128 + 128 := by
  have hlow : ((value &&& 0x7F).toUInt8).toNat = value.toNat % 128 := by
    rw [UInt64.toNat_toUInt8, UInt64.toNat_and]
    have hmask : (0x7F : UInt64).toNat = 2 ^ 7 - 1 := rfl
    rw [hmask, Nat.and_two_pow_sub_one_eq_mod]
    omega
  rw [UInt8.toNat_or, hlow]
  have hbit : (0x80 : UInt8).toNat = 2 ^ 7 * 1 := rfl
  rw [hbit, ← Nat.two_pow_add_eq_or_of_lt (Nat.mod_lt _ (by decide))]
  omega

theorem leb128EncodeLoop_eq (rounds : Nat) : ∀ value : UInt64,
    value.toNat < 128 ^ (rounds + 1) →
      leb128EncodeLoop rounds value = Varint.encode value.toNat := by
  induction rounds with
  | zero =>
    intro value h
    have hlt : value.toNat < 128 := by simpa using h
    rw [leb128EncodeLoop, Varint.encode_of_lt hlt]
    rfl
  | succ rounds ih =>
    intro value h
    rw [leb128EncodeLoop]
    by_cases hlt : value.toNat < 128
    · have : value < 128 := by simpa [UInt64.lt_iff_toNat_lt] using hlt
      rw [if_pos this, Varint.encode_of_lt hlt]
      rfl
    · have : ¬ value < 128 := by simpa [UInt64.lt_iff_toNat_lt] using hlt
      rw [if_neg this, Varint.encode_of_le (by omega)]
      have hshift : (value >>> 7).toNat < 128 ^ (rounds + 1) := by
        rw [toNat_shiftRight_seven, Nat.div_lt_iff_lt_mul (by decide)]
        rw [Nat.pow_succ] at h
        exact h
      rw [ih _ hshift, toNat_shiftRight_seven, ← toNat_continued value, UInt8.ofNat_toNat]

/-- The encoder writes the shortest string that denotes the value. -/
theorem leb128EncodeUnsigned_eq (value : UInt64) :
    leb128EncodeUnsigned value = Varint.encode value.toNat :=
  leb128EncodeLoop_eq 9 value (lt_of_lt_of_le value.toNat_lt (by norm_num))

theorem terminated_leb128EncodeUnsigned (value : UInt64) :
    Varint.Terminated (leb128EncodeUnsigned value) := by
  rw [leb128EncodeUnsigned_eq]
  exact Varint.terminated_encode _

theorem length_leb128EncodeUnsigned_le {value : UInt64} {k : Nat}
    (h : value.toNat < 128 ^ (k + 1)) : (leb128EncodeUnsigned value).length ≤ k + 1 := by
  rw [leb128EncodeUnsigned_eq]
  exact Varint.length_encode_le k _ h

theorem length_leb128EncodeUnsigned (value : UInt64) :
    (leb128EncodeUnsigned value).length ≤ 10 :=
  length_leb128EncodeUnsigned_le (lt_of_lt_of_le value.toNat_lt (by norm_num))

/-! ### Decoder -/

/-- The `do … while (*ptr++ & 0x80u)` loop: `shift` and `*value` on entry, and
the bytes from `ptr` to the end of the block. -/
def leb128DecodeLoop (shift : Nat) (value : UInt64) :
    List UInt8 → Exec (UInt64 × List UInt8)
  | [] => .error .overread
  | b :: rest =>
      if 64 ≤ shift then .error .shift
      else
        let value := value ||| ((b &&& 0x7F).toUInt64 <<< UInt64.ofNat shift)
        if b &&& 0x80 ≠ 0 then leb128DecodeLoop (shift + 7) value rest else .ok (value, rest)

/-- `leb128_decode_unsigned`: the value, and the bytes from where `top` ends up. -/
def leb128DecodeUnsigned (encoded : List UInt8) : Exec (UInt64 × List UInt8) :=
  leb128DecodeLoop 0 0 encoded

theorem toNat_and_0x80 (b : UInt8) : (b &&& 0x80).toNat = b.toNat / 128 * 128 := by
  rw [UInt8.toNat_and]
  have hall : ∀ i : Fin 256, i.val &&& 128 = i.val / 128 * 128 := by decide +kernel
  exact hall ⟨b.toNat, b.toNat_lt⟩

/-- The loop goes on exactly after a byte with its high bit set. -/
theorem and_0x80_ne_zero (b : UInt8) : b &&& 0x80 ≠ 0 ↔ 128 ≤ b.toNat := by
  rw [Ne, ← UInt8.toNat_inj, toNat_and_0x80]
  simp only [UInt8.toNat_zero]
  omega

/-- Or-ing a group in at a shift below 64 adds it, modulo 2^64. -/
theorem or_group (sum shift : Nat) (b : UInt8) (hshift : shift < 64) (hsum : sum < 2 ^ shift) :
    UInt64.ofNat sum ||| ((b &&& 0x7F).toUInt64 <<< UInt64.ofNat shift) =
      UInt64.ofNat (sum + b.toNat % 128 * 2 ^ shift) := by
  have hgroup : ((b &&& 0x7F).toUInt64).toNat = b.toNat % 128 := by
    rw [UInt8.toNat_toUInt64, UInt8.toNat_and]
    have hmask : (0x7F : UInt8).toNat = 2 ^ 7 - 1 := rfl
    rw [hmask, Nat.and_two_pow_sub_one_eq_mod]
  have hsum64 : sum < 2 ^ 64 :=
    lt_of_lt_of_le hsum (Nat.pow_le_pow_right (by decide) (by omega))
  have hshiftNat : (UInt64.ofNat shift).toNat = shift := by
    rw [UInt64.toNat_ofNat']
    exact Nat.mod_eq_of_lt (by omega)
  -- the shifted group, cut to 64 bits, is still a multiple of 2 ^ shift
  have hcut : b.toNat % 128 * 2 ^ shift % 2 ^ 64 =
      2 ^ shift * (b.toNat % 128 % 2 ^ (64 - shift)) := by
    have hsplit : 2 ^ 64 = 2 ^ shift * 2 ^ (64 - shift) := by
      rw [← Nat.pow_add]
      congr 1
      omega
    rw [hsplit, Nat.mul_comm (b.toNat % 128), Nat.mul_mod_mul_left]
  apply UInt64.toNat_inj.mp
  rw [UInt64.toNat_or, UInt64.toNat_shiftLeft, hgroup, hshiftNat, UInt64.toNat_ofNat',
    UInt64.toNat_ofNat', Nat.mod_eq_of_lt hsum64, Nat.mod_eq_of_lt hshift, Nat.shiftLeft_eq,
    hcut, Nat.or_comm, ← Nat.two_pow_add_eq_or_of_lt hsum]
  have hlt : 2 ^ shift * (b.toNat % 128 % 2 ^ (64 - shift)) + sum < 2 ^ 64 := by
    have hle : b.toNat % 128 % 2 ^ (64 - shift) + 1 ≤ 2 ^ (64 - shift) :=
      Nat.mod_lt _ (Nat.two_pow_pos _)
    calc 2 ^ shift * (b.toNat % 128 % 2 ^ (64 - shift)) + sum
        < 2 ^ shift * (b.toNat % 128 % 2 ^ (64 - shift)) + 2 ^ shift := by omega
      _ = 2 ^ shift * (b.toNat % 128 % 2 ^ (64 - shift) + 1) := by ring
      _ ≤ 2 ^ shift * 2 ^ (64 - shift) := Nat.mul_le_mul_left _ hle
      _ = 2 ^ 64 := by
        rw [← Nat.pow_add]
        congr 1
        omega
  rw [Nat.add_mod, hcut, Nat.mod_eq_of_lt hsum64, Nat.add_comm sum, Nat.mod_eq_of_lt hlt]

theorem two_pow_next_group (group : Nat) : 2 ^ (7 * (group + 1)) = 128 * 2 ^ (7 * group) := by
  rw [Nat.mul_add, Nat.pow_add]
  ring

theorem sum_group_lt {sum group : Nat} (b : UInt8) (hsum : sum < 2 ^ (7 * group)) :
    sum + b.toNat % 128 * 2 ^ (7 * group) < 2 ^ (7 * (group + 1)) := by
  have hle : b.toNat % 128 + 1 ≤ 128 := Nat.mod_lt _ (by decide)
  calc sum + b.toNat % 128 * 2 ^ (7 * group)
      < 2 ^ (7 * group) + b.toNat % 128 * 2 ^ (7 * group) := by omega
    _ = (b.toNat % 128 + 1) * 2 ^ (7 * group) := by ring
    _ ≤ 128 * 2 ^ (7 * group) := Nat.mul_le_mul_right _ hle
    _ = 2 ^ (7 * (group + 1)) := (two_pow_next_group group).symm

/-- What the loop makes of a terminated string, from any group it starts at. -/
theorem leb128DecodeLoop_append {digits : List UInt8} (h : Varint.Terminated digits)
    (rest : List UInt8) : ∀ (group sum : Nat), group + digits.length ≤ 10 →
      sum < 2 ^ (7 * group) →
        leb128DecodeLoop (7 * group) (UInt64.ofNat sum) (digits ++ rest) =
          .ok (UInt64.ofNat (sum + Varint.value digits * 2 ^ (7 * group)), rest) := by
  induction h with
  | last b hb =>
    intro group sum hlen hsum
    have hshift : ¬ 64 ≤ 7 * group := by
      simp only [List.length_singleton] at hlen
      omega
    have hstop : ¬ (b &&& 0x80 ≠ 0) := by
      rw [and_0x80_ne_zero]
      omega
    simp only [List.singleton_append, leb128DecodeLoop, if_neg hshift, if_neg hstop,
      or_group sum (7 * group) b (by omega) hsum, Varint.value]
    simp
  | more b bs hb hbs ih =>
    intro group sum hlen hsum
    have hshift : ¬ 64 ≤ 7 * group := by
      have := hbs.length_pos
      simp only [List.length_cons] at hlen
      omega
    have hgo : b &&& 0x80 ≠ 0 := (and_0x80_ne_zero b).mpr hb
    have := ih (group + 1) (sum + b.toNat % 128 * 2 ^ (7 * group))
      (by simp only [List.length_cons] at hlen; omega) (sum_group_lt b hsum)
    simp only [List.cons_append, leb128DecodeLoop, if_neg hshift, if_pos hgo,
      or_group sum (7 * group) b (by omega) hsum]
    rw [show 7 * group + 7 = 7 * (group + 1) by ring, this, Varint.value, two_pow_next_group]
    congr 3
    ring

/-- Any terminated string of at most ten bytes is decoded to its value modulo
2^64, and not a byte more is read. -/
theorem leb128DecodeUnsigned_append {digits : List UInt8} (h : Varint.Terminated digits)
    (hlen : digits.length ≤ 10) (rest : List UInt8) :
    leb128DecodeUnsigned (digits ++ rest) =
      .ok (UInt64.ofNat (Varint.value digits), rest) := by
  have := leb128DecodeLoop_append h rest 0 0 (by omega) (by norm_num)
  simpa [leb128DecodeUnsigned] using this

/-- **Round trip.**  Decoding what the encoder wrote gives the value back and
leaves what follows untouched. -/
@[simp] theorem leb128DecodeUnsigned_encode (value : UInt64) (rest : List UInt8) :
    leb128DecodeUnsigned (leb128EncodeUnsigned value ++ rest) = .ok (value, rest) := by
  rw [leb128DecodeUnsigned_append (terminated_leb128EncodeUnsigned value)
    (length_leb128EncodeUnsigned value), leb128EncodeUnsigned_eq, Varint.value_encode,
    UInt64.ofNat_toNat]

/-- What `leb128_encode_unsigned` returns. -/
def leb128EncodeUnsignedCount (value : UInt64) : UInt8 :=
  UInt8.ofNat (leb128EncodeUnsigned value).length

/-- What `leb128_decode_unsigned` returns. -/
def leb128DecodeUnsignedCount (encoded : List UInt8) : Exec UInt8 := do
  let (_, rest) ← leb128DecodeUnsigned encoded
  .ok (UInt8.ofNat (encoded.length - rest.length))

theorem toNat_leb128EncodeUnsignedCount (value : UInt64) :
    (leb128EncodeUnsignedCount value).toNat = (leb128EncodeUnsigned value).length := by
  have hle := length_leb128EncodeUnsigned value
  exact Varint.toNat_ofNat_of_lt (by omega)

/-- The encoder writes as many groups as the value needs, and at least one. -/
theorem isLeast_length_leb128EncodeUnsigned (value : UInt64) :
    IsLeast {n | 1 ≤ n ∧ value.toNat < 2 ^ (7 * n)} (leb128EncodeUnsigned value).length := by
  have hpow : ∀ n : Nat, (2 : Nat) ^ (7 * n) = 128 ^ n := fun n => by rw [Nat.pow_mul]
  constructor
  · refine ⟨(terminated_leb128EncodeUnsigned value).length_pos, ?_⟩
    have hlt := Varint.value_lt (leb128EncodeUnsigned value)
    rw [hpow]
    rwa [leb128EncodeUnsigned_eq, Varint.value_encode, ← leb128EncodeUnsigned_eq] at hlt
  · rintro n ⟨hpos, hlt⟩
    obtain ⟨k, rfl⟩ : ∃ k, n = k + 1 := ⟨n - 1, by omega⟩
    rw [hpow] at hlt
    exact length_leb128EncodeUnsigned_le hlt

/-- What follows an encoding does not change where it ends. -/
theorem leb128EncodeUnsigned_append_inj {value other : UInt64} {rest rest' : List UInt8}
    (h : leb128EncodeUnsigned value ++ rest = leb128EncodeUnsigned other ++ rest') :
    value = other ∧ rest = rest' := by
  have hdecode := congrArg leb128DecodeUnsigned h
  rw [leb128DecodeUnsigned_encode, leb128DecodeUnsigned_encode] at hdecode
  cases hdecode
  exact ⟨rfl, rfl⟩

/-- No encoding begins with another. -/
theorem leb128EncodeUnsigned_inj_of_prefix {value other : UInt64}
    (h : leb128EncodeUnsigned value <+: leb128EncodeUnsigned other) : value = other := by
  obtain ⟨rest, hrest⟩ := h
  rw [← List.append_nil (leb128EncodeUnsigned other)] at hrest
  exact (leb128EncodeUnsigned_append_inj hrest).1

/-- **Unsigned LEB128.**  Whatever follows an encoding, the decoder gets the value and
the byte count of the encoder back; the count is the least possible. -/
theorem leb128_unsigned_roundTrip (value : UInt64) :
    (∀ rest, leb128DecodeUnsigned (leb128EncodeUnsigned value ++ rest) = .ok (value, rest) ∧
      leb128DecodeUnsignedCount (leb128EncodeUnsigned value ++ rest) =
        .ok (leb128EncodeUnsignedCount value)) ∧
    (leb128EncodeUnsignedCount value).toNat = (leb128EncodeUnsigned value).length ∧
    IsLeast {n | 1 ≤ n ∧ value.toNat < 2 ^ (7 * n)} (leb128EncodeUnsignedCount value).toNat ∧
    (leb128EncodeUnsignedCount value).toNat ≤ 10 ∧
    ∀ other, leb128EncodeUnsigned value <+: leb128EncodeUnsigned other → value = other := by
  rw [toNat_leb128EncodeUnsignedCount]
  refine ⟨fun rest => ⟨leb128DecodeUnsigned_encode value rest, ?_⟩, rfl,
    isLeast_length_leb128EncodeUnsigned value, length_leb128EncodeUnsigned value,
    fun _ => leb128EncodeUnsigned_inj_of_prefix⟩
  rw [leb128DecodeUnsignedCount, leb128DecodeUnsigned_encode, Exec.ok_bind]
  dsimp only
  rw [List.length_append, Nat.add_sub_cancel_right]
  rfl

end Otic
