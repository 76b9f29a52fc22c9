import Otic.Leb128

/-!
# Signed LEB128 as `base.c` reads and writes it

`leb128_encode_signed` and `leb128_decode_signed` on `int64_t`, with an arithmetic right
shift and left shifts that wrap around.  As in `Leb128`, a machine function is compared
with the description in `Library/Varint`, and the decoder fails when it would read past
the bytes it is given or shift by 64 or more.
-/

namespace Otic

/-! ### Encoder -/

/-- The `while (more)` loop; `none` if it is still going after that many bytes. -/
def leb128EncodeSignedLoop (negative : Bool) : (rounds : Nat) → Int64 → Option (List UInt8)
  | 0, _ => none
  | rounds + 1, value =>
      let byte := value.toUInt64.toUInt8 &&& 0x7F
      let signBit := (value.toUInt64.toUInt8 &&& 0x40) >>> 6
      let value := value >>> 7
      let value := if negative then value ||| ((-1 : Int64) <<< (64 - 7)) else value
      if (value = 0 ∧ signBit = 0) ∨ (value = -1 ∧ signBit ≠ 0) then some [byte]
      else (leb128EncodeSignedLoop negative rounds value).map ((byte ||| 0x80) :: ·)

/-- `leb128_encode_signed`: the bytes written at `dest`, if they are at most ten. -/
def leb128EncodeSigned (value : Int64) : Option (List UInt8) :=
  leb128EncodeSignedLoop (value < 0) 10 value

/-- A signed number and its bits. -/
theorem toInt_eq_toUInt64 (value : Int64) :
    value.toInt =
      if value.toUInt64.toNat < 2 ^ 63 then (value.toUInt64.toNat : Int)
      else value.toUInt64.toNat - 2 ^ 64 := by
  have hbits : value.toUInt64.toNat = value.toBitVec.toNat := rfl
  rw [← Int64.toInt_toBitVec, BitVec.toInt_eq_toNat_cond, hbits]
  norm_num
  split <;> split <;> omega

theorem toInt_shiftRight_seven (value : Int64) : (value >>> 7).toInt = value.toInt / 128 := by
  have hshift : (7 : Int64).toBitVec.smod 64 = 7#64 := by decide
  rw [← Int64.toInt_toBitVec, Int64.toBitVec_shiftRight, hshift, BitVec.sshiftRight_eq',
    BitVec.toInt_sshiftRight, Int.shiftRight_eq_div_pow, Int64.toInt_toBitVec]
  rfl

/-- An arithmetic shift of a negative value has set the bits that are refilled. -/
theorem refill_of_neg {value : Int64} (h : value.toInt < 0) :
    value >>> 7 ||| ((-1 : Int64) <<< (64 - 7)) = value >>> 7 := by
  have hshift : (7 : Int64).toBitVec.smod 64 = 7#64 := by decide
  have hfill : ((-1 : Int64) <<< (64 - 7)).toBitVec = BitVec.allOnes 64 <<< 57 := by decide
  have hmsb : value.toBitVec.msb = true := by
    rw [BitVec.msb_eq_toInt, Int64.toInt_toBitVec]
    simpa using h
  rw [← Int64.toBitVec_inj, Int64.toBitVec_or, Int64.toBitVec_shiftRight, hshift, hfill,
    BitVec.sshiftRight_eq']
  ext i hi
  have hseven : (7#64).toNat = 7 := rfl
  rw [BitVec.getElem_or, BitVec.getElem_sshiftRight, BitVec.getElem_shiftLeft, hseven]
  by_cases hlow : i < 57
  · rw [decide_eq_true hlow, Bool.not_true, Bool.false_and, Bool.or_false]
  · rw [dif_neg (by omega), hmsb, Bool.true_or]

theorem toNat_group (value : Int64) :
    (value.toUInt64.toUInt8 &&& 0x7F).toNat = (value.toInt % 128).toNat := by
  have hmask : (0x7F : UInt8).toNat = 2 ^ 7 - 1 := rfl
  rw [UInt8.toNat_and, hmask, Nat.and_two_pow_sub_one_eq_mod, UInt64.toNat_toUInt8,
    toInt_eq_toUInt64]
  split <;> omega

theorem toNat_or_0x80 (b : UInt8) : ((b &&& 0x7F) ||| 0x80).toNat = b.toNat % 128 + 128 := by
  have hall : ∀ i : Fin 256, (i.val &&& 127) ||| 128 = i.val % 128 + 128 := by decide +kernel
  rw [UInt8.toNat_or, UInt8.toNat_and]
  exact hall ⟨b.toNat, b.toNat_lt⟩

theorem and_0x40_eq_zero (b : UInt8) : (b &&& 0x40) >>> 6 = 0 ↔ b.toNat % 128 < 64 := by
  have hall : ∀ i : Fin 256, (i.val &&& 64) >>> 6 = 0 ↔ i.val % 128 < 64 := by decide +kernel
  rw [← UInt8.toNat_inj, UInt8.toNat_shiftRight, UInt8.toNat_and]
  exact hall ⟨b.toNat, b.toNat_lt⟩

/-- One round: the last byte is written when the rest is the sign. -/
theorem leb128EncodeSignedLoop_succ (rounds : Nat) (value : Int64) :
    leb128EncodeSignedLoop (value < 0) (rounds + 1) value =
      if -64 ≤ value.toInt ∧ value.toInt < 64 then
        some [UInt8.ofNat (value.toInt % 128).toNat]
      else (leb128EncodeSignedLoop (value >>> 7 < 0) rounds (value >>> 7)).map
        (UInt8.ofNat ((value.toInt % 128).toNat + 128) :: ·) := by
  have hneg : ∀ x : Int64, x < 0 ↔ x.toInt < 0 := fun x => by
    rw [Int64.lt_iff_toInt_lt, Int64.toInt_zero]
  have hrefill : (if decide (value < 0) = true then value >>> 7 ||| ((-1 : Int64) <<< (64 - 7))
      else value >>> 7) = value >>> 7 := by
    split
    · rename_i h
      exact refill_of_neg ((hneg value).mp (of_decide_eq_true h))
    · rfl
  have hgroup := toNat_group value
  have hlow : value.toUInt64.toUInt8.toNat % 128 = (value.toInt % 128).toNat := by
    have hmask : (0x7F : UInt8).toNat = 2 ^ 7 - 1 := rfl
    rwa [UInt8.toNat_and, hmask, Nat.and_two_pow_sub_one_eq_mod] at hgroup
  have hstop : ((value >>> 7 = 0 ∧ (value.toUInt64.toUInt8 &&& 0x40) >>> 6 = 0) ∨
      (value >>> 7 = -1 ∧ (value.toUInt64.toUInt8 &&& 0x40) >>> 6 ≠ 0)) ↔
      (-64 ≤ value.toInt ∧ value.toInt < 64) := by
    rw [Ne, and_0x40_eq_zero, hlow, ← Int64.toInt_inj, ← Int64.toInt_inj (y := -1),
      toInt_shiftRight_seven, Int64.toInt_zero, show (-1 : Int64).toInt = -1 from rfl]
    omega
  have hsign : decide (value >>> 7 < 0) = decide (value < 0) := by
    rw [decide_eq_decide, hneg, hneg, toInt_shiftRight_seven]
    omega
  have hlast : value.toUInt64.toUInt8 &&& 0x7F = UInt8.ofNat (value.toInt % 128).toNat := by
    rw [← hgroup, UInt8.ofNat_toNat]
  have hmore : (value.toUInt64.toUInt8 &&& 0x7F) ||| 0x80 =
      UInt8.ofNat ((value.toInt % 128).toNat + 128) := by
    rw [← hlow, ← toNat_or_0x80, UInt8.ofNat_toNat]
  rw [leb128EncodeSignedLoop, hrefill, hmore, hlast, hsign]
  by_cases h : -64 ≤ value.toInt ∧ value.toInt < 64
  · rw [if_pos h, if_pos (hstop.mpr h)]
  · rw [if_neg h, if_neg (mt hstop.mp h)]

theorem leb128EncodeSignedLoop_eq (rounds : Nat) : ∀ value : Int64,
    -(64 * 128 ^ rounds) ≤ value.toInt → value.toInt < 64 * 128 ^ rounds →
      leb128EncodeSignedLoop (value < 0) (rounds + 1) value =
        some (Varint.encodeSigned value.toInt) := by
  induction rounds with
  | zero =>
    intro value hlow hhigh
    have hsmall : -64 ≤ value.toInt ∧ value.toInt < 64 := by constructor <;> omega
    rw [leb128EncodeSignedLoop_succ, if_pos hsmall, Varint.encodeSigned_of_small hsmall]
  | succ rounds ih =>
    intro value hlow hhigh
    rw [leb128EncodeSignedLoop_succ]
    by_cases hsmall : -64 ≤ value.toInt ∧ value.toInt < 64
    · rw [if_pos hsmall, Varint.encodeSigned_of_small hsmall]
    · have hpow : (128 : Int) ^ (rounds + 1) = 128 * 128 ^ rounds := by ring
      rw [hpow] at hlow hhigh
      have hnext := toInt_shiftRight_seven value
      rw [if_neg hsmall, ih (value >>> 7) (by omega) (by omega), hnext,
        Varint.encodeSigned_of_large hsmall, Option.map_some]

theorem toInt_bounds (value : Int64) :
    -(64 * 128 ^ 9) ≤ value.toInt ∧ value.toInt < 64 * 128 ^ 9 := by
  have hlow := value.le_toInt
  have hhigh := value.toInt_lt
  constructor <;> omega

/-- **The encoder stops**, and writes the shortest string that denotes the value. -/
theorem leb128EncodeSigned_eq (value : Int64) :
    leb128EncodeSigned value = some (Varint.encodeSigned value.toInt) :=
  leb128EncodeSignedLoop_eq 9 value (toInt_bounds value).1 (toInt_bounds value).2

theorem length_encodeSigned (value : Int64) : (Varint.encodeSigned value.toInt).length ≤ 10 :=
  Varint.length_encodeSigned_le 9 value.toInt (toInt_bounds value).1 (toInt_bounds value).2

/-! ### Decoder -/

/-- The `do … while (byte >> 7)` loop: `shift` and `*result` on entry, and the bytes from
`counter` on; what `shift`, `byte` and `*result` are in the end, and the bytes left. -/
def leb128DecodeSignedLoop (shift : Nat) (result : Int64) :
    List UInt8 → Exec (Nat × UInt8 × Int64 × List UInt8)
  | [] => .error .overread
  | byte :: rest =>
      if 64 ≤ shift then .error .shift
      else
        let result := result ||| ((byte &&& 0x7F).toUInt64.toInt64 <<< Int64.ofNat shift)
        if byte >>> 7 ≠ 0 then leb128DecodeSignedLoop (shift + 7) result rest
        else .ok (shift + 7, byte, result, rest)

/-- `leb128_decode_signed`: the value, and the bytes after it. -/
def leb128DecodeSigned (encoded : List UInt8) : Exec (Int64 × List UInt8) := do
  let (shift, byte, result, rest) ← leb128DecodeSignedLoop 0 0 encoded
  let result :=
    if shift < 64 ∧ (byte &&& 0x40) >>> 6 ≠ 0 then result ||| ((-1 : Int64) <<< Int64.ofNat shift)
    else result
  .ok (result, rest)

/-- Numbers that differ by a multiple of 2^64 are one value. -/
theorem ofInt_sub_mul (n k : Int) : Int64.ofInt (n - 2 ^ 64 * k) = Int64.ofInt n := by
  have hmod : (n - 2 ^ 64 * k) % 2 ^ 64 = n % 2 ^ 64 := by omega
  rw [Int64.ofInt_eq_iff_bmod_eq_toInt, Int64.toInt_ofInt]
  calc (n - 2 ^ 64 * k).bmod (2 ^ 64)
      = ((n - 2 ^ 64 * k) % 2 ^ 64).bmod (2 ^ 64) := (Int.emod_bmod _ _).symm
    _ = (n % 2 ^ 64).bmod (2 ^ 64) := by rw [hmod]
    _ = n.bmod (2 ^ 64) := Int.emod_bmod _ _

theorem shiftLeft_toInt64 (bits : UInt64) {shift : Nat} (h : shift < 64) :
    bits.toInt64 <<< Int64.ofNat shift = (bits <<< UInt64.ofNat shift).toInt64 := by
  have hsigned : (Int64.ofNat shift).toBitVec.smod 64 = BitVec.ofNat 64 shift := by
    have hall : ∀ i : Fin 64, (Int64.ofNat i.val).toBitVec.smod 64 = BitVec.ofNat 64 i.val := by
      decide
    exact hall ⟨shift, h⟩
  have hunsigned : (UInt64.ofNat shift).toBitVec % 64 = BitVec.ofNat 64 shift := by
    have hall : ∀ i : Fin 64, (UInt64.ofNat i.val).toBitVec % 64 = BitVec.ofNat 64 i.val := by
      decide
    exact hall ⟨shift, h⟩
  rw [← Int64.toBitVec_inj, Int64.toBitVec_shiftLeft, hsigned]
  change _ = (bits <<< UInt64.ofNat shift).toBitVec
  rw [UInt64.toBitVec_shiftLeft, hunsigned]
  rfl

/-- `or_group` for the signed loop. -/
theorem or_group_signed (sum shift : Nat) (b : UInt8) (hshift : shift < 64)
    (hsum : sum < 2 ^ shift) :
    Int64.ofNat sum ||| ((b &&& 0x7F).toUInt64.toInt64 <<< Int64.ofNat shift) =
      Int64.ofNat (sum + b.toNat % 128 * 2 ^ shift) := by
  rw [shiftLeft_toInt64 _ hshift, ← UInt64.toInt64_ofNat', ← UInt64.toInt64_or,
    or_group sum shift b hshift hsum, UInt64.toInt64_ofNat']

theorem shiftRight_seven_ne_zero (b : UInt8) : b >>> 7 ≠ 0 ↔ 128 ≤ b.toNat := by
  have hall : ∀ i : Fin 256, i.val >>> 7 ≠ 0 ↔ 128 ≤ i.val := by decide +kernel
  rw [Ne, ← UInt8.toNat_inj, UInt8.toNat_shiftRight]
  exact hall ⟨b.toNat, b.toNat_lt⟩

/-- What the loop makes of a terminated string, from any group it starts at. -/
theorem leb128DecodeSignedLoop_append {digits : List UInt8} (h : Varint.Terminated digits)
    (rest : List UInt8) : ∀ (group sum : Nat), group + digits.length ≤ 10 →
      sum < 2 ^ (7 * group) → ∃ byte,
        leb128DecodeSignedLoop (7 * group) (Int64.ofNat sum) (digits ++ rest) =
          .ok (7 * (group + digits.length), byte,
            Int64.ofNat (sum + Varint.value digits * 2 ^ (7 * group)), rest) ∧
        ((byte &&& 0x40) >>> 6 ≠ 0 ↔ Varint.negative digits = true) := by
  induction h with
  | last b hb =>
    intro group sum hlen hsum
    have hshift : ¬ 64 ≤ 7 * group := by
      simp only [List.length_singleton] at hlen
      omega
    have hstop : ¬ (b >>> 7 ≠ 0) := by
      rw [shiftRight_seven_ne_zero]
      omega
    refine ⟨b, ?_, ?_⟩
    · simp only [List.singleton_append, leb128DecodeSignedLoop, if_neg hshift, if_neg hstop,
        or_group_signed sum (7 * group) b (by omega) hsum, Varint.value, List.length_singleton,
        Nat.mul_add, Nat.mul_zero, Nat.add_zero, Nat.mul_one]
    · rw [Ne, and_0x40_eq_zero, Varint.negative, decide_eq_true_eq]
      omega
  | more b bs hb hbs ih =>
    intro group sum hlen hsum
    have hshift : ¬ 64 ≤ 7 * group := by
      have := hbs.length_pos
      simp only [List.length_cons] at hlen
      omega
    have hgo : b >>> 7 ≠ 0 := (shiftRight_seven_ne_zero b).mpr hb
    obtain ⟨byte, hrun, hbyte⟩ := ih (group + 1) (sum + b.toNat % 128 * 2 ^ (7 * group))
      (by simp only [List.length_cons] at hlen; omega) (sum_group_lt b hsum)
    refine ⟨byte, ?_, ?_⟩
    · simp only [List.cons_append, leb128DecodeSignedLoop, if_neg hshift, if_pos hgo,
        or_group_signed sum (7 * group) b (by omega) hsum]
      rw [show 7 * group + 7 = 7 * (group + 1) by ring, hrun, Varint.value, two_pow_next_group,
        List.length_cons]
      congr 3
      · ring
      · congr 2
        ring
    · rw [hbyte, Varint.negative_cons b hbs.ne_nil]

/-- The sign extension sets the bits above a number. -/
theorem or_signExtension (sum shift : Nat) (hshift : shift < 64) (hsum : sum < 2 ^ shift) :
    Int64.ofNat sum ||| ((-1 : Int64) <<< Int64.ofNat shift) =
      Int64.ofInt ((sum : Int) - 2 ^ shift) := by
  have hsplit : 2 ^ 64 = 2 ^ shift * 2 ^ (64 - shift) := by
    rw [← Nat.pow_add]
    congr 1
    omega
  have hpos : 1 ≤ 2 ^ (64 - shift) := Nat.one_le_two_pow
  have hsum64 : sum < 2 ^ 64 :=
    lt_of_lt_of_le hsum (Nat.pow_le_pow_right (by decide) (by omega))
  have hshiftNat : (UInt64.ofNat shift).toNat = shift := by
    rw [UInt64.toNat_ofNat']
    exact Nat.mod_eq_of_lt (by omega)
  -- all ones, shifted and cut to 64 bits
  have hones : (2 ^ 64 - 1) * 2 ^ shift % 2 ^ 64 = 2 ^ shift * (2 ^ (64 - shift) - 1) := by
    have hlow : (2 ^ shift * 2 ^ (64 - shift) - 1) % 2 ^ (64 - shift) = 2 ^ (64 - shift) - 1 := by
      have hpow := Nat.two_pow_pos shift
      obtain ⟨k, hk⟩ : ∃ k, 2 ^ shift = k + 1 := ⟨2 ^ shift - 1, by omega⟩
      rw [hk, Nat.succ_mul, Nat.add_sub_assoc hpos, Nat.mul_add_mod_self_right]
      exact Nat.mod_eq_of_lt (by omega)
    rw [hsplit, Nat.mul_comm _ (2 ^ shift), Nat.mul_mod_mul_left, hlow]
  have htotal : 2 ^ shift * (2 ^ (64 - shift) - 1) + 2 ^ shift = 2 ^ 64 := by
    rw [hsplit, ← Nat.mul_succ]
    congr 1
    omega
  have hor : UInt64.ofNat sum ||| ((-1 : UInt64) <<< UInt64.ofNat shift) =
      UInt64.ofNat (2 ^ shift * (2 ^ (64 - shift) - 1) + sum) := by
    apply UInt64.toNat_inj.mp
    rw [UInt64.toNat_or, UInt64.toNat_shiftLeft, hshiftNat, UInt64.toNat_ofNat',
      UInt64.toNat_ofNat', Nat.mod_eq_of_lt hsum64, Nat.mod_eq_of_lt hshift, Nat.shiftLeft_eq,
      show (-1 : UInt64).toNat = 2 ^ 64 - 1 from rfl, hones, Nat.or_comm,
      ← Nat.two_pow_add_eq_or_of_lt hsum]
    exact (Nat.mod_eq_of_lt (by omega)).symm
  have hone : (-1 : Int64) = (-1 : UInt64).toInt64 := rfl
  rw [hone, shiftLeft_toInt64 _ hshift, ← UInt64.toInt64_ofNat', ← UInt64.toInt64_or, hor,
    UInt64.toInt64_ofNat', ← Int64.ofInt_eq_ofNat, ← ofInt_sub_mul _ 1]
  congr 1
  have htotalInt : ((2 ^ shift * (2 ^ (64 - shift) - 1) : Nat) : Int) + 2 ^ shift = 2 ^ 64 := by
    exact_mod_cast htotal
  omega

/-- Any terminated string of at most ten bytes is decoded to its signed value modulo
2^64, and not a byte more is read. -/
theorem leb128DecodeSigned_append {digits : List UInt8} (h : Varint.Terminated digits)
    (hlen : digits.length ≤ 10) (rest : List UInt8) :
    leb128DecodeSigned (digits ++ rest) = .ok (Int64.ofInt (Varint.signedValue digits), rest) := by
  obtain ⟨byte, hrun, hbyte⟩ := leb128DecodeSignedLoop_append h rest 0 0 (by omega) (by norm_num)
  have hsigned := Varint.signedValue_eq h
  have hlt := Varint.value_lt digits
  have hpow : (128 : Nat) ^ digits.length = 2 ^ (7 * digits.length) := by rw [Nat.pow_mul]
  simp only [Nat.mul_zero, Nat.pow_zero, Nat.mul_one, Nat.zero_add] at hrun
  rw [leb128DecodeSigned, show (0 : Int64) = Int64.ofNat 0 from rfl, hrun, Exec.ok_bind]
  dsimp only
  congr 2
  by_cases hneg : Varint.negative digits = true
  · by_cases hshort : 7 * digits.length < 64
    · rw [if_pos ⟨hshort, hbyte.mpr hneg⟩, or_signExtension _ _ hshort (by rwa [← hpow]), hsigned,
        if_pos hneg]
      congr 2
      exact_mod_cast hpow.symm
    · -- the sign of the tenth group lies above the 64 bits
      have hten : digits.length = 10 := by omega
      rw [if_neg (fun h => hshort h.1), hsigned, if_pos hneg, hten, ← Int64.ofInt_eq_ofNat,
        ← ofInt_sub_mul _ 64]
      norm_num
  · rw [if_neg (fun h => hneg (hbyte.mp h.2)), hsigned, if_neg hneg, sub_zero,
      Int64.ofInt_eq_ofNat]

/-! ### Byte counts -/

/-- What `leb128_encode_signed` returns. -/
def leb128EncodeSignedCount (value : Int64) : Option UInt8 :=
  (leb128EncodeSigned value).map fun encoded => UInt8.ofNat encoded.length

/-- What `leb128_decode_signed` returns. -/
def leb128DecodeSignedCount (encoded : List UInt8) : Exec UInt8 := do
  let (_, rest) ← leb128DecodeSigned encoded
  .ok (UInt8.ofNat (encoded.length - rest.length))

/-- **Signed LEB128.**  The encoder writes at most ten bytes and stops; whatever follows
them, the decoder gets the value and the byte count back and reads just these bytes. -/
theorem leb128_signed_roundTrip (value : Int64) :
    ∃ encoded count, leb128EncodeSigned value = some encoded ∧
      leb128EncodeSignedCount value = some count ∧ count.toNat = encoded.length ∧
      encoded.length ≤ 10 ∧
      ∀ rest, leb128DecodeSigned (encoded ++ rest) = .ok (value, rest) ∧
        leb128DecodeSignedCount (encoded ++ rest) = .ok count := by
  have hlen := length_encodeSigned value
  have hdecode : ∀ rest,
      leb128DecodeSigned (Varint.encodeSigned value.toInt ++ rest) = .ok (value, rest) := by
    intro rest
    rw [leb128DecodeSigned_append (Varint.terminated_encodeSigned _) hlen,
      Varint.signedValue_encodeSigned, Int64.ofInt_toInt]
  refine ⟨_, UInt8.ofNat (Varint.encodeSigned value.toInt).length, leb128EncodeSigned_eq value,
    ?_, Varint.toNat_ofNat_of_lt (by omega), hlen, fun rest => ⟨hdecode rest, ?_⟩⟩
  · rw [leb128EncodeSignedCount, leb128EncodeSigned_eq, Option.map_some]
  · rw [leb128DecodeSignedCount, hdecode, Exec.ok_bind]
    dsimp only
    rw [List.length_append, Nat.add_sub_cancel_right]

end Otic
