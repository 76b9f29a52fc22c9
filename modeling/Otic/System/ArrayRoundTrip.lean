import Otic.Pack.Injects
import Otic.Unpack.BlockCorrect

/-!
# Arrays across the stream

`read_array` on what `write_array` wrote.  The two do not agree on small positive
integers, which are written without a tag, on strings of more than 255 bytes, whose
length is written as one byte, and on floats, of which four bytes are written and eight
are read.  `arrayRoundTrips_iff` says that these are all the differences.
-/

namespace Otic

open Pack (Element OvalArray encodeElements encodeArray)
open Unpack.Channel

/-- The double in which `low` comes before `high` in memory. -/
def doubleOf (low high : UInt32) : UInt64 := UInt64.ofNat (low.toNat + 2 ^ 32 * high.toNat)

mutual

/-- An element that was read is the one that was written, a float to single precision. -/
def RebuiltBy : Element → Oval → Prop
  | .intPos lval, value => value = .intPos lval
  | .intNeg lval, value => value = .intNeg lval
  | .double dval, value => value = .double dval
  | .float dval, value =>
      ∃ low high, value = .float low (some high) ∧ SameSingle (doubleOf low high) dval
  | .string sval, value => value = .string sval sval.length
  | .array aval, value => ∃ values, value = .array values ∧ AllRebuiltBy aval values
  | .true, value => value = .true
  | .false, value => value = .false
  | .object _, _ | .other, _ => False

def AllRebuiltBy : List Element → List Oval → Prop
  | [], values => values = []
  | el :: elements, values =>
      ∃ value rest, values = value :: rest ∧ RebuiltBy el value ∧ AllRebuiltBy elements rest

end

mutual

/-- What it takes for an element to be read back, where `rest` follows it. -/
def Decodes : Element → List UInt8 → Prop
  | .intPos lval, _ => SMALL_INT_LIMIT.toUInt64 ≤ lval
  | .float dval, rest =>
      4 ≤ rest.length ∧
        SameSingle (doubleOf (toSingle dval) (Bytes.toUInt32 (rest.take 4))) dval
  | .string sval, _ => sval.length ≤ 255
  | .array aval, rest => AllDecode aval rest
  | .intNeg _, _ | .double _, _ | .true, _ | .false, _ => True
  | .object _, _ | .other, _ => False

def AllDecode : List Element → List UInt8 → Prop
  | [], _ => True
  | el :: elements, rest => Decodes el (encodeElements elements ++ rest) ∧ AllDecode elements rest

end

/-- `read_array` gives back the array that `write_array` wrote, and leaves `top` behind it. -/
def ArrayRoundTrips (aval : OvalArray) (rest : List UInt8) : Prop :=
  ∃ values, readArray ((encodeArray aval.val ++ rest).length + 1) (encodeArray aval.val ++ rest) =
      .ok (true, .array values, rest) ∧ AllRebuiltBy aval.val values

/-! ### Elements that are read back -/

theorem takeBytes_of_le {n : Nat} {top : List UInt8} (h : n ≤ top.length) :
    takeBytes n top = .ok (top.take n, top.drop n) := if_pos h

/-- The eight bytes that are copied for a float. -/
theorem takeBytes_float {single : UInt32} {rest : List UInt8} (hfollow : 4 ≤ rest.length) :
    takeBytes 8 (Bytes.ofUInt32 single ++ rest) =
      .ok (Bytes.ofUInt32 single ++ rest.take 4, rest.drop 4) := by
  have hlength := Bytes.length_ofUInt32 single
  rw [takeBytes_of_le (by rw [List.length_append]; omega), List.take_append, List.drop_append,
    hlength, List.take_of_length_le (by omega), List.drop_of_length_le (by omega),
    List.nil_append]

/-- A float is read with what follows it as the upper half of a double. -/
theorem readElement_float {dval : UInt64} {nested : List UInt8 → Exec (Bool × Oval × List UInt8)}
    {rest : List UInt8} (hfollow : 4 ≤ rest.length) :
    readElement nested ((Element.float dval).encode ++ rest) =
      .ok (true, .float (toSingle dval) (some (Bytes.toUInt32 (rest.take 4))), rest) := by
  have hlength := Bytes.length_ofUInt32 (toSingle dval)
  simp only [readElement, Element.encode, List.cons_append, takeByte_cons, Exec.ok_bind,
    OticType.ofByte?_toByte, takeBytes_float hfollow]
  rw [List.take_left' hlength, List.drop_left' hlength, List.drop_left' hlength,
    Bytes.toUInt32_ofUInt32]

/-- An array is read element by element. -/
theorem readArray_encodeArray (depth : Nat) {aval : List Element} (hsize : aval.length < 2 ^ 32)
    (rest : List UInt8) :
    readArray (depth + 1) (encodeArray aval ++ rest) = (do
      let (done, elements, top) ←
        readElements (readArray depth) aval.length (encodeElements aval ++ rest)
      .ok (done, .array elements, top)) := by
  have hcount : (UInt64.ofNat aval.length).toNat = aval.length :=
    UInt64.toNat_ofNat_of_lt' (by change aval.length < 2 ^ 64; omega)
  have hbounded : ¬ 2 ^ 32 ≤ aval.length := by omega
  rw [encodeArray, List.append_assoc, readArray, leb128DecodeUnsigned_encode, Exec.ok_bind]
  simp only [hcount, if_neg hbounded]

theorem encode_array (aval : List Element) :
    (Element.array aval).encode = OticType.array.toByte :: encodeArray aval := by
  rw [Element.encode, encodeArray]

theorem readNested {depth : Nat} {aval : List Element} {rest : List UInt8}
    (hsize : aval.length < 2 ^ 32)
    (hdepth : ((Element.array aval).encode ++ rest).length ≤ depth) :
    ∃ below, (encodeElements aval ++ rest).length ≤ below ∧
      readElement (readArray depth) ((Element.array aval).encode ++ rest) = (do
        let (done, elements, top) ←
          readElements (readArray below) aval.length (encodeElements aval ++ rest)
        .ok (done, .array elements, top)) := by
  rw [encode_array, List.cons_append, List.length_cons] at hdepth
  cases depth with
  | zero => omega
  | succ below =>
    refine ⟨below, ?_, ?_⟩
    · rw [encodeArray, List.append_assoc, List.length_append] at hdepth
      omega
    · rw [encode_array, List.cons_append, readElement, takeByte_cons, Exec.ok_bind]
      simp only [OticType.ofByte?_toByte]
      exact readArray_encodeArray below hsize rest

mutual

theorem readElement_decodes : ∀ (el : Element), el.Sized → ∀ {depth : Nat} {rest : List UInt8},
    (el.encode ++ rest).length ≤ depth → Decodes el rest →
      ∃ value, readElement (readArray depth) (el.encode ++ rest) = .ok (true, value, rest) ∧
        RebuiltBy el value
  | .intPos lval, _, depth, rest, _, hdecodes => by
    rw [Decodes] at hdecodes
    have hlarge : ¬ lval < SMALL_INT_LIMIT.toUInt64 := UInt64.not_lt.mpr hdecodes
    refine ⟨.intPos lval, ?_, ?_⟩
    · simp [readElement, Element.encode, hlarge]
    · rw [RebuiltBy]
  | .intNeg lval, _, depth, rest, _, _ => by
    refine ⟨.intNeg lval, ?_, ?_⟩
    · simp [readElement, Element.encode]
    · rw [RebuiltBy]
  | .double dval, _, depth, rest, _, _ => by
    refine ⟨.double dval, ?_, ?_⟩
    · have htake : takeBytes 8 (Bytes.ofUInt64 dval ++ rest) = .ok (Bytes.ofUInt64 dval, rest) :=
        takeBytes_append (Bytes.ofUInt64 dval) rest
      simp [readElement, Element.encode, htake]
    · rw [RebuiltBy]
  | .float dval, _, depth, rest, _, hdecodes => by
    rw [Decodes] at hdecodes
    obtain ⟨hfollow, hsame⟩ := hdecodes
    refine ⟨.float (toSingle dval) (some (Bytes.toUInt32 (rest.take 4))), ?_, ?_⟩
    · exact readElement_float hfollow
    · rw [RebuiltBy]
      exact ⟨_, _, rfl, hsame⟩
  | .string sval, _, depth, rest, _, hdecodes => by
    rw [Decodes] at hdecodes
    refine ⟨.string sval sval.length, ?_, ?_⟩
    · have hsize : (UInt8.ofNat sval.length).toNat = sval.length :=
        UInt8.toNat_ofNat_of_lt' (by change sval.length < 256; omega)
      simp [readElement, Element.encode, hsize]
    · rw [RebuiltBy]
  | .array aval, hsized, depth, rest, hdepth, hdecodes => by
    rw [Element.Sized] at hsized
    rw [Decodes] at hdecodes
    obtain ⟨below, hbelow, hread⟩ := readNested hsized.1 hdepth
    obtain ⟨values, hvalues, hrebuilt⟩ :=
      readElements_decode aval hsized.2 hbelow hdecodes
    refine ⟨.array values, ?_, ?_⟩
    · rw [hread, hvalues]
      rfl
    · rw [RebuiltBy]
      exact ⟨values, rfl, hrebuilt⟩
  | .object _, _, _, _, _, hdecodes => by
    rw [Decodes] at hdecodes
    exact hdecodes.elim
  | .true, _, depth, rest, _, _ => by
    refine ⟨.true, ?_, ?_⟩
    · simp [readElement, Element.encode]
    · rw [RebuiltBy]
  | .false, _, depth, rest, _, _ => by
    refine ⟨.false, ?_, ?_⟩
    · simp [readElement, Element.encode]
    · rw [RebuiltBy]
  | .other, _, _, _, _, hdecodes => by
    rw [Decodes] at hdecodes
    exact hdecodes.elim

/-- The loop over the elements: each starts where the one before it ended. -/
theorem readElements_decode : ∀ (elements : List Element), Element.AllSized elements →
    ∀ {depth : Nat} {rest : List UInt8}, (encodeElements elements ++ rest).length ≤ depth →
      AllDecode elements rest →
        ∃ values, readElements (readArray depth) elements.length (encodeElements elements ++ rest) =
          .ok (true, values, rest) ∧ AllRebuiltBy elements values
  | [], _, depth, rest, _, _ => by
    refine ⟨[], ?_, ?_⟩
    · simp [readElements, encodeElements]
    · rw [AllRebuiltBy]
  | el :: elements, hsized, depth, rest, hdepth, hdecode => by
    rw [Element.AllSized] at hsized
    rw [AllDecode] at hdecode
    rw [encodeElements, List.append_assoc] at hdepth ⊢
    obtain ⟨value, hvalue, hrebuilt⟩ := readElement_decodes el hsized.1 hdepth hdecode.1
    have hrest : (encodeElements elements ++ rest).length ≤ depth := by
      rw [List.length_append] at hdepth
      omega
    obtain ⟨values, hvalues, hrebuilts⟩ :=
      readElements_decode elements hsized.2 hrest hdecode.2
    refine ⟨value :: values, ?_, ?_⟩
    · rw [List.length_cons, readElements, hvalue, Exec.ok_bind]
      simp only [if_true, hvalues, Exec.ok_bind]
    · rw [AllRebuiltBy]
      exact ⟨value, values, rfl, hrebuilt, hrebuilts⟩

end

/-! ### Elements that are not -/

/-- The string that is read has the length that one byte can hold. -/
theorem decodes_string {sval : List UInt8} {nested : List UInt8 → Exec (Bool × Oval × List UInt8)}
    {rest top : List UInt8}
    (hread : readElement nested ((Element.string sval).encode ++ rest) =
      .ok (true, .string sval sval.length, top)) : sval.length ≤ 255 := by
  have hlt := (UInt8.ofNat sval.length).toNat_lt
  simp only [readElement, Element.encode, List.cons_append, takeByte_cons, Exec.ok_bind,
    OticType.ofByte?_toByte] at hread
  obtain ⟨out, -, hout⟩ := Exec.bind_eq_ok.mp hread
  simp only [Except.ok.injEq, Prod.mk.injEq, true_and, Oval.string.injEq] at hout
  omega

/-- The four bytes of a float are read with the four behind them. -/
theorem decodes_float {dval : UInt64} {nested : List UInt8 → Exec (Bool × Oval × List UInt8)}
    {rest top : List UInt8} {low high : UInt32}
    (hread : readElement nested ((Element.float dval).encode ++ rest) =
      .ok (true, .float low (some high), top)) (hsame : SameSingle (doubleOf low high) dval) :
    4 ≤ rest.length ∧
      SameSingle (doubleOf (toSingle dval) (Bytes.toUInt32 (rest.take 4))) dval := by
  by_cases hfollow : 4 ≤ rest.length
  · rw [readElement_float hfollow] at hread
    simp only [Except.ok.injEq, Prod.mk.injEq, true_and, Oval.float.injEq,
      Option.some.injEq] at hread
    obtain ⟨⟨rfl, rfl⟩, -⟩ := hread
    exact ⟨hfollow, hsame⟩
  · simp only [readElement, Element.encode, List.cons_append, takeByte_cons, Exec.ok_bind,
      OticType.ofByte?_toByte] at hread
    unfold takeBytes at hread
    rw [if_neg (by rw [List.length_append, Bytes.length_ofUInt32]; omega)] at hread
    cases hread

mutual

theorem decodes_of_rebuiltBy : ∀ (el : Element), el.Sized → ∀ {depth : Nat}
    {rest top : List UInt8} {value : Oval}, (el.encode ++ rest).length ≤ depth →
      readElement (readArray depth) (el.encode ++ rest) = .ok (true, value, top) →
        RebuiltBy el value → Decodes el rest
  | .intPos lval, _, depth, rest, top, value, _, hread, _ => by
    rw [Decodes]
    by_contra hsmall
    rw [UInt64.not_le] at hsmall
    -- the byte of a small integer is no tag
    have hbyte := Pack.toUInt8_lt_limit hsmall
    have htag : OticType.ofByte? lval.toUInt8 = none := by
      cases htype : OticType.ofByte? lval.toUInt8 with
      | none => rfl
      | some type =>
        rw [← OticType.toByte_of_ofByte? htype] at hbyte
        exact absurd hbyte type.not_toByte_lt
    simp only [Element.encode, if_pos hsmall, readElement, List.singleton_append, takeByte_cons,
      Exec.ok_bind, htag] at hread
    cases hread
  | .string sval, _, depth, rest, top, value, _, hread, hrebuilt => by
    rw [RebuiltBy] at hrebuilt
    rw [hrebuilt] at hread
    rw [Decodes]
    exact decodes_string hread
  | .float dval, _, depth, rest, top, value, _, hread, hrebuilt => by
    rw [RebuiltBy] at hrebuilt
    obtain ⟨low, high, rfl, hsame⟩ := hrebuilt
    rw [Decodes]
    exact decodes_float hread hsame
  | .array aval, hsized, depth, rest, top, value, hdepth, hread, hrebuilt => by
    rw [Element.Sized] at hsized
    rw [RebuiltBy] at hrebuilt
    obtain ⟨values, rfl, hrebuilt⟩ := hrebuilt
    obtain ⟨below, hbelow, hnested⟩ := readNested hsized.1 hdepth
    rw [hnested] at hread
    obtain ⟨⟨done, elements, top'⟩, hloop, hout⟩ := Exec.bind_eq_ok.mp hread
    simp only [Except.ok.injEq, Prod.mk.injEq, Oval.array.injEq] at hout
    obtain ⟨rfl, rfl, rfl⟩ := hout
    rw [Decodes]
    exact allDecode_of_allRebuiltBy aval hsized.2 hbelow hloop hrebuilt
  | .object _, _, _, _, _, _, _, _, hrebuilt => by
    rw [RebuiltBy] at hrebuilt
    exact hrebuilt.elim
  | .other, _, _, _, _, _, _, _, hrebuilt => by
    rw [RebuiltBy] at hrebuilt
    exact hrebuilt.elim
  | .intNeg _, _, _, _, _, _, _, _, _ | .double _, _, _, _, _, _, _, _, _
  | .true, _, _, _, _, _, _, _, _ | .false, _, _, _, _, _, _, _, _ => by
    rw [Decodes]
    trivial

theorem allDecode_of_allRebuiltBy : ∀ (elements : List Element), Element.AllSized elements →
    ∀ {depth : Nat} {rest top : List UInt8} {values : List Oval},
      (encodeElements elements ++ rest).length ≤ depth →
        readElements (readArray depth) elements.length (encodeElements elements ++ rest) =
          .ok (true, values, top) →
        AllRebuiltBy elements values → AllDecode elements rest
  | [], _, _, _, _, _, _, _, _ => by
    rw [AllDecode]
    trivial
  | el :: elements, hsized, depth, rest, top, values, hdepth, hread, hrebuilt => by
    rw [Element.AllSized] at hsized
    rw [AllRebuiltBy] at hrebuilt
    obtain ⟨value, later, rfl, hfirst, hlater⟩ := hrebuilt
    rw [encodeElements, List.append_assoc] at hdepth hread
    rw [List.length_cons, readElements] at hread
    obtain ⟨⟨go, value', top'⟩, hhead, htail⟩ := Exec.bind_eq_ok.mp hread
    cases go with
    | false => simp at htail
    | true =>
      simp only [if_true] at htail
      obtain ⟨⟨done, elements', top''⟩, hloop, hout⟩ := Exec.bind_eq_ok.mp htail
      simp only [Except.ok.injEq, Prod.mk.injEq, List.cons.injEq] at hout
      obtain ⟨rfl, ⟨rfl, rfl⟩, rfl⟩ := hout
      have hdecodes := decodes_of_rebuiltBy el hsized.1 hdepth hhead hfirst
      -- so the element was read up to where the next one starts
      obtain ⟨value'', hexact, -⟩ := readElement_decodes el hsized.1 hdepth hdecodes
      rw [hexact] at hhead
      cases hhead
      rw [List.length_append] at hdepth
      have hrest : (encodeElements elements ++ rest).length ≤ depth := by omega
      rw [AllDecode]
      exact ⟨hdecodes, allDecode_of_allRebuiltBy elements hsized.2 hrest hloop hlater⟩

end

/-! ### Arrays -/

theorem length_encodeArray (elements : List Element) :
    (encodeElements elements).length ≤ (encodeArray elements).length := by
  rw [encodeArray, List.length_append]
  omega

theorem allDecode_of_arrayRoundTrips {aval : OvalArray} {rest : List UInt8}
    (hback : ArrayRoundTrips aval rest) : AllDecode aval.val rest := by
  obtain ⟨elements, hsized⟩ := aval
  obtain ⟨values, hread, hrebuilt⟩ := hback
  rw [Element.Sized] at hsized
  have hlength := length_encodeArray elements
  have hdepth : (encodeElements elements ++ rest).length ≤
      (encodeArray elements ++ rest).length := by
    simp only [List.length_append]
    omega
  rw [readArray_encodeArray _ hsized.1] at hread
  obtain ⟨⟨done, elements', top⟩, hloop, hout⟩ := Exec.bind_eq_ok.mp hread
  simp only [Except.ok.injEq, Prod.mk.injEq, Oval.array.injEq] at hout
  obtain ⟨rfl, rfl, rfl⟩ := hout
  exact allDecode_of_allRebuiltBy elements hsized.2 hdepth hloop hrebuilt

theorem arrayRoundTrips_of_allDecode {aval : OvalArray} {rest : List UInt8}
    (hdecode : AllDecode aval.val rest) : ArrayRoundTrips aval rest := by
  obtain ⟨elements, hsized⟩ := aval
  rw [Element.Sized] at hsized
  have hlength := length_encodeArray elements
  have hdepth : (encodeElements elements ++ rest).length ≤
      (encodeArray elements ++ rest).length := by
    simp only [List.length_append]
    omega
  obtain ⟨values, hloop, hrebuilt⟩ := readElements_decode elements hsized.2 hdepth hdecode
  refine ⟨values, ?_, hrebuilt⟩
  rw [readArray_encodeArray _ hsized.1, hloop]
  rfl

/-- **Exactly when an array is read back**, whatever bytes follow it. -/
theorem arrayRoundTrips_iff (aval : OvalArray) (rest : List UInt8) :
    ArrayRoundTrips aval rest ↔ AllDecode aval.val rest :=
  ⟨allDecode_of_arrayRoundTrips, arrayRoundTrips_of_allDecode⟩

/-- The array of the integer 5, which is written as one byte. -/
def arrayOfFive : OvalArray := ⟨[.intPos 5], by simp [Element.Sized, Element.AllSized]⟩

/-- It is read as an array of an unknown type. -/
theorem not_arrayRoundTrips_five : ¬ ArrayRoundTrips arrayOfFive [] := by
  intro hback
  have hdecode := allDecode_of_arrayRoundTrips hback
  rw [arrayOfFive, AllDecode, Decodes] at hdecode
  exact absurd hdecode.1 (by decide)

end Otic
