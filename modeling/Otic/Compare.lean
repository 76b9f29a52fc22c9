import Otic.Base

/-!
# Comparison of values (`base.c`)

`otic_oval_cmp` and `oval_array_cmp`.  The first knows the types its `switch` lists and
compares strings by `strncmp`, which stops at a zero byte; so two arrays are found equal
if their elements agree in this sense (`Agrees`).  `comparison_iff` says for which arrays
that is equality.
-/

namespace Otic

/-! ### Model -/

/-- Whether `strncmp` returns 0 for two blocks. -/
def strncmp : (n : Nat) → List UInt8 → List UInt8 → Exec Bool
  | 0, _, _ => .ok true
  | n + 1, a :: as, b :: bs =>
      if a ≠ b then .ok false else if a = 0 then .ok true else strncmp n as bs
  | _ + 1, _, _ => .error .overread

/-- `otic_oval_cmp`. -/
def ovalCmp (val1 val2 : Oval) : Exec Bool :=
  if val1.type ≠ val2.type then .ok false
  else
    match val1, val2 with
    | .null, _ => .ok true
    | .intPos lval1, .intPos lval2 | .intNeg lval1, .intNeg lval2 => .ok (lval1 == lval2)
    | .double dval1, .double dval2 => .ok (doubleEq dval1 dval2)
    | .string block1 size1, .string block2 size2 =>
        if size1 ≠ size2 then .ok false else strncmp size1 block1 block2
    -- no case
    | _, _ => .ok false

/-- The loop of `oval_array_cmp`, on arrays of one size. -/
def elementsCmp : List Oval → List Oval → Exec Bool
  | val1 :: elements1, val2 :: elements2 => do
      let equal ← ovalCmp val1 val2
      if equal then elementsCmp elements1 elements2 else .ok false
  | _, _ => .ok true

/-- `oval_array_cmp`. -/
def ovalArrayCmp (elements1 elements2 : List Oval) : Exec Bool :=
  if elements1.length ≠ elements2.length then .ok false else elementsCmp elements1 elements2

/-! ### Equality of values -/

mutual

/-- A value that can be compared: no NaN, and a string has its bytes. -/
def Comparable : Oval → Prop
  | .null | .intNeg _ | .intPos _ | .true | .false => True
  | .double dval => isNaN dval = false
  | .string block size => size ≤ block.length
  | .array elements => AllComparable elements
  | .float _ _ | .rawbuffer | .eof => False

def AllComparable : List Oval → Prop
  | [] => True
  | val :: elements => Comparable val ∧ AllComparable elements

end

mutual

/-- Values of one type with the same value. -/
def Same : Oval → Oval → Prop
  | .null, .null | .true, .true | .false, .false => True
  | .intNeg lval1, .intNeg lval2 | .intPos lval1, .intPos lval2 => lval1 = lval2
  | .double dval1, .double dval2 => doubleEq dval1 dval2 = true
  | .string block1 size1, .string block2 size2 =>
      size1 = size2 ∧ block1.take size1 = block2.take size2
  | .array elements1, .array elements2 => AllSame elements1 elements2
  | _, _ => False

/-- Arrays of one length with the same elements. -/
def AllSame : List Oval → List Oval → Prop
  | [], [] => True
  | val1 :: elements1, val2 :: elements2 => Same val1 val2 ∧ AllSame elements1 elements2
  | _, _ => False

end

theorem allSame_iff {elements1 elements2 : List Oval} :
    AllSame elements1 elements2 ↔ List.Forall₂ Same elements1 elements2 := by
  induction elements1 generalizing elements2 with
  | nil => cases elements2 <;> simp [AllSame]
  | cons val1 elements1 ih => cases elements2 <;> simp [AllSame, ih]

/-- The types of the `switch`. -/
def Listed (val : Oval) : Prop :=
  val.type ∈ [OticType.null, .intPos, .intNeg, .double, .string]

instance (val : Oval) : Decidable (Listed val) := by
  unfold Listed
  infer_instance

/-- Strings of one size that differ behind a zero byte only. -/
def Overlooked : Oval → Oval → Prop
  | .string block1 size1, .string block2 size2 =>
      size1 = size2 ∧ block1.take size1 ≠ block2.take size2 ∧
        Bytes.untilZero (block1.take size1) = Bytes.untilZero (block2.take size2)
  | _, _ => False

/-- What the comparison finds equal. -/
def Agrees (val1 val2 : Oval) : Prop := (Listed val1 ∧ Same val1 val2) ∨ Overlooked val1 val2

theorem strncmp_eq (n : Nat) : ∀ {block1 block2 : List UInt8},
    n ≤ block1.length → n ≤ block2.length →
      strncmp n block1 block2 =
        .ok (Bytes.untilZero (block1.take n) == Bytes.untilZero (block2.take n)) := by
  induction n with
  | zero => intro block1 block2 _ _; simp [strncmp]
  | succ n ih =>
    intro block1 block2 h1 h2
    cases block1 with
    | nil => simp at h1
    | cons a as =>
      cases block2 with
      | nil => simp at h2
      | cons b bs =>
        simp only [List.length_cons, Nat.add_le_add_iff_right] at h1 h2
        rw [strncmp, List.take_succ_cons, List.take_succ_cons, Bytes.untilZero, Bytes.untilZero]
        by_cases hab : a = b
        · subst hab
          rw [if_neg (not_not.mpr rfl)]
          split
          · simp
          · rw [ih h1 h2]
            simp
        · rw [if_pos hab]
          by_cases ha : a = 0
          · rw [if_pos ha, if_neg fun hb => hab (ha.trans hb.symm)]
            simp
          · rw [if_neg ha]
            split <;> simp [hab]

theorem Same.type_eq {val1 val2 : Oval} (h : Same val1 val2) : val1.type = val2.type := by
  cases val1 <;> cases val2 <;> first | rfl | simp [Same] at h

theorem Overlooked.type_eq {val1 val2 : Oval} (h : Overlooked val1 val2) :
    val1.type = val2.type := by
  cases val1 <;> cases val2 <;> first | rfl | simp [Overlooked] at h

theorem Agrees.type_eq {val1 val2 : Oval} (h : Agrees val1 val2) : val1.type = val2.type := by
  rcases h with ⟨-, h⟩ | h
  · exact h.type_eq
  · exact h.type_eq

/-- **One comparison** decides agreement. -/
theorem ovalCmp_iff {val1 val2 : Oval} (h1 : Comparable val1) (h2 : Comparable val2) :
    ∃ equal, ovalCmp val1 val2 = .ok equal ∧ (equal = true ↔ Agrees val1 val2) := by
  unfold ovalCmp
  by_cases htype : val1.type = val2.type
  · rw [if_neg (not_not.mpr htype)]
    cases val1 with
    | null =>
      cases val2 <;> simp only [Oval.type, reduceCtorEq] at htype
      simp [Agrees, Listed, Same, Oval.type]
    | intNeg lval1 | intPos lval1 | double dval1 =>
      cases val2 <;> simp only [Oval.type, reduceCtorEq] at htype
      simp [Agrees, Listed, Same, Overlooked, Oval.type]
    | string block1 size1 =>
      cases val2 <;> simp only [Oval.type, reduceCtorEq] at htype
      rename_i block2 size2
      rw [Comparable] at h1 h2
      by_cases hsize : size1 = size2
      · subst hsize
        simp only [ne_eq, not_true_eq_false, if_false, strncmp_eq size1 h1 h2]
        refine ⟨_, rfl, ?_⟩
        simp only [Agrees, Listed, Same, Overlooked, Oval.type, beq_iff_eq]
        by_cases hbytes : block1.take size1 = block2.take size1
        · simp [hbytes]
        · simp [hbytes]
      · simp [hsize, Agrees, Same, Overlooked]
    | true | false | array elements1 =>
      cases val2 <;> simp only [Oval.type, reduceCtorEq] at htype
      simp [Agrees, Listed, Overlooked, Oval.type]
    | float low high | rawbuffer | eof => simp [Comparable] at h1
  · rw [if_pos htype]
    exact ⟨false, rfl, by simp [mt Agrees.type_eq htype]⟩

/-- **The loop** decides it for all elements. -/
theorem ovalArrayCmp_iff {elements1 elements2 : List Oval} (h1 : ∀ val ∈ elements1, Comparable val)
    (h2 : ∀ val ∈ elements2, Comparable val) :
    ∃ equal, ovalArrayCmp elements1 elements2 = .ok equal ∧
      (equal = true ↔ List.Forall₂ Agrees elements1 elements2) := by
  unfold ovalArrayCmp
  by_cases hlength : elements1.length = elements2.length
  · rw [if_neg (not_not.mpr hlength)]
    induction elements1 generalizing elements2 with
    | nil =>
      obtain rfl := List.length_eq_zero_iff.mp hlength.symm
      exact ⟨true, rfl, by simp⟩
    | cons val1 elements1 ih =>
      obtain ⟨val2, elements2, rfl⟩ := List.exists_cons_of_length_eq_add_one hlength.symm
      obtain ⟨equal, hcmp, hequal⟩ := ovalCmp_iff (h1 val1 List.mem_cons_self)
        (h2 val2 List.mem_cons_self)
      obtain ⟨rest, hrest, hall⟩ := ih (fun val hval => h1 val (List.mem_cons_of_mem _ hval))
        (fun val hval => h2 val (List.mem_cons_of_mem _ hval)) (by simpa using hlength)
      rw [elementsCmp, hcmp, Exec.ok_bind, List.forall₂_cons, ← hequal, ← hall]
      cases equal with
      | true => exact ⟨rest, hrest, by simp⟩
      | false => exact ⟨false, rfl, by simp⟩
  · rw [if_pos hlength]
    exact ⟨false, rfl, by simpa using fun h => hlength h.length_eq⟩

/-! ### What agreement is -/

theorem doubleEq_comm (a b : UInt64) : doubleEq a b = doubleEq b a := by
  unfold doubleEq
  rw [Bool.and_comm (!isNaN a), BEq.comm (a := a), Bool.and_comm (magnitude a == 0)]

theorem doubleEq_trans {a b c : UInt64} (hab : doubleEq a b = true) (hbc : doubleEq b c = true) :
    doubleEq a c = true := by
  simp only [doubleEq, Bool.and_eq_true, Bool.or_eq_true, beq_iff_eq, Bool.not_eq_true'] at *
  obtain ⟨⟨ha, -⟩, hab⟩ := hab
  obtain ⟨⟨-, hc⟩, hbc⟩ := hbc
  refine ⟨⟨ha, hc⟩, ?_⟩
  rcases hab with rfl | ⟨hza, hzb⟩
  · exact hbc
  · rcases hbc with rfl | ⟨-, hzc⟩
    · exact Or.inr ⟨hza, hzb⟩
    · exact Or.inr ⟨hza, hzc⟩

theorem doubleEq_self {a : UInt64} (h : isNaN a = false) : doubleEq a a = true := by
  simp [doubleEq, h]

theorem not_overlooked_of_same {val1 val2 : Oval} (h : Same val1 val2) :
    ¬ Overlooked val1 val2 := by
  cases val1 <;> cases val2 <;> try exact id
  rintro ⟨-, hdiffer, -⟩
  rw [Same] at h
  exact hdiffer h.2

/-- What agrees is of a listed type, and then types, numbers or the visible bytes are the
same. -/
theorem agrees_iff {val1 val2 : Oval} :
    Agrees val1 val2 ↔ Listed val1 ∧
      match val1, val2 with
      | .string block1 size1, .string block2 size2 => size1 = size2 ∧
          Bytes.untilZero (block1.take size1) = Bytes.untilZero (block2.take size2)
      | _, _ => Same val1 val2 := by
  unfold Agrees
  cases val1 with
  | string block1 size1 =>
    cases val2 with
    | string block2 size2 =>
      simp only [Listed, Oval.type, Same, Overlooked]
      constructor
      · rintro (⟨-, hsize, hbytes⟩ | ⟨hsize, -, hbytes⟩)
        · exact ⟨by simp, hsize, by rw [hbytes]⟩
        · exact ⟨by simp, hsize, hbytes⟩
      · rintro ⟨-, hsize, hbytes⟩
        by_cases hsame : block1.take size1 = block2.take size2
        · exact Or.inl ⟨by simp, hsize, hsame⟩
        · exact Or.inr ⟨hsize, hsame, hbytes⟩
    | _ => simp [Overlooked]
  | _ => simp [Overlooked]

theorem Agrees.refl_iff {val : Oval} (h : Comparable val) : Agrees val val ↔ Listed val := by
  rw [agrees_iff]
  refine and_iff_left_of_imp fun hlisted => ?_
  cases val with
  | null | intNeg | intPos => simp [Same]
  | double dval => simpa [Same] using doubleEq_self (by simpa [Comparable] using h)
  | string block size => exact ⟨rfl, rfl⟩
  | _ => simp [Listed, Oval.type] at hlisted

theorem Agrees.symm {val1 val2 : Oval} (h : Agrees val1 val2) : Agrees val2 val1 := by
  have htype := h.type_eq
  rw [agrees_iff] at h ⊢
  obtain ⟨hlisted, h⟩ := h
  refine ⟨by rwa [Listed, ← htype], ?_⟩
  cases val1 with
  | null | intNeg | intPos =>
    cases val2 <;> simp_all [Same]
  | double dval1 =>
    cases val2 with
    | double dval2 => simpa [Same, doubleEq_comm] using h
    | _ => simp [Same] at h
  | string block1 size1 =>
    cases val2 with
    | string block2 size2 => exact ⟨h.1.symm, h.2.symm⟩
    | _ => simp [Same] at h
  | _ => simp [Listed, Oval.type] at hlisted

theorem Agrees.trans {val1 val2 val3 : Oval} (h : Agrees val1 val2) (h' : Agrees val2 val3) :
    Agrees val1 val3 := by
  rw [agrees_iff] at h h' ⊢
  obtain ⟨hlisted, h⟩ := h
  obtain ⟨-, h'⟩ := h'
  refine ⟨hlisted, ?_⟩
  cases val1 with
  | null | intNeg | intPos =>
    cases val2 <;> simp only [Same] at h
    cases val3 <;> simp only [Same] at h' ⊢
    try exact h.trans h'
  | double dval1 =>
    cases val2 <;> simp only [Same] at h
    cases val3 <;> simp only [Same] at h' ⊢
    exact doubleEq_trans h h'
  | string block1 size1 =>
    cases val2 <;> simp only [Same] at h
    cases val3 <;> simp only [Same] at h' ⊢
    exact ⟨h.1.trans h'.1, h.2.trans h'.2⟩
  | _ => simp [Listed, Oval.type] at hlisted

theorem allAgree_trans {elements1 elements2 elements3 : List Oval}
    (h : List.Forall₂ Agrees elements1 elements2) (h' : List.Forall₂ Agrees elements2 elements3) :
    List.Forall₂ Agrees elements1 elements3 := by
  induction h generalizing elements3 with
  | nil => exact h'
  | cons hval _ ih =>
    cases h' with
    | cons hval' hrest => exact .cons (Agrees.trans hval hval') (ih hrest)

/-! ### When the comparison decides equality -/

/-- `oval_array_cmp` returns 1 exactly for arrays of one length with the same elements. -/
def DecidesEquality (elements1 elements2 : List Oval) : Prop :=
  ∃ equal, ovalArrayCmp elements1 elements2 = .ok equal ∧
    (equal = true ↔ AllSame elements1 elements2)

/-- Equal arrays hold listed types only, and arrays that are equal as far as the comparison
looks at them hold no strings that differ behind a zero byte. -/
def Distinguished (elements1 elements2 : List Oval) : Prop :=
  (AllSame elements1 elements2 → ∀ val ∈ elements1, Listed val) ∧
    (List.Forall₂ Agrees elements1 elements2 →
      ∀ pair ∈ elements1.zip elements2, ¬ Overlooked pair.1 pair.2)

theorem decidesEquality_iff {elements1 elements2 : List Oval}
    (h1 : ∀ val ∈ elements1, Comparable val) (h2 : ∀ val ∈ elements2, Comparable val) :
    DecidesEquality elements1 elements2 ↔ Distinguished elements1 elements2 := by
  obtain ⟨equal, hcmp, hequal⟩ := ovalArrayCmp_iff h1 h2
  have hdecides : DecidesEquality elements1 elements2 ↔
      (List.Forall₂ Agrees elements1 elements2 ↔ List.Forall₂ Same elements1 elements2) := by
    rw [← hequal, ← allSame_iff]
    constructor
    · rintro ⟨result, hresult, hiff⟩
      rw [hcmp] at hresult
      cases hresult
      exact hiff
    · exact fun hiff => ⟨equal, hcmp, hiff⟩
  rw [hdecides, Distinguished, allSame_iff]
  constructor
  · intro hiff
    refine ⟨fun hsame => ?_, fun hagrees pair hpair hover => ?_⟩
    · have hlisted : List.Forall₂ (fun val1 val2 => Listed val1 ∧ Same val1 val2) elements1
          elements2 := by
        refine (hiff.mpr hsame).mp (fun val1 val2 h hvals => ?_) hsame
        rcases h with h | h
        · exact h
        · exact absurd h (not_overlooked_of_same hvals)
      exact ((List.forall₂_and_left _ _).mp hlisted).1
    · have hpairSame := (List.forall₂_iff_zip.mp (hiff.mp hagrees)).2 hpair
      exact not_overlooked_of_same hpairSame hover
  · rintro ⟨hlisted, hseen⟩
    constructor
    · intro hagrees
      refine List.forall₂_iff_zip.mpr ⟨hagrees.length_eq, fun {val1 val2} hpair => ?_⟩
      rcases (List.forall₂_iff_zip.mp hagrees).2 hpair with ⟨-, h⟩ | h
      · exact h
      · exact absurd h (hseen hagrees (val1, val2) hpair)
    · intro hsame
      exact ((List.forall₂_and_left _ _).mpr ⟨hlisted hsame, hsame⟩).imp fun _ _ h => Or.inl h

/-- **Comparison of arrays.**  It decides equality exactly for the arrays that it can tell
apart; it is reflexive on the listed types, symmetric and transitive. -/
theorem comparison_iff {elements1 elements2 : List Oval}
    (h1 : ∀ val ∈ elements1, Comparable val) (h2 : ∀ val ∈ elements2, Comparable val) :
    (DecidesEquality elements1 elements2 ↔ Distinguished elements1 elements2) ∧
    (ovalArrayCmp elements1 elements1 = .ok true ↔ ∀ val ∈ elements1, Listed val) ∧
    (ovalArrayCmp elements1 elements2 = .ok true → ovalArrayCmp elements2 elements1 = .ok true) ∧
    ∀ elements3, (∀ val ∈ elements3, Comparable val) →
      ovalArrayCmp elements1 elements2 = .ok true → ovalArrayCmp elements2 elements3 = .ok true →
        ovalArrayCmp elements1 elements3 = .ok true := by
  have hiff : ∀ {as bs : List Oval}, (∀ val ∈ as, Comparable val) → (∀ val ∈ bs, Comparable val) →
      (ovalArrayCmp as bs = .ok true ↔ List.Forall₂ Agrees as bs) := by
    intro as bs has hbs
    obtain ⟨equal, hcmp, hequal⟩ := ovalArrayCmp_iff has hbs
    rw [hcmp, ← hequal, Except.ok.injEq]
  refine ⟨decidesEquality_iff h1 h2, ?_, ?_, fun elements3 h3 => ?_⟩
  · rw [hiff h1 h1, List.forall₂_same]
    exact forall₂_congr fun val hval => Agrees.refl_iff (h1 val hval)
  · rw [hiff h1 h2, hiff h2 h1]
    exact fun h => List.Forall₂.flip (h.imp fun _ _ hvals => Agrees.symm hvals)
  · rw [hiff h1 h2, hiff h2 h3, hiff h1 h3]
    exact allAgree_trans

/-- A number and a string, compared with themselves. -/
theorem comparison_iff_numberAndString :
    let elements := [Oval.intPos 500, .string [0x61, 0x62] 2]
    (∀ val ∈ elements, Comparable val) ∧ DecidesEquality elements elements := by
  have hcomparable : ∀ val ∈ [Oval.intPos 500, .string [0x61, 0x62] 2], Comparable val := by
    simp [Comparable]
  refine ⟨hcomparable, (comparison_iff hcomparable hcomparable).1.mpr ⟨fun _ => ?_, fun _ => ?_⟩⟩
  · decide
  · simp [Overlooked]

/-- The array of one TRUE is not equal to itself, and two strings that begin with a zero
byte are equal. -/
theorem not_decidesEquality_true :
    ¬ DecidesEquality [.true] [.true] ∧
      ¬ DecidesEquality [.string [0, 1] 2] [.string [0, 2] 2] := by
  constructor
  · rintro ⟨equal, hcmp, hiff⟩
    obtain rfl : equal = false := (Except.ok.inj hcmp).symm
    exact absurd (hiff.mpr (by simp [AllSame, Same])) (by decide)
  · rintro ⟨equal, hcmp, hiff⟩
    obtain rfl : equal = true := (Except.ok.inj hcmp).symm
    exact absurd (hiff.mp rfl) (by simp [AllSame, Same])

end Otic
