import Otic.Library.Running
import Otic.Utility.Aggregator

/-!
# MIN and MAX

A running extreme is compared with what the source reads of a value (`reading`), which is
its numeric meaning (`meaning`) unless the value is a negative integer: the unsigned
negation of its magnitude is not negative.  And the start of the running extreme stands
for "nothing yet", although for MAX it is above every number that is not positive.
`extremes_iff` says for which sequences the result is right all the same.
-/

namespace Otic.Utility

/-! ### Numbers -/

/-- The number a value stands for, if it stands for one. -/
def meaning (val : Value) : Option ℚ :=
  match val.type with
  | .intPos => some val.lval.toNat
  | .intNeg => some (-(val.lval.toNat : ℚ))
  | .double => some val.dval
  | _ => none

/-- The number the aggregators see. -/
def reading (val : Value) : Option ℚ :=
  match val.type with
  | .intPos => some val.lval.toNat
  | .intNeg => some (Aggreg.negated val)
  | .double => some val.dval
  | _ => none

/-- The numeric meanings of a sequence. -/
def numbers (values : List Value) : List ℚ := values.filterMap meaning

def readings (values : List Value) : List ℚ := values.filterMap reading

theorem readings_cons (val : Value) (values : List Value) :
    readings (val :: values) = (reading val).toList ++ readings values := by
  rw [readings, readings, List.filterMap_cons]
  cases reading val <;> rfl

/-- A negative integer other than zero. -/
def IsNegative (val : Value) : Prop := val.type = .intNeg ∧ val.lval ≠ 0

instance (val : Value) : Decidable (IsNegative val) := by
  unfold IsNegative
  infer_instance

theorem reading_of_not_isNegative {val : Value} (h : ¬ IsNegative val) :
    reading val = meaning val := by
  unfold reading meaning
  cases htype : val.type with
  | intNeg =>
    have hzero : val.lval = 0 := not_not.mp fun hne => h ⟨htype, hne⟩
    simp [Aggreg.negated, hzero]
  | _ => rfl

theorem lval_pos_of_isNegative {val : Value} (h : IsNegative val) : 0 < val.lval.toNat := by
  rw [Nat.pos_iff_ne_zero]
  exact fun hzero => h.2 (UInt64.toNat_inj.mp hzero)

/-- The negation wraps around: it is off by 2^64. -/
theorem reading_of_isNegative {val : Value} (h : IsNegative val) :
    meaning val = some (-(val.lval.toNat : ℚ)) ∧
      reading val = some (2 ^ 64 - (val.lval.toNat : ℚ)) := by
  have hpos := lval_pos_of_isNegative h
  obtain ⟨htype, -⟩ := h
  have hneg : (-val.lval).toNat = 2 ^ 64 - val.lval.toNat := by
    have hsize : UInt64.size = 2 ^ 64 := rfl
    have hlt := val.lval.toNat_lt
    rw [UInt64.toNat_neg, hsize]
    exact Nat.mod_eq_of_lt (by omega)
  refine ⟨by simp only [meaning, htype], ?_⟩
  simp only [reading, htype, Aggreg.negated, hneg]
  rw [Nat.cast_sub val.lval.toNat_lt.le]
  norm_num

theorem isSome_reading (val : Value) : (reading val).isSome = (meaning val).isSome := by
  unfold reading meaning
  cases val.type <;> rfl

theorem readings_eq_nil {values : List Value} : readings values = [] ↔ numbers values = [] := by
  have hnone : ∀ val, reading val = none ↔ meaning val = none := fun val => by
    rw [← Option.not_isSome_iff_eq_none, ← Option.not_isSome_iff_eq_none, isSome_reading]
  simp only [readings, numbers, List.filterMap_eq_nil_iff, hnone]

/-! ### Running extremes -/

namespace Aggreg

theorem insertMin_eq (aggreg : Aggreg) (val : Value) :
    aggreg.insertMin val =
      match reading val with
      | none => aggreg
      | some x => if x < aggreg.dval then aggreg.setDval x else aggreg := by
  unfold insertMin reading
  cases val.type <;> rfl

theorem insertMax_eq (aggreg : Aggreg) (val : Value) :
    aggreg.insertMax val =
      match reading val with
      | none => aggreg
      | some x => if x > aggreg.dval then aggreg.setDval x else aggreg := by
  unfold insertMax reading
  cases val.type <;> rfl

theorem type_insertMin (aggreg : Aggreg) (val : Value) :
    (aggreg.insertMin val).type = aggreg.type := by
  rw [insertMin_eq]
  split
  · rfl
  · split <;> rfl

theorem type_insertMax (aggreg : Aggreg) (val : Value) :
    (aggreg.insertMax val).type = aggreg.type := by
  rw [insertMax_eq]
  split
  · rfl
  · split <;> rfl

theorem dval_foldl_insertMin (values : List Value) : ∀ aggreg : Aggreg,
    (values.foldl insertMin aggreg).dval = (readings values).foldl min aggreg.dval := by
  induction values with
  | nil => exact fun aggreg => rfl
  | cons val values ih =>
    intro aggreg
    rw [List.foldl_cons, ih, readings_cons, insertMin_eq]
    cases reading val with
    | none => rfl
    | some x =>
      dsimp only
      rw [Option.toList_some, List.singleton_append, List.foldl_cons,
        ← Running.ite_lt_eq_min x aggreg.dval, apply_ite dval]
      rfl

theorem dval_foldl_insertMax (values : List Value) : ∀ aggreg : Aggreg,
    (values.foldl insertMax aggreg).dval = (readings values).foldl max aggreg.dval := by
  induction values with
  | nil => exact fun aggreg => rfl
  | cons val values ih =>
    intro aggreg
    rw [List.foldl_cons, ih, readings_cons, insertMax_eq]
    cases reading val with
    | none => rfl
    | some x =>
      dsimp only
      rw [Option.toList_some, List.singleton_append, List.foldl_cons,
        ← Running.ite_gt_eq_max x aggreg.dval, apply_ite dval]
      rfl

end Aggreg

/-- What MIN returns, whatever the memory held. -/
theorem aggregate_min (memory : Aggreg) (values : List Value) :
    aggregate memory .min values =
      let least := (readings values).foldl min DBL_MAX
      some ⟨if least = DBL_MAX then .null else .double, .real least⟩ := by
  obtain ⟨hall, htype⟩ := @Aggreg.insertAll_eq Aggreg.insertMin .min
    (fun aggreg val h => by simp only [Aggreg.insert, h]) Aggreg.type_insertMin values
    (memory.init .min) rfl
  simp only [aggregate, hall, Option.bind_eq_bind, Option.bind_some, Aggreg.get, htype,
    Aggreg.getMin, Aggreg.dval_foldl_insertMin]
  rfl

/-- What MAX returns, whatever the memory held. -/
theorem aggregate_max (memory : Aggreg) (values : List Value) :
    aggregate memory .max values =
      let greatest := (readings values).foldl max DBL_MIN
      some ⟨if greatest = DBL_MIN then .null else .double, .real greatest⟩ := by
  obtain ⟨hall, htype⟩ := @Aggreg.insertAll_eq Aggreg.insertMax .max
    (fun aggreg val h => by simp only [Aggreg.insert, h]) Aggreg.type_insertMax values
    (memory.init .max) rfl
  simp only [aggregate, hall, Option.bind_eq_bind, Option.bind_some, Aggreg.get, htype,
    Aggreg.getMax, Aggreg.dval_foldl_insertMax]
  rfl

/-- In another order the same numbers have the same extreme. -/
theorem aggregate_perm (memory : Aggreg) {values other : List Value} (h : values.Perm other) :
    aggregate memory .min values = aggregate memory .min other ∧
      aggregate memory .max values = aggregate memory .max other := by
  have hreadings : (readings values).Perm (readings other) := h.filterMap reading
  rw [aggregate_min, aggregate_min, aggregate_max, aggregate_max, hreadings.foldl_eq,
    hreadings.foldl_eq]
  exact ⟨rfl, rfl⟩

/-! ### When the extremes are right -/

/-- What MIN is for: the least of the numbers, or NULL if there is none. -/
def ReturnsLeast (values : List Value) (out : Option Value) : Prop :=
  ∃ result, out = some result ∧ (result.type = .null ↔ numbers values = []) ∧
    (numbers values ≠ [] → result.type = .double ∧ IsLeast {x | x ∈ numbers values} result.dval)

/-- What MAX is for. -/
def ReturnsGreatest (values : List Value) (out : Option Value) : Prop :=
  ∃ result, out = some result ∧ (result.type = .null ↔ numbers values = []) ∧
    (numbers values ≠ [] →
      result.type = .double ∧ IsGreatest {x | x ∈ numbers values} result.dval)

/-- Some number is below the start, and every negative integer is undercut by a double. -/
def LeastSound (values : List Value) : Prop :=
  numbers values = [] ∨
    ((∃ x ∈ numbers values, x < DBL_MAX) ∧
      ∀ val ∈ values, IsNegative val →
        ∃ other ∈ values, other.type = .double ∧ other.dval ≤ -(val.lval.toNat : ℚ))

/-- Some number is above the start, and what is read of a negative integer is reached by
another number. -/
def GreatestSound (values : List Value) : Prop :=
  numbers values = [] ∨
    ((∃ x ∈ numbers values, DBL_MIN < x) ∧
      ∀ val ∈ values, IsNegative val →
        ∃ other ∈ values, ¬ IsNegative other ∧
          ∃ x ∈ meaning other, 2 ^ 64 - (val.lval.toNat : ℚ) ≤ x)

theorem mem_numbers {values : List Value} {x : ℚ} :
    x ∈ numbers values ↔ ∃ val ∈ values, meaning val = some x := List.mem_filterMap

theorem mem_readings {values : List Value} {x : ℚ} :
    x ∈ readings values ↔ ∃ val ∈ values, reading val = some x := List.mem_filterMap

/-- All values but negative integers are read as what they stand for. -/
theorem mem_readings_of_meaning {values : List Value} {val : Value} {x : ℚ} (hval : val ∈ values)
    (hneg : ¬ IsNegative val) (hmeaning : meaning val = some x) : x ∈ readings values :=
  mem_readings.mpr ⟨val, hval, by rw [reading_of_not_isNegative hneg, hmeaning]⟩

theorem mem_numbers_of_reading {values : List Value} {val : Value} {x : ℚ} (hval : val ∈ values)
    (hneg : ¬ IsNegative val) (hreading : reading val = some x) : x ∈ numbers values :=
  mem_numbers.mpr ⟨val, hval, by rw [← reading_of_not_isNegative hneg, hreading]⟩

/-- Only a double is read as a negative number. -/
theorem double_of_reading {val : Value} {x : ℚ} (hreading : reading val = some x) (hx : x < 0) :
    val.type = .double ∧ val.dval = x := by
  unfold reading at hreading
  cases htag : val.type with
  | double =>
    simp only [htag, Option.some.injEq] at hreading
    exact ⟨rfl, hreading⟩
  | intPos =>
    simp only [htag, Option.some.injEq] at hreading
    have hpos : (0 : ℚ) ≤ val.lval.toNat := Nat.cast_nonneg _
    linarith
  | intNeg =>
    simp only [htag, Option.some.injEq, Aggreg.negated] at hreading
    have hpos : (0 : ℚ) ≤ (-val.lval).toNat := Nat.cast_nonneg _
    linarith
  | _ => simp [htag] at hreading

theorem DBL_MIN_pos : 0 < DBL_MIN := by norm_num [DBL_MIN]

theorem lval_lt (val : Value) : (val.lval.toNat : ℚ) < 2 ^ 64 := by
  exact_mod_cast val.lval.toNat_lt

theorem returnsLeast_iff (memory : Aggreg) (values : List Value) :
    ReturnsLeast values (aggregate memory .min values) ↔ LeastSound values := by
  have hleast := Running.isLeast_foldl_min DBL_MAX (readings values)
  rw [aggregate_min]
  generalize (readings values).foldl min DBL_MAX = least at hleast
  by_cases hnil : numbers values = []
  · have hreadings := readings_eq_nil.mpr hnil
    have hstart : least = DBL_MAX := hleast.1.resolve_right (by simp [hreadings])
    refine ⟨fun _ => Or.inl hnil, fun _ => ⟨_, rfl, ?_, fun h => absurd hnil h⟩⟩
    simp [hstart, hnil]
  constructor
  · rintro ⟨result, hout, -, hresult⟩
    cases hout
    obtain ⟨htype, hmem, hle⟩ := hresult hnil
    have hne : least ≠ DBL_MAX := fun h => by simp [h] at htype
    have hlt : least < DBL_MAX := lt_of_le_of_ne (hleast.2 (Or.inl rfl)) hne
    refine Or.inr ⟨⟨least, hmem, hlt⟩, fun val hval hneg => ?_⟩
    obtain ⟨hmeaning, -⟩ := reading_of_isNegative hneg
    have hbelow : least ≤ -(val.lval.toNat : ℚ) := hle (mem_numbers.mpr ⟨val, hval, hmeaning⟩)
    have hpos : (0 : ℚ) < val.lval.toNat := by exact_mod_cast lval_pos_of_isNegative hneg
    obtain ⟨other, hother, hreading⟩ := mem_readings.mp (hleast.1.resolve_left hne)
    obtain ⟨htag, hdval⟩ := double_of_reading hreading (by linarith)
    exact ⟨other, hother, htag, hdval.trans_le hbelow⟩
  · rintro (h | ⟨⟨x, hx, hlt⟩, hundercut⟩)
    · exact absurd h hnil
    -- every number has a reading that is no larger
    have hbelow : ∀ y ∈ numbers values, least ≤ y := by
      intro y hy
      obtain ⟨val, hval, hmeaning⟩ := mem_numbers.mp hy
      by_cases hneg : IsNegative val
      · obtain ⟨other, hother, htype, hle⟩ := hundercut val hval hneg
        rw [(reading_of_isNegative hneg).1, Option.some.injEq] at hmeaning
        have hreading : reading other = some other.dval := by simp only [reading, htype]
        exact (hleast.2 (Or.inr (mem_readings.mpr ⟨other, hother, hreading⟩))).trans
          (hle.trans hmeaning.le)
      · exact hleast.2 (Or.inr (mem_readings_of_meaning hval hneg hmeaning))
    have hne : least ≠ DBL_MAX := ((hbelow x hx).trans_lt hlt).ne
    obtain ⟨val, hval, hreading⟩ := mem_readings.mp (hleast.1.resolve_left hne)
    have hmem : least ∈ numbers values := by
      by_cases hneg : IsNegative val
      · obtain ⟨hmeaning, hread⟩ := reading_of_isNegative hneg
        have hlow := hbelow _ (mem_numbers.mpr ⟨val, hval, hmeaning⟩)
        rw [hread, Option.some.injEq] at hreading
        have hsmall := lval_lt val
        have hpos : (0 : ℚ) < val.lval.toNat := by exact_mod_cast lval_pos_of_isNegative hneg
        linarith
      · exact mem_numbers_of_reading hval hneg hreading
    refine ⟨_, rfl, ?_, fun _ => ⟨if_neg hne, hmem, hbelow⟩⟩
    simp [hne, hnil]

theorem returnsGreatest_iff (memory : Aggreg) (values : List Value) :
    ReturnsGreatest values (aggregate memory .max values) ↔ GreatestSound values := by
  have hgreatest := Running.isGreatest_foldl_max DBL_MIN (readings values)
  rw [aggregate_max]
  generalize (readings values).foldl max DBL_MIN = greatest at hgreatest
  by_cases hnil : numbers values = []
  · have hreadings := readings_eq_nil.mpr hnil
    have hstart : greatest = DBL_MIN := hgreatest.1.resolve_right (by simp [hreadings])
    refine ⟨fun _ => Or.inl hnil, fun _ => ⟨_, rfl, ?_, fun h => absurd hnil h⟩⟩
    simp [hstart, hnil]
  constructor
  · rintro ⟨result, hout, -, hresult⟩
    cases hout
    obtain ⟨htype, hmem, -⟩ := hresult hnil
    have hne : greatest ≠ DBL_MIN := fun h => by simp [h] at htype
    have hlt : DBL_MIN < greatest := lt_of_le_of_ne (hgreatest.2 (Or.inl rfl)) (Ne.symm hne)
    refine Or.inr ⟨⟨greatest, hmem, hlt⟩, fun val hval hneg => ?_⟩
    have habove := hgreatest.2
      (Or.inr (mem_readings.mpr ⟨val, hval, (reading_of_isNegative hneg).2⟩))
    -- what stands for a positive number is no negative integer
    obtain ⟨other, hother, hmeaning⟩ := mem_numbers.mp hmem
    refine ⟨other, hother, fun hotherNeg => ?_, greatest, hmeaning, habove⟩
    have hvalue := (reading_of_isNegative hotherNeg).1
    have hdval : Value.dval ⟨if greatest = DBL_MIN then .null else .double, .real greatest⟩ =
        greatest := rfl
    rw [hmeaning, hdval, Option.some.injEq] at hvalue
    have hpos : (0 : ℚ) < other.lval.toNat := by exact_mod_cast lval_pos_of_isNegative hotherNeg
    have hmin := DBL_MIN_pos
    linarith
  · rintro (h | ⟨⟨x, hx, hlt⟩, hreached⟩)
    · exact absurd h hnil
    -- every number has a reading that is no smaller
    have habove : ∀ y ∈ numbers values, y ≤ greatest := by
      intro y hy
      obtain ⟨val, hval, hmeaning⟩ := mem_numbers.mp hy
      by_cases hneg : IsNegative val
      · rw [(reading_of_isNegative hneg).1, Option.some.injEq] at hmeaning
        have hstart : DBL_MIN ≤ greatest := hgreatest.2 (Or.inl rfl)
        have hpos : (0 : ℚ) < val.lval.toNat := by exact_mod_cast lval_pos_of_isNegative hneg
        have hmin := DBL_MIN_pos
        linarith
      · exact hgreatest.2 (Or.inr (mem_readings_of_meaning hval hneg hmeaning))
    have hne : greatest ≠ DBL_MIN := (hlt.trans_le (habove x hx)).ne'
    obtain ⟨val, hval, hreading⟩ := mem_readings.mp (hgreatest.1.resolve_left hne)
    have hmem : greatest ∈ numbers values := by
      by_cases hneg : IsNegative val
      · obtain ⟨other, hother, hotherNeg, y, hy, hle⟩ := hreached val hval hneg
        have hmeaning : meaning other = some y := hy
        have hnumber := mem_numbers.mpr ⟨other, hother, hmeaning⟩
        rw [(reading_of_isNegative hneg).2, Option.some.injEq] at hreading
        rwa [le_antisymm (hreading ▸ hle) (habove y hnumber)]
      · exact mem_numbers_of_reading hval hneg hreading
    refine ⟨_, rfl, ?_, fun _ => ⟨if_neg hne, hmem, habove⟩⟩
    simp [hne, hnil]

/-- **MIN and MAX** return the extreme of the numbers exactly if the start of the running
extreme and what is read of negative integers do not get in the way; the order of the
inserts never matters. -/
theorem extremes_iff (memory : Aggreg) (values : List Value) :
    (ReturnsLeast values (aggregate memory .min values) ↔ LeastSound values) ∧
    (ReturnsGreatest values (aggregate memory .max values) ↔ GreatestSound values) ∧
    ∀ other, values.Perm other →
      aggregate memory .min values = aggregate memory .min other ∧
        aggregate memory .max values = aggregate memory .max other :=
  ⟨returnsLeast_iff memory values, returnsGreatest_iff memory values,
    fun _ => aggregate_perm memory⟩

/-- An aggregator before its initialisation, with zeroes in its memory. -/
def Aggreg.zeroed : Aggreg := ⟨.none, .null, ⟨.null, .integer 0⟩, 0⟩

/-- The greatest of the one double -1 is returned as NULL, and the least of the one
negative integer -5 as 2^64 - 5. -/
theorem not_extremes_oneNegative :
    ¬ ReturnsGreatest [⟨.double, .real (-1)⟩]
        (aggregate .zeroed .max [⟨.double, .real (-1)⟩]) ∧
      ¬ ReturnsLeast [⟨.intNeg, .integer 5⟩]
        (aggregate .zeroed .min [⟨.intNeg, .integer 5⟩]) := by
  constructor
  · rw [returnsGreatest_iff]
    rintro (h | ⟨⟨x, hx, hlt⟩, -⟩)
    · exact absurd h (by simp [numbers, meaning])
    · obtain rfl : x = -1 := by simpa [numbers, meaning, Value.dval] using hx
      have := DBL_MIN_pos
      linarith
  · rw [returnsLeast_iff]
    rintro (h | ⟨-, h⟩)
    · exact absurd h (by simp [numbers, meaning])
    · obtain ⟨other, hother, htype, -⟩ := h _ List.mem_cons_self ⟨rfl, by decide⟩
      obtain rfl := List.mem_singleton.mp hother
      exact absurd htype (by decide)

end Otic.Utility
