import Mathlib.Tactic.LinearCombination
import Mathlib.Tactic.Ring
import Otic.Utility.Extremes

/-!
# SUM and AVG

The running total adds up the readings, of which that of a negative integer is off by
2^64.  So the sum is right exactly if there is no negative integer; for the mean the
same holds as long as the counter has not wrapped around (`totals_iff`).
-/

namespace Otic.Utility

/-- The negative integers of a sequence. -/
def negatives (values : List Value) : Nat := values.countP fun val => IsNegative val

theorem numbers_cons (val : Value) (values : List Value) :
    numbers (val :: values) = (meaning val).toList ++ numbers values := by
  rw [numbers, numbers, List.filterMap_cons]
  cases meaning val <;> rfl

/-- **Every negative integer adds 2^64** to what is read. -/
theorem sum_readings (values : List Value) :
    (readings values).sum = (numbers values).sum + 2 ^ 64 * negatives values ∧
      (readings values).length = (numbers values).length := by
  induction values with
  | nil => simp [readings, numbers, negatives]
  | cons val values ih =>
    obtain ⟨hsum, hlength⟩ := ih
    rw [readings_cons, numbers_cons, negatives, List.countP_cons, ← negatives]
    by_cases hneg : IsNegative val
    · obtain ⟨hmeaning, hreading⟩ := reading_of_isNegative hneg
      simp only [hmeaning, hreading, Option.toList_some, List.singleton_append, List.sum_cons,
        List.length_cons, hsum, hlength, hneg, decide_true, if_true, and_true]
      push_cast
      ring
    · rw [reading_of_not_isNegative hneg]
      simp only [List.sum_append, List.length_append, hsum, hlength, hneg, decide_false,
        Bool.false_eq_true, if_false, Nat.add_zero, and_true]
      ring

/-! ### Running totals -/

namespace Aggreg

theorem insertSum_eq (aggreg : Aggreg) (val : Value) :
    aggreg.insertSum val =
      match reading val with
      | none => aggreg
      | some x => (aggreg.setDval (aggreg.dval + x)).setType .double := by
  unfold insertSum reading
  cases val.type <;> rfl

theorem insertAvg_eq (aggreg : Aggreg) (val : Value) :
    aggreg.insertAvg val =
      match reading val with
      | none => aggreg
      | some x => { aggreg.setDval (aggreg.dval + x) with counter := aggreg.counter + 1 } := by
  unfold insertAvg reading
  cases val.type <;> rfl

theorem type_insertSum (aggreg : Aggreg) (val : Value) :
    (aggreg.insertSum val).type = aggreg.type := by
  rw [insertSum_eq]
  split <;> rfl

theorem type_insertAvg (aggreg : Aggreg) (val : Value) :
    (aggreg.insertAvg val).type = aggreg.type := by
  rw [insertAvg_eq]
  split <;> rfl

/-- The total, and the type that tells whether there was a number. -/
theorem foldl_insertSum (values : List Value) : ∀ aggreg : Aggreg,
    (values.foldl insertSum aggreg).dval = aggreg.dval + (readings values).sum ∧
      (values.foldl insertSum aggreg).value.type =
        if readings values = [] then aggreg.value.type else .double := by
  induction values with
  | nil => exact fun aggreg => ⟨(add_zero _).symm, rfl⟩
  | cons val values ih =>
    intro aggreg
    obtain ⟨hdval, htype⟩ := ih (aggreg.insertSum val)
    rw [List.foldl_cons, hdval, htype, readings_cons, insertSum_eq]
    cases reading val with
    | none => exact ⟨rfl, rfl⟩
    | some x =>
      dsimp only
      rw [dval_setType, dval_setDval, Option.toList_some, List.singleton_append, List.sum_cons,
        add_assoc, if_neg (List.cons_ne_nil _ _)]
      refine ⟨rfl, ?_⟩
      split <;> rfl

/-- The total, and the number of numbers modulo 2^64. -/
theorem foldl_insertAvg (values : List Value) : ∀ aggreg : Aggreg,
    (values.foldl insertAvg aggreg).dval = aggreg.dval + (readings values).sum ∧
      (values.foldl insertAvg aggreg).counter =
        aggreg.counter + UInt64.ofNat (readings values).length := by
  induction values with
  | nil => exact fun aggreg => ⟨(add_zero _).symm, (UInt64.add_zero _).symm⟩
  | cons val values ih =>
    intro aggreg
    obtain ⟨hdval, hcounter⟩ := ih (aggreg.insertAvg val)
    rw [List.foldl_cons, hdval, hcounter, readings_cons, insertAvg_eq]
    cases reading val with
    | none => exact ⟨rfl, rfl⟩
    | some x =>
      dsimp only
      rw [Option.toList_some, List.singleton_append, List.sum_cons, List.length_cons, ← add_assoc,
        Nat.add_comm, UInt64.ofNat_add, UInt64.add_assoc]
      exact ⟨rfl, rfl⟩

end Aggreg

/-- What SUM returns, whatever the memory held. -/
theorem aggregate_sum (memory : Aggreg) (values : List Value) :
    aggregate memory .sum values =
      some ⟨if numbers values = [] then .null else .double,
        .real ((numbers values).sum + 2 ^ 64 * negatives values)⟩ := by
  obtain ⟨hall, htype⟩ := @Aggreg.insertAll_eq Aggreg.insertSum .sum
    (fun aggreg val h => by simp only [Aggreg.insert, h]) Aggreg.type_insertSum values
    (memory.init .sum) rfl
  obtain ⟨hdval, hvalue⟩ := Aggreg.foldl_insertSum values (memory.init .sum)
  have hstart : (memory.init .sum).dval = 0 := rfl
  simp only [aggregate, hall, Option.bind_eq_bind, Option.bind_some, Aggreg.get, htype,
    Aggreg.getSum, hdval, hvalue, readings_eq_nil, hstart, zero_add, (sum_readings values).1]
  rfl

/-- What AVG returns, whatever the memory held. -/
theorem aggregate_avg (memory : Aggreg) (values : List Value) :
    aggregate memory .avg values =
      some (if (numbers values).length % 2 ^ 64 = 0 then ⟨.null, .integer 0⟩
        else ⟨.double, .real (((numbers values).sum + 2 ^ 64 * negatives values) /
          ((numbers values).length % 2 ^ 64 : Nat))⟩) := by
  obtain ⟨hall, htype⟩ := @Aggreg.insertAll_eq Aggreg.insertAvg .avg
    (fun aggreg val h => by simp only [Aggreg.insert, h]) Aggreg.type_insertAvg values
    (memory.init .avg) rfl
  obtain ⟨hdval, hcounter⟩ := Aggreg.foldl_insertAvg values (memory.init .avg)
  have hstart : (memory.init .avg).dval = 0 := rfl
  have hzero : (memory.init .avg).counter = 0 := rfl
  have hmod : (UInt64.ofNat (numbers values).length).toNat = (numbers values).length % 2 ^ 64 :=
    UInt64.toNat_ofNat'
  have hnone : UInt64.ofNat (numbers values).length = 0 ↔ (numbers values).length % 2 ^ 64 = 0 := by
    rw [← UInt64.toNat_inj, hmod]
    rfl
  simp only [aggregate, hall, Option.bind_eq_bind, Option.bind_some, Aggreg.get, htype,
    Aggreg.getAvg, hdval, hcounter, hstart, hzero, zero_add,
    (sum_readings values).1, (sum_readings values).2, hmod, hnone]

/-! ### When the totals are right -/

/-- What SUM is for: the sum of the numbers, or NULL if there is none. -/
def ReturnsSum (values : List Value) (out : Option Value) : Prop :=
  ∃ result, out = some result ∧ (result.type = .null ↔ numbers values = []) ∧
    (numbers values ≠ [] → result.type = .double ∧ result.dval = (numbers values).sum)

/-- What AVG is for. -/
def ReturnsMean (values : List Value) (out : Option Value) : Prop :=
  ∃ result, out = some result ∧ (result.type = .null ↔ numbers values = []) ∧
    (numbers values ≠ [] → result.type = .double ∧
      result.dval = (numbers values).sum / (numbers values).length)

/-- Fewer than 2^64 numbers and no negative integer; of more numbers, the two errors
cancel out. -/
def MeanSound (values : List Value) : Prop :=
  if (numbers values).length < 2 ^ 64 then negatives values = 0
  else (numbers values).length % 2 ^ 64 ≠ 0 ∧
    (negatives values : ℚ) * (numbers values).length +
      (numbers values).sum * ((numbers values).length / 2 ^ 64 : Nat) = 0

theorem negatives_eq_zero {values : List Value} :
    negatives values = 0 ↔ ∀ val ∈ values, ¬ IsNegative val := by
  simp only [negatives, List.countP_eq_zero, decide_eq_true_eq]

/-- A negative integer is a number. -/
theorem not_isNegative_of_numbers {values : List Value} (h : numbers values = []) :
    ∀ val ∈ values, ¬ IsNegative val := by
  intro val hval hneg
  have hmem := mem_numbers.mpr ⟨val, hval, (reading_of_isNegative hneg).1⟩
  rw [h] at hmem
  exact absurd hmem (by simp)

theorem returnsSum_iff (memory : Aggreg) (values : List Value) :
    ReturnsSum values (aggregate memory .sum values) ↔ ∀ val ∈ values, ¬ IsNegative val := by
  rw [aggregate_sum, ← negatives_eq_zero]
  by_cases hnil : numbers values = []
  · have hzero := negatives_eq_zero.mpr (not_isNegative_of_numbers hnil)
    refine ⟨fun _ => hzero, fun _ => ⟨_, rfl, ?_, fun h => absurd hnil h⟩⟩
    simp [hnil]
  constructor
  · rintro ⟨result, hout, -, hresult⟩
    cases hout
    obtain ⟨-, hsum⟩ := hresult hnil
    have hoff : (2 ^ 64 : ℚ) * negatives values = 0 := by simpa [Value.dval] using hsum
    exact_mod_cast (mul_eq_zero.mp hoff).resolve_left (by norm_num)
  · intro hzero
    refine ⟨_, rfl, ?_, fun _ => ⟨if_neg hnil, ?_⟩⟩
    · simp [hnil]
    · simp [Value.dval, hzero]

/-- The mean is right if the two errors cancel out: that of the total and that of the
counter, which has wrapped around `n / 2 ^ 64` times. -/
theorem mean_eq_iff {n k : Nat} {sum : ℚ} (hn : 0 < n) (hmod : n % 2 ^ 64 ≠ 0) :
    (sum + 2 ^ 64 * k) / (n % 2 ^ 64 : Nat) = sum / n ↔
      (k : ℚ) * n + sum * (n / 2 ^ 64 : Nat) = 0 := by
  have hnQ : (n : ℚ) ≠ 0 := by exact_mod_cast hn.ne'
  have hmodQ : ((n % 2 ^ 64 : Nat) : ℚ) ≠ 0 := by exact_mod_cast hmod
  have hsplit : (n : ℚ) = 2 ^ 64 * (n / 2 ^ 64 : Nat) + (n % 2 ^ 64 : Nat) := by
    exact_mod_cast (Nat.div_add_mod n (2 ^ 64)).symm
  rw [div_eq_div_iff hmodQ hnQ]
  have hcross : (sum + 2 ^ 64 * k) * n - sum * (n % 2 ^ 64 : Nat) =
      2 ^ 64 * ((k : ℚ) * n + sum * (n / 2 ^ 64 : Nat)) := by
    have hwhole : sum * n = sum * (2 ^ 64 * (n / 2 ^ 64 : Nat) + (n % 2 ^ 64 : Nat)) := by
      rw [← hsplit]
    linear_combination hwhole
  rw [← sub_eq_zero, hcross, mul_eq_zero]
  exact ⟨fun h => h.resolve_left (by norm_num), Or.inr⟩

theorem returnsMean_iff (memory : Aggreg) (values : List Value) :
    ReturnsMean values (aggregate memory .avg values) ↔ MeanSound values := by
  rw [aggregate_avg, MeanSound]
  by_cases hnil : numbers values = []
  · have hzero := negatives_eq_zero.mpr (not_isNegative_of_numbers hnil)
    rw [hnil, if_pos (by simp)]
    exact ⟨fun _ => hzero, fun _ => ⟨_, rfl, by simp [hnil], fun h => absurd hnil h⟩⟩
  have hpos : 0 < (numbers values).length := List.length_pos_iff.mpr hnil
  -- the mean of a number that the counter misses is NULL
  have hiff : ReturnsMean values
      (some (if (numbers values).length % 2 ^ 64 = 0 then ⟨.null, .integer 0⟩
        else ⟨.double, .real (((numbers values).sum + 2 ^ 64 * negatives values) /
          ((numbers values).length % 2 ^ 64 : Nat))⟩)) ↔
      (numbers values).length % 2 ^ 64 ≠ 0 ∧
        (negatives values : ℚ) * (numbers values).length +
          (numbers values).sum * ((numbers values).length / 2 ^ 64 : Nat) = 0 := by
    constructor
    · rintro ⟨result, hout, hnull, hresult⟩
      cases hout
      obtain ⟨htype, hmean⟩ := hresult hnil
      by_cases hmod : (numbers values).length % 2 ^ 64 = 0
      · rw [if_pos hmod] at htype
        cases htype
      · rw [if_neg hmod] at hmean
        exact ⟨hmod, (mean_eq_iff hpos hmod).mp hmean⟩
    · rintro ⟨hmod, hcancel⟩
      rw [if_neg hmod]
      exact ⟨_, rfl, by simp [hnil], fun _ => ⟨rfl, (mean_eq_iff hpos hmod).mpr hcancel⟩⟩
  rw [hiff]
  by_cases hsmall : (numbers values).length < 2 ^ 64
  · rw [if_pos hsmall, Nat.mod_eq_of_lt hsmall, Nat.div_eq_of_lt hsmall, Nat.cast_zero, mul_zero,
      add_zero, mul_eq_zero]
    have hlength : ((numbers values).length : ℚ) ≠ 0 := by exact_mod_cast hpos.ne'
    constructor
    · rintro ⟨-, h⟩
      exact_mod_cast h.resolve_right hlength
    · exact fun h => ⟨hpos.ne', Or.inl (by exact_mod_cast h)⟩
  · rw [if_neg hsmall]

/-- **SUM and AVG** return the sum and the mean of the numbers exactly if there is no
negative integer among the values, as long as the numbers can be counted in 64 bits. -/
theorem totals_iff (memory : Aggreg) (values : List Value) :
    (ReturnsSum values (aggregate memory .sum values) ↔ ∀ val ∈ values, ¬ IsNegative val) ∧
      (ReturnsMean values (aggregate memory .avg values) ↔ MeanSound values) :=
  ⟨returnsSum_iff memory values, returnsMean_iff memory values⟩

/-- The sum and the mean of the one negative integer -5 are both returned as 2^64 - 5. -/
theorem not_totals_oneNegative :
    ¬ ReturnsSum [⟨.intNeg, .integer 5⟩] (aggregate .zeroed .sum [⟨.intNeg, .integer 5⟩]) ∧
      ¬ ReturnsMean [⟨.intNeg, .integer 5⟩]
        (aggregate .zeroed .avg [⟨.intNeg, .integer 5⟩]) := by
  have hneg : IsNegative ⟨.intNeg, .integer 5⟩ := by decide
  have hcount : negatives [⟨.intNeg, .integer 5⟩] = 1 := by
    simp [negatives, hneg]
  constructor
  · rw [returnsSum_iff]
    exact fun h => h _ List.mem_cons_self hneg
  · rw [returnsMean_iff, MeanSound, if_pos (by simp [numbers, meaning]), hcount]
    decide

end Otic.Utility
