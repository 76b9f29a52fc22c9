import Otic.Utility.Extremes

/-!
# Aggregating anew (`aggregator.c`)

`otic_aggreg_reset` and `otic_aggreg_init` set up an aggregator each in a switch of its
own.  An aggregator that was reset and one that was just initialised are followed side
by side through the same inserts.
-/

namespace Otic.Utility

/-- Two results that no caller can tell apart: NULL has no value. -/
def Value.Same (a b : Value) : Prop :=
  a.type = b.type ∧ (b.type = .null ∨ a.val = b.val)

@[simp] theorem Value.Same.rfl {a : Value} : a.Same a := ⟨by rfl, Or.inr (by rfl)⟩

/-- What `get` returns after inserts, `otic_aggreg_reset` and more inserts. -/
def aggregateAgain (memory : Aggreg) (type : AggregType) (before after : List Value) :
    Option Value := do
  let aggreg ← (memory.init type).insertAll before
  let aggreg ← aggreg.reset.insertAll after
  aggreg.get

/-- Both aggregators return a result, and it is the same. -/
def ReturnsSame (used fresh : Option Value) : Prop :=
  ∃ a b, used = some a ∧ fresh = some b ∧ a.Same b

namespace Aggreg

/-! ### Any aggregator under inserts -/

theorem insert_type {aggreg : Aggreg} (h : aggreg.type ≠ .null) (val : Value) :
    ∃ next, aggreg.insert val = some next ∧ next.type = aggreg.type := by
  cases htype : aggreg.type with
  | null => exact absurd htype h
  | min =>
    refine ⟨_, by rw [insert, htype], ?_⟩
    unfold insertMin
    split <;> (try split) <;> simp [htype]
  | max =>
    refine ⟨_, by rw [insert, htype], ?_⟩
    unfold insertMax
    split <;> (try split) <;> simp [htype]
  | avg =>
    refine ⟨_, by rw [insert, htype], ?_⟩
    unfold insertAvg
    split <;> simp [htype]
  | first =>
    refine ⟨_, by rw [insert, htype], ?_⟩
    unfold insertFirst
    split <;> simp [htype]
  | last => exact ⟨_, by rw [insert, htype], by simp [insertLast, htype]⟩
  | sum =>
    refine ⟨_, by rw [insert, htype], ?_⟩
    unfold insertSum
    split <;> simp [htype]
  | count => exact ⟨_, by rw [insert, htype], by simp [insertCount, setLval, htype]⟩

theorem insertAll_type {aggreg : Aggreg} (h : aggreg.type ≠ .null) (values : List Value) :
    ∃ next, aggreg.insertAll values = some next ∧ next.type = aggreg.type := by
  induction values generalizing aggreg with
  | nil => exact ⟨aggreg, rfl, rfl⟩
  | cons val values ih =>
    obtain ⟨next, hnext, htype⟩ := insert_type h val
    obtain ⟨last, hlast, hkept⟩ := @ih next (by rwa [htype])
    refine ⟨last, ?_, hkept.trans htype⟩
    rw [insertAll, List.foldlM_cons, hnext]
    exact hlast

@[simp] theorem type_reset (aggreg : Aggreg) : aggreg.reset.type = aggreg.type := by
  unfold reset
  simp only [type_setType]
  split <;> rfl

@[simp] theorem type_init (memory : Aggreg) (type : AggregType) :
    (memory.init type).type = type := by
  cases type <;> rfl

/-! ### Side by side -/

/-- The members that the functions of the type read are the same in both. -/
def Alike (used fresh : Aggreg) : Prop :=
  used.type = fresh.type ∧
    match fresh.type with
    | .min | .max => used.dval = fresh.dval
    | .avg => used.dval = fresh.dval ∧ used.counter = fresh.counter
    | .sum => used.dval = fresh.dval ∧ used.value.type = fresh.value.type
    | .first => used.counter = fresh.counter ∧ used.value.Same fresh.value
    | .last => used.value.Same fresh.value
    | .count | .null => False

/-- A relation that every insert into both keeps holds after all of them. -/
theorem insertAll_related {R : Aggreg → Aggreg → Prop}
    (hstep : ∀ used fresh val, R used fresh →
      ∃ used' fresh', used.insert val = some used' ∧ fresh.insert val = some fresh' ∧
        R used' fresh')
    (values : List Value) : ∀ used fresh, R used fresh →
      ∃ used' fresh', used.insertAll values = some used' ∧
        fresh.insertAll values = some fresh' ∧ R used' fresh' := by
  induction values with
  | nil =>
    intro used fresh h
    exact ⟨used, fresh, rfl, rfl, h⟩
  | cons val values ih =>
    intro used fresh h
    obtain ⟨used₁, fresh₁, hused, hfresh, h₁⟩ := hstep used fresh val h
    obtain ⟨used₂, fresh₂, hused₂, hfresh₂, h₂⟩ := ih used₁ fresh₁ h₁
    refine ⟨used₂, fresh₂, ?_, ?_, h₂⟩
    · rw [insertAll, List.foldlM_cons, hused]
      exact hused₂
    · rw [insertAll, List.foldlM_cons, hfresh]
      exact hfresh₂

theorem alike_insertMin {used fresh : Aggreg} (h : used.dval = fresh.dval) (val : Value) :
    (used.insertMin val).dval = (fresh.insertMin val).dval := by
  unfold insertMin
  rw [h]
  split <;> (try split) <;> simp [h]

theorem alike_insertMax {used fresh : Aggreg} (h : used.dval = fresh.dval) (val : Value) :
    (used.insertMax val).dval = (fresh.insertMax val).dval := by
  unfold insertMax
  rw [h]
  split <;> (try split) <;> simp [h]

theorem alike_insertAvg {used fresh : Aggreg} (h : used.dval = fresh.dval)
    (hcounter : used.counter = fresh.counter) (val : Value) :
    (used.insertAvg val).dval = (fresh.insertAvg val).dval ∧
      (used.insertAvg val).counter = (fresh.insertAvg val).counter := by
  unfold insertAvg
  rw [h, hcounter]
  split
  · exact ⟨rfl, rfl⟩
  · exact ⟨rfl, rfl⟩
  · exact ⟨rfl, rfl⟩
  · exact ⟨h, hcounter⟩

theorem alike_insertSum {used fresh : Aggreg} (h : used.dval = fresh.dval)
    (htype : used.value.type = fresh.value.type) (val : Value) :
    (used.insertSum val).dval = (fresh.insertSum val).dval ∧
      (used.insertSum val).value.type = (fresh.insertSum val).value.type := by
  unfold insertSum
  rw [h]
  split
  · exact ⟨rfl, rfl⟩
  · exact ⟨rfl, rfl⟩
  · exact ⟨rfl, rfl⟩
  · exact ⟨h, htype⟩

theorem alike_insertFirst {used fresh : Aggreg} (hcounter : used.counter = fresh.counter)
    (hvalue : used.value.Same fresh.value) (val : Value) :
    (used.insertFirst val).counter = (fresh.insertFirst val).counter ∧
      (used.insertFirst val).value.Same (fresh.insertFirst val).value := by
  unfold insertFirst
  rw [hcounter]
  split
  · exact ⟨hcounter, hvalue⟩
  · exact ⟨rfl, Value.Same.rfl⟩

/-- One insert into both leaves them alike. -/
theorem Alike.insert {used fresh : Aggreg} (val : Value) (h : Alike used fresh) :
    ∃ used' fresh', used.insert val = some used' ∧ fresh.insert val = some fresh' ∧
      Alike used' fresh' := by
  obtain ⟨htype, hmembers⟩ := h
  have hsome : fresh.type ≠ .null := by
    intro hnull
    rw [hnull] at hmembers
    exact hmembers
  obtain ⟨fresh', hfresh, htype'⟩ := insert_type hsome val
  obtain ⟨used', hused, htype''⟩ := insert_type (htype ▸ hsome) val
  refine ⟨used', fresh', hused, hfresh, by rw [htype', htype'', htype], ?_⟩
  rw [htype']
  unfold Aggreg.insert at hused hfresh
  rw [htype] at hused
  cases hf : fresh.type <;> rw [hf] at hmembers hused hfresh <;>
    simp only [Option.some.injEq, reduceCtorEq] at hused hfresh <;> subst hused hfresh
  case min => exact alike_insertMin hmembers val
  case max => exact alike_insertMax hmembers val
  case avg => exact alike_insertAvg hmembers.1 hmembers.2 val
  case first => exact alike_insertFirst hmembers.1 hmembers.2 val
  case last => exact Value.Same.rfl
  case sum => exact alike_insertSum hmembers.1 hmembers.2 val
  case count => exact hmembers

/-- What is alike returns the same. -/
theorem Alike.get {used fresh : Aggreg} (h : Alike used fresh) :
    ReturnsSame used.get fresh.get := by
  obtain ⟨htype, hmembers⟩ := h
  unfold Aggreg.get
  rw [htype]
  cases hf : fresh.type <;> rw [hf] at hmembers
  case null => exact hmembers.elim
  case min => exact ⟨_, _, rfl, rfl, by rw [getMin, getMin, hmembers]; exact Value.Same.rfl⟩
  case max => exact ⟨_, _, rfl, rfl, by rw [getMax, getMax, hmembers]; exact Value.Same.rfl⟩
  case avg =>
    refine ⟨_, _, rfl, rfl, ?_⟩
    rw [getAvg, getAvg, hmembers.1, hmembers.2]
    exact Value.Same.rfl
  case first => exact ⟨_, _, rfl, rfl, hmembers.2⟩
  case last => exact ⟨_, _, rfl, rfl, hmembers⟩
  case sum =>
    refine ⟨_, _, rfl, rfl, ?_⟩
    rw [getSum, getSum, hmembers.1, hmembers.2]
    exact Value.Same.rfl
  case count => exact hmembers.elim

/-- A reset leaves what an initialisation makes, for five of the functions. -/
theorem reset_alike {aggreg : Aggreg} (memory : Aggreg)
    (hcount : aggreg.type ≠ .count) (hlast : aggreg.type ≠ .last) (hnull : aggreg.type ≠ .null) :
    Alike aggreg.reset (memory.init aggreg.type) := by
  refine ⟨by rw [type_reset, type_init], ?_⟩
  rw [type_init]
  unfold reset
  simp only [type_setType]
  cases htype : aggreg.type with
  | min => rfl
  | max => rfl
  | avg => exact ⟨rfl, rfl⟩
  | first => exact ⟨rfl, rfl, Or.inl rfl⟩
  | sum => exact ⟨rfl, rfl⟩
  | last => exact absurd htype hlast
  | count => exact absurd htype hcount
  | null => exact absurd htype hnull

/-- Aggregators that are alike return the same after the same inserts. -/
theorem Alike.returnsSame {used fresh : Aggreg} (h : Alike used fresh) (values : List Value) :
    ReturnsSame (used.insertAll values >>= Aggreg.get)
      (fresh.insertAll values >>= Aggreg.get) := by
  obtain ⟨used', fresh', hused, hfresh, halike⟩ :=
    insertAll_related (fun _ _ val h => h.insert val) values used fresh h
  rw [hused, hfresh]
  exact halike.get

/-! ### COUNT and LAST -/

/-- COUNT after a reset: the type is not set again. -/
def Apart (used fresh : Aggreg) : Prop :=
  used.type = .count ∧ fresh.type = .count ∧
    used.value.type = .null ∧ fresh.value.type = .intPos

theorem Apart.insert {used fresh : Aggreg} (val : Value) (h : Apart used fresh) :
    ∃ used' fresh', used.insert val = some used' ∧ fresh.insert val = some fresh' ∧
      Apart used' fresh' := by
  obtain ⟨hused, hfresh, hnull, hpos⟩ := h
  refine ⟨used.insertCount val, fresh.insertCount val, ?_, ?_, hused, hfresh, hnull, hpos⟩
  · rw [Aggreg.insert, hused]
  · rw [Aggreg.insert, hfresh]

theorem Apart.not_returnsSame {used fresh : Aggreg} (h : Apart used fresh)
    (values : List Value) :
    ¬ ReturnsSame (used.insertAll values >>= Aggreg.get)
      (fresh.insertAll values >>= Aggreg.get) := by
  obtain ⟨used', fresh', hused, hfresh, hu, hf, hnull, hpos⟩ :=
    insertAll_related (fun _ _ val h => h.insert val) values used fresh h
  rw [hused, hfresh]
  rintro ⟨a, b, ha, hb, hsame⟩
  simp only [Option.bind_eq_bind, Option.bind_some, Aggreg.get, hu, hf, Option.some.injEq] at ha hb
  subst ha hb
  have htype := hsame.1
  rw [hnull, hpos] at htype
  cases htype

/-- The first insert into LAST makes any two aggregators alike. -/
theorem last_alike {used fresh : Aggreg} (hused : used.type = .last) (hfresh : fresh.type = .last)
    (val : Value) :
    used.insert val = some (used.insertLast val) ∧
      fresh.insert val = some (fresh.insertLast val) ∧
      Alike (used.insertLast val) (fresh.insertLast val) := by
  refine ⟨by rw [Aggreg.insert, hused], by rw [Aggreg.insert, hfresh], hused.trans hfresh.symm, ?_⟩
  have hkept : (fresh.insertLast val).type = .last := hfresh
  rw [hkept]
  exact Value.Same.rfl

end Aggreg

/-- Where a reset starts over.  COUNT keeps the type NULL from the reset; LAST has no
value of its own in the beginning, but what the memory held. -/
def StartsOver (memory : Aggreg) (after : List Value) : AggregType → Prop
  | .min | .max | .avg | .first | .sum => True
  | .last => after ≠ [] ∨ memory.value.type = .null
  | .count | .null => False

theorem aggregateAgain_eq {memory : Aggreg} {type : AggregType} (h : type ≠ .null)
    (before after : List Value) :
    ∃ aggreg : Aggreg, aggreg.type = type ∧
      aggregateAgain memory type before after = aggreg.reset.insertAll after >>= Aggreg.get := by
  obtain ⟨aggreg, hbefore, htype⟩ :=
    @Aggreg.insertAll_type (memory.init type) (by rwa [Aggreg.type_init]) before
  refine ⟨aggreg, by rw [htype, Aggreg.type_init], ?_⟩
  rw [aggregateAgain, hbefore]
  rfl

/-- LAST after a reset. -/
theorem returnsSame_last (memory : Aggreg) {aggreg : Aggreg} (htype : aggreg.type = .last)
    (after : List Value) :
    ReturnsSame (aggreg.reset.insertAll after >>= Aggreg.get) (aggregate memory .last after) ↔
      after ≠ [] ∨ memory.value.type = .null := by
  have hreset : aggreg.reset.type = .last := by rw [Aggreg.type_reset, htype]
  cases after with
  | nil =>
    have hget : (aggreg.reset.insertAll [] >>= Aggreg.get) = some aggreg.reset.value := by
      simp [Aggreg.insertAll, Aggreg.get, htype]
    have hnull : aggreg.reset.value.type = .null := by
      simp [Aggreg.reset, htype, Aggreg.setType]
    have hfresh : aggregate memory .last [] = some memory.value := rfl
    rw [hget, hfresh]
    constructor
    · rintro ⟨a, b, ha, hb, hsame⟩
      cases ha
      cases hb
      exact Or.inr (hsame.1.symm.trans hnull)
    · rintro (h | h)
      · exact absurd rfl h
      · exact ⟨_, _, rfl, rfl, hnull.trans h.symm, Or.inl h⟩
  | cons val after =>
    obtain ⟨hused, hfresh, halike⟩ :=
      Aggreg.last_alike hreset (Aggreg.type_init memory .last) val
    constructor
    · exact fun _ => Or.inl (List.cons_ne_nil val after)
    · intro _
      have h := halike.returnsSame after
      rw [aggregate, Aggreg.insertAll, Aggreg.insertAll, List.foldlM_cons, List.foldlM_cons,
        hused, hfresh]
      exact h

/-- **Reset.**  After a reset an aggregator returns what a fresh one returns exactly where
it starts over, whatever was inserted before and after. -/
theorem reset_iff (memory memory' : Aggreg) (type : AggregType) (before after : List Value) :
    ReturnsSame (aggregateAgain memory type before after) (aggregate memory' type after) ↔
      StartsOver memory' after type := by
  by_cases hnull : type = .null
  · subst hnull
    refine ⟨?_, False.elim⟩
    rintro ⟨a, b, -, hb, -⟩
    cases after <;> cases hb
  · obtain ⟨aggreg, htype, hagain⟩ := @aggregateAgain_eq memory type hnull before after
    rw [hagain]
    have hfive (hcount : type ≠ .count) (hlast : type ≠ .last) :
        ReturnsSame (aggreg.reset.insertAll after >>= Aggreg.get)
          (aggregate memory' type after) := by
      subst htype
      exact (Aggreg.reset_alike memory' hcount hlast hnull).returnsSame after
    cases type with
    | null => exact absurd rfl hnull
    | last => exact returnsSame_last memory' htype after
    | count =>
      refine ⟨fun h => ?_, False.elim⟩
      have happart : Aggreg.Apart aggreg.reset (memory'.init .count) := by
        refine ⟨by rw [Aggreg.type_reset, htype], rfl, ?_, rfl⟩
        simp [Aggreg.reset, htype, Aggreg.setType, Aggreg.setLval]
      exact happart.not_returnsSame after h
    | _ => exact iff_of_true (hfive (by decide) (by decide)) trivial

/-- The count of nothing is NULL after a reset and the integer 0 after an initialisation. -/
theorem not_returnsSame_count :
    ¬ ReturnsSame (aggregateAgain .zeroed .count [⟨.null, .integer 0⟩] [])
      (aggregate .zeroed .count []) := by
  rintro ⟨a, b, ha, hb, hsame⟩
  cases ha
  cases hb
  exact absurd hsame.1 (by decide)

end Otic.Utility
