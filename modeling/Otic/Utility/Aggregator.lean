import Mathlib.Algebra.Order.Field.Rat
import Mathlib.Order.Bounds.Basic
import Mathlib.Tactic.Linarith
import Mathlib.Tactic.NormNum
import Otic.Base

/-!
# The aggregators (`aggregator.c`)

An aggregator is initialised for one of seven functions and then fed values of any
type.  Doubles are taken as exact numbers here, and so is the arithmetic on them; the
integers are those of the source, 64 bits with a magnitude and its sign in the type.
-/

namespace Otic.Utility

def DBL_MAX : ℚ := (2 ^ 53 - 1) * 2 ^ 971
def DBL_MIN : ℚ := 1 / 2 ^ 1022

/-- `otic_aggregType_e`. -/
inductive AggregType where
  | null | min | max | avg | first | last | sum | count
deriving DecidableEq, Repr

/-- `otic_aggregError_e`. -/
inductive AggregError where
  | none
deriving DecidableEq, Repr

/-- The union of `oval_t`, by the member that was stored last. -/
inductive Content where
  | integer (lval : UInt64)
  | real (dval : ℚ)
  | text (block : List UInt8) (size : Nat)
  | elements (aval : List Oval)

/-- `oval_t` with exact doubles. -/
structure Value where
  type : OticType
  val : Content

/-- `val.lval`, of a value whose type says that it holds an integer. -/
def Value.lval (value : Value) : UInt64 :=
  match value.val with
  | .integer lval => lval
  | _ => 0

/-- `val.dval`, of a value whose type says that it holds a double. -/
def Value.dval (value : Value) : ℚ :=
  match value.val with
  | .real dval => dval
  | _ => 0

/-- `otic_aggreg_t`; the pointers `insert` and `get` are those `type` stands for. -/
structure Aggreg where
  error : AggregError
  type : AggregType
  value : Value
  counter : UInt64

namespace Aggreg

/-- `aggreg->value.val.dval`. -/
def dval (aggreg : Aggreg) : ℚ := aggreg.value.dval

/-- `aggreg->value.val.dval = dval`. -/
def setDval (aggreg : Aggreg) (dval : ℚ) : Aggreg :=
  { aggreg with value := { aggreg.value with val := .real dval } }

/-- `aggreg->value.val.lval = lval`. -/
def setLval (aggreg : Aggreg) (lval : UInt64) : Aggreg :=
  { aggreg with value := { aggreg.value with val := .integer lval } }

/-- `aggreg->value.type = type`. -/
def setType (aggreg : Aggreg) (type : OticType) : Aggreg :=
  { aggreg with value := { aggreg.value with type := type } }

/-- `otic_aggreg_reset`. -/
def reset (aggreg : Aggreg) : Aggreg :=
  let aggreg := { aggreg with error := .none }.setType .null
  match aggreg.type with
  | .min => aggreg.setDval DBL_MAX
  | .max => aggreg.setDval DBL_MIN
  | .avg => { aggreg.setDval 0 with counter := 0 }
  | .first => { aggreg with counter := 0 }
  | .sum => aggreg.setDval 0
  | .count => aggreg.setLval 0
  | .last | .null => aggreg

/-- `otic_aggreg_init` of whatever the memory held. -/
def init (aggreg : Aggreg) (type : AggregType) : Aggreg :=
  let aggreg := { aggreg with type := type, error := .none }
  match type with
  | .min => (aggreg.setType .double).setDval DBL_MAX
  | .max => (aggreg.setType .double).setDval DBL_MIN
  | .avg => { (aggreg.setType .null).setDval 0 with counter := 0 }
  | .first => { aggreg.setType .null with counter := 0 }
  | .last => aggreg
  | .sum => (aggreg.setType .null).setDval 0
  | .count => (aggreg.setType .intPos).setLval 0
  | .null => aggreg

/-! ### Insertion -/

/-- `-val->val.lval` as the source computes it: the magnitude is unsigned. -/
def negated (val : Value) : ℚ := (-val.lval).toNat

/-- `otic_aggreg_insert_min`. -/
def insertMin (aggreg : Aggreg) (val : Value) : Aggreg :=
  match val.type with
  | .intPos =>
      if (val.lval.toNat : ℚ) < aggreg.dval then aggreg.setDval val.lval.toNat else aggreg
  | .double => if val.dval < aggreg.dval then aggreg.setDval val.dval else aggreg
  | .intNeg => if negated val < aggreg.dval then aggreg.setDval (negated val) else aggreg
  | _ => aggreg

/-- `otic_aggreg_insert_max`. -/
def insertMax (aggreg : Aggreg) (val : Value) : Aggreg :=
  match val.type with
  | .intPos =>
      if (val.lval.toNat : ℚ) > aggreg.dval then aggreg.setDval val.lval.toNat else aggreg
  | .intNeg => if negated val > aggreg.dval then aggreg.setDval (negated val) else aggreg
  | .double => if val.dval > aggreg.dval then aggreg.setDval val.dval else aggreg
  | _ => aggreg

/-- `otic_aggreg_insert_avg`. -/
def insertAvg (aggreg : Aggreg) (val : Value) : Aggreg :=
  match val.type with
  | .intPos =>
      { aggreg.setDval (aggreg.dval + val.lval.toNat) with counter := aggreg.counter + 1 }
  | .intNeg =>
      { aggreg.setDval (aggreg.dval + negated val) with counter := aggreg.counter + 1 }
  | .double =>
      { aggreg.setDval (aggreg.dval + val.dval) with counter := aggreg.counter + 1 }
  | _ => aggreg

/-- `otic_aggreg_insert_first`. -/
def insertFirst (aggreg : Aggreg) (val : Value) : Aggreg :=
  if aggreg.counter = 1 then aggreg else { aggreg with counter := 1, value := val }

/-- `otic_aggreg_insert_last`. -/
def insertLast (aggreg : Aggreg) (val : Value) : Aggreg := { aggreg with value := val }

/-- `otic_aggreg_insert_sum`. -/
def insertSum (aggreg : Aggreg) (val : Value) : Aggreg :=
  match val.type with
  | .intPos => (aggreg.setDval (aggreg.dval + val.lval.toNat)).setType .double
  | .intNeg => (aggreg.setDval (aggreg.dval + negated val)).setType .double
  | .double => (aggreg.setDval (aggreg.dval + val.dval)).setType .double
  | _ => aggreg

/-- `otic_aggreg_insert_count`. -/
def insertCount (aggreg : Aggreg) (_ : Value) : Aggreg :=
  aggreg.setLval (aggreg.value.lval + 1)

/-- `aggreg->insert(aggreg, val)`; `none` if there is no function to call. -/
def insert (aggreg : Aggreg) (val : Value) : Option Aggreg :=
  match aggreg.type with
  | .null => none
  | .min => some (aggreg.insertMin val)
  | .max => some (aggreg.insertMax val)
  | .avg => some (aggreg.insertAvg val)
  | .first => some (aggreg.insertFirst val)
  | .last => some (aggreg.insertLast val)
  | .sum => some (aggreg.insertSum val)
  | .count => some (aggreg.insertCount val)

/-! ### The result -/

/-- `otic_aggreg_get_min`. -/
def getMin (aggreg : Aggreg) : Value :=
  ⟨if aggreg.dval = DBL_MAX then .null else .double, .real aggreg.dval⟩

/-- `otic_aggreg_get_max`. -/
def getMax (aggreg : Aggreg) : Value :=
  ⟨if aggreg.dval = DBL_MIN then .null else .double, .real aggreg.dval⟩

/-- `otic_aggreg_get_avg`. -/
def getAvg (aggreg : Aggreg) : Value :=
  if aggreg.counter = 0 then ⟨.null, .integer 0⟩
  else ⟨.double, .real (aggreg.dval / aggreg.counter.toNat)⟩

/-- `otic_aggreg_get_sum`. -/
def getSum (aggreg : Aggreg) : Value := ⟨aggreg.value.type, .real aggreg.dval⟩

/-- `aggreg->get(aggreg)`; `otic_aggreg_get_first`, `_last` and `_count` return the value. -/
def get (aggreg : Aggreg) : Option Value :=
  match aggreg.type with
  | .null => none
  | .min => some aggreg.getMin
  | .max => some aggreg.getMax
  | .avg => some aggreg.getAvg
  | .sum => some aggreg.getSum
  | .first | .last | .count => some aggreg.value

/-- One insert after the other. -/
def insertAll (aggreg : Aggreg) (values : List Value) : Option Aggreg :=
  values.foldlM insert aggreg

end Aggreg

/-- What `get` returns after `otic_aggreg_init` and some inserts. -/
def aggregate (memory : Aggreg) (type : AggregType) (values : List Value) : Option Value := do
  let aggreg ← (memory.init type).insertAll values
  aggreg.get

namespace Aggreg

@[simp] theorem dval_setDval (aggreg : Aggreg) (dval : ℚ) : (aggreg.setDval dval).dval = dval := rfl

@[simp] theorem dval_setType (aggreg : Aggreg) (type : OticType) :
    (aggreg.setType type).dval = aggreg.dval := rfl

@[simp] theorem type_setDval (aggreg : Aggreg) (dval : ℚ) :
    (aggreg.setDval dval).type = aggreg.type := rfl

@[simp] theorem type_setType (aggreg : Aggreg) (type : OticType) :
    (aggreg.setType type).type = aggreg.type := rfl

/-- Inserts that keep the type are a fold of its function. -/
theorem insertAll_eq {f : Aggreg → Value → Aggreg} {type : AggregType}
    (hinsert : ∀ aggreg val, aggreg.type = type → aggreg.insert val = some (f aggreg val))
    (htype : ∀ aggreg val, (f aggreg val).type = aggreg.type) (values : List Value) :
    ∀ aggreg : Aggreg, aggreg.type = type →
      aggreg.insertAll values = some (values.foldl f aggreg) ∧
        (values.foldl f aggreg).type = type := by
  induction values with
  | nil => exact fun aggreg h => ⟨rfl, h⟩
  | cons val values ih =>
    intro aggreg h
    have hnext := ih (f aggreg val) ((htype aggreg val).trans h)
    rw [insertAll] at hnext
    rw [insertAll, List.foldlM_cons, hinsert aggreg val h]
    exact hnext

end Aggreg

end Otic.Utility
