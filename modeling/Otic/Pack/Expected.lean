import Mathlib.Data.List.Forall2
import Otic.Pack.Names

/-!
# What a reader should get

The rows that a list of accepted calls stands for (`RowsMatch`), and the condition
under which the cached last values do not get in the way (`Faithful`).  The cache
of a sensor holds a truncated or unterminated copy of its first value until the
value is seen to change; a later call whose value agrees with that copy and not
with the first value is written as unmodified, and the reader repeats the first.
-/

namespace Otic.Pack

/-- The calls that returned 1. -/
def acceptedCalls (calls : List Call) (oks : List Bool) : List Call :=
  ((calls.zip oks).filter Prod.snd).map Prod.fst

theorem acceptedCalls_true (calls : List Call) :
    acceptedCalls calls (calls.map fun _ => true) = calls := by
  induction calls with
  | nil => rfl
  | cons c calls ih => exact congrArg (c :: ·) ih

theorem acceptedCalls_cons (c : Call) (calls : List Call) (ok : Bool) (oks : List Bool) :
    acceptedCalls (c :: calls) (ok :: oks) =
      if ok then c :: acceptedCalls calls oks else acceptedCalls calls oks := by
  cases ok <;> rfl

theorem acceptedCalls_oks (limit : Nat) (cs : List Call) (enc : Encoder) :
    acceptedCalls cs (enc.run limit cs).oks = enc.accepted limit cs := by
  induction cs generalizing enc with
  | nil => rfl
  | cons c cs ih =>
    rw [Encoder.accepted, ← ih]
    exact acceptedCalls_cons c cs _ _

/-! ### Rows -/

/-- A value as the reader holds it. -/
def Value.oval : Value → Oval
  | .bool value => if value then .true else .false
  | .intNeg value => .intNeg value
  | .intPos value => .intPos value
  | .double value => .double value
  | .string value => .string (value.bytes ++ [0]) value.size
  | .null => .null

/-- A delivered value is the value of a call, doubles up to `==`. -/
def Value.Delivered (value : Value) (oval : Oval) : Prop :=
  match value with
  | .double dval => ∃ bits, oval = .double bits ∧ SameDouble bits dval
  | _ => oval = value.oval

theorem Value.delivered_oval (value : Value) : value.Delivered value.oval := by
  cases value with
  | double dval => exact ⟨dval, rfl, Or.inl rfl⟩
  | bool value | intNeg value | intPos value | string value | null => rfl

/-- A row is what a call asked for. -/
structure Matches (row : Row) (c : Call) (unit : CStr) : Prop where
  ts : row.ts = some c.tick.val
  name : row.name = c.sensorName.bytes
  unit : row.unit = unit.bytes
  value : c.value.Delivered row.value

/-- The calls for one sensor. -/
def callsOf (calls : List Call) (sensorName : CStr) : List Call :=
  calls.filter fun c => c.sensorName = sensorName

/-- The unit of a sensor is the one its first call gave. -/
def unitOf (calls : List Call) (sensorName : CStr) : CStr :=
  match callsOf calls sensorName with
  | [] => CStr.empty
  | first :: _ => first.unitStr

/-- One row for every call, in order. -/
def RowsMatch (rows : List Row) (calls : List Call) : Prop :=
  List.Forall₂ (fun row c => Matches row c (unitOf calls c.sensorName)) rows calls

/-- The first call for every sensor, in order. -/
def firsts (calls : List Call) : List Call :=
  calls.foldl
    (fun fs c => if c.sensorName ∈ fs.map Call.sensorName then fs else fs ++ [c]) []

/-- The sensor names of some calls, in the order of their first call. -/
def namesOf (calls : List Call) : List CStr := (firsts calls).map Call.sensorName

@[simp] theorem callsOf_nil (sensorName : CStr) : callsOf [] sensorName = [] := rfl

theorem callsOf_concat (calls : List Call) (c : Call) (sensorName : CStr) :
    callsOf (calls ++ [c]) sensorName =
      if c.sensorName = sensorName then callsOf calls sensorName ++ [c]
      else callsOf calls sensorName := by
  rw [callsOf, List.filter_append]
  split <;> rename_i h <;> simp [callsOf, h]

theorem unitOf_append {calls : List Call} {sensorName : CStr} {first : Call} {later : List Call}
    (h : callsOf calls sensorName = first :: later) (more : List Call) :
    unitOf (calls ++ more) sensorName = first.unitStr := by
  have happend : callsOf (calls ++ more) sensorName =
      first :: (later ++ callsOf more sensorName) := by
    rw [callsOf, List.filter_append, ← List.cons_append]
    exact congrArg (· ++ _) h
  rw [unitOf, happend]

@[simp] theorem firsts_nil : firsts [] = [] := rfl

theorem firsts_concat (calls : List Call) (c : Call) :
    firsts (calls ++ [c]) =
      if c.sensorName ∈ (firsts calls).map Call.sensorName then firsts calls
      else firsts calls ++ [c] := by
  simp [firsts]

theorem namesOf_concat (calls : List Call) (c : Call) :
    namesOf (calls ++ [c]) =
      if c.sensorName ∈ namesOf calls then namesOf calls else namesOf calls ++ [c.sensorName] := by
  unfold namesOf
  rw [firsts_concat]
  split <;> simp

/-- More calls add names at the end. -/
theorem namesOf_isPrefix (calls more : List Call) : namesOf calls <+: namesOf (calls ++ more) := by
  induction more using List.reverseRecOn with
  | nil => simp
  | append_singleton more c ih =>
    rw [← List.append_assoc, namesOf_concat]
    split
    · exact ih
    · exact ih.trans (List.prefix_append _ _)

theorem nodup_firsts (calls : List Call) : ((firsts calls).map Call.sensorName).Nodup := by
  induction calls using List.reverseRecOn with
  | nil => simp
  | append_singleton calls c ih =>
    rw [firsts_concat]
    split
    · exact ih
    · rename_i hnew
      simpa [List.nodup_append] using
        ⟨ih, fun f hf heq => hnew (List.mem_map.mpr ⟨f, hf, heq⟩)⟩

theorem mem_firsts_iff (calls : List Call) (sensorName : CStr) :
    sensorName ∈ (firsts calls).map Call.sensorName ↔ callsOf calls sensorName ≠ [] := by
  induction calls using List.reverseRecOn with
  | nil => simp
  | append_singleton calls c ih =>
    rw [firsts_concat, callsOf_concat]
    by_cases hname : c.sensorName = sensorName
    · subst hname
      rw [if_pos rfl]
      split
      · rename_i hknown
        simpa using hknown
      · simp
    · rw [if_neg hname, ← ih]
      split
      · rfl
      · simp [Ne.symm hname]

theorem mem_namesOf {calls : List Call} {sensorName : CStr} :
    sensorName ∈ namesOf calls ↔ ∃ c ∈ calls, c.sensorName = sensorName := by
  rw [namesOf, mem_firsts_iff, Ne, callsOf, List.filter_eq_nil_iff]
  simp

theorem forall₂_imp_mem {α β : Type} {R S : α → β → Prop} {as : List α} {bs : List β}
    (h : List.Forall₂ R as bs) (himp : ∀ a b, b ∈ bs → R a b → S a b) :
    List.Forall₂ S as bs := by
  induction h with
  | nil => exact .nil
  | cons hab _ ih =>
    exact .cons (himp _ _ List.mem_cons_self hab)
      (ih fun a b hb => himp a b (List.mem_cons_of_mem _ hb))

/-- One more row for one more call; the units of the earlier calls stay. -/
theorem RowsMatch.concat {rows : List Row} {calls : List Call} (h : RowsMatch rows calls)
    {row : Row} {c : Call} (hrow : Matches row c (unitOf (calls ++ [c]) c.sensorName)) :
    RowsMatch (rows ++ [row]) (calls ++ [c]) := by
  refine List.rel_append (forall₂_imp_mem h fun a b hb hab => ?_) (.cons hrow .nil)
  obtain ⟨first, later, hcalls⟩ : ∃ first later, callsOf calls b.sensorName = first :: later :=
    List.exists_cons_of_ne_nil (List.ne_nil_of_mem (List.mem_filter.mpr ⟨hb, by simp⟩))
  rw [unitOf_append hcalls]
  rwa [unitOf, hcalls] at hab

theorem not_rowsMatch_of_bad {rows more : List Row} {calls post : List Call} {row : Row} {c : Call}
    (hlength : rows.length = calls.length) (hbad : ∀ unit, ¬ Matches row c unit) :
    ¬ RowsMatch (rows ++ row :: more) (calls ++ c :: post) := by
  intro h
  have hdrop := List.forall₂_drop rows.length h
  rw [List.drop_left, hlength, List.drop_left] at hdrop
  cases hdrop with
  | cons hrow _ => exact hbad _ hrow

/-! ### When rows come out right -/

/-- A call finds its value unmodified in an entry that still holds what the first
call entered. -/
def Call.sees (c : Call) (first : Value) : Bool := c.injection.same first.entered

/-- After the calls `before`, a call for a new sensor finds an index that is not in
use, and one for a known sensor does not mistake the copy of its first value. -/
def FaithfulAt (before : List Call) (c : Call) : Prop :=
  match callsOf before c.sensorName with
  | [] => (firsts before).length < 65536
  | first :: later => (∀ d ∈ later, d.sees first.value = true) → c.sees first.value = true →
      c.value.Delivered first.value.oval

/-- All of the calls are faithful, given those before them. -/
def FaithfulFrom (before calls : List Call) : Prop :=
  ∀ pre c post, calls = pre ++ c :: post → FaithfulAt (before ++ pre) c

/-- All of the calls of a channel are faithful. -/
def Faithful (calls : List Call) : Prop := FaithfulFrom [] calls

theorem faithfulFrom_nil (before : List Call) : FaithfulFrom before [] := by
  intro pre c post h
  simp at h

theorem faithfulFrom_cons (before : List Call) (c : Call) (calls : List Call) :
    FaithfulFrom before (c :: calls) ↔
      FaithfulAt before c ∧ FaithfulFrom (before ++ [c]) calls := by
  constructor
  · intro h
    refine ⟨by simpa using h [] c calls rfl, fun pre d post heq => ?_⟩
    have := h (c :: pre) d post (by rw [heq]; rfl)
    simpa using this
  · rintro ⟨hc, hcalls⟩ pre d post heq
    cases pre with
    | nil =>
      obtain ⟨rfl, rfl⟩ := List.cons.inj heq
      simpa using hc
    | cons e pre =>
      obtain ⟨rfl, rfl⟩ := List.cons.inj heq
      simpa using hcalls pre d post rfl

/-! ### What the copy of a first value hides -/

/-- A value that the inject functions compare equal to an exact copy is the value. -/
theorem delivered_of_same_oval {c : Call} {value : Value}
    (h : c.injection.same value.oval = true) : c.value.Delivered value.oval := by
  unfold Call.injection at h
  cases hc : c.value with
  | bool b =>
    rw [hc] at h
    cases value with
    | bool w =>
      cases b <;> cases w <;>
        first | rfl | simp [Channel.boolInjection, Value.oval, Oval.type] at h
    | intNeg w | intPos w | double w | string w | null =>
      cases b <;> simp [Channel.boolInjection, Value.oval, Oval.type] at h
  | intNeg v =>
    rw [hc] at h
    cases value with
    | bool b => cases b <;> simp [Channel.iNegInjection, Value.oval] at h
    | intNeg w => simpa [Channel.iNegInjection, Value.oval, Value.Delivered] using h
    | intPos w | double w | string w | null => simp [Channel.iNegInjection, Value.oval] at h
  | intPos v =>
    rw [hc] at h
    cases value with
    | bool b => cases b <;> simp [Channel.iInjection, Value.oval] at h
    | intPos w => simpa [Channel.iInjection, Value.oval, Value.Delivered] using h
    | intNeg w | double w | string w | null => simp [Channel.iInjection, Value.oval] at h
  | double v =>
    rw [hc] at h
    cases value with
    | bool b => cases b <;> simp [Channel.dInjection, Value.oval] at h
    | double w => exact ⟨w, rfl, Or.inr h⟩
    | intNeg w | intPos w | string w | null => simp [Channel.dInjection, Value.oval] at h
  | string s =>
    rw [hc] at h
    cases value with
    | bool b => cases b <;> simp [Channel.sInjection, Value.oval] at h
    | string t =>
      simp only [Channel.sInjection, Value.oval, List.append_assoc, List.singleton_append,
        decide_eq_true_eq, Bytes.untilZero_append_zero t.nulFree] at h
      rw [CStr.ext_bytes h]
      rfl
    | intNeg w | intPos w | double w | null => simp [Channel.sInjection, Value.oval] at h
  | null =>
    rw [hc] at h
    cases value with
    | null => rfl
    | bool b => cases b <;> simp [Channel.nInjection, Value.oval, Oval.type] at h
    | intNeg w | intPos w | double w | string w =>
      simp [Channel.nInjection, Value.oval, Oval.type] at h

theorem changed_injection (c : Call) : c.injection.changed = c.value.oval := by
  unfold Call.injection
  cases c.value <;> rfl

end Otic.Pack
