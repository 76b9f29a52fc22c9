import Otic.Pack.Lifetime
import Mathlib.Data.Finset.Card

/-!
# Calls that are always faithful

What keeps a value from coming back is told from the calls one by one: integers that do not
fit the copy of the last value, bytes behind the copy of a text, and more names than there
are indices.  Without these the accepted calls are faithful (`Plain.faithful_admitted`).
-/

namespace Otic.Pack

/-- An integer that the copy of the last value holds as it is. -/
def Value.Small : Value → Prop
  | .intPos value | .intNeg value => value.toNat < 2 ^ 32
  | .bool _ | .double _ | .string _ | .null => True

/-- Calls whose names and values are no trouble. -/
structure Plain (calls : List Call) : Prop where
  small : ∀ c ∈ calls, c.value.Small
  clean : ∀ c ∈ calls, Bytes.untilZero c.heap = []
  few : (calls.map Call.sensorName).toFinset.card ≤ 65536

variable {limit : Nat} {calls calls' : List Call}

theorem Plain.sublist (h : Plain calls) (hsublist : calls'.Sublist calls) : Plain calls' where
  small := fun c hc => h.small c (hsublist.subset hc)
  clean := fun c hc => h.clean c (hsublist.subset hc)
  few := by
    refine (Finset.card_le_card fun name hname => ?_).trans h.few
    rw [List.mem_toFinset] at hname ⊢
    exact (hsublist.map Call.sensorName).subset hname

theorem acceptable_sublist (limit : Nat) (calls : List Call) : ∀ (clock : Option Tick)
    (before : List Call), (acceptable limit clock before calls).Sublist calls := by
  induction calls with
  | nil => exact fun _ _ => List.Sublist.slnil
  | cons c calls ih =>
    intro clock before
    rw [acceptable]
    split
    · exact (ih _ _).cons_cons c
    · exact (ih _ _).cons c

/-! ### Copies -/

theorem toUInt32_of_small {value : UInt64} (h : value.toNat < 2 ^ 32) :
    value.toUInt32.toUInt64 = value := by
  apply UInt64.toNat_inj.mp
  rw [UInt32.toNat_toUInt64, UInt64.toNat_toUInt32, Nat.mod_eq_of_lt h]

/-- A copy that is seen as the value of a call stands for it. -/
theorem delivered_of_sees {c : Call} {first : Value} (hfirst : first.Small)
    (hclean : Bytes.untilZero c.heap = []) (hsees : c.sees first = true) :
    c.value.Delivered first.oval := by
  rw [Call.sees, Call.injection] at hsees
  cases hvalue : c.value with
  | bool value =>
    rw [hvalue] at hsees
    have htype := of_decide_eq_true hsees
    cases first with
    | bool value' => cases value <;> cases value' <;> first | exact rfl | cases htype
    | intNeg _ | intPos _ | double _ | string _ | null => cases value <;> cases htype
  | intNeg value =>
    rw [hvalue] at hsees
    cases first with
    | intNeg value' =>
      have heq : value'.toUInt32.toUInt64 = value := beq_iff_eq.mp hsees
      rw [toUInt32_of_small hfirst] at heq
      rw [heq]
      exact rfl
    | bool value' => cases value' <;> cases hsees
    | intPos _ | double _ | string _ | null => cases hsees
  | intPos value =>
    rw [hvalue] at hsees
    cases first with
    | intPos value' =>
      have heq : value'.toUInt32.toUInt64 = value := beq_iff_eq.mp hsees
      rw [toUInt32_of_small hfirst] at heq
      rw [heq]
      exact rfl
    | bool value' => cases value' <;> cases hsees
    | intNeg _ | double _ | string _ | null => cases hsees
  | double value =>
    rw [hvalue] at hsees
    cases first with
    | double value' => exact ⟨value', rfl, Or.inr hsees⟩
    | bool value' => cases value' <;> cases hsees
    | intNeg _ | intPos _ | string _ | null => cases hsees
  | string value =>
    rw [hvalue] at hsees
    cases first with
    | string value' =>
      -- the bytes behind the copy add nothing to it
      have hbytes := of_decide_eq_true hsees
      rw [Bytes.untilZero_append value'.nulFree, hclean, List.append_nil] at hbytes
      rw [CStr.ext_bytes hbytes]
      exact rfl
    | bool value' => cases value' <;> cases hsees
    | intNeg _ | intPos _ | double _ | null => cases hsees
  | null =>
    rw [hvalue] at hsees
    have htype := of_decide_eq_true hsees
    cases first with
    | null => exact rfl
    | bool value' => cases value' <;> cases htype
    | intNeg _ | intPos _ | double _ | string _ => cases htype

/-! ### Names -/

/-- A new name among some calls is one of the names that there are. -/
theorem length_firsts_lt {pre post : List Call} {c : Call}
    (hfew : ((pre ++ c :: post).map Call.sensorName).toFinset.card ≤ 65536)
    (hnew : callsOf pre c.sensorName = []) : (firsts pre).length < 65536 := by
  have hnodup : (c.sensorName :: (firsts pre).map Call.sensorName).Nodup := by
    refine List.nodup_cons.mpr ⟨fun hmem => ?_, nodup_firsts pre⟩
    exact (mem_firsts_iff pre c.sensorName).mp hmem hnew
  have hsubset : (c.sensorName :: (firsts pre).map Call.sensorName).toFinset ⊆
      ((pre ++ c :: post).map Call.sensorName).toFinset := by
    intro name hname
    rw [List.mem_toFinset, List.mem_cons] at hname
    rw [List.mem_toFinset]
    rcases hname with rfl | hname
    · exact List.mem_map_of_mem (List.mem_append_right _ List.mem_cons_self)
    · obtain ⟨d, hd⟩ := List.exists_mem_of_ne_nil _ ((mem_firsts_iff pre name).mp hname)
      obtain ⟨hpre, hsame⟩ := List.mem_filter.mp hd
      rw [← of_decide_eq_true hsame]
      exact List.mem_map_of_mem (List.mem_append_left _ hpre)
  have hcard := Finset.card_le_card hsubset
  rw [List.toFinset_card_of_nodup hnodup, List.length_cons, List.length_map] at hcard
  omega

theorem Plain.faithful (h : Plain calls) : Faithful calls := by
  intro pre c post hcalls
  rw [List.nil_append]
  have hc : c ∈ calls := by
    rw [hcalls]
    exact List.mem_append_right _ List.mem_cons_self
  unfold FaithfulAt
  split
  · rename_i hnew
    have hfew := h.few
    rw [hcalls] at hfew
    exact length_firsts_lt hfew hnew
  · rename_i first later hcallsOf
    have hfirst : first ∈ calls := by
      have hmem : first ∈ callsOf pre c.sensorName := by
        rw [hcallsOf]
        exact List.mem_cons_self
      rw [hcalls]
      exact List.mem_append_left _ (List.mem_filter.mp hmem).1
    exact fun _ => delivered_of_sees (h.small first hfirst) (h.clean c hc)

/-- **Plain calls are faithful**, as far as they are accepted. -/
theorem Plain.faithful_admitted (h : Plain calls) (limit : Nat) :
    Faithful (admitted limit calls) :=
  (h.sublist (acceptable_sublist limit calls none [])).faithful

/-- The calls of an encoder that are accepted. -/
theorem Plain.accepted (h : Plain calls) (limit : Nat) :
    Encoder.init.accepted limit calls = admitted limit calls :=
  ((agree_init blank_init).accepted calls Encoder.clocked_init).2 (h.faithful_admitted limit)

/-- What comes out of a channel for plain calls. -/
theorem Plain.rowsMatch (h : Plain calls) (limit : Nat) :
    RowsMatch (View.init.applyAll (Encoder.init.run limit calls).closed).rows
      (admitted limit calls) := by
  rw [← h.accepted limit]
  exact (rowsMatch_run_iff blank_init).mpr
    ((faithful_accepted_iff limit calls).mpr (h.faithful_admitted limit))

end Otic.Pack
