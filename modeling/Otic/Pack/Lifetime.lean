import Otic.Pack.Acceptance

/-!
# Channels from their definition to their end

What a channel writes until it is closed, and what a reader makes of it that has read
no rows before: everything comes out right exactly if the accepted calls are faithful
(`rowsMatch_run_iff`), which can be told from the calls (`faithful_accepted_iff`).
-/

namespace Otic.Pack

/-- What a channel writes until it is closed. -/
def Encoder.Outcomes.closed (out : Encoder.Outcomes) : List Record :=
  out.records ++ [.eof out.encoder.rowCounter]

variable {v : View} {limit : Nat} {cs : List Call}

/-- Faithful calls come out right, and the end mark finds the count it expects. -/
theorem rowsMatch_of_faithful (h : Blank v) (hf : Faithful (Encoder.init.accepted limit cs)) :
    RowsMatch (v.applyAll (Encoder.init.run limit cs).closed).rows
        (Encoder.init.accepted limit cs) ∧
      (v.applyAll (Encoder.init.run limit cs).closed).error = .none := by
  have hagree := ((agree_init h).run limit cs).1 hf
  rw [Encoder.Outcomes.closed, View.applyAll_append, View.applyAll_cons, View.applyAll_nil,
    hagree.eof]
  exact ⟨hagree.rows, hagree.quiet⟩

/-- **A channel comes out right** exactly if its accepted calls are faithful. -/
theorem rowsMatch_run_iff (h : Blank v) :
    RowsMatch (v.applyAll (Encoder.init.run limit cs).closed).rows
        (Encoder.init.accepted limit cs) ↔ Faithful (Encoder.init.accepted limit cs) := by
  constructor
  · intro hrows
    by_contra hf
    obtain ⟨more, hmore⟩ :=
      View.rows_isPrefix_applyAll (v.applyAll (Encoder.init.run limit cs).records)
        [.eof (Encoder.init.run limit cs).encoder.rowCounter]
    rw [Encoder.Outcomes.closed, View.applyAll_append, ← hmore] at hrows
    exact ((agree_init h).run limit cs).2 hf more hrows
  · intro hf
    exact (rowsMatch_of_faithful h hf).1

theorem rowCounter_run {enc : Encoder} (h : enc.accepted limit cs = []) :
    (enc.run limit cs).encoder.rowCounter = enc.rowCounter := by
  induction cs generalizing enc with
  | nil => rfl
  | cons c cs ih =>
    simp only [Encoder.accepted] at h
    split at h
    · cases h
    · rename_i hok
      have hcount : (enc.inject limit c).encoder.rowCounter = enc.rowCounter := by
        unfold Encoder.inject at hok ⊢
        split
        · rfl
        · dsimp only at hok ⊢
          split
          · rfl
          · split
            · rfl
            · rename_i hrow
              simp_all
      exact (ih h).trans hcount

/-- A channel all of whose calls were rejected leaves the view as blank as it was. -/
theorem Blank.closed (h : Blank v) (hnone : Encoder.init.accepted limit cs = []) :
    Blank (v.applyAll (Encoder.init.run limit cs).closed) := by
  have hagree := ((agree_init h).run limit cs).1 (by rw [hnone]; exact faithfulFrom_nil [])
  rw [hnone, List.append_nil] at hagree
  rw [Encoder.Outcomes.closed, View.applyAll_append, View.applyAll_cons, View.applyAll_nil,
    hagree.eof]
  obtain ⟨slots, -, hall⟩ := hagree.sensors
  refine ⟨List.length_eq_zero_iff.mp hall.sensorCount, ?_, ?_, hagree.quiet⟩
  · exact List.length_eq_zero_iff.mp hagree.rows.length_eq
  · exact hagree.rowCounter.trans (rowCounter_run hnone)

/-- The calls of a channel that are accepted, told from the calls. -/
def admitted (limit : Nat) (calls : List Call) : List Call := acceptable limit none [] calls

theorem faithful_accepted_iff (limit : Nat) (calls : List Call) :
    Faithful (Encoder.init.accepted limit calls) ↔ Faithful (admitted limit calls) :=
  ((agree_init blank_init).accepted calls Encoder.clocked_init).1

end Otic.Pack
