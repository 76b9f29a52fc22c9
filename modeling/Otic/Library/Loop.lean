import Mathlib.Data.List.Basic

/-!
# Loops that run until their body says stop

`run body fuel s` iterates a body that may fail and that reports whether to go
on.  The flag of the result tells a loop that stopped by itself (`false`) from
one that was cut off by the fuel (`true`), so that termination is a statement
about the loop and not an assumption about the fuel.

Five rules are enough for a client: a measure (`run_stops`), an invariant
(`run_invariant`), a function of the state (`run_map`), the refinement of a fold over
the items that a loop consumes one by one (`run_refines_foldl`), and for a loop that runs
on for ever a body that never says stop (`run_never_stops`).
-/

namespace Loop

variable {ε σ : Type*}

/-- Run the body until it returns `false`, at most `fuel` times. -/
def run (body : σ → Except ε (Bool × σ)) : (fuel : Nat) → σ → Except ε (Bool × σ)
  | 0, s => .ok (true, s)
  | fuel + 1, s =>
      match body s with
      | .error e => .error e
      | .ok (true, s') => run body fuel s'
      | .ok (false, s') => .ok (false, s')

variable {body : σ → Except ε (Bool × σ)}

theorem run_of_continue {s s' : σ} (h : body s = .ok (true, s')) (fuel : Nat) :
    run body (fuel + 1) s = run body fuel s' := by
  simp only [run, h]

theorem run_of_stop {s s' : σ} (h : body s = .ok (false, s')) (fuel : Nat) :
    run body (fuel + 1) s = .ok (false, s') := by
  simp only [run, h]

theorem run_of_error {s : σ} {e : ε} (h : body s = .error e) (fuel : Nat) :
    run body (fuel + 1) s = .error e := by
  simp only [run, h]

/-- A loop whose body makes some measure smaller whenever it goes on stops by
itself, given fuel above the measure. -/
theorem run_stops (measure : σ → Nat)
    (hdec : ∀ s s', body s = .ok (true, s') → measure s' < measure s) :
    ∀ (fuel : Nat) (s : σ), measure s < fuel →
      ∀ (flag : Bool) (s' : σ), run body fuel s = .ok (flag, s') → flag = false := by
  intro fuel
  induction fuel with
  | zero => intro s hs; omega
  | succ fuel ih =>
    intro s hs flag s' hrun
    cases hbody : body s with
    | error e => simp [run_of_error hbody] at hrun
    | ok result =>
      obtain ⟨go, s₁⟩ := result
      cases go with
      | false =>
        rw [run_of_stop hbody] at hrun
        cases hrun
        rfl
      | true =>
        rw [run_of_continue hbody] at hrun
        have := hdec s s₁ hbody
        exact ih s₁ (by omega) flag s' hrun

/-- A loop whose body never says stop does not stop, whatever the fuel. -/
theorem run_never_stops (hgo : ∀ s s', body s ≠ .ok (false, s')) :
    ∀ (fuel : Nat) (s s' : σ), run body fuel s ≠ .ok (false, s') := by
  intro fuel
  induction fuel with
  | zero =>
    intro s s' hrun
    cases hrun
  | succ fuel ih =>
    intro s s' hrun
    cases hbody : body s with
    | error e => simp [run_of_error hbody] at hrun
    | ok result =>
      obtain ⟨go, s₁⟩ := result
      cases go with
      | false => exact hgo s s₁ hbody
      | true =>
        rw [run_of_continue hbody] at hrun
        exact ih s₁ s' hrun

/-- What every iteration preserves holds at the end. -/
theorem run_invariant (inv : σ → Prop)
    (hstep : ∀ s go s', inv s → body s = .ok (go, s') → inv s') :
    ∀ (fuel : Nat) (s : σ), inv s →
      ∀ (flag : Bool) (s' : σ), run body fuel s = .ok (flag, s') → inv s' := by
  intro fuel
  induction fuel with
  | zero =>
    intro s hs flag s' hrun
    cases hrun
    exact hs
  | succ fuel ih =>
    intro s hs flag s' hrun
    cases hbody : body s with
    | error e => simp [run_of_error hbody] at hrun
    | ok result =>
      obtain ⟨go, s₁⟩ := result
      have hs₁ := hstep s go s₁ hs hbody
      cases go with
      | false =>
        rw [run_of_stop hbody] at hrun
        cases hrun
        exact hs₁
      | true =>
        rw [run_of_continue hbody] at hrun
        exact ih s₁ hs₁ flag s' hrun

/-- A loop in one state is a loop in the image of it, if the body is. -/
theorem run_map {τ : Type*} {body' : τ → Except ε (Bool × τ)} (f : σ → τ) (inv : σ → Prop)
    (hstep : ∀ s go s', inv s → body s = .ok (go, s') → inv s' ∧ body' (f s) = .ok (go, f s')) :
    ∀ (fuel : Nat) (s : σ), inv s → ∀ (flag : Bool) (s' : σ), run body fuel s = .ok (flag, s') →
      run body' fuel (f s) = .ok (flag, f s') := by
  intro fuel
  induction fuel with
  | zero =>
    intro s _ flag s' hrun
    cases hrun
    rfl
  | succ fuel ih =>
    intro s hs flag s' hrun
    cases hbody : body s with
    | error e => simp [run_of_error hbody] at hrun
    | ok result =>
      obtain ⟨go, s₁⟩ := result
      obtain ⟨hs₁, hbody'⟩ := hstep s go s₁ hs hbody
      cases go with
      | false =>
        rw [run_of_stop hbody] at hrun
        cases hrun
        exact run_of_stop hbody' fuel
      | true =>
        rw [run_of_continue hbody] at hrun
        rw [run_of_continue hbody']
        exact ih s₁ hs₁ flag s' hrun

/-- **A loop refines a fold.**  `At items t s` says that the loop stands in
state `s` before `items` with abstract state `t`.  If one iteration moves past
the first item and applies `f`, and the loop stops when nothing is left, then
the whole loop computes the fold of `f`. -/
theorem run_refines_foldl {ι τ : Type*} (f : τ → ι → τ) (At : List ι → τ → σ → Prop)
    (Done : τ → σ → Prop)
    (hstep : ∀ i items t s, At (i :: items) t s →
      ∃ s', body s = .ok (true, s') ∧ At items (f t i) s')
    (hdone : ∀ t s, At [] t s → ∃ s', body s = .ok (false, s') ∧ Done t s') :
    ∀ (items : List ι) (t : τ) (s : σ), At items t s → ∀ fuel, items.length < fuel →
      ∃ s', run body fuel s = .ok (false, s') ∧ Done (items.foldl f t) s' := by
  intro items
  induction items with
  | nil =>
    intro t s hAt fuel hfuel
    obtain ⟨fuel, rfl⟩ : ∃ k, fuel = k + 1 := ⟨fuel - 1, by simp at hfuel; omega⟩
    obtain ⟨s', hbody, hdone'⟩ := hdone t s hAt
    exact ⟨s', run_of_stop hbody fuel, hdone'⟩
  | cons i items ih =>
    intro t s hAt fuel hfuel
    obtain ⟨fuel, rfl⟩ : ∃ k, fuel = k + 1 := ⟨fuel - 1, by simp at hfuel; omega⟩
    obtain ⟨s₁, hbody, hAt₁⟩ := hstep i items t s hAt
    obtain ⟨s', hrun, hdone'⟩ := ih (f t i) s₁ hAt₁ fuel (by simpa using hfuel)
    exact ⟨s', by rw [run_of_continue hbody]; exact hrun, hdone'⟩

/-! ### Loops that are followed from outside -/

/-- From `s` to `s'` by iterations after each of which the loop goes on. -/
inductive Goes (body : σ → Except ε (Bool × σ)) : σ → σ → Prop
  | refl (s : σ) : Goes body s s
  | step {s s₁ s' : σ} (h : body s = .ok (true, s₁)) (rest : Goes body s₁ s') : Goes body s s'

theorem Goes.trans {s s₁ s' : σ} (h : Goes body s s₁) (h' : Goes body s₁ s') :
    Goes body s s' := by
  induction h with
  | refl => exact h'
  | step hbody _ ih => exact .step hbody (ih h')

theorem Goes.single {s s' : σ} (h : body s = .ok (true, s')) : Goes body s s' := .step h (.refl s')

/-- A loop that is followed to where it stops ends there, given fuel above a measure
that every iteration makes smaller. -/
theorem Goes.run {s s₁ s' : σ} (h : Goes body s s₁) (hstop : body s₁ = .ok (false, s'))
    (measure : σ → Nat) (hdec : ∀ s s', body s = .ok (true, s') → measure s' < measure s) :
    ∀ fuel, measure s < fuel → Loop.run body fuel s = .ok (false, s') := by
  induction h with
  | refl s =>
    intro fuel hfuel
    obtain ⟨fuel, rfl⟩ : ∃ k, fuel = k + 1 := ⟨fuel - 1, by omega⟩
    exact run_of_stop hstop fuel
  | step hbody _ ih =>
    intro fuel hfuel
    obtain ⟨fuel, rfl⟩ : ∃ k, fuel = k + 1 := ⟨fuel - 1, by omega⟩
    rw [run_of_continue hbody]
    have := hdec _ _ hbody
    exact ih hstop fuel (by omega)

/-- A run is some iterations and, unless the fuel is used up, one that stops. -/
theorem goes_of_run {fuel : Nat} {s s' : σ} {flag : Bool}
    (h : Loop.run body fuel s = .ok (flag, s')) :
    ∃ s₁, Goes body s s₁ ∧
      ((flag = false ∧ body s₁ = .ok (false, s')) ∨ (flag = true ∧ s₁ = s')) := by
  induction fuel generalizing s with
  | zero =>
    cases h
    exact ⟨s', .refl s', Or.inr ⟨rfl, rfl⟩⟩
  | succ fuel ih =>
    cases hbody : body s with
    | error e => simp [run_of_error hbody] at h
    | ok result =>
      obtain ⟨go, s₁⟩ := result
      cases go with
      | false =>
        rw [run_of_stop hbody] at h
        cases h
        exact ⟨s, .refl s, Or.inl ⟨rfl, hbody⟩⟩
      | true =>
        rw [run_of_continue hbody] at h
        obtain ⟨s₂, hgoes, hend⟩ := ih h
        exact ⟨s₂, .step hbody hgoes, hend⟩

/-- Wherever a loop has got to before it stops, it goes on from there. -/
theorem Goes.continues {s s₁ s' s₂ : σ} (h : Goes body s s₁) (hstop : body s₁ = .ok (false, s'))
    (h₂ : Goes body s s₂) : s₂ = s₁ ∨ ∃ s₃, body s₂ = .ok (true, s₃) := by
  induction h₂ with
  | refl s =>
    cases h with
    | refl => exact Or.inl rfl
    | step hbody _ => exact Or.inr ⟨_, hbody⟩
  | step hbody _ ih =>
    cases h with
    | refl => rw [hstop] at hbody; cases hbody
    | step hbody' hrest =>
      rw [hbody] at hbody'
      cases hbody'
      exact ih hrest

end Loop
