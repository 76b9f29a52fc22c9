import Otic.Pack.Agreement

/-!
# Which calls return 1

`acceptable` computes the accepted calls from the calls alone: their ticks do not go
back, their strings fit the bucket, and name and unit of a new sensor fit a name
record.  While all accepted calls are faithful these are the calls the encoder
accepts (`Agree.accepted`).
-/

namespace Otic.Pack

/-- A tick lies before the clock. -/
def Late (clock : Option Tick) (tick : Tick) : Prop :=
  match clock with
  | none => False
  | some current => tick.val < current.val

instance (clock : Option Tick) (tick : Tick) : Decidable (Late clock tick) := by
  unfold Late
  split <;> infer_instance

/-- A call is accepted, given the clock and the calls accepted before. -/
def Acceptable (limit : Nat) (clock : Option Tick) (before : List Call) (c : Call) : Prop :=
  ¬ Late clock c.tick ∧ c.value.textSize ≤ limit ∧ (callsOf before c.sensorName ≠ [] ∨ c.Fits)

instance (limit : Nat) (clock : Option Tick) (before : List Call) (c : Call) :
    Decidable (Acceptable limit clock before c) := by
  unfold Acceptable
  infer_instance

/-- A call that is not late sets the clock, also if it is rejected for its length. -/
def clockAfter (clock : Option Tick) (c : Call) : Option Tick :=
  if Late clock c.tick then clock else some c.tick

/-- The calls that are accepted after the calls `before`. -/
def acceptable (limit : Nat) : Option Tick → List Call → List Call → List Call
  | _, _, [] => []
  | clock, before, c :: cs =>
      if Acceptable limit clock before c then
        c :: acceptable limit (clockAfter clock c) (before ++ [c]) cs
      else acceptable limit (clockAfter clock c) before cs

/-- The encoder's clock. -/
def Encoder.Clocked (enc : Encoder) (clock : Option Tick) : Prop :=
  enc.timestampCurrent = (clock.map Subtype.val).getD TS_NULL

theorem Encoder.clocked_init : Encoder.init.Clocked none := rfl

theorem Encoder.Clocked.isSome_clock {enc : Encoder} {clock : Option Tick} (h : enc.Clocked clock)
    (tick : Tick) : (enc.clock tick).isSome = true ↔ ¬ Late clock tick := by
  have hnull := Tick.ne_null tick
  unfold Encoder.clock
  rw [h]
  cases clock with
  | none =>
    have hne : ¬ TS_NULL = tick.val := fun heq => hnull heq.symm
    simp [Late, hne]
  | some current =>
    have hset := Tick.ne_null current
    simp only [Option.map_some, Option.getD_some, Late]
    by_cases hsame : current.val = tick.val
    · have hle : ¬ tick.val < current.val := by
        rw [hsame]
        exact UInt64.lt_irrefl _
      rw [if_pos hsame]
      simp [hle]
    · rw [if_neg hsame, if_neg hset]
      by_cases hlate : tick.val < current.val
      · rw [if_pos hlate]
        simp [hlate]
      · rw [if_neg hlate]
        simp [hlate]

/-- A sensor has an entry exactly if a call for it was accepted. -/
theorem Agree.entryFind_isSome {enc : Encoder} {v : View} {calls : List Call}
    (h : Agree enc v calls) (sensorName : CStr) :
    (Channel.entryFind enc.cache sensorName).isSome ↔ callsOf calls sensorName ≠ [] := by
  obtain ⟨slots, hregistered, hall⟩ := h.sensors
  rw [hregistered.entryFind_isSome, ← mem_firsts_iff, hall.slotNames, List.mem_map]
  constructor
  · rintro ⟨first, hfirst, hbytes⟩
    rw [← CStr.ext_bytes hbytes]
    exact List.mem_map_of_mem hfirst
  · intro hmem
    obtain ⟨first, hfirst, rfl⟩ := List.mem_map.mp hmem
    exact ⟨first, hfirst, rfl⟩

/-- **One call** is accepted exactly if it is acceptable. -/
theorem Agree.accepts {enc : Encoder} {v : View} {calls : List Call} (h : Agree enc v calls)
    {clock : Option Tick} (hclock : enc.Clocked clock) (limit : Nat) (c : Call) :
    ((enc.inject limit c).ok = true ↔ Acceptable limit clock calls c) ∧
      (enc.inject limit c).encoder.Clocked (clockAfter clock c) := by
  have hsome := hclock.isSome_clock c.tick
  have hknown := h.entryFind_isSome c.sensorName
  unfold Encoder.inject Acceptable clockAfter
  cases htick : enc.clock c.tick with
  | none =>
    rw [htick] at hsome
    have hlate : Late clock c.tick := by
      by_contra hnot
      exact absurd (hsome.mpr hnot) (by decide)
    rw [if_pos hlate]
    exact ⟨by simp [hlate], hclock⟩
  | some records =>
    rw [htick] at hsome
    have hlate : ¬ Late clock c.tick := hsome.mp rfl
    rw [if_neg hlate]
    dsimp only
    by_cases hlong : limit < c.value.textSize
    · rw [if_pos hlong]
      exact ⟨by simp [hlong], rfl⟩
    · rw [if_neg hlong]
      have hshort : c.value.textSize ≤ limit := by omega
      unfold Encoder.row
      cases hentry : Channel.entryFind enc.cache c.sensorName with
      | none =>
        rw [hentry] at hknown
        have hnew : callsOf calls c.sensorName = [] := by
          by_contra hne
          exact absurd (hknown.mpr hne) (by decide)
        dsimp only
        unfold Encoder.newRow
        by_cases hfits : c.Fits
        · rw [dif_pos hfits]
          exact ⟨by simp [hlate, hshort, hfits], rfl⟩
        · rw [dif_neg hfits]
          exact ⟨by simp [hnew, hfits], rfl⟩
      | some entry =>
        rw [hentry] at hknown
        have hold : callsOf calls c.sensorName ≠ [] := hknown.mp rfl
        dsimp only
        refine ⟨by simp [hlate, hshort, hold], ?_⟩
        unfold Encoder.knownRow
        split <;> rfl

/-- **The accepted calls** of a run can be told from the calls, up to the first one that
is not faithful. -/
theorem Agree.accepted {limit : Nat} (cs : List Call) : ∀ {enc : Encoder} {v : View}
    {calls : List Call} {clock : Option Tick}, Agree enc v calls → enc.Clocked clock →
      (FaithfulFrom calls (enc.accepted limit cs) ↔
          FaithfulFrom calls (acceptable limit clock calls cs)) ∧
        (FaithfulFrom calls (acceptable limit clock calls cs) →
          enc.accepted limit cs = acceptable limit clock calls cs) := by
  induction cs with
  | nil => exact fun _ _ => ⟨Iff.rfl, fun _ => rfl⟩
  | cons c cs ih =>
    intro enc v calls clock h hclock
    obtain ⟨hrejected, haccepted⟩ := h.inject limit c
    obtain ⟨hok, hclock'⟩ := h.accepts hclock limit c
    simp only [Encoder.accepted, acceptable]
    by_cases hc : Acceptable limit clock calls c
    · have hc' := hok.mpr hc
      rw [if_pos hc, if_pos hc', faithfulFrom_cons, faithfulFrom_cons]
      by_cases hf : FaithfulAt calls c
      · obtain ⟨hiff, heq⟩ := ih ((haccepted hc').1 hf) hclock'
        constructor
        · rw [hiff]
        · intro hlater
          rw [heq hlater.2]
      · constructor
        · constructor <;> exact fun hlater => absurd hlater.1 hf
        · exact fun hlater => absurd hlater.1 hf
    · have hc' : (enc.inject limit c).ok = false := by
        rw [← Bool.not_eq_true]
        exact mt hok.mp hc
      rw [if_neg hc, if_neg (by rw [hc']; decide)]
      exact ih (hrejected hc') hclock'

end Otic.Pack
