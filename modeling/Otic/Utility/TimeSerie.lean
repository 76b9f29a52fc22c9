import Mathlib.Algebra.Order.Floor.Semiring
import Mathlib.Algebra.Order.Field.Rat
import Mathlib.Data.Rat.Floor
import Mathlib.Tactic.Linarith
import Mathlib.Tactic.NormNum
import Otic.Library.Loop
import Otic.Base

/-!
# The frames of a time series (`timeSerie.c`)

A time series is cut into frames of one length.  `otic_timeserie_shift` follows a
sequence of timestamps from frame to frame, `otic_timeserie_fillNull` and
`otic_timeserie_increment` step through the frames up to a timestamp.  The frames are
counted in ticks of 64 bits; the timestamps of the callers are doubles.
-/

namespace Otic.Utility

def OTIC_TS_MULTIPLICATOR : ℚ := 10000

/-- The double that the literal `0.0001` of the source stands for. -/
def SHORTEST_INTERVAL : ℚ := 7378697629483821 / 2 ^ 66

/-- How a product of doubles is rounded. -/
structure Rounding where
  round : ℚ → ℚ
  mono : Monotone round
  one : round 1 = 1

/-- Products that need no rounding. -/
def Rounding.exact : Rounding := ⟨id, monotone_id, rfl⟩

/-- What the standard leaves undefined here: a double that is too large, or too small,
for the integer it is cast to. -/
inductive Undefined where
  | conversion
deriving DecidableEq, Repr

/-- `otic_timeserie_toStandard`. -/
def toStandard (r : Rounding) (ts : ℚ) : Except Undefined UInt64 :=
  let ticks := r.round (ts * OTIC_TS_MULTIPLICATOR)
  if -1 < ticks ∧ ticks < 2 ^ 64 then .ok (UInt64.ofNat ⌊ticks⌋₊) else .error .conversion

/-- `timeSerie_error_e`. -/
inductive TimeSerieError where
  | noError | timestampNotInChronologicalOrder
deriving DecidableEq, Repr

/-- `timeSerie_t`. -/
structure TimeSerie where
  fillEmpty : UInt8
  sampleInterval : UInt64
  currentFrameStart : UInt64
  currentFrameEnd : UInt64
  startTs : UInt64
  endTs : UInt64
  error : TimeSerieError
deriving DecidableEq, Repr

namespace TimeSerie

variable (r : Rounding)

/-- `otic_timeserie_init` of whatever the memory held. -/
def init (ts : TimeSerie) (startTs endTs : ℚ) (fillEmpty : UInt8) (sampleInterval : ℚ) :
    Except Undefined (UInt8 × TimeSerie) :=
  if sampleInterval < SHORTEST_INTERVAL ∧ fillEmpty = 1 then
    return (0, { ts with sampleInterval := 0 })
  else do
    let interval ← (if sampleInterval < SHORTEST_INTERVAL then .ok 0
      else toStandard r sampleInterval)
    let start ← toStandard r startTs
    let last ← toStandard r endTs
    return (1, {
      fillEmpty, sampleInterval := interval
      currentFrameStart := start, startTs := start, endTs := last
      currentFrameEnd := start + interval - 1
      error := .noError })

/-- `otic_timeserie_increment`. -/
def increment (ts : TimeSerie) : TimeSerie :=
  if ts.sampleInterval = 0 then ts
  else { ts with
    currentFrameStart := ts.currentFrameStart + ts.sampleInterval
    currentFrameEnd := ts.currentFrameStart + ts.sampleInterval + ts.sampleInterval - 1 }

/-- `otic_timeserie_shift`. -/
def shift (ts : TimeSerie) (timestamp : ℚ) : Except Undefined (UInt8 × TimeSerie) := do
  let sTimestamp ← toStandard r timestamp
  if ts.startTs > sTimestamp ∨ ts.endTs ≤ sTimestamp then
    return (0, ts)
  else if ts.sampleInterval = 0 then
    return (1, ts)
  else if sTimestamp > ts.currentFrameStart then
    return (0, { ts with error := .timestampNotInChronologicalOrder })
  else if sTimestamp > ts.currentFrameEnd then
    return (1, ts.increment)
  else
    return (0, ts)

/-- `otic_timeserie_fillNull`. -/
def fillNull (ts : TimeSerie) (timestamp : ℚ) : Except Undefined UInt8 := do
  let sTimestamp ← toStandard r timestamp
  return if ts.currentFrameEnd < sTimestamp then 1 else 0

/-- A call that may move the frame. -/
inductive Call where
  | shift (timestamp : ℚ)
  | increment

/-- One call. -/
def step (ts : TimeSerie) : Call → Except Undefined TimeSerie
  | .shift timestamp => do return (← ts.shift r timestamp).2
  | .increment => .ok ts.increment

/-- One call after the other. -/
def run (ts : TimeSerie) (calls : List Call) : Except Undefined TimeSerie :=
  calls.foldlM (step r) ts

/-- One round of `while (otic_timeserie_fillNull(ts, timestamp)) otic_timeserie_increment(ts)`,
with the increments counted. -/
def fillBody (timestamp : ℚ) (s : ℕ × TimeSerie) :
    Except Undefined (Bool × ℕ × TimeSerie) := do
  if (← s.2.fillNull r timestamp) = 1 then
    return (true, s.1 + 1, s.2.increment)
  else
    return (false, s)

end TimeSerie

/-! ### Conversion -/

theorem toStandard_natCast {n : ℕ} (h : n * 10000 < 2 ^ 64) :
    toStandard .exact n = .ok (UInt64.ofNat (n * 10000)) := by
  have hticks : Rounding.exact.round ((n : ℚ) * OTIC_TS_MULTIPLICATOR) = (n * 10000 : ℕ) := by
    simp [Rounding.exact, OTIC_TS_MULTIPLICATOR]
  have hlow : (-1 : ℚ) < (n * 10000 : ℕ) := by
    have : (0 : ℚ) ≤ (n * 10000 : ℕ) := Nat.cast_nonneg _
    linarith
  have hhigh : ((n * 10000 : ℕ) : ℚ) < 2 ^ 64 := by exact_mod_cast h
  unfold toStandard
  simp only [hticks]
  rw [if_pos ⟨hlow, hhigh⟩, Nat.floor_natCast]

/-- An interval that is not refused has at least one tick. -/
theorem one_le_of_toStandard {r : Rounding} {interval : ℚ} {ticks : UInt64}
    (hlong : ¬ interval < SHORTEST_INTERVAL) (h : toStandard r interval = .ok ticks) :
    1 ≤ ticks.toNat := by
  unfold toStandard at h
  simp only at h
  split at h
  · rename_i hrange
    cases h
    have hproduct : (1 : ℚ) ≤ interval * OTIC_TS_MULTIPLICATOR := by
      rw [not_lt] at hlong
      rw [SHORTEST_INTERVAL] at hlong
      rw [OTIC_TS_MULTIPLICATOR]
      linarith
    have hround : (1 : ℚ) ≤ r.round (interval * OTIC_TS_MULTIPLICATOR) := by
      have := r.mono hproduct
      rwa [r.one] at this
    have hfloor : 1 ≤ ⌊r.round (interval * OTIC_TS_MULTIPLICATOR)⌋₊ := by
      rw [Nat.le_floor_iff (by linarith)]
      exact_mod_cast hround
    have hsmall : ⌊r.round (interval * OTIC_TS_MULTIPLICATOR)⌋₊ < 2 ^ 64 := by
      rw [Nat.floor_lt (by linarith)]
      exact_mod_cast hrange.2
    rw [UInt64.toNat_ofNat', Nat.mod_eq_of_lt hsmall]
    exact hfloor
  · cases h

namespace TimeSerie

variable {r : Rounding}

/-! ### What the calls do -/

theorem shift_eq {ts : TimeSerie} {timestamp : ℚ} {s : UInt64}
    (h : toStandard r timestamp = .ok s) :
    ts.shift r timestamp = .ok (
      if ts.startTs > s ∨ ts.endTs ≤ s then (0, ts)
      else if ts.sampleInterval = 0 then (1, ts)
      else if s > ts.currentFrameStart then
        (0, { ts with error := .timestampNotInChronologicalOrder })
      else if s > ts.currentFrameEnd then (1, ts.increment)
      else (0, ts)) := by
  rw [shift, h]
  simp only [bind, Except.bind]
  repeat' split
  all_goals rfl

theorem fillNull_eq {ts : TimeSerie} {timestamp : ℚ} {t : UInt64}
    (h : toStandard r timestamp = .ok t) :
    ts.fillNull r timestamp = .ok (if ts.currentFrameEnd < t then 1 else 0) := by
  rw [fillNull, h]
  rfl

/-- What an initialisation leaves that was not refused. -/
theorem init_eq_one {memory ts : TimeSerie} {startTs endTs sampleInterval : ℚ} {fillEmpty : UInt8}
    (h : memory.init r startTs endTs fillEmpty sampleInterval = .ok (1, ts)) :
    toStandard r startTs = .ok ts.startTs ∧ ts.currentFrameStart = ts.startTs ∧
      ts.currentFrameEnd = ts.startTs + ts.sampleInterval - 1 ∧ ts.error = .noError ∧
      (fillEmpty = 1 → 1 ≤ ts.sampleInterval.toNat) := by
  unfold init at h
  split at h
  · cases h
  · rename_i hguard
    obtain ⟨interval, hinterval, h⟩ := Except.bind_eq_ok.mp h
    obtain ⟨start, hstart, h⟩ := Except.bind_eq_ok.mp h
    obtain ⟨last, -, h⟩ := Except.bind_eq_ok.mp h
    cases h
    refine ⟨hstart, rfl, rfl, rfl, fun hfill => ?_⟩
    have hlong : ¬ sampleInterval < SHORTEST_INTERVAL := fun hshort => hguard ⟨hshort, hfill⟩
    rw [if_neg hlong] at hinterval
    exact one_le_of_toStandard hlong hinterval

@[simp] theorem sampleInterval_increment (ts : TimeSerie) :
    ts.increment.sampleInterval = ts.sampleInterval := by
  unfold increment
  split <;> rfl

@[simp] theorem startTs_increment (ts : TimeSerie) : ts.increment.startTs = ts.startTs := by
  unfold increment
  split <;> rfl

theorem currentFrameStart_increment {ts : TimeSerie} (h : ts.sampleInterval.toNat ≠ 0) :
    ts.increment.currentFrameStart = ts.currentFrameStart + ts.sampleInterval := by
  have hne : ts.sampleInterval ≠ 0 := by
    intro hzero
    rw [hzero] at h
    exact h rfl
  rw [increment, if_neg hne]

/-- A call moves the frame by one interval or leaves it where it is. -/
theorem step_cases {ts next : TimeSerie} {call : Call} (h : ts.step r call = .ok next) :
    (∃ error, next = { ts with error := error }) ∨ next = ts.increment := by
  cases call with
  | increment =>
    cases h
    exact Or.inr rfl
  | shift timestamp =>
    obtain ⟨out, hout, hnext⟩ := Except.bind_eq_ok.mp h
    cases hnext
    obtain ⟨s, hs, -⟩ := Except.bind_eq_ok.mp hout
    rw [shift_eq hs] at hout
    cases hout
    split
    · exact Or.inl ⟨ts.error, rfl⟩
    · split
      · exact Or.inl ⟨ts.error, rfl⟩
      · split
        · exact Or.inl ⟨_, rfl⟩
        · split
          · exact Or.inr rfl
          · exact Or.inl ⟨ts.error, rfl⟩

/-! ### The frames of a run -/

/-- What initialisation fixes, and the length of the frame. -/
structure Framed (ts₀ ts : TimeSerie) : Prop where
  startTs : ts.startTs = ts₀.startTs
  endTs : ts.endTs = ts₀.endTs
  sampleInterval : ts.sampleInterval = ts₀.sampleInterval
  frameEnd : ts.currentFrameEnd = ts.currentFrameStart + ts₀.sampleInterval - 1

theorem Framed.increment {ts₀ ts : TimeSerie} (h : Framed ts₀ ts) : Framed ts₀ ts.increment := by
  unfold TimeSerie.increment
  split
  · exact h
  · exact ⟨h.startTs, h.endTs, h.sampleInterval, by simp only [h.sampleInterval]⟩

theorem Framed.step {ts₀ ts next : TimeSerie} {call : Call} (h : Framed ts₀ ts)
    (hstep : ts.step r call = .ok next) : Framed ts₀ next := by
  rcases step_cases hstep with ⟨error, rfl⟩ | rfl
  · exact ⟨h.startTs, h.endTs, h.sampleInterval, h.frameEnd⟩
  · exact h.increment

theorem Framed.run {ts₀ : TimeSerie} (calls : List Call) :
    ∀ {ts last : TimeSerie}, Framed ts₀ ts → ts.run r calls = .ok last → Framed ts₀ last := by
  induction calls with
  | nil =>
    intro ts last h hrun
    cases hrun
    exact h
  | cons call calls ih =>
    intro ts last h hrun
    rw [TimeSerie.run, List.foldlM_cons] at hrun
    obtain ⟨next, hnext, hrun⟩ := Except.bind_eq_ok.mp hrun
    exact ih (h.step hnext) hrun

/-- No call of the run moved the frame backwards: no bound has passed 2^64. -/
def Forward (r : Rounding) : TimeSerie → List Call → Prop
  | _, [] => True
  | ts, call :: calls => ∀ next, ts.step r call = .ok next →
      ts.currentFrameStart ≤ next.currentFrameStart ∧ Forward r next calls

/-- The frame starts a whole number of intervals behind the first one. -/
def OnGrid (ts : TimeSerie) : Prop :=
  ts.startTs ≤ ts.currentFrameStart ∧
    ts.sampleInterval.toNat ∣ ts.currentFrameStart.toNat - ts.startTs.toNat

theorem toNat_increment {ts : TimeSerie} (h : ts.sampleInterval.toNat ≠ 0)
    (hroom : ts.currentFrameStart.toNat + ts.sampleInterval.toNat < 2 ^ 64) :
    ts.increment.currentFrameStart.toNat =
      ts.currentFrameStart.toNat + ts.sampleInterval.toNat := by
  rw [currentFrameStart_increment h, UInt64.toNat_add, Nat.mod_eq_of_lt hroom]

/-- An increment that does not move the frame backwards has not passed 2^64. -/
theorem room_of_forward {ts : TimeSerie} (h : ts.sampleInterval.toNat ≠ 0)
    (hforward : ts.currentFrameStart ≤ ts.increment.currentFrameStart) :
    ts.currentFrameStart.toNat + ts.sampleInterval.toNat < 2 ^ 64 := by
  rw [currentFrameStart_increment h, UInt64.le_iff_toNat_le, UInt64.toNat_add] at hforward
  have hstart := ts.currentFrameStart.toNat_lt
  have hinterval := ts.sampleInterval.toNat_lt
  omega

theorem OnGrid.increment {ts : TimeSerie} (h : OnGrid ts) (hne : ts.sampleInterval.toNat ≠ 0)
    (hroom : ts.currentFrameStart.toNat + ts.sampleInterval.toNat < 2 ^ 64) :
    OnGrid ts.increment := by
  obtain ⟨hle, hdvd⟩ := h
  have hstart := toNat_increment hne hroom
  rw [UInt64.le_iff_toNat_le] at hle
  refine ⟨?_, ?_⟩
  · rw [UInt64.le_iff_toNat_le, hstart, startTs_increment]
    omega
  · rw [sampleInterval_increment, hstart, startTs_increment, Nat.sub_add_comm hle]
    exact Nat.dvd_add hdvd (dvd_refl _)

theorem OnGrid.run (calls : List Call) :
    ∀ {ts last : TimeSerie}, OnGrid ts → ts.sampleInterval.toNat ≠ 0 → Forward r ts calls →
      ts.run r calls = .ok last → OnGrid last := by
  induction calls with
  | nil =>
    intro ts last h hne hforward hrun
    cases hrun
    exact h
  | cons call calls ih =>
    intro ts last h hne hforward hrun
    rw [TimeSerie.run, List.foldlM_cons] at hrun
    obtain ⟨next, hnext, hrun⟩ := Except.bind_eq_ok.mp hrun
    obtain ⟨hmoved, hforward⟩ := hforward next hnext
    rcases step_cases hnext with ⟨error, rfl⟩ | rfl
    · exact @ih { ts with error := error } last h hne hforward hrun
    · have hgrid := h.increment hne (room_of_forward hne hmoved)
      exact ih hgrid (by rwa [sampleInterval_increment]) hforward hrun

/-! ### Filling a gap -/

/-- The end of a frame that does not pass 2^64. -/
theorem Framed.toNat_frameEnd {ts₀ ts : TimeSerie} (h : Framed ts₀ ts)
    (hne : ts.sampleInterval.toNat ≠ 0)
    (hroom : ts.currentFrameStart.toNat + ts.sampleInterval.toNat ≤ 2 ^ 64) :
    ts.currentFrameEnd.toNat + 1 = ts.currentFrameStart.toNat + ts.sampleInterval.toNat := by
  have hone : (1 : UInt64).toNat = 1 := rfl
  rw [h.frameEnd, ← h.sampleInterval, UInt64.toNat_sub, UInt64.toNat_add, hone]
  omega

theorem fillBody_stop {ts : TimeSerie} {target : ℚ} {t : UInt64}
    (ht : toStandard r target = .ok t) (h : t.toNat ≤ ts.currentFrameEnd.toNat) (count : ℕ) :
    fillBody r target (count, ts) = .ok (false, (count, ts)) := by
  have hstop : ¬ ts.currentFrameEnd < t := by
    rw [UInt64.lt_iff_toNat_lt]
    exact Nat.not_lt.mpr h
  rw [fillBody, fillNull_eq ht, if_neg hstop]
  rfl

theorem fillBody_continue {ts : TimeSerie} {target : ℚ} {t : UInt64}
    (ht : toStandard r target = .ok t) (h : ts.currentFrameEnd.toNat < t.toNat) (count : ℕ) :
    fillBody r target (count, ts) = .ok (true, (count + 1, ts.increment)) := by
  rw [fillBody, fillNull_eq ht, if_pos (UInt64.lt_iff_toNat_lt.mpr h)]
  rfl

/-- The loop makes `n` increments to the frame that `t` lies in. -/
theorem fill_run {ts₀ : TimeSerie} {target : ℚ} {t : UInt64} (ht : toStandard r target = .ok t)
    (hne : ts₀.sampleInterval.toNat ≠ 0) (hroom : t.toNat + ts₀.sampleInterval.toNat < 2 ^ 64)
    (n : ℕ) : ∀ (ts : TimeSerie) (count fuel : ℕ), Framed ts₀ ts → ts.currentFrameStart ≤ t →
      (t.toNat - ts.currentFrameStart.toNat) / ts₀.sampleInterval.toNat = n → n < fuel →
      Loop.run (fillBody r target) fuel (count, ts) =
          .ok (false, count + n, TimeSerie.increment^[n] ts) ∧
        (TimeSerie.increment^[n] ts).currentFrameStart.toNat =
          ts.currentFrameStart.toNat + n * ts₀.sampleInterval.toNat ∧
        Framed ts₀ (TimeSerie.increment^[n] ts) ∧
        (OnGrid ts → OnGrid (TimeSerie.increment^[n] ts)) := by
  induction n with
  | zero =>
    intro ts count fuel h hstart hn hfuel
    obtain ⟨fuel, rfl⟩ : ∃ k, fuel = k + 1 := ⟨fuel - 1, by omega⟩
    rw [UInt64.le_iff_toNat_le] at hstart
    have hlt : t.toNat - ts.currentFrameStart.toNat < ts₀.sampleInterval.toNat := by
      rwa [Nat.div_eq_zero_iff_lt (by omega)] at hn
    rw [← h.sampleInterval] at hne hroom hlt
    have hend := h.toNat_frameEnd hne (by omega)
    refine ⟨?_, by simp, h, id⟩
    exact Loop.run_of_stop (fillBody_stop ht (by omega) count) fuel
  | succ n ih =>
    intro ts count fuel h hstart hn hfuel
    obtain ⟨fuel, rfl⟩ : ∃ k, fuel = k + 1 := ⟨fuel - 1, by omega⟩
    rw [UInt64.le_iff_toNat_le] at hstart
    have hge : ts₀.sampleInterval.toNat ≤ t.toNat - ts.currentFrameStart.toNat := by
      by_contra hlt
      rw [Nat.div_eq_of_lt (by omega)] at hn
      omega
    have hinterval := h.sampleInterval
    have hroom' : ts.currentFrameStart.toNat + ts.sampleInterval.toNat < 2 ^ 64 := by
      rw [hinterval]
      omega
    have hne' : ts.sampleInterval.toNat ≠ 0 := by rwa [hinterval]
    have hend := h.toNat_frameEnd hne' hroom'.le
    rw [hinterval] at hend
    have hcontinue := fillBody_continue ht (show ts.currentFrameEnd.toNat < t.toNat by omega) count
    have hmoved := toNat_increment hne' hroom'
    rw [hinterval] at hmoved
    obtain ⟨hrun, hlast, hframed, hgrid⟩ := ih ts.increment (count + 1) fuel h.increment
      (by rw [UInt64.le_iff_toNat_le, hmoved]; omega)
      (by
        rw [Nat.div_eq_sub_div (by omega) hge] at hn
        rw [hmoved, ← Nat.sub_sub]
        omega) (by omega)
    refine ⟨?_, ?_, hframed, fun hOn => hgrid (hOn.increment hne' hroom')⟩
    · rw [Loop.run_of_continue hcontinue, hrun, Function.iterate_succ_apply, Nat.add_right_comm]
      rfl
    · rw [Function.iterate_succ_apply, hlast, hmoved]
      ring

/-- What is left to say of the frame that a target is filled up to. -/
def Covers (ts : TimeSerie) (t : UInt64) : Prop :=
  ts.currentFrameStart ≤ t ∧ t ≤ ts.currentFrameEnd ∧
    ts.currentFrameEnd = ts.currentFrameStart + ts.sampleInterval - 1

/-- The first frame is on the grid of frames. -/
theorem framed_init {memory ts : TimeSerie} {startTs endTs sampleInterval : ℚ} {fillEmpty : UInt8}
    (h : memory.init r startTs endTs fillEmpty sampleInterval = .ok (1, ts)) :
    Framed ts ts ∧ OnGrid ts := by
  obtain ⟨-, hstart, hend, -, -⟩ := init_eq_one h
  refine ⟨⟨rfl, rfl, rfl, by rw [hend, hstart]⟩, ?_⟩
  rw [OnGrid, hstart, Nat.sub_self]
  exact ⟨UInt64.le_refl _, dvd_zero _⟩

/-- **Gap filling** stops in the frame of the target, after one increment for each whole
frame between.  The frame is on the grid of the first one unless a bound has passed 2^64
on the way. -/
theorem fill_stops (r : Rounding) (memory ts₀ : TimeSerie) (startTs endTs sampleInterval : ℚ)
    (hinit : memory.init r startTs endTs 1 sampleInterval = .ok (1, ts₀))
    (calls : List Call) (ts : TimeSerie) (hrun : ts₀.run r calls = .ok ts)
    (target : ℚ) (t : UInt64) (ht : toStandard r target = .ok t)
    (hstart : ts.currentFrameStart ≤ t) (hroom : t.toNat + ts.sampleInterval.toNat < 2 ^ 64) :
    let n := (t.toNat - ts.currentFrameStart.toNat) / ts.sampleInterval.toNat
    (∀ fuel, n < fuel →
        Loop.run (fillBody r target) fuel (0, ts) = .ok (false, n, TimeSerie.increment^[n] ts)) ∧
      Covers (TimeSerie.increment^[n] ts) t ∧
      (Forward r ts₀ calls → OnGrid (TimeSerie.increment^[n] ts)) := by
  intro n
  obtain ⟨-, -, -, -, hlong⟩ := init_eq_one hinit
  obtain ⟨hframed₀, hgrid₀⟩ := framed_init hinit
  have hframed := hframed₀.run calls hrun
  have hne : ts₀.sampleInterval.toNat ≠ 0 := by
    have := hlong rfl
    omega
  have hinterval := hframed.sampleInterval
  rw [hinterval] at hroom
  have hfill (fuel : ℕ) (hfuel : n < fuel) :=
    fill_run ht hne hroom n ts 0 fuel hframed hstart (by rw [← hinterval]) hfuel
  obtain ⟨-, hlast, hlastFramed, hgrid⟩ := hfill (n + 1) (Nat.lt_succ_self n)
  refine ⟨fun fuel hfuel => ?_, ?_, fun hforward => hgrid (hgrid₀.run calls hne hforward hrun)⟩
  · have h := (hfill fuel hfuel).1
    rwa [Nat.zero_add] at h
  · rw [UInt64.le_iff_toNat_le] at hstart
    have hn : n = (t.toNat - ts.currentFrameStart.toNat) / ts₀.sampleInterval.toNat := by
      rw [← hinterval]
    have hlow : n * ts₀.sampleInterval.toNat ≤ t.toNat - ts.currentFrameStart.toNat := by
      rw [hn]
      exact Nat.div_mul_le_self _ _
    have hhigh : t.toNat - ts.currentFrameStart.toNat < (n + 1) * ts₀.sampleInterval.toNat := by
      rw [hn, Nat.mul_comm]
      exact Nat.lt_mul_div_succ _ (by omega)
    rw [Nat.add_mul, Nat.one_mul] at hhigh
    have hlastInterval := hlastFramed.sampleInterval
    have hend := hlastFramed.toNat_frameEnd (by rwa [hlastInterval])
      (by rw [hlastInterval, hlast]; omega)
    rw [hlastInterval] at hend
    refine ⟨?_, ?_, by rw [hlastFramed.frameEnd, hlastInterval]⟩
    · rw [UInt64.le_iff_toNat_le, hlast]
      omega
    · rw [UInt64.le_iff_toNat_le]
      omega

/-- A series of whole seconds, from 0 on. -/
def whole (interval last : ℕ) : TimeSerie where
  fillEmpty := 1
  sampleInterval := UInt64.ofNat (interval * 10000)
  currentFrameStart := 0
  currentFrameEnd := UInt64.ofNat (interval * 10000) - 1
  startTs := 0
  endTs := UInt64.ofNat (last * 10000)
  error := .noError

theorem init_whole (memory : TimeSerie) {interval last : ℕ} (hpos : 1 ≤ interval)
    (hinterval : interval * 10000 < 2 ^ 64) (hlast : last * 10000 < 2 ^ 64) :
    memory.init .exact (0 : ℕ) last 1 interval = .ok (1, whole interval last) := by
  have hlong : ¬ (interval : ℚ) < SHORTEST_INTERVAL := by
    have hone : (1 : ℚ) ≤ interval := by exact_mod_cast hpos
    rw [SHORTEST_INTERVAL]
    linarith
  unfold init
  rw [if_neg (fun h => hlong h.1), if_neg hlong, toStandard_natCast hinterval,
    toStandard_natCast hlast, toStandard_natCast (n := 0) (by decide)]
  simp only [bind, Except.bind, pure, Except.pure]
  have hzero : UInt64.ofNat 0 = 0 := rfl
  rw [whole, Nat.zero_mul, hzero, UInt64.zero_add]

/-- From the second of ten frames of a second to the sixth. -/
theorem fill_stops_seconds :
    Loop.run (fillBody .exact (5 : ℕ)) 5 (0, (whole 1 10).increment) =
        .ok (false, 4, TimeSerie.increment^[4] (whole 1 10).increment) ∧
      Covers (TimeSerie.increment^[4] (whole 1 10).increment) 50000 ∧
      OnGrid (TimeSerie.increment^[4] (whole 1 10).increment) := by
  obtain ⟨hrun, hcovers, hgrid⟩ := fill_stops .exact (whole 1 10) (whole 1 10) (0 : ℕ) (10 : ℕ)
    (1 : ℕ) (init_whole _ (by decide) (by decide) (by decide)) [.increment]
    (whole 1 10).increment rfl (5 : ℕ) 50000 (toStandard_natCast (by decide)) (by decide)
    (by decide)
  refine ⟨hrun 5 (by decide), hcovers, hgrid fun next hnext => ?_⟩
  cases hnext
  exact ⟨by decide, trivial⟩

/-- Frames of 30000 * 2^48 ticks: the third increment passes 2^64 and leads 24464 * 2^48
ticks behind the first frame start. -/
theorem not_always_onGrid :
    ¬ ∀ (r : Rounding) (memory ts₀ : TimeSerie) (startTs endTs sampleInterval : ℚ)
      (calls : List Call) (ts : TimeSerie) (target : ℚ) (t : UInt64),
      memory.init r startTs endTs 1 sampleInterval = .ok (1, ts₀) → ts₀.run r calls = .ok ts →
      toStandard r target = .ok t → ts.currentFrameStart ≤ t →
      t.toNat + ts.sampleInterval.toNat < 2 ^ 64 →
      OnGrid (TimeSerie.increment^[(t.toNat - ts.currentFrameStart.toNat) /
        ts.sampleInterval.toNat] ts) := by
  intro h
  have hgrid := h .exact (whole 1 1) (whole (3 * 2 ^ 48) (6 * 2 ^ 48)) (0 : ℕ) (6 * 2 ^ 48 : ℕ)
    (3 * 2 ^ 48 : ℕ) [.increment, .increment, .increment] _ (3 * 2 ^ 48 : ℕ) (30000 * 2 ^ 48)
    (init_whole _ (by decide) (by decide) (by decide)) rfl (toStandard_natCast (by decide))
    (by decide) (by decide)
  exact absurd hgrid.2 (by decide)

end TimeSerie

end Otic.Utility
