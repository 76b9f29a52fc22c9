import Otic.Utility.TimeSerie

/-!
# Timestamps in chronological order (`timeSerie.c`)

What `otic_timeserie_shift` owes a caller whose timestamps come in order: the frame
follows them, and only a timestamp before the frame is an error.
-/

namespace Otic.Utility.TimeSerie

variable {r : Rounding}

/-- A timestamp of the series, in ticks. -/
structure InSerie (r : Rounding) (ts : TimeSerie) (timestamp : ℚ) (s : UInt64) : Prop where
  ticks : toStandard r timestamp = .ok s
  start : ts.startTs ≤ s
  last : s < ts.endTs

/-- A call at `s` that follows the timestamps from `ts` to `next`. -/
structure Follows (ts : TimeSerie) (s : UInt64) (ret : UInt8) (next : TimeSerie) : Prop where
  noError : next.error = .noError
  beyond : ret = 1 ↔ ts.currentFrameEnd < s
  advanced : ret = 1 → next.currentFrameStart = ts.currentFrameStart + ts.sampleInterval ∧
    next.currentFrameEnd = ts.currentFrameStart + ts.sampleInterval + ts.sampleInterval - 1
  kept : ret ≠ 1 → ret = 0 ∧ next.currentFrameStart = ts.currentFrameStart ∧
    next.currentFrameEnd = ts.currentFrameEnd

/-- The call stores the error, whatever was stored before, and leaves the frame. -/
def Reported (r : Rounding) (ts : TimeSerie) (timestamp : ℚ) : Prop :=
  ∃ ret next, { ts with error := .noError }.shift r timestamp = .ok (ret, next) ∧
    next.error = .timestampNotInChronologicalOrder ∧
    next.currentFrameStart = ts.currentFrameStart ∧ next.currentFrameEnd = ts.currentFrameEnd

/-- Every timestamp of the series before the current frame is reported. -/
def ReportsEarly (r : Rounding) (ts : TimeSerie) : Prop :=
  ∀ timestamp s, InSerie r ts timestamp s → s < ts.currentFrameStart → Reported r ts timestamp

/-- The calls for the timestamps, one after the other, all follow them. -/
def FollowsInput (r : Rounding) : TimeSerie → List ℚ → Prop
  | ts, [] => ReportsEarly r ts
  | ts, timestamp :: timestamps => ReportsEarly r ts ∧
      ∃ s ret next, toStandard r timestamp = .ok s ∧ ts.shift r timestamp = .ok (ret, next) ∧
        Follows ts s ret next ∧ FollowsInput r next timestamps

/-! ### Timestamps before the frame -/

/-- A timestamp before the frame stores no error: the comparison is the other way round. -/
theorem not_reported_of_early {ts : TimeSerie} {timestamp : ℚ} {s : UInt64}
    (hs : toStandard r timestamp = .ok s) (hearly : s < ts.currentFrameStart) :
    ¬ Reported r ts timestamp := by
  rintro ⟨ret, next, hshift, herror, -, -⟩
  rw [shift_eq hs] at hshift
  have hnot : ¬ s > ts.currentFrameStart := by
    intro h
    rw [gt_iff_lt, UInt64.lt_iff_toNat_lt] at h
    rw [UInt64.lt_iff_toNat_lt] at hearly
    omega
  simp only [if_neg hnot] at hshift
  have hincrement : ({ ts with error := .noError } : TimeSerie).increment.error = .noError := by
    unfold increment
    split <;> rfl
  split at hshift
  · cases hshift
    cases herror
  · split at hshift
    · cases hshift
      cases herror
    · split at hshift
      · cases hshift
        rw [hincrement] at herror
        cases herror
      · cases hshift
        cases herror

theorem reportsEarly_iff {ts : TimeSerie} {startTs : ℚ}
    (hstart : toStandard r startTs = .ok ts.startTs) :
    ReportsEarly r ts ↔ ts.currentFrameStart ≤ ts.startTs ∨ ts.endTs ≤ ts.startTs := by
  constructor
  · intro h
    by_contra hnot
    rw [not_or, UInt64.not_le, UInt64.not_le] at hnot
    exact not_reported_of_early hstart hnot.1
      (h startTs ts.startTs ⟨hstart, UInt64.le_refl _, hnot.2⟩ hnot.1)
  · rintro (h | h)
    · intro timestamp s hin hearly
      exact absurd (UInt64.le_trans h hin.start) (UInt64.not_le.mpr hearly)
    · intro timestamp s hin hearly
      exact absurd (UInt64.le_trans h hin.start) (UInt64.not_le.mpr hin.last)

/-! ### Timestamps in the frame or behind it -/

theorem shift_at_start {ts : TimeSerie} {timestamp : ℚ}
    (hin : InSerie r ts timestamp ts.currentFrameStart)
    (hinterval : ts.sampleInterval ≠ 0) (hframe : ts.currentFrameStart ≤ ts.currentFrameEnd) :
    ts.shift r timestamp = .ok (0, ts) := by
  have hrange : ¬ (ts.startTs > ts.currentFrameStart ∨ ts.endTs ≤ ts.currentFrameStart) := by
    rw [not_or]
    exact ⟨UInt64.not_lt.mpr hin.start, UInt64.not_le.mpr hin.last⟩
  rw [shift_eq hin.ticks, if_neg hrange, if_neg hinterval, if_neg (UInt64.lt_irrefl _),
    if_neg (UInt64.not_lt.mpr hframe)]

theorem shift_after_start {ts : TimeSerie} {timestamp : ℚ} {s : UInt64}
    (hin : InSerie r ts timestamp s)
    (hinterval : ts.sampleInterval ≠ 0) (hs : ts.currentFrameStart < s) :
    ts.shift r timestamp = .ok (0, { ts with error := .timestampNotInChronologicalOrder }) := by
  have hrange : ¬ (ts.startTs > s ∨ ts.endTs ≤ s) := by
    rw [not_or]
    exact ⟨UInt64.not_lt.mpr hin.start, UInt64.not_le.mpr hin.last⟩
  rw [shift_eq hin.ticks, if_neg hrange, if_neg hinterval, if_pos hs]

/-- From the first frame a sequence is followed as long as it stays at its first tick. -/
theorem followsInput_iff {ts : TimeSerie} (hframe : ts.currentFrameStart = ts.startTs)
    (hend : ts.currentFrameStart ≤ ts.currentFrameEnd) (herror : ts.error = .noError)
    (hinterval : ts.sampleInterval ≠ 0) (timestamps : List ℚ)
    (hin : ∀ timestamp ∈ timestamps, ∃ s, InSerie r ts timestamp s) :
    FollowsInput r ts timestamps ↔
      ∀ timestamp ∈ timestamps, toStandard r timestamp = .ok ts.startTs := by
  have hearly : ReportsEarly r ts := by
    intro timestamp s hs hlt
    rw [hframe] at hlt
    exact absurd hs.start (UInt64.not_le.mpr hlt)
  induction timestamps with
  | nil => exact iff_of_true hearly (fun _ h => absurd h List.not_mem_nil)
  | cons timestamp timestamps ih =>
    obtain ⟨s, hs⟩ := hin timestamp List.mem_cons_self
    have ih := ih (fun t ht => hin t (List.mem_cons_of_mem timestamp ht))
    constructor
    · rintro ⟨-, s', ret, next, -, hshift, hfollows, hrest⟩
      have hle := hs.start
      rw [← hframe, UInt64.le_iff_lt_or_eq] at hle
      rcases hle with hlt | heq
      · rw [shift_after_start hs hinterval hlt] at hshift
        cases hshift
        cases hfollows.noError
      · subst heq
        rw [shift_at_start hs hinterval hend] at hshift
        cases hshift
        intro t ht
        rcases List.mem_cons.mp ht with rfl | ht
        · rw [hs.ticks, hframe]
        · exact ih.mp hrest t ht
    · intro hall
      have hfirst := hall timestamp List.mem_cons_self
      have heq : s = ts.currentFrameStart := by
        rw [hs.ticks, ← hframe] at hfirst
        injection hfirst
      subst heq
      have hstay : Follows ts ts.currentFrameStart 0 ts := by
        refine ⟨herror, ?_, fun h => absurd h (by decide), fun _ => ⟨rfl, rfl, rfl⟩⟩
        exact iff_of_false (by decide) (UInt64.not_lt.mpr hend)
      exact ⟨hearly, _, 0, ts, hs.ticks, shift_at_start hs hinterval hend, hstay,
        ih.mpr fun t ht => hall t (List.mem_cons_of_mem timestamp ht)⟩

/-- **Frame shifting.**  The calls follow a sequence of timestamps of the series, in order or
not, exactly if all of them are its first tick; and in whatever state, the timestamps before
the frame are reported only if there are none. -/
theorem shift_follows_iff (r : Rounding) (memory ts₀ : TimeSerie)
    (startTs endTs sampleInterval : ℚ) (fillEmpty : UInt8)
    (hinit : memory.init r startTs endTs fillEmpty sampleInterval = .ok (1, ts₀))
    (hinterval : 1 ≤ ts₀.sampleInterval.toNat)
    (hroom : ts₀.startTs.toNat + ts₀.sampleInterval.toNat ≤ 2 ^ 64) :
    (∀ timestamps : List ℚ, (∀ timestamp ∈ timestamps, ∃ s, InSerie r ts₀ timestamp s) →
      (FollowsInput r ts₀ timestamps ↔
        ∀ timestamp ∈ timestamps, toStandard r timestamp = .ok ts₀.startTs)) ∧
    ∀ (calls : List Call) (ts : TimeSerie), ts₀.run r calls = .ok ts →
      (ReportsEarly r ts ↔ ts.currentFrameStart ≤ ts₀.startTs ∨ ts₀.endTs ≤ ts₀.startTs) := by
  obtain ⟨hstart, hframe, hend, herror, -⟩ := init_eq_one hinit
  obtain ⟨hframed₀, -⟩ := framed_init hinit
  have hne : ts₀.sampleInterval ≠ 0 := by
    intro hzero
    rw [hzero] at hinterval
    exact absurd hinterval (by decide)
  refine ⟨fun timestamps hin => followsInput_iff hframe ?_ herror hne timestamps hin,
    fun calls ts hrun => ?_⟩
  · have h := hframed₀.toNat_frameEnd (by omega) (by rw [hframe]; exact hroom)
    rw [UInt64.le_iff_toNat_le]
    omega
  · have hframed := hframed₀.run calls hrun
    rw [← hframed.startTs, ← hframed.endTs]
    exact reportsEarly_iff (by rw [hframed.startTs]; exact hstart)

/-- A second in ten frames of a second: the start is followed, and the first half is not. -/
theorem shift_follows_second :
    FollowsInput .exact (whole 1 10) [(0 : ℕ), (0 : ℕ)] ∧
      ¬ ReportsEarly .exact (whole 1 10).increment := by
  have hticks : toStandard .exact (0 : ℕ) = .ok 0 := toStandard_natCast (by decide)
  obtain ⟨hfollows, hearly⟩ := shift_follows_iff .exact (whole 1 10) (whole 1 10) (0 : ℕ) (10 : ℕ)
    (1 : ℕ) 1 (init_whole _ (by decide) (by decide) (by decide)) (by decide) (by decide)
  constructor
  · refine (hfollows _ fun timestamp h => ?_).mpr fun timestamp h => ?_
    · rw [List.eq_of_mem_replicate (n := 2) h]
      exact ⟨0, hticks, by decide, by decide⟩
    · rw [List.eq_of_mem_replicate (n := 2) h]
      exact hticks
  · rw [hearly [.increment] _ rfl]
    decide

/-- The second 1 of a series that starts at 0 lies in a frame of two seconds, and is
reported as out of order. -/
theorem not_followsInput_second :
    ¬ FollowsInput .exact (whole 2 10) [(1 : ℕ)] := by
  rintro ⟨-, s, ret, next, -, hshift, hfollows, -⟩
  rw [shift_eq (s := 10000) (toStandard_natCast (by decide))] at hshift
  cases hshift
  exact absurd hfollows.noError (by decide)

end Otic.Utility.TimeSerie
