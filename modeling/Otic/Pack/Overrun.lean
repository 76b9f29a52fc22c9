import Otic.Pack.Room

/-!
# Arrays and raw buffers in the bucket

`inject_b` and `inject_array` write their row wherever `top` is after the timestamp, of
whatever length it is, and `inject_array` does not flush after it.  `contained_iff` says
exactly when such a call stays inside the bucket and below the threshold, from any fill
level.
-/

namespace Otic.Pack

variable {zstd : Zstd} {h : Handle}

/-- What a call that returns 1 should come to: nothing is written past the end of the
bucket, and if no flush fails `top` is at most at the threshold. -/
def Contained (zstd : Zstd) (c : AnyCall) (h : Handle) : Prop :=
  let out := c.inject zstd h
  out.1 = true → out.2.channel.overrun = false ∧
    (out.2.channel.failures = h.channel.failures →
      out.2.channel.pending.length ≤ out.2.channel.threshold)

/-- The bytes in the bucket with a timestamp after them. -/
def Handle.stampedBytes (h : Handle) (tick : UInt64) : List UInt8 :=
  h.channel.pending ++ h.channel.encoder.stamp tick

/-- A timestamp record takes the bucket over its threshold, so that it is flushed. -/
def Handle.StampFlushes (h : Handle) (tick : UInt64) : Prop :=
  h.channel.encoder.stamp tick ≠ [] ∧ h.channel.threshold < (h.stampedBytes tick).length

instance (h : Handle) (tick : UInt64) : Decidable (h.StampFlushes tick) := by
  unfold Handle.StampFlushes
  infer_instance

/-- How full the bucket is after a timestamp. -/
def Handle.filled (zstd : Zstd) (h : Handle) (tick : UInt64) : Nat :=
  if h.StampFlushes tick ∧ h.takes zstd (h.stampedBytes tick) = true then 0
  else (h.stampedBytes tick).length

/-- How far a row may reach: to the end of the bucket, or after an array to the
threshold, unless the flush of the timestamp failed. -/
def AnyCall.reach (zstd : Zstd) (c : AnyCall) (h : Handle) : Nat :=
  if c.flushes = true ∨ (h.StampFlushes c.tick ∧ h.takes zstd (h.stampedBytes c.tick) = false) then
    h.channel.base.cacheSize.toNat
  else h.channel.threshold

/-- The timestamp ends inside the bucket, and the row within its reach. -/
def AnyCall.RowFits (zstd : Zstd) (c : AnyCall) (h : Handle) : Prop :=
  h.channel.encoder.clock c.tick ≠ none →
    ∀ enc bytes, c.row { h.channel.encoder with timestampCurrent := c.tick } = some (enc, bytes) →
      (h.stampedBytes c.tick).length ≤ h.channel.base.cacheSize.toNat ∧
        h.filled zstd c.tick + bytes.length ≤ c.reach zstd h

/-! ### After the timestamp -/

theorem stamp_eq_nil {enc : Encoder} {tick : UInt64} (hclock : enc.clock tick ≠ none) :
    enc.stamp tick = [] ↔ enc.timestampCurrent = tick := by
  unfold Encoder.stamp
  unfold Encoder.clock at hclock ⊢
  by_cases hsame : enc.timestampCurrent = tick
  · simp [hsame]
  · simp only [if_neg hsame] at hclock ⊢
    by_cases hnull : enc.timestampCurrent = TS_NULL
    · have hne : ¬ TS_NULL = tick := fun heq => hsame (hnull.trans heq)
      simp [hnull, hne, Record.encode]
    · simp only [if_neg hnull] at hclock ⊢
      by_cases hlate : tick < enc.timestampCurrent
      · simp [hlate] at hclock
      · simp [hlate, hsame, Record.encode]

/-- What the timestamp does to the bucket. -/
structure StampedAs (zstd : Zstd) (h : Handle) (tick : UInt64) (h' : Handle) : Prop where
  filled : h'.channel.pending.length = h.filled zstd tick
  inside : h'.channel.overrun = false ↔
    h.channel.overrun = false ∧ (h.channel.encoder.stamp tick = [] ∨
      (h.stampedBytes tick).length ≤ h.channel.base.cacheSize.toNat)
  failures : h'.channel.failures = h.channel.failures ↔
    ¬ (h.StampFlushes tick ∧ h.takes zstd (h.stampedBytes tick) = false)

theorem stampedAs_stamped {tick : UInt64} (hclock : h.channel.encoder.clock tick ≠ none) :
    StampedAs zstd h tick (h.stamped zstd tick) := by
  have hnil := stamp_eq_nil hclock
  have hcurrent : h.channel.encoder.timestampCurrent = h.channel.base.timestampCurrent := rfl
  unfold Handle.stamped
  split
  · rename_i hsame
    have hstamp : h.channel.encoder.stamp tick = [] := hnil.mpr hsame
    have hflushes : ¬ h.StampFlushes tick := fun hflushes => hflushes.1 hstamp
    exact ⟨by simp [Handle.filled, hflushes, Handle.stampedBytes, hstamp],
      by simp [hstamp], by simp [hflushes]⟩
  · rename_i hset
    have hstamp : h.channel.encoder.stamp tick ≠ [] := mt hnil.mp hset
    let ch := (h.channel.clocked tick).put (h.channel.encoder.stamp tick)
    have hpending : ch.pending = h.stampedBytes tick := rfl
    have hinside : ch.overrun = false ↔ h.channel.overrun = false ∧
        (h.channel.encoder.stamp tick = [] ∨
          (h.stampedBytes tick).length ≤ h.channel.base.cacheSize.toNat) := by
      simp [ch, Channel.put, Channel.clocked, Handle.stampedBytes, hstamp]
    have hfailures : ch.failures = h.channel.failures := rfl
    unfold Handle.flushIfFlushable
    split
    · rename_i hfull
      have hflushes : h.StampFlushes tick := ⟨hstamp, hfull⟩
      have hflush := @Handle.flush_channelFlush zstd ⟨h.parent, ch⟩
      rcases hout : Handle.channelFlush zstd ⟨h.parent, ch⟩ with ⟨ok, h'⟩
      rw [hout] at hflush
      cases hflush with
      | sent parent htakes hstate =>
        have htakes' : h.takes zstd (h.stampedBytes tick) = true := htakes
        exact ⟨by simp [Handle.filled, hflushes, htakes', Channel.flushed], hinside,
          by simp [htakes', hfailures]⟩
      | failed parent error htakes hstate herror =>
        have htakes' : h.takes zstd (h.stampedBytes tick) = false := htakes
        exact ⟨by simp [Handle.filled, htakes', Channel.stuck, hpending], hinside,
          by simp [htakes', hflushes, hfailures]⟩
    · rename_i hbelow
      have hflushes : ¬ h.StampFlushes tick := fun hflushes => hbelow hflushes.2
      exact ⟨by simp [Handle.filled, hflushes, ← hpending]; rfl, hinside, by simp [hflushes]; rfl⟩

/-! ### After the row -/

theorem AnyCall.textSize_eq_zero {c : AnyCall} (hvalue : ∀ value, c.value ≠ .scalar value) :
    c.textSize = 0 := by
  unfold textSize
  cases hcase : c.value with
  | scalar value => exact absurd hcase (hvalue value)
  | buffer bytes => rfl
  | array aval => rfl

/-- The flush after a row, if there is one, empties a bucket over its threshold. -/
theorem settle_spec (c : AnyCall) (h : Handle) :
    (c.settle zstd h).channel.overrun = h.channel.overrun ∧
      (c.settle zstd h).channel.threshold = h.channel.threshold ∧
      ∃ n ≤ 1, h.channel.Fails (c.settle zstd h).channel n ∧
        (c.flushes = false → n = 0) ∧
        (n = 0 → (c.settle zstd h).channel.pending.length =
          if c.flushes = true ∧ h.channel.threshold < h.channel.pending.length then 0
          else h.channel.pending.length) := by
  unfold AnyCall.settle Handle.flushIfFlushable
  by_cases hflushes : c.flushes = true
  · rw [if_pos hflushes]
    split
    · rename_i hfull
      have hkept := congrArg Shape.threshold (@Handle.kept_channelFlush zstd h).1
      obtain ⟨n, hn, hfails, hok, hempty⟩ := @fails_channelFlush zstd h
      refine ⟨?_, hkept, n, hn, hfails, fun hnot => ?_, fun hzero => ?_⟩
      · have hflush := @Handle.flush_channelFlush zstd h
        rcases hout : h.channelFlush zstd with ⟨ok, h'⟩
        rw [hout] at hflush
        cases hflush <;> rfl
      · rw [hflushes] at hnot
        cases hnot
      · rw [hempty hzero]
        simp [hflushes, hfull, Channel.flushed]
    · rename_i hbelow
      exact ⟨rfl, rfl, 0, by omega, .zero rfl, fun _ => rfl, by simp [hbelow]⟩
  · rw [if_neg hflushes]
    exact ⟨rfl, rfl, 0, by omega, .zero rfl, fun _ => rfl, by simp [hflushes]⟩

/-- The row of a call without a text, written after its timestamp. -/
def AnyCall.rowWritten (zstd : Zstd) (c : AnyCall) (h : Handle) (enc : Encoder)
    (bytes : List UInt8) : Handle :=
  ⟨(h.stamped zstd c.tick).parent, ((h.stamped zstd c.tick).channel.put bytes).install enc⟩

section Row

variable {c : AnyCall} (hclock : h.channel.encoder.clock c.tick ≠ none) (enc : Encoder)
  (bytes : List UInt8)

include hclock

theorem length_rowWritten :
    (c.rowWritten zstd h enc bytes).channel.pending.length =
      h.filled zstd c.tick + bytes.length := by
  have hstamped := @stampedAs_stamped zstd h c.tick hclock
  simp [AnyCall.rowWritten, Channel.put, Channel.install, hstamped.filled]

/-- Timestamp and row are inside the bucket. -/
theorem inside_rowWritten (hinside : h.channel.overrun = false) :
    (c.rowWritten zstd h enc bytes).channel.overrun = false ↔
      (h.stampedBytes c.tick).length ≤ h.channel.base.cacheSize.toNat ∧
        h.filled zstd c.tick + bytes.length ≤ h.channel.base.cacheSize.toNat := by
  have hstamped := @stampedAs_stamped zstd h c.tick hclock
  have hcache : (h.stamped zstd c.tick).channel.base.cacheSize = h.channel.base.cacheSize :=
    congrArg Shape.cacheSize (Handle.kept_stamped h c.tick).1
  have hput : (c.rowWritten zstd h enc bytes).channel.overrun = false ↔
      (h.stamped zstd c.tick).channel.overrun = false ∧
        h.filled zstd c.tick + bytes.length ≤ h.channel.base.cacheSize.toNat := by
    simp [AnyCall.rowWritten, Channel.put, Channel.install, hstamped.filled, hcache]
  rw [hput, hstamped.inside]
  constructor
  · rintro ⟨⟨-, hnil | hle⟩, hrow⟩
    · -- no timestamp was written, and the row lies behind what was there
      have hidle : ¬ h.StampFlushes c.tick := fun hflushes => hflushes.1 hnil
      simp only [Handle.filled, hidle, false_and, if_false] at hrow
      exact ⟨by omega, by simpa [Handle.filled, hidle] using hrow⟩
    · exact ⟨hle, hrow⟩
  · rintro ⟨hle, hrow⟩
    exact ⟨⟨hinside, Or.inr hle⟩, hrow⟩

/-- No flush has failed, neither that of the timestamp nor the last one. -/
theorem steady_settle {n : Nat} (hn : n ≤ 1)
    (hfails : (c.rowWritten zstd h enc bytes).channel.Fails
      (c.settle zstd (c.rowWritten zstd h enc bytes)).channel n) :
    (c.settle zstd (c.rowWritten zstd h enc bytes)).channel.failures = h.channel.failures ↔
      ¬ (h.StampFlushes c.tick ∧ h.takes zstd (h.stampedBytes c.tick) = false) ∧ n = 0 := by
  have hstamped := @stampedAs_stamped zstd h c.tick hclock
  obtain ⟨m, hm, hfails₁, -⟩ := @fails_stamped zstd h c.tick
  have hput : (h.stamped zstd c.tick).channel.Fails (c.rowWritten zstd h enc bytes).channel 0 :=
    .zero rfl
  rw [← hstamped.failures]
  constructor
  · intro heq
    have hzero := ((hfails₁.trans hput).trans hfails).eq_zero (by omega) heq
    obtain rfl : m = 0 := by omega
    exact ⟨hfails₁.steady, by omega⟩
  · rintro ⟨heq, rfl⟩
    exact hfails.steady.trans heq

end Row

/-- **Exactly when an array or a raw buffer stays where it belongs**, in a bucket of at
least 512 bytes and from any fill level. -/
theorem contained_iff {c : AnyCall} (hvalue : ∀ value, c.value ≠ .scalar value)
    (hsize : h.channel.threshold + OTIC_PACK_CACHE_TOP_LIMIT.toNat =
      h.channel.base.cacheSize.toNat) (hinside : h.channel.overrun = false) :
    Contained zstd c h ↔ c.RowFits zstd h := by
  have htext := AnyCall.textSize_eq_zero hvalue
  unfold Contained AnyCall.RowFits
  have hcourse := @AnyCall.course zstd c h
  rcases hout : c.inject zstd h with ⟨ok, h'⟩
  rw [hout] at hcourse
  cases hcourse with
  | late hclock => simp [hclock]
  | long hclock hstamp hlong => omega
  | crowded hclock hstamp hshort hfull =>
    rw [htext, AnyCall.makeRoom_zero] at hfull
    cases hfull
  | unfit hclock hstamp hshort hmade hrow =>
    subst hstamp
    rw [htext, AnyCall.makeRoom_zero] at hmade
    cases hmade
    rw [(Handle.kept_stamped h c.tick).2] at hrow
    simp [hrow]
  | @written h₁ h₂ enc bytes hclock hstamp hshort hmade hrow =>
    subst hstamp
    rw [htext, AnyCall.makeRoom_zero] at hmade
    cases hmade
    rw [(Handle.kept_stamped h c.tick).2] at hrow
    have hwritten : (⟨(h.stamped zstd c.tick).parent,
        ((h.stamped zstd c.tick).channel.put bytes).install enc⟩ : Handle) =
        c.rowWritten zstd h enc bytes := rfl
    simp only [hwritten]
    obtain ⟨hover, hthreshold, n, hn, hfails, hkept, hpending⟩ :=
      @settle_spec zstd c (c.rowWritten zstd h enc bytes)
    have hthreshold' : (c.rowWritten zstd h enc bytes).channel.threshold = h.channel.threshold :=
      congrArg Shape.threshold (Handle.kept_stamped h c.tick).1
    have hlength := @length_rowWritten zstd h c hclock enc bytes
    rw [hthreshold', hlength] at hpending
    simp only [hrow, Option.some.injEq, Prod.mk.injEq, and_imp, forall_apply_eq_imp_iff,
      forall_eq', ne_eq, hclock, not_false_eq_true, forall_const]
    rw [hover, inside_rowWritten hclock enc bytes hinside,
      steady_settle hclock enc bytes hn hfails, hthreshold, hthreshold']
    unfold AnyCall.reach
    by_cases hflushes : c.flushes = true
    · -- after a raw buffer the bucket is flushed
      simp only [hflushes, true_or, if_true, true_and] at hpending ⊢
      refine ⟨fun hfits => hfits.1, fun hfits => ⟨hfits, fun hsteady => ?_⟩⟩
      rw [hpending hsteady.2]
      split <;> omega
    · have hnone := hkept (by simpa using hflushes)
      have hpending' := hpending hnone
      rw [if_neg (fun hboth => hflushes hboth.1)] at hpending'
      by_cases hfailed : h.StampFlushes c.tick ∧ h.takes zstd (h.stampedBytes c.tick) = false
      · rw [if_pos (Or.inr hfailed)]
        exact ⟨fun hfits => hfits.1, fun hfits => ⟨hfits, fun hsteady => absurd hfailed hsteady.1⟩⟩
      · rw [if_neg (by rintro (hboth | hboth); exacts [hflushes hboth, hfailed hboth]), hpending']
        constructor
        · exact fun hfits => ⟨hfits.1.1, hfits.2 ⟨hfailed, hnone⟩⟩
        · rintro ⟨hle, hrow'⟩
          exact ⟨⟨hle, by omega⟩, fun _ => hrow'⟩

/-- A raw buffer of two bytes for a sensor without a name. -/
def twoBytes : AnyCall := ⟨⟨7, seven_lt_TS_NULL⟩, CStr.empty, none, .buffer [1, 2], [], false, 0⟩

theorem contained_iff_twoBytes :
    Contained Zstd.stored twoBytes smallChannel ↔ twoBytes.RowFits Zstd.stored smallChannel :=
  contained_iff (fun value hvalue => by cases hvalue) (by decide) rfl

/-- 600 bytes do not fit a bucket of 512. -/
theorem not_contained_sixHundred :
    ¬ Contained Zstd.stored { twoBytes with value := .buffer (List.replicate 600 0) }
      smallChannel := by
  intro hcontained
  have hinside := (hcontained (by decide +kernel)).1
  revert hinside
  decide +kernel

end Otic.Pack
