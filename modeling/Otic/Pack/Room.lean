import Otic.Stored
import Otic.Pack.Course

/-!
# Room in the bucket

The 512 bytes above the threshold are enough for the scalar injects.  As long as no
flush of the channel fails, `top` is at most at the threshold between calls, and a
timestamp record, or the records of a row with the text that was made room for, end
inside the bucket.
-/

namespace Otic.Pack

variable {zstd : Zstd} {h : Handle}

/-! ### Flushes that fail -/

/-- From `ch` to `ch'` this many flushes failed. -/
def Channel.Fails (ch ch' : Channel) (n : Nat) : Prop :=
  ch'.failures = ch.failures + UInt64.ofNat n

theorem Channel.Fails.zero {ch ch' : Channel} (h : ch'.failures = ch.failures) :
    ch.Fails ch' 0 := by
  rw [Fails, h]
  exact (UInt64.add_zero _).symm

theorem Channel.Fails.steady {ch ch' : Channel} (h : ch.Fails ch' 0) :
    ch'.failures = ch.failures :=
  Eq.trans h (UInt64.add_zero _)

theorem Channel.Fails.trans {ch ch₁ ch' : Channel} {m n : Nat} (h : ch.Fails ch₁ m)
    (h' : ch₁.Fails ch' n) : ch.Fails ch' (m + n) := by
  unfold Fails at *
  rw [h', h, UInt64.ofNat_add, UInt64.add_assoc]

/-- The number is told from the counters while it is small. -/
theorem Channel.Fails.eq_zero {ch ch' : Channel} {n : Nat} (h : ch.Fails ch' n)
    (hn : n < 2 ^ 64) (heq : ch'.failures = ch.failures) : n = 0 := by
  unfold Fails at h
  rw [heq] at h
  have hnat := congrArg UInt64.toNat h
  rw [UInt64.toNat_add, UInt64.toNat_ofNat'] at hnat
  have hlt := ch.failures.toNat_lt
  omega

/-! ### Room for records -/

/-- The bucket is at most `extra` bytes over its threshold, with 512 bytes of room
above it, and nothing was ever written past its end. -/
structure Channel.Roomy (extra : Nat) (ch : Channel) : Prop where
  inside : ch.overrun = false
  size : ch.threshold + OTIC_PACK_CACHE_TOP_LIMIT.toNat = ch.base.cacheSize.toNat
  pending : ch.pending.length ≤ ch.threshold + extra

theorem Channel.Roomy.mono {ch : Channel} {k l : Nat} (h : ch.Roomy k) (hkl : k ≤ l) :
    ch.Roomy l :=
  ⟨h.inside, h.size, by have := h.pending; omega⟩

theorem Channel.Roomy.sound {ch : Channel} (h : ch.Roomy 0) : ch.Sound := by
  intro _
  have hsize := h.size
  have hpending := h.pending
  omega

/-- A bucket of at least 512 bytes has its threshold that far below its end. -/
theorem Channel.roomy_init (id channelType : UInt8) {bucketSize : UInt32}
    (h : OTIC_PACK_CACHE_TOP_LIMIT ≤ bucketSize) :
    (Channel.init id channelType bucketSize).Roomy 0 := by
  have hle : OTIC_PACK_CACHE_TOP_LIMIT.toNat ≤ bucketSize.toNat := by
    rwa [UInt32.le_iff_toNat_le] at h
  refine ⟨rfl, ?_, by simp [Channel.init]⟩
  simp only [Channel.init, Base.init]
  rw [UInt32.toNat_sub_of_le _ _ h]
  omega

theorem Channel.Roomy.put {ch : Channel} {j k : Nat} (h : ch.Roomy j) {bytes : List UInt8}
    (hlength : ch.pending.length + bytes.length ≤ ch.threshold + k) (hk : k ≤ 512) :
    (ch.put bytes).Roomy k := by
  have hsize := h.size
  have hlimit : OTIC_PACK_CACHE_TOP_LIMIT.toNat = 512 := rfl
  refine ⟨?_, h.size, by simpa [Channel.put] using hlength⟩
  simp only [Channel.put, h.inside, Bool.false_or, decide_eq_false_iff_not, List.length_append]
  omega

theorem Channel.Roomy.install {ch : Channel} {k : Nat} (h : ch.Roomy k) (enc : Encoder) :
    (ch.install enc).Roomy k := ⟨h.inside, h.size, h.pending⟩

/-- A flush empties the bucket or fails. -/
theorem fails_channelFlush (h : Handle) :
    ∃ n ≤ 1, h.channel.Fails (h.channelFlush zstd).2.channel n ∧
      ((h.channelFlush zstd).1 = true ↔ n = 0) ∧
      (n = 0 → (h.channelFlush zstd).2.channel = h.channel.flushed) := by
  have hflush := @Handle.flush_channelFlush zstd h
  rcases hout : h.channelFlush zstd with ⟨ok, h'⟩
  rw [hout] at hflush
  cases hflush with
  | sent parent htakes hstate =>
    exact ⟨0, by omega, .zero h.channel.failures_flushed, by simp, fun _ => rfl⟩
  | failed parent error htakes hstate herror =>
    exact ⟨1, le_refl 1, h.channel.failures_stuck error, by simp, fun hzero => by cases hzero⟩

theorem Channel.Roomy.flushed {ch : Channel} {k : Nat} (h : ch.Roomy k) : ch.flushed.Roomy 0 :=
  ⟨h.inside, h.size, Nat.zero_le _⟩

theorem fails_flushIfFlushable (h : Handle) (k : Nat) :
    ∃ n ≤ 1, h.channel.Fails (h.flushIfFlushable zstd).channel n ∧
      (n = 0 → h.channel.Roomy k → (h.flushIfFlushable zstd).channel.Roomy 0) := by
  unfold Handle.flushIfFlushable
  split
  · obtain ⟨n, hn, hfails, -, hempty⟩ := @fails_channelFlush zstd h
    refine ⟨n, hn, hfails, fun hzero hroom => ?_⟩
    rw [hempty hzero]
    exact hroom.flushed
  · rename_i hbelow
    exact ⟨0, by omega, .zero rfl, fun _ hroom => ⟨hroom.inside, hroom.size, by omega⟩⟩

theorem length_stamp_le (enc : Encoder) (tick : UInt64) : (enc.stamp tick).length ≤ 11 := by
  have hset := length_encode_le (.setTimestamp tick)
  have hshift := length_encode_le (.shiftTimestamp (tick - enc.timestampCurrent))
  unfold Encoder.stamp Encoder.clock
  dsimp only at hset hshift
  split_ifs <;> simp <;> assumption

/-- A timestamp record fits over the threshold. -/
theorem fails_stamped (h : Handle) (tick : UInt64) :
    ∃ n ≤ 1, h.channel.Fails (h.stamped zstd tick).channel n ∧
      (n = 0 → h.channel.Roomy 0 → (h.stamped zstd tick).channel.Roomy 0) := by
  unfold Handle.stamped
  split
  · exact ⟨0, by omega, .zero rfl, fun _ hroom => hroom⟩
  · obtain ⟨n, hn, hfails, hempty⟩ := @fails_flushIfFlushable zstd
      ⟨h.parent, (h.channel.clocked tick).put (h.channel.encoder.stamp tick)⟩ 11
    refine ⟨n, hn, hfails, fun hzero hroom => hempty hzero ?_⟩
    have hclocked : (h.channel.clocked tick).Roomy 0 := ⟨hroom.inside, hroom.size, hroom.pending⟩
    have hlength := length_stamp_le h.channel.encoder tick
    have hbelow := hclocked.pending
    exact hclocked.put (by omega) (by omega)

theorem fails_makeRoom (h : Handle) (textSize : Nat) :
    ∃ n ≤ 1, h.channel.Fails (h.makeRoom zstd textSize).2.channel n ∧
      ((h.makeRoom zstd textSize).1 = true ↔ n = 0) ∧
      (n = 0 → h.channel.Roomy 0 → textSize ≤ h.channel.threshold →
        (h.makeRoom zstd textSize).2.channel.Roomy 0 ∧
        (h.makeRoom zstd textSize).2.channel.pending.length + textSize ≤
          (h.makeRoom zstd textSize).2.channel.threshold) := by
  unfold Handle.makeRoom
  split
  · obtain ⟨n, hn, hfails, hok, hempty⟩ := @fails_channelFlush zstd h
    refine ⟨n, hn, hfails, hok, fun hzero hroom hshort => ?_⟩
    rw [hempty hzero]
    refine ⟨hroom.flushed, ?_⟩
    simpa [Channel.flushed] using hshort
  · rename_i hspace
    refine ⟨0, by omega, .zero rfl, by simp, fun _ hroom _ => ⟨hroom, ?_⟩⟩
    have hbelow := hroom.pending
    dsimp only
    omega

/-- While the flusher takes everything and every block is compressed, no flush fails. -/
theorem Sends.steady {h' : Handle} {held held' records : List Record} {sent : List Sent}
    (hsends : Sends zstd h held records sent h' held') (hwilling : Willing h.parent.answers)
    (hpacked : h.Packed zstd h') : h'.channel.failures = h.channel.failures := by
  obtain ⟨-, hcctx⟩ := (hsends.willing hwilling).2 hpacked
  simp only [Channel.failures, hcctx, hsends.blocksWritten, List.length_append, List.length_map,
    UInt64.ofNat_add]
  grind

/-! ### Scalars -/

theorem Encoder.row_any (enc : Encoder) (c : Call) :
    c.any.row enc = (enc.row c).map fun out => (out.1, encodeAll out.2) := by
  have hname : c.any.sensorName = c.sensorName := rfl
  unfold AnyCall.row Encoder.row
  rw [hname]
  cases Channel.entryFind enc.cache c.sensorName with
  | none =>
    have hiff : c.any.Fits ↔ c.Fits := Iff.rfl
    by_cases hfits : c.Fits
    · have hfits' := hiff.mpr hfits
      simp only [AnyCall.newRow, newRow, dif_pos hfits, dif_pos hfits', Option.map_some,
        encodeAll_cons, encodeAll_nil, List.append_nil]
      rfl
    · have hfits' := mt hiff.mp hfits
      simp only [AnyCall.newRow, newRow, dif_neg hfits, dif_neg hfits', Option.map_none]
  | some entry =>
    have hinjection : c.any.injection = c.injection := rfl
    simp only [AnyCall.knownRow, knownRow, hinjection, Option.map_some]
    split <;> simp [AnyCall.payload, Call.any]

/-- **A scalar inject** leaves the bucket as it found it, as long as no flush fails. -/
theorem roomy_inject (c : Call) (hroom : h.channel.Roomy 0)
    (hsteady : (c.inject zstd h).2.channel.failures = h.channel.failures) :
    (c.inject zstd h).2.channel.Roomy 0 := by
  have hcourse := @AnyCall.course zstd c.any h
  rw [Call.inject_any] at hcourse
  rcases hout : c.inject zstd h with ⟨ok, h'⟩
  rw [hout] at hcourse hsteady
  obtain ⟨n₁, hn₁, hfails₁, hroom₁⟩ := @fails_stamped zstd h c.any.tick
  obtain ⟨n₂, hn₂, hfails₂, hok, hroom₂⟩ :=
    @fails_makeRoom zstd (h.stamped zstd c.any.tick) c.any.textSize
  cases hcourse with
  | late hclock => exact ⟨hroom.inside, hroom.size, hroom.pending⟩
  | long hclock hstamp hlong =>
    subst hstamp
    have hroom' := hroom₁ (hfails₁.eq_zero (by omega) hsteady) hroom
    exact ⟨hroom'.inside, hroom'.size, hroom'.pending⟩
  | crowded hclock hstamp hshort hfull =>
    -- the flush for the text failed, and was counted
    subst hstamp
    rw [hfull] at hfails₂ hok
    have hzero := (hfails₁.trans hfails₂).eq_zero (by omega) hsteady
    exact absurd (hok.mpr (by omega)) Bool.false_ne_true
  | unfit hclock hstamp hshort hmade hrow =>
    subst hstamp
    rw [hmade] at hfails₂ hroom₂
    have hzero := (hfails₁.trans hfails₂).eq_zero (by omega) hsteady
    obtain ⟨hroom', -⟩ := hroom₂ (by omega) (hroom₁ (by omega) hroom) hshort
    exact ⟨hroom'.inside, hroom'.size, hroom'.pending⟩
  | @written h₁ h₂ enc bytes hclock hstamp hshort hmade hrow =>
    subst hstamp
    rw [hmade] at hfails₂ hroom₂
    have hsettle : c.any.settle zstd ⟨h₂.parent, (h₂.channel.put bytes).install enc⟩ =
      Handle.flushIfFlushable zstd ⟨h₂.parent, (h₂.channel.put bytes).install enc⟩ := rfl
    rw [hsettle] at hsteady ⊢
    obtain ⟨n₃, hn₃, hfails₃, hroom₃⟩ := @fails_flushIfFlushable zstd
      ⟨h₂.parent, (h₂.channel.put bytes).install enc⟩ 273
    have hput : h₂.channel.Fails ((h₂.channel.put bytes).install enc) 0 := .zero rfl
    have hzero := (((hfails₁.trans hfails₂).trans hput).trans hfails₃).eq_zero (by omega) hsteady
    obtain ⟨hroom', hspace⟩ := hroom₂ (by omega) (hroom₁ (by omega) hroom) hshort
    rw [Encoder.row_any, Option.map_eq_some_iff] at hrow
    obtain ⟨out, hencoded, heq⟩ := hrow
    cases heq
    have hlength := Encoder.length_row_le hencoded
    have htext : c.any.textSize = c.value.textSize := rfl
    exact hroom₃ (by omega) ((hroom'.put (by omega) (by omega)).install _)

/-! ### Runs -/

/-- The states of a channel that scalar injects and flushes lead to, with any calls on
the pack's other channels in between, as long as no flush of the channel fails. -/
inductive Steady (zstd : Zstd) (h₀ : Handle) : Handle → Prop
  | start : Steady zstd h₀ h₀
  | inject {h : Handle} (c : Call) (hr : Steady zstd h₀ h)
      (hsteady : (c.inject zstd h).2.channel.failures = h.channel.failures) :
      Steady zstd h₀ (c.inject zstd h).2
  | flush {h : Handle} (hr : Steady zstd h₀ h) (hok : (h.channelFlush zstd).1 = true) :
      Steady zstd h₀ (h.channelFlush zstd).2
  | others {h : Handle} (parent : Parent) (hr : Steady zstd h₀ h) :
      Steady zstd h₀ { h with parent := parent }

theorem Steady.roomy {h₀ : Handle} (hroom : h₀.channel.Roomy 0) (hr : Steady zstd h₀ h) :
    h.channel.Roomy 0 := by
  induction hr with
  | start => exact hroom
  | inject c hr hsteady ih => exact roomy_inject c ih hsteady
  | @flush h hr hok ih =>
    obtain ⟨n, hn, hfails, hiff, hempty⟩ := @fails_channelFlush zstd h
    rw [hempty (hiff.mp hok)]
    exact ih.flushed
  | others parent hr ih => exact ih

theorem inside_finish (hroom : h.channel.Roomy 0) : (h.finish zstd).channel.overrun = false := by
  have hmark := length_encode_le (.eof h.channel.base.rowCounter)
  have hput : (h.channel.put (Record.eof h.channel.base.rowCounter).encode).Roomy 11 :=
    hroom.put (by have := hroom.pending; dsimp only at hmark; omega) (by omega)
  rw [← Channel.writeRecord_eq_put] at hput
  have hflush := @Handle.flush_channelFlush zstd
    ⟨h.parent, h.channel.writeRecord (.eof h.channel.base.rowCounter)⟩
  change ((Handle.channelFlush zstd
    ⟨h.parent, h.channel.writeRecord (.eof h.channel.base.rowCounter)⟩).2).channel.overrun = false
  rcases hout : Handle.channelFlush zstd
    ⟨h.parent, h.channel.writeRecord (.eof h.channel.base.rowCounter)⟩ with ⟨ok, h'⟩
  rw [hout] at hflush
  cases hflush with
  | sent | failed => exact hput.inside

/-- **Scalar injects never overrun the bucket.**  From a bucket of at least 512 bytes on,
nothing is written past its end, `top` is at most at the threshold between the calls,
and the end mark of the close is inside too. -/
theorem scalar_injects_inside (parent : Parent) (id channelType : UInt8) {bucketSize : UInt32}
    (hsize : OTIC_PACK_CACHE_TOP_LIMIT ≤ bucketSize)
    (hr : Steady zstd ⟨parent, Channel.init id channelType bucketSize⟩ h) :
    h.channel.overrun = false ∧ h.channel.pending.length ≤ h.channel.threshold ∧
      (h.finish zstd).channel.overrun = false := by
  have hroom := hr.roomy (Channel.roomy_init id channelType hsize)
  exact ⟨hroom.inside, hroom.pending, inside_finish hroom⟩

/-- A channel of 512 bytes in a pack whose flusher takes everything. -/
def smallChannel : Handle := ⟨⟨[], [], [], .none, .opened⟩, Channel.init 1 0 512⟩

/-- An empty string for a sensor without a name. -/
def emptyString : Call := ⟨⟨7, seven_lt_TS_NULL⟩, CStr.empty, none, .string CStr.empty, []⟩

theorem scalar_injects_inside_flushed :
    let h := ((emptyString.inject Zstd.stored smallChannel).2.channelFlush Zstd.stored).2
    h.channel.overrun = false ∧ h.channel.pending.length ≤ h.channel.threshold ∧
      (h.finish Zstd.stored).channel.overrun = false := by
  have hinject : Steady Zstd.stored smallChannel (emptyString.inject Zstd.stored smallChannel).2 :=
    .inject emptyString .start (by decide +kernel)
  exact scalar_injects_inside _ 1 0 (by decide) (.flush hinject (by decide +kernel))

end Otic.Pack
