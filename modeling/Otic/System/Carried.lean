import Otic.System.Advances

/-!
# A writer and what its reader will know

`Carries` says of a channel which view a reader has when it has read the blocks that were sent
and those bytes that are still in the bucket.  Where the bucket is flushed makes no difference
to it, as long as every flush goes through and nothing is written past the end.
-/

namespace Otic

open Pack Unpack

/-! ### Blocks that were sent -/

/-- The bytes of some frames, and the view after their blocks. -/
inductive Ships (zstd : Zstd) (size : UInt32) (id : UInt8) : List UInt8 → View → Prop
  | start : Ships zstd size id [] View.init
  | block {sent block frame : List UInt8} {v v' : View} (hships : Ships zstd size id sent v)
      (hcompress : zstd.compress size.toNat block = some frame)
      (hshort : frame.length < UInt32.size) (hbounded : block.length ≤ size.toNat)
      (hadvances : Advances v block v') :
      Ships zstd size id (sent ++ (Event.dataHeader id frame.length ++ frame)) v'

variable {zstd : Zstd} {h₀ h h' : Handle} {v v' : View}

/-- **The frames** are read one after the other. -/
theorem Ships.read (hlossless : zstd.Lossless) {size : UInt32} {id : UInt8} {sent : List UInt8}
    (h : Ships zstd size id sent v) :
    ∀ {rest : List UInt8} {u : OticUnpack}, Standing size id View.init (sent ++ rest) u →
      ∃ u', Loop.Goes (OticUnpack.parse zstd) u u' ∧ Standing size id v rest u' := by
  induction h with
  | start => exact fun hat => ⟨_, .refl _, hat⟩
  | @block sent block frame v v' _ hcompress hshort hbounded hadvances ih =>
    intro rest u hat
    rw [List.append_assoc] at hat
    obtain ⟨u₁, hgoes, hat₁⟩ := ih hat
    obtain ⟨u', hparse, hat'⟩ := hat₁.advance hlossless hcompress hshort hbounded hadvances
    exact ⟨u', hgoes.trans (.single hparse), hat'⟩

/-! ### The channel -/

/-- What was sent and what is in the bucket comes to this view. -/
structure Carries (zstd : Zstd) (h₀ : Handle) (v : View) (h : Handle) : Prop where
  shape : h.channel.shape = h₀.channel.shape
  bounded : h.channel.pending.length ≤ h₀.channel.base.cacheSize.toNat
  sent : ∃ sent v₁, h.parent.accepted = h₀.parent.accepted ++ sent ∧
    Ships zstd h₀.channel.base.cacheSize h₀.channel.channelId sent v₁ ∧
    Advances v₁ h.channel.pending v

namespace Carries

theorem start (hempty : h₀.channel.pending = []) : Carries zstd h₀ View.init h₀ where
  shape := rfl
  bounded := by
    rw [hempty]
    exact Nat.zero_le _
  sent := ⟨[], View.init, (List.append_nil _).symm, .start, by rw [hempty]; exact .refl _⟩

theorem same (hc : Carries zstd h₀ v h) (hshape : h'.channel.shape = h.channel.shape)
    (hpending : h'.channel.pending = h.channel.pending)
    (haccepted : h'.parent.accepted = h.parent.accepted) : Carries zstd h₀ v h' where
  shape := hshape.trans hc.shape
  bounded := by
    rw [hpending]
    exact hc.bounded
  sent := by
    rw [hpending, haccepted]
    exact hc.sent

/-- Bytes that are written behind the others. -/
theorem put (hc : Carries zstd h₀ v h) {bytes : List UInt8} (hadvances : Advances v bytes v')
    (hinside : (h.channel.put bytes).overrun = false) :
    Carries zstd h₀ v' ⟨h.parent, h.channel.put bytes⟩ where
  shape := hc.shape
  bounded := by
    have hcache : h.channel.base.cacheSize = h₀.channel.base.cacheSize :=
      congrArg Shape.cacheSize hc.shape
    simp only [Channel.put, Bool.or_eq_false_iff, decide_eq_false_iff_not, hcache] at hinside ⊢
    omega
  sent := by
    obtain ⟨sent, v₁, haccepted, hships, hpending⟩ := hc.sent
    exact ⟨sent, v₁, haccepted, hships, hpending.append hadvances⟩

/-- **A flush** sends what is in the bucket. -/
theorem flush (hc : Carries zstd h₀ v h) (hok : (h.channelFlush zstd).1 = true) :
    Carries zstd h₀ v (h.channelFlush zstd).2 ∧ (h.channelFlush zstd).2.channel.pending = [] := by
  obtain ⟨sent, v₁, hsent, hships, hpending⟩ := hc.sent
  obtain ⟨frame, hframe, hshort, hchannel, haccepted⟩ := channelFlush_sent hok
  have hcache : h.channel.base.cacheSize = h₀.channel.base.cacheSize :=
    congrArg Shape.cacheSize hc.shape
  have hid : h.channel.channelId = h₀.channel.channelId := congrArg Shape.channelId hc.shape
  have hempty : (h.channelFlush zstd).2.channel.pending = [] := by
    rw [hchannel]
    rfl
  rw [hcache] at hframe
  rw [hsent, hid, List.append_assoc] at haccepted
  refine ⟨⟨?_, ?_, _, v, haccepted, hships.block hframe hshort hc.bounded hpending, ?_⟩, hempty⟩
  · rw [hchannel]
    exact hc.shape
  · rw [hempty]
    exact Nat.zero_le _
  · rw [hempty]
    exact .refl v

/-- The automatic flush, if it has not failed. -/
theorem flushIfFlushable (hc : Carries zstd h₀ v h)
    (hsteady : (h.flushIfFlushable zstd).channel.failures = h.channel.failures) :
    Carries zstd h₀ v (h.flushIfFlushable zstd) := by
  unfold Handle.flushIfFlushable at hsteady ⊢
  split
  · rename_i hfull
    rw [if_pos hfull] at hsteady
    obtain ⟨n, hn, hfails, hok, -⟩ := @fails_channelFlush zstd h
    exact (hc.flush (hok.mpr (hfails.eq_zero (by omega) hsteady))).1
  · exact hc

/-- A timestamp. -/
theorem stamped (hc : Carries zstd h₀ v h) {tick : UInt64}
    (hadvances : Advances v (h.channel.encoder.stamp tick) v')
    (hsame : h.channel.base.timestampCurrent = tick → v' = v)
    (hsteady : (h.stamped zstd tick).channel.failures = h.channel.failures)
    (hinside : (h.stamped zstd tick).channel.overrun = false) :
    Carries zstd h₀ v' (h.stamped zstd tick) := by
  unfold Handle.stamped at hsteady hinside ⊢
  split
  · rename_i hcurrent
    rw [hsame hcurrent]
    exact hc
  · rename_i hset
    rw [if_neg hset] at hsteady hinside
    rw [overrun_flushIfFlushable] at hinside
    have hclocked : Carries zstd h₀ v ⟨h.parent, h.channel.clocked tick⟩ := hc.same rfl rfl rfl
    exact (hclocked.put hadvances hinside).flushIfFlushable hsteady

theorem makeRoom (hc : Carries zstd h₀ v h) {textSize : Nat}
    (hroom : h.makeRoom zstd textSize = (true, h')) : Carries zstd h₀ v h' := by
  unfold Handle.makeRoom at hroom
  split at hroom
  · have hflush := @Carries.flush zstd h₀ h v hc
    rw [hroom] at hflush
    exact (hflush rfl).1
  · cases hroom
    exact hc

theorem settle (hc : Carries zstd h₀ v h) (c : AnyCall)
    (hsteady : (c.settle zstd h).channel.failures = h.channel.failures) :
    Carries zstd h₀ v (c.settle zstd h) := by
  unfold AnyCall.settle at hsteady ⊢
  split
  · rename_i hflushes
    rw [if_pos hflushes] at hsteady
    exact hc.flushIfFlushable hsteady
  · exact hc

/-- **A call** writes its timestamp, and if it is accepted its row; none of its flushes
fails.  What is true of the encoder and the view goes on from one to the next. -/
theorem inject (hc : Carries zstd h₀ v h) {c : AnyCall}
    (hsteady : (c.inject zstd h).2.channel.failures = h.channel.failures)
    (hinside : (c.inject zstd h).2.channel.overrun = false)
    {before after : Encoder → View → Prop} (hnow : before h.channel.encoder v)
    (hstamp : h.channel.encoder.clock c.tick ≠ none → ∃ v',
      Advances v (h.channel.encoder.stamp c.tick) v' ∧
      (h.channel.base.timestampCurrent = c.tick → v' = v) ∧
      before { h.channel.encoder with timestampCurrent := c.tick } v' ∧
      ∀ {enc bytes}, c.row { h.channel.encoder with timestampCurrent := c.tick } =
          some (enc, bytes) → (c.inject zstd h).1 = true →
        ∃ v'', Advances v' bytes v'' ∧ after enc v'') :
    ∃ v', Carries zstd h₀ v' (c.inject zstd h).2 ∧
      ((c.inject zstd h).1 = false → before (c.inject zstd h).2.channel.encoder v') ∧
      ((c.inject zstd h).1 = true → after (c.inject zstd h).2.channel.encoder v') := by
  have hcourse := @AnyCall.course zstd c h
  have hencoder := (@Handle.kept_stamped zstd h c.tick).2
  obtain ⟨n₁, hn₁, hfails₁, -⟩ := @fails_stamped zstd h c.tick
  obtain ⟨n₂, hn₂, hfails₂, hok, -⟩ := @fails_makeRoom zstd (h.stamped zstd c.tick) c.textSize
  have hover := @overrun_makeRoom zstd (h.stamped zstd c.tick) c.textSize
  rcases hout : c.inject zstd h with ⟨ok, h'⟩
  rw [hout] at hcourse hsteady hinside hstamp
  cases hcourse with
  | late hclock =>
    exact ⟨v, hc.same rfl rfl rfl, fun _ => hnow, fun hok => nomatch hok⟩
  | long hclock hstamped hlong =>
    subst hstamped
    obtain ⟨v', hadvances, hsame, hafter, -⟩ := hstamp hclock
    refine ⟨v', (hc.stamped hadvances hsame hsteady hinside).same rfl rfl rfl, fun _ => ?_,
      fun hok => nomatch hok⟩
    rw [← hencoder] at hafter
    exact hafter
  | crowded hclock hstamped hshort hroom =>
    -- the flush for the text failed, and was counted
    subst hstamped
    rw [hroom] at hfails₂ hok
    have hzero := (hfails₁.trans hfails₂).eq_zero (by omega) hsteady
    exact absurd (hok.mpr (by omega)) Bool.false_ne_true
  | unfit hclock hstamped hshort hroom hrow =>
    subst hstamped
    have hencoder' := encoder_makeRoom hroom
    rw [hroom] at hfails₂ hover
    have hzero := (hfails₁.trans hfails₂).eq_zero (by omega) hsteady
    obtain rfl : n₁ = 0 := by omega
    obtain ⟨v', hadvances, hsame, hafter, -⟩ := hstamp hclock
    have hc₁ := hc.stamped hadvances hsame hfails₁.steady (hover.symm.trans hinside)
    refine ⟨v', (hc₁.makeRoom hroom).same rfl rfl rfl, fun _ => ?_, fun hok => nomatch hok⟩
    rw [← hencoder'] at hafter
    exact hafter
  | @written h₁ h₂ enc bytes hclock hstamped hshort hroom hrow =>
    subst hstamped
    have hencoder' := encoder_makeRoom hroom
    rw [hroom] at hfails₂ hover
    obtain ⟨hkept, -, n₃, hn₃, hfails₃, -, -⟩ :=
      @settle_spec zstd c ⟨h₂.parent, (h₂.channel.put bytes).install enc⟩
    have hput : h₂.channel.Fails ((h₂.channel.put bytes).install enc) 0 := .zero rfl
    have hzero := (((hfails₁.trans hfails₂).trans hput).trans hfails₃).eq_zero (by omega) hsteady
    obtain rfl : n₁ = 0 := by omega
    obtain rfl : n₃ = 0 := by omega
    rw [hkept] at hinside
    have hinside₂ : h₂.channel.overrun = false :=
      (Bool.or_eq_false_iff.mp (show (h₂.channel.put bytes).overrun = false from hinside)).1
    rw [hencoder'] at hrow
    obtain ⟨v', hadvances, hsame, -, hrows⟩ := hstamp hclock
    obtain ⟨v'', hadvances', hafter⟩ := hrows hrow rfl
    have hc₁ := hc.stamped hadvances hsame hfails₁.steady (hover.symm.trans hinside₂)
    have hc₂ := (hc₁.makeRoom hroom).put hadvances' hinside
    have hc₃ : Carries zstd h₀ v'' ⟨h₂.parent, (h₂.channel.put bytes).install enc⟩ :=
      hc₂.same rfl rfl rfl
    refine ⟨v'', hc₃.settle c hfails₃.steady, fun hok => (nomatch hok), fun _ => ?_⟩
    rw [AnyCall.encoder_settle]
    exact hafter

/-- **Closing** the channel sends what is left, and the count of the rows. -/
theorem finish (hc : Carries zstd h₀ v h)
    (hsteady : (h.finish zstd).channel.failures = h.channel.failures)
    (hinside : (h.finish zstd).channel.overrun = false) :
    Carries zstd h₀ (v.apply (.eof h.channel.base.rowCounter)) (h.finish zstd) ∧
      (h.finish zstd).channel.pending = [] := by
  have hmarked : h.finish zstd = (Handle.channelFlush zstd
      ⟨h.parent, h.channel.put (Record.eof h.channel.base.rowCounter).encode⟩).2 := by
    rw [← Channel.writeRecord_eq_put]
    rfl
  rw [hmarked] at hsteady hinside ⊢
  rw [overrun_channelFlush] at hinside
  obtain ⟨n, hn, hfails, hok, -⟩ := @fails_channelFlush zstd
    ⟨h.parent, h.channel.put (Record.eof h.channel.base.rowCounter).encode⟩
  have hvalid : (Record.eof h.channel.base.rowCounter).Valid v.sensors.length :=
    fun i hi => nomatch hi
  have hmark := hc.put (round_record hvalid).advances hinside
  exact hmark.flush (hok.mpr (hfails.eq_zero (by omega) hsteady))

end Carries

end Otic
