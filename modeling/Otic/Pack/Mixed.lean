import Otic.Format.Event
import Otic.Pack.Pieces

/-!
# Runs of scalars and buffers

`Mixed` lists the states that scalar injects, `inject_b` and flushes lead to while every
flush goes through and nothing is written past the end of the bucket.  In all of them
the pieces written are those of the blocks that were sent, followed by those that are
still in the bucket (`Mixed.lays`).
-/

namespace Otic.Pack

variable {zstd : Zstd} {h₀ h : Handle} {ps : List Piece}

/-! ### What is sent -/

/-- A block that was sent, with the frame it was compressed to. -/
structure Shipment where
  block : List Piece
  frame : List UInt8

/-- The header and the payload of a block. -/
def Shipment.bytes (id : UInt8) (s : Shipment) : List UInt8 :=
  Event.dataHeader id s.frame.length ++ s.frame

/-- From a channel with an empty bucket to `h`: these blocks were sent, and these pieces
are in the bucket. -/
structure Laid (zstd : Zstd) (h₀ : Handle) (sent : List Shipment) (held : List Piece)
    (h : Handle) : Prop where
  shape : h.channel.shape = h₀.channel.shape
  pending : h.channel.pending = encodePieces held
  bounded : h.channel.pending.length ≤ h₀.channel.base.cacheSize.toNat
  blocks : h.channel.cCtx = h₀.channel.cCtx ++ sent.map fun s => encodePieces s.block
  accepted : h.parent.accepted =
    h₀.parent.accepted ++ sent.flatMap (Shipment.bytes h₀.channel.channelId)
  compressed : ∀ s ∈ sent,
    zstd.compress h₀.channel.base.cacheSize.toNat (encodePieces s.block) = some s.frame ∧
      s.frame.length < UInt32.size ∧
      (encodePieces s.block).length ≤ h₀.channel.base.cacheSize.toNat

namespace Laid

variable {sent : List Shipment} {held : List Piece}

theorem start (hempty : h₀.channel.pending = []) : Laid zstd h₀ [] [] h₀ where
  shape := rfl
  pending := hempty
  bounded := by
    rw [hempty]
    exact Nat.zero_le _
  blocks := (List.append_nil _).symm
  accepted := (List.append_nil _).symm
  compressed := fun _ hmem => by cases hmem

theorem same (hl : Laid zstd h₀ sent held h) {h' : Handle}
    (hpending : h'.channel.pending = h.channel.pending)
    (hshape : h'.channel.shape = h.channel.shape)
    (hblocks : h'.channel.cCtx = h.channel.cCtx)
    (haccepted : h'.parent.accepted = h.parent.accepted) : Laid zstd h₀ sent held h' where
  shape := hshape.trans hl.shape
  pending := hpending.trans hl.pending
  bounded := by
    rw [hpending]
    exact hl.bounded
  blocks := hblocks.trans hl.blocks
  accepted := haccepted.trans hl.accepted
  compressed := hl.compressed

theorem put (hl : Laid zstd h₀ sent held h) (ps : List Piece)
    (hinside : (h.channel.put (encodePieces ps)).overrun = false) :
    Laid zstd h₀ sent (held ++ ps) ⟨h.parent, h.channel.put (encodePieces ps)⟩ where
  shape := hl.shape
  pending := by
    rw [encodePieces_append, ← hl.pending]
    rfl
  bounded := by
    have hcache : h.channel.base.cacheSize = h₀.channel.base.cacheSize :=
      congrArg Shape.cacheSize hl.shape
    simp only [Channel.put, Bool.or_eq_false_iff, decide_eq_false_iff_not, hcache] at hinside ⊢
    omega
  blocks := hl.blocks
  accepted := hl.accepted
  compressed := hl.compressed

end Laid

/-- A flush that goes through hands the whole bucket to the flusher. -/
theorem channelFlush_sent (hok : (h.channelFlush zstd).1 = true) :
    ∃ frame, zstd.compress h.channel.base.cacheSize.toNat h.channel.pending = some frame ∧
      frame.length < UInt32.size ∧ (h.channelFlush zstd).2.channel = h.channel.flushed ∧
      (h.channelFlush zstd).2.parent.accepted =
        h.parent.accepted ++ (Event.dataHeader h.channel.channelId frame.length ++ frame) := by
  unfold Handle.channelFlush at hok ⊢
  dsimp only at hok ⊢
  cases hframe : zstd.compress h.channel.base.cacheSize.toNat h.channel.pending with
  | none =>
    rw [hframe] at hok
    cases hok
  | some frame =>
    rw [hframe] at hok
    dsimp only [Parent.flusher] at hok ⊢
    refine ⟨frame, rfl, ?_⟩
    by_cases hlong : UInt32.size ≤ frame.length
    · rw [if_pos hlong] at hok
      cases hok
    rw [if_neg hlong] at hok ⊢
    have hheader : h.parent.answers.headD true = true := by
      by_contra hrefused
      rw [Bool.not_eq_true] at hrefused
      simp only [hrefused, Bool.not_false, if_true] at hok
      cases hok
    have hpayload : h.parent.answers.tail.headD true = true := by
      by_contra hrefused
      rw [Bool.not_eq_true] at hrefused
      simp only [hheader, hrefused, Bool.not_false, Bool.not_true, Bool.false_eq_true, if_false,
        if_true] at hok
    simp only [hheader, hpayload, Bool.not_true, Bool.false_eq_true, if_false, if_true]
    refine ⟨by omega, rfl, ?_⟩
    rw [List.append_assoc]
    rfl

/-- **A flush** sends what is in the bucket as one block. -/
theorem Laid.flush {sent : List Shipment} {held : List Piece} (hl : Laid zstd h₀ sent held h)
    (hok : (h.channelFlush zstd).1 = true) :
    ∃ s : Shipment, s.block = held ∧ Laid zstd h₀ (sent ++ [s]) [] (h.channelFlush zstd).2 := by
  obtain ⟨frame, hframe, hshort, hchannel, haccepted⟩ := channelFlush_sent hok
  have hcache : h.channel.base.cacheSize = h₀.channel.base.cacheSize :=
    congrArg Shape.cacheSize hl.shape
  have hid : h.channel.channelId = h₀.channel.channelId := congrArg Shape.channelId hl.shape
  have hbounded := hl.bounded
  rw [hl.pending] at hframe hbounded
  refine ⟨⟨held, frame⟩, rfl, ?_⟩
  constructor
  · rw [hchannel]
    exact hl.shape
  · rw [hchannel]
    rfl
  · rw [hchannel]
    exact Nat.zero_le _
  · rw [hchannel, List.map_append, ← List.append_assoc, ← hl.blocks]
    exact congrArg (fun block => h.channel.cCtx ++ [block]) hl.pending
  · rw [haccepted, hl.accepted, hid, List.flatMap_append, List.append_assoc]
    simp [Shipment.bytes]
  · intro s hs
    rcases List.mem_append.mp hs with hs | hs
    · exact hl.compressed s hs
    · rw [List.mem_singleton] at hs
      subst hs
      rw [hcache] at hframe
      exact ⟨hframe, hshort, hbounded⟩

/-! ### Stages of a call -/

/-- The pieces laid down so far, wherever the blocks were cut. -/
def Lays (zstd : Zstd) (h₀ : Handle) (ps : List Piece) (h : Handle) : Prop :=
  ∃ sent held, Laid zstd h₀ sent held h ∧ sent.flatMap Shipment.block ++ held = ps

theorem Lays.same (hl : Lays zstd h₀ ps h) {h' : Handle}
    (hpending : h'.channel.pending = h.channel.pending)
    (hshape : h'.channel.shape = h.channel.shape)
    (hblocks : h'.channel.cCtx = h.channel.cCtx)
    (haccepted : h'.parent.accepted = h.parent.accepted) : Lays zstd h₀ ps h' := by
  rcases hl with ⟨sent, held, hlaid, hps⟩
  exact ⟨sent, held, hlaid.same hpending hshape hblocks haccepted, hps⟩

theorem Lays.put (hl : Lays zstd h₀ ps h) (ps' : List Piece)
    (hinside : (h.channel.put (encodePieces ps')).overrun = false) :
    Lays zstd h₀ (ps ++ ps') ⟨h.parent, h.channel.put (encodePieces ps')⟩ := by
  rcases hl with ⟨sent, held, hlaid, rfl⟩
  exact ⟨sent, held ++ ps', hlaid.put ps' hinside, (List.append_assoc _ _ _).symm⟩

theorem Lays.flush (hl : Lays zstd h₀ ps h) (hok : (h.channelFlush zstd).1 = true) :
    Lays zstd h₀ ps (h.channelFlush zstd).2 := by
  rcases hl with ⟨sent, held, hlaid, rfl⟩
  obtain ⟨s, hblock, hlaid'⟩ := hlaid.flush hok
  refine ⟨sent ++ [s], [], hlaid', ?_⟩
  rw [List.flatMap_append, List.append_nil]
  simp [hblock]

/-- The automatic flush, if it has not failed. -/
theorem Lays.flushIfFlushable (hl : Lays zstd h₀ ps h)
    (hsteady : (h.flushIfFlushable zstd).channel.failures = h.channel.failures) :
    Lays zstd h₀ ps (h.flushIfFlushable zstd) := by
  unfold Handle.flushIfFlushable at hsteady ⊢
  split
  · rename_i hfull
    rw [if_pos hfull] at hsteady
    obtain ⟨n, hn, hfails, hok, -⟩ := @fails_channelFlush zstd h
    exact hl.flush (hok.mpr (hfails.eq_zero (by omega) hsteady))
  · exact hl

/-- A flush undoes no overrun, and makes none. -/
theorem overrun_channelFlush (h : Handle) :
    (h.channelFlush zstd).2.channel.overrun = h.channel.overrun := by
  have hflush := @Handle.flush_channelFlush zstd h
  rcases hout : h.channelFlush zstd with ⟨ok, h'⟩
  rw [hout] at hflush
  cases hflush with
  | sent | failed => rfl

theorem overrun_flushIfFlushable (h : Handle) :
    (h.flushIfFlushable zstd).channel.overrun = h.channel.overrun := by
  unfold Handle.flushIfFlushable
  split
  · exact overrun_channelFlush h
  · rfl

theorem overrun_makeRoom (h : Handle) (textSize : Nat) :
    (h.makeRoom zstd textSize).2.channel.overrun = h.channel.overrun := by
  unfold Handle.makeRoom
  split
  · exact overrun_channelFlush h
  · rfl

theorem Lays.stamped (hl : Lays zstd h₀ ps h) (tick : UInt64)
    (hsteady : (h.stamped zstd tick).channel.failures = h.channel.failures)
    (hinside : (h.stamped zstd tick).channel.overrun = false) :
    Lays zstd h₀ (ps ++ h.channel.encoder.stampPieces tick) (h.stamped zstd tick) := by
  unfold Handle.stamped at hsteady hinside ⊢
  split
  · rename_i hsame
    have hcurrent : h.channel.encoder.timestampCurrent = tick := hsame
    have hnone : h.channel.encoder.stampPieces tick = [] := by
      simp [Encoder.stampPieces, Encoder.clock, hcurrent]
    rw [hnone, List.append_nil]
    exact hl
  · rename_i hset
    rw [if_neg hset] at hsteady hinside
    rw [overrun_flushIfFlushable] at hinside
    have hclocked : Lays zstd h₀ ps ⟨h.parent, h.channel.clocked tick⟩ := hl.same rfl rfl rfl rfl
    have hput := hclocked.put (h.channel.encoder.stampPieces tick)
    rw [Encoder.encode_stampPieces] at hput
    exact (hput hinside).flushIfFlushable hsteady

theorem Lays.makeRoom (hl : Lays zstd h₀ ps h) {textSize : Nat} {h' : Handle}
    (hroom : h.makeRoom zstd textSize = (true, h')) : Lays zstd h₀ ps h' := by
  unfold Handle.makeRoom at hroom
  split at hroom
  · have hflush := @Lays.flush zstd h₀ h ps hl
    rw [hroom] at hflush
    exact hflush rfl
  · cases hroom
    exact hl

theorem Lays.settle (hl : Lays zstd h₀ ps h) (c : AnyCall)
    (hsteady : (c.settle zstd h).channel.failures = h.channel.failures) :
    Lays zstd h₀ ps (c.settle zstd h) := by
  unfold AnyCall.settle at hsteady ⊢
  split
  · rename_i hflushes
    rw [if_pos hflushes] at hsteady
    exact hl.flushIfFlushable hsteady
  · exact hl

/-! ### Calls -/

theorem encoder_makeRoom {c : AnyCall} {ok : Bool} {h' : Handle}
    (hroom : (h.stamped zstd c.tick).makeRoom zstd c.textSize = (ok, h')) :
    h'.channel.encoder = { h.channel.encoder with timestampCurrent := c.tick } :=
  (Handle.kept_makeRoom hroom).2.trans (Handle.kept_stamped h c.tick).2

/-- **A call** lays down its pieces, as long as none of its flushes fails. -/
theorem Lays.inject (hl : Lays zstd h₀ ps h) (hwrote : h.channel.encoder.Wrote ps) {c : AnyCall}
    (hplain : c.Plain) (hsteady : (c.inject zstd h).2.channel.failures = h.channel.failures)
    (hinside : (c.inject zstd h).2.channel.overrun = false) :
    Lays zstd h₀ (ps ++ c.pieces zstd h) (c.inject zstd h).2 ∧
      (c.inject zstd h).2.channel.encoder.Wrote (ps ++ c.pieces zstd h) := by
  have hcourse := @AnyCall.course zstd c h
  have hstamped := (@Handle.kept_stamped zstd h c.tick).2
  have hclocked := hwrote.stamp c.tick c.tick
  obtain ⟨n₁, hn₁, hfails₁, -⟩ := @fails_stamped zstd h c.tick
  obtain ⟨n₂, hn₂, hfails₂, hok, -⟩ := @fails_makeRoom zstd (h.stamped zstd c.tick) c.textSize
  have hover := @overrun_makeRoom zstd (h.stamped zstd c.tick) c.textSize
  unfold AnyCall.pieces
  rcases hout : c.inject zstd h with ⟨ok, h'⟩
  rw [hout] at hcourse hsteady hinside
  cases hcourse with
  | late hclock =>
    have hnone : h.channel.encoder.stampPieces c.tick = [] := by
      unfold Encoder.stampPieces
      rw [hclock]
      rfl
    rw [hnone, if_neg Bool.false_ne_true, List.append_nil, List.append_nil]
    exact ⟨hl.same rfl rfl rfl rfl, hwrote⟩
  | long hclock hstamp hlong =>
    subst hstamp
    rw [if_neg Bool.false_ne_true, List.append_nil]
    constructor
    · exact (hl.stamped c.tick hsteady hinside).same rfl rfl rfl rfl
    · rw [← hstamped] at hclocked
      exact hclocked
  | crowded hclock hstamp hshort hroom =>
    -- the flush for the text failed, and was counted
    subst hstamp
    rw [hroom] at hfails₂ hok
    have hzero := (hfails₁.trans hfails₂).eq_zero (by omega) hsteady
    exact absurd (hok.mpr (by omega)) Bool.false_ne_true
  | unfit hclock hstamp hshort hroom hrow =>
    subst hstamp
    have hencoder := encoder_makeRoom hroom
    rw [hroom] at hfails₂ hover
    have hzero := (hfails₁.trans hfails₂).eq_zero (by omega) hsteady
    obtain rfl : n₁ = 0 := by omega
    rw [if_neg Bool.false_ne_true, List.append_nil]
    constructor
    · have hlays := hl.stamped c.tick hfails₁.steady (hover.symm.trans hinside)
      exact (hlays.makeRoom hroom).same rfl rfl rfl rfl
    · rw [← hencoder] at hclocked
      exact hclocked
  | @written h₁ h₂ enc bytes hclock hstamp hshort hroom hrow =>
    subst hstamp
    have hencoder := encoder_makeRoom hroom
    rw [hroom] at hfails₂ hover
    obtain ⟨hkept, -, n₃, hn₃, hfails₃, -, -⟩ :=
      @settle_spec zstd c ⟨h₂.parent, (h₂.channel.put bytes).install enc⟩
    have hput : h₂.channel.Fails ((h₂.channel.put bytes).install enc) 0 := .zero rfl
    have hzero := (((hfails₁.trans hfails₂).trans hput).trans hfails₃).eq_zero (by omega) hsteady
    obtain rfl : n₁ = 0 := by omega
    obtain rfl : n₃ = 0 := by omega
    rw [hkept] at hinside
    have hinside₂ : h₂.channel.overrun = false :=
      (Bool.or_eq_false_iff.mp (show (h₂.channel.put bytes).overrun = false from hinside)).1
    rw [hencoder] at hrow
    obtain ⟨hwrote', hencoded⟩ := hclocked.row hplain hrow
    rw [if_pos rfl, ← List.append_assoc]
    constructor
    · have hlays := hl.stamped c.tick hfails₁.steady (hover.symm.trans hinside₂)
      have hrows := (hlays.makeRoom hroom).put
        (c.rowPieces { h.channel.encoder with timestampCurrent := c.tick })
      rw [hencoded] at hrows
      have hinstalled : Lays zstd h₀ _ ⟨h₂.parent, (h₂.channel.put bytes).install enc⟩ :=
        (hrows hinside).same rfl rfl rfl rfl
      exact hinstalled.settle c hfails₃.steady
    · rw [AnyCall.encoder_settle]
      exact hwrote'

/-! ### Runs -/

/-- The states of a channel that injects of scalars and buffers and flushes lead to, with
the pieces written on the way.  Every flush goes through, and nothing is written past
the end of the bucket. -/
inductive Mixed (zstd : Zstd) (h₀ : Handle) : Handle → List Piece → Prop
  | start : Mixed zstd h₀ h₀ []
  | inject {h : Handle} {ps : List Piece} (c : AnyCall) (hr : Mixed zstd h₀ h ps)
      (hplain : c.Plain) (hsteady : (c.inject zstd h).2.channel.failures = h.channel.failures)
      (hinside : (c.inject zstd h).2.channel.overrun = false) :
      Mixed zstd h₀ (c.inject zstd h).2 (ps ++ c.pieces zstd h)
  | flush {h : Handle} {ps : List Piece} (hr : Mixed zstd h₀ h ps)
      (hok : (h.channelFlush zstd).1 = true) : Mixed zstd h₀ (h.channelFlush zstd).2 ps

/-- **A run** lays down its pieces. -/
theorem Mixed.lays (hempty : h₀.channel.pending = []) (hnew : h₀.channel.encoder = Encoder.init)
    (hr : Mixed zstd h₀ h ps) : Lays zstd h₀ ps h ∧ h.channel.encoder.Wrote ps := by
  induction hr with
  | start =>
    constructor
    · exact ⟨[], [], Laid.start hempty, rfl⟩
    · rw [hnew]
      exact Encoder.wrote_init
  | inject c hr hplain hsteady hinside ih => exact ih.1.inject ih.2 hplain hsteady hinside
  | @flush h ps hr hok ih =>
    refine ⟨ih.1.flush hok, ?_⟩
    rw [(Handle.kept_channelFlush h).2]
    exact ih.2

/-- The pieces of a channel that was closed. -/
def closedPieces (h : Handle) (ps : List Piece) : List Piece :=
  ps ++ [.record (.eof h.channel.base.rowCounter)]

/-- **Closing** the channel sends what is left. -/
theorem Lays.finish (hl : Lays zstd h₀ ps h)
    (hsteady : (h.finish zstd).channel.failures = h.channel.failures)
    (hinside : (h.finish zstd).channel.overrun = false) :
    ∃ sent, Laid zstd h₀ sent [] (h.finish zstd) ∧
      sent.flatMap Shipment.block = closedPieces h ps := by
  have hmarked : h.finish zstd = (Handle.channelFlush zstd ⟨h.parent, h.channel.put
      (encodePieces [.record (.eof h.channel.base.rowCounter)])⟩).2 := by
    have hmark : encodePieces [.record (.eof h.channel.base.rowCounter)] =
        (Record.eof h.channel.base.rowCounter).encode := by simp [Piece.encode]
    rw [hmark, ← Channel.writeRecord_eq_put]
    rfl
  rw [hmarked] at hsteady hinside ⊢
  rw [overrun_channelFlush] at hinside
  obtain ⟨n, hn, hfails, hok, -⟩ := @fails_channelFlush zstd ⟨h.parent, h.channel.put
    (encodePieces [.record (.eof h.channel.base.rowCounter)])⟩
  rcases hl.put _ hinside with ⟨sent, held, hlaid, hps⟩
  obtain ⟨s, hblock, hlaid'⟩ := hlaid.flush (hok.mpr (hfails.eq_zero (by omega) hsteady))
  refine ⟨sent ++ [s], hlaid', ?_⟩
  rw [List.flatMap_append, closedPieces, ← hps]
  simp [hblock]

end Otic.Pack
