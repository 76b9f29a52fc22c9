import Otic.Stored
import Otic.Pack.Flush
import Otic.Pack.Pack

/-!
# Flushing a pack

`otic_pack_flush` builds the frames of all channels itself.  Its frame header is an
`otic_payload_t`, five bytes with the length first, and not the six bytes that
`otic_pack_channel_flush` sends and the reader expects.
-/

namespace Otic.Pack

variable {zstd : Zstd}

/-- `otic_pack_channel_flush` on each channel in list order. -/
def flushEach (zstd : Zstd) : Parent → List Channel → Parent × List Channel
  | p, [] => (p, [])
  | p, current :: previous =>
      let h := (Handle.channelFlush zstd ⟨p, current⟩).2
      let (p, previous) := flushEach zstd h.parent previous
      (p, h.channel :: previous)

/-- The fields of the struct: without what the channel has behind it (`written`, `overrun`)
and the blocks its context was given, each of which `ZSTD_compressCCtx` starts afresh. -/
def Channel.fields (ch : Channel) : Channel :=
  { ch with written := [], overrun := false, cCtx := [] }

/-- Flushing the pack hands the flusher the same bytes as flushing each channel, and
leaves the same state. -/
def FlushesAlike (zstd : Zstd) (pack : OticPack) : Prop :=
  let whole := (pack.flush zstd).2
  let each := flushEach zstd pack.parent pack.channels
  whole.parent.handed.flatten = each.1.handed.flatten ∧
    whole.parent.accepted = each.1.accepted ∧ whole.parent.error = each.1.error ∧
    whole.parent.state = each.1.state ∧
    whole.channels.map Channel.fields = each.2.map Channel.fields

/-- The compressor returns an error for the bucket. -/
def Incompressible (zstd : Zstd) (ch : Channel) : Prop :=
  zstd.compress ch.base.cacheSize.toNat ch.pending = none

/-- The number of bytes the flusher was called with. -/
def Parent.volume (p : Parent) : Nat := p.handed.flatten.length

theorem length_payload (id : UInt8) (size : Nat) : (OticPack.payload id size).length = 5 := by
  simp [OticPack.payload]

theorem length_dataHeader (id : UInt8) (size : Nat) : (Handle.dataHeader id size).length = 6 := by
  simp [Handle.dataHeader]

/-! ### One channel -/

theorem channelFlush_none {h : Handle}
    (hnone : zstd.compress h.channel.base.cacheSize.toNat h.channel.pending = none) :
    (h.channelFlush zstd).2 =
      ⟨{ h.parent with state := .onError }, h.channel.stuck .zstd⟩ := by
  unfold Handle.channelFlush
  dsimp only
  rw [hnone]
  rfl

/-- The frame of a channel is six bytes and the block, as far as the flusher takes it. -/
theorem channelFlush_some {h : Handle} {frame : List UInt8}
    (hframe : zstd.compress h.channel.base.cacheSize.toNat h.channel.pending = some frame)
    (hlength : frame.length < UInt32.size) :
    (h.channelFlush zstd).2.parent.volume = h.parent.volume + 6 +
        (if h.parent.answers.headD true then frame.length else 0) ∧
      (h.parent.answers.headD true = true → h.parent.answers.tail.headD true = true →
        (h.channelFlush zstd).2.parent.answers = h.parent.answers.tail.tail) := by
  have hshort := Nat.not_le.mpr hlength
  simp only [Handle.channelFlush, hframe, if_neg hshort, Parent.flusher]
  cases hhead : h.parent.answers.headD true with
  | false =>
    refine ⟨?_, fun htaken => by cases htaken⟩
    simp [Parent.volume, Handle.flushFailed, Handle.setError, Handle.setState, length_dataHeader]
  | true =>
    cases htail : h.parent.answers.tail.headD true with
    | false =>
      refine ⟨?_, fun _ htaken => by cases htaken⟩
      simp [Parent.volume, Handle.flushFailed, Handle.setError, Handle.setState,
        length_dataHeader, Nat.add_assoc]
    | true =>
      refine ⟨?_, fun _ _ => rfl⟩
      simp [Parent.volume, length_dataHeader, Nat.add_assoc]

/-! ### All channels -/

/-- One step of `otic_pack_flush`, next to the flush of the channel: a byte less, and
nothing more once a call is refused. -/
theorem volume_flushChannels_cons (hlossless : zstd.Lossless) {current : Channel}
    (previous : List Channel) {frame : List UInt8}
    (hframe : zstd.compress current.base.cacheSize.toNat current.pending = some frame)
    {p p' : Parent} (hanswers : p.answers = p'.answers) :
    ∃ q q' : Parent, q' = (Handle.channelFlush zstd ⟨p', current⟩).2.parent ∧
      q.volume + p'.volume + 1 = q'.volume + p.volume ∧
      ((OticPack.flushChannels zstd p (current :: previous)).2.1 = q ∨ q.answers = q'.answers ∧
        (OticPack.flushChannels zstd p (current :: previous)).2.1 =
          (OticPack.flushChannels zstd q previous).2.1) := by
  have hlength : frame.length < UInt32.size :=
    lt_of_le_of_lt (hlossless.compress_le hframe) current.base.cacheSize.toNat_lt
  obtain ⟨hvolume, hrest⟩ := channelFlush_some (h := ⟨p', current⟩) hframe hlength
  dsimp only at hvolume hrest
  rw [← hanswers] at hvolume hrest
  simp only [OticPack.flushChannels, hframe, Parent.flusher]
  cases hhead : p.answers.headD true with
  | false =>
    rw [hhead] at hvolume
    refine ⟨_, _, rfl, ?_, Or.inl rfl⟩
    rw [hvolume]
    simp [Parent.volume, length_payload]
    omega
  | true =>
    rw [hhead] at hvolume
    cases htail : p.answers.tail.headD true with
    | false =>
      refine ⟨_, _, rfl, ?_, Or.inl rfl⟩
      rw [hvolume]
      simp [Parent.volume, length_payload]
      omega
    | true =>
      refine ⟨_, _, rfl, ?_, Or.inr ⟨(hrest hhead htail).symm, rfl⟩⟩
      rw [hvolume]
      simp [Parent.volume, length_payload]
      omega

theorem volume_le_flushEach (hlossless : zstd.Lossless) (channels : List Channel) :
    ∀ p : Parent, p.volume ≤ (flushEach zstd p channels).1.volume := by
  induction channels with
  | nil => exact fun _ => Nat.le_refl _
  | cons current previous ih =>
    intro p
    have hfirst : p.volume ≤ (Handle.channelFlush zstd ⟨p, current⟩).2.parent.volume := by
      cases hframe : zstd.compress current.base.cacheSize.toNat current.pending with
      | none =>
        rw [channelFlush_none hframe]
        exact Nat.le_refl _
      | some frame =>
        rw [(channelFlush_some (h := ⟨p, current⟩) hframe (lt_of_le_of_lt
          (hlossless.compress_le hframe) current.base.cacheSize.toNat_lt)).1]
        dsimp only
        omega
    exact hfirst.trans (ih _)

/-- `otic_pack_flush` never sends more than the flushes of the channels. -/
theorem volume_flushChannels_le (hlossless : zstd.Lossless) (channels : List Channel) :
    ∀ {p p' : Parent}, p.answers = p'.answers →
      (OticPack.flushChannels zstd p channels).2.1.volume + p'.volume ≤
        (flushEach zstd p' channels).1.volume + p.volume := by
  induction channels with
  | nil =>
    intro p p' _
    simp only [OticPack.flushChannels, flushEach]
    omega
  | cons current previous ih =>
    intro p p' hanswers
    cases hframe : zstd.compress current.base.cacheSize.toNat current.pending with
    | none =>
      have hmore := volume_le_flushEach hlossless (current :: previous) p'
      simp only [OticPack.flushChannels, hframe]
      omega
    | some frame =>
      obtain ⟨q, q', hq', hvolume, hstop | ⟨hsame, hgo⟩⟩ :=
        volume_flushChannels_cons hlossless previous hframe hanswers
      · have hmore := volume_le_flushEach hlossless previous q'
        rw [hstop]
        simp only [flushEach, ← hq']
        omega
      · have hlater := ih hsame
        rw [hgo]
        simp only [flushEach, ← hq']
        omega

/-- With a frame to send, `otic_pack_flush` sends less. -/
theorem volume_flushChannels_lt (hlossless : zstd.Lossless) {current : Channel}
    (previous : List Channel) {frame : List UInt8}
    (hframe : zstd.compress current.base.cacheSize.toNat current.pending = some frame)
    (p : Parent) :
    (OticPack.flushChannels zstd p (current :: previous)).2.1.volume <
      (flushEach zstd p (current :: previous)).1.volume := by
  obtain ⟨q, q', hq', hvolume, hstop | ⟨hsame, hgo⟩⟩ :=
    volume_flushChannels_cons hlossless previous hframe (p := p) rfl
  · have hmore := volume_le_flushEach hlossless previous q'
    rw [hstop]
    simp only [flushEach, ← hq']
    omega
  · have hlater := volume_flushChannels_le hlossless previous hsame
    rw [hgo]
    simp only [flushEach, ← hq']
    omega

theorem flush_handed (pack : OticPack) :
    (pack.flush zstd).2.parent.handed =
        (OticPack.flushChannels zstd pack.parent pack.channels).2.1.handed ∧
      (pack.flush zstd).2.channels =
        (OticPack.flushChannels zstd pack.parent pack.channels).2.2 := by
  unfold OticPack.flush
  dsimp only
  split <;> exact ⟨rfl, rfl⟩

/-! ### The comparison -/

/-- A pack that can send a frame is not flushed like its channels. -/
theorem not_flushesAlike (hlossless : zstd.Lossless) {pack : OticPack} {current : Channel}
    {previous : List Channel} (hchannels : pack.channels = current :: previous)
    {frame : List UInt8}
    (hframe : zstd.compress current.base.cacheSize.toNat current.pending = some frame) :
    ¬ FlushesAlike zstd pack := by
  rintro ⟨hhanded, -⟩
  have hless := volume_flushChannels_lt hlossless previous hframe pack.parent
  rw [(flush_handed pack).1, hchannels] at hhanded
  rw [Parent.volume, Parent.volume, hhanded] at hless
  omega

/-- Channels whose buckets cannot be compressed are each left on error, with nothing sent. -/
theorem flushEach_none {channels : List Channel} :
    ∀ {p : Parent}, (∀ ch ∈ channels, Incompressible zstd ch) →
      flushEach zstd p channels =
        (if channels = [] then p else { p with state := .onError },
          channels.map fun ch => ch.stuck .zstd) := by
  induction channels with
  | nil => exact fun _ => rfl
  | cons current previous ih =>
    intro p hnone
    have hfirst := channelFlush_none (h := ⟨p, current⟩) (hnone current List.mem_cons_self)
    have hrest := @ih { p with state := .onError } fun ch hch => hnone ch (.tail _ hch)
    simp only [flushEach, hfirst, hrest, ite_self, List.map_cons, reduceCtorEq, if_false]

/-- A flush of the channels that sends nothing could compress none of the buckets. -/
theorem incompressible_of_volume (hlossless : zstd.Lossless) (channels : List Channel) :
    ∀ p : Parent, (flushEach zstd p channels).1.volume ≤ p.volume →
      ∀ ch ∈ channels, Incompressible zstd ch := by
  induction channels with
  | nil => exact fun _ _ _ hch => absurd hch List.not_mem_nil
  | cons current previous ih =>
    intro p hvolume
    cases hframe : zstd.compress current.base.cacheSize.toNat current.pending with
    | some frame =>
      exfalso
      have hsent := (channelFlush_some (h := ⟨p, current⟩) hframe (lt_of_le_of_lt
        (hlossless.compress_le hframe) current.base.cacheSize.toNat_lt)).1
      have hmore := volume_le_flushEach hlossless previous
        (Handle.channelFlush zstd ⟨p, current⟩).2.parent
      simp only [flushEach] at hvolume
      dsimp only at hsent
      omega
    | none =>
      intro ch hch
      rcases List.mem_cons.mp hch with rfl | hlater
      · exact hframe
      · apply ih { p with state := .onError } _ ch hlater
        simp only [flushEach, channelFlush_none (h := ⟨p, current⟩) hframe] at hvolume
        exact hvolume

/-- What a failed flush leaves a channel as it was: it was on error with that error. -/
theorem fields_stuck (ch : Channel) (error : OticError) :
    (ch.stuck error).fields = ch.fields ↔ ch.base.error = error ∧ ch.base.state = .onError := by
  constructor
  · intro hsame
    have hbase : { ch.base with error := error, state := OticState.onError } = ch.base :=
      congrArg Channel.base hsame
    exact ⟨(congrArg Base.error hbase).symm, (congrArg Base.state hbase).symm⟩
  · rintro ⟨rfl, hstate⟩
    have hbase : { ch.base with state := OticState.onError } = ch.base := by rw [← hstate]
    simp only [Channel.stuck, Channel.fields, hbase]

/-- The channel `otic_pack_flush` stops at gets the error and keeps its state. -/
theorem fields_stuck_error (ch : Channel) (error : OticError) :
    (ch.stuck error).fields =
        ({ ch with base := { ch.base with error := error } } : Channel).fields ↔
      ch.base.state = .onError := by
  constructor
  · intro hsame
    exact (congrArg (fun ch : Channel => ch.base.state) hsame).symm
  · intro hstate
    have hbase : { ch.base with error := error, state := OticState.onError } =
        { ch.base with error := error } := by rw [← hstate]
    simp only [Channel.stuck, Channel.fields, hbase]

/-- With no bucket that can be compressed nothing is sent either way, and what is left to
compare are the errors and states of the channels. -/
theorem flushesAlike_of_incompressible {pack : OticPack}
    (hnone : ∀ ch ∈ pack.channels, Incompressible zstd ch) :
    FlushesAlike zstd pack ↔ (∀ ch ∈ pack.channels, ch.base.state = .onError) ∧
      ∀ ch ∈ pack.channels.tail, ch.base.error = .zstd := by
  rcases pack with ⟨parent, channels, overran⟩
  cases channels with
  | nil =>
    refine iff_of_true ⟨rfl, rfl, rfl, rfl, rfl⟩ ⟨?_, ?_⟩ <;>
      exact fun _ hch => absurd hch List.not_mem_nil
  | cons current previous =>
    have hframe : zstd.compress current.base.cacheSize.toNat current.pending = none :=
      hnone current List.mem_cons_self
    simp only [FlushesAlike, OticPack.flush, OticPack.flushChannels, hframe, flushEach_none hnone,
      Bool.false_eq_true, if_false, reduceCtorEq, true_and, List.map_cons, List.cons.injEq,
      List.tail_cons, List.forall_mem_cons, List.map_map]
    have hfirst := fields_stuck_error current .zstd
    have hrest : previous.map Channel.fields =
        previous.map (Channel.fields ∘ fun ch => ch.stuck .zstd) ↔
          ∀ ch ∈ previous, ch.base.error = .zstd ∧ ch.base.state = .onError := by
      rw [List.map_inj_left]
      exact forall₂_congr fun ch _ => by rw [← fields_stuck, eq_comm]; rfl
    rw [hrest]
    constructor
    · rintro ⟨hhead, htail⟩
      exact ⟨⟨hfirst.mp hhead.symm, fun ch hch => (htail ch hch).2⟩,
        fun ch hch => (htail ch hch).1⟩
    · rintro ⟨⟨hstate, hstates⟩, herrors⟩
      exact ⟨(hfirst.mpr hstate).symm, fun ch hch => ⟨herrors ch hch, hstates ch hch⟩⟩

/-- With a bucket that can be compressed the two send different bytes. -/
theorem incompressible_of_flushesAlike (hlossless : zstd.Lossless) {pack : OticPack}
    (halike : FlushesAlike zstd pack) : ∀ ch ∈ pack.channels, Incompressible zstd ch := by
  cases hchannels : pack.channels with
  | nil => exact fun _ hch => absurd hch List.not_mem_nil
  | cons current previous =>
    cases hframe : zstd.compress current.base.cacheSize.toNat current.pending with
    | some frame => exact absurd halike (not_flushesAlike hlossless hchannels hframe)
    | none =>
      -- the pack stopped at its first channel, so the channels sent nothing
      apply incompressible_of_volume hlossless _ pack.parent
      obtain ⟨hhanded, -⟩ := halike
      rw [(flush_handed pack).1, hchannels] at hhanded
      simp only [OticPack.flushChannels, hframe] at hhanded
      exact Nat.le_of_eq (congrArg List.length hhanded.symm)

/-- **Flushing a pack is flushing its channels** only if there is nothing to send: no
bucket can be compressed, and what each failure leaves behind was there before. -/
theorem flushesAlike_iff (hlossless : zstd.Lossless) (pack : OticPack) :
    FlushesAlike zstd pack ↔
      (∀ ch ∈ pack.channels, Incompressible zstd ch ∧ ch.base.state = .onError) ∧
        ∀ ch ∈ pack.channels.tail, ch.base.error = .zstd := by
  constructor
  · intro halike
    have hnone := incompressible_of_flushesAlike hlossless halike
    obtain ⟨hstates, herrors⟩ := (flushesAlike_of_incompressible hnone).mp halike
    exact ⟨fun ch hch => ⟨hnone ch hch, hstates ch hch⟩, herrors⟩
  · rintro ⟨hchannels, herrors⟩
    exact (flushesAlike_of_incompressible fun ch hch => (hchannels ch hch).1).mpr
      ⟨fun ch hch => (hchannels ch hch).2, herrors⟩

/-- Two channels with buckets of one byte, which no frame fits in, after a flush of each. -/
def stuckPack : OticPack :=
  (((OticPack.init 0 []).run Zstd.stored
    [⟨.define OTIC_CHANNEL_TYPE_SENSOR 1 1, []⟩, ⟨.define OTIC_CHANNEL_TYPE_SENSOR 2 1, []⟩,
      ⟨.flush 1, []⟩, ⟨.flush 2, []⟩]).map Prod.snd).getD (OticPack.init 0 [])

/-- A pack with one open channel. -/
def onePack : OticPack := ((OticPack.init 0 []).defineChannel OTIC_CHANNEL_TYPE_SENSOR 1 0).2

theorem flushesAlike_iff_stuck :
    stuckPack.channels.length = 2 ∧ FlushesAlike Zstd.stored stuckPack := by
  refine ⟨rfl, (flushesAlike_iff Zstd.stored_lossless _).mpr ⟨?_, ?_⟩⟩
  · exact List.forall_mem_cons.mpr ⟨⟨rfl, rfl⟩,
      List.forall_mem_cons.mpr ⟨⟨rfl, rfl⟩, List.forall_mem_nil _⟩⟩
  · exact List.forall_mem_cons.mpr ⟨rfl, List.forall_mem_nil _⟩

theorem not_flushesAlike_onePack : ¬ FlushesAlike Zstd.stored onePack :=
  @not_flushesAlike _ Zstd.stored_lossless _ _ _ rfl (Zstd.storedFrame []) rfl

end Otic.Pack
