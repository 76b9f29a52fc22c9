import Otic.Pack.FlushPoints
import Otic.Pack.Sessions
import Otic.Stored

/-!
# When every block is compressed

The threshold of a bucket is 512 bytes below its end, and a row and the end mark take at
most 284 of them.  So a compressor that compresses every block which leaves it the other
228 bytes compresses all blocks of a session whose flusher takes everything
(`Session.packed_of_ample`).
-/

namespace Otic

/-- What is left of the 512 bytes above the threshold. -/
def COMPRESS_ROOM : Nat := 228

/-- Every block that leaves as much room is compressed. -/
def Zstd.Ample (zstd : Zstd) (capacity : Nat) : Prop :=
  ∀ block, block.length + COMPRESS_ROOM ≤ capacity → (zstd.compress capacity block).isSome

theorem Zstd.stored_ample (capacity : Nat) : Zstd.stored.Ample capacity := by
  intro block hroom
  apply stored_isSome
  have hless : 9 ≤ COMPRESS_ROOM := by decide
  omega

end Otic

namespace Otic.Pack

variable {zstd : Zstd} {h h₁ h₂ : Handle} {k : Nat}

/-! ### Blocks given to the compressor -/

/-- From `h` to `h'` the compressor was given some blocks, and has compressed them. -/
structure Feeds (zstd : Zstd) (h h' : Handle) : Prop where
  cacheSize : h'.channel.base.cacheSize = h.channel.base.cacheSize
  given : ∃ blocks, h'.channel.cCtx = h.channel.cCtx ++ blocks ∧
    ∀ block ∈ blocks, (zstd.compress h.channel.base.cacheSize.toNat block).isSome

theorem Feeds.still (hsize : h₁.channel.base.cacheSize = h.channel.base.cacheSize)
    (hcctx : h₁.channel.cCtx = h.channel.cCtx) : Feeds zstd h h₁ :=
  ⟨hsize, [], by rw [hcctx, List.append_nil], fun block hblock => by cases hblock⟩

theorem Feeds.trans (h₀₁ : Feeds zstd h h₁) (h₁₂ : Feeds zstd h₁ h₂) : Feeds zstd h h₂ := by
  obtain ⟨blocks₁, hblocks₁, hall₁⟩ := h₀₁.given
  obtain ⟨blocks₂, hblocks₂, hall₂⟩ := h₁₂.given
  refine ⟨h₁₂.cacheSize.trans h₀₁.cacheSize, blocks₁ ++ blocks₂, ?_, fun block hblock => ?_⟩
  · rw [hblocks₂, hblocks₁, List.append_assoc]
  · rcases List.mem_append.mp hblock with hblock | hblock
    · exact hall₁ block hblock
    · rw [← h₀₁.cacheSize]
      exact hall₂ block hblock

theorem Feeds.packed (hfeeds : Feeds zstd h h₁) : h.Packed zstd h₁ := by
  obtain ⟨blocks, hblocks, hall⟩ := hfeeds.given
  rw [Handle.Packed, hblocks, List.drop_left]
  exact hall

/-! ### One channel -/

/-- A channel all of whose blocks will be compressed and taken. -/
structure Handle.Easy (zstd : Zstd) (extra : Nat) (h : Handle) : Prop where
  roomy : h.channel.Roomy extra
  ample : zstd.Ample h.channel.base.cacheSize.toNat
  willing : Willing h.parent.answers

theorem Handle.Easy.change (he : h.Easy zstd k) (hroom : h₁.channel.Roomy k)
    (hsize : h₁.channel.base.cacheSize = h.channel.base.cacheSize)
    (hparent : h₁.parent.answers = h.parent.answers) : h₁.Easy zstd k := by
  refine ⟨hroom, ?_, ?_⟩
  · rw [hsize]
    exact he.ample
  · rw [hparent]
    exact he.willing

/-- **A flush** goes through. -/
theorem Handle.Easy.flush (hlossless : zstd.Lossless) (he : h.Easy zstd k) (hk : k ≤ 284) :
    (h.channelFlush zstd).1 = true ∧ Feeds zstd h (h.channelFlush zstd).2 ∧
      (h.channelFlush zstd).2.Easy zstd 0 ∧
        (h.channelFlush zstd).2.channel = h.channel.flushed := by
  have hpending := he.roomy.pending
  have hsize := he.roomy.size
  have hlimit : OTIC_PACK_CACHE_TOP_LIMIT.toNat = 512 := rfl
  have hsome := he.ample h.channel.pending (by
    have hroom : COMPRESS_ROOM = 228 := rfl
    omega)
  obtain ⟨frame, hframe⟩ := Option.isSome_iff_exists.mp hsome
  have hlength : ¬ UInt32.size ≤ frame.length := by
    have := hlossless.compress_le hframe
    have := h.channel.base.cacheSize.toNat_lt
    simp only [UInt32.size]
    omega
  have hflush : (h.channelFlush zstd).1 = true ∧
      Willing (h.channelFlush zstd).2.parent.answers := by
    simp only [Handle.channelFlush, hframe, if_neg hlength, Parent.flusher, he.willing.headD,
      he.willing.tail.headD, Bool.not_true, Bool.false_eq_true, if_false]
    exact ⟨trivial, he.willing.tail.tail⟩
  obtain ⟨n, -, -, hiff, hempty⟩ := @fails_channelFlush zstd h
  have hchannel := hempty (hiff.mp hflush.1)
  refine ⟨hflush.1, ⟨by rw [hchannel]; rfl, [h.channel.pending], channelFlush_given h, ?_⟩,
    ⟨?_, ?_, hflush.2⟩, hchannel⟩
  · intro block hblock
    rw [List.mem_singleton.mp hblock]
    exact hsome
  · rw [hchannel]
    exact he.roomy.flushed
  · rw [hchannel]
    exact he.ample

theorem Handle.Easy.flushIfFlushable (hlossless : zstd.Lossless) (he : h.Easy zstd k)
    (hk : k ≤ 284) :
    Feeds zstd h (h.flushIfFlushable zstd) ∧ (h.flushIfFlushable zstd).Easy zstd 0 := by
  unfold Handle.flushIfFlushable
  split
  · obtain ⟨-, hfeeds, heasy, -⟩ := he.flush hlossless hk
    exact ⟨hfeeds, heasy⟩
  · rename_i hbelow
    exact ⟨.still rfl rfl, ⟨he.roomy.inside, he.roomy.size, by omega⟩, he.ample, he.willing⟩

theorem Handle.Easy.stamped (hlossless : zstd.Lossless) (he : h.Easy zstd 0) (tick : UInt64) :
    Feeds zstd h (h.stamped zstd tick) ∧ (h.stamped zstd tick).Easy zstd 0 := by
  unfold Handle.stamped
  split
  · exact ⟨.still rfl rfl, he⟩
  · have hlength := length_stamp_le h.channel.encoder tick
    have hclocked : (h.channel.clocked tick).Roomy 0 :=
      ⟨he.roomy.inside, he.roomy.size, he.roomy.pending⟩
    have hput : Handle.Easy zstd 11
        ⟨h.parent, (h.channel.clocked tick).put (h.channel.encoder.stamp tick)⟩ := by
      have hbelow := hclocked.pending
      exact ⟨hclocked.put (by omega) (by omega), he.ample, he.willing⟩
    have hstill : Feeds zstd h
        ⟨h.parent, (h.channel.clocked tick).put (h.channel.encoder.stamp tick)⟩ := .still rfl rfl
    obtain ⟨hfeeds, heasy⟩ := hput.flushIfFlushable hlossless (by omega)
    exact ⟨hstill.trans hfeeds, heasy⟩

theorem Handle.Easy.makeRoom (hlossless : zstd.Lossless) (he : h.Easy zstd 0) {textSize : Nat}
    (hshort : textSize ≤ h.channel.threshold) :
    Feeds zstd h (h.makeRoom zstd textSize).2 ∧ (h.makeRoom zstd textSize).2.Easy zstd 0 ∧
      (h.makeRoom zstd textSize).2.channel.pending.length + textSize ≤
        (h.makeRoom zstd textSize).2.channel.threshold := by
  unfold Handle.makeRoom
  split
  · obtain ⟨-, hfeeds, heasy, hchannel⟩ := he.flush hlossless (by omega)
    refine ⟨hfeeds, heasy, ?_⟩
    rw [hchannel]
    exact (Nat.zero_add textSize).le.trans hshort
  · rename_i hspace
    have hbelow := he.roomy.pending
    exact ⟨.still rfl rfl, he, by dsimp only; omega⟩

/-- **An inject** gives the compressor blocks that it compresses. -/
theorem Handle.Easy.inject (hlossless : zstd.Lossless) (he : h.Easy zstd 0) (c : Call) :
    Feeds zstd h (c.inject zstd h).2 ∧ (c.inject zstd h).2.Easy zstd 0 := by
  have hcourse := @AnyCall.course zstd c.any h
  rw [Call.inject_any] at hcourse
  rcases hout : c.inject zstd h with ⟨ok, h'⟩
  rw [hout] at hcourse
  obtain ⟨hfeeds₁, heasy₁⟩ := he.stamped hlossless c.any.tick
  cases hcourse with
  | late hclock =>
    exact ⟨.still rfl rfl, he.change ⟨he.roomy.inside, he.roomy.size, he.roomy.pending⟩ rfl rfl⟩
  | long hclock hstamp hlong =>
    subst hstamp
    exact ⟨hfeeds₁.trans (.still rfl rfl),
      heasy₁.change ⟨heasy₁.roomy.inside, heasy₁.roomy.size, heasy₁.roomy.pending⟩ rfl rfl⟩
  | crowded hclock hstamp hshort hfull =>
    subst hstamp
    obtain ⟨hfeeds₂, heasy₂, -⟩ := heasy₁.makeRoom hlossless hshort
    rw [hfull] at hfeeds₂ heasy₂
    exact ⟨(hfeeds₁.trans hfeeds₂).trans (.still rfl rfl),
      heasy₂.change ⟨heasy₂.roomy.inside, heasy₂.roomy.size, heasy₂.roomy.pending⟩ rfl rfl⟩
  | unfit hclock hstamp hshort hmade hrow =>
    subst hstamp
    obtain ⟨hfeeds₂, heasy₂, -⟩ := heasy₁.makeRoom hlossless hshort
    rw [hmade] at hfeeds₂ heasy₂
    exact ⟨(hfeeds₁.trans hfeeds₂).trans (.still rfl rfl),
      heasy₂.change ⟨heasy₂.roomy.inside, heasy₂.roomy.size, heasy₂.roomy.pending⟩ rfl rfl⟩
  | @written h₁ h₂ enc bytes hclock hstamp hshort hmade hrow =>
    subst hstamp
    obtain ⟨hfeeds₂, heasy₂, hspace⟩ := heasy₁.makeRoom hlossless hshort
    rw [hmade] at hfeeds₂ heasy₂ hspace
    dsimp only at hfeeds₂ heasy₂ hspace
    have hsettle : c.any.settle zstd ⟨h₂.parent, (h₂.channel.put bytes).install enc⟩ =
      Handle.flushIfFlushable zstd ⟨h₂.parent, (h₂.channel.put bytes).install enc⟩ := rfl
    rw [hsettle]
    rw [Encoder.row_any, Option.map_eq_some_iff] at hrow
    obtain ⟨out, hencoded, heq⟩ := hrow
    cases heq
    have hlength := Encoder.length_row_le hencoded
    have htext : c.any.textSize = c.value.textSize := rfl
    have hput : Handle.Easy zstd 273
        ⟨h₂.parent, (h₂.channel.put (encodeAll out.2)).install out.1⟩ :=
      ⟨(heasy₂.roomy.put (by omega) (by omega)).install _, heasy₂.ample, heasy₂.willing⟩
    have hstill : Feeds zstd h₂
        ⟨h₂.parent, (h₂.channel.put (encodeAll out.2)).install out.1⟩ := .still rfl rfl
    obtain ⟨hfeeds₃, heasy₃⟩ := hput.flushIfFlushable hlossless (by omega)
    exact ⟨((hfeeds₁.trans hfeeds₂).trans hstill).trans hfeeds₃, heasy₃⟩

/-- **Any calls on a channel.** -/
theorem Handle.Easy.moves (hlossless : zstd.Lossless) (moves : List Move) :
    ∀ {h : Handle}, h.Easy zstd 0 →
      Feeds zstd h (h.moves zstd moves).2 ∧ (h.moves zstd moves).2.Easy zstd 0 := by
  induction moves with
  | nil => exact fun he => ⟨.still rfl rfl, he⟩
  | cons m moves ih =>
    intro h he
    cases m with
    | inject c =>
      obtain ⟨hfeeds, he₁⟩ := he.inject hlossless c
      obtain ⟨hfeeds', he'⟩ := ih he₁
      exact ⟨hfeeds.trans hfeeds', he'⟩
    | flush =>
      obtain ⟨-, hfeeds, he₁, -⟩ := he.flush hlossless (by omega)
      obtain ⟨hfeeds', he'⟩ := ih he₁
      exact ⟨hfeeds.trans hfeeds', he'⟩

theorem Channel.closable_of_ample {ch : Channel} (hroom : ch.Roomy 0)
    (hample : zstd.Ample ch.base.cacheSize.toNat) : ch.Closable zstd := by
  have hmark := length_encode_le (.eof ch.base.rowCounter)
  have hpending := hroom.pending
  have hsize := hroom.size
  have hlimit : OTIC_PACK_CACHE_TOP_LIMIT.toNat = 512 := rfl
  have hless : COMPRESS_ROOM = 228 := rfl
  dsimp only at hmark
  apply hample
  rw [Channel.lastBlock, List.length_append]
  omega

/-! ### Sessions -/

/-- A definition asks for a bucket from which every block is compressed. -/
def Op.Ample (zstd : Zstd) : Op → Prop
  | .define _ _ bufferSize => zstd.Ample (OticPack.effectiveSize bufferSize).toNat
  | _ => True

/-- The blocks of all open channels will be compressed. -/
def OticPack.Easy (zstd : Zstd) (pack : OticPack) : Prop :=
  ∀ ch ∈ pack.channels, ch.Roomy 0 ∧ zstd.Ample ch.base.cacheSize.toNat

variable {pack : OticPack}

theorem OticPack.Easy.handle (he : pack.Easy zstd) {answers : List Bool}
    (hwilling : Willing answers) {id : UInt8} (hh : h ∈ (pack.hear answers).handle id) :
    h.Easy zstd 0 := by
  obtain ⟨hparent, hmem, -⟩ := handle_eq_some hh
  refine ⟨(he _ hmem).1, (he _ hmem).2, ?_⟩
  rw [hparent]
  exact hwilling

theorem OticPack.Easy.update (he : pack.Easy zstd) (hh : h.Easy zstd 0) (answers : List Bool) :
    ((pack.hear answers).update h).Easy zstd := by
  intro ch hch
  rcases mem_update hch with rfl | ⟨hch, -⟩
  · exact ⟨hh.roomy, hh.ample⟩
  · exact he ch hch

/-- **A step** gives the compressor blocks that it compresses. -/
theorem OticPack.Easy.step (hlossless : zstd.Lossless) (he : pack.Easy zstd) {s : Step}
    (hwilling : Willing s.answers) (hsized : s.op.Sized) (hample : s.op.Ample zstd) :
    s.Packed zstd pack ∧ ∀ out ∈ pack.step zstd s, out.2.Easy zstd := by
  obtain ⟨op, answers⟩ := s
  cases op with
  | define channelType id bufferSize =>
    refine ⟨trivial, fun out hout => ?_⟩
    have heq : (pack.hear answers).defineChannel channelType id bufferSize = out :=
      Option.some.inj hout
    subst heq
    unfold OticPack.defineChannel
    split
    · exact he
    split
    · exact he
    split
    · exact he
    · intro ch hch
      rcases List.mem_cons.mp hch with rfl | hch
      · exact ⟨Channel.roomy_init id channelType hsized, hample⟩
      · exact he ch hch
  | inject id c =>
    refine ⟨fun h hh => ?_, fun out hout => ?_⟩
    · exact ((he.handle hwilling hh).inject hlossless c).1.packed
    · obtain ⟨h, hh, rfl⟩ := Option.map_eq_some_iff.mp hout
      exact he.update ((he.handle hwilling hh).inject hlossless c).2 answers
  | flush id =>
    refine ⟨fun h hh => ?_, fun out hout => ?_⟩
    · exact ((he.handle hwilling hh).flush hlossless (by omega)).2.1.packed
    · obtain ⟨h, hh, rfl⟩ := Option.map_eq_some_iff.mp hout
      exact he.update ((he.handle hwilling hh).flush hlossless (by omega)).2.2.1 answers
  | close id =>
    refine ⟨fun h hh => ?_, fun out hout => ?_⟩
    · have heasy := he.handle hwilling hh
      exact Channel.closable_of_ample heasy.roomy heasy.ample
    · obtain ⟨h, hh, rfl⟩ := Option.map_eq_some_iff.mp hout
      exact fun ch hch => he ch (List.mem_of_mem_eraseP hch)

theorem OticPack.Easy.run (hlossless : zstd.Lossless) {steps : List Step}
    (hwilling : ∀ s ∈ steps, Willing s.answers) (hsized : ∀ s ∈ steps, s.op.Sized)
    (hample : ∀ s ∈ steps, s.op.Ample zstd) : ∀ {pack : OticPack}, pack.Easy zstd →
      PackedRun zstd pack steps ∧ ∀ out ∈ pack.run zstd steps, out.2.Easy zstd := by
  induction steps with
  | nil =>
    intro pack he
    refine ⟨trivial, fun out hout => ?_⟩
    have heq : ([], pack) = out := Option.some.inj hout
    rw [← heq]
    exact he
  | cons s steps ih =>
    intro pack he
    obtain ⟨hpacked, hlater⟩ := he.step hlossless (hwilling s List.mem_cons_self)
      (hsized s List.mem_cons_self) (hample s List.mem_cons_self)
    have hrest := @ih (fun t ht => hwilling t (List.mem_cons_of_mem _ ht))
      (fun t ht => hsized t (List.mem_cons_of_mem _ ht))
      fun t ht => hample t (List.mem_cons_of_mem _ ht)
    refine ⟨⟨hpacked, fun out hout => (hrest (hlater out hout)).1⟩, fun out hout => ?_⟩
    have hrun : pack.run zstd (s :: steps) = some out := hout
    simp only [OticPack.run, Option.bind_eq_bind, Option.bind_eq_some_iff, Option.some.injEq,
      Prod.exists] at hrun
    obtain ⟨ok, pack₁, hstep, oks, pack₂, hrun₁, rfl⟩ := hrun
    exact (hrest (hlater _ hstep)).2 (oks, pack₂) hrun₁

/-- **Every block of a session is compressed** if the flusher takes everything and the
buckets of its channels are ample. -/
theorem Session.packed_of_ample {s : Session} (hundisturbed : s.Undisturbed)
    (hlossless : zstd.Lossless) (hsized : ∀ st ∈ s.steps, st.op.Sized)
    (hample : ∀ st ∈ s.steps, st.op.Ample zstd) : s.Packed zstd := by
  have hinit : (OticPack.init s.features s.opening).Easy zstd := fun ch hch => by cases hch
  obtain ⟨hsteps, hlast⟩ := hinit.run hlossless hundisturbed.steps hsized hample
  refine ⟨hsteps, fun out hout ch hch => ?_⟩
  obtain ⟨hroom, hroomy⟩ := hlast out hout ch hch
  exact Channel.closable_of_ample hroom hroomy

end Otic.Pack
