import Otic.Stored
import Otic.Pack.Frame

/-!
# Flush points are invisible

The records of a channel are decided by its encoder, and the encoder knows nothing of
the bucket.  Where a channel is flushed, and how large its bucket is, only decides
where the records are cut into blocks.
-/

namespace Otic.Pack

/-- A call on an open channel: an inject, or `otic_pack_channel_flush`. -/
inductive Move where
  | inject (c : Call)
  | flush

/-- The injects among some calls. -/
def injectsOf (moves : List Move) : List Call :=
  moves.filterMap fun m =>
    match m with
    | .inject c => some c
    | .flush => none

/-- Calls one after the other, with the results of the injects. -/
def Handle.moves (zstd : Zstd) : Handle → List Move → List Bool × Handle
  | h, [] => ([], h)
  | h, .inject c :: moves =>
      let (ok, h) := c.inject zstd h
      let (oks, h) := h.moves zstd moves
      (ok :: oks, h)
  | h, .flush :: moves => (h.channelFlush zstd).2.moves zstd moves

/-- A channel from its definition to its close. -/
def Handle.life (zstd : Zstd) (parent : Parent) (id channelType : UInt8) (bucketSize : UInt32)
    (moves : List Move) : List Bool × Handle :=
  let (oks, h) := Handle.moves zstd ⟨parent, Channel.init id channelType bucketSize⟩ moves
  (oks, h.finish zstd)

/-- A sequence of records was cut into these blocks. -/
def Cut (records : List Record) (blocks : List (List UInt8)) : Prop :=
  ∃ parts : List (List Record), parts.flatten = records ∧ blocks = parts.map encodeAll

/-- The blocks hold the bytes of the records, one after the other. -/
theorem Cut.flatten {records : List Record} {blocks : List (List UInt8)} (h : Cut records blocks) :
    blocks.flatten = encodeAll records := by
  obtain ⟨parts, rfl, rfl⟩ := h
  induction parts with
  | nil => rfl
  | cons part parts ih =>
    rw [List.map_cons, List.flatten_cons, ih, List.flatten_cons, encodeAll_append]

variable {zstd : Zstd}

theorem Encoder.run_limit {limit limit' : Nat} {cs : List Call}
    (h : ∀ c ∈ cs, c.value.textSize ≤ limit) (h' : ∀ c ∈ cs, c.value.textSize ≤ limit')
    (enc : Encoder) : enc.run limit cs = enc.run limit' cs := by
  induction cs generalizing enc with
  | nil => rfl
  | cons c cs ih =>
    have hinject : enc.inject limit c = enc.inject limit' c := by
      have hfits := Nat.not_lt.mpr (h c List.mem_cons_self)
      have hfits' := Nat.not_lt.mpr (h' c List.mem_cons_self)
      simp only [Encoder.inject, if_neg hfits, if_neg hfits']
    simp only [Encoder.run, hinject]
    rw [ih (fun d hd => h d (List.mem_cons_of_mem _ hd))
      fun d hd => h' d (List.mem_cons_of_mem _ hd)]

/-- A call on a channel comes to what it would without its result. -/
theorem onwards_move (h : Handle) (moves : List Move) :
    ∃ records, Onwards h.channel records (h.moves zstd moves).2.channel := by
  induction moves generalizing h with
  | nil => exact ⟨[], .refl _⟩
  | cons m moves ih =>
    cases m with
    | inject c =>
      obtain ⟨out, -, -, -, hon⟩ := @onwards_inject zstd c h
      obtain ⟨records, hlater⟩ := ih (c.inject zstd h).2
      exact ⟨_, hon.trans hlater⟩
    | flush =>
      obtain ⟨records, hlater⟩ := ih (h.channelFlush zstd).2
      exact ⟨_, (onwards_channelFlush h).1.trans hlater⟩

/-- The results of calls without a text are those of the encoder, whatever compressor and
flusher do. -/
theorem oks_textless (moves : List Move) : ∀ {h : Handle},
    (∀ c ∈ injectsOf moves, c.value.textSize = 0) →
      (h.moves zstd moves).1 =
        (h.channel.encoder.run h.channel.threshold (injectsOf moves)).oks := by
  induction moves with
  | nil => exact fun _ => rfl
  | cons move moves ih =>
    intro h htexts
    cases move with
    | flush =>
      obtain ⟨hon, hencoder⟩ := @onwards_channelFlush zstd h
      have hthreshold : (h.channelFlush zstd).2.channel.threshold = h.channel.threshold :=
        congrArg Shape.threshold hon.shape
      have hlater := @ih (h.channelFlush zstd).2 htexts
      rw [hencoder, hthreshold] at hlater
      exact hlater
    | inject c =>
      have htext : c.value.textSize = 0 := htexts c List.mem_cons_self
      obtain ⟨out, hpossible, hok, hencoder, hon⟩ := @onwards_inject zstd c h
      obtain rfl := hpossible.resolve_right fun hrefused => by
        rw [htext] at hrefused
        exact absurd hrefused.1 (lt_irrefl 0)
      have hthreshold : (c.inject zstd h).2.channel.threshold = h.channel.threshold :=
        congrArg Shape.threshold hon.shape
      have hlater := @ih (c.inject zstd h).2 fun d hd => htexts d (List.mem_cons_of_mem _ hd)
      rw [hencoder, hthreshold] at hlater
      change (c.inject zstd h).1 :: ((c.inject zstd h).2.moves zstd moves).1 = _
      rw [hok, hlater]
      rfl

/-- **Any calls on a channel**, by induction: the results are those of the encoder, and
what was written is what was sent and what is held back. -/
theorem moves_spec (hlossless : zstd.Lossless) (moves : List Move) :
    ∀ {h : Handle} {held : List Record}, h.channel.pending = encodeAll held →
      h.channel.Sound → Willing h.parent.answers → h.Packed zstd (h.moves zstd moves).2 →
      let out := h.channel.encoder.run h.channel.threshold (injectsOf moves)
      (h.moves zstd moves).1 = out.oks ∧ (h.moves zstd moves).2.channel.encoder = out.encoder ∧
        ∃ sent held', Sends zstd h held out.records sent (h.moves zstd moves).2 held' := by
  induction moves with
  | nil =>
    intro h held hheld hsound hwilling _
    exact ⟨rfl, rfl, [], held, Sends.idle hheld hsound hwilling.neverTorn rfl rfl rfl rfl⟩
  | cons m moves ih =>
    intro h held hheld hsound hwilling hpacked
    cases m with
    | inject c =>
      obtain ⟨out, -, -, -, hon⟩ := @onwards_inject zstd c h
      obtain ⟨records, hlater⟩ := @onwards_move zstd (c.inject zstd h).2 moves
      obtain ⟨hfirst, hrest⟩ := hon.packed hlater hpacked
      obtain ⟨ok, h₁, hcall, hok, hencoder, sent, held₁, hsends⟩ :=
        inject_spec_willing hlossless hheld hsound hwilling c hfirst
      rw [hcall] at hrest
      obtain ⟨hoks, hencoder', sent', held', hsends'⟩ :=
        ih hsends.pending hsends.sound (hsends.willing hwilling).1 hrest
      have hthreshold : h₁.channel.threshold = h.channel.threshold :=
        congrArg Shape.threshold hsends.shape
      have hmoves : h.moves zstd (.inject c :: moves) =
          (ok :: (h₁.moves zstd moves).1, (h₁.moves zstd moves).2) := by
        simp only [Handle.moves, hcall]
      rw [hencoder, hthreshold] at hoks hencoder' hsends'
      rw [hmoves]
      refine ⟨?_, hencoder', sent ++ sent', held', hsends.trans hsends'⟩
      change ok :: (h₁.moves zstd moves).1 = _
      rw [hoks, hok]
      rfl
    | flush =>
      obtain ⟨records, hlater⟩ := @onwards_move zstd (h.channelFlush zstd).2 moves
      obtain ⟨hfirst, hrest⟩ := (onwards_channelFlush h).1.packed hlater hpacked
      obtain ⟨ok, h₁, hflush, hencoder, hok, hsent⟩ :=
        channelFlush_spec hlossless hheld hsound hwilling.neverTorn
      rw [hflush] at hfirst hrest
      obtain ⟨frame, hsends⟩ : ∃ frame, Sends zstd h held [] [⟨held, frame⟩] h₁ [] := by
        rcases hsent with ⟨-, hsends⟩ | ⟨rfl, -⟩
        · exact hsends
        · exact absurd (hok hwilling.headD hfirst) (by decide)
      have hthreshold : h₁.channel.threshold = h.channel.threshold :=
        congrArg Shape.threshold hsends.shape
      obtain ⟨hoks, hencoder', sent', held', hsends'⟩ :=
        ih hsends.pending hsends.sound (hsends.willing hwilling).1 hrest
      have hmoves : h.moves zstd (.flush :: moves) = h₁.moves zstd moves := by
        simp only [Handle.moves, hflush]
      rw [hencoder, hthreshold] at hoks hencoder' hsends'
      rw [hmoves]
      exact ⟨hoks, hencoder', _, held', hsends.trans hsends'⟩

/-- **A channel to its close**: the results are those of the encoder, and the blocks are
a cut of its records and the end mark. -/
theorem life_spec (hlossless : zstd.Lossless) (parent : Parent)
    (hwilling : Willing parent.answers) (id channelType : UInt8) (bucketSize : UInt32)
    (moves : List Move)
    (hpacked : ∀ block ∈ (Handle.life zstd parent id channelType bucketSize moves).2.channel.cCtx,
      (zstd.compress bucketSize.toNat block).isSome) :
    let life := Handle.life zstd parent id channelType bucketSize moves
    let out := Encoder.init.run (bucketSize - OTIC_PACK_CACHE_TOP_LIMIT).toNat (injectsOf moves)
    life.1 = out.oks ∧
      Cut (out.records ++ [.eof out.encoder.rowCounter]) life.2.channel.cCtx := by
  intro life out
  let h : Handle := ⟨parent, Channel.init id channelType bucketSize⟩
  obtain ⟨records, hon⟩ := @onwards_move zstd h moves
  obtain ⟨hfirst, hrest⟩ := hon.packed (@onwards_finish zstd (h.moves zstd moves).2)
    (show h.Packed zstd ((h.moves zstd moves).2.finish zstd) from hpacked)
  obtain ⟨hoks, hencoder, sent, held, hsends⟩ :=
    moves_spec hlossless moves (show h.channel.pending = encodeAll [] from rfl)
      (Channel.sound_init id channelType bucketSize) hwilling hfirst
  obtain ⟨hwilling', hsame⟩ := hsends.willing hwilling
  obtain ⟨-, hcctx⟩ := hsame hfirst
  obtain ⟨frame, hlast⟩ :=
    finish_spec hlossless hsends.pending hwilling' ((packed_finish _).mp hrest)
  obtain ⟨-, hcctx'⟩ := (hlast.willing hwilling').2 hrest
  refine ⟨hoks, (sent.map Sent.block) ++ [held ++ [.eof out.encoder.rowCounter]], ?_, ?_⟩
  · have hcontent := hsends.content
    rw [List.nil_append] at hcontent
    rw [List.flatten_append, List.flatten_singleton, ← List.append_assoc]
    exact congrArg (· ++ _) hcontent.symm
  · have hcount : (h.moves zstd moves).2.channel.base.rowCounter = out.encoder.rowCounter :=
      congrArg Encoder.rowCounter hencoder
    change ((h.moves zstd moves).2.finish zstd).channel.cCtx = _
    rw [hcctx', hcctx, hcount, List.map_append, List.map_map]
    rfl

/-- **Flush points are invisible.**  Two lives of a channel with the same injects, in
which compressor and flusher succeed, have the same results, and their blocks are cuts
of one sequence of records. -/
theorem flush_points_invisible (hlossless : zstd.Lossless) {parent parent' : Parent}
    (hwilling : Willing parent.answers) (hwilling' : Willing parent'.answers)
    (id channelType : UInt8) {bucketSize bucketSize' : UInt32} {moves moves' : List Move}
    (hsame : injectsOf moves = injectsOf moves')
    (htext : ∀ c ∈ injectsOf moves,
      c.value.textSize ≤ (bucketSize - OTIC_PACK_CACHE_TOP_LIMIT).toNat)
    (htext' : ∀ c ∈ injectsOf moves,
      c.value.textSize ≤ (bucketSize' - OTIC_PACK_CACHE_TOP_LIMIT).toNat)
    (hpacked : ∀ block ∈ (Handle.life zstd parent id channelType bucketSize moves).2.channel.cCtx,
      (zstd.compress bucketSize.toNat block).isSome)
    (hpacked' : ∀ block ∈
        (Handle.life zstd parent' id channelType bucketSize' moves').2.channel.cCtx,
      (zstd.compress bucketSize'.toNat block).isSome) :
    let life := Handle.life zstd parent id channelType bucketSize moves
    let life' := Handle.life zstd parent' id channelType bucketSize' moves'
    life.1 = life'.1 ∧ life.2.channel.cCtx.flatten = life'.2.channel.cCtx.flatten ∧
      ∃ records, Cut records life.2.channel.cCtx ∧ Cut records life'.2.channel.cCtx := by
  intro life life'
  obtain ⟨hoks, hcut⟩ := life_spec hlossless parent hwilling id channelType _ moves hpacked
  obtain ⟨hoks', hcut'⟩ := life_spec hlossless parent' hwilling' id channelType _ moves' hpacked'
  rw [← hsame, ← Encoder.run_limit htext htext'] at hoks' hcut'
  refine ⟨hoks.trans hoks'.symm, ?_, _, hcut, hcut'⟩
  rw [hcut.flatten, hcut'.flatten]

/-- Two injects, with and without a flush between them. -/
theorem flush_points_invisible_two :
    let c : Call := ⟨⟨7, by decide⟩, CStr.empty, none, .null, []⟩
    let parent : Parent := ⟨[], [], [], .none, .opened⟩
    let life := Handle.life Zstd.stored parent 1 0 512 [.inject c, .flush, .inject c]
    let life' := Handle.life Zstd.stored parent 1 0 600 [.inject c, .inject c]
    life.1 = life'.1 ∧ life.2.channel.cCtx.flatten = life'.2.channel.cCtx.flatten ∧
      ∃ records, Cut records life.2.channel.cCtx ∧ Cut records life'.2.channel.cCtx :=
  flush_points_invisible Zstd.stored_lossless (by decide) (by decide) 1 0 rfl
    (by simp [injectsOf, Value.textSize]) (by simp [injectsOf, Value.textSize])
    (by decide +kernel) (by decide +kernel)

end Otic.Pack
