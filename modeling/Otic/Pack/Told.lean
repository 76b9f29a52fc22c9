import Otic.Pack.Expected
import Otic.Pack.FlushPoints

/-!
# Calls as the encoder is told them

The flush that makes room for a text may fail, for the compressor or for the flusher, and
the call is refused after its timestamp was written.  To the encoder this is a call with a
text that is too long.  So whatever becomes of the flushes, calls on a channel are a run
of the encoder on the calls it is told, and those that returned 1 are told as they are
(`moves_told`).
-/

namespace Otic.Pack

/-- A text that is one byte too long. -/
def overlongText (limit : UInt32) : CStr where
  bytes := List.replicate (limit.toNat + 1) 0x61
  nulFree := by
    rw [List.mem_replicate]
    exact fun h => absurd h.2 (by decide)
  sized := by
    have := limit.toNat_lt
    rw [List.length_replicate]
    omega

/-- The call with such a text. -/
def Call.overlong (c : Call) (limit : UInt32) : Call :=
  { c with value := .string (overlongText limit), heap := [] }

theorem Encoder.inject_overlong (enc : Encoder) (c : Call) (limit : UInt32)
    {records : List Record} (hclock : enc.clock c.tick = some records) :
    enc.inject limit.toNat (c.overlong limit) =
      ⟨false, { enc with timestampCurrent := c.tick }, records⟩ := by
  have hlong : limit.toNat < (c.overlong limit).value.textSize := by
    change limit.toNat < (List.replicate (limit.toNat + 1) _).length
    rw [List.length_replicate]
    exact Nat.lt_succ_self _
  have htick : enc.clock (c.overlong limit).tick = some records := hclock
  simp only [Encoder.inject, htick, if_pos hlong]
  rfl

variable {zstd : Zstd} {h : Handle} {held : List Record} {limit : UInt32}

/-- Whatever becomes of a call, records are sent or held back. -/
theorem inject_sends (hlossless : zstd.Lossless) (hheld : h.channel.pending = encodeAll held)
    (hsound : h.channel.Sound) (hanswers : NeverTorn h.parent.answers) (c : Call) :
    ∃ records sent held', Sends zstd h held records sent (c.inject zstd h).2 held' := by
  obtain ⟨ok, h', hcall, ⟨-, -, sent, held', hsends⟩ | hstalls⟩ :=
    inject_spec hlossless hheld hsound hanswers c
  · rw [hcall]
    exact ⟨_, sent, held', hsends⟩
  · obtain ⟨records, -, sent, held', hsends⟩ := hstalls.stamp
    rw [hcall]
    exact ⟨records, sent, held', hsends⟩

/-- **An inject** is for the encoder the call itself or one with a text that is too long;
it is the call itself if it returned 1. -/
theorem inject_told (hlossless : zstd.Lossless) (hheld : h.channel.pending = encodeAll held)
    (hsound : h.channel.Sound) (hanswers : NeverTorn h.parent.answers)
    (hlimit : h.channel.threshold = limit.toNat) (c : Call) :
    ∃ told ok h', c.inject zstd h = (ok, h') ∧ (ok = true → told = c) ∧
      Follows zstd h held (h.channel.encoder.inject limit.toNat told) ok h' := by
  obtain ⟨ok, h', hcall, hfollows | hstalls⟩ := inject_spec hlossless hheld hsound hanswers c
  · rw [hlimit] at hfollows
    exact ⟨c, ok, h', hcall, fun _ => rfl, hfollows⟩
  · obtain ⟨records, hclock, hsends⟩ := hstalls.stamp
    refine ⟨c.overlong limit, ok, h', hcall, fun hok => ?_, ?_⟩
    · rw [hstalls.refused] at hok
      cases hok
    · rw [Encoder.inject_overlong _ c limit hclock]
      exact ⟨hstalls.refused, hstalls.encoder, hsends⟩

/-- **Any calls on a channel** are a run of the encoder. -/
theorem moves_told (hlossless : zstd.Lossless) (moves : List Move) :
    ∀ {h : Handle} {held : List Record}, h.channel.pending = encodeAll held →
      h.channel.Sound → NeverTorn h.parent.answers → h.channel.threshold = limit.toNat →
      ∃ told, let out := h.channel.encoder.run limit.toNat told
        (h.moves zstd moves).1 = out.oks ∧ (h.moves zstd moves).2.channel.encoder = out.encoder ∧
        acceptedCalls told out.oks = acceptedCalls (injectsOf moves) out.oks ∧
        ∃ sent held', Sends zstd h held out.records sent (h.moves zstd moves).2 held' := by
  induction moves with
  | nil =>
    intro h held hheld hsound hanswers _
    exact ⟨[], rfl, rfl, rfl, [], held, Sends.idle hheld hsound hanswers rfl rfl rfl rfl⟩
  | cons m moves ih =>
    intro h held hheld hsound hanswers hlimit
    cases m with
    | inject c =>
      obtain ⟨first, ok, h₁, hcall, hfirst, hok, hencoder, sent, held₁, hsends⟩ :=
        inject_told hlossless hheld hsound hanswers hlimit c
      have hlimit₁ : h₁.channel.threshold = limit.toNat :=
        (congrArg Shape.threshold hsends.shape).trans hlimit
      obtain ⟨told, hoks, hencoder', haccepted, sent', held', hsends'⟩ :=
        ih hsends.pending hsends.sound hsends.neverTorn hlimit₁
      have hmoves : h.moves zstd (.inject c :: moves) =
          (ok :: (h₁.moves zstd moves).1, (h₁.moves zstd moves).2) := by
        simp only [Handle.moves, hcall]
      rw [hencoder] at hoks hencoder' haccepted hsends'
      rw [hmoves]
      refine ⟨first :: told, ?_, hencoder', ?_, sent ++ sent', held', hsends.trans hsends'⟩
      · change ok :: (h₁.moves zstd moves).1 = _
        rw [hoks, hok]
        rfl
      · change acceptedCalls (first :: told) (_ :: _) =
          acceptedCalls (c :: injectsOf moves) (_ :: _)
        rw [acceptedCalls_cons, acceptedCalls_cons, haccepted]
        split
        · rename_i htrue
          rw [hfirst (hok.trans htrue)]
        · rfl
    | flush =>
      obtain ⟨ok, h₁, hflush, hencoder, -, hsent⟩ :=
        channelFlush_spec hlossless hheld hsound hanswers
      obtain ⟨sent, held₁, hsends⟩ : ∃ sent held₁, Sends zstd h held [] sent h₁ held₁ := by
        rcases hsent with ⟨-, frame, hsends⟩ | ⟨-, hsends⟩
        · exact ⟨_, _, hsends⟩
        · exact ⟨_, _, hsends⟩
      have hlimit₁ : h₁.channel.threshold = limit.toNat :=
        (congrArg Shape.threshold hsends.shape).trans hlimit
      obtain ⟨told, hoks, hencoder', haccepted, sent', held', hsends'⟩ :=
        ih hsends.pending hsends.sound hsends.neverTorn hlimit₁
      have hmoves : h.moves zstd (.flush :: moves) = h₁.moves zstd moves := by
        simp only [Handle.moves, hflush]
      rw [hencoder] at hoks hencoder' haccepted hsends'
      rw [hmoves]
      exact ⟨told, hoks, hencoder', haccepted, _, held', hsends.trans hsends'⟩

/-- **The close** of a channel whose last block is not compressed hands over nothing. -/
theorem finish_failed (hclosable : ¬ h.channel.Closable zstd) :
    (h.finish zstd).parent.accepted = h.parent.accepted := by
  have hnone : zstd.compress h.channel.base.cacheSize.toNat h.channel.lastBlock = none :=
    Option.not_isSome_iff_eq_none.mp hclosable
  have hblock : (h.channel.put (Record.eof h.channel.base.rowCounter).encode).pending =
      h.channel.lastBlock := rfl
  have hsize : (h.channel.put (Record.eof h.channel.base.rowCounter).encode).base.cacheSize =
      h.channel.base.cacheSize := rfl
  simp only [finish_eq, Handle.channelFlush, hblock, hsize, hnone]
  rfl

end Otic.Pack
