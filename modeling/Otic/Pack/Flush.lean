import Otic.Pack.Refine

/-!
# What a flush can do

For any compressor and any answers of the flusher a flush either sends the bucket, or
changes nothing but errors and states and the blocks the compressor was given (`Flush`).
-/

namespace Otic.Pack

namespace Channel

/-- The channel after its bucket was sent. -/
def flushed (ch : Channel) : Channel :=
  { ch with
    cCtx := ch.cCtx ++ [ch.pending]
    pending := []
    blocksWritten := ch.blocksWritten + 1 }

/-- The channel after its bucket could not be sent. -/
def stuck (ch : Channel) (error : OticError) : Channel :=
  { ch with
    cCtx := ch.cCtx ++ [ch.pending]
    base := { ch.base with error := error, state := .onError } }

/-- How many flushes have failed: the blocks given to the compressor, less those that
were written. -/
def failures (ch : Channel) : UInt64 := UInt64.ofNat ch.cCtx.length - ch.blocksWritten

@[simp] theorem failures_flushed (ch : Channel) : ch.flushed.failures = ch.failures := by
  have hone : UInt64.ofNat 1 = 1 := rfl
  simp only [failures, flushed, List.length_append, List.length_singleton, UInt64.ofNat_add, hone]
  grind

@[simp] theorem failures_stuck (ch : Channel) (error : OticError) :
    (ch.stuck error).failures = ch.failures + 1 := by
  have hone : UInt64.ofNat 1 = 1 := rfl
  simp only [failures, stuck, List.length_append, List.length_singleton, UInt64.ofNat_add, hone]
  grind

@[simp] theorem failures_put (ch : Channel) (bytes : List UInt8) :
    (ch.put bytes).failures = ch.failures := rfl

@[simp] theorem failures_install (ch : Channel) (enc : Encoder) :
    (ch.install enc).failures = ch.failures := rfl

end Channel

namespace Handle

variable (zstd : Zstd)

/-- The compressor and the flusher take a block. -/
def takes (h : Handle) (block : List UInt8) : Bool :=
  match zstd.compress h.channel.base.cacheSize.toNat block with
  | none => false
  | some frame =>
      frame.length < UInt32.size && h.parent.answers.headD true && h.parent.answers.tail.headD true

/-- The error a flush that fails sets: one for an error code of the compressor, one for a
refusal of the flusher. -/
inductive FlushError (h : Handle) : OticError → Prop
  | compressor (hframe : zstd.compress h.channel.base.cacheSize.toNat h.channel.pending = none) :
      FlushError h .zstd
  | flusher {frame : List UInt8}
      (hframe : zstd.compress h.channel.base.cacheSize.toNat h.channel.pending = some frame)
      (hrefused : h.parent.answers.headD true = false ∨
        h.parent.answers.tail.headD true = false) : FlushError h .flushFailed

/-- What `otic_pack_channel_flush` can come to.  A frame of 2^32 bytes or more sets an
error of the parent. -/
inductive Flush (h : Handle) : Bool × Handle → Prop
  | sent (parent : Parent) (htakes : h.takes zstd h.channel.pending = true)
      (hstate : parent.state = h.parent.state) : Flush h (true, ⟨parent, h.channel.flushed⟩)
  | failed (parent : Parent) (error : OticError)
      (htakes : h.takes zstd h.channel.pending = false) (hstate : parent.state = .onError)
      (herror : FlushError zstd h error ∨ ∃ frame,
        zstd.compress h.channel.base.cacheSize.toNat h.channel.pending = some frame ∧
          UInt32.size ≤ frame.length) :
      Flush h (false, ⟨parent, h.channel.stuck error⟩)

variable {zstd} {h : Handle}

theorem flush_channelFlush (h : Handle) : Flush zstd h (h.channelFlush zstd) := by
  have htakes : h.takes zstd h.channel.pending =
      match zstd.compress h.channel.base.cacheSize.toNat h.channel.pending with
      | none => false
      | some frame => frame.length < UInt32.size && h.parent.answers.headD true &&
          h.parent.answers.tail.headD true := rfl
  unfold channelFlush
  dsimp only
  cases hframe : zstd.compress h.channel.base.cacheSize.toNat h.channel.pending with
  | none =>
    rw [hframe] at htakes
    exact .failed _ _ htakes rfl (Or.inl (.compressor hframe))
  | some frame =>
    rw [hframe] at htakes
    dsimp only at htakes ⊢
    by_cases hlong : UInt32.size ≤ frame.length
    · rw [if_pos hlong]
      have hnot : ¬ frame.length < UInt32.size := by omega
      exact .failed _ _ (by rw [htakes]; simp [hnot]) rfl
        (Or.inr ⟨frame, hframe, hlong⟩)
    · rw [if_neg hlong]
      split
      · rename_i hheader
        have hrefused : h.parent.answers.headD true = false := by
          simpa [Parent.flusher] using hheader
        refine .failed _ _ ?_ rfl (Or.inl (.flusher hframe (Or.inl hrefused)))
        rw [htakes, hrefused, Bool.and_false, Bool.false_and]
      rename_i hheader
      have htaken : h.parent.answers.headD true = true := by simpa [Parent.flusher] using hheader
      split
      · rename_i hpayload
        have hrefused : h.parent.answers.tail.headD true = false := by
          simpa [Parent.flusher] using hpayload
        refine .failed _ _ ?_ rfl (Or.inl (.flusher hframe (Or.inr hrefused)))
        rw [htakes, hrefused, Bool.and_false]
      · rename_i hpayload
        refine .sent _ ?_ rfl
        have htaken' : h.parent.answers.tail.headD true = true := by
          simpa [Parent.flusher] using hpayload
        rw [htakes, htaken, htaken', Bool.and_true, Bool.and_true, decide_eq_true_eq]
        omega

theorem kept_channelFlush (h : Handle) :
    (h.channelFlush zstd).2.channel.shape = h.channel.shape ∧
      (h.channelFlush zstd).2.channel.encoder = h.channel.encoder := by
  have hflush := @flush_channelFlush zstd h
  rcases hout : h.channelFlush zstd with ⟨ok, h'⟩
  rw [hout] at hflush
  cases hflush with
  | sent | failed => exact ⟨rfl, rfl⟩

theorem kept_flushIfFlushable (h : Handle) :
    (h.flushIfFlushable zstd).channel.shape = h.channel.shape ∧
      (h.flushIfFlushable zstd).channel.encoder = h.channel.encoder := by
  unfold flushIfFlushable
  split
  · exact kept_channelFlush h
  · exact ⟨rfl, rfl⟩

end Handle

end Otic.Pack
