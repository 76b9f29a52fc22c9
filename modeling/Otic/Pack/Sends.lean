import Otic.Format.Event
import Otic.Pack.Encoder

/-!
# What is written, sent and held back

An inject may flush the bucket up to three times: after the timestamp, before a
string, and after the row.  `Sends` is what any number of writes and flushes comes
to: the records held back before, followed by the records written, are the records
of the blocks that were sent followed by the records held back after.  The results
are stated for a flusher that never refuses the payload of a header it took
(`NeverTorn`), of which a flusher that takes everything (`Willing`) is a case, and for
any compressor: a block that is not compressed (`Handle.Packed`) stays where it is.
-/

namespace Otic.Pack

/-! ### The flusher -/

/-- The flusher takes every call. -/
def Willing (answers : List Bool) : Prop := ∀ answer ∈ answers, answer = true

instance (answers : List Bool) : Decidable (Willing answers) :=
  inferInstanceAs (Decidable (∀ answer ∈ answers, answer = true))

/-- The flusher may refuse headers, but takes the payload after a header it took. -/
def NeverTorn : List Bool → Prop
  | [] | [true] => True
  | false :: answers => NeverTorn answers
  | true :: payload :: answers => payload = true ∧ NeverTorn answers

theorem Willing.tail {answers : List Bool} (h : Willing answers) : Willing answers.tail :=
  fun _ ha => h _ (List.mem_of_mem_tail ha)

theorem Willing.headD {answers : List Bool} (h : Willing answers) : answers.headD true = true := by
  cases answers with
  | nil => rfl
  | cons answer answers => exact h answer List.mem_cons_self

theorem Willing.neverTorn : {answers : List Bool} → Willing answers → NeverTorn answers
  | [], _ => trivial
  | [true], _ => trivial
  | false :: answers, h => absurd (h false List.mem_cons_self) (by decide)
  | true :: payload :: answers, h =>
      ⟨h payload (by simp), Willing.neverTorn fun a ha => h a (by simp [ha])⟩

/-- A refused header is followed by whatever the flusher does next. -/
theorem NeverTorn.refused {answers : List Bool} (h : NeverTorn answers)
    (hhead : answers.headD true = false) : NeverTorn answers.tail := by
  match answers, h, hhead with
  | [], _, hhead => simp at hhead
  | [true], _, hhead => simp at hhead
  | false :: answers, h, _ => exact h
  | true :: _ :: _, _, hhead => simp at hhead

theorem NeverTorn.taken {answers : List Bool} (h : NeverTorn answers)
    (hhead : answers.headD true = true) :
    answers.tail.headD true = true ∧ NeverTorn answers.tail.tail := by
  match answers, h, hhead with
  | [], _, _ => exact ⟨rfl, trivial⟩
  | [true], _, _ => exact ⟨rfl, trivial⟩
  | false :: _, _, hhead => simp at hhead
  | true :: payload :: answers, h, _ => exact h

/-! ### What is kept -/

/-- What a channel keeps from its definition on. -/
structure Shape where
  channelId : UInt8
  channelType : UInt8
  cacheSize : UInt32
  threshold : Nat

def Channel.shape (ch : Channel) : Shape where
  channelId := ch.channelId
  channelType := ch.channelType
  cacheSize := ch.base.cacheSize
  threshold := ch.threshold

/-- As long as no bytes were put past the end of the bucket, what it holds ends inside. -/
def Channel.Sound (ch : Channel) : Prop :=
  ch.overrun = false → ch.pending.length ≤ ch.base.cacheSize.toNat

theorem Channel.sound_init (id channelType : UInt8) (bucketSize : UInt32) :
    (Channel.init id channelType bucketSize).Sound := fun _ => Nat.zero_le _

theorem Channel.sound_put (ch : Channel) (bytes : List UInt8) : (ch.put bytes).Sound := by
  intro hinside
  simp only [Channel.put, Bool.or_eq_false_iff, decide_eq_false_iff_not, Nat.not_lt] at hinside
  exact hinside.2

/-- From `h` to `h'` the compressor compressed every block it was given. -/
def Handle.Packed (zstd : Zstd) (h h' : Handle) : Prop :=
  ∀ block ∈ h'.channel.cCtx.drop h.channel.cCtx.length,
    (zstd.compress h.channel.base.cacheSize.toNat block).isSome

instance (zstd : Zstd) (h h' : Handle) : Decidable (h.Packed zstd h') := by
  unfold Handle.Packed
  infer_instance

/-- If every block was compressed on the way, then on both parts of it. -/
theorem Handle.Packed.split {zstd : Zstd} {h h₁ h₂ : Handle}
    (hsize : h₁.channel.base.cacheSize = h.channel.base.cacheSize)
    (hgiven : ∃ blocks, h₁.channel.cCtx = h.channel.cCtx ++ blocks)
    (hgiven' : ∃ blocks, h₂.channel.cCtx = h₁.channel.cCtx ++ blocks)
    (hpacked : h.Packed zstd h₂) : h.Packed zstd h₁ ∧ h₁.Packed zstd h₂ := by
  obtain ⟨blocks₁, hblocks₁⟩ := hgiven
  obtain ⟨blocks₂, hblocks₂⟩ := hgiven'
  unfold Handle.Packed at hpacked ⊢
  rw [hsize, hblocks₂, List.drop_left]
  rw [hblocks₂, hblocks₁, List.append_assoc, List.drop_left] at hpacked
  rw [hblocks₁, List.drop_left]
  exact ⟨fun block hblock => hpacked block (List.mem_append_left _ hblock),
    fun block hblock => hpacked block (List.mem_append_right _ hblock)⟩

theorem length_encode_le (r : Record) :
    r.encode.length ≤ match r with
      | .setTimestamp _ | .shiftTimestamp _ | .eof _ => 11
      | .nameAssign _ => 257
      | .string _ s => 16 + s.bytes.length
      | _ => 16 := by
  have hlong : ∀ value : UInt64, (leb128EncodeUnsigned value).length ≤ 10 :=
    length_leb128EncodeUnsigned
  have hindex : ∀ index : UInt32, (leb128EncodeUnsigned index.toUInt64).length ≤ 5 := by
    intro index
    refine length_leb128EncodeUnsigned_le ?_
    rw [UInt32.toNat_toUInt64]
    exact lt_of_lt_of_le index.toNat_lt (by norm_num)
  cases r with
  | nameAssign a =>
    have := a.fits
    simp only [UINT8_MAX, CStr.size] at this
    simp only [Record.encode, List.length_cons, List.length_append]
    omega
  | setTimestamp value | shiftTimestamp value | eof value =>
    have := hlong value
    simp only [Record.encode, List.length_cons]
    omega
  | smallInt _ index | null index | true index | false index | unmodified index =>
    have := hindex index
    simp only [Record.encode, List.length_cons]
    omega
  | intPos index value | intNeg index value =>
    have := hindex index
    have := hlong value
    simp only [Record.encode, List.length_cons, List.length_append]
    omega
  | double index value =>
    have := hindex index
    simp only [Record.encode, List.length_cons, List.length_append, Bytes.length_ofUInt64]
    omega
  | string index s =>
    have := hindex index
    have := hlong (UInt64.ofNat s.bytes.length)
    simp only [Record.encode, List.length_cons, List.length_append]
    omega

/-! ### What a part of a run sends -/

/-- A block that reached the flusher, with the frame it was compressed to. -/
structure Sent where
  block : List Record
  frame : List UInt8

def Sent.event (id : UInt8) (s : Sent) : Event := .data id s.block s.frame

/-- From `h` with the records `held` in its bucket to `h'` with `held'`, where
`records` were written and `sent` was sent. -/
structure Sends (zstd : Zstd) (h : Handle) (held records : List Record) (sent : List Sent)
    (h' : Handle) (held' : List Record) : Prop where
  content : held ++ records = sent.flatMap Sent.block ++ held'
  pending : h'.channel.pending = encodeAll held'
  accepted : h'.parent.accepted =
    h.parent.accepted ++ bytesOf (sent.map (Sent.event h.channel.channelId))
  compressed : ∀ s ∈ sent,
    zstd.compress h.channel.base.cacheSize.toNat (encodeAll s.block) = some s.frame
  sound : h'.channel.Sound
  inside : h'.channel.overrun = false → h.channel.overrun = false ∧
    ∀ s ∈ sent, (encodeAll s.block).length ≤ h.channel.base.cacheSize.toNat
  shape : h'.channel.shape = h.channel.shape
  neverTorn : NeverTorn h'.parent.answers
  answers : ∃ n, h'.parent.answers = h.parent.answers.drop n
  given : ∃ blocks, h'.channel.cCtx = h.channel.cCtx ++ blocks
  blocksWritten : h'.channel.blocksWritten = h.channel.blocksWritten + UInt64.ofNat sent.length
  willing : Willing h.parent.answers → Willing h'.parent.answers ∧
    (h.Packed zstd h' → h'.parent.state = h.parent.state ∧
      h'.channel.cCtx = h.channel.cCtx ++ sent.map fun s => encodeAll s.block)

namespace Sends

variable {zstd : Zstd} {h h₁ h₂ : Handle} {held held₁ held₂ records records' : List Record}
  {sent sent' : List Sent}

/-- Writing records without a flush, whatever else of the channel changes. -/
theorem write (hheld : h.channel.pending = encodeAll held)
    (hanswers : NeverTorn h.parent.answers) {ch : Channel}
    (hpending : ch.pending = h.channel.pending ++ encodeAll records) (hsound : ch.Sound)
    (hinside : ch.overrun = false → h.channel.overrun = false)
    (hshape : ch.shape = h.channel.shape)
    (hblocks : (ch.cCtx, ch.blocksWritten) = (h.channel.cCtx, h.channel.blocksWritten)) :
    Sends zstd h held records [] { h with channel := ch } (held ++ records) where
  content := by simp
  pending := by rw [encodeAll_append, ← hheld, hpending]
  accepted := by simp
  compressed := by simp
  sound := hsound
  inside := fun hover => ⟨hinside hover, by simp⟩
  shape := hshape
  neverTorn := hanswers
  answers := ⟨0, rfl⟩
  given := ⟨[], by simp [(Prod.mk.inj hblocks).1]⟩
  blocksWritten := (Prod.mk.inj hblocks).2.trans (UInt64.add_zero _).symm
  willing := fun hwilling => ⟨hwilling, fun _ => ⟨rfl, by simp [(Prod.mk.inj hblocks).1]⟩⟩

/-- Writing records at `base.top`. -/
theorem put (hheld : h.channel.pending = encodeAll held) (hanswers : NeverTorn h.parent.answers)
    (ch : Channel) (hpending : ch.pending = h.channel.pending)
    (hover : ch.overrun = h.channel.overrun) (hshape : ch.shape = h.channel.shape)
    (hblocks : (ch.cCtx, ch.blocksWritten) = (h.channel.cCtx, h.channel.blocksWritten))
    {ch' : Channel} (hch' : ch' = ch.put (encodeAll records)) :
    Sends zstd h held records [] { h with channel := ch' } (held ++ records) := by
  subst hch'
  refine write hheld hanswers (by simp [Channel.put, hpending]) (ch.sound_put _)
    (fun hinside => ?_) hshape hblocks
  rw [← hover]
  exact (Bool.or_eq_false_iff.mp hinside).1

theorem idle (hheld : h.channel.pending = encodeAll held) (hsound : h.channel.Sound)
    (hanswers : NeverTorn h.parent.answers) {ch : Channel}
    (hpending : ch.pending = h.channel.pending) (hover : ch.overrun = h.channel.overrun)
    (hshape : ch.shape = h.channel.shape)
    (hblocks : (ch.cCtx, ch.blocksWritten) = (h.channel.cCtx, h.channel.blocksWritten)) :
    Sends zstd h held [] [] { h with channel := ch } held := by
  have hcache : ch.base.cacheSize = h.channel.base.cacheSize := congrArg Shape.cacheSize hshape
  have hwrite : Sends zstd h held [] [] { h with channel := ch } (held ++ []) := by
    refine write hheld hanswers (by simpa using hpending) (fun hinside => ?_)
      (fun hinside => by rw [← hover, hinside]) hshape hblocks
    rw [hpending, hcache]
    exact hsound (by rw [← hover, hinside])
  simpa using hwrite

theorem trans (h₀₁ : Sends zstd h held records sent h₁ held₁)
    (h₁₂ : Sends zstd h₁ held₁ records' sent' h₂ held₂) :
    Sends zstd h held (records ++ records') (sent ++ sent') h₂ held₂ := by
  have hsize : h₁.channel.base.cacheSize = h.channel.base.cacheSize :=
    congrArg Shape.cacheSize h₀₁.shape
  have hid : h₁.channel.channelId = h.channel.channelId := congrArg Shape.channelId h₀₁.shape
  refine
    { content := ?_, pending := h₁₂.pending, accepted := ?_, compressed := ?_
      sound := h₁₂.sound, inside := ?_, shape := h₁₂.shape.trans h₀₁.shape
      neverTorn := h₁₂.neverTorn, answers := ?_, given := ?_, blocksWritten := ?_, willing := ?_ }
  · rw [← List.append_assoc, h₀₁.content, List.append_assoc, h₁₂.content, List.flatMap_append,
      List.append_assoc]
  · rw [h₁₂.accepted, h₀₁.accepted, hid, List.map_append, bytesOf_append, List.append_assoc]
  · intro s hs
    rcases List.mem_append.mp hs with hs | hs
    · exact h₀₁.compressed s hs
    · rw [← hsize]
      exact h₁₂.compressed s hs
  · intro hinside
    obtain ⟨hinside₁, hblocks₂⟩ := h₁₂.inside hinside
    obtain ⟨hinside₀, hblocks₁⟩ := h₀₁.inside hinside₁
    refine ⟨hinside₀, fun s hs => ?_⟩
    rcases List.mem_append.mp hs with hs | hs
    · exact hblocks₁ s hs
    · rw [← hsize]
      exact hblocks₂ s hs
  · obtain ⟨m, hm⟩ := h₀₁.answers
    obtain ⟨n, hn⟩ := h₁₂.answers
    exact ⟨m + n, by rw [hn, hm, List.drop_drop]⟩
  · obtain ⟨blocks₁, hblocks₁⟩ := h₀₁.given
    obtain ⟨blocks₂, hblocks₂⟩ := h₁₂.given
    exact ⟨blocks₁ ++ blocks₂, by rw [hblocks₂, hblocks₁, List.append_assoc]⟩
  · rw [h₁₂.blocksWritten, h₀₁.blocksWritten, List.length_append, UInt64.ofNat_add,
      UInt64.add_assoc]
  · intro hwilling
    obtain ⟨hwilling₁, hpacked₁⟩ := h₀₁.willing hwilling
    obtain ⟨hwilling₂, hpacked₂⟩ := h₁₂.willing hwilling₁
    refine ⟨hwilling₂, fun hpacked => ?_⟩
    obtain ⟨hfirst, hsecond⟩ := hpacked.split hsize h₀₁.given h₁₂.given
    obtain ⟨hstate₁, hcctx₁⟩ := hpacked₁ hfirst
    obtain ⟨hstate₂, hcctx₂⟩ := hpacked₂ hsecond
    exact ⟨hstate₂.trans hstate₁, by rw [hcctx₂, hcctx₁]; simp⟩

/-- The error and the state of the channel are no part of it. -/
theorem mark (hs : Sends zstd h held records sent h₁ held₁) {base : Base}
    (hsize : base.cacheSize = h₁.channel.base.cacheSize) :
    Sends zstd h held records sent { h₁ with channel := { h₁.channel with base := base } }
      held₁ := by
  have hshape : ({ h₁.channel with base := base } : Channel).shape = h₁.channel.shape := by
    simp [Channel.shape, hsize]
  refine { hs with sound := fun hinside => ?_, shape := hshape.trans hs.shape }
  rw [show ({ h₁.channel with base := base } : Channel).base.cacheSize =
    h₁.channel.base.cacheSize from hsize]
  exact hs.sound hinside

theorem setState (hs : Sends zstd h held records sent h₁ held₁) (state : OticState) :
    Sends zstd h held records sent (h₁.setState state) held₁ := hs.mark rfl

theorem setError (hs : Sends zstd h held records sent h₁ held₁) (error : OticError) :
    Sends zstd h held records sent (h₁.setError error) held₁ := hs.mark rfl

end Sends

/-! ### Flushing -/

variable {zstd : Zstd} {h : Handle} {held : List Record}

/-- A flush gives the compressor the bucket, whatever comes of it. -/
theorem channelFlush_given (h : Handle) :
    (h.channelFlush zstd).2.channel.cCtx = h.channel.cCtx ++ [h.channel.pending] := by
  unfold Handle.channelFlush
  dsimp only
  split
  · rfl
  · split
    · rfl
    · split
      · rfl
      · split <;> rfl

theorem packed_channelFlush (h : Handle) :
    h.Packed zstd (h.channelFlush zstd).2 ↔
      (zstd.compress h.channel.base.cacheSize.toNat h.channel.pending).isSome := by
  rw [Handle.Packed, channelFlush_given, List.drop_left]
  simp

/-- **Flushing a channel** sends the whole bucket or, if the compressor fails or the
header is refused, nothing; the encoder never notices. -/
theorem channelFlush_spec (hlossless : zstd.Lossless)
    (hheld : h.channel.pending = encodeAll held) (hsound : h.channel.Sound)
    (hanswers : NeverTorn h.parent.answers) :
    ∃ ok h', h.channelFlush zstd = (ok, h') ∧ h'.channel.encoder = h.channel.encoder ∧
      (h.parent.answers.headD true = true → h.Packed zstd h' → ok = true) ∧
      ((ok = true ∧ ∃ frame, Sends zstd h held [] [⟨held, frame⟩] h' []) ∨
        (ok = false ∧ Sends zstd h held [] [] h' held)) := by
  have hgiven := @packed_channelFlush zstd h
  cases hframe : zstd.compress h.channel.base.cacheSize.toNat h.channel.pending with
  | none =>
    -- the compressor fails before the flusher is asked
    simp only [Handle.channelFlush, hframe, Option.isSome_none, Bool.false_eq_true,
      iff_false] at hgiven ⊢
    refine ⟨false, _, rfl, rfl, fun _ hpacked => absurd hpacked hgiven, Or.inr ⟨rfl, ?_⟩⟩
    · exact
        { content := by simp
          pending := hheld
          accepted := by simp [Handle.flushFailed, Handle.setError, Handle.setState]
          compressed := by simp
          sound := hsound
          inside := fun hinside => ⟨hinside, by simp⟩
          shape := rfl
          neverTorn := hanswers
          answers := ⟨0, rfl⟩
          given := ⟨[h.channel.pending], rfl⟩
          blocksWritten := (UInt64.add_zero _).symm
          willing := fun hwilling => ⟨hwilling, fun hpacked => absurd hpacked hgiven⟩ }
  | some frame =>
    have hlength : ¬ UInt32.size ≤ frame.length := by
      have := hlossless.compress_le hframe
      have := h.channel.base.cacheSize.toNat_lt
      simp only [UInt32.size]
      omega
    simp only [Handle.channelFlush, hframe, if_neg hlength, Parent.flusher]
    cases hhead : h.parent.answers.headD true with
    | false =>
      -- the header is refused: all that changes are error and state flags
      refine ⟨false, _, rfl, rfl, fun htaken => ?_, Or.inr ⟨rfl, ?_⟩⟩
      · cases htaken
      · exact
          { content := by simp
            pending := hheld
            accepted := by simp [Handle.flushFailed, Handle.setError, Handle.setState]
            compressed := by simp
            sound := hsound
            inside := fun hinside => ⟨hinside, by simp⟩
            shape := rfl
            neverTorn := hanswers.refused hhead
            answers := ⟨1, List.drop_one.symm⟩
            given := ⟨[h.channel.pending], rfl⟩
            blocksWritten := (UInt64.add_zero _).symm
            willing := fun hwilling => by rw [hwilling.headD] at hhead; cases hhead }
    | true =>
      obtain ⟨hpayload, hrest⟩ := hanswers.taken hhead
      simp only [hpayload]
      refine ⟨true, _, rfl, rfl, fun _ _ => rfl, Or.inl ⟨rfl, frame, ?_⟩⟩
      exact
        { content := by simp
          pending := rfl
          accepted := by
            simp [Sent.event, Event.bytes, Event.dataHeader, Handle.dataHeader]
          compressed := by
            intro s hs
            rw [List.mem_singleton] at hs
            subst hs
            rw [← hheld]
            exact hframe
          sound := fun _ => Nat.zero_le _
          inside := fun hinside => ⟨hinside, fun s hs => by
            rw [List.mem_singleton] at hs
            subst hs
            rw [← hheld]
            exact hsound hinside⟩
          shape := rfl
          neverTorn := hrest
          answers := ⟨2, by rw [← List.drop_one, ← List.drop_one, List.drop_drop]⟩
          given := ⟨[h.channel.pending], rfl⟩
          blocksWritten := rfl
          willing := fun hwilling =>
            ⟨hwilling.tail.tail, fun _ => ⟨rfl, by simp [hheld]⟩⟩ }

/-- **The automatic flush** after a record. -/
theorem flushIfFlushable_spec (hlossless : zstd.Lossless)
    (hheld : h.channel.pending = encodeAll held) (hsound : h.channel.Sound)
    (hanswers : NeverTorn h.parent.answers) :
    ∃ sent held', Sends zstd h held [] sent (h.flushIfFlushable zstd) held' ∧
      (h.flushIfFlushable zstd).channel.encoder = h.channel.encoder := by
  unfold Handle.flushIfFlushable
  by_cases hfull : h.channel.threshold < h.channel.pending.length
  · rw [if_pos hfull]
    obtain ⟨ok, h', hflush, hencoder, -, hsent⟩ :=
      channelFlush_spec hlossless hheld hsound hanswers
    rw [hflush]
    rcases hsent with ⟨-, frame, hsends⟩ | ⟨-, hsends⟩
    · exact ⟨_, _, hsends, hencoder⟩
    · exact ⟨_, _, hsends, hencoder⟩
  · rw [if_neg hfull]
    exact ⟨[], held, Sends.idle hheld hsound hanswers rfl rfl rfl rfl, rfl⟩

/-! ### Timestamps -/

theorem stamp_spec (hlossless : zstd.Lossless) (hheld : h.channel.pending = encodeAll held)
    (hanswers : NeverTorn h.parent.answers) (ch : Channel) (r : Record)
    (hpending : ch.pending = h.channel.pending) (hover : ch.overrun = h.channel.overrun)
    (hshape : ch.shape = h.channel.shape)
    (hblocks : (ch.cCtx, ch.blocksWritten) = (h.channel.cCtx, h.channel.blocksWritten)) :
    ∃ h' sent held', { h with channel := ch.put r.encode }.flushIfFlushable zstd = h' ∧
      Sends zstd h held [r] sent h' held' ∧ h'.channel.encoder = ch.encoder := by
  have hwrite : Sends zstd h held [r] [] { h with channel := ch.put r.encode } (held ++ [r]) :=
    Sends.put hheld hanswers ch hpending hover hshape hblocks (by simp)
  obtain ⟨sent, held', hsends, hencoder⟩ :=
    flushIfFlushable_spec hlossless hwrite.pending hwrite.sound hanswers
  exact ⟨_, sent, held', rfl, by simpa using hwrite.trans hsends, hencoder⟩

/-- **The timestamp handler** writes the records that bring the clock to the tick. -/
theorem tsHandler_spec (hlossless : zstd.Lossless)
    (hheld : h.channel.pending = encodeAll held) (hsound : h.channel.Sound)
    (hanswers : NeverTorn h.parent.answers) (tick : UInt64) :
    ∃ ok h', h.tsHandler zstd tick = (ok, h') ∧
      match h.channel.encoder.clock tick with
      | none => ok = false ∧ h'.channel.encoder = h.channel.encoder ∧
          Sends zstd h held [] [] h' held
      | some records => ok = true ∧
          h'.channel.encoder = { h.channel.encoder with timestampCurrent := tick } ∧
          ∃ sent held', Sends zstd h held records sent h' held' := by
  unfold Handle.tsHandler Encoder.clock
  by_cases hsame : h.channel.base.timestampCurrent = tick
  · have hsame' : h.channel.encoder.timestampCurrent = tick := hsame
    rw [if_pos hsame, if_pos hsame']
    exact ⟨true, h, rfl, rfl, by rw [← hsame]; rfl, [], held,
      Sends.idle hheld hsound hanswers rfl rfl rfl rfl⟩
  have hsame' : ¬ h.channel.encoder.timestampCurrent = tick := hsame
  rw [if_neg hsame, if_neg hsame']
  by_cases hnull : h.channel.base.timestampCurrent = TS_NULL
  · have hnull' : h.channel.encoder.timestampCurrent = TS_NULL := hnull
    rw [if_pos hnull, if_pos hnull']
    let ch : Channel := { h.channel with
      base := { h.channel.base with timestampStart := tick, timestampCurrent := tick } }
    have hrecord : (ch.writeByte OticType.setTimestamp.toByte).writeLong tick =
        ch.put (Record.setTimestamp tick).encode :=
      ch.writeRecord_eq_put (.setTimestamp tick)
    obtain ⟨h', sent, held', hstamp, hsends, hencoder⟩ :=
      stamp_spec hlossless hheld hanswers ch (.setTimestamp tick) rfl rfl rfl rfl
    exact ⟨true, h', by rw [← hstamp, ← hrecord], rfl, hencoder, sent, held', hsends⟩
  have hnull' : ¬ h.channel.encoder.timestampCurrent = TS_NULL := hnull
  rw [if_neg hnull, if_neg hnull']
  by_cases hpast : tick < h.channel.base.timestampCurrent
  · have hpast' : tick < h.channel.encoder.timestampCurrent := hpast
    rw [if_pos hpast, if_pos hpast']
    exact ⟨false, _, rfl, rfl, rfl, Sends.idle hheld hsound hanswers rfl rfl rfl rfl⟩
  · have hpast' : ¬ tick < h.channel.encoder.timestampCurrent := hpast
    rw [if_neg hpast, if_neg hpast']
    let ch : Channel := { h.channel with
      base := { h.channel.base with timestampCurrent := tick } }
    let shift := tick - h.channel.base.timestampCurrent
    have hrecord : (ch.writeByte OticType.shiftTimestamp.toByte).writeLong shift =
        ch.put (Record.shiftTimestamp shift).encode :=
      ch.writeRecord_eq_put (.shiftTimestamp shift)
    obtain ⟨h', sent, held', hstamp, hsends, hencoder⟩ :=
      stamp_spec hlossless hheld hanswers ch (.shiftTimestamp shift) rfl rfl rfl rfl
    exact ⟨true, h', by rw [← hstamp, ← hrecord], rfl, hencoder, sent, held', hsends⟩

end Otic.Pack
