import Otic.Pack.Insertion
import Otic.Pack.Overrun

/-!
# How a failed call is signalled

A failed inject should leave the channel in `OTIC_STATE_ON_ERROR` with an error that
names the cause, an accepted one should leave its state alone.  `inject_bool`,
`inject_i_neg` and `inject_n` set `OTIC_STATE_CLOSED` instead, and the result of the
flushes after a timestamp and after a row is dropped.  `signals_iff` puts the two
together.
-/

namespace Otic.Pack

variable {zstd : Zstd} {h : Handle}

/-- What a call is refused for. -/
inductive AnyCall.Cause (zstd : Zstd) (memory : Bool) (c : AnyCall) (h : Handle) :
    OticError → Prop
  | timestamp (hclock : h.channel.encoder.clock c.tick = none) :
      Cause zstd memory c h .invalidTimestamp
  | text (hclock : h.channel.encoder.clock c.tick ≠ none)
      (hlong : h.channel.threshold < c.textSize) : Cause zstd memory c h .bufferOverflow
  | room {error : OticError} (hclock : h.channel.encoder.clock c.tick ≠ none)
      (hshort : c.textSize ≤ h.channel.threshold)
      (hroom : ((h.stamped zstd c.tick).makeRoom zstd c.textSize).1 = false)
      (herror : (h.stamped zstd c.tick).FlushError zstd error) : Cause zstd memory c h error
  | names (hclock : h.channel.encoder.clock c.tick ≠ none)
      (hshort : c.textSize ≤ h.channel.threshold)
      (hroom : ((h.stamped zstd c.tick).makeRoom zstd c.textSize).1 = true)
      (hnew : Channel.entryFind h.channel.cache c.sensorName = none) (hfits : ¬ c.Fits) :
      Cause zstd memory c h .bufferOverflow
  | memory (hclock : h.channel.encoder.clock c.tick ≠ none)
      (hshort : c.textSize ≤ h.channel.threshold)
      (hroom : ((h.stamped zstd c.tick).makeRoom zstd c.textSize).1 = true) (hfits : c.Fits)
      (hlacks : c.Lacks memory h.channel.encoder) : Cause zstd memory c h .entryInsertionFailure

/-- The flusher refuses nothing. -/
def Parent.Willing (p : Parent) : Prop := ∀ answer ∈ p.answers, answer = true

/-- A call that returns 0 leaves `OTIC_STATE_ON_ERROR` and its cause behind, one that
returns 1 while the flusher succeeds leaves the state alone. -/
def AnyCall.Signals (zstd : Zstd) (memory : Bool) (c : AnyCall) (h : Handle) : Prop :=
  let out := c.injectGiven zstd memory h
  (out.1 = false →
    out.2.channel.base.state = .onError ∧ c.Cause zstd memory h out.2.channel.base.error) ∧
  (out.1 = true → h.parent.Willing → out.2.channel.base.state = h.channel.base.state)

/-! ### The condition -/

/-- Timestamp, text and names are in order. -/
def AnyCall.Admitted (c : AnyCall) (h : Handle) : Prop :=
  h.channel.encoder.clock c.tick ≠ none ∧ c.textSize ≤ h.channel.threshold ∧
    (Channel.entryFind h.channel.cache c.sensorName = none → c.Fits)

/-- The inject finds that there is no memory for an entry. -/
def AnyCall.Starves (memory : Bool) (c : AnyCall) (h : Handle) : Prop :=
  c.Lacks memory h.channel.encoder ∧ c.checked = true

/-- The compressor takes a block. -/
def Handle.compresses (zstd : Zstd) (h : Handle) (block : List UInt8) : Bool :=
  (zstd.compress h.channel.base.cacheSize.toNat block).isSome

/-- A bucket has to be flushed to make room for a text. -/
def Handle.Crowded (h : Handle) (bucket : List UInt8) (textSize : Nat) : Prop :=
  bucket.length ≤ h.channel.threshold ∧ h.channel.threshold - bucket.length < textSize

instance (h : Handle) (bucket : List UInt8) (textSize : Nat) :
    Decidable (h.Crowded bucket textSize) := by
  unfold Handle.Crowded
  infer_instance

/-- The bucket after a timestamp, and after room was made for a text, if it could be
flushed. -/
def Handle.stampedBucket (h : Handle) (tick : UInt64) : List UInt8 :=
  if h.StampFlushes tick then [] else h.stampedBytes tick

def AnyCall.roomyBucket (c : AnyCall) (h : Handle) : List UInt8 :=
  if h.Crowded (h.stampedBucket c.tick) c.textSize then [] else h.stampedBucket c.tick

/-- If room can be made for the text, the compressor takes the bucket that the timestamp
and the one that the row fills, where they fill it. -/
def AnyCall.Compresses (zstd : Zstd) (c : AnyCall) (h : Handle) : Prop :=
  (h.Crowded (h.stampedBucket c.tick) c.textSize →
    h.compresses zstd (h.stampedBucket c.tick) = true) →
  (h.StampFlushes c.tick → h.compresses zstd (h.stampedBytes c.tick) = true) ∧
    ∀ enc bytes, c.row { h.channel.encoder with timestampCurrent := c.tick } = some (enc, bytes) →
      c.flushes = true → h.channel.threshold < (c.roomyBucket h ++ bytes).length →
        h.compresses zstd (c.roomyBucket h ++ bytes) = true

/-! ### A flusher that succeeds -/

theorem flusher_willing {p : Parent} (hwilling : p.Willing) (buffer : List UInt8) :
    (p.flusher buffer).1 = true ∧ (p.flusher buffer).2.Willing := by
  constructor
  · change p.answers.headD true = true
    cases hanswers : p.answers with
    | nil => rfl
    | cons answer answers => exact hwilling answer (by rw [hanswers]; exact List.mem_cons_self)
  · intro answer hanswer
    exact hwilling answer (List.mem_of_mem_tail hanswer)

/-- With a flusher that succeeds a flush fails exactly if the compressor does. -/
theorem channelFlush_willing (hlossless : zstd.Lossless) (hwilling : h.parent.Willing) :
    ∃ parent : Parent, parent.Willing ∧
      h.channelFlush zstd =
        if h.compresses zstd h.channel.pending then (true, ⟨parent, h.channel.flushed⟩)
        else (false, ⟨parent, h.channel.stuck .zstd⟩) := by
  unfold Handle.channelFlush Handle.compresses
  dsimp only
  cases hframe : zstd.compress h.channel.base.cacheSize.toNat h.channel.pending with
  | none => exact ⟨{ h.parent with state := .onError }, hwilling, rfl⟩
  | some frame =>
    have hlength := hlossless.compress_le hframe
    have hsize := h.channel.base.cacheSize.toNat_lt
    have hshort : ¬ UInt32.size ≤ frame.length := by
      change ¬ 2 ^ 32 ≤ frame.length
      omega
    obtain ⟨hheader, hwilling₁⟩ :=
      flusher_willing hwilling (Handle.dataHeader h.channel.channelId frame.length)
    obtain ⟨hpayload, hwilling₂⟩ := flusher_willing hwilling₁ frame
    refine ⟨_, hwilling₂, ?_⟩
    simp only [if_neg hshort, hheader, hpayload, Bool.not_true, Bool.false_eq_true, if_false,
      Option.isSome_some, if_true]
    rfl

/-- What the flush that comes after a record makes of the bucket and the state. -/
theorem flushIfFlushable_willing (hlossless : zstd.Lossless) (hwilling : h.parent.Willing) :
    (h.flushIfFlushable zstd).parent.Willing ∧
      (h.flushIfFlushable zstd).channel.base.state =
        (if h.channel.threshold < h.channel.pending.length ∧
            h.compresses zstd h.channel.pending = false then .onError
          else h.channel.base.state) ∧
      (h.flushIfFlushable zstd).channel.pending =
        (if h.channel.threshold < h.channel.pending.length ∧
            h.compresses zstd h.channel.pending = true then []
          else h.channel.pending) := by
  unfold Handle.flushIfFlushable
  by_cases hfull : h.channel.threshold < h.channel.pending.length
  · obtain ⟨parent, hparent, hflush⟩ := channelFlush_willing hlossless hwilling
    rw [if_pos hfull, hflush]
    cases h.compresses zstd h.channel.pending with
    | true => simp [hparent, hfull, Channel.flushed]
    | false => simp [hparent, hfull, Channel.stuck]
  · simp [hfull, hwilling]

theorem stamped_willing (hlossless : zstd.Lossless) (hwilling : h.parent.Willing) {tick : UInt64}
    (hclock : h.channel.encoder.clock tick ≠ none) :
    (h.stamped zstd tick).parent.Willing ∧
      (h.stamped zstd tick).channel.base.state =
        (if h.StampFlushes tick ∧ h.compresses zstd (h.stampedBytes tick) = false then .onError
          else h.channel.base.state) ∧
      (h.stamped zstd tick).channel.pending =
        (if h.StampFlushes tick ∧ h.compresses zstd (h.stampedBytes tick) = true then []
          else h.stampedBytes tick) := by
  have hnil := stamp_eq_nil hclock
  unfold Handle.stamped
  split
  · rename_i hsame
    have hstamp : h.channel.encoder.stamp tick = [] := hnil.mpr hsame
    have hidle : ¬ h.StampFlushes tick := fun hflushes => hflushes.1 hstamp
    simp [hidle, hwilling, Handle.stampedBytes, hstamp]
  · rename_i hset
    have hstamp : h.channel.encoder.stamp tick ≠ [] := mt hnil.mp hset
    have hiff : h.StampFlushes tick ↔ h.channel.threshold < (h.stampedBytes tick).length :=
      ⟨And.right, fun hfull => ⟨hstamp, hfull⟩⟩
    simp only [hiff]
    exact @flushIfFlushable_willing zstd
      ⟨h.parent, (h.channel.clocked tick).put (h.channel.encoder.stamp tick)⟩ hlossless hwilling

/-- Making room either does nothing or flushes the bucket. -/
theorem makeRoom_willing (hlossless : zstd.Lossless) (hwilling : h.parent.Willing)
    (textSize : Nat) :
    ((h.makeRoom zstd textSize).1 = true ↔
        (h.Crowded h.channel.pending textSize → h.compresses zstd h.channel.pending = true)) ∧
      (h.makeRoom zstd textSize).2.parent.Willing ∧
      ((h.makeRoom zstd textSize).1 = true →
        (h.makeRoom zstd textSize).2.channel.base.state = h.channel.base.state ∧
        (h.makeRoom zstd textSize).2.channel.pending =
          if h.Crowded h.channel.pending textSize then [] else h.channel.pending) := by
  unfold Handle.makeRoom
  by_cases hcrowded : h.Crowded h.channel.pending textSize
  · have hcrowded' : h.channel.pending.length ≤ h.channel.threshold ∧
      h.channel.threshold - h.channel.pending.length < textSize := hcrowded
    obtain ⟨parent, hparent, hflush⟩ := channelFlush_willing hlossless hwilling
    rw [if_pos hcrowded', hflush]
    cases h.compresses zstd h.channel.pending with
    | true => simp [hparent, hcrowded, Channel.flushed]
    | false => simp [hparent, hcrowded]
  · have hcrowded' : ¬ (h.channel.pending.length ≤ h.channel.threshold ∧
      h.channel.threshold - h.channel.pending.length < textSize) := hcrowded
    rw [if_neg hcrowded']
    simp [hcrowded, hwilling]

/-! ### Exactly when a call signals -/

theorem failState_of_text {c : AnyCall} (htext : 0 < c.textSize) : c.failState = .onError := by
  unfold AnyCall.textSize at htext
  unfold AnyCall.failState
  cases hvalue : c.value with
  | scalar value =>
    rw [hvalue] at htext
    cases value with
    | string value => rfl
    | bool | intNeg | intPos | double | null => exact absurd htext (Nat.lt_irrefl 0)
  | buffer | array => rfl

theorem admitted_iff {c : AnyCall} (hclock : h.channel.encoder.clock c.tick ≠ none)
    (hshort : c.textSize ≤ h.channel.threshold) (tick : UInt64) :
    c.Admitted h ↔ c.row { h.channel.encoder with timestampCurrent := tick } ≠ none := by
  rw [ne_eq, AnyCall.row_eq_none]
  constructor
  · rintro ⟨-, -, hnames⟩ ⟨hnew, hlong⟩
    exact hlong (hnames hnew)
  · intro hrow
    refine ⟨hclock, hshort, fun hnew => ?_⟩
    by_contra hlong
    exact hrow ⟨hnew, hlong⟩

theorem row_makeRoom {c : AnyCall} {ok : Bool} {h₂ : Handle}
    (hroom : (h.stamped zstd c.tick).makeRoom zstd c.textSize = (ok, h₂)) :
    c.row h₂.channel.encoder = c.row { h.channel.encoder with timestampCurrent := c.tick } := by
  rw [(Handle.kept_makeRoom hroom).2, (Handle.kept_stamped h c.tick).2]

theorem lacks_makeRoom {memory : Bool} {c : AnyCall} {ok : Bool} {h₂ : Handle}
    (hroom : (h.stamped zstd c.tick).makeRoom zstd c.textSize = (ok, h₂)) :
    c.Lacks memory h₂.channel.encoder ↔ c.Lacks memory h.channel.encoder := by
  rw [(Handle.kept_makeRoom hroom).2, (Handle.kept_stamped h c.tick).2]
  exact Iff.rfl

/-- Room is only made for a text, and where that fails the flush has set its error. -/
theorem makeRoom_failed (hlossless : zstd.Lossless) {textSize : Nat} {h₂ : Handle}
    (hroom : h.makeRoom zstd textSize = (false, h₂)) :
    0 < textSize ∧ h.FlushError zstd h₂.channel.base.error := by
  unfold Handle.makeRoom at hroom
  split at hroom
  · rename_i hcrowded
    have hflush := @Handle.flush_channelFlush zstd h
    rw [hroom] at hflush
    cases hflush with
    | failed parent error htakes hstate herror =>
      refine ⟨by omega, ?_⟩
      rcases herror with herror | ⟨frame, hframe, hlong⟩
      · exact herror
      · have hlength := hlossless.compress_le hframe
        have hsize := h.channel.base.cacheSize.toNat_lt
        change 2 ^ 32 ≤ frame.length at hlong
        omega
  · cases hroom

section Willing

variable (hlossless : zstd.Lossless) (hwilling : h.parent.Willing) {c : AnyCall}
  (hclock : h.channel.encoder.clock c.tick ≠ none)

include hlossless hwilling hclock

/-- A bucket that could not be flushed after the timestamp is not flushed for the text. -/
theorem makeRoom_stuck (hflushes : h.StampFlushes c.tick)
    (hrefused : h.compresses zstd (h.stampedBytes c.tick) = false) :
    (h.stamped zstd c.tick).makeRoom zstd c.textSize = (true, h.stamped zstd c.tick) := by
  obtain ⟨-, -, hpending⟩ := stamped_willing hlossless hwilling hclock
  rw [if_neg (by simp [hrefused])] at hpending
  have hthreshold := @Handle.threshold_stamped zstd h c.tick
  have hfull := hflushes.2
  unfold Handle.makeRoom
  rw [if_neg]
  rw [hpending, hthreshold]
  omega

/-- Room for the text is made in the bucket that the timestamp left. -/
theorem makeRoom_stamped
    (hstamp : h.StampFlushes c.tick → h.compresses zstd (h.stampedBytes c.tick) = true) :
    (h.stamped zstd c.tick).channel.base.state = h.channel.base.state ∧
      (((h.stamped zstd c.tick).makeRoom zstd c.textSize).1 = true ↔
        (h.Crowded (h.stampedBucket c.tick) c.textSize →
          h.compresses zstd (h.stampedBucket c.tick) = true)) ∧
      (((h.stamped zstd c.tick).makeRoom zstd c.textSize).1 = true →
        ((h.stamped zstd c.tick).makeRoom zstd c.textSize).2.channel.base.state =
            h.channel.base.state ∧
          ((h.stamped zstd c.tick).makeRoom zstd c.textSize).2.channel.pending =
            c.roomyBucket h) := by
  obtain ⟨hwilling₁, hstate, hpending⟩ := stamped_willing hlossless hwilling hclock
  have hbucket : (h.stamped zstd c.tick).channel.pending = h.stampedBucket c.tick := by
    rw [hpending]
    unfold Handle.stampedBucket
    by_cases hflushes : h.StampFlushes c.tick
    · simp [hflushes, hstamp hflushes]
    · simp [hflushes]
  have hopen : (h.stamped zstd c.tick).channel.base.state = h.channel.base.state := by
    rw [hstate, if_neg]
    rintro ⟨hflushes, hrefused⟩
    rw [hstamp hflushes] at hrefused
    cases hrefused
  obtain ⟨hok, -, hmade⟩ := makeRoom_willing hlossless hwilling₁ c.textSize
  have hkept := @Handle.kept_stamped zstd h c.tick
  have hcrowded : (h.stamped zstd c.tick).Crowded (h.stampedBucket c.tick) c.textSize ↔
      h.Crowded (h.stampedBucket c.tick) c.textSize := by
    unfold Handle.Crowded
    rw [@Handle.threshold_stamped zstd h c.tick]
  have hcapacity : ∀ block,
      (h.stamped zstd c.tick).compresses zstd block = h.compresses zstd block := by
    intro block
    unfold Handle.compresses
    rw [show (h.stamped zstd c.tick).channel.base.cacheSize = h.channel.base.cacheSize from
      congrArg Shape.cacheSize hkept.1]
  rw [hbucket, hcrowded, hcapacity] at hok
  refine ⟨hopen, hok, fun htrue => ?_⟩
  obtain ⟨hstate₂, hpending₂⟩ := hmade htrue
  rw [hbucket] at hpending₂
  refine ⟨hstate₂.trans hopen, ?_⟩
  rw [hpending₂]
  unfold AnyCall.roomyBucket
  simp only [hcrowded]

theorem compresses_crowded {h₂ : Handle}
    (hroom : (h.stamped zstd c.tick).makeRoom zstd c.textSize = (false, h₂)) :
    c.Compresses zstd h := by
  intro hcompressed
  exfalso
  by_cases hstamp : h.StampFlushes c.tick → h.compresses zstd (h.stampedBytes c.tick) = true
  · obtain ⟨-, hok, -⟩ := makeRoom_stamped hlossless hwilling hclock hstamp
    rw [hroom] at hok
    exact absurd (hok.mpr hcompressed) Bool.false_ne_true
  · rw [Classical.not_imp, Bool.not_eq_true] at hstamp
    rw [makeRoom_stuck hlossless hwilling hclock hstamp.1 hstamp.2] at hroom
    cases hroom

variable (hopened : h.channel.base.state = .opened) (hshort : c.textSize ≤ h.channel.threshold)
  {h₂ : Handle} (hroom : (h.stamped zstd c.tick).makeRoom zstd c.textSize = (true, h₂))

include hopened hshort hroom

omit hopened hshort in
/-- The flush after a row, if there is one, decides its state. -/
theorem flushed_state (enc : Encoder) (bytes : List UInt8) :
    (Handle.flushIfFlushable zstd
        ⟨h₂.parent, (h₂.channel.put bytes).install enc⟩).channel.base.state =
      if h.channel.threshold < (h₂.channel.pending ++ bytes).length ∧
          h.compresses zstd (h₂.channel.pending ++ bytes) = false then .onError
      else h₂.channel.base.state := by
  have hshape := (Handle.kept_makeRoom hroom).1.trans (Handle.kept_stamped h c.tick).1
  have hthreshold : h₂.channel.threshold = h.channel.threshold := congrArg Shape.threshold hshape
  have hcapacity : ∀ block, h₂.compresses zstd block = h.compresses zstd block := by
    intro block
    have hcache : h₂.channel.base.cacheSize = h.channel.base.cacheSize :=
      congrArg Shape.cacheSize hshape
    unfold Handle.compresses
    rw [hcache]
  have hwilling₂ : h₂.parent.Willing := by
    obtain ⟨hwilling₁, -, -⟩ := stamped_willing hlossless hwilling hclock
    have hmade := (makeRoom_willing hlossless hwilling₁ c.textSize).2.1
    rwa [hroom] at hmade
  obtain ⟨-, hsettled, -⟩ := @flushIfFlushable_willing zstd
    ⟨h₂.parent, (h₂.channel.put bytes).install enc⟩ hlossless hwilling₂
  change _ = (if h₂.channel.threshold < (h₂.channel.pending ++ bytes).length ∧
    h₂.compresses zstd (h₂.channel.pending ++ bytes) = false then _ else h₂.channel.base.state)
    at hsettled
  rwa [hthreshold, hcapacity] at hsettled

omit hopened in
/-- A timestamp whose bucket could not be flushed leaves the state of that flush, and a
bucket that was not too full for the text. -/
theorem settle_stuck (hflushes : h.StampFlushes c.tick)
    (hrefused : h.compresses zstd (h.stampedBytes c.tick) = false) (enc : Encoder)
    (bytes : List UInt8) :
    (c.settle zstd ⟨h₂.parent, (h₂.channel.put bytes).install enc⟩).channel.base.state =
        .onError ∧ ¬ c.Compresses zstd h := by
  have hsettled := flushed_state hlossless hwilling hclock hroom enc bytes
  obtain ⟨-, hstate₁, -⟩ := stamped_willing hlossless hwilling hclock
  have hstuck := makeRoom_stuck hlossless hwilling hclock hflushes hrefused
  rw [hroom] at hstuck
  obtain rfl : h₂ = h.stamped zstd c.tick := (Prod.mk.injEq .. ▸ hstuck).2
  rw [if_pos ⟨hflushes, hrefused⟩] at hstate₁
  rw [hstate₁, ite_self] at hsettled
  constructor
  · unfold AnyCall.settle
    split
    · exact hsettled
    · exact hstate₁
  · intro hcompresses
    have hpremise : h.Crowded (h.stampedBucket c.tick) c.textSize →
        h.compresses zstd (h.stampedBucket c.tick) = true := by
      unfold Handle.stampedBucket
      rw [if_pos hflushes]
      rintro ⟨-, hspace⟩
      rw [List.length_nil] at hspace
      omega
    have hcompressed := (hcompresses hpremise).1 hflushes
    rw [hrefused] at hcompressed
    cases hcompressed

/-- The state after a row tells whether the buckets could be flushed. -/
theorem settle_opened {enc : Encoder} {bytes : List UInt8}
    (hrow : c.row { h.channel.encoder with timestampCurrent := c.tick } = some (enc, bytes))
    (entered : Encoder) :
    (c.settle zstd
        ⟨h₂.parent, (h₂.channel.put bytes).install entered⟩).channel.base.state = .opened ↔
      c.Compresses zstd h := by
  by_cases hstamp : h.StampFlushes c.tick → h.compresses zstd (h.stampedBytes c.tick) = true
  · have hsettled := flushed_state hlossless hwilling hclock hroom entered bytes
    obtain ⟨-, hok, hmade⟩ := makeRoom_stamped hlossless hwilling hclock hstamp
    rw [hroom] at hok hmade
    obtain ⟨hstate₂, hpending₂⟩ := hmade rfl
    have hpremise := hok.mp rfl
    dsimp only at hstate₂ hpending₂
    rw [hstate₂, hopened, hpending₂] at hsettled
    unfold AnyCall.Compresses AnyCall.settle
    by_cases hflushes : c.flushes = true
    · rw [if_pos hflushes, hsettled]
      constructor
      · intro hstate _
        refine ⟨hstamp, ?_⟩
        intro enc' bytes' hrow' _ hfull
        rw [hrow] at hrow'
        cases hrow'
        by_contra hrefused
        rw [if_pos ⟨hfull, by simpa using hrefused⟩] at hstate
        cases hstate
      · intro hcompresses
        rw [if_neg]
        rintro ⟨hfull, hrefused⟩
        rw [(hcompresses hpremise).2 enc bytes hrow hflushes hfull] at hrefused
        cases hrefused
    · rw [if_neg hflushes]
      constructor
      · intro _ _
        exact ⟨hstamp, fun _ _ _ hflushes' => absurd hflushes' hflushes⟩
      · intro _
        exact hstate₂.trans hopened
  · rw [Classical.not_imp, Bool.not_eq_true] at hstamp
    obtain ⟨hbroken, hnot⟩ :=
      settle_stuck hlossless hwilling hclock hshort hroom hstamp.1 hstamp.2 entered bytes
    rw [hbroken]
    exact iff_of_false (fun hstate => by cases hstate) hnot

end Willing

/-- A refusal that leaves its cause behind is signalled exactly if its inject fails with
`OTIC_STATE_ON_ERROR`. -/
theorem signals_refused {memory : Bool} {c : AnyCall} {h' : Handle}
    (hout : c.injectGiven zstd memory h = (false, h'))
    (hstate : h'.channel.base.state = c.failState)
    (hcause : c.Cause zstd memory h h'.channel.base.error)
    (hnot : ¬ (c.Admitted h ∧ ¬ c.Starves memory h)) :
    c.Signals zstd memory h ↔
      (c.failState = .onError ∨ c.Admitted h ∧ ¬ c.Starves memory h) ∧
        (c.Admitted h → ¬ c.Starves memory h → h.parent.Willing → c.Compresses zstd h) := by
  unfold AnyCall.Signals
  rw [hout]
  constructor
  · intro hsignals
    rw [← hstate]
    refine ⟨Or.inl (hsignals.1 rfl).1, ?_⟩
    intro hadmitted hfed
    exact absurd ⟨hadmitted, hfed⟩ hnot
  · rintro ⟨honError, -⟩
    have hstate' := hstate.trans (honError.resolve_right hnot)
    exact ⟨fun _ => ⟨hstate', hcause⟩, fun htrue => by cases htrue⟩

/-- **Exactly when a call signals** what came of it, in any state that is opened and
whatever `malloc` answers. -/
theorem signals_iff {memory : Bool} {c : AnyCall} (hlossless : zstd.Lossless)
    (hopened : h.channel.base.state = .opened) :
    c.Signals zstd memory h ↔
      (c.failState = .onError ∨ c.Admitted h ∧ ¬ c.Starves memory h) ∧
        (c.Admitted h → ¬ c.Starves memory h → h.parent.Willing → c.Compresses zstd h) := by
  have hcourse := @AnyCall.courseGiven zstd memory c h
  have hthreshold := @Handle.threshold_stamped zstd h c.tick
  rcases hout : c.injectGiven zstd memory h with ⟨ok, h'⟩
  rw [hout] at hcourse
  cases hcourse with
  | failed hcourse =>
    cases hcourse with
    | late hclock =>
      apply signals_refused hout rfl (.timestamp hclock)
      rintro ⟨hadmitted, -⟩
      exact hadmitted.1 hclock
    | long hclock hstamp hlong =>
      subst hstamp
      rw [hthreshold] at hlong
      apply signals_refused hout rfl (.text hclock hlong)
      rintro ⟨hadmitted, -⟩
      exact absurd hadmitted.2.1 (Nat.not_le.mpr hlong)
    | crowded hclock hstamp hshort hroom =>
      subst hstamp
      rw [hthreshold] at hshort
      obtain ⟨htext, herror⟩ := makeRoom_failed hlossless hroom
      have hstate := failState_of_text htext
      have hcause : c.Cause zstd memory h _ := .room hclock hshort (by rw [hroom]) herror
      unfold AnyCall.Signals
      rw [hout]
      constructor
      · intro _
        refine ⟨Or.inl hstate, ?_⟩
        intro _ _ hwilling
        exact compresses_crowded hlossless hwilling hclock hroom
      · intro _
        exact ⟨fun _ => ⟨hstate, hcause⟩, fun htrue => by cases htrue⟩
    | unfit hclock hstamp hshort hroom hrow =>
      subst hstamp
      rw [hthreshold] at hshort
      rw [row_makeRoom hroom] at hrow
      obtain ⟨hnew, hlong⟩ := (c.row_eq_none _).mp hrow
      apply signals_refused hout rfl (.names hclock hshort (by rw [hroom]) hnew hlong)
      rintro ⟨hadmitted, -⟩
      exact (admitted_iff hclock hshort c.tick).mp hadmitted hrow
  | starved hclock hstamp hshort hroom hrow hlacks hchecked =>
    subst hstamp
    rw [hthreshold] at hshort
    rw [row_makeRoom hroom] at hrow
    rw [lacks_makeRoom hroom] at hlacks
    have hadmitted := (admitted_iff hclock hshort c.tick).mpr hrow
    have hfits := hadmitted.2.2 hlacks.2.1
    apply signals_refused hout rfl (.memory hclock hshort (by rw [hroom]) hfits hlacks)
    rintro ⟨-, hfed⟩
    exact hfed ⟨hlacks, hchecked⟩
  | written hclock hstamp hshort hroom hrow hlacks hentered =>
    subst hstamp
    rw [hthreshold] at hshort
    rw [row_makeRoom hroom] at hrow
    rw [lacks_makeRoom hroom] at hlacks
    have hadmitted : c.Admitted h := by
      rw [admitted_iff hclock hshort c.tick, hrow]
      exact Option.some_ne_none _
    have hfed : ¬ c.Starves memory h := by
      rintro ⟨hnone, hchecked⟩
      rw [hlacks hnone] at hchecked
      cases hchecked
    have hopens := fun hwilling =>
      settle_opened hlossless hwilling hclock hopened hshort hroom hrow
    unfold AnyCall.Signals
    rw [hout, hopened]
    constructor
    · intro hsignals
      refine ⟨Or.inr ⟨hadmitted, hfed⟩, ?_⟩
      intro _ _ hwilling
      exact (hopens hwilling _).mp (hsignals.2 rfl hwilling)
    · rintro ⟨-, hcompresses⟩
      refine ⟨fun hfalse => Bool.noConfusion hfalse, ?_⟩
      intro _ hwilling
      exact (hopens hwilling _).mpr (hcompresses hadmitted hfed hwilling)

theorem signals_iff_oneByteTooLong :
    oneByteTooLong.Signals Zstd.stored true smallChannel ↔
      (oneByteTooLong.failState = .onError ∨
        oneByteTooLong.Admitted smallChannel ∧ ¬ oneByteTooLong.Starves true smallChannel) ∧
      (oneByteTooLong.Admitted smallChannel → ¬ oneByteTooLong.Starves true smallChannel →
        smallChannel.parent.Willing → oneByteTooLong.Compresses Zstd.stored smallChannel) :=
  signals_iff Zstd.stored_lossless rfl

/-- Two nulls, the second before the first. -/
def laterNull : AnyCall := ⟨⟨7, seven_lt_TS_NULL⟩, CStr.empty, none, .scalar .null, [], false, 0⟩

def earlierNull : AnyCall := { laterNull with tick := ⟨6, by decide⟩ }

/-- The second null is refused, and the channel is closed. -/
theorem not_signals_earlierNull :
    (laterNull.inject Zstd.stored smallChannel).2.channel.base.state = .opened ∧
      ¬ earlierNull.Signals Zstd.stored true (laterNull.inject Zstd.stored smallChannel).2 := by
  refine ⟨by decide +kernel, ?_⟩
  intro hsignals
  have hstate := (hsignals.1 (by decide +kernel)).1
  revert hstate
  decide +kernel

end Otic.Pack
