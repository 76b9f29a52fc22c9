import Otic.Pack.Flush
import Otic.Pack.Injects

/-!
# The course of a call

What an inject can do is said once (`Course`), for any compressor and any answers of the
flusher: a call is refused for its timestamp, for the length of its text, because the
bucket could not be flushed for its text, or for the length of its names; or it writes
its row.
-/

namespace Otic.Pack

/-! ### Timestamps -/

/-- The clock is set, and its start with the first timestamp. -/
def Channel.clocked (ch : Channel) (tick : UInt64) : Channel :=
  { ch with
    base := { ch.base with
      timestampStart :=
        if ch.base.timestampCurrent = TS_NULL then tick else ch.base.timestampStart
      timestampCurrent := tick } }

/-- The bytes of a timestamp: none if the clock shows it already. -/
def Encoder.stamp (enc : Encoder) (tick : UInt64) : List UInt8 :=
  match enc.clock tick with
  | some records => encodeAll records
  | none => []

namespace Handle

variable (zstd : Zstd)

/-- What `otic_ts_handler` leaves behind when it returns 1. -/
def stamped (h : Handle) (tick : UInt64) : Handle :=
  if h.channel.base.timestampCurrent = tick then h
  else
    flushIfFlushable zstd
      ⟨h.parent, (h.channel.clocked tick).put (h.channel.encoder.stamp tick)⟩

theorem tsHandler_eq (h : Handle) (tick : UInt64) :
    h.tsHandler zstd tick =
      match h.channel.encoder.clock tick with
      | none => (false, h.setError .invalidTimestamp)
      | some _ => (true, h.stamped zstd tick) := by
  have hset : ∀ r : Record, h.channel.encoder.clock tick = some [r] →
      h.channel.encoder.stamp tick = r.encode := by
    intro r hclock
    simp [Encoder.stamp, hclock]
  have hclock : h.channel.encoder.clock tick =
      if h.channel.base.timestampCurrent = tick then some []
      else if h.channel.base.timestampCurrent = TS_NULL then some [.setTimestamp tick]
      else if tick < h.channel.base.timestampCurrent then none
      else some [.shiftTimestamp (tick - h.channel.base.timestampCurrent)] := rfl
  unfold tsHandler stamped
  dsimp only
  by_cases hsame : h.channel.base.timestampCurrent = tick
  · rw [if_pos hsame] at hclock ⊢
    rw [hclock, if_pos hsame]
  rw [if_neg hsame] at hclock ⊢
  rw [if_neg hsame]
  by_cases hnull : h.channel.base.timestampCurrent = TS_NULL
  · rw [if_pos hnull] at hclock ⊢
    rw [hset _ hclock, hclock, ← Channel.writeRecord_eq_put]
    simp only [Channel.clocked, if_pos hnull]
    rfl
  rw [if_neg hnull] at hclock ⊢
  by_cases hlate : tick < h.channel.base.timestampCurrent
  · rw [if_pos hlate] at hclock ⊢
    rw [hclock]
  · rw [if_neg hlate] at hclock ⊢
    rw [hset _ hclock, hclock, ← Channel.writeRecord_eq_put]
    simp only [Channel.clocked, if_neg hnull]
    rfl

/-! ### Calls -/

/-- The flush of `inject_s` that makes room for a text; no other inject needs any. -/
def makeRoom (h : Handle) (textSize : Nat) : Bool × Handle :=
  if h.channel.pending.length ≤ h.channel.threshold ∧
      h.channel.threshold - h.channel.pending.length < textSize then
    h.channelFlush zstd
  else (true, h)

variable {zstd}

theorem kept_makeRoom {h h' : Handle} {textSize : Nat} {ok : Bool}
    (hroom : h.makeRoom zstd textSize = (ok, h')) :
    h'.channel.shape = h.channel.shape ∧ h'.channel.encoder = h.channel.encoder := by
  unfold makeRoom at hroom
  split at hroom
  · have hkept := @kept_channelFlush zstd h
    rwa [hroom] at hkept
  · cases hroom
    exact ⟨rfl, rfl⟩

theorem kept_stamped (h : Handle) (tick : UInt64) :
    (h.stamped zstd tick).channel.shape = h.channel.shape ∧
      (h.stamped zstd tick).channel.encoder =
        { h.channel.encoder with timestampCurrent := tick } := by
  unfold stamped
  split
  · rename_i hsame
    refine ⟨rfl, ?_⟩
    rw [← hsame]
    rfl
  · exact @kept_flushIfFlushable zstd ⟨h.parent, _⟩

end Handle

/-- The flush after a row, if there is one. -/
def AnyCall.settle (zstd : Zstd) (c : AnyCall) (h : Handle) : Handle :=
  if c.flushes then h.flushIfFlushable zstd else h

/-- It leaves the encoder as the row has. -/
theorem AnyCall.encoder_settle {zstd : Zstd} (c : AnyCall) (h : Handle) :
    (c.settle zstd h).channel.encoder = h.channel.encoder := by
  unfold AnyCall.settle
  split
  · exact (Handle.kept_flushIfFlushable h).2
  · rfl

/-- **What an inject can do**: four ways to fail, and to write its row. -/
inductive Course (zstd : Zstd) (c : AnyCall) (h : Handle) : Bool × Handle → Prop
  | late (hclock : h.channel.encoder.clock c.tick = none) :
      Course zstd c h (false, (h.setError .invalidTimestamp).setState c.failState)
  | long {h₁ : Handle} (hclock : h.channel.encoder.clock c.tick ≠ none)
      (hstamp : h.stamped zstd c.tick = h₁) (hlong : h₁.channel.threshold < c.textSize) :
      Course zstd c h (false, (h₁.setError .bufferOverflow).setState c.failState)
  | crowded {h₁ h₂ : Handle} (hclock : h.channel.encoder.clock c.tick ≠ none)
      (hstamp : h.stamped zstd c.tick = h₁) (hshort : c.textSize ≤ h₁.channel.threshold)
      (hroom : h₁.makeRoom zstd c.textSize = (false, h₂)) :
      Course zstd c h (false, h₂.setState c.failState)
  | unfit {h₁ h₂ : Handle} (hclock : h.channel.encoder.clock c.tick ≠ none)
      (hstamp : h.stamped zstd c.tick = h₁) (hshort : c.textSize ≤ h₁.channel.threshold)
      (hroom : h₁.makeRoom zstd c.textSize = (true, h₂))
      (hrow : c.row h₂.channel.encoder = none) :
      Course zstd c h (false, (h₂.setError .bufferOverflow).setState c.failState)
  | written {h₁ h₂ : Handle} {enc : Encoder} {bytes : List UInt8}
      (hclock : h.channel.encoder.clock c.tick ≠ none)
      (hstamp : h.stamped zstd c.tick = h₁) (hshort : c.textSize ≤ h₁.channel.threshold)
      (hroom : h₁.makeRoom zstd c.textSize = (true, h₂))
      (hrow : c.row h₂.channel.encoder = some (enc, bytes)) :
      Course zstd c h
        (true, c.settle zstd ⟨h₂.parent, (h₂.channel.put bytes).install enc⟩)

namespace AnyCall

variable {zstd : Zstd} {h : Handle}

/-- What is left of a call once there is room for its text. -/
theorem course_finishRow (c : AnyCall) (hflushes : c.flushes = true) {h₁ h₂ : Handle}
    (hclock : h.channel.encoder.clock c.tick ≠ none) (hstamp : h.stamped zstd c.tick = h₁)
    (hshort : c.textSize ≤ h₁.channel.threshold)
    (hroom : h₁.makeRoom zstd c.textSize = (true, h₂)) :
    Course zstd c h (h₂.finishRow zstd c.failState c.injection
      (Channel.entryFind h₂.channel.cache c.sensorName) c.sensorName c.unit) := by
  have hwrite := c.writeRow_map_countRow h₂.channel
  unfold Handle.finishRow
  cases hrow : c.row h₂.channel.encoder with
  | none =>
    rw [hrow, Option.map_none, Option.map_eq_none_iff] at hwrite
    rw [hwrite]
    exact .unfit hclock hstamp hshort hroom hrow
  | some out =>
    rw [hrow, Option.map_some, Option.map_eq_some_iff] at hwrite
    obtain ⟨ch, hch, hcount⟩ := hwrite
    rw [hch]
    dsimp only
    rw [hcount]
    have hsettle : ∀ h' : Handle, c.settle zstd h' = h'.flushIfFlushable zstd :=
      fun h' => if_pos hflushes
    rw [← hsettle]
    exact .written hclock hstamp hshort hroom hrow

theorem makeRoom_zero (h : Handle) : h.makeRoom zstd 0 = (true, h) := by
  unfold Handle.makeRoom
  rw [if_neg]
  rintro ⟨-, hless⟩
  exact absurd hless (Nat.not_lt_zero _)

theorem course_injectRow (c : AnyCall) (hflushes : c.flushes = true) (htext : c.textSize = 0) :
    Course zstd c h (h.injectRow zstd c.failState c.injection c.tick c.sensorName c.unit) := by
  unfold Handle.injectRow
  rw [Handle.tsHandler_eq]
  cases hclock : h.channel.encoder.clock c.tick with
  | none => exact .late hclock
  | some records =>
    have hset : h.channel.encoder.clock c.tick ≠ none := by simp [hclock]
    exact c.course_finishRow hflushes hset rfl (by omega) (by rw [htext, makeRoom_zero])

theorem course_injectArray (c : AnyCall) {aval : OvalArray} (hvalue : c.value = .array aval) :
    Course zstd c h (h.injectArray zstd c.tick c.sensorName c.unit aval c.equal c.stale) := by
  have htext : c.textSize = 0 := by simp only [textSize, hvalue]
  have hfail : c.failState = .onError := by simp only [failState, hvalue]
  have hinjection : Channel.arrayInjection aval c.equal c.stale = c.injection := by
    simp only [injection, hvalue]
  have hsettle : ∀ h' : Handle, c.settle zstd h' = h' := fun h' => by
    simp [settle, flushes, hvalue]
  unfold Handle.injectArray
  rw [Handle.tsHandler_eq, hinjection]
  cases hclock : h.channel.encoder.clock c.tick with
  | none =>
    rw [← hfail]
    exact .late hclock
  | some records =>
    have hset : h.channel.encoder.clock c.tick ≠ none := by simp [hclock]
    have hshort : c.textSize ≤ (h.stamped zstd c.tick).channel.threshold := by omega
    have hroom : (h.stamped zstd c.tick).makeRoom zstd c.textSize =
        (true, h.stamped zstd c.tick) := by rw [htext, makeRoom_zero]
    have hwrite := c.writeRow_map_countRow (h.stamped zstd c.tick).channel
    dsimp only
    cases hrow : c.row (h.stamped zstd c.tick).channel.encoder with
    | none =>
      rw [hrow, Option.map_none, Option.map_eq_none_iff] at hwrite
      rw [hwrite, ← hfail]
      exact .unfit hset rfl hshort hroom hrow
    | some out =>
      rw [hrow, Option.map_some, Option.map_eq_some_iff] at hwrite
      obtain ⟨ch, hch, hcount⟩ := hwrite
      rw [hch]
      dsimp only
      rw [hcount, ← hsettle ⟨_, _⟩]
      exact .written hset rfl hshort hroom hrow

theorem course_injectS (c : AnyCall) {value : CStr} (hvalue : c.value = .scalar (.string value)) :
    Course zstd c h (h.injectS zstd c.tick c.sensorName c.unit value c.heap) := by
  have htext : value.size = c.textSize := by
    simp only [textSize, hvalue]
    rfl
  have hfail : c.failState = .onError := by simp only [failState, hvalue]
  have hflushes : c.flushes = true := by simp only [flushes, hvalue]
  have hinjection : Channel.sInjection value c.heap = c.injection := by
    simp only [injection, hvalue]
    rfl
  unfold Handle.injectS
  rw [Handle.tsHandler_eq, hinjection, htext, ← hfail]
  cases hclock : h.channel.encoder.clock c.tick with
  | none => exact .late hclock
  | some records =>
    have hset : h.channel.encoder.clock c.tick ≠ none := by simp [hclock]
    dsimp only
    by_cases hlong : (h.stamped zstd c.tick).channel.threshold < c.textSize
    · rw [if_pos hlong]
      exact .long hset rfl hlong
    rw [if_neg hlong]
    have hshort : c.textSize ≤ (h.stamped zstd c.tick).channel.threshold := by omega
    rw [← Handle.makeRoom.eq_1]
    rcases hroom : (h.stamped zstd c.tick).makeRoom zstd c.textSize with ⟨_ | _, h₂⟩
    · exact .crowded hset rfl hshort hroom
    · -- the entry was looked up before the flush, which leaves the dictionary alone
      have hencoder := (Handle.kept_makeRoom hroom).2
      have hcache : h₂.channel.cache = (h.stamped zstd c.tick).channel.cache :=
        congrArg Encoder.cache hencoder
      rw [← hcache]
      exact c.course_finishRow hflushes hset rfl hshort hroom

/-- **Every inject** takes one of the five courses. -/
theorem course (c : AnyCall) (h : Handle) : Course zstd c h (c.inject zstd h) := by
  have hrow := @course_injectRow zstd h c
  unfold inject
  cases hvalue : c.value with
  | buffer bytes =>
    simp only [flushes, textSize, failState, injection, hvalue, forall_const] at hrow
    exact hrow
  | array aval => exact c.course_injectArray hvalue
  | scalar value =>
    unfold Call.inject
    cases value with
    | string value => exact c.course_injectS hvalue
    | bool value | intNeg value | intPos value | double value | null =>
      simp only [flushes, textSize, Value.textSize, failState, injection, hvalue, scalar,
        Call.injection, forall_const] at hrow
      exact hrow

end AnyCall

end Otic.Pack
