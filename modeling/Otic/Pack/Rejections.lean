import Otic.Pack.Room

/-!
# Rejected calls

A call that returns 0 because of its arguments leaves the dictionary and the counters
alone, but its timestamp comes first: unless that is what it is refused for, the clock
has moved, the timestamp record is written, and for a long text the bucket may have
been flushed.  `rejected_inject` says what is left behind, and when that is nothing.
-/

namespace Otic.Pack

variable {zstd : Zstd} {h : Handle}

/-! ### Calls as a function of the state -/

/-- What an inject comes to. -/
def AnyCall.outcome (zstd : Zstd) (c : AnyCall) (h : Handle) : Bool × Handle :=
  if h.channel.encoder.clock c.tick = none then
    (false, (h.setError .invalidTimestamp).setState c.failState)
  else if h.channel.threshold < c.textSize then
    (false, ((h.stamped zstd c.tick).setError .bufferOverflow).setState c.failState)
  else
    let (ok, h₂) := (h.stamped zstd c.tick).makeRoom zstd c.textSize
    if !ok then (false, h₂.setState c.failState)
    else
      match c.row h₂.channel.encoder with
      | none => (false, (h₂.setError .bufferOverflow).setState c.failState)
      | some (enc, bytes) => (true, c.settle zstd ⟨h₂.parent, (h₂.channel.put bytes).install enc⟩)

theorem Handle.threshold_stamped (h : Handle) (tick : UInt64) :
    (h.stamped zstd tick).channel.threshold = h.channel.threshold :=
  congrArg Shape.threshold (Handle.kept_stamped h tick).1

theorem Course.eq_outcome {c : AnyCall} {out : Bool × Handle} (hcourse : Course zstd c h out) :
    out = c.outcome zstd h := by
  have hthreshold := @Handle.threshold_stamped zstd h c.tick
  unfold AnyCall.outcome
  cases hcourse with
  | late hclock => rw [if_pos hclock]
  | long hclock hstamp hlong =>
    subst hstamp
    rw [if_neg hclock, if_pos (by omega)]
  | crowded hclock hstamp hshort hroom =>
    subst hstamp
    rw [if_neg hclock, if_neg (by omega), hroom]
    rfl
  | unfit hclock hstamp hshort hroom hrow =>
    subst hstamp
    rw [if_neg hclock, if_neg (by omega), hroom]
    simp [hrow]
  | written hclock hstamp hshort hroom hrow =>
    subst hstamp
    rw [if_neg hclock, if_neg (by omega), hroom]
    simp [hrow]

theorem AnyCall.inject_eq (c : AnyCall) (h : Handle) : c.inject zstd h = c.outcome zstd h :=
  (c.course h).eq_outcome

/-! ### Error and state are not read -/

/-- A channel without its error and its state. -/
def Handle.unmarked (h : Handle) : Handle := (h.setError .none).setState .opened

/-- The same but for the error and the state of the channel. -/
def Handle.Alike (h h' : Handle) : Prop := h.unmarked = h'.unmarked

/-- An operation that does not read error and state. -/
def Blind (f : Handle → Bool × Handle) : Prop :=
  ∀ h : Handle, (f h.unmarked).1 = (f h).1 ∧ (f h.unmarked).2.Alike (f h).2

theorem Blind.alike {f : Handle → Bool × Handle} (hf : Blind f) {h h' : Handle}
    (halike : h.Alike h') : (f h).1 = (f h').1 ∧ (f h).2.Alike (f h').2 := by
  obtain ⟨hok, hout⟩ := hf h
  obtain ⟨hok', hout'⟩ := hf h'
  unfold Handle.Alike at *
  rw [halike] at hok hout
  exact ⟨hok.symm.trans hok', hout.symm.trans hout'⟩

theorem blind_channelFlush : Blind (Handle.channelFlush zstd) := by
  intro h
  unfold Handle.channelFlush
  dsimp only [Handle.unmarked, Handle.setError, Handle.setState]
  cases zstd.compress h.channel.base.cacheSize.toNat h.channel.pending with
  | none => exact ⟨rfl, rfl⟩
  | some frame =>
    dsimp only
    split
    · exact ⟨rfl, rfl⟩
    split
    · exact ⟨rfl, rfl⟩
    split <;> exact ⟨rfl, rfl⟩

/-- The flush whose result is dropped. -/
theorem blind_flushIfFlushable : Blind fun h => (true, h.flushIfFlushable zstd) := by
  intro h
  have hflush := (@blind_channelFlush zstd h).2
  refine ⟨rfl, ?_⟩
  dsimp only
  unfold Handle.flushIfFlushable
  by_cases hfull : h.channel.threshold < h.channel.pending.length
  · have hfull' : h.unmarked.channel.threshold < h.unmarked.channel.pending.length := hfull
    rw [if_pos hfull, if_pos hfull']
    exact hflush
  · have hfull' : ¬ h.unmarked.channel.threshold < h.unmarked.channel.pending.length := hfull
    rw [if_neg hfull, if_neg hfull']
    rfl

theorem blind_stamped (tick : UInt64) : Blind fun h => (true, h.stamped zstd tick) := by
  intro h
  refine ⟨rfl, ?_⟩
  dsimp only
  unfold Handle.stamped
  by_cases hsame : h.channel.base.timestampCurrent = tick
  · have hsame' : h.unmarked.channel.base.timestampCurrent = tick := hsame
    rw [if_pos hsame, if_pos hsame']
    rfl
  · have hsame' : ¬ h.unmarked.channel.base.timestampCurrent = tick := hsame
    rw [if_neg hsame, if_neg hsame']
    exact (@blind_flushIfFlushable zstd
      ⟨h.parent, (h.channel.clocked tick).put (h.channel.encoder.stamp tick)⟩).2

theorem blind_makeRoom (textSize : Nat) : Blind fun h => h.makeRoom zstd textSize := by
  intro h
  have hflush := @blind_channelFlush zstd h
  dsimp only
  unfold Handle.makeRoom
  by_cases hspace : h.channel.pending.length ≤ h.channel.threshold ∧
      h.channel.threshold - h.channel.pending.length < textSize
  · have hspace' : h.unmarked.channel.pending.length ≤ h.unmarked.channel.threshold ∧
      h.unmarked.channel.threshold - h.unmarked.channel.pending.length < textSize := hspace
    rw [if_pos hspace, if_pos hspace']
    exact hflush
  · have hspace' : ¬ (h.unmarked.channel.pending.length ≤ h.unmarked.channel.threshold ∧
      h.unmarked.channel.threshold - h.unmarked.channel.pending.length < textSize) := hspace
    rw [if_neg hspace, if_neg hspace']
    exact ⟨rfl, rfl⟩

theorem blind_settle (c : AnyCall) : Blind fun h => (true, c.settle zstd h) := by
  unfold AnyCall.settle
  split
  · exact blind_flushIfFlushable
  · exact fun h => ⟨rfl, rfl⟩

/-- **No inject** reads the error or the state of its channel. -/
theorem blind_inject (c : AnyCall) : Blind (c.inject zstd) := by
  intro h
  obtain ⟨-, hstamped⟩ := @blind_stamped zstd c.tick h
  obtain ⟨hok, hroom⟩ := (@blind_makeRoom zstd c.textSize).alike hstamped
  rw [AnyCall.inject_eq, AnyCall.inject_eq]
  unfold AnyCall.outcome
  by_cases hclock : h.channel.encoder.clock c.tick = none
  · have hclock' : h.unmarked.channel.encoder.clock c.tick = none := hclock
    rw [if_pos hclock, if_pos hclock']
    exact ⟨rfl, rfl⟩
  have hclock' : ¬ h.unmarked.channel.encoder.clock c.tick = none := hclock
  rw [if_neg hclock, if_neg hclock']
  by_cases hlong : h.channel.threshold < c.textSize
  · have hlong' : h.unmarked.channel.threshold < c.textSize := hlong
    rw [if_pos hlong, if_pos hlong']
    exact ⟨rfl, hstamped⟩
  have hlong' : ¬ h.unmarked.channel.threshold < c.textSize := hlong
  rw [if_neg hlong, if_neg hlong']
  rcases hmade : (h.stamped zstd c.tick).makeRoom zstd c.textSize with ⟨ok, h₂⟩
  rcases hmade' : (h.unmarked.stamped zstd c.tick).makeRoom zstd c.textSize with ⟨ok', h₂'⟩
  dsimp only at hok hroom
  rw [hmade, hmade'] at hok hroom
  obtain rfl : ok' = ok := hok
  cases ok' with
  | false => exact ⟨rfl, hroom⟩
  | true =>
    have hmarks : h₂'.unmarked = h₂.unmarked := hroom
    have hencoder : h₂'.channel.encoder = h₂.channel.encoder := by
      change h₂'.unmarked.channel.encoder = h₂.unmarked.channel.encoder
      rw [hmarks]
    simp only [Bool.not_true, Bool.false_eq_true, if_false, hencoder]
    cases c.row h₂.channel.encoder with
    | none => exact ⟨rfl, hroom⟩
    | some out =>
      refine ⟨rfl, ((@blind_settle zstd c).alike ?_).2⟩
      exact congrArg
        (fun h : Handle => (⟨h.parent, (h.channel.put out.2).install out.1⟩ : Handle)) hmarks

/-! ### Later calls -/

/-- Calls one after the other: their results and the last state. -/
def runAny (zstd : Zstd) : Handle → List AnyCall → List Bool × Handle
  | h, [] => ([], h)
  | h, c :: cs =>
      let (ok, h') := c.inject zstd h
      let (oks, last) := runAny zstd h' cs
      (ok :: oks, last)

/-- All later calls have the same results, and lead to the same state but for error
and state. -/
def Handle.RunsAlike (zstd : Zstd) (h h' : Handle) : Prop :=
  ∀ cs, (runAny zstd h cs).1 = (runAny zstd h' cs).1 ∧
    (runAny zstd h cs).2.Alike (runAny zstd h' cs).2

theorem Handle.Alike.runsAlike {h h' : Handle} (halike : h.Alike h') : h.RunsAlike zstd h' := by
  intro cs
  induction cs generalizing h h' with
  | nil => exact ⟨rfl, halike⟩
  | cons c cs ih =>
    obtain ⟨hok, hstep⟩ := (@blind_inject zstd c).alike halike
    obtain ⟨hoks, hlast⟩ := ih hstep
    refine ⟨?_, hlast⟩
    simp only [runAny, hok, hoks]

/-! ### Rejections -/

theorem AnyCall.row_eq_none (c : AnyCall) (enc : Encoder) :
    c.row enc = none ↔ Channel.entryFind enc.cache c.sensorName = none ∧ ¬ c.Fits := by
  unfold AnyCall.row AnyCall.newRow
  cases Channel.entryFind enc.cache c.sensorName with
  | none => simp
  | some entry => simp

/-- A call is refused because of its arguments: its timestamp is before the clock, its
text is longer than the bucket allows, or the names of a new sensor are too long. -/
inductive AnyCall.Rejected (zstd : Zstd) (c : AnyCall) (h : Handle) : Prop
  | timestamp (hclock : h.channel.encoder.clock c.tick = none)
  | text (hclock : h.channel.encoder.clock c.tick ≠ none)
      (hlong : h.channel.threshold < c.textSize)
  | names (hclock : h.channel.encoder.clock c.tick ≠ none)
      (hshort : c.textSize ≤ h.channel.threshold)
      (hroom : ((h.stamped zstd c.tick).makeRoom zstd c.textSize).1 = true)
      (hnew : Channel.entryFind h.channel.cache c.sensorName = none) (hfits : ¬ c.Fits)

/-- What a call has done by the time it is refused. -/
def AnyCall.residue (zstd : Zstd) (c : AnyCall) (h : Handle) : Handle :=
  if h.channel.encoder.clock c.tick = none then h
  else if h.channel.threshold < c.textSize then h.stamped zstd c.tick
  else ((h.stamped zstd c.tick).makeRoom zstd c.textSize).2

/-- A call leaves behind whatever a later one depends on as it was. -/
def AnyCall.Untouched (zstd : Zstd) (c : AnyCall) (h : Handle) : Prop :=
  (c.inject zstd h).2.channel.encoder = h.channel.encoder ∧
    (c.inject zstd h).2.channel.pending = h.channel.pending ∧
    (c.inject zstd h).2.RunsAlike zstd h

/-- The clock did not move, and no room had to be made for the text. -/
def AnyCall.Idle (c : AnyCall) (h : Handle) : Prop :=
  h.channel.base.timestampCurrent = c.tick ∧
    ¬ (c.textSize ≤ h.channel.threshold ∧ h.channel.pending.length ≤ h.channel.threshold ∧
      h.channel.threshold - h.channel.pending.length < c.textSize)

/-! ### What is left behind -/

theorem written_channelFlush (h : Handle) :
    (h.channelFlush zstd).2.channel.written = h.channel.written := by
  have hflush := @Handle.flush_channelFlush zstd h
  rcases hout : h.channelFlush zstd with ⟨ok, h'⟩
  rw [hout] at hflush
  cases hflush <;> rfl

theorem written_stamped (tick : UInt64) (hset : h.channel.base.timestampCurrent ≠ tick) :
    (h.stamped zstd tick).channel.written =
      h.channel.written ++ h.channel.encoder.stamp tick := by
  unfold Handle.stamped Handle.flushIfFlushable
  rw [if_neg hset]
  split
  · exact written_channelFlush _
  · rfl

theorem written_makeRoom (h : Handle) (textSize : Nat) :
    (h.makeRoom zstd textSize).2.channel.written = h.channel.written := by
  unfold Handle.makeRoom
  split
  · exact written_channelFlush h
  · rfl

/-- What a refused call leaves behind. -/
structure AnyCall.Leaves (zstd : Zstd) (c : AnyCall) (h h' : Handle) : Prop where
  cache : h'.channel.cache = h.channel.cache
  totalEntries : h'.channel.totalEntries = h.channel.totalEntries
  rowCounter : h'.channel.base.rowCounter = h.channel.base.rowCounter
  clock : h'.channel.base.timestampCurrent =
    if h.channel.encoder.clock c.tick = none then h.channel.base.timestampCurrent else c.tick
  written : h'.channel.written = h.channel.written ++ h.channel.encoder.stamp c.tick
  later : h'.RunsAlike zstd (c.residue zstd h)

/-- A refused call does no more than its residue, apart from error and state. -/
theorem inject_rejected {c : AnyCall} (hrejected : c.Rejected zstd h) :
    (c.inject zstd h).1 = false ∧ (c.inject zstd h).2.Alike (c.residue zstd h) := by
  rw [AnyCall.inject_eq]
  unfold AnyCall.outcome AnyCall.residue
  cases hrejected with
  | timestamp hclock =>
    rw [if_pos hclock, if_pos hclock]
    exact ⟨rfl, rfl⟩
  | text hclock hlong =>
    rw [if_neg hclock, if_neg hclock, if_pos hlong, if_pos hlong]
    exact ⟨rfl, rfl⟩
  | names hclock hshort hroom hnew hfits =>
    have hnot : ¬ h.channel.threshold < c.textSize := by omega
    rw [if_neg hclock, if_neg hclock, if_neg hnot, if_neg hnot]
    rcases hmade : (h.stamped zstd c.tick).makeRoom zstd c.textSize with ⟨ok, h₂⟩
    rw [hmade] at hroom
    obtain rfl : ok = true := hroom
    have hcache : h₂.channel.cache = h.channel.cache := by
      have hkept := congrArg Encoder.cache (Handle.kept_makeRoom hmade).2
      rw [(Handle.kept_stamped h c.tick).2] at hkept
      exact hkept
    have hrow : c.row h₂.channel.encoder = none := by
      rw [AnyCall.row_eq_none]
      refine ⟨?_, hfits⟩
      change Channel.entryFind h₂.channel.cache c.sensorName = none
      rw [hcache]
      exact hnew
    simp only [Bool.not_true, Bool.false_eq_true, if_false, hrow]
    exact ⟨trivial, rfl⟩

/-- The residue is the clock, its record, and maybe flushes. -/
theorem residue_spec (c : AnyCall) (h : Handle) :
    (c.residue zstd h).channel.encoder =
        (if h.channel.encoder.clock c.tick = none then h.channel.encoder
          else { h.channel.encoder with timestampCurrent := c.tick }) ∧
      (c.residue zstd h).channel.written =
        h.channel.written ++ h.channel.encoder.stamp c.tick := by
  unfold AnyCall.residue
  by_cases hclock : h.channel.encoder.clock c.tick = none
  · rw [if_pos hclock, if_pos hclock]
    refine ⟨rfl, ?_⟩
    simp [Encoder.stamp, hclock]
  rw [if_neg hclock, if_neg hclock]
  obtain ⟨-, hencoder⟩ := @Handle.kept_stamped zstd h c.tick
  have hwritten : (h.stamped zstd c.tick).channel.written =
      h.channel.written ++ h.channel.encoder.stamp c.tick := by
    by_cases hset : h.channel.base.timestampCurrent = c.tick
    · have hstamp : h.channel.encoder.stamp c.tick = [] := by
        have hset' : h.channel.encoder.timestampCurrent = c.tick := hset
        simp [Encoder.stamp, Encoder.clock, hset']
      unfold Handle.stamped
      rw [if_pos hset, hstamp, List.append_nil]
    · exact written_stamped c.tick hset
  split
  · exact ⟨hencoder, hwritten⟩
  · rcases hmade : (h.stamped zstd c.tick).makeRoom zstd c.textSize with ⟨ok, h₂⟩
    have hkept := (Handle.kept_makeRoom hmade).2
    have hroom := @written_makeRoom zstd (h.stamped zstd c.tick) c.textSize
    rw [hmade] at hroom
    exact ⟨hkept.trans hencoder, hroom.trans hwritten⟩

theorem leaves_inject {c : AnyCall} (hrejected : c.Rejected zstd h) :
    c.Leaves zstd h (c.inject zstd h).2 := by
  obtain ⟨-, halike⟩ := inject_rejected hrejected
  obtain ⟨hencoder, hwritten⟩ := @residue_spec zstd c h
  have hmarks : (c.inject zstd h).2.unmarked = (c.residue zstd h).unmarked := halike
  have hsame : (c.inject zstd h).2.channel.encoder = (c.residue zstd h).channel.encoder := by
    change (c.inject zstd h).2.unmarked.channel.encoder =
      (c.residue zstd h).unmarked.channel.encoder
    rw [hmarks]
  have hbytes : (c.inject zstd h).2.channel.written = (c.residue zstd h).channel.written := by
    change (c.inject zstd h).2.unmarked.channel.written =
      (c.residue zstd h).unmarked.channel.written
    rw [hmarks]
  rw [hencoder] at hsame
  refine ⟨?_, ?_, ?_, ?_, hbytes.trans hwritten, halike.runsAlike⟩
  · refine (congrArg Encoder.cache hsame).trans ?_
    split <;> rfl
  · refine (congrArg Encoder.totalEntries hsame).trans ?_
    split <;> rfl
  · refine (congrArg Encoder.rowCounter hsame).trans ?_
    split <;> rfl
  · refine (congrArg Encoder.timestampCurrent hsame).trans ?_
    split <;> rfl

/-- A refused call is as if it had not been made exactly if its timestamp is the reason,
or its clock is the channel's and no room had to be made. -/
theorem untouched_iff {c : AnyCall} (hrejected : c.Rejected zstd h) :
    c.Untouched zstd h ↔ h.channel.encoder.clock c.tick = none ∨ c.Idle h := by
  obtain ⟨-, halike⟩ := inject_rejected hrejected
  have hleaves := leaves_inject hrejected
  constructor
  · rintro ⟨hencoder, hpending, -⟩
    by_cases hclock : h.channel.encoder.clock c.tick = none
    · exact Or.inl hclock
    right
    have htick : h.channel.base.timestampCurrent = c.tick := by
      have hmoved := hleaves.clock
      rw [if_neg hclock] at hmoved
      exact (congrArg Encoder.timestampCurrent hencoder).symm.trans hmoved
    refine ⟨htick, ?_⟩
    rintro ⟨hshort, hbelow, hspace⟩
    -- the flush for the text emptied a bucket that held something
    have hstamped : h.stamped zstd c.tick = h := if_pos htick
    have hmarks : (c.inject zstd h).2.unmarked = (c.residue zstd h).unmarked := halike
    have hresidue : (c.residue zstd h).channel.pending = h.channel.pending := by
      rw [← hpending]
      change (c.residue zstd h).unmarked.channel.pending =
        (c.inject zstd h).2.unmarked.channel.pending
      rw [hmarks]
    unfold AnyCall.residue at hresidue
    rw [if_neg hclock, if_neg (by omega), hstamped] at hresidue
    cases hrejected with
    | timestamp hlate => exact hclock hlate
    | text hclock hlong => omega
    | names hclock hshort hroom hnew hfits =>
      rw [hstamped] at hroom
      unfold Handle.makeRoom at hresidue hroom
      rw [if_pos ⟨hbelow, hspace⟩] at hresidue hroom
      obtain ⟨n, -, -, hok, hempty⟩ := @fails_channelFlush zstd h
      rw [hempty (hok.mp hroom)] at hresidue
      have hnil : h.channel.pending = [] := hresidue.symm
      rw [hnil, List.length_nil] at hspace
      omega
  · intro hidle
    have hresidue : c.residue zstd h = h := by
      unfold AnyCall.residue
      rcases hidle with hclock | ⟨htick, hspace⟩
      · exact if_pos hclock
      · have hstamped : h.stamped zstd c.tick = h := if_pos htick
        rw [hstamped]
        split
        · rfl
        split
        · rfl
        · unfold Handle.makeRoom
          rw [if_neg (by omega)]
    rw [hresidue] at halike
    have hmarks : (c.inject zstd h).2.unmarked = h.unmarked := halike
    refine ⟨?_, ?_, halike.runsAlike⟩
    · change (c.inject zstd h).2.unmarked.channel.encoder = h.unmarked.channel.encoder
      rw [hmarks]
    · change (c.inject zstd h).2.unmarked.channel.pending = h.unmarked.channel.pending
      rw [hmarks]

/-- **A refused call**, in any state. -/
theorem rejected_inject {c : AnyCall} (hrejected : c.Rejected zstd h) :
    (c.inject zstd h).1 = false ∧ c.Leaves zstd h (c.inject zstd h).2 ∧
      (c.Untouched zstd h ↔ h.channel.encoder.clock c.tick = none ∨ c.Idle h) :=
  ⟨(inject_rejected hrejected).1, leaves_inject hrejected, untouched_iff hrejected⟩

/-- A string that no bucket of 512 bytes has room for. -/
def oneByteTooLong : AnyCall :=
  ⟨⟨7, seven_lt_TS_NULL⟩, CStr.empty, none, .scalar (.string ⟨[1], by decide, by decide⟩), [],
    false, 0⟩

theorem rejected_inject_oneByteTooLong :
    (oneByteTooLong.inject Zstd.stored smallChannel).1 = false ∧
      oneByteTooLong.Leaves Zstd.stored smallChannel
        (oneByteTooLong.inject Zstd.stored smallChannel).2 ∧
      (oneByteTooLong.Untouched Zstd.stored smallChannel ↔
        smallChannel.channel.encoder.clock oneByteTooLong.tick = none ∨
          oneByteTooLong.Idle smallChannel) :=
  rejected_inject (.text (by decide) (by decide))

/-- It is refused, and the clock has moved. -/
theorem not_untouched_oneByteTooLong :
    ¬ (oneByteTooLong.Rejected Zstd.stored smallChannel →
      oneByteTooLong.Untouched Zstd.stored smallChannel) := by
  intro huntouched
  have hencoder := (huntouched (.text (by decide) (by decide))).1
  have htick := congrArg Encoder.timestampCurrent hencoder
  revert htick
  decide +kernel

end Otic.Pack
