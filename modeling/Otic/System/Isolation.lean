import Otic.Stored
import Otic.System.Delivery

/-!
# Channels do not interfere

The calls of a session on one id are a session of their own.  Both runs keep the same
channel and the same incarnations of the id (`alike_run`), so that the compressor is given
the same blocks of it, and what is delivered for an id depends on nothing else.
-/

namespace Otic

namespace Pack

/-- The id a call is about. -/
def Op.id : Op → UInt8
  | .define _ id _ | .inject id _ | .flush id | .close id => id

/-- The calls on one id. -/
def restrictTo (id : UInt8) (steps : List Step) : List Step := steps.filter fun s => s.op.id == id

/-- The session with the calls on one id only. -/
def Session.restrict (s : Session) (id : UInt8) : Session :=
  { s with steps := restrictTo id s.steps }

/-- The ids that are defined, in order. -/
def definedIds (steps : List Step) : List UInt8 :=
  steps.filterMap fun s =>
    match s.op with
    | .define _ id _ => some id
    | _ => none

/-- Injects return 1. -/
def Acknowledged (call : Op × Bool) : Prop := ∀ id c, call.1 = .inject id c → call.2 = true

variable {zstd : Zstd} {features id : UInt8} {pack pack' : OticPack}
  {calls calls' : List (Op × Bool)} {events : List Event}

/-! ### Two runs side by side -/

theorem track_other {call : Op × Bool} (hid : call.1.id ≠ id) (is : List Incarnation) :
    track id is call = is := by
  obtain ⟨op, ok⟩ := call
  cases op with
  | define channelType id' bufferSize =>
    simp only [track]
    rw [if_neg fun h => hid h.1]
  | inject id' c | close id' => exact if_neg hid
  | flush id' => rfl

/-- A channel is open exactly if its newest incarnation is not closed. -/
theorem Keeps.mem_ids (hk : Keeps zstd features pack calls events) :
    id ∈ pack.ids ↔ ∃ i past, incarnations id calls = i :: past ∧ i.closed = false := by
  constructor
  · intro hid
    obtain ⟨ch, hch, rfl⟩ := List.mem_map.mp hid
    obtain ⟨i, past, held, hopen⟩ := hk.opened ch hch
    exact ⟨i, past, hopen.incarnations, hopen.current⟩
  · rintro ⟨i, past, hincarnations, hcurrent⟩
    by_contra hid
    have hclosed := (hk.shut id hid).closed i (by rw [hincarnations]; exact List.mem_cons_self)
    rw [hcurrent] at hclosed
    cases hclosed

/-! ### One channel in two packs -/

/-- A channel next to two parents whose flushers are going to answer alike. -/
structure Twin (h h' : Handle) : Prop where
  channel : h'.channel = h.channel
  answers : h'.parent.answers = h.parent.answers

variable {h h' : Handle}

theorem Twin.change (ht : Twin h h') (f : Channel → Channel) :
    Twin { h with channel := f h.channel } { h' with channel := f h'.channel } :=
  ⟨congrArg f ht.channel, ht.answers⟩

theorem Twin.setState (ht : Twin h h') (state : OticState) :
    Twin (h.setState state) (h'.setState state) :=
  ht.change fun ch => { ch with base := { ch.base with state := state } }

theorem Twin.setError (ht : Twin h h') (error : OticError) :
    Twin (h.setError error) (h'.setError error) :=
  ht.change fun ch => { ch with base := { ch.base with error := error } }

/-- The same was returned, and the channel is still the same. -/
def SameOut (out out' : Bool × Handle) : Prop := out'.1 = out.1 ∧ Twin out.2 out'.2

theorem Twin.channelFlush (ht : Twin h h') :
    SameOut (h.channelFlush zstd) (h'.channelFlush zstd) := by
  obtain ⟨parent, ch⟩ := h
  obtain ⟨parent', ch'⟩ := h'
  obtain ⟨hchannel, hanswers⟩ := ht
  dsimp only at hchannel hanswers
  subst hchannel
  have hfailed : ∀ {p p' : Parent} (ch : Channel), p'.answers = p.answers →
      Twin (Handle.flushFailed ⟨p, ch⟩) (Handle.flushFailed ⟨p', ch⟩) := fun ch hp => ⟨rfl, hp⟩
  cases hframe : zstd.compress ch'.base.cacheSize.toNat ch'.pending with
  | none =>
    simp only [Handle.channelFlush, hframe]
    exact ⟨rfl, hfailed _ hanswers⟩
  | some frame =>
    simp only [Handle.channelFlush, hframe, Parent.flusher]
    rw [hanswers]
    split
    · exact ⟨rfl, hfailed _ rfl⟩
    · split
      · exact ⟨rfl, hfailed _ rfl⟩
      · split
        · exact ⟨rfl, hfailed _ rfl⟩
        · exact ⟨rfl, rfl, rfl⟩

theorem Twin.flushIfFlushable (ht : Twin h h') :
    Twin (h.flushIfFlushable zstd) (h'.flushIfFlushable zstd) := by
  unfold Handle.flushIfFlushable
  rw [ht.channel]
  split
  · exact ht.channelFlush.2
  · exact ht

theorem Twin.tsHandler (ht : Twin h h') (tick : UInt64) :
    SameOut (h.tsHandler zstd tick) (h'.tsHandler zstd tick) := by
  unfold Handle.tsHandler
  rw [ht.channel]
  dsimp only
  split
  · exact ⟨rfl, ht⟩
  split
  · exact ⟨rfl, Twin.flushIfFlushable ⟨rfl, ht.answers⟩⟩
  split
  · exact ⟨rfl, ht.setError _⟩
  · exact ⟨rfl, Twin.flushIfFlushable ⟨rfl, ht.answers⟩⟩

theorem Twin.finishRow (ht : Twin h h') (failState : OticState) (inj : Channel.Injection)
    (entry : Option Entry) (sensorName : CStr) (unit : Option CStr) :
    SameOut (h.finishRow zstd failState inj entry sensorName unit)
      (h'.finishRow zstd failState inj entry sensorName unit) := by
  unfold Handle.finishRow
  rw [ht.channel]
  cases h.channel.writeRow inj entry sensorName unit with
  | none => exact ⟨rfl, (ht.setError _).setState _⟩
  | some ch => exact ⟨rfl, Twin.flushIfFlushable ⟨rfl, ht.answers⟩⟩

theorem Twin.injectRow (ht : Twin h h') (failState : OticState) (inj : Channel.Injection)
    (tick : UInt64) (sensorName : CStr) (unit : Option CStr) :
    SameOut (h.injectRow zstd failState inj tick sensorName unit)
      (h'.injectRow zstd failState inj tick sensorName unit) := by
  obtain ⟨hok, hafter⟩ := @Twin.tsHandler zstd _ _ ht tick
  unfold Handle.injectRow
  rcases hts : h.tsHandler zstd tick with ⟨ok, h₁⟩
  rcases hts' : h'.tsHandler zstd tick with ⟨ok', h₁'⟩
  rw [hts, hts'] at hok hafter
  dsimp only at hok hafter
  subst hok
  cases ok' with
  | false => exact ⟨rfl, hafter.setState _⟩
  | true =>
    dsimp only
    rw [hafter.channel]
    exact hafter.finishRow _ _ _ _ _

theorem Twin.injectS (ht : Twin h h') (tick : UInt64) (sensorName : CStr) (unit : Option CStr)
    (value : CStr) (heap : List UInt8) :
    SameOut (h.injectS zstd tick sensorName unit value heap)
      (h'.injectS zstd tick sensorName unit value heap) := by
  obtain ⟨hok, hafter⟩ := @Twin.tsHandler zstd _ _ ht tick
  unfold Handle.injectS
  rcases hts : h.tsHandler zstd tick with ⟨ok, h₁⟩
  rcases hts' : h'.tsHandler zstd tick with ⟨ok', h₁'⟩
  rw [hts, hts'] at hok hafter
  dsimp only at hok hafter
  subst hok
  cases ok' with
  | false => exact ⟨rfl, hafter.setState _⟩
  | true =>
    dsimp only
    rw [hafter.channel]
    split
    · exact ⟨rfl, (hafter.setError _).setState _⟩
    split
    · -- the bucket is flushed for the text, here and there
      obtain ⟨hok₂, hafter₂⟩ := @Twin.channelFlush zstd _ _ hafter
      rcases hflush : h₁.channelFlush zstd with ⟨ok₂, h₂⟩
      rcases hflush' : h₁'.channelFlush zstd with ⟨ok₂', h₂'⟩
      rw [hflush, hflush'] at hok₂ hafter₂
      dsimp only at hok₂ hafter₂ ⊢
      subst hok₂
      split
      · exact ⟨rfl, hafter₂.setState _⟩
      · exact hafter₂.finishRow _ _ _ _ _
    · exact hafter.finishRow _ _ _ _ _

theorem Twin.inject (ht : Twin h h') (c : Call) :
    SameOut (c.inject zstd h) (c.inject zstd h') := by
  unfold Call.inject
  cases c.value with
  | string value => exact ht.injectS _ _ _ _ _
  | bool value | intNeg value | intPos value | double value | null => exact ht.injectRow _ _ _ _ _

/-- The blocks that the compressor is given are the same. -/
theorem Twin.packed {h₁ h₁' : Handle} (ht : Twin h h') (ht₁ : Twin h₁ h₁') :
    h'.Packed zstd h₁' ↔ h.Packed zstd h₁ := by
  rw [Handle.Packed, ht.channel, ht₁.channel]
  rfl

/-! ### Channels of an id -/

/-- The open channel of an id. -/
def OticPack.channelOf (pack : OticPack) (id : UInt8) : Option Channel :=
  pack.channels.find? fun ch => ch.channelId == id

theorem handle_eq (pack : OticPack) (id : UInt8) :
    pack.handle id = (pack.channelOf id).map fun ch => ⟨pack.parent, ch⟩ := rfl

theorem channelOf_eq_some (hdistinct : pack.ids.Nodup) {ch : Channel} {id : UInt8} :
    pack.channelOf id = some ch ↔ ch ∈ pack.channels ∧ ch.channelId = id := by
  constructor
  · intro hfind
    exact ⟨List.mem_of_find?_eq_some hfind, by simpa using List.find?_some hfind⟩
  · rintro ⟨hmem, rfl⟩
    have hsome : (pack.channelOf ch.channelId).isSome :=
      List.find?_isSome.mpr ⟨ch, hmem, by simp⟩
    obtain ⟨ch', hfind⟩ := Option.isSome_iff_exists.mp hsome
    have hmem' : ch' ∈ pack.channels := List.mem_of_find?_eq_some hfind
    have hid : ch'.channelId = ch.channelId := by simpa using List.find?_some hfind
    rw [hfind, channel_unique hdistinct hmem' hmem hid]

theorem channelOf_update (pack : OticPack) {h' : Handle} {id : UInt8}
    (hid : h'.channel.channelId = id) (id' : UInt8) :
    (pack.update h').channelOf id' =
      if id' = id then (pack.channelOf id').map fun _ => h'.channel else pack.channelOf id' := by
  subst hid
  unfold OticPack.channelOf OticPack.update
  dsimp only
  induction pack.channels with
  | nil => simp
  | cons ch channels ih =>
    rw [List.map_cons, List.find?_cons, List.find?_cons]
    by_cases hch : ch.channelId = h'.channel.channelId
    · rw [if_pos hch]
      by_cases hid' : h'.channel.channelId = id'
      · subst hid'
        simp [hch]
      · have hne : id' ≠ h'.channel.channelId := fun heq => hid' heq.symm
        have hfalse : (h'.channel.channelId == id') = false := by simpa using hid'
        have hfalse' : (ch.channelId == id') = false := by rw [hch]; exact hfalse
        rw [hfalse, hfalse']
        exact ih
    · rw [if_neg hch]
      by_cases hid' : ch.channelId = id'
      · subst hid'
        simp [hch]
      · have hfalse : (ch.channelId == id') = false := by simpa using hid'
        rw [hfalse]
        exact ih

theorem channelOf_channelClose (hdistinct : pack.ids.Nodup) (ch : Channel) (id : UInt8) :
    (pack.channelClose zstd ch).channelOf id =
      if id = ch.channelId then none else pack.channelOf id := by
  have hids := @channelClose_ids zstd pack ch
  by_cases hid : id = ch.channelId
  · rw [if_pos hid, OticPack.channelOf, List.find?_eq_none]
    intro ch' hch' heq
    have hmem' := List.mem_map_of_mem (f := Channel.channelId) hch'
    rw [hids] at hmem'
    have hsame : ch'.channelId = id := by simpa using heq
    exact ((List.Nodup.mem_erase_iff hdistinct).mp hmem').1 (hsame.trans hid)
  · rw [if_neg hid]
    have hdistinct' : (pack.channelClose zstd ch).ids.Nodup := by
      rw [OticPack.ids, hids]
      exact hdistinct.erase _
    have hkeep : ∀ ch' : Channel, ch'.channelId = id →
        (ch' ∈ (pack.channelClose zstd ch).channels ↔ ch' ∈ pack.channels) := fun ch' hid' =>
      List.mem_eraseP_of_neg (by simpa [hid'] using hid)
    apply Option.ext
    intro ch'
    rw [channelOf_eq_some hdistinct', channelOf_eq_some hdistinct]
    exact and_congr_left fun hid' => hkeep ch' hid'

/-- A call on another id leaves the channel alone. -/
theorem channelOf_step (hdistinct : pack.ids.Nodup) {s : Step} {ok : Bool} {pack₁ : OticPack}
    (hid : s.op.id ≠ id) (hstep : pack.step zstd s = some (ok, pack₁)) :
    pack₁.channelOf id = pack.channelOf id := by
  have hupdate : ∀ h₁ : Handle, h₁.channel.channelId = s.op.id →
      ((pack.hear s.answers).update h₁).channelOf id = pack.channelOf id := by
    intro h₁ hid₁
    rw [channelOf_update _ hid₁, if_neg (Ne.symm hid)]
    rfl
  obtain ⟨op, answers⟩ := s
  cases op with
  | define channelType id' bufferSize =>
    simp only [OticPack.step, Option.some.injEq] at hstep
    have hchannels := channels_defineChannel (pack.hear answers) channelType id' bufferSize
    rw [hstep] at hchannels
    rcases hchannels with ⟨-, hsame⟩ | ⟨-, -, hnew⟩
    · rw [OticPack.channelOf, hsame]
      rfl
    · rw [OticPack.channelOf, hnew, List.find?_cons_of_neg]
      · rfl
      · have hne : id' ≠ id := hid
        simpa [Channel.init] using hne
  | inject id' c =>
    simp only [OticPack.step, Option.map_eq_some_iff] at hstep
    obtain ⟨handle, hh, hcall⟩ := hstep
    cases hcall
    obtain ⟨-, -, hhandle⟩ := handle_eq_some hh
    obtain ⟨out, -, -, -, hon⟩ := @onwards_inject zstd c handle
    exact hupdate _ ((congrArg Shape.channelId hon.shape).trans hhandle)
  | flush id' =>
    simp only [OticPack.step, Option.map_eq_some_iff] at hstep
    obtain ⟨handle, hh, hcall⟩ := hstep
    cases hcall
    obtain ⟨-, -, hhandle⟩ := handle_eq_some hh
    have hon := (@onwards_channelFlush zstd handle).1
    exact hupdate _ ((congrArg Shape.channelId hon.shape).trans hhandle)
  | close id' =>
    simp only [OticPack.step, Option.map_eq_some_iff] at hstep
    obtain ⟨handle, hh, hcall⟩ := hstep
    cases hcall
    obtain ⟨-, -, hhandle⟩ := handle_eq_some hh
    have hclose := @channelOf_channelClose zstd (pack.hear answers) hdistinct handle.channel id
    rwa [if_neg (by rw [hhandle]; exact Ne.symm hid)] at hclose

/-- Two runs that have done the same to an id; the second one goes on defining. -/
structure Alike (zstd : Zstd) (features id : UInt8) (pack : OticPack) (calls : List (Op × Bool))
    (pack' : OticPack) (calls' : List (Op × Bool)) : Prop where
  keeps : ∃ events, Keeps zstd features pack calls events
  keeps' : ∃ events, Keeps zstd features pack' calls' events
  spacious : pack.Spacious
  spacious' : pack'.Spacious
  opened : pack'.parent.state = .opened
  channel : pack'.channelOf id = pack.channelOf id
  same : incarnations id calls' = incarnations id calls

theorem Alike.mem_ids (h : Alike zstd features id pack calls pack' calls') :
    id ∈ pack'.ids ↔ id ∈ pack.ids := by
  obtain ⟨events, hk⟩ := h.keeps
  obtain ⟨events', hk'⟩ := h.keeps'
  rw [hk.mem_ids, hk'.mem_ids, h.same]

section Alike

variable (hl : Alike zstd features id pack calls pack' calls') {s : Step}
include hl

theorem Alike.twin (answers : List Bool) {handle : Handle}
    (hh : (pack.hear answers).handle id = some handle) :
    ∃ handle', (pack'.hear answers).handle id = some handle' ∧ Twin handle handle' := by
  rw [handle_eq, Option.map_eq_some_iff] at hh
  obtain ⟨ch, hch, rfl⟩ := hh
  have hch' : (pack'.hear answers).channelOf id = some ch := hl.channel.trans hch
  refine ⟨⟨(pack'.hear answers).parent, ch⟩, ?_, rfl, rfl⟩
  rw [handle_eq, hch', Option.map_some]

theorem Alike.twins (answers : List Bool) {handle' : Handle}
    (hh' : (pack'.hear answers).handle id = some handle') :
    ∃ handle, (pack.hear answers).handle id = some handle ∧ Twin handle handle' := by
  rw [handle_eq, Option.map_eq_some_iff] at hh'
  obtain ⟨ch, hch', rfl⟩ := hh'
  have hch : (pack.hear answers).channelOf id = some ch := hl.channel.symm.trans hch'
  refine ⟨⟨(pack.hear answers).parent, ch⟩, ?_, rfl, rfl⟩
  rw [handle_eq, hch, Option.map_some]

theorem Alike.update (answers : List Bool) {h₁ h₁' : Handle} (ht : Twin h₁ h₁')
    (hid : h₁.channel.channelId = id) :
    ((pack'.hear answers).update h₁').channelOf id =
      ((pack.hear answers).update h₁).channelOf id := by
  have hid' : h₁'.channel.channelId = id := by rw [ht.channel, hid]
  rw [channelOf_update _ hid, channelOf_update _ hid', if_pos rfl, if_pos rfl, ht.channel]
  exact congrArg _ hl.channel

/-- The compressor is given the same blocks. -/
theorem Alike.packed (hid : s.op.id = id) (hpacked : s.Packed zstd pack) :
    s.Packed zstd pack' := by
  obtain ⟨op, answers⟩ := s
  cases op with
  | define channelType id' bufferSize => trivial
  | inject id' c =>
    subst hid
    intro handle' hh'
    obtain ⟨handle, hh, ht⟩ := hl.twins answers hh'
    exact (ht.packed (ht.inject c).2).mpr (hpacked handle hh)
  | flush id' =>
    subst hid
    intro handle' hh'
    obtain ⟨handle, hh, ht⟩ := hl.twins answers hh'
    exact (ht.packed ht.channelFlush.2).mpr (hpacked handle hh)
  | close id' =>
    subst hid
    intro handle' hh'
    obtain ⟨handle, hh, ht⟩ := hl.twins answers hh'
    rw [ht.channel]
    exact hpacked handle hh

theorem Alike.result (hid : s.op.id = id) {pack₁ : OticPack}
    (hstep : pack.step zstd s = some (true, pack₁)) :
    ∃ pack₁', pack'.step zstd s = some (true, pack₁') ∧
      pack₁'.channelOf id = pack₁.channelOf id := by
  obtain ⟨op, answers⟩ := s
  cases op with
  | define channelType id' bufferSize =>
    subst hid
    simp only [OticPack.step, Option.some.injEq] at hstep
    obtain ⟨-, hzero, hfree⟩ := (defineChannel_ok channelType id' bufferSize).1.mp
      (congrArg Prod.fst hstep)
    have hdefined : ((pack'.hear answers).defineChannel channelType id' bufferSize).1 = true :=
      (defineChannel_ok channelType id' bufferSize).1.mpr
        ⟨hl.opened, hzero, mt hl.mem_ids.mp hfree⟩
    have hnewest : ∀ p : OticPack, (p.defineChannel channelType id' bufferSize).1 = true →
        (p.defineChannel channelType id' bufferSize).2.channelOf id' =
          some (Channel.init id' channelType (OticPack.effectiveSize bufferSize)) := by
      intro p hok
      rcases channels_defineChannel p channelType id' bufferSize with
        ⟨hfailed, -⟩ | ⟨-, -, hchannels⟩
      · rw [hfailed] at hok
        cases hok
      · rw [OticPack.channelOf, hchannels, List.find?_cons_of_pos]
        exact beq_self_eq_true id'
    refine ⟨((pack'.hear answers).defineChannel channelType id' bufferSize).2, ?_, ?_⟩
    · simp only [OticPack.step, Option.some.injEq]
      exact Prod.ext hdefined rfl
    · have hok : ((pack.hear answers).defineChannel channelType id' bufferSize).1 = true :=
        congrArg Prod.fst hstep
      have hnew := hnewest _ hok
      rw [hstep] at hnew
      exact (hnewest _ hdefined).trans hnew.symm
  | inject id' c =>
    subst hid
    simp only [OticPack.step, Option.map_eq_some_iff] at hstep ⊢
    obtain ⟨handle, hh, hcall⟩ := hstep
    obtain ⟨hok, rfl⟩ := Prod.mk.inj hcall
    obtain ⟨-, -, hid⟩ := handle_eq_some hh
    obtain ⟨handle', hh', ht⟩ := hl.twin answers hh
    obtain ⟨hsame, ht'⟩ := @Twin.inject zstd _ _ ht c
    obtain ⟨out, -, -, -, hon⟩ := @onwards_inject zstd c handle
    refine ⟨_, ⟨handle', hh', Prod.ext (hsame.trans hok) rfl⟩, ?_⟩
    exact hl.update answers ht' ((congrArg Shape.channelId hon.shape).trans hid)
  | flush id' =>
    subst hid
    simp only [OticPack.step, Option.map_eq_some_iff] at hstep ⊢
    obtain ⟨handle, hh, hcall⟩ := hstep
    obtain ⟨hok, rfl⟩ := Prod.mk.inj hcall
    obtain ⟨-, -, hid⟩ := handle_eq_some hh
    obtain ⟨handle', hh', ht⟩ := hl.twin answers hh
    obtain ⟨hsame, ht'⟩ := @Twin.channelFlush zstd _ _ ht
    have hon := (@onwards_channelFlush zstd handle).1
    refine ⟨_, ⟨handle', hh', Prod.ext (hsame.trans hok) rfl⟩, ?_⟩
    exact hl.update answers ht' ((congrArg Shape.channelId hon.shape).trans hid)
  | close id' =>
    subst hid
    obtain ⟨events, hk⟩ := hl.keeps
    obtain ⟨events', hk'⟩ := hl.keeps'
    simp only [OticPack.step, Option.map_eq_some_iff] at hstep ⊢
    obtain ⟨handle, hh, hcall⟩ := hstep
    obtain ⟨-, rfl⟩ := Prod.mk.inj hcall
    obtain ⟨-, -, hid⟩ := handle_eq_some hh
    obtain ⟨handle', hh', -⟩ := hl.twin answers hh
    obtain ⟨-, -, hid'⟩ := handle_eq_some hh'
    refine ⟨_, ⟨handle', hh', rfl⟩, ?_⟩
    have hgone := @channelOf_channelClose zstd (pack.hear answers) hk.distinct handle.channel id'
    have hgone' :=
      @channelOf_channelClose zstd (pack'.hear answers) hk'.distinct handle'.channel id'
    rw [if_pos hid.symm] at hgone
    rw [if_pos (Eq.symm hid' : id' = _)] at hgone'
    exact hgone'.trans hgone.symm

/-- **A call on the id** has the same result in both runs. -/
theorem Alike.step (hlossless : zstd.Lossless) (hid : s.op.id = id) (hsized : s.op.Sized)
    (hanswers : Willing s.answers) (hpacked : s.Packed zstd pack) {pack₁ : OticPack}
    (hstep : pack.step zstd s = some (true, pack₁)) :
    s.Packed zstd pack' ∧ ∃ pack₁', pack'.step zstd s = some (true, pack₁') ∧
      Alike zstd features id pack₁ (calls ++ [(s.op, true)]) pack₁' (calls' ++ [(s.op, true)]) := by
  have hpacked' := hl.packed hid hpacked
  obtain ⟨pack₁', hstep', hchannel⟩ := hl.result hid hstep
  obtain ⟨events, hk⟩ := hl.keeps
  obtain ⟨events', hk'⟩ := hl.keeps'
  have hspacious := hk.spacious_step hlossless hl.spacious hstep hsized hanswers hpacked
  have hspacious' := hk'.spacious_step hlossless hl.spacious' hstep' hsized hanswers hpacked'
  obtain ⟨later, hk₁, -⟩ := hk.step hlossless hstep
    (Step.careful_of_packed hpacked hanswers true) hspacious.inside
  obtain ⟨later', hk₁', hgood⟩ := hk'.step hlossless hstep'
    (Step.careful_of_packed hpacked' hanswers true) hspacious'.inside
  refine ⟨hpacked', pack₁', hstep', ⟨_, hk₁⟩, ⟨_, hk₁'⟩, hspacious, hspacious',
    ((hgood hanswers hpacked').1 rfl).trans hl.opened, hchannel, ?_⟩
  rw [incarnations_concat, incarnations_concat, hl.same]

/-- **A call on another id** is made in the first run only. -/
theorem Alike.step_other (hlossless : zstd.Lossless) (hid : s.op.id ≠ id) (hsized : s.op.Sized)
    (hanswers : Willing s.answers) (hpacked : s.Packed zstd pack) {ok : Bool} {pack₁ : OticPack}
    (hstep : pack.step zstd s = some (ok, pack₁)) :
    Alike zstd features id pack₁ (calls ++ [(s.op, ok)]) pack' calls' := by
  obtain ⟨events, hk⟩ := hl.keeps
  have hspacious := hk.spacious_step hlossless hl.spacious hstep hsized hanswers hpacked
  obtain ⟨later, hk₁, -⟩ := hk.step hlossless hstep
    (Step.careful_of_packed hpacked hanswers ok) hspacious.inside
  refine ⟨⟨_, hk₁⟩, hl.keeps', hspacious, hl.spacious', hl.opened, ?_, ?_⟩
  · exact hl.channel.trans (channelOf_step hk.distinct hid hstep).symm
  · rw [incarnations_concat, track_other hid, hl.same]

end Alike

/-- **The runs side by side**, by induction over the steps of the first one. -/
theorem alike_run (hlossless : zstd.Lossless) (steps : List Step) :
    ∀ {pack pack' : OticPack} {calls calls' : List (Op × Bool)} {oks : List Bool}
      {pack₁ : OticPack}, Alike zstd features id pack calls pack' calls' →
      (∀ s ∈ steps, s.op.Sized) → (∀ s ∈ steps, Willing s.answers) →
      PackedRun zstd pack steps → pack.run zstd steps = some (oks, pack₁) →
      (∀ ok ∈ oks, ok = true) →
      PackedRun zstd pack' (restrictTo id steps) ∧
        ∃ oks' pack₁', pack'.run zstd (restrictTo id steps) = some (oks', pack₁') ∧
          Alike zstd features id pack₁ (calls ++ withResults steps oks) pack₁'
            (calls' ++ withResults (restrictTo id steps) oks') := by
  induction steps with
  | nil =>
    intro pack pack' calls calls' oks pack₁ h _ _ _ hrun _
    simp only [OticPack.run, Option.some.injEq, Prod.mk.injEq] at hrun
    obtain ⟨rfl, rfl⟩ := hrun
    exact ⟨trivial, [], pack', rfl, by simpa [withResults, restrictTo] using h⟩
  | cons s steps ih =>
    intro pack pack' calls calls' oks pack₁ h hsized hanswers hpacked hrun hoks
    simp only [OticPack.run, Option.bind_eq_bind, Option.bind_eq_some_iff, Option.some.injEq,
      Prod.mk.injEq, Prod.exists] at hrun
    obtain ⟨ok, pack₂, hstep, oks₂, pack₃, hrest, rfl, rfl⟩ := hrun
    have hok := hoks ok List.mem_cons_self
    subst hok
    have hsized' := hsized s List.mem_cons_self
    have hanswers' := hanswers s List.mem_cons_self
    have hlater : ∀ {pack₂' calls₂' }, Alike zstd features id pack₂ (calls ++ [(s.op, true)])
        pack₂' calls₂' → _ := fun h₂ =>
      ih h₂ (fun t ht => hsized t (List.mem_cons_of_mem _ ht))
        (fun t ht => hanswers t (List.mem_cons_of_mem _ ht)) (hpacked.2 (true, pack₂) hstep) hrest
        fun ok hmem => hoks ok (List.mem_cons_of_mem _ hmem)
    have hcalls : calls ++ withResults (s :: steps) (true :: oks₂) =
        calls ++ [(s.op, true)] ++ withResults steps oks₂ := by simp [withResults]
    rw [hcalls]
    by_cases hid : s.op.id = id
    · obtain ⟨hfirst, pack₂', hstep', h₂⟩ :=
        h.step hlossless hid hsized' hanswers' hpacked.1 hstep
      obtain ⟨hpacked', oks', pack₁', hrun', h₁⟩ := hlater h₂
      have hfilter : restrictTo id (s :: steps) = s :: restrictTo id steps := by
        simp [restrictTo, hid]
      rw [hfilter]
      refine ⟨⟨hfirst, fun out hout => ?_⟩, true :: oks', pack₁', ?_, ?_⟩
      · rw [hstep', Option.mem_def, Option.some.injEq] at hout
        subst hout
        exact hpacked'
      · simp only [OticPack.run, hstep', hrun', Option.bind_eq_bind, Option.bind_some]
      · simpa [withResults] using h₁
    · have hfilter : restrictTo id (s :: steps) = restrictTo id steps := by
        simp [restrictTo, hid]
      rw [hfilter]
      exact hlater (h.step_other hlossless hid hsized' hanswers' hpacked.1 hstep)

/-! ### Which calls return 1 -/

theorem idsAfter_subset {ids defined : List UInt8} (h : ∀ id ∈ ids, id ∈ defined) (s : Step)
    (ok : Bool) : ∀ id ∈ idsAfter ids (s.op, ok), id ∈ defined ++ definedIds [s] := by
  obtain ⟨op, answers⟩ := s
  intro id hid
  cases op with
  | define channelType id' bufferSize =>
    simp only [idsAfter] at hid
    split at hid
    · rcases List.mem_cons.mp hid with rfl | hid
      · simp [definedIds]
      · simp [h id hid]
    · simp [h id hid]
  | inject id' c | flush id' => simp [h id hid]
  | close id' => simp [h id (List.mem_of_mem_erase hid)]

/-- **If every id is defined once**, and injects return 1, then all calls do. -/
theorem oks_true (hlossless : zstd.Lossless) (steps : List Step) :
    ∀ {pack : OticPack} {calls : List (Op × Bool)} {events : List Event} {oks : List Bool}
      {pack' : OticPack} {defined : List UInt8}, Keeps zstd features pack calls events →
      pack.Spacious → pack.parent.state = .opened → (∀ id ∈ pack.ids, id ∈ defined) →
      (defined ++ definedIds steps).Nodup → 0 ∉ definedIds steps →
      (∀ s ∈ steps, s.op.Sized) → (∀ s ∈ steps, Willing s.answers) →
      PackedRun zstd pack steps → pack.run zstd steps = some (oks, pack') →
      (∀ call ∈ withResults steps oks, Acknowledged call) → ∀ ok ∈ oks, ok = true := by
  induction steps with
  | nil =>
    intro pack calls events oks pack' defined _ _ _ _ _ _ _ _ _ hrun _
    simp only [OticPack.run, Option.some.injEq, Prod.mk.injEq] at hrun
    obtain ⟨rfl, rfl⟩ := hrun
    intro ok hmem
    cases hmem
  | cons s steps ih =>
    intro pack calls events oks pack' defined hk hspacious hopened hids hnodup hzero hsized
      hanswers hpacked hrun hinjects
    simp only [OticPack.run, Option.bind_eq_bind, Option.bind_eq_some_iff, Option.some.injEq,
      Prod.mk.injEq, Prod.exists] at hrun
    obtain ⟨ok, pack₁, hstep, oks₁, pack₂, hrest, rfl, rfl⟩ := hrun
    have hanswers' := hanswers s List.mem_cons_self
    have hspacious₁ := hk.spacious_step hlossless hspacious hstep (hsized s List.mem_cons_self)
      hanswers' hpacked.1
    obtain ⟨later, hk₁, hgood⟩ := hk.step hlossless hstep
      (Step.careful_of_packed hpacked.1 hanswers' ok) hspacious₁.inside
    obtain ⟨hstate, hflush⟩ := hgood hanswers' hpacked.1
    have hfirst : Acknowledged (s.op, ok) := hinjects _ (by simp [withResults])
    have hsplit : definedIds (s :: steps) = definedIds [s] ++ definedIds steps := by
      simp only [definedIds, ← List.filterMap_append, List.singleton_append]
    rw [hsplit, ← List.append_assoc] at hnodup
    rw [hsplit, List.mem_append, not_or] at hzero
    have hok : ok = true := by
      obtain ⟨op, answers⟩ := s
      cases op with
      | define channelType id bufferSize =>
        simp only [OticPack.step, Option.some.injEq] at hstep
        have hnew : id ∉ defined := by
          intro hmem
          have hdefined := (List.nodup_append.mp hnodup).1
          exact (List.nodup_append.mp hdefined).2.2 id hmem id (by simp [definedIds]) rfl
        have haccepted : ((pack.hear answers).defineChannel channelType id bufferSize).1 = true :=
          (defineChannel_ok channelType id bufferSize).1.mpr
            ⟨hopened, fun heq => hzero.1 (by simp [definedIds, heq]),
              fun hid => hnew (hids id hid)⟩
        rw [hstep] at haccepted
        exact haccepted
      | inject id c => exact hfirst id c rfl
      | flush id => exact hflush id rfl
      | close id =>
        simp only [OticPack.step, Option.map_eq_some_iff] at hstep
        obtain ⟨handle, -, hcall⟩ := hstep
        exact (congrArg Prod.fst hcall).symm
    intro ok' hmem
    rcases List.mem_cons.mp hmem with rfl | hmem
    · exact hok
    · apply ih hk₁ hspacious₁ ((hstate hok).trans hopened) _ hnodup hzero.2
        (fun t ht => hsized t (List.mem_cons_of_mem _ ht))
        (fun t ht => hanswers t (List.mem_cons_of_mem _ ht)) (hpacked.2 (ok, pack₁) hstep) hrest _
        ok' hmem
      · intro id hid
        rw [step_ids hstep] at hid
        exact idsAfter_subset hids s ok id hid
      · intro call hcall
        exact hinjects call (by simpa [withResults] using Or.inr hcall)

end Pack

open Pack Unpack

variable {zstd : Zstd} {s : Session} {w : Written} {select : List UInt8}

/-- A call on another id does not count for an id. -/
theorem Pack.incarnations_other {calls : List (Op × Bool)} {id : UInt8}
    (hother : ∀ call ∈ calls, call.1.id ≠ id) : incarnations id calls = [] := by
  induction calls using List.reverseRecOn with
  | nil => rfl
  | append_singleton calls call ih =>
    rw [incarnations_concat, track_other (hother call (by simp)),
      ih fun call hcall => hother call (by simp [hcall])]

theorem Pack.id_of_restrict {id : UInt8} {steps : List Step} {oks : List Bool} :
    ∀ call ∈ withResults (restrictTo id steps) oks, call.1.id = id := by
  intro call hcall
  obtain ⟨s, hs, hop⟩ := List.mem_map.mp (List.of_mem_zip hcall).1
  rw [← hop]
  simpa using (List.mem_filter.mp hs).2

/-- **The session of one id** goes through, and what is delivered for the id is the same. -/
theorem rowsOf_restrict (hlossless : zstd.Lossless) (hundisturbed : s.Undisturbed)
    (hsized : ∀ st ∈ s.steps, st.op.Sized) (hpacked : s.Packed zstd)
    (hw : s.write zstd = some w) (hoks : ∀ ok ∈ w.oks, ok = true) (hselect : select.Nodup)
    (seeker : Bool) {id : UInt8} (hid : id ∈ select) {u : OticUnpack}
    (hread : readFile zstd seeker select w.accepted = .ok u) :
    ∃ w' u', (s.restrict id).write zstd = some w' ∧
      readFile zstd seeker select w'.accepted = .ok u' ∧
        rowsOf id u'.calls = rowsOf id u.calls := by
  obtain ⟨events, hleaves⟩ := hundisturbed.leaves hlossless hpacked hw
    (hundisturbed.inside hlossless hpacked hsized hw)
  obtain ⟨-, u₁, -, -, hread₁, hreads⟩ := hleaves.read hlossless hselect seeker
  rw [hread, Except.ok.injEq] at hread₁
  subst hread₁
  -- the two runs of the writer
  obtain ⟨pack, hrun⟩ := Session.write_iff.mp ⟨w, hw, rfl⟩
  have hinit := keeps_init zstd s.features hundisturbed.opening
  have hroom : (OticPack.init s.features s.opening).Spacious := ⟨rfl, fun ch hch => by cases hch⟩
  have hstart : Alike zstd s.features id (OticPack.init s.features s.opening) []
      (OticPack.init s.features s.opening) [] :=
    ⟨⟨_, hinit⟩, ⟨_, hinit⟩, hroom, hroom, rfl, rfl, rfl⟩
  obtain ⟨hpacked₁, oks', pack', hrun', halike⟩ := alike_run hlossless s.steps hstart hsized
    hundisturbed.steps hpacked.steps hrun hoks
  -- the session of the id
  have hundisturbed' : (s.restrict id).Undisturbed :=
    ⟨hundisturbed.opening, fun st hst => hundisturbed.steps st (List.mem_of_mem_filter hst),
      hundisturbed.closing⟩
  have hsized' : ∀ st ∈ (s.restrict id).steps, st.op.Sized :=
    fun st hst => hsized st (List.mem_of_mem_filter hst)
  have hpacked' : (s.restrict id).Packed zstd := by
    refine ⟨hpacked₁, fun out hout ch hch => ?_⟩
    obtain rfl : (oks', pack') = out := Option.some.inj (hrun'.symm.trans hout)
    obtain ⟨events, hk⟩ := halike.keeps
    obtain ⟨events', hk'⟩ := halike.keeps'
    -- no other channel than that of the id is open
    have hthis : ch.channelId = id := by
      by_contra hne
      obtain ⟨i, past, hincarnations, -⟩ := hk'.mem_ids.mp (List.mem_map_of_mem hch)
      rw [List.nil_append, incarnations_other] at hincarnations
      · cases hincarnations
      · intro call hcall heq
        exact hne (heq.symm.trans (id_of_restrict call hcall))
    have hsame := (channelOf_eq_some hk'.distinct).mpr ⟨hch, hthis⟩
    rw [halike.channel] at hsame
    exact hpacked.closing (w.oks, pack) hrun ch ((channelOf_eq_some hk.distinct).mp hsame).1
  have hpack' : ∃ pack, (OticPack.init (s.restrict id).features (s.restrict id).opening).run zstd
      (s.restrict id).steps = some (oks', pack) := ⟨pack', hrun'⟩
  obtain ⟨w', hw', hwrite'⟩ := Session.write_iff.mpr hpack'
  obtain ⟨events', hleaves'⟩ := hundisturbed'.leaves hlossless hpacked' hw'
    (hundisturbed'.inside hlossless hpacked' hsized' hw')
  obtain ⟨-, u', -, -, hread', hreads'⟩ := hleaves'.read hlossless hselect seeker
  refine ⟨w', u', hw', hread', ?_⟩
  rw [hleaves.rows hreads hid, hleaves'.rows hreads' hid]
  have hsame : incarnations id ((s.restrict id).history w') = incarnations id (s.history w) := by
    have halike' := halike.same
    rw [List.nil_append, List.nil_append, ← hwrite'] at halike'
    exact halike'
  rw [lifetimes, hsame, lifetimes]

theorem Pack.Leaves.goes {events : List Event} (h : Leaves zstd s w events)
    (hlossless : zstd.Lossless) (hselect : select.Nodup) (seeker : Bool) :
    ∃ u₀ u, OticUnpack.start seeker select w.accepted = .ok u₀ ∧
      readFile zstd seeker select w.accepted = .ok u ∧
      ∀ u₁, Loop.Goes (OticUnpack.parse zstd) u₀ u₁ → u₁.input ≠ [] →
        ∃ u₂, u₁.parse zstd = .ok (true, u₂) := by
  obtain ⟨u₀, u, hstart, hgoes, hread, hreads⟩ := h.read hlossless hselect seeker
  refine ⟨u₀, u, hstart, hread, fun u₁ hgoes₁ hinput => ?_⟩
  rcases hgoes.continues hreads.stop hgoes₁ with rfl | hmore
  · exact absurd hreads.input hinput
  · exact hmore

/-- **Channels do not interfere.**  All frames are read without a fault, and what is
delivered for a selected id is what its own calls alone come to. -/
theorem channels_isolated (hlossless : zstd.Lossless) (hundisturbed : s.Undisturbed)
    (hsized : ∀ st ∈ s.steps, st.op.Sized) (hpacked : s.Packed zstd)
    (hids : (definedIds s.steps).Nodup) (hzero : 0 ∉ definedIds s.steps)
    (hw : s.write zstd = some w) (hinjects : ∀ call ∈ s.history w, Acknowledged call)
    (hselect : select.Nodup) (seeker : Bool) :
    ∃ u₀ u, OticUnpack.start seeker select w.accepted = .ok u₀ ∧
      readFile zstd seeker select w.accepted = .ok u ∧
      (∀ u₁, Loop.Goes (OticUnpack.parse zstd) u₀ u₁ → u₁.input ≠ [] →
        ∃ u₂, u₁.parse zstd = .ok (true, u₂)) ∧
      ∀ id ∈ select, ∃ w' u', (s.restrict id).write zstd = some w' ∧
        readFile zstd seeker select w'.accepted = .ok u' ∧
          rowsOf id u'.calls = rowsOf id u.calls := by
  obtain ⟨events, hleaves⟩ := hundisturbed.leaves hlossless hpacked hw
    (hundisturbed.inside hlossless hpacked hsized hw)
  obtain ⟨u₀, u, hstart, hread, hgoes⟩ := hleaves.goes hlossless hselect seeker
  refine ⟨u₀, u, hstart, hread, hgoes, fun id hid => ?_⟩
  apply rowsOf_restrict hlossless hundisturbed hsized hpacked hw _ hselect seeker hid hread
  have hinit := keeps_init zstd s.features hundisturbed.opening
  obtain ⟨pack, hrun⟩ := Session.write_iff.mp ⟨w, hw, rfl⟩
  have hnodup : ([] ++ definedIds s.steps).Nodup := hids
  apply oks_true hlossless s.steps hinit ⟨rfl, fun ch hch => by cases hch⟩ rfl _ hnodup hzero
    hsized hundisturbed.steps hpacked.steps hrun hinjects
  intro id hid
  cases hid

/-! ### Two channels -/

/-- The sensor `"a"` gets a value. -/
def probe (tick : Tick) (value : Value) : Call :=
  ⟨tick, ⟨[0x61], notMem_a, sized_a⟩, none, value, []⟩

/-- Two channels that take turns. -/
def twoChannels : Session where
  features := 0
  opening := []
  steps :=
    [⟨.define OTIC_CHANNEL_TYPE_SENSOR 1 0, []⟩, ⟨.define OTIC_CHANNEL_TYPE_SENSOR 2 512, []⟩,
      ⟨.inject 1 (probe ⟨7, seven_lt_TS_NULL⟩ (.intPos 1)), []⟩,
      ⟨.inject 2 (probe ⟨9, by decide⟩ .null), []⟩, ⟨.flush 1, []⟩,
      ⟨.inject 1 (probe ⟨8, by decide⟩ (.bool true)), []⟩, ⟨.close 2, []⟩]
  closing := []

theorem twoChannels_packed : twoChannels.Packed Zstd.stored :=
  ⟨by decide +kernel, by decide +kernel⟩

theorem channels_isolated_twoChannels :
    ∃ w, twoChannels.write Zstd.stored = some w ∧
      ∃ u₀ u, OticUnpack.start false [2, 1] w.accepted = .ok u₀ ∧
        readFile Zstd.stored false [2, 1] w.accepted = .ok u ∧
        (∀ u₁, Loop.Goes (OticUnpack.parse Zstd.stored) u₀ u₁ → u₁.input ≠ [] →
          ∃ u₂, u₁.parse Zstd.stored = .ok (true, u₂)) ∧
        ∀ id ∈ [2, 1], ∃ w' u', (twoChannels.restrict id).write Zstd.stored = some w' ∧
          readFile Zstd.stored false [2, 1] w'.accepted = .ok u' ∧
            rowsOf id u'.calls = rowsOf id u.calls := by
  obtain ⟨w, hw, hoks⟩ : ∃ w, twoChannels.write Zstd.stored = some w ∧
      w.oks = [true, true, true, true, true, true, true] := ⟨_, rfl, rfl⟩
  refine ⟨w, hw, channels_isolated Zstd.stored_lossless ⟨by decide, by decide, by decide⟩
    (by decide) twoChannels_packed (by decide) (by decide) hw ?_ (by decide) false⟩
  intro call hcall id c _
  rw [Session.history, withResults, hoks] at hcall
  have hmem := (List.of_mem_zip hcall).2
  simpa using hmem

end Otic
