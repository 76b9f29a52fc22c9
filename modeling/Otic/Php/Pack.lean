import Otic.Pack.Sessions
import Otic.Pack.Signals
import Otic.Stored

/-!
# The writer from PHP (`otic_php_pack.c`)

A method of `OticPack` or `OticPackChannel` takes its arguments from `zval`s, calls the
writer, and throws.  `zend_throw_exception` returns, so that a method goes on after it,
and what the writer has done stays done.  Whether `inject` throws is told from the state
of the channel, and not from the result of the call: it throws exactly if the inject that
was refused last is one that leaves `OTIC_STATE_ON_ERROR` behind (`inject_throws_iff`).
-/

namespace Otic.Php

open Pack

/-! ### Arguments -/

/-- `zend_string`; a terminator lies behind the bytes. -/
@[ext]
structure ZendString where
  val : List UInt8
  sized : val.length + 1 < 2 ^ 63

instance : DecidableEq ZendString := fun _ _ => decidable_of_iff _ ZendString.ext_iff.symm

/-- What a function on C strings sees at `Z_STRVAL_P`. -/
def ZendString.ptr (s : ZendString) : CStr where
  bytes := Bytes.untilZero s.val
  nulFree := Bytes.notMem_untilZero _
  sized := lt_of_le_of_lt (Nat.succ_le_succ (Bytes.length_untilZero_le _)) s.sized

/-- A `zval`, as far as the binding tells its types apart. -/
inductive Zval where
  | null
  | false
  | true
  | long (lval : Int64)
  | double (dval : UInt64)
  | string (str : ZendString)
  | other
deriving DecidableEq

/-- The inject that a value is passed to, and what is passed. -/
def Zval.value : Zval → Option Value
  | .long lval =>
      if 0 ≤ lval then some (.intPos lval.toUInt64) else some (.intNeg (-lval).toUInt64)
  | .double dval => some (.double dval)
  | .string str => some (.string str.ptr)
  | .null => some .null
  | .true => some (.bool Bool.true)
  | .false => some (.bool Bool.false)
  | .other => none

/-- The arguments of `OticPackChannel::inject`; `heap` is what `strcmp` may find behind the
last value of the sensor. -/
structure Inject where
  timestamp : Tick
  sensorName : ZendString
  sensorUnit : ZendString
  value : Zval
  heap : List UInt8

def Inject.call (i : Inject) : Option Call :=
  i.value.value.map fun value =>
    ⟨i.timestamp, i.sensorName.ptr, some i.sensorUnit.ptr, value, i.heap⟩

/-! ### Methods -/

/-- `OticException` and `LibOticException`. -/
inductive Thrown where
  | otic (message : String) (code : Int)
  | libOtic (error : OticError)
deriving DecidableEq

/-- The result of the call to the writer, and what the method threw. -/
structure Outcome where
  ok : Bool
  thrown : List Thrown

/-- `defineChannel` of a pack, and three methods of a channel object, which stands for the open
channel of its id. -/
inductive Method where
  | defineChannel (channelId channelType : Int64)
  | inject (id : UInt8) (i : Inject)
  | flush (id : UInt8)
  | close (id : UInt8)

/-- What `inject` throws when it has returned from the writer. -/
def onError (h : Handle) : List Thrown :=
  if h.channel.base.state = .onError then [.libOtic h.channel.base.error] else []

variable (zstd : Zstd)

/-- One method; the flusher takes everything.  `none` if there is no such channel object,
and for the least long, whose negation has no meaning. -/
def Method.play (pack : OticPack) : Method → Option (Outcome × OticPack)
  | .defineChannel channelId channelType => do
      let invalidId :=
        if channelId < 0 ∨ 255 < channelId then
          [Thrown.otic "Invalid ChannelID! Reason: Valid Range (int): 0 - 255" (-6)]
        else []
      let invalidType :=
        if channelType ≠ 0 ∧ channelType ≠ 1 then [Thrown.otic "Invalid Channel Type" (-6)]
        else []
      let (ok, pack) ←
        pack.step zstd ⟨.define channelType.toUInt64.toUInt8 channelId.toUInt64.toUInt8 0, []⟩
      let failed := if ok then [] else [.libOtic pack.parent.error]
      some (⟨ok, invalidId ++ invalidType ++ failed⟩, pack)
  | .inject id i =>
      if i.value = .long Int64.minValue then none
      else
        match i.call with
        | none => do
            let h ← pack.handle id
            some (⟨false, .otic "Unsupported Type" 0 :: onError h⟩, pack)
        | some call => do
            let (ok, pack) ← pack.step zstd ⟨.inject id call, []⟩
            let h ← pack.handle id
            some (⟨ok, onError h⟩, pack)
  | .flush id => do
      let (ok, pack) ← pack.step zstd ⟨.flush id, []⟩
      let h ← pack.handle id
      some (⟨ok, if ok then [] else [.libOtic h.channel.base.error]⟩, pack)
  | .close id => do
      let (ok, pack) ← pack.step zstd ⟨.close id, []⟩
      some (⟨ok, []⟩, pack)

/-- Any number of methods. -/
def play : OticPack → List Method → Option (List Outcome × OticPack)
  | pack, [] => some ([], pack)
  | pack, m :: methods => do
      let (outcome, pack) ← m.play zstd pack
      let (outcomes, pack) ← play pack methods
      some (outcome :: outcomes, pack)

/-- The call to the writer, if the method makes one. -/
def Method.op : Method → Option Op
  | .defineChannel channelId channelType =>
      some (.define channelType.toUInt64.toUInt8 channelId.toUInt64.toUInt8 0)
  | .inject id i => i.call.map (.inject id)
  | .flush id => some (.flush id)
  | .close id => some (.close id)

/-- The calls that the methods came to, with their results. -/
def history (methods : List Method) (outcomes : List Outcome) : List (Op × Bool) :=
  (methods.zip outcomes).filterMap fun m => m.1.op.map fun op => (op, m.2.ok)

/-- The calls as steps of the writer. -/
def steps (methods : List Method) : List Step :=
  methods.filterMap fun m => m.op.map fun op => ⟨op, []⟩

variable {zstd} {pack pack' : OticPack} {m : Method} {outcome : Outcome} {methods : List Method}
  {outcomes : List Outcome}

/-- **What a method does to the pack**: its call, or nothing. -/
theorem Method.play_step (h : m.play zstd pack = some (outcome, pack')) :
    (m.op = none ∧ outcome.ok = false ∧ pack' = pack) ∨
      ∃ op, m.op = some op ∧ pack.step zstd ⟨op, []⟩ = some (outcome.ok, pack') := by
  unfold Method.play at h
  cases m with
  | defineChannel channelId channelType =>
    obtain ⟨⟨ok, pack₁⟩, hstep, hout⟩ := Option.bind_eq_some_iff.mp h
    cases hout
    exact Or.inr ⟨_, rfl, hstep⟩
  | inject id i =>
    dsimp only at h
    split at h
    · cases h
    split at h
    · rename_i hcall
      obtain ⟨handle, -, hout⟩ := Option.bind_eq_some_iff.mp h
      cases hout
      exact Or.inl ⟨by rw [Method.op, hcall, Option.map_none], rfl, rfl⟩
    · rename_i call hcall
      obtain ⟨⟨ok, pack₁⟩, hstep, hrest⟩ := Option.bind_eq_some_iff.mp h
      obtain ⟨handle, -, hout⟩ := Option.bind_eq_some_iff.mp hrest
      cases hout
      exact Or.inr ⟨_, by rw [Method.op, hcall, Option.map_some], hstep⟩
  | flush id =>
    obtain ⟨⟨ok, pack₁⟩, hstep, hrest⟩ := Option.bind_eq_some_iff.mp h
    obtain ⟨handle, -, hout⟩ := Option.bind_eq_some_iff.mp hrest
    cases hout
    exact Or.inr ⟨_, rfl, hstep⟩
  | close id =>
    obtain ⟨⟨ok, pack₁⟩, hstep, hout⟩ := Option.bind_eq_some_iff.mp h
    cases hout
    exact Or.inr ⟨_, rfl, hstep⟩

theorem play_cons (h : play zstd pack (m :: methods) = some (outcomes, pack')) :
    ∃ outcome rest pack₁, outcomes = outcome :: rest ∧ m.play zstd pack = some (outcome, pack₁) ∧
      play zstd pack₁ methods = some (rest, pack') := by
  obtain ⟨⟨outcome, pack₁⟩, hplay, hlater⟩ := Option.bind_eq_some_iff.mp h
  obtain ⟨⟨rest, pack₂⟩, hrest, hout⟩ := Option.bind_eq_some_iff.mp hlater
  cases hout
  exact ⟨outcome, rest, pack₁, rfl, hplay, hrest⟩

end Otic.Php

/-! ### States of a channel -/

namespace Otic.Pack

/-- What `inject` looks at when it has returned from the writer. -/
def Channel.signal (ch : Channel) : OticState × OticError := (ch.base.state, ch.base.error)

variable {zstd : Zstd} {h : Handle}

/-- **A flush that succeeds** leaves the signal alone. -/
theorem signal_channelFlush (hlossless : zstd.Lossless) (hwilling : h.parent.Willing)
    (hpacked : h.Packed zstd (h.channelFlush zstd).2) :
    ∃ parent : Parent, parent.Willing ∧
      h.channelFlush zstd = (true, ⟨parent, h.channel.flushed⟩) := by
  obtain ⟨parent, hparent, hflush⟩ := channelFlush_willing hlossless hwilling
  have hcompresses : h.compresses zstd h.channel.pending = true :=
    (packed_channelFlush h).mp hpacked
  rw [if_pos hcompresses] at hflush
  exact ⟨parent, hparent, hflush⟩

theorem signal_flushIfFlushable (hlossless : zstd.Lossless) (hwilling : h.parent.Willing)
    (hpacked : h.Packed zstd (h.flushIfFlushable zstd)) :
    (h.flushIfFlushable zstd).parent.Willing ∧
      (h.flushIfFlushable zstd).channel.signal = h.channel.signal := by
  unfold Handle.flushIfFlushable at hpacked ⊢
  split
  · rename_i hfull
    rw [if_pos hfull] at hpacked
    obtain ⟨parent, hparent, hflush⟩ := signal_channelFlush hlossless hwilling hpacked
    rw [hflush]
    exact ⟨hparent, rfl⟩
  · exact ⟨hwilling, rfl⟩

theorem given_stamped (h : Handle) (tick : UInt64) :
    ∃ blocks, (h.stamped zstd tick).channel.cCtx = h.channel.cCtx ++ blocks := by
  unfold Handle.stamped
  split
  · exact ⟨[], (List.append_nil _).symm⟩
  · exact (@onwards_flushIfFlushable zstd ⟨h.parent, _⟩).1.given

theorem signal_stamped (hlossless : zstd.Lossless) (hwilling : h.parent.Willing) (tick : UInt64)
    (hpacked : h.Packed zstd (h.stamped zstd tick)) :
    (h.stamped zstd tick).parent.Willing ∧
      (h.stamped zstd tick).channel.signal = h.channel.signal := by
  unfold Handle.stamped at hpacked ⊢
  split
  · exact ⟨hwilling, rfl⟩
  · rename_i hset
    rw [if_neg hset] at hpacked
    exact @signal_flushIfFlushable zstd ⟨h.parent, _⟩ hlossless hwilling hpacked

theorem signal_makeRoom (hlossless : zstd.Lossless) (hwilling : h.parent.Willing) {textSize : Nat}
    {ok : Bool} {h₂ : Handle} (hmade : h.makeRoom zstd textSize = (ok, h₂))
    (hpacked : h.Packed zstd h₂) :
    ok = true ∧ h₂.parent.Willing ∧ h₂.channel.signal = h.channel.signal := by
  unfold Handle.makeRoom at hmade
  split at hmade
  · have hpacked' : h.Packed zstd (h.channelFlush zstd).2 := by rwa [hmade]
    obtain ⟨parent, hparent, hflush⟩ := signal_channelFlush hlossless hwilling hpacked'
    rw [hflush] at hmade
    cases hmade
    exact ⟨rfl, hparent, rfl⟩
  · cases hmade
    exact ⟨rfl, hwilling, rfl⟩

theorem given_makeRoom {textSize : Nat} {ok : Bool} {h₂ : Handle}
    (hmade : h.makeRoom zstd textSize = (ok, h₂)) :
    ∃ blocks, h₂.channel.cCtx = h.channel.cCtx ++ blocks := by
  unfold Handle.makeRoom at hmade
  split at hmade
  · have hgiven := @channelFlush_given zstd h
    rw [hmade] at hgiven
    exact ⟨_, hgiven⟩
  · cases hmade
    exact ⟨[], (List.append_nil _).symm⟩

/-- **An inject** that is accepted leaves the signal alone; one that is refused leaves the
state of its label `fail` behind, and the cause. -/
theorem signal_inject (hlossless : zstd.Lossless) (hwilling : h.parent.Willing) (c : Call)
    {ok : Bool} {h' : Handle} (hcall : c.inject zstd h = (ok, h')) (hpacked : h.Packed zstd h') :
    (ok = true → h'.channel.signal = h.channel.signal) ∧
      (ok = false → h'.channel.base.state = c.any.failState ∧
        (h'.channel.base.error = .invalidTimestamp ∨
          h'.channel.base.error = .bufferOverflow)) := by
  have hcourse := @AnyCall.course zstd c.any h
  rw [Call.inject_any, hcall] at hcourse
  have hsize : (h.stamped zstd c.any.tick).channel.base.cacheSize = h.channel.base.cacheSize :=
    congrArg Shape.cacheSize (Handle.kept_stamped h c.any.tick).1
  have hgiven := @given_stamped zstd h c.any.tick
  cases hcourse with
  | late hclock => exact ⟨fun hok => absurd hok Bool.false_ne_true, fun _ => ⟨rfl, Or.inl rfl⟩⟩
  | long hclock hstamp hlong =>
    exact ⟨fun hok => absurd hok Bool.false_ne_true, fun _ => ⟨rfl, Or.inr rfl⟩⟩
  | unfit hclock hstamp hshort hmade hrow =>
    exact ⟨fun hok => absurd hok Bool.false_ne_true, fun _ => ⟨rfl, Or.inr rfl⟩⟩
  | @crowded h₁ h₂ hclock hstamp hshort hmade =>
    -- the flush for the text succeeds
    subst hstamp
    have hfilled : h.Packed zstd h₂ := hpacked
    obtain ⟨hfirst, hsecond⟩ := hfilled.split hsize hgiven (given_makeRoom hmade)
    obtain ⟨hwilling₁, -⟩ := signal_stamped hlossless hwilling _ hfirst
    obtain ⟨htrue, -⟩ := signal_makeRoom hlossless hwilling₁ hmade hsecond
    cases htrue
  | @written h₁ h₂ enc bytes hclock hstamp hshort hmade hrow =>
    subst hstamp
    have hsize₂ : h₂.channel.base.cacheSize = h.channel.base.cacheSize :=
      (congrArg Shape.cacheSize (Handle.kept_makeRoom hmade).1).trans hsize
    obtain ⟨blocks₁, hblocks₁⟩ := hgiven
    obtain ⟨blocks₂, hblocks₂⟩ := given_makeRoom hmade
    obtain ⟨hfilled, hlast⟩ := @Handle.Packed.split zstd h
      ⟨h₂.parent, (h₂.channel.put bytes).install enc⟩ _ hsize₂
      ⟨blocks₁ ++ blocks₂, by rw [← List.append_assoc, ← hblocks₁]; exact hblocks₂⟩
      (@onwards_flushIfFlushable zstd ⟨h₂.parent, _⟩).1.given hpacked
    have hmid : h.Packed zstd h₂ := hfilled
    obtain ⟨hfirst, hsecond⟩ := hmid.split hsize ⟨blocks₁, hblocks₁⟩ ⟨blocks₂, hblocks₂⟩
    obtain ⟨hwilling₁, hsignal₁⟩ := signal_stamped hlossless hwilling _ hfirst
    obtain ⟨-, hwilling₂, hsignal₂⟩ := signal_makeRoom hlossless hwilling₁ hmade hsecond
    obtain ⟨-, hsignal₃⟩ := @signal_flushIfFlushable zstd
      ⟨h₂.parent, (h₂.channel.put bytes).install enc⟩ hlossless hwilling₂ hlast
    refine ⟨fun _ => ?_, fun hok => absurd hok.symm Bool.false_ne_true⟩
    exact hsignal₃.trans (hsignal₂.trans hsignal₁)

end Otic.Pack

/-! ### What `inject` throws -/

namespace Otic.Php

open Pack

/-- The value that was refused last, after one more call. -/
def refusal (id : UInt8) (last : Option Value) (call : Op × Bool) : Option Value :=
  match call.1 with
  | .define _ id' _ => if id' = id ∧ call.2 = true then none else last
  | .inject id' c => if id' = id ∧ call.2 = false then some c.value else last
  | .flush _ | .close _ => last

/-- The value that was refused last on the open channel of an id. -/
def lastRefused (id : UInt8) (calls : List (Op × Bool)) : Option Value :=
  calls.foldl (refusal id) none

/-- The injects that set `OTIC_STATE_ON_ERROR` when they refuse a value. -/
def signals : Value → Bool
  | .intPos _ | .double _ | .string _ => true
  | .bool _ | .intNeg _ | .null => false

/-- State and error of a channel, given the value it refused last. -/
structure Tells (last : Option Value) (ch : Channel) : Prop where
  state : ch.base.state = match last with
    | none => .opened
    | some value => if signals value then .onError else .closed
  error : last ≠ none →
    ch.base.error = .invalidTimestamp ∨ ch.base.error = .bufferOverflow

theorem lastRefused_concat (id : UInt8) (calls : List (Op × Bool)) (call : Op × Bool) :
    lastRefused id (calls ++ [call]) = refusal id (lastRefused id calls) call := by
  rw [lastRefused, List.foldl_append]
  rfl

theorem Tells.of_signal {last : Option Value} {ch ch' : Channel} (h : Tells last ch)
    (hsame : ch'.signal = ch.signal) : Tells last ch' := by
  obtain ⟨hstate, herror⟩ := Prod.mk.inj hsame
  exact ⟨hstate.trans h.state, fun hlast => by rw [herror]; exact h.error hlast⟩

theorem failState_any (c : Call) :
    c.any.failState = if signals c.value then .onError else .closed := by
  unfold AnyCall.failState Call.any
  cases c.value <;> rfl

variable {zstd : Zstd} {features : UInt8} {pack pack' : OticPack} {calls : List (Op × Bool)}
  {events : List Event} {op : Op} {ok : Bool}

/-- **One call** of the writer. -/
theorem tells_step (hlossless : zstd.Lossless) (hpacked : Step.Packed zstd pack ⟨op, []⟩)
    (htells : ∀ ch ∈ pack.channels, Tells (lastRefused ch.channelId calls) ch)
    (hstep : pack.step zstd ⟨op, []⟩ = some (ok, pack')) :
    ∀ ch ∈ pack'.channels, Tells (lastRefused ch.channelId (calls ++ [(op, ok)])) ch := by
  have hwilling : Willing [] := fun _ h => nomatch h
  intro ch hch
  rw [lastRefused_concat]
  cases op with
  | define channelType id bufferSize =>
    simp only [OticPack.step, Option.some.injEq] at hstep
    have hchannels := channels_defineChannel (pack.hear []) channelType id bufferSize
    rw [hstep] at hchannels
    rcases hchannels with ⟨rfl, hsame⟩ | ⟨rfl, hnew, hsame⟩ <;> rw [hsame] at hch
    · simpa [refusal] using htells ch hch
    · rcases List.mem_cons.mp hch with rfl | hch
      · have hself : refusal id (lastRefused id calls) (.define channelType id bufferSize, true) =
            none := if_pos ⟨rfl, rfl⟩
        change Tells (refusal id (lastRefused id calls) _) _
        rw [hself]
        exact ⟨rfl, fun hlast => absurd rfl hlast⟩
      · have hne : id ≠ ch.channelId := fun heq => hnew (heq ▸ List.mem_map_of_mem hch)
        simpa [refusal, hne] using htells ch hch
  | inject id c =>
    simp only [OticPack.step, Option.map_eq_some_iff] at hstep
    obtain ⟨h, hh, hcall⟩ := hstep
    obtain ⟨hparent, hmem, hid⟩ := handle_eq_some hh
    have hwilling' : h.parent.Willing := by
      intro answer hanswer
      rw [hparent] at hanswer
      exact hwilling answer hanswer
    have hblocks := hpacked h hh
    have hshape : (c.inject zstd h).2.channel.channelId = h.channel.channelId := by
      obtain ⟨out, -, -, -, hon⟩ := @onwards_inject zstd c h
      exact congrArg Shape.channelId hon.shape
    rcases hout : c.inject zstd h with ⟨ok', h'⟩
    rw [hout] at hcall hshape hblocks
    obtain ⟨hrejected, hsignal⟩ := signal_inject hlossless hwilling' c hout hblocks
    cases hcall
    rcases mem_update hch with rfl | ⟨hch, hne⟩
    · have htold := htells h.channel hmem
      dsimp only at hshape ⊢
      rw [hshape]
      cases ok' with
      | true => simpa [refusal] using htold.of_signal (hrejected rfl)
      | false =>
        obtain ⟨hstate, herror⟩ := hsignal rfl
        have hlast : refusal h.channel.channelId (lastRefused h.channel.channelId calls)
            (.inject id c, false) = some c.value := if_pos ⟨hid.symm, rfl⟩
        rw [hlast]
        exact ⟨by rw [hstate, failState_any], fun _ => herror⟩
    · dsimp only at hshape
      rw [hshape, hid] at hne
      simpa [refusal, Ne.symm hne] using htells ch hch
  | flush id =>
    simp only [OticPack.step, Option.map_eq_some_iff] at hstep
    obtain ⟨h, hh, hcall⟩ := hstep
    obtain ⟨hparent, hmem, hid⟩ := handle_eq_some hh
    have hwilling' : h.parent.Willing := by
      intro answer hanswer
      rw [hparent] at hanswer
      exact hwilling answer hanswer
    obtain ⟨parent, -, hflush⟩ := signal_channelFlush hlossless hwilling' (hpacked h hh)
    rw [hflush] at hcall
    cases hcall
    rcases mem_update hch with rfl | ⟨hch, -⟩
    · exact (htells h.channel hmem).of_signal rfl
    · exact htells ch hch
  | close id =>
    simp only [OticPack.step, Option.map_eq_some_iff] at hstep
    obtain ⟨h, hh, hcall⟩ := hstep
    cases hcall
    exact htells ch (List.mem_of_mem_eraseP hch)

variable {m : Method} {outcome : Outcome} {methods : List Method} {outcomes : List Outcome}

theorem history_cons (m : Method) (methods : List Method) (outcome : Outcome)
    (outcomes : List Outcome) :
    history (m :: methods) (outcome :: outcomes) =
      (m.op.map fun op => (op, outcome.ok)).toList ++ history methods outcomes := by
  rw [history, List.zip_cons_cons, List.filterMap_cons]
  cases m.op <;> rfl

/-- **Any number of methods.** -/
theorem tells_play (hlossless : zstd.Lossless) (hpacked : PackedRun zstd pack (steps methods))
    (htells : ∀ ch ∈ pack.channels, Tells (lastRefused ch.channelId calls) ch)
    (hplay : play zstd pack methods = some (outcomes, pack')) :
    ∀ ch ∈ pack'.channels,
      Tells (lastRefused ch.channelId (calls ++ history methods outcomes)) ch := by
  induction methods generalizing pack calls outcomes with
  | nil =>
    cases hplay
    simpa [history] using htells
  | cons m methods ih =>
    obtain ⟨outcome, rest, pack₁, rfl, hfirst, hrest⟩ := play_cons hplay
    rw [history_cons]
    rcases Method.play_step hfirst with ⟨hop, -, rfl⟩ | ⟨op, hop, hstep⟩
    · have hsame : steps (m :: methods) = steps methods := by simp [steps, hop]
      rw [hsame] at hpacked
      rw [hop]
      exact ih hpacked htells hrest
    · have hcons : steps (m :: methods) = ⟨op, []⟩ :: steps methods := by simp [steps, hop]
      rw [hcons] at hpacked
      rw [hop, ← List.append_assoc]
      exact ih (hpacked.2 (_, _) hstep) (tells_step hlossless hpacked.1 htells hstep) hrest

theorem play_concat {m : Method} {outcome : Outcome} {pack₁ : OticPack} :
    play zstd pack methods = some (outcomes, pack₁) → m.play zstd pack₁ = some (outcome, pack') →
      play zstd pack (methods ++ [m]) = some (outcomes ++ [outcome], pack') := by
  intro hplay hlast
  induction methods generalizing pack outcomes with
  | nil =>
    cases hplay
    simp only [List.nil_append, play, hlast, Option.bind_eq_bind, Option.bind_some]
  | cons first methods ih =>
    obtain ⟨outcome₁, rest, pack₂, rfl, hfirst, hrest⟩ := play_cons hplay
    simp only [List.cons_append, play, hfirst, ih hrest, Option.bind_eq_bind, Option.bind_some]

/-- Arrays, objects and the like are not injected, and nothing else is left out. -/
theorem call_eq_none (i : Inject) : i.call = none ↔ i.value = .other := by
  rw [Inject.call, Option.map_eq_none_iff]
  cases i.value with
  | long lval => by_cases hsign : 0 ≤ lval <;> simp [Zval.value, hsign]
  | null | false | true | double dval | string str | other => simp [Zval.value]

theorem mem_onError {h : Handle} {error : OticError} :
    Thrown.libOtic error ∈ onError h ↔
      h.channel.base.state = .onError ∧ h.channel.base.error = error := by
  unfold onError
  split <;> rename_i hstate <;> simp [hstate, eq_comm]

/-- What `inject` throws, and the channel it looks at. -/
theorem Method.play_inject {id : UInt8} {i : Inject}
    (h : (Method.inject id i).play zstd pack = some (outcome, pack')) :
    ∃ handle, pack'.handle id = some handle ∧
      outcome.thrown =
        (if i.value = .other then [.otic "Unsupported Type" 0] else []) ++ onError handle := by
  unfold Method.play at h
  dsimp only at h
  split at h
  · cases h
  split at h
  · rename_i hcall
    obtain ⟨handle, hhandle, hout⟩ := Option.bind_eq_some_iff.mp h
    cases hout
    exact ⟨handle, hhandle, by rw [if_pos ((call_eq_none i).mp hcall)]; rfl⟩
  · rename_i call hcall
    obtain ⟨⟨ok, pack₁⟩, hstep, hrest⟩ := Option.bind_eq_some_iff.mp h
    obtain ⟨handle, hhandle, hout⟩ := Option.bind_eq_some_iff.mp hrest
    cases hout
    refine ⟨handle, hhandle, ?_⟩
    rw [if_neg fun heq => by rw [(call_eq_none i).mpr heq] at hcall; cases hcall]
    rfl

/-- **`inject` throws** for a value that is not supported, and if the value that was refused
last is a string, a double or an integer that is not negative; as long as every block is
compressed.  It may throw though its value was accepted, and not throw though it was
refused. -/
theorem inject_throws_iff (hlossless : zstd.Lossless) {id : UInt8} {i : Inject}
    (hpacked : PackedRun zstd (OticPack.init 0 []) (steps (methods ++ [.inject id i])))
    (hplay : play zstd (OticPack.init 0 []) methods = some (outcomes, pack))
    (hinject : (Method.inject id i).play zstd pack = some (outcome, pack')) :
    (.otic "Unsupported Type" 0 ∈ outcome.thrown ↔ i.value = .other) ∧
      ((∃ error, .libOtic error ∈ outcome.thrown) ↔
        ∃ value, signals value = true ∧ lastRefused id
          (history (methods ++ [.inject id i]) (outcomes ++ [outcome])) = some value) ∧
      ∀ error, .libOtic error ∈ outcome.thrown →
        error = .invalidTimestamp ∨ error = .bufferOverflow := by
  have htells := @tells_play zstd _ _ [] _ _ hlossless hpacked (fun ch hch => nomatch hch)
    (play_concat hplay hinject)
  obtain ⟨handle, hhandle, hthrown⟩ := Method.play_inject hinject
  obtain ⟨-, hmem, hid⟩ := handle_eq_some hhandle
  have htold := htells handle.channel hmem
  rw [hid, List.nil_append] at htold
  have hlibOtic : ∀ error, Thrown.libOtic error ∈ outcome.thrown ↔
      handle.channel.base.state = .onError ∧ handle.channel.base.error = error := by
    intro error
    rw [hthrown, List.mem_append, mem_onError]
    split <;> simp
  have hunsupported : Thrown.otic "Unsupported Type" 0 ∉ onError handle := by
    unfold onError
    split <;> simp
  have hstate := htold.state
  have hrefused : handle.channel.base.state = .onError ↔ ∃ value, signals value = true ∧
      lastRefused id (history (methods ++ [.inject id i]) (outcomes ++ [outcome])) =
        some value := by
    rw [hstate]
    cases lastRefused id (history (methods ++ [.inject id i]) (outcomes ++ [outcome])) with
    | none => simp
    | some value => cases hsignals : signals value <;> simp [hsignals]
  refine ⟨?_, ?_, fun error hthrows => ?_⟩
  · rw [hthrown, List.mem_append, or_iff_left hunsupported]
    split <;> simp [*]
  · rw [← hrefused]
    simp only [hlibOtic, exists_and_left, exists_eq', and_true]
  · obtain ⟨honError, rfl⟩ := (hlibOtic error).mp hthrows
    obtain ⟨value, -, hlast⟩ := hrefused.mp honError
    exact htold.error (by rw [hlast]; exact Option.some_ne_none value)

/-- The string `"a"`. -/
def nameA : ZendString := ⟨[0x61], sized_a⟩

/-- An argument list for the sensor `"a"`. -/
def reading (tick : Tick) (value : Zval) : Inject := ⟨tick, nameA, nameA, value, []⟩

theorem six_lt_TS_NULL : (6 : UInt64) < TS_NULL := by decide

/-- The second value is refused, for its timestamp; the third is accepted, and throws. -/
def lateDouble : List Method :=
  [.defineChannel 1 0, .inject 1 (reading ⟨7, seven_lt_TS_NULL⟩ .null),
    .inject 1 (reading ⟨6, six_lt_TS_NULL⟩ (.double 0))]

theorem packedRun_lateDouble :
    PackedRun Zstd.stored (OticPack.init 0 [])
      (steps (lateDouble ++ [.inject 1 (reading ⟨7, seven_lt_TS_NULL⟩ (.long (-5)))])) := by
  decide +kernel

theorem inject_throws_iff_lateDouble :
    ∃ outcomes pack outcome pack',
      play Zstd.stored (OticPack.init 0 []) lateDouble = some (outcomes, pack) ∧
      (Method.inject 1 (reading ⟨7, seven_lt_TS_NULL⟩ (.long (-5)))).play Zstd.stored pack =
        some (outcome, pack') ∧ outcome.ok = true ∧ ∃ error, .libOtic error ∈ outcome.thrown := by
  obtain ⟨outcomes, pack, outcome, pack', hplay, hinject, hok, hlast⟩ :
      ∃ outcomes pack outcome pack',
        play Zstd.stored (OticPack.init 0 []) lateDouble = some (outcomes, pack) ∧
        (Method.inject 1 (reading ⟨7, seven_lt_TS_NULL⟩ (.long (-5)))).play Zstd.stored pack =
          some (outcome, pack') ∧ outcome.ok = true ∧
        lastRefused 1 (history (lateDouble ++
          [.inject 1 (reading ⟨7, seven_lt_TS_NULL⟩ (.long (-5)))]) (outcomes ++ [outcome])) =
            some (.double 0) := ⟨_, _, _, _, rfl, rfl, rfl, rfl⟩
  obtain ⟨-, hthrows, -⟩ :=
    inject_throws_iff Zstd.stored_lossless packedRun_lateDouble hplay hinject
  exact ⟨outcomes, pack, outcome, pack', hplay, hinject, hok, hthrows.mpr ⟨_, rfl, hlast⟩⟩

end Otic.Php
