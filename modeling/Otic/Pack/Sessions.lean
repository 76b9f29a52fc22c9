import Otic.Pack.History
import Otic.Pack.Room

/-!
# Whole sessions

`Keeps.step` puts the cases of the invariant together, `Keeps.run` is the induction
over the calls, and `Session.written` what a session comes to: the flusher has taken
the header and a stream of events, and the records of every id are those of the
encoders of its incarnations.
-/

namespace Otic.Pack

variable {zstd : Zstd} {features : UInt8} {pack : OticPack} {calls : List (Op × Bool)}
  {events : List Event}

/-! ### Calls the invariant is kept by -/

/-- A definition asks for a bucket that has room for the 512 bytes above its threshold. -/
def Op.Sized : Op → Prop
  | .define _ _ bufferSize => OTIC_PACK_CACHE_TOP_LIMIT ≤ OticPack.effectiveSize bufferSize
  | _ => True

instance (op : Op) : Decidable op.Sized := by
  unfold Op.Sized
  split <;> infer_instance

/-- The compressor compresses every block it is given by a call. -/
def Step.Packed (zstd : Zstd) (pack : OticPack) (s : Step) : Prop :=
  match s.op with
  | .define _ _ _ => True
  | .inject id c => ∀ h ∈ (pack.hear s.answers).handle id, h.Packed zstd (c.inject zstd h).2
  | .flush id => ∀ h ∈ (pack.hear s.answers).handle id, h.Packed zstd (h.channelFlush zstd).2
  | .close id => ∀ h ∈ (pack.hear s.answers).handle id, h.channel.Closable zstd

instance (zstd : Zstd) (pack : OticPack) (s : Step) : Decidable (s.Packed zstd pack) := by
  unfold Step.Packed
  split <;> infer_instance

/-- The compressor compresses every block it is given during a run. -/
def PackedRun (zstd : Zstd) : OticPack → List Step → Prop
  | _, [] => True
  | pack, s :: steps => s.Packed zstd pack ∧
      ∀ out ∈ pack.step zstd s, PackedRun zstd out.2 steps

instance decidablePackedRun (zstd : Zstd) :
    ∀ (pack : OticPack) (steps : List Step), Decidable (PackedRun zstd pack steps)
  | _, [] => inferInstanceAs (Decidable True)
  | pack, s :: steps =>
      have := fun out : Bool × OticPack => decidablePackedRun zstd out.2 steps
      inferInstanceAs
        (Decidable (s.Packed zstd pack ∧ ∀ out ∈ pack.step zstd s, PackedRun zstd out.2 steps))

/-- How the flusher and the compressor may answer to a call.  The frames of definitions and
closes are taken, the payload of a header that was taken is never refused, and every flush
of an inject succeeds unless the inject returns 1. -/
def Step.Careful (zstd : Zstd) (pack : OticPack) (s : Step) (ok : Bool) : Prop :=
  match s.op with
  | .define _ _ _ => Willing s.answers
  | .inject _ _ => NeverTorn s.answers ∧ (Willing s.answers ∧ s.Packed zstd pack ∨ ok = true)
  | .flush _ => NeverTorn s.answers
  | .close _ => Willing s.answers ∧ s.Packed zstd pack

/-- All calls of a run are careful. -/
def CarefulRun (zstd : Zstd) : OticPack → List Step → Prop
  | _, [] => True
  | pack, s :: steps => ∀ ok pack', pack.step zstd s = some (ok, pack') →
      s.Careful zstd pack ok ∧ CarefulRun zstd pack' steps

/-- With a flusher that takes everything, and blocks that are compressed, a call is
careful. -/
theorem Step.careful_of_packed {s : Step} (hpacked : s.Packed zstd pack)
    (hwilling : Willing s.answers) (ok : Bool) : s.Careful zstd pack ok := by
  obtain ⟨op, answers⟩ := s
  cases op with
  | define channelType id bufferSize => exact hwilling
  | inject id c => exact ⟨hwilling.neverTorn, Or.inl ⟨hwilling, hpacked⟩⟩
  | flush id => exact hwilling.neverTorn
  | close id => exact ⟨hwilling, hpacked⟩

theorem careful_of_packed {steps : List Step} : ∀ {pack : OticPack},
    PackedRun zstd pack steps → (∀ s ∈ steps, Willing s.answers) →
      CarefulRun zstd pack steps := by
  induction steps with
  | nil => exact fun _ _ => trivial
  | cons s steps ih =>
    intro pack hpacked hwilling ok pack' hstep
    exact ⟨Step.careful_of_packed hpacked.1 (hwilling s List.mem_cons_self) ok,
      ih (hpacked.2 (ok, pack') hstep) fun t ht => hwilling t (List.mem_cons_of_mem _ ht)⟩

/-- **A step of the writer.** -/
theorem Keeps.step (hlossless : zstd.Lossless) (hk : Keeps zstd features pack calls events)
    {s : Step} {ok : Bool} {pack' : OticPack} (hstep : pack.step zstd s = some (ok, pack'))
    (hcareful : s.Careful zstd pack ok) (hinside : pack'.Inside) :
    ∃ events', Keeps zstd features pack' (calls ++ [(s.op, ok)]) (events ++ events') ∧
      (Willing s.answers → s.Packed zstd pack →
        (ok = true → pack'.parent.state = pack.parent.state) ∧
          ∀ id, s.op = .flush id → ok = true) := by
  have hk' := hk.hear s.answers
  obtain ⟨op, answers⟩ := s
  cases op with
  | define channelType id bufferSize =>
    simp only [OticPack.step, Option.some.injEq] at hstep
    obtain ⟨events', hkeeps⟩ := hk.define hcareful channelType id bufferSize
    rw [hstep] at hkeeps
    refine ⟨events', hkeeps, fun _ _ => ⟨fun hok => ?_, fun _ hflush => by cases hflush⟩⟩
    have hstate := (@defineChannel_ok (pack.hear answers) channelType id bufferSize).2
    rw [hstep] at hstate
    exact hstate hok
  | inject id c =>
    obtain ⟨hanswers, hmode⟩ := hcareful
    simp only [OticPack.step, Option.map_eq_some_iff] at hstep
    obtain ⟨h, hh, hcall⟩ := hstep
    obtain ⟨hparent, hmem, hid⟩ := handle_eq_some hh
    have hanswered : h.parent.answers = answers := congrArg Parent.answers hparent
    obtain ⟨rfl, rfl⟩ := Prod.mk.inj hcall
    obtain ⟨out, -, -, -, hon⟩ := @onwards_inject zstd c h
    have hover := inside_update hmem (congrArg Shape.channelId hon.shape) hinside
    obtain ⟨events', hkeeps, hstate⟩ := hk'.inject hlossless hh (by rw [hanswered]; exact hanswers)
      c rfl (by rw [hanswered]; exact hmode.imp_left fun hboth => ⟨hboth.1, hboth.2 h hh⟩) hover
    refine ⟨events', hkeeps, fun hwilling hpacked =>
      ⟨fun _ => ?_, fun _ hflush => by cases hflush⟩⟩
    rw [← hanswered] at hwilling
    exact (hstate hwilling (hpacked h hh)).trans (by rw [hparent]; rfl)
  | flush id =>
    simp only [OticPack.step, Option.map_eq_some_iff] at hstep
    obtain ⟨h, hh, hcall⟩ := hstep
    obtain ⟨hparent, hmem, hid⟩ := handle_eq_some hh
    have hanswered : h.parent.answers = answers := congrArg Parent.answers hparent
    obtain ⟨rfl, rfl⟩ := Prod.mk.inj hcall
    have hover := inside_update hmem
      (congrArg Shape.channelId (@onwards_channelFlush zstd h).1.shape) hinside
    obtain ⟨events', hkeeps, hstate⟩ := hk'.flush hlossless hh
      (by rw [hanswered]; exact hcareful) rfl hover
    refine ⟨events', hkeeps, fun hwilling hpacked => ?_⟩
    rw [← hanswered] at hwilling
    obtain ⟨hok, hsame⟩ := hstate hwilling (hpacked h hh)
    exact ⟨fun _ => hsame.trans (by rw [hparent]; rfl), fun _ _ => hok⟩
  | close id =>
    simp only [OticPack.step, Option.map_eq_some_iff] at hstep
    obtain ⟨h, hh, hcall⟩ := hstep
    obtain ⟨hparent, hmem, hid⟩ := handle_eq_some hh
    obtain ⟨rfl, rfl⟩ := Prod.mk.inj hcall
    obtain ⟨-, hover⟩ := inside_of_channelClose hk'.distinct hmem hinside
    obtain ⟨events', hkeeps, -, hstate⟩ :=
      hk'.close hlossless hmem hcareful.1 (hcareful.2 h hh) hover
    rw [hid] at hkeeps
    exact ⟨events', hkeeps, fun _ _ => ⟨fun _ => hstate, fun _ hflush => by cases hflush⟩⟩

/-- The calls of a run with their results. -/
def withResults (steps : List Step) (oks : List Bool) : List (Op × Bool) :=
  (steps.map Step.op).zip oks

/-- **A run of the writer**, by induction over its steps. -/
theorem Keeps.run (hlossless : zstd.Lossless) (hk : Keeps zstd features pack calls events)
    {steps : List Step} (hcareful : CarefulRun zstd pack steps) {oks : List Bool}
    {pack' : OticPack} (hrun : pack.run zstd steps = some (oks, pack'))
    (hinside : pack'.Inside) :
    ∃ events',
      Keeps zstd features pack' (calls ++ withResults steps oks) (events ++ events') := by
  induction steps generalizing pack calls events oks with
  | nil =>
    simp only [OticPack.run, Option.some.injEq, Prod.mk.injEq] at hrun
    obtain ⟨rfl, rfl⟩ := hrun
    exact ⟨[], by simpa [withResults] using hk⟩
  | cons s steps ih =>
    simp only [OticPack.run, Option.bind_eq_bind, Option.bind_eq_some_iff, Option.some.injEq,
      Prod.mk.injEq, Prod.exists] at hrun
    obtain ⟨ok, pack₁, hstep, oks', pack₂, hrest, rfl, rfl⟩ := hrun
    obtain ⟨hs, hlater⟩ := hcareful ok pack₁ hstep
    have hinside₁ := inside_of_run (distinct_step hk.distinct hstep) hrest hinside
    obtain ⟨events₁, hk₁, -⟩ := hk.step hlossless hstep hs hinside₁
    obtain ⟨events₂, hk₂⟩ := ih hk₁ hlater hrest
    refine ⟨events₁ ++ events₂, ?_⟩
    rw [← List.append_assoc]
    simpa [withResults] using hk₂

/-! ### Closing the pack -/

/-- An incarnation whose channel has been closed. -/
def Incarnation.finish (i : Incarnation) : Incarnation := { i with closed := true }

theorem finish_track_close (id id' : UInt8) (ok : Bool) (is : List Incarnation) :
    (track id is (.close id', ok)).map Incarnation.finish = is.map Incarnation.finish := by
  simp only [track]
  split
  · cases is <;> rfl
  · rfl

/-- Closing channels is all that closing does to the incarnations. -/
theorem finish_incarnations (id : UInt8) (calls : List (Op × Bool)) (ids : List UInt8) :
    (incarnations id (calls ++ ids.map fun id' => (.close id', true))).map Incarnation.finish =
      (incarnations id calls).map Incarnation.finish := by
  induction ids using List.reverseRecOn with
  | nil => simp
  | append_singleton ids id' ih =>
    rw [List.map_append, ← List.append_assoc, List.map_singleton, incarnations_concat,
      finish_track_close, ih]

theorem Keeps.closeChannels (hlossless : zstd.Lossless)
    (hk : Keeps zstd features pack calls events) (hwilling : Willing pack.parent.answers)
    {channels : List Channel} (hchannels : pack.channels = channels)
    (hclosable : ∀ ch ∈ channels, ch.Closable zstd)
    (hinside : (OticPack.closeChannels zstd channels pack).overran = false) :
    ∃ (ids : List UInt8) (events' : List Event),
      Keeps zstd features (OticPack.closeChannels zstd channels pack)
          (calls ++ ids.map fun id => (.close id, true)) (events ++ events') ∧
        (OticPack.closeChannels zstd channels pack).channels = [] := by
  induction channels generalizing pack calls events with
  | nil => exact ⟨[], [], by simpa [OticPack.closeChannels] using hk, hchannels⟩
  | cons current previous ih =>
    have hclosed : (pack.channelClose zstd current).overran = false :=
      (@inside_of_closeChannels zstd previous _ hinside).1
    obtain ⟨-, hover⟩ := Bool.or_eq_false_iff.mp hclosed
    obtain ⟨events₁, hk₁, hwilling₁, -⟩ :=
      hk.close hlossless (show current ∈ pack.channels by simp [hchannels]) hwilling
        (hclosable current List.mem_cons_self) hover
    have hprevious : (pack.channelClose zstd current).channels = previous := by
      simp [OticPack.channelClose, hchannels]
    obtain ⟨ids, events₂, hk₂, hnone⟩ := ih hk₁ hwilling₁ hprevious
      (fun ch hch => hclosable ch (List.mem_cons_of_mem _ hch)) hinside
    refine ⟨current.channelId :: ids, events₁ ++ events₂, ?_, hnone⟩
    rw [← List.append_assoc]
    simpa [OticPack.closeChannels] using hk₂

/-- The calls of a session with their results. -/
def Session.history (s : Session) (w : Written) : List (Op × Bool) := withResults s.steps w.oks

/-- A session goes through exactly if its calls can be made. -/
theorem Session.write_iff {s : Session} {oks : List Bool} :
    (∃ w, s.write zstd = some w ∧ w.oks = oks) ↔
      ∃ pack, (OticPack.init s.features s.opening).run zstd s.steps = some (oks, pack) := by
  simp only [Session.write, Option.bind_eq_bind, Option.bind_eq_some_iff, Prod.exists,
    Option.some.injEq]
  constructor
  · rintro ⟨w, ⟨oks', pack, hrun, rfl⟩, rfl⟩
    exact ⟨pack, hrun⟩
  · rintro ⟨pack, hrun⟩
    exact ⟨_, ⟨oks, pack, hrun, rfl⟩, rfl⟩

/-- The compressor compresses the last blocks of the channels that `otic_pack_close`
closes. -/
def Session.Closable (zstd : Zstd) (s : Session) : Prop :=
  ∀ out ∈ (OticPack.init s.features s.opening).run zstd s.steps,
    ∀ ch ∈ out.2.channels, ch.Closable zstd

instance (zstd : Zstd) (s : Session) : Decidable (s.Closable zstd) := by
  unfold Session.Closable
  infer_instance

/-- The compressor compresses every block it is given in a session. -/
structure Session.Packed (zstd : Zstd) (s : Session) : Prop where
  steps : PackedRun zstd (OticPack.init s.features s.opening) s.steps
  closing : s.Closable zstd

/-- What a session comes to. -/
structure Leaves (zstd : Zstd) (s : Session) (w : Written) (events : List Event) : Prop where
  closed : w.closed = true
  stream : Stream zstd events
  accepted : w.accepted = fileHeader s.features ++ bytesOf events
  results : ∀ id, ∀ i ∈ incarnations id (s.history w), i.calls.map Prod.snd = i.outcomes.oks
  content : ∀ id, recordsOf id events =
    writtenBy ((incarnations id (s.history w)).map Incarnation.finish)

/-- **Whole sessions**, as long as nothing is written past the end of a bucket. -/
theorem Session.leaves (hlossless : zstd.Lossless) {s : Session} (hopening : Willing s.opening)
    (hclosing : Willing s.closing)
    (hcareful : CarefulRun zstd (OticPack.init s.features s.opening) s.steps)
    (hclosable : s.Closable zstd) {w : Written} (hw : s.write zstd = some w)
    (hinside : w.overran = false) : ∃ events, Leaves zstd s w events := by
  simp only [Session.write, Option.bind_eq_bind, Option.bind_eq_some_iff, Prod.exists,
    Option.some.injEq] at hw
  obtain ⟨oks, pack, hrun, rfl⟩ := hw
  obtain ⟨hclosed, hopened⟩ := inside_of_closeChannels hinside
  obtain ⟨events₁, hk₁⟩ := (keeps_init zstd s.features hopening).run hlossless hcareful hrun
    ⟨hclosed, hopened⟩
  obtain ⟨ids, events₂, hk₂, hnone⟩ := (hk₁.hear s.closing).closeChannels hlossless hclosing rfl
    (hclosable (oks, pack) hrun) hinside
  refine ⟨_, rfl, hk₂.stream, hk₂.accepted, hk₁.results, fun id => ?_⟩
  obtain ⟨hclosed, hcontent⟩ := hk₂.shut id (by simp [hnone])
  rw [hcontent]
  congr 1
  -- all incarnations are closed by now, and nothing else has changed
  rw [← finish_incarnations id _ ids]
  refine (List.map_id _).symm.trans (List.map_congr_left fun i hi => ?_)
  obtain ⟨size, calls, closed⟩ := i
  have : closed = true := hclosed _ hi
  subst this
  rfl

/-- The flusher takes everything, from `otic_pack_init` to `otic_pack_close`. -/
structure Session.Undisturbed (s : Session) : Prop where
  opening : Willing s.opening
  steps : ∀ st ∈ s.steps, Willing st.answers
  closing : Willing s.closing

theorem Session.Undisturbed.leaves {s : Session} (hundisturbed : s.Undisturbed)
    (hlossless : zstd.Lossless) (hpacked : s.Packed zstd) {w : Written}
    (hw : s.write zstd = some w) (hinside : w.overran = false) :
    ∃ events, Leaves zstd s w events :=
  Session.leaves hlossless hundisturbed.opening hundisturbed.closing
    (careful_of_packed hpacked.steps hundisturbed.steps) hpacked.closing hw hinside

/-! ### Buckets of 512 bytes and more -/

/-- Every open channel has its 512 bytes of room, and none has been overrun. -/
structure OticPack.Spacious (pack : OticPack) : Prop where
  closed : pack.overran = false
  opened : ∀ ch ∈ pack.channels, ch.Roomy 0

theorem OticPack.Spacious.inside {pack : OticPack} (h : pack.Spacious) : pack.Inside :=
  ⟨h.closed, fun ch hch => (h.opened ch hch).inside⟩

theorem Keeps.spacious_step (hlossless : zstd.Lossless)
    (hk : Keeps zstd features pack calls events) (hspacious : pack.Spacious) {s : Step}
    {ok : Bool} {pack' : OticPack} (hstep : pack.step zstd s = some (ok, pack'))
    (hsized : s.op.Sized) (hwilling : Willing s.answers) (hpacked : s.Packed zstd pack) :
    pack'.Spacious := by
  have hupdate : ∀ h' : Handle, h'.channel.Roomy 0 →
      ((pack.hear s.answers).update h').Spacious := by
    intro h' hroom
    refine ⟨hspacious.closed, fun ch hch => ?_⟩
    rcases mem_update hch with rfl | ⟨hch, -⟩
    · exact hroom
    · exact hspacious.opened ch hch
  have hk' := hk.hear s.answers
  obtain ⟨op, answers⟩ := s
  cases op with
  | define channelType id bufferSize =>
    simp only [OticPack.step, Option.some.injEq] at hstep
    unfold OticPack.defineChannel at hstep
    split at hstep
    · cases hstep
      exact ⟨hspacious.closed, hspacious.opened⟩
    split at hstep
    · cases hstep
      exact ⟨hspacious.closed, hspacious.opened⟩
    split at hstep
    · cases hstep
      exact ⟨hspacious.closed, hspacious.opened⟩
    · cases hstep
      refine ⟨hspacious.closed, fun ch hch => ?_⟩
      rcases List.mem_cons.mp hch with rfl | hch
      · exact Channel.roomy_init id channelType hsized
      · exact hspacious.opened ch hch
  | inject id c =>
    simp only [OticPack.step, Option.map_eq_some_iff] at hstep
    obtain ⟨h, hh, hcall⟩ := hstep
    cases hcall
    obtain ⟨hparent, hmem, -⟩ := handle_eq_some hh
    have hanswered : Willing h.parent.answers := by rw [hparent]; exact hwilling
    obtain ⟨i, past, held, hopen⟩ := hk'.opened h.channel hmem
    have hfirst := hpacked h hh
    obtain ⟨ok, h', hcall, -, -, sent, held', hsends⟩ :=
      inject_spec_willing hlossless hopen.pending hopen.sound hanswered c hfirst
    apply hupdate
    apply roomy_inject c (hspacious.opened _ hmem)
    rw [hcall] at hfirst ⊢
    exact hsends.steady hanswered hfirst
  | flush id =>
    simp only [OticPack.step, Option.map_eq_some_iff] at hstep
    obtain ⟨h, hh, hcall⟩ := hstep
    cases hcall
    obtain ⟨hparent, hmem, -⟩ := handle_eq_some hh
    have hanswered : Willing h.parent.answers := by rw [hparent]; exact hwilling
    obtain ⟨i, past, held, hopen⟩ := hk'.opened h.channel hmem
    have hfirst := hpacked h hh
    obtain ⟨ok, h', hflush, -, hok, -⟩ :=
      channelFlush_spec hlossless hopen.pending hopen.sound hanswered.neverTorn
    obtain ⟨n, -, -, hiff, hempty⟩ := @fails_channelFlush zstd h
    apply hupdate
    rw [hflush] at hfirst hiff hempty ⊢
    rw [hempty (hiff.mp (hok hanswered.headD hfirst))]
    exact (hspacious.opened _ hmem).flushed
  | close id =>
    simp only [OticPack.step, Option.map_eq_some_iff] at hstep
    obtain ⟨h, hh, hcall⟩ := hstep
    cases hcall
    obtain ⟨-, hmem, -⟩ := handle_eq_some hh
    refine ⟨?_, fun ch hch => hspacious.opened ch (List.mem_of_mem_eraseP hch)⟩
    exact Bool.or_eq_false_iff.mpr ⟨hspacious.closed, inside_finish (hspacious.opened _ hmem)⟩

theorem Keeps.spacious_run (hlossless : zstd.Lossless) {steps : List Step}
    (hsized : ∀ s ∈ steps, s.op.Sized) (hwilling : ∀ s ∈ steps, Willing s.answers) :
    ∀ {pack pack' : OticPack} {calls : List (Op × Bool)} {events : List Event} {oks : List Bool},
      Keeps zstd features pack calls events → pack.Spacious → PackedRun zstd pack steps →
      pack.run zstd steps = some (oks, pack') → pack'.Spacious := by
  induction steps with
  | nil =>
    intro pack pack' calls events oks _ hspacious _ hrun
    simp only [OticPack.run, Option.some.injEq, Prod.mk.injEq] at hrun
    obtain ⟨-, rfl⟩ := hrun
    exact hspacious
  | cons s steps ih =>
    intro pack pack' calls events oks hk hspacious hpacked hrun
    simp only [OticPack.run, Option.bind_eq_bind, Option.bind_eq_some_iff, Option.some.injEq,
      Prod.mk.injEq, Prod.exists] at hrun
    obtain ⟨ok, pack₁, hstep, oks', pack₂, hrest, -, rfl⟩ := hrun
    have hs := hwilling s List.mem_cons_self
    have hspacious₁ := hk.spacious_step hlossless hspacious hstep (hsized s List.mem_cons_self) hs
      hpacked.1
    obtain ⟨events₁, hk₁, -⟩ :=
      hk.step hlossless hstep (Step.careful_of_packed hpacked.1 hs ok) hspacious₁.inside
    exact ih (fun t ht => hsized t (List.mem_cons_of_mem _ ht))
      (fun t ht => hwilling t (List.mem_cons_of_mem _ ht)) hk₁ hspacious₁
      (hpacked.2 (ok, pack₁) hstep) hrest

theorem spacious_closeChannels {channels : List Channel} : ∀ {pack : OticPack},
    pack.overran = false → (∀ ch ∈ channels, ch.Roomy 0) →
      (OticPack.closeChannels zstd channels pack).overran = false := by
  induction channels with
  | nil => exact fun hinside _ => hinside
  | cons current previous ih =>
    intro pack hinside hroom
    apply ih _ fun ch hch => hroom ch (List.mem_cons_of_mem _ hch)
    exact Bool.or_eq_false_iff.mpr ⟨hinside, inside_finish (hroom current List.mem_cons_self)⟩

/-- **Nothing is overrun** in a session with buckets of at least 512 bytes, as long as no
flush fails. -/
theorem Session.Undisturbed.inside {s : Session} (hundisturbed : s.Undisturbed)
    (hlossless : zstd.Lossless) (hpacked : s.Packed zstd) (hsized : ∀ st ∈ s.steps, st.op.Sized)
    {w : Written} (hw : s.write zstd = some w) : w.overran = false := by
  simp only [Session.write, Option.bind_eq_bind, Option.bind_eq_some_iff, Prod.exists,
    Option.some.injEq] at hw
  obtain ⟨oks, pack, hrun, rfl⟩ := hw
  have hspacious := Keeps.spacious_run hlossless hsized hundisturbed.steps
    (keeps_init zstd s.features hundisturbed.opening)
    ⟨rfl, fun ch hch => by cases hch⟩ hpacked.steps hrun
  exact spacious_closeChannels hspacious.closed hspacious.opened

end Otic.Pack
