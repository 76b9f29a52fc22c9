import Otic.Pack.Frame
import Otic.Pack.Names

/-!
# What a run of the writer leaves in the file

The calls on an id fall into incarnations, one for each time a channel of that id
was defined.  `Keeps` is the invariant of the writer's runs: the bytes the flusher
took are the file header and a sequence of events, and for every id the records in
its blocks, with those its open channel holds back, are what the encoders of its
incarnations write.  `Keeps.step` is the step lemma, with one case for each call of
the interface; `Session.leaves` is the result for whole sessions.
-/

namespace Otic.Pack

/-! ### Incarnations -/

/-- A channel from its definition on: its size, the calls with their results, and
whether it has been closed. -/
structure Incarnation where
  size : UInt32
  calls : List (Call × Bool)
  closed : Bool

namespace Incarnation

/-- The longest string that fits the bucket. -/
def limit (i : Incarnation) : Nat := (i.size - OTIC_PACK_CACHE_TOP_LIMIT).toNat

/-- What the encoder makes of the calls. -/
def outcomes (i : Incarnation) : Encoder.Outcomes :=
  Encoder.init.run i.limit (i.calls.map Prod.fst)

/-- The records of the calls, and the end mark. -/
def records (i : Incarnation) : List Record :=
  i.outcomes.records ++ if i.closed then [.eof i.outcomes.encoder.rowCounter] else []

/-- The calls that returned 1. -/
def accepted (i : Incarnation) : List Call := (i.calls.filter Prod.snd).map Prod.fst

end Incarnation

/-- The incarnations of an id, newest first, after one more call. -/
def track (id : UInt8) (is : List Incarnation) (call : Op × Bool) : List Incarnation :=
  match call.1 with
  | .define _ id' bufferSize =>
      if id' = id ∧ call.2 then ⟨OticPack.effectiveSize bufferSize, [], false⟩ :: is else is
  | .inject id' c =>
      if id' = id then is.modifyHead fun i => { i with calls := i.calls ++ [(c, call.2)] } else is
  | .flush _ => is
  | .close id' => if id' = id then is.modifyHead fun i => { i with closed := true } else is

/-- The incarnations of an id in a sequence of calls with their results. -/
def incarnations (id : UInt8) (calls : List (Op × Bool)) : List Incarnation :=
  calls.foldl (track id) []

theorem incarnations_concat (id : UInt8) (calls : List (Op × Bool)) (call : Op × Bool) :
    incarnations id (calls ++ [call]) = track id (incarnations id calls) call := by
  simp [incarnations]

/-- Everything the incarnations of an id write, oldest first. -/
def writtenBy (is : List Incarnation) : List Record := is.reverse.flatMap Incarnation.records

@[simp] theorem writtenBy_nil : writtenBy [] = [] := rfl

@[simp] theorem writtenBy_cons (i : Incarnation) (is : List Incarnation) :
    writtenBy (i :: is) = writtenBy is ++ i.records := by
  simp [writtenBy]

theorem validFrom_outcomes (i : Incarnation) : ValidFrom 0 i.outcomes.records :=
  (Encoder.Counted.run i.limit (i.calls.map Prod.fst) Encoder.counted_init).2

theorem validFrom_records (i : Incarnation) : ValidFrom 0 i.records := by
  refine (validFrom_outcomes i).append_zero ?_
  split
  · exact ⟨fun _ hi => by simp [Record.index?] at hi, trivial⟩
  · trivial

theorem validFrom_writtenBy (is : List Incarnation) : ValidFrom 0 (writtenBy is) := by
  induction is with
  | nil => trivial
  | cons i is ih =>
    rw [writtenBy_cons]
    exact ih.append_zero (validFrom_records i)

/-! ### Events of one channel -/

theorem recordsOf_sent (id id' : UInt8) (sent : List Sent) :
    recordsOf id' (sent.map (Sent.event id)) =
      if id = id' then sent.flatMap Sent.block else [] := by
  induction sent with
  | nil => simp
  | cons s sent ih =>
    rw [List.map_cons, recordsOf_cons, ih]
    by_cases h : id = id' <;> simp [h, Sent.event, Event.blockOf]

theorem sizeOf_sent (id id' : UInt8) (events : List Event) (sent : List Sent) :
    sizeOf id' (events ++ sent.map (Sent.event id)) = sizeOf id' events := by
  induction sent using List.reverseRecOn with
  | nil => simp
  | append_singleton sent s ih =>
    rw [List.map_append, ← List.append_assoc, List.map_singleton, Sent.event, sizeOf_concat_data]
    exact ih

/-- Blocks of a channel extend a stream if what they hold can be read. -/
theorem Stream.sent {zstd : Zstd} {events : List Event} (h : Stream zstd events) {id : UInt8}
    {size : UInt32} (hsize : sizeOf id events = some size) (sent : List Sent)
    (hcompressed : ∀ s ∈ sent, zstd.compress size.toNat (encodeAll s.block) = some s.frame ∧
      (encodeAll s.block).length ≤ size.toNat) :
    ∀ rest, ValidFrom 0 (recordsOf id events ++ sent.flatMap Sent.block ++ rest) →
      Stream zstd (events ++ sent.map (Sent.event id)) := by
  induction sent using List.reverseRecOn with
  | nil => intro rest _; simpa using h
  | append_singleton sent s ih =>
    intro rest hvalid
    have hearlier := ih (fun t ht => hcompressed t (by simp [ht])) (s.block ++ rest)
      (by simpa using hvalid)
    obtain ⟨hframe, hlength⟩ := hcompressed s (by simp)
    rw [List.map_append, ← List.append_assoc]
    refine hearlier.data ⟨⟨size, (sizeOf_sent id id events sent).trans hsize, hframe, hlength⟩, ?_⟩
    rw [recordsOf_append, recordsOf_sent, if_pos rfl]
    have hsplit : recordsOf id events ++ (sent ++ [s]).flatMap Sent.block ++ rest =
        (recordsOf id events ++ sent.flatMap Sent.block) ++ (s.block ++ rest) := by simp
    rw [hsplit] at hvalid
    exact ((validFrom_append _ _ _).mp ((validFrom_append _ _ _).mp hvalid).2).1

/-! ### The invariant -/

/-- An open channel: its newest incarnation is not closed, and what it has written
is in the file or held back. -/
structure Opened (events : List Event) (is : List Incarnation) (ch : Channel)
    (i : Incarnation) (past : List Incarnation) (held : List Record) : Prop where
  incarnations : is = i :: past
  current : i.closed = false
  closed : ∀ j ∈ past, j.closed = true
  encoder : ch.encoder = i.outcomes.encoder
  pending : ch.pending = encodeAll held
  content : recordsOf ch.channelId events ++ held = writtenBy past ++ i.outcomes.records
  size : sizeOf ch.channelId events = some ch.base.cacheSize
  cacheSize : ch.base.cacheSize = i.size
  threshold : ch.threshold = i.limit
  sound : ch.Sound

/-- An id without an open channel. -/
structure Shut (events : List Event) (id : UInt8) (is : List Incarnation) : Prop where
  closed : ∀ i ∈ is, i.closed = true
  content : recordsOf id events = writtenBy is

/-- The invariant of the writer.  The results of the calls on a channel are those of
its encoder. -/
structure Keeps (zstd : Zstd) (features : UInt8) (pack : OticPack)
    (calls : List (Op × Bool)) (events : List Event) : Prop where
  stream : Stream zstd events
  accepted : pack.parent.accepted = fileHeader features ++ bytesOf events
  results : ∀ id, ∀ i ∈ incarnations id calls, i.calls.map Prod.snd = i.outcomes.oks
  distinct : (pack.channels.map Channel.channelId).Nodup
  opened : ∀ ch ∈ pack.channels, ∃ i past held,
    Opened events (incarnations ch.channelId calls) ch i past held
  shut : ∀ id, id ∉ pack.channels.map Channel.channelId → Shut events id (incarnations id calls)

/-- After `otic_pack_init` with a flusher that takes the header. -/
theorem keeps_init (zstd : Zstd) (features : UInt8) {answers : List Bool}
    (hwilling : Willing answers) :
    Keeps zstd features (OticPack.init features answers) [] [] where
  stream := .nil
  accepted := by
    simp only [OticPack.init, Parent.flusher, hwilling.headD]
    simp
  results := by simp [incarnations]
  distinct := by simp [OticPack.init]
  opened := by simp [OticPack.init]
  shut := fun id _ => ⟨by simp [incarnations], by simp [incarnations]⟩

/-! ### Calls on a channel -/

variable {zstd : Zstd} {features : UInt8} {pack : OticPack} {calls : List (Op × Bool)}
  {events : List Event}

/-- Blocks of one channel and definitions of others do not concern a channel. -/
theorem Opened.other {is : List Incarnation} {ch : Channel} {i : Incarnation}
    {past : List Incarnation} {held : List Record} (h : Opened events is ch i past held)
    {events' : List Event} (hrecords : recordsOf ch.channelId events' = [])
    (hsize : sizeOf ch.channelId (events ++ events') = sizeOf ch.channelId events) :
    Opened (events ++ events') is ch i past held :=
  { h with
    content := by rw [recordsOf_append, hrecords, List.append_nil]; exact h.content
    size := hsize.trans h.size }

theorem Shut.other {id : UInt8} {is : List Incarnation} (h : Shut events id is)
    {events' : List Event} (hrecords : recordsOf id events' = []) :
    Shut (events ++ events') id is :=
  ⟨h.closed, by rw [recordsOf_append, hrecords, List.append_nil]; exact h.content⟩

/-- A call on one id and the events of it are nothing to any other id. -/
structure Elsewhere (id : UInt8) (calls calls' : List (Op × Bool)) (events events' : List Event) :
    Prop where
  calls : ∀ id', id' ≠ id → incarnations id' calls' = incarnations id' calls
  records : ∀ id', id' ≠ id → recordsOf id' events' = []
  sizes : ∀ id', id' ≠ id → sizeOf id' (events ++ events') = sizeOf id' events

section Elsewhere

variable {id : UInt8} {calls' : List (Op × Bool)} {events' : List Event}

theorem Keeps.results_step (hk : Keeps zstd features pack calls events)
    (helse : Elsewhere id calls calls' events events') {i : Incarnation}
    {past : List Incarnation} (hself : incarnations id calls' = i :: past)
    (hresults : i.calls.map Prod.snd = i.outcomes.oks)
    (hpast : ∀ j ∈ past, j ∈ incarnations id calls) :
    ∀ id', ∀ j ∈ incarnations id' calls', j.calls.map Prod.snd = j.outcomes.oks := by
  intro id' j hj
  by_cases hid : id' = id
  · subst hid
    rw [hself] at hj
    rcases List.mem_cons.mp hj with rfl | hj
    · exact hresults
    · exact hk.results id' j (hpast j hj)
  · rw [helse.calls id' hid] at hj
    exact hk.results id' j hj

theorem Keeps.opened_elsewhere (hk : Keeps zstd features pack calls events)
    (helse : Elsewhere id calls calls' events events') {ch : Channel} (hch : ch ∈ pack.channels)
    (hne : ch.channelId ≠ id) :
    ∃ i past held,
      Opened (events ++ events') (incarnations ch.channelId calls') ch i past held := by
  obtain ⟨i, past, held, hopen⟩ := hk.opened ch hch
  refine ⟨i, past, held, ?_⟩
  rw [helse.calls _ hne]
  exact hopen.other (helse.records _ hne) (helse.sizes _ hne)

theorem Keeps.shut_elsewhere (hk : Keeps zstd features pack calls events)
    (helse : Elsewhere id calls calls' events events') {id' : UInt8}
    (hshut : id' ∉ pack.channels.map Channel.channelId) (hne : id' ≠ id) :
    Shut (events ++ events') id' (incarnations id' calls') := by
  rw [helse.calls _ hne]
  exact (hk.shut id' hshut).other (helse.records _ hne)

end Elsewhere

theorem mem_update {h : Handle} {ch : Channel} (hch : ch ∈ (pack.update h).channels) :
    ch = h.channel ∨ ch ∈ pack.channels ∧ ch.channelId ≠ h.channel.channelId := by
  simp only [OticPack.update, List.mem_map] at hch
  obtain ⟨ch', hmem, rfl⟩ := hch
  split
  · exact Or.inl rfl
  · rename_i hne
    exact Or.inr ⟨hmem, hne⟩

/-- **A call on an open channel**, from what it sends. -/
theorem Keeps.channelStep (hk : Keeps zstd features pack calls events) {h h' : Handle}
    (hmem : h.channel ∈ pack.channels) (haccepted : h.parent.accepted = pack.parent.accepted)
    {i : Incarnation} {past : List Incarnation} {held : List Record}
    (hopen : Opened events (incarnations h.channel.channelId calls) h.channel i past held)
    {call : Op × Bool} {i' : Incarnation}
    (hother : ∀ id, id ≠ h.channel.channelId →
      incarnations id (calls ++ [call]) = incarnations id calls)
    (hself : incarnations h.channel.channelId (calls ++ [call]) = i' :: past)
    (hcurrent : i'.closed = false) (hsize : i'.size = i.size)
    (hresults : i'.calls.map Prod.snd = i'.outcomes.oks)
    (hencoder : h'.channel.encoder = i'.outcomes.encoder) {records : List Record}
    (hrecords : i'.outcomes.records = i.outcomes.records ++ records) {sent : List Sent}
    {held' : List Record} (hsends : Sends zstd h held records sent h' held')
    (hinside : h'.channel.overrun = false) :
    Keeps zstd features (pack.update h') (calls ++ [call])
      (events ++ sent.map (Sent.event h.channel.channelId)) := by
  have hid : h'.channel.channelId = h.channel.channelId := congrArg Shape.channelId hsends.shape
  have hcache : h'.channel.base.cacheSize = h.channel.base.cacheSize :=
    congrArg Shape.cacheSize hsends.shape
  have hthreshold : h'.channel.threshold = h.channel.threshold :=
    congrArg Shape.threshold hsends.shape
  -- all records of the id: those in its blocks, and those held back now
  have hall : recordsOf h.channel.channelId events ++ sent.flatMap Sent.block ++ held' =
      writtenBy past ++ i'.outcomes.records := by
    rw [List.append_assoc, ← hsends.content, ← List.append_assoc, hopen.content, hrecords,
      List.append_assoc]
  have helse : Elsewhere h.channel.channelId calls (calls ++ [call]) events
      (sent.map (Sent.event h.channel.channelId)) :=
    { calls := hother
      records := fun id hne => by rw [recordsOf_sent, if_neg (Ne.symm hne)]
      sizes := fun id _ => sizeOf_sent _ _ _ _ }
  refine ⟨Stream.sent hk.stream hopen.size sent (fun s hs => ?_) held' ?_, ?_,
    hk.results_step helse hself hresults ?_, ?_, ?_, ?_⟩
  · exact ⟨hsends.compressed s hs, (hsends.inside hinside).2 s hs⟩
  · rw [hall]
    exact (validFrom_writtenBy past).append_zero (validFrom_outcomes i')
  · change h'.parent.accepted = _
    rw [hsends.accepted, haccepted, hk.accepted, bytesOf_append, List.append_assoc]
  · intro j hj
    rw [hopen.incarnations]
    exact List.mem_cons_of_mem _ hj
  · rw [update_ids]
    exact hk.distinct
  · intro ch hch
    rcases mem_update hch with rfl | ⟨hch, hne⟩
    · refine ⟨i', past, held', ?_⟩
      rw [hid, hself]
      exact
        { incarnations := rfl
          current := hcurrent
          closed := hopen.closed
          encoder := hencoder
          pending := hsends.pending
          content := by rw [hid, recordsOf_append, recordsOf_sent, if_pos rfl]; exact hall
          size := by rw [hid, sizeOf_sent, hcache]; exact hopen.size
          cacheSize := by rw [hcache, hsize]; exact hopen.cacheSize
          threshold := by
            rw [hthreshold, hopen.threshold, Incarnation.limit, Incarnation.limit, hsize]
          sound := hsends.sound }
    · rw [hid] at hne
      exact hk.opened_elsewhere helse hch hne
  · intro id hid'
    rw [update_ids] at hid'
    exact hk.shut_elsewhere helse hid' fun heq => hid' (heq ▸ List.mem_map_of_mem hmem)

/-! ### The calls of the interface -/

/-- A definition that fails leaves all channels as they were. -/
theorem Keeps.defineFailed (hk : Keeps zstd features pack calls events) (answers : List Bool)
    (error : OticError) (channelType id : UInt8) (bufferSize : UInt32) :
    Keeps zstd features ((pack.hear answers).defineFailed error)
      (calls ++ [(.define channelType id bufferSize, false)]) events := by
  have hsame : ∀ id', incarnations id' (calls ++ [(.define channelType id bufferSize, false)]) =
      incarnations id' calls := by
    intro id'
    rw [incarnations_concat, track]
    simp
  refine ⟨hk.stream, hk.accepted, fun id' => ?_, hk.distinct, fun ch hch => ?_,
    fun id' hid' => ?_⟩
  · rw [hsame]
    exact hk.results id'
  · rw [hsame]
    exact hk.opened ch hch
  · rw [hsame]
    exact hk.shut id' hid'

/-- A definition of an id that has no open channel. -/
theorem Keeps.defined (hk : Keeps zstd features pack calls events) {answers : List Bool}
    (hwilling : Willing answers) (channelType : UInt8) {id : UInt8} {bufferSize : UInt32}
    (hfree : id ∉ pack.channels.map Channel.channelId) :
    Keeps zstd features { pack.hear answers with
        parent := ((pack.hear answers).parent.flusher
          (Event.defineBytes id channelType (OticPack.effectiveSize bufferSize))).2
        channels := Channel.init id channelType (OticPack.effectiveSize bufferSize) ::
          (pack.hear answers).channels }
      (calls ++ [(.define channelType id bufferSize, true)])
      (events ++ [.define id channelType (OticPack.effectiveSize bufferSize)]) := by
  have hself : incarnations id (calls ++ [(.define channelType id bufferSize, true)]) =
      ⟨OticPack.effectiveSize bufferSize, [], false⟩ :: incarnations id calls := by
    rw [incarnations_concat, track]
    simp
  have helse : Elsewhere id calls (calls ++ [(.define channelType id bufferSize, true)]) events
      [.define id channelType (OticPack.effectiveSize bufferSize)] :=
    { calls := by
        intro id' hne
        rw [incarnations_concat, track]
        simp [Ne.symm hne]
      records := fun id' _ => rfl
      sizes := fun id' hne => by rw [sizeOf_concat_define, if_neg (Ne.symm hne)] }
  refine ⟨.define _ _ _ hk.stream, ?_, hk.results_step helse hself rfl fun j hj => hj,
    ?_, ?_, ?_⟩
  · simp only [Parent.flusher, OticPack.hear, hwilling.headD, if_true]
    rw [hk.accepted, bytesOf_append, bytesOf_cons, bytesOf_nil, List.append_nil,
      List.append_assoc]
    rfl
  · rw [List.map_cons, List.nodup_cons]
    exact ⟨hfree, hk.distinct⟩
  · intro ch hch
    rcases List.mem_cons.mp hch with rfl | hch
    · have hshut := hk.shut id hfree
      refine ⟨⟨OticPack.effectiveSize bufferSize, [], false⟩, incarnations id calls, [], ?_⟩
      exact
        { incarnations := hself
          current := rfl
          closed := hshut.closed
          encoder := rfl
          pending := rfl
          content := by
            change recordsOf id _ ++ [] = _
            have hnone : recordsOf id
              [.define id channelType (OticPack.effectiveSize bufferSize)] = [] := rfl
            rw [recordsOf_append, hnone, List.append_nil, List.append_nil]
            exact hshut.content.trans (by simp [Incarnation.outcomes])
          size := by
            change sizeOf id _ = _
            rw [sizeOf_concat_define, if_pos rfl]
            rfl
          cacheSize := rfl
          threshold := rfl
          sound := Channel.sound_init id channelType _ }
    · exact hk.opened_elsewhere helse hch fun heq => hfree (heq ▸ List.mem_map_of_mem hch)
  · intro id' hid'
    rw [List.map_cons, List.mem_cons, not_or] at hid'
    exact hk.shut_elsewhere helse hid'.2 hid'.1

theorem Keeps.define (hk : Keeps zstd features pack calls events) {answers : List Bool}
    (hwilling : Willing answers) (channelType id : UInt8) (bufferSize : UInt32) :
    let out := (pack.hear answers).defineChannel channelType id bufferSize
    ∃ events', Keeps zstd features out.2
      (calls ++ [(.define channelType id bufferSize, out.1)]) (events ++ events') := by
  have hfailed : ∀ error, Keeps zstd features ((pack.hear answers).defineFailed error)
      (calls ++ [(.define channelType id bufferSize, false)]) (events ++ []) := by
    intro error
    rw [List.append_nil]
    exact hk.defineFailed answers error channelType id bufferSize
  unfold OticPack.defineChannel
  by_cases hstate : (pack.hear answers).parent.state ≠ .opened
  · rw [if_pos hstate]
    exact ⟨[], hfailed _⟩
  rw [if_neg hstate]
  by_cases hzero : id = 0
  · rw [if_pos hzero]
    exact ⟨[], hfailed _⟩
  rw [if_neg hzero]
  by_cases htaken : ((pack.hear answers).channels.any fun current =>
      current.channelId == id) = true
  · rw [if_pos htaken]
    exact ⟨[], hfailed _⟩
  rw [if_neg htaken]
  have hfree : id ∉ pack.channels.map Channel.channelId := by
    intro hmem
    obtain ⟨ch, hch, hid⟩ := List.mem_map.mp hmem
    exact htaken (List.any_eq_true.mpr ⟨ch, hch, by simp [hid]⟩)
  exact ⟨_, hk.defined hwilling channelType hfree⟩

theorem Keeps.hear (hk : Keeps zstd features pack calls events) (answers : List Bool) :
    Keeps zstd features (pack.hear answers) calls events :=
  ⟨hk.stream, hk.accepted, hk.results, hk.distinct, hk.opened, hk.shut⟩

/-- An inject, if every flush of it succeeds or the call returns 1. -/
theorem Keeps.inject (hlossless : zstd.Lossless)
    (hk : Keeps zstd features pack calls events) {id : UInt8} {h : Handle}
    (hh : pack.handle id = some h) (hanswers : NeverTorn h.parent.answers) (c : Call) {ok : Bool}
    {h' : Handle} (hcall : c.inject zstd h = (ok, h'))
    (hmode : Willing h.parent.answers ∧ h.Packed zstd h' ∨ ok = true)
    (hinside : h'.channel.overrun = false) :
    ∃ events', Keeps zstd features (pack.update h') (calls ++ [(.inject id c, ok)])
        (events ++ events') ∧
      (Willing h.parent.answers → h.Packed zstd h' → h'.parent.state = h.parent.state) := by
  obtain ⟨hparent, hmem, hid⟩ := handle_eq_some hh
  obtain ⟨i, past, held, hopen⟩ := hk.opened h.channel hmem
  obtain ⟨ok', h'', hcall', hfollows⟩ :=
    inject_spec hlossless hopen.pending hopen.sound hanswers c
  obtain ⟨rfl, rfl⟩ := Prod.mk.inj (hcall.symm.trans hcall')
  rcases hfollows with ⟨hok, hencoder, sent, held', hsends⟩ | hstalls
  swap
  · -- the flush inside `inject_s` failed, and so did the call
    rcases hmode with hmode | htrue
    · exact absurd hmode hstalls.unable
    · rw [hstalls.refused] at htrue
      cases htrue
  refine ⟨sent.map (Sent.event h.channel.channelId), ?_,
    fun hwilling hpacked => ((hsends.willing hwilling).2 hpacked).1⟩
  let i' : Incarnation := { i with calls := i.calls ++ [(c, ok)] }
  have houtcomes : i'.outcomes =
      ⟨i.outcomes.oks ++ [(i.outcomes.encoder.inject i.limit c).ok],
        (i.outcomes.encoder.inject i.limit c).encoder,
        i.outcomes.records ++ (i.outcomes.encoder.inject i.limit c).records⟩ := by
    simp only [i', Incarnation.outcomes, Incarnation.limit, List.map_append, List.map_singleton]
    exact Encoder.run_concat _ _ _ c
  rw [hopen.encoder, hopen.threshold] at hok hencoder hsends
  refine hk.channelStep hmem (congrArg Parent.accepted hparent) hopen ?_ ?_
    (show i'.closed = false from hopen.current) rfl ?_ (hencoder.trans (by rw [houtcomes]))
    (by rw [houtcomes]) hsends hinside
  · intro id' hne
    rw [hid] at hne
    rw [incarnations_concat, track]
    simp [Ne.symm hne]
  · rw [hid, incarnations_concat, track]
    rw [hid] at hopen
    simp [hopen.incarnations, i']
  · have hresults := hk.results h.channel.channelId i (by simp [hopen.incarnations])
    rw [houtcomes]
    simp [i', hresults, hok]

theorem Keeps.flush (hlossless : zstd.Lossless) (hk : Keeps zstd features pack calls events)
    {id : UInt8} {h : Handle} (hh : pack.handle id = some h)
    (hanswers : NeverTorn h.parent.answers) {ok : Bool} {h' : Handle}
    (hcall : h.channelFlush zstd = (ok, h')) (hinside : h'.channel.overrun = false) :
    ∃ events', Keeps zstd features (pack.update h') (calls ++ [(.flush id, ok)])
        (events ++ events') ∧
      (Willing h.parent.answers → h.Packed zstd h' →
        ok = true ∧ h'.parent.state = h.parent.state) := by
  obtain ⟨hparent, hmem, hid⟩ := handle_eq_some hh
  obtain ⟨i, past, held, hopen⟩ := hk.opened h.channel hmem
  obtain ⟨ok', h'', hcall', hencoder, hok, hsent⟩ :=
    channelFlush_spec hlossless hopen.pending hopen.sound hanswers
  obtain ⟨rfl, rfl⟩ := Prod.mk.inj (hcall.symm.trans hcall')
  obtain ⟨sent, held', hsends⟩ : ∃ sent held', Sends zstd h held [] sent h' held' := by
    rcases hsent with ⟨-, frame, hsends⟩ | ⟨-, hsends⟩
    · exact ⟨_, _, hsends⟩
    · exact ⟨_, _, hsends⟩
  refine ⟨sent.map (Sent.event h.channel.channelId), ?_,
    fun hw hpacked => ⟨hok hw.headD hpacked, ((hsends.willing hw).2 hpacked).1⟩⟩
  refine hk.channelStep hmem (congrArg Parent.accepted hparent) hopen ?_ ?_ hopen.current
    rfl ?_ (hencoder.trans hopen.encoder) (List.append_nil _).symm hsends hinside
  · intro id' _
    rw [incarnations_concat, track]
  · rw [incarnations_concat, track, hopen.incarnations]
  · exact hk.results h.channel.channelId i (by simp [hopen.incarnations])

/-! ### Closing channels -/

theorem Keeps.close (hlossless : zstd.Lossless) (hk : Keeps zstd features pack calls events)
    {ch : Channel} (hmem : ch ∈ pack.channels) (hwilling : Willing pack.parent.answers)
    (hclosable : ch.Closable zstd)
    (hinside : (Handle.finish zstd ⟨pack.parent, ch⟩).channel.overrun = false) :
    ∃ events', Keeps zstd features (pack.channelClose zstd ch)
        (calls ++ [(.close ch.channelId, true)]) (events ++ events') ∧
      Willing (pack.channelClose zstd ch).parent.answers ∧
      (pack.channelClose zstd ch).parent.state = pack.parent.state := by
  obtain ⟨i, past, held, hopen⟩ := hk.opened ch hmem
  let mark : Record := .eof ch.base.rowCounter
  obtain ⟨frame, hsends⟩ := finish_spec (h := ⟨pack.parent, ch⟩) hlossless hopen.pending
    hwilling hclosable
  obtain ⟨hwilling', hstate⟩ := hsends.willing hwilling
  refine ⟨[.data ch.channelId (held ++ [mark]) frame], ?_, hwilling',
    (hstate ((packed_finish _).mpr hclosable)).1⟩
  let i' : Incarnation := { i with closed := true }
  have hself : incarnations ch.channelId (calls ++ [(.close ch.channelId, true)]) = i' :: past := by
    rw [incarnations_concat, track]
    simp [hopen.incarnations, i']
  have helse : Elsewhere ch.channelId calls (calls ++ [(.close ch.channelId, true)]) events
      [.data ch.channelId (held ++ [mark]) frame] :=
    { calls := by
        intro id hne
        rw [incarnations_concat, track]
        simp [Ne.symm hne]
      records := fun id hne => by simp [Event.blockOf, Ne.symm hne]
      sizes := fun id _ => sizeOf_concat_data _ _ _ _ _ }
  have hrecords : i'.records = i.outcomes.records ++ [mark] := by
    have hcount : i.outcomes.encoder.rowCounter = ch.base.rowCounter := by
      rw [← hopen.encoder]
      rfl
    have hsame : i'.outcomes = i.outcomes := rfl
    rw [Incarnation.records, hsame, if_pos rfl, hcount]
  have hall : recordsOf ch.channelId events ++ (held ++ [mark]) =
      writtenBy (i' :: past) := by
    rw [writtenBy_cons, hrecords, ← List.append_assoc, ← List.append_assoc, hopen.content]
  have hresults := hk.results ch.channelId i (by simp [hopen.incarnations])
  have hcompressed := hsends.compressed _ List.mem_cons_self
  have hlength := (hsends.inside hinside).2 _ List.mem_cons_self
  refine ⟨hk.stream.data ⟨⟨_, hopen.size, hcompressed, hlength⟩, ?_⟩, ?_,
    hk.results_step helse hself hresults ?_, ?_, ?_, ?_⟩
  · have hvalid := validFrom_writtenBy (i' :: past)
    rw [← hall, validFrom_append] at hvalid
    exact hvalid.2
  · simp only [OticPack.channelClose]
    rw [hsends.accepted, bytesOf_append, ← List.append_assoc]
    exact congrArg (· ++ _) hk.accepted
  · intro j hj
    rw [hopen.incarnations]
    exact List.mem_cons_of_mem _ hj
  · rw [channelClose_ids]
    exact hk.distinct.erase _
  · intro ch' hch'
    have hne : ch'.channelId ≠ ch.channelId := by
      have hids := List.mem_map_of_mem (f := Channel.channelId) hch'
      rw [channelClose_ids, hk.distinct.mem_erase_iff] at hids
      exact hids.1
    exact hk.opened_elsewhere helse (List.mem_of_mem_eraseP hch') hne
  · intro id hid
    rw [channelClose_ids, hk.distinct.mem_erase_iff, not_and] at hid
    by_cases hsame : id = ch.channelId
    · subst hsame
      rw [hself]
      refine ⟨?_, ?_⟩
      · intro j hj
        rcases List.mem_cons.mp hj with rfl | hj
        · rfl
        · exact hopen.closed j hj
      · rw [← hall, recordsOf_append]
        simp [Event.blockOf]
    · exact hk.shut_elsewhere helse (hid hsame) hsame

end Otic.Pack
