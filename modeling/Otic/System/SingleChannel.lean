import Otic.Pack.Pieces
import Otic.Pack.Told
import Otic.System.Delivery

/-!
# Sessions with one channel

A channel is defined, any number of scalar injects is called on it, and the pack is
closed.  The compressor may fail on any block: what a reader gets is what the calls, as
the encoder is told them, amount to, up to the rows that were still in the bucket when the
last block could not be compressed (`handed_closedAfter`).
-/

namespace Otic

open Pack Unpack

/-- A session with one channel, and a flusher that takes everything. -/
def singleChannel (features channelType id : UInt8) (bufferSize : UInt32) (calls : List Call) :
    Session where
  features := features
  opening := []
  steps := ⟨.define channelType id bufferSize, []⟩ :: calls.map fun c => ⟨.inject id c, []⟩
  closing := []

variable {zstd : Zstd} {seeker : Bool} {features channelType id : UInt8}
  {bufferSize size : UInt32} {calls : List Call} {pack : OticPack} {answers : List Bool}
  {moves : List Move}

/-! ### The session -/

theorem run_injects (calls : List Call) : ∀ {pack : OticPack}, id ∈ pack.ids →
    ∃ oks pack', pack.run zstd (calls.map fun c => ⟨.inject id c, []⟩) = some (oks, pack') ∧
      oks.length = calls.length := by
  induction calls with
  | nil => exact fun _ => ⟨[], _, rfl, rfl⟩
  | cons c calls ih =>
    intro pack hid
    obtain ⟨⟨ok, pack₁⟩, hstep⟩ : ∃ out, pack.step zstd ⟨.inject id c, []⟩ = some out := by
      apply Option.isSome_iff_exists.mp
      rw [step_isSome]
      intro id' hid'
      cases hid'
      exact hid
    have hids : id ∈ pack₁.ids := by
      rw [step_ids hstep]
      exact hid
    obtain ⟨oks, pack', hrun, hlength⟩ := ih hids
    refine ⟨ok :: oks, pack', ?_, by simp [hlength]⟩
    simp only [List.map_cons, OticPack.run, hstep, hrun, Option.bind_eq_bind, Option.bind_some]

/-- The pack after the definition. -/
def defined (features channelType id : UInt8) (bufferSize : UInt32) : OticPack :=
  (((OticPack.init features []).hear []).defineChannel channelType id bufferSize).2

theorem defineChannel_defined (hid : id ≠ 0) :
    ((OticPack.init features []).hear []).defineChannel channelType id bufferSize =
        (true, defined features channelType id bufferSize) ∧
      (defined features channelType id bufferSize).channels =
        [Pack.Channel.init id channelType (OticPack.effectiveSize bufferSize)] := by
  have hdefine : ((OticPack.init features []).hear []).defineChannel channelType id bufferSize =
      (true, { (OticPack.init features []).hear [] with
        parent := (((OticPack.init features []).hear []).parent.flusher
          (Event.defineBytes id channelType (OticPack.effectiveSize bufferSize))).2
        channels := [Pack.Channel.init id channelType (OticPack.effectiveSize bufferSize)] }) := by
    unfold OticPack.defineChannel
    rw [if_neg (by simp [OticPack.init, OticPack.hear]), if_neg hid,
      if_neg (by simp [OticPack.init, OticPack.hear])]
    rfl
  rw [defined, hdefine]
  exact ⟨rfl, rfl⟩

/-- **The session** goes through; its results are those of the definition and of the
injects. -/
theorem write_singleChannel (hid : id ≠ 0) (calls : List Call) :
    ∃ oks pack', (defined features channelType id bufferSize).run zstd
        (calls.map fun c => ⟨.inject id c, []⟩) = some (oks, pack') ∧
      oks.length = calls.length ∧
      (singleChannel features channelType id bufferSize calls).write zstd =
        some ⟨true :: oks, true,
          ((pack'.hear []).close zstd).2.parent.accepted,
          ((pack'.hear []).close zstd).2.overran⟩ := by
  obtain ⟨hdefine, hchannels⟩ := @defineChannel_defined features channelType id bufferSize hid
  have hopen : id ∈ (defined features channelType id bufferSize).ids := by
    simp [OticPack.ids, hchannels, Pack.Channel.init]
  obtain ⟨oks, pack', hrun, hlength⟩ := @run_injects zstd id calls _ hopen
  refine ⟨oks, pack', hrun, hlength, ?_⟩
  have hstep : (OticPack.init features []).step zstd ⟨.define channelType id bufferSize, []⟩ =
      some (true, defined features channelType id bufferSize) := by
    simp only [OticPack.step, hdefine]
  simp only [Session.write, singleChannel, OticPack.run, hstep, hrun, Option.bind_eq_bind,
    Option.bind_some, OticPack.close]

theorem incarnations_singleChannel {w : Written} {oks : List Bool} (hoks : w.oks = true :: oks)
    (hlength : oks.length = calls.length) :
    incarnations id ((singleChannel features channelType id bufferSize calls).history w) =
      [⟨OticPack.effectiveSize bufferSize, calls.zip oks, false⟩] := by
  have hfold : ∀ (calls : List Call) (oks : List Bool), oks.length = calls.length →
      ∀ i : Incarnation, (((calls.map fun c => Op.inject id c).zip oks).foldl (track id) [i]) =
        [{ i with calls := i.calls ++ calls.zip oks }] := by
    intro calls
    induction calls with
    | nil => intro oks _ i; simp
    | cons c calls ih =>
      intro oks hlength i
      cases oks with
      | nil => simp at hlength
      | cons ok oks =>
        have hstep : track id [i] (.inject id c, ok) =
            [{ i with calls := i.calls ++ [(c, ok)] }] := by simp [track]
        simp only [List.map_cons, List.zip_cons_cons, List.foldl_cons, hstep]
        rw [ih oks (by simpa using hlength)]
        simp
  have hops : (calls.map fun c => (⟨.inject id c, []⟩ : Step)).map Step.op =
      calls.map fun c => Op.inject id c := by simp [Function.comp_def]
  simp only [incarnations, Session.history, withResults, singleChannel, List.map_cons, hoks,
    List.zip_cons_cons, List.foldl_cons, hops]
  have hfirst : track id [] (.define channelType id bufferSize, true) =
      [⟨OticPack.effectiveSize bufferSize, [], false⟩] := by simp [track]
  rw [hfirst, hfold calls oks hlength]
  simp

theorem undisturbed_singleChannel :
    (singleChannel features channelType id bufferSize calls).Undisturbed := by
  have hwilling : Willing [] := fun _ h => by cases h
  refine ⟨hwilling, fun st hst => ?_, hwilling⟩
  rcases List.mem_cons.mp hst with rfl | hst
  · exact hwilling
  · obtain ⟨c, -, rfl⟩ := List.mem_map.mp hst
    exact hwilling

/-- A bucket of at least 512 bytes is not overrun while its blocks are compressed. -/
theorem inside_singleChannel (hlossless : zstd.Lossless)
    (hpacked : (singleChannel features channelType id bufferSize calls).Packed zstd)
    (hsize : OTIC_PACK_CACHE_TOP_LIMIT ≤ OticPack.effectiveSize bufferSize) {w : Written}
    (hw : (singleChannel features channelType id bufferSize calls).write zstd = some w) :
    w.overran = false := by
  refine undisturbed_singleChannel.inside hlossless hpacked (fun st hst => ?_) hw
  rcases List.mem_cons.mp hst with rfl | hst
  · exact hsize
  · obtain ⟨c, -, rfl⟩ := List.mem_map.mp hst
    trivial

/-- **What is read** of the channel, next to its encoder, if every block was compressed. -/
theorem reads_singleChannel (hlossless : zstd.Lossless) (hid : id ≠ 0)
    (hpacked : (singleChannel features channelType id bufferSize calls).Packed zstd) {w : Written}
    (hw : (singleChannel features channelType id bufferSize calls).write zstd = some w)
    (hinside : w.overran = false) (seeker : Bool) {limit : Nat}
    (hlimit : limit = (OticPack.effectiveSize bufferSize - OTIC_PACK_CACHE_TOP_LIMIT).toNat) :
    ∃ u, readFile zstd seeker [id] w.accepted = .ok u ∧
      acceptedCalls calls w.oks.tail = Encoder.init.accepted limit calls ∧
      u.calls.map Prod.snd =
        (View.init.applyAll (Encoder.init.run limit calls).closed).rows := by
  subst hlimit
  obtain ⟨oks, pack', -, hlength, hwrite⟩ :=
    @write_singleChannel zstd features channelType id bufferSize hid calls
  have hoks : w.oks = true :: oks := by
    rw [hw, Option.some.injEq] at hwrite
    rw [hwrite]
  obtain ⟨events, hleaves⟩ := undisturbed_singleChannel.leaves hlossless hpacked hw hinside
  obtain ⟨u₀, u, -, -, hread, hreads⟩ :=
    hleaves.read hlossless (List.nodup_singleton id) seeker
  have hincarnations := @incarnations_singleChannel features channelType id bufferSize calls w _
    hoks hlength
  have hcalls : (calls.zip oks).map Prod.fst = calls := List.map_fst_zip (by omega)
  refine ⟨u, hread, ?_, ?_⟩
  · have haccepted := Incarnation.accepted_eq
      (hleaves.results id _ (by rw [hincarnations]; exact List.mem_cons_self))
    dsimp only at haccepted
    rw [hcalls] at haccepted
    rw [hoks]
    exact haccepted
  · have hrows := hleaves.rows hreads List.mem_cons_self
    rw [rowsOf_of_forall fun call hcall => by
        rw [hreads.calls] at hcall
        exact List.mem_singleton.mp (mem_select_of_reading hcall),
      lifetimes, hincarnations] at hrows
    rw [hrows, List.map_singleton, writtenBy_cons, writtenBy_nil, List.nil_append,
      Incarnation.records_finish, Incarnation.outcomes, hcalls]
    rfl

/-! ### The channel of a new pack -/

/-- The channel that was defined in a new pack, whose flusher has taken the header and
the definition and now answers like this (`handle_firstChannel`). -/
def firstChannel (features channelType id : UInt8) (bufferSize : UInt32) (answers : List Bool) :
    Handle :=
  ⟨((defined features channelType id bufferSize).hear answers).parent,
    Pack.Channel.init id channelType (OticPack.effectiveSize bufferSize)⟩

theorem handle_firstChannel (hid : id ≠ 0) :
    ((defined features channelType id bufferSize).hear answers).handle id =
      some (firstChannel features channelType id bufferSize answers) := by
  obtain ⟨-, hchannels⟩ := @defineChannel_defined features channelType id bufferSize hid
  simp [OticPack.handle, OticPack.hear, hchannels, firstChannel, Pack.Channel.init]

theorem accepted_firstChannel (hid : id ≠ 0) :
    (firstChannel features channelType id bufferSize answers).parent.accepted =
      fileHeader features ++
        Event.defineBytes id channelType (OticPack.effectiveSize bufferSize) := by
  unfold firstChannel defined OticPack.defineChannel
  rw [if_neg (by simp [OticPack.init, OticPack.hear]), if_neg hid,
    if_neg (by simp [OticPack.init, OticPack.hear])]
  rfl

/-- The channel after some calls and `otic_pack_channel_close`. -/
def closedAfter (zstd : Zstd) (features channelType id : UInt8) (bufferSize : UInt32)
    (answers : List Bool) (moves : List Move) : Handle :=
  ((firstChannel features channelType id bufferSize answers).moves zstd moves).2.finish zstd

/-- The injects of a session are calls on its channel. -/
theorem run_injects_moves (hlossless : zstd.Lossless) (calls : List Call) :
    ∀ {pack : OticPack} {ch : Pack.Channel} {held : List Record}, pack.channels = [ch] →
      ch.channelId = id → pack.parent.answers = [] → ch.pending = encodeAll held → ch.Sound →
      let out := Handle.moves zstd ⟨pack.parent, ch⟩ (calls.map .inject)
      pack.run zstd (calls.map fun c => ⟨.inject id c, []⟩) =
        some (out.1, { pack with parent := out.2.parent, channels := [out.2.channel] }) ∧
      out.2.parent.answers = [] := by
  induction calls with
  | nil =>
    intro pack ch held hchannels _ hanswers _ _
    have hsame : { pack with channels := [ch] } = pack := by rw [← hchannels]
    refine ⟨?_, hanswers⟩
    change some ([], pack) = some ([], { pack with channels := [ch] })
    rw [hsame]
  | cons c calls ih =>
    intro pack ch held hchannels hid hanswers hheld hsound
    have hhear : pack.hear [] = pack := by
      rw [← hanswers]
      rfl
    have hhandle : pack.handle id = some ⟨pack.parent, ch⟩ := by
      simp [OticPack.handle, hchannels, hid]
    have hquiet : NeverTorn pack.parent.answers := by
      rw [hanswers]
      trivial
    obtain ⟨records, sent, held₁, hsends⟩ :=
      @inject_sends zstd ⟨pack.parent, ch⟩ held hlossless hheld hsound hquiet c
    obtain ⟨n, hdrop⟩ := hsends.answers
    rw [hanswers, List.drop_nil] at hdrop
    have hid₁ : (c.inject zstd ⟨pack.parent, ch⟩).2.channel.channelId = ch.channelId :=
      congrArg Shape.channelId hsends.shape
    obtain ⟨hrest, hanswers'⟩ := @ih { pack with
        parent := (c.inject zstd ⟨pack.parent, ch⟩).2.parent
        channels := [(c.inject zstd ⟨pack.parent, ch⟩).2.channel] } _ held₁ rfl
      (hid₁.trans hid) hdrop hsends.pending hsends.sound
    refine ⟨?_, hanswers'⟩
    have hstep : pack.step zstd ⟨.inject id c, []⟩ =
        some ((c.inject zstd ⟨pack.parent, ch⟩).1, { pack with
          parent := (c.inject zstd ⟨pack.parent, ch⟩).2.parent
          channels := [(c.inject zstd ⟨pack.parent, ch⟩).2.channel] }) := by
      simp only [OticPack.step, hhear, hhandle, Option.map_some, OticPack.update, hchannels,
        List.map_cons, List.map_nil, hid₁, if_true]
    simp only [List.map_cons, OticPack.run, hstep, hrest, Option.bind_eq_bind, Option.bind_some]
    rfl

/-- **The session** in terms of its channel. -/
theorem write_eq_moves (hlossless : zstd.Lossless) (hid : id ≠ 0) (calls : List Call) :
    let first := firstChannel features channelType id bufferSize []
    let moves := calls.map Move.inject
    let closed := closedAfter zstd features channelType id bufferSize [] moves
    (singleChannel features channelType id bufferSize calls).write zstd =
        some ⟨true :: (first.moves zstd moves).1, true, closed.parent.accepted,
          closed.channel.overrun⟩ ∧
      ∃ pack, (OticPack.init features []).run zstd
          (singleChannel features channelType id bufferSize calls).steps =
            some (true :: (first.moves zstd moves).1, pack) ∧
        pack.channels = [(first.moves zstd moves).2.channel] := by
  intro first moves closed
  obtain ⟨hdefine, hchannels⟩ := @defineChannel_defined features channelType id bufferSize hid
  have hanswers : (defined features channelType id bufferSize).parent.answers = [] := by
    unfold defined OticPack.defineChannel
    rw [if_neg (by simp [OticPack.init, OticPack.hear]), if_neg hid,
      if_neg (by simp [OticPack.init, OticPack.hear])]
    rfl
  have hstep : (OticPack.init features []).step zstd ⟨.define channelType id bufferSize, []⟩ =
      some (true, defined features channelType id bufferSize) := by
    simp only [OticPack.step, hdefine]
  obtain ⟨hrun, hanswers'⟩ := @run_injects_moves zstd id hlossless calls _ _ [] hchannels rfl
    hanswers rfl (Channel.sound_init _ _ _)
  have hfirst : (⟨(defined features channelType id bufferSize).parent,
      Pack.Channel.init id channelType (OticPack.effectiveSize bufferSize)⟩ : Handle) = first := by
    have hhear : (defined features channelType id bufferSize).hear [] =
        defined features channelType id bufferSize := by
      rw [← hanswers]
      rfl
    simp only [first, firstChannel, hhear]
  rw [hfirst] at hrun hanswers'
  refine ⟨?_, { defined features channelType id bufferSize with
    parent := (first.moves zstd moves).2.parent
    channels := [(first.moves zstd moves).2.channel] }, ?_, rfl⟩
  · have hhear : ∀ p : Parent, p.answers = [] → { p with answers := [] } = p := by
      rintro p hnil
      rw [← hnil]
    have hoverran : (defined features channelType id bufferSize).overran = false := by
      unfold defined OticPack.defineChannel
      rw [if_neg (by simp [OticPack.init, OticPack.hear]), if_neg hid,
        if_neg (by simp [OticPack.init, OticPack.hear])]
      rfl
    simp only [Session.write, singleChannel, OticPack.run, hstep, hrun, Option.bind_eq_bind,
      Option.bind_some, OticPack.close, OticPack.hear, OticPack.closeChannels,
      OticPack.channelClose, hhear _ hanswers', hoverran, Bool.false_or]
    rfl
  · simp only [singleChannel, OticPack.run, hstep, hrun, Option.bind_eq_bind, Option.bind_some]
    rfl

/-! ### What becomes of the records -/

/-- The records of some frames. -/
def blocksOf (sent : List Sent) : List Record := sent.flatMap Sent.block

/-- A file with one channel, from the header on. -/
def fileOf (features channelType id : UInt8) (size : UInt32) (sent : List Sent) : List UInt8 :=
  fileHeader features ++ (Event.defineBytes id channelType size ++
    bytesOf (sent.map (Sent.event id)))

/-- Closing the channel loses no row: the compressor compresses its last block, or there is
no row in it. -/
def Pack.Channel.Saved (zstd : Zstd) (ch : Pack.Channel) : Prop :=
  ch.Closable zstd ∨ ∀ records, ch.pending = encodeAll records → rowsIn records = 0

/-- What has become of the records of a channel: the first of them are in frames that the
flusher took, the others are lost. -/
structure Handed (zstd : Zstd) (features channelType id : UInt8) (size : UInt32) (h : Handle)
    (records : List Record) (sent : List Sent) (lost : List Record) : Prop where
  accepted : h.parent.accepted = fileOf features channelType id size sent
  compressed : ∀ s ∈ sent, zstd.compress size.toNat (encodeAll s.block) = some s.frame
  sized : h.channel.overrun = false → ∀ s ∈ sent, (encodeAll s.block).length ≤ size.toNat
  content : records = blocksOf sent ++ lost

/-- What was sent from the definition on has been handed over. -/
theorem Pack.Sends.handed (hid : id ≠ 0) {records held : List Record} {sent : List Sent}
    {h : Handle}
    (hsends : Sends zstd (firstChannel features channelType id bufferSize answers) [] records sent
      h held) :
    Handed zstd features channelType id (OticPack.effectiveSize bufferSize) h records sent
      held where
  accepted := by
    rw [hsends.accepted, accepted_firstChannel hid, List.append_assoc]
    rfl
  compressed := hsends.compressed
  sized := fun hinside => (hsends.inside hinside).2
  content := hsends.content

/-- A close whose last block is not compressed loses what is in the bucket. -/
theorem Handed.finish {h : Handle} {records held : List Record} {sent : List Sent}
    (hhanded : Handed zstd features channelType id size h records sent held)
    (hclosable : ¬ h.channel.Closable zstd) (mark : Record) :
    Handed zstd features channelType id size (h.finish zstd) (records ++ [mark]) sent
      (held ++ [mark]) where
  accepted := by
    rw [finish_failed hclosable]
    exact hhanded.accepted
  compressed := hhanded.compressed
  sized := fun hinside => hhanded.sized <| by
    by_contra hover
    rw [Bool.not_eq_false] at hover
    rw [(@onwards_finish zstd h).overrun hover] at hinside
    cases hinside
  content := by rw [hhanded.content, List.append_assoc]

/-- **Any calls on a channel and its close**, for any compressor: the encoder is told some
calls, and what it writes is handed over but for the rows of a last block that is not
compressed. -/
theorem handed_closedAfter (hlossless : zstd.Lossless) (hid : id ≠ 0) (hwilling : Willing answers)
    (moves : List Move) {limit : UInt32}
    (hlimit : limit = OticPack.effectiveSize bufferSize - OTIC_PACK_CACHE_TOP_LIMIT) :
    let first := firstChannel features channelType id bufferSize answers
    ∃ told sent lost, let out := Encoder.init.run limit.toNat told
      (first.moves zstd moves).1 = out.oks ∧
      acceptedCalls told out.oks = acceptedCalls (injectsOf moves) out.oks ∧
      Handed zstd features channelType id (OticPack.effectiveSize bufferSize)
        (closedAfter zstd features channelType id bufferSize answers moves) out.closed sent lost ∧
      ((first.moves zstd moves).2.channel.Closable zstd → lost = []) ∧
      ((first.moves zstd moves).2.channel.Saved zstd ↔ rowsIn lost = 0) := by
  intro first
  subst hlimit
  obtain ⟨told, hoks, hencoder, haccepted, sent, held, hsends⟩ :=
    moves_told hlossless moves (show first.channel.pending = encodeAll [] from rfl)
      (Channel.sound_init _ _ _) hwilling.neverTorn rfl
  have hwilling' := (hsends.willing hwilling).1
  have hmark : (first.moves zstd moves).2.channel.base.rowCounter =
      (Encoder.init.run (OticPack.effectiveSize bufferSize - OTIC_PACK_CACHE_TOP_LIMIT).toNat
        told).encoder.rowCounter := congrArg Encoder.rowCounter hencoder
  by_cases hclosable : (first.moves zstd moves).2.channel.Closable zstd
  · obtain ⟨frame, hlast⟩ := finish_spec hlossless hsends.pending hwilling' hclosable
    rw [hmark] at hlast
    refine ⟨told, _, [], hoks, haccepted, (hsends.trans hlast).handed hid, fun _ => rfl,
      fun _ => rfl, fun _ => Or.inl hclosable⟩
  · refine ⟨told, sent, held ++ [_], hoks, haccepted, (hsends.handed hid).finish hclosable _,
      fun h => absurd h hclosable, ?_⟩
    have hrows : rowsIn (held ++ [Record.eof
        (Encoder.init.run (OticPack.effectiveSize bufferSize - OTIC_PACK_CACHE_TOP_LIMIT).toNat
          told).encoder.rowCounter]) = rowsIn held := by
      rw [rowsIn_append]
      rfl
    rw [hrows]
    constructor
    · rintro (h | hnone)
      · exact absurd h hclosable
      · exact hnone held hsends.pending
    · refine fun hzero => Or.inr fun records hrecords => ?_
      rw [hsends.pending] at hrecords
      rw [← encodeAll_injective hrecords]
      exact hzero

/-- **What was handed over is read**, if nothing was written past the end of the bucket. -/
theorem Handed.read (hlossless : zstd.Lossless) {h : Handle} {records lost : List Record}
    {sent : List Sent} (hhanded : Handed zstd features channelType id size h records sent lost)
    (hinside : h.channel.overrun = false) (hvalid : ValidFrom 0 records) (seeker : Bool) :
    ∃ u, readFile zstd seeker [id] h.parent.accepted = .ok u ∧
      u.calls.map Prod.snd = (View.init.applyAll (blocksOf sent)).rows := by
  let events : List Event := [.define id channelType size]
  have hsize : sizeOf id events = some size := by
    simp [events, sizeOf]
  have hstream : Stream zstd (events ++ sent.map (Sent.event id)) := by
    refine Stream.sent (Stream.nil.define id channelType size) hsize sent
      (fun s hs => ⟨hhanded.compressed s hs, hhanded.sized hinside s hs⟩) lost ?_
    rw [hhanded.content] at hvalid
    exact hvalid
  obtain ⟨u₀, u, hstart, -, hall, hreads⟩ :=
    parse_file hlossless hstream seeker (List.nodup_singleton id) features
  have hbytes : fileHeader features ++ bytesOf (events ++ sent.map (Sent.event id)) =
      fileOf features channelType id size sent := by
    rw [bytesOf_append]
    simp [events, fileOf, Event.bytes]
  rw [hbytes, ← hhanded.accepted] at hstart
  refine ⟨u, ?_, ?_⟩
  · rw [readFile, hstart, Exec.ok_bind, hall]
  · have hrecords : recordsOf id (events ++ sent.map (Sent.event id)) = blocksOf sent := by
      rw [recordsOf_append, recordsOf_sent, if_pos rfl]
      rfl
    rw [← rowsOf_of_forall fun call hcall => by
        rw [hreads.calls] at hcall
        exact List.mem_singleton.mp (mem_select_of_reading hcall),
      hreads.calls, rowsOf_reading List.mem_cons_self, hrecords]

end Otic
