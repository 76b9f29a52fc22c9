import Otic.Pack.FlushPoints
import Otic.Pack.Resize
import Otic.System.RowRoundTrip
import Otic.System.Truncation

/-!
# Buckets that are resized on the way

A resize announces the new size in a frame of its own, between the blocks.  If the
reallocation leaves the bucket where it is, the new size has room for what is pending,
the compressor's block is as large, and all blocks are compressed, then nobody notices: the
reader delivers what it would have if the bucket had never been resized
(`resizes_invisible`).
-/

namespace Otic

open Pack Unpack OticUnpack

namespace Pack

/-- A call on an open channel, a resize included. -/
inductive Change where
  | inject (c : Call)
  | flush
  | resize (bucketSize : UInt32)

/-- The injects among some calls. -/
def injectedBy (changes : List Change) : List Call :=
  changes.filterMap fun change =>
    match change with
    | .inject c => some c
    | .flush | .resize _ => none

/-- The label `fail` of `otic_pack_channel_resizeBucket`. -/
def Handle.resizeFailed (h : Handle) (error : OticError) : Bool × Handle :=
  (false, { h with parent := { h.parent with error := error, state := .onError } })

/-- `otic_pack_channel_resizeBucket`, where `realloc` leaves the block where it is. -/
def Handle.resizeBucket (h : Handle) (bucketSize : UInt32) : Bool × Handle :=
  if h.channel.base.state ≠ .opened then h.resizeFailed .atInvalidState
  else
    let bucketSize := OticPack.effectiveSize bucketSize
    if ¬ (h.channel.pending.length < bucketSize.toNat ∧ 1024 < bucketSize) then
      h.resizeFailed .allocationFailure
    else
      let (_, parent) := h.parent.flusher
        (MetaType.chunkSize.toByte :: h.channel.channelId :: Bytes.ofUInt32 bucketSize)
      (true, ⟨parent, h.channel.resized bucketSize⟩)

/-- What a resize can do. -/
theorem Handle.resizeBucket_cases (h : Handle) (bucketSize : UInt32) :
    (∃ error, h.resizeBucket bucketSize = h.resizeFailed error) ∨
      h.resizeBucket bucketSize =
        (true, ⟨(h.parent.flusher (MetaType.chunkSize.toByte :: h.channel.channelId ::
            Bytes.ofUInt32 (OticPack.effectiveSize bucketSize))).2,
          h.channel.resized (OticPack.effectiveSize bucketSize)⟩) := by
  unfold Handle.resizeBucket
  split
  · exact Or.inl ⟨_, rfl⟩
  · dsimp only
    split
    · exact Or.inl ⟨_, rfl⟩
    · exact Or.inr rfl

/-- Calls one after the other, with the results of the injects. -/
def Handle.changes (zstd : Zstd) : Handle → List Change → List Bool × Handle
  | h, [] => ([], h)
  | h, .inject c :: changes =>
      let (ok, h) := c.inject zstd h
      let (oks, h) := h.changes zstd changes
      (ok :: oks, h)
  | h, .flush :: changes => (h.channelFlush zstd).2.changes zstd changes
  | h, .resize bucketSize :: changes => (h.resizeBucket bucketSize).2.changes zstd changes

/-- A resize that returns 1 leaves a bucket that is well formed: 512 bytes are free above
what is pending, and the compressor's block, which stays as it is, is large enough. -/
def Handle.Gentle (h : Handle) (ztdOut : Nat) (bucketSize : UInt32) : Prop :=
  (h.resizeBucket bucketSize).1 = true →
    h.channel.pending.length + OTIC_PACK_CACHE_TOP_LIMIT.toNat ≤
        (OticPack.effectiveSize bucketSize).toNat ∧
      (OticPack.effectiveSize bucketSize).toNat ≤ ztdOut

/-- All resizes of a run are gentle. -/
def GentleRun (zstd : Zstd) (ztdOut : Nat) : Handle → List Change → Prop
  | _, [] => True
  | h, .inject c :: changes => GentleRun zstd ztdOut (c.inject zstd h).2 changes
  | h, .flush :: changes => GentleRun zstd ztdOut (h.channelFlush zstd).2 changes
  | h, .resize bucketSize :: changes =>
      h.Gentle ztdOut bucketSize ∧ GentleRun zstd ztdOut (h.resizeBucket bucketSize).2 changes

/-- Every block of a run is compressed, the one of the close included. -/
def PackedChanges (zstd : Zstd) : Handle → List Change → Prop
  | h, [] => h.channel.Closable zstd
  | h, .inject c :: changes =>
      h.Packed zstd (c.inject zstd h).2 ∧ PackedChanges zstd (c.inject zstd h).2 changes
  | h, .flush :: changes =>
      h.Packed zstd (h.channelFlush zstd).2 ∧ PackedChanges zstd (h.channelFlush zstd).2 changes
  | h, .resize bucketSize :: changes => PackedChanges zstd (h.resizeBucket bucketSize).2 changes

instance decidablePackedChanges (zstd : Zstd) :
    ∀ (h : Handle) (changes : List Change), Decidable (PackedChanges zstd h changes)
  | h, [] => inferInstanceAs (Decidable (h.channel.Closable zstd))
  | h, .inject c :: changes =>
      have := decidablePackedChanges zstd (c.inject zstd h).2 changes
      inferInstanceAs (Decidable (h.Packed zstd (c.inject zstd h).2 ∧
        PackedChanges zstd (c.inject zstd h).2 changes))
  | h, .flush :: changes =>
      have := decidablePackedChanges zstd (h.channelFlush zstd).2 changes
      inferInstanceAs (Decidable (h.Packed zstd (h.channelFlush zstd).2 ∧
        PackedChanges zstd (h.channelFlush zstd).2 changes))
  | h, .resize bucketSize :: changes =>
      decidablePackedChanges zstd (h.resizeBucket bucketSize).2 changes

/-! ### Pointers and offsets -/

/-- **The resize on offsets** is the one on pointers, if the block stays where it is. -/
theorem Bucket.Holds.resizeBucket {b : Bucket} {h : Handle} (hb : b.Holds h.channel)
    (hparent : b.parent = h.parent) (hid : b.channelId = h.channel.channelId)
    (hstate : b.state = h.channel.base.state) (bucketSize : UInt32) (garbage : Nat → UInt8) :
    (b.resizeBucket bucketSize (some b.cache) garbage).1 = (h.resizeBucket bucketSize).1 ∧
      (b.resizeBucket bucketSize (some b.cache) garbage).2.parent =
        (h.resizeBucket bucketSize).2.parent ∧
      (h.Gentle b.ztdOut bucketSize → b.Placed →
        (b.resizeBucket bucketSize (some b.cache) garbage).2.Holds
          (h.resizeBucket bucketSize).2.channel) := by
  have hlength : h.channel.pending.length = b.top - b.cache := by
    rw [← hb.pending, Bucket.pending, List.length_map, List.length_range]
  have hlower := hb.lower
  have hoffset : ((b.top : Int) - b.cache <
      ((OticPack.effectiveSize bucketSize).toNat : Int)) ↔
        h.channel.pending.length < (OticPack.effectiveSize bucketSize).toNat := by omega
  by_cases hopened : h.channel.base.state = .opened
  · by_cases hchecked : h.channel.pending.length < (OticPack.effectiveSize bucketSize).toNat ∧
        1024 < OticPack.effectiveSize bucketSize
    · have hresized : h.resizeBucket bucketSize =
          (true, ⟨(h.parent.flusher (b.sizeFrame (OticPack.effectiveSize bucketSize))).2,
            h.channel.resized (OticPack.effectiveSize bucketSize)⟩) := by
        unfold Handle.resizeBucket
        rw [if_neg (not_not.mpr hopened)]
        dsimp only
        rw [if_neg (not_not.mpr hchecked), Bucket.sizeFrame, hid]
      have hok : (b.resizeBucket bucketSize (some b.cache) garbage).1 = true := by
        unfold Bucket.resizeBucket
        rw [if_neg (not_not.mpr (hstate.trans hopened))]
        dsimp only
        rw [if_neg (not_not.mpr ⟨hoffset.mpr hchecked.1, hchecked.2⟩)]
      obtain ⟨address, haddress, -, hout⟩ := Bucket.resizeBucket_true hok
      refine ⟨by rw [hok, hresized], ?_, fun hgentle hplaced => ?_⟩
      · rw [hout, hresized, hparent]
      · obtain ⟨hroom, hztdOut⟩ := hgentle (by rw [hresized])
        have hkept := ((Bucket.wellFormed_resizeBucket hplaced hok).mpr
          ⟨rfl, hztdOut, by rw [← hlength]; exact hroom⟩).2
        rw [hresized]
        exact hb.resized hok hkept
    · have hbad : b.resizeBucket bucketSize (some b.cache) garbage =
          (false, b.resizeFailed .allocationFailure) := by
        unfold Bucket.resizeBucket
        rw [if_neg (not_not.mpr (hstate.trans hopened))]
        dsimp only
        rw [if_pos fun hboth => hchecked ⟨hoffset.mp hboth.1, hboth.2⟩]
      have hbad' : h.resizeBucket bucketSize = h.resizeFailed .allocationFailure := by
        unfold Handle.resizeBucket
        rw [if_neg (not_not.mpr hopened)]
        dsimp only
        rw [if_pos hchecked]
      rw [hbad, hbad']
      refine ⟨rfl, ?_, fun _ _ => ⟨hb.lower, hb.pending, hb.threshold, hb.cacheSize⟩⟩
      rw [Bucket.resizeFailed, hparent]
      rfl
  · have hbad : b.resizeBucket bucketSize (some b.cache) garbage =
        (false, b.resizeFailed .atInvalidState) := by
      unfold Bucket.resizeBucket
      rw [if_pos fun hsame => hopened (hstate.symm.trans hsame)]
    have hbad' : h.resizeBucket bucketSize = h.resizeFailed .atInvalidState := by
      unfold Handle.resizeBucket
      rw [if_pos hopened]
    rw [hbad, hbad']
    refine ⟨rfl, ?_, fun _ _ => ⟨hb.lower, hb.pending, hb.threshold, hb.cacheSize⟩⟩
    rw [Bucket.resizeFailed, hparent]
    rfl

/-! ### What a channel sends -/

/-- What a channel hands over after its definition: a new size takes one frame. -/
def laterBytes (events : List Event) : List UInt8 :=
  events.flatMap fun e =>
    match e with
    | .define id _ bucketSize => MetaType.chunkSize.toByte :: id :: Bytes.ofUInt32 bucketSize
    | .data id block frame => (Event.data id block frame).bytes

theorem laterBytes_append (events events' : List Event) :
    laterBytes (events ++ events') = laterBytes events ++ laterBytes events' :=
  List.flatMap_append

theorem laterBytes_sent (id : UInt8) (sent : List Sent) :
    laterBytes (sent.map (Sent.event id)) = bytesOf (sent.map (Sent.event id)) := by
  induction sent with
  | nil => rfl
  | cons s sent ih =>
    rw [List.map_cons, bytesOf_cons, ← ih]
    rfl

/-- A channel that has sent some blocks and sizes since its definition. -/
structure Resizes (zstd : Zstd) (id : UInt8) (start : List UInt8) (first : List Event)
    (records : List Record) (h : Handle) (held : List Record) (events : List Event) : Prop where
  stream : Stream zstd (first ++ events)
  accepted : h.parent.accepted = start ++ laterBytes events
  content : recordsOf id (first ++ events) ++ held = records
  pending : h.channel.pending = encodeAll held
  roomy : h.channel.Roomy 0
  willing : Willing h.parent.answers
  size : sizeOf id (first ++ events) = some h.channel.base.cacheSize
  channelId : h.channel.channelId = id
  valid : ValidFrom 0 records
  counted : h.channel.encoder.Counted (namesAfter 0 records)

variable {zstd : Zstd} {id : UInt8} {start : List UInt8} {first events : List Event}
  {records held : List Record} {h : Handle}

/-- Whatever is written and sent in between. -/
theorem Resizes.sent (hr : Resizes zstd id start first records h held events)
    {written held' : List Record} {sent : List Sent} {h' : Handle}
    (hsends : Sends zstd h held written sent h' held') (hinside : h'.channel.overrun = false)
    (hvalid : ValidFrom 0 (records ++ written)) :
    Stream zstd (first ++ (events ++ sent.map (Sent.event id))) ∧
      h'.parent.accepted = start ++ laterBytes (events ++ sent.map (Sent.event id)) ∧
      recordsOf id (first ++ (events ++ sent.map (Sent.event id))) ++ held' =
        records ++ written := by
  have hall : recordsOf id (first ++ events) ++ sent.flatMap Sent.block ++ held' =
      records ++ written := by
    rw [List.append_assoc, ← hsends.content, ← List.append_assoc, hr.content]
  have hframes : ∀ s ∈ sent, zstd.compress h.channel.base.cacheSize.toNat (encodeAll s.block) =
      some s.frame ∧ (encodeAll s.block).length ≤ h.channel.base.cacheSize.toNat :=
    fun s hs => ⟨hsends.compressed s hs, (hsends.inside hinside).2 s hs⟩
  refine ⟨?_, ?_, ?_⟩
  · rw [← List.append_assoc]
    exact Stream.sent hr.stream hr.size sent hframes held' (by rw [hall]; exact hvalid)
  · rw [hsends.accepted, hr.accepted, hr.channelId, laterBytes_append, laterBytes_sent,
      List.append_assoc]
  · rw [← List.append_assoc, recordsOf_append, recordsOf_sent, if_pos rfl]
    exact hall

theorem Resizes.sends (hr : Resizes zstd id start first records h held events)
    {written held' : List Record} {sent : List Sent} {h' : Handle}
    (hsends : Sends zstd h held written sent h' held') (hroom : h'.channel.Roomy 0)
    (hvalid : ValidFrom 0 (records ++ written))
    (hcounted : h'.channel.encoder.Counted (namesAfter 0 (records ++ written))) :
    Resizes zstd id start first (records ++ written) h' held'
      (events ++ sent.map (Sent.event id)) := by
  have hcacheSize : h'.channel.base.cacheSize = h.channel.base.cacheSize :=
    congrArg Shape.cacheSize hsends.shape
  obtain ⟨hstream, haccepted, hcontent⟩ := hr.sent hsends hroom.inside hvalid
  refine ⟨hstream, haccepted, hcontent, hsends.pending, hroom, (hsends.willing hr.willing).1, ?_,
    (congrArg Shape.channelId hsends.shape).trans hr.channelId, hvalid, hcounted⟩
  rw [← List.append_assoc, sizeOf_sent, hcacheSize]
  exact hr.size

/-- A flush. -/
theorem Resizes.flush (hlossless : zstd.Lossless)
    (hr : Resizes zstd id start first records h held events)
    (hpacked : h.Packed zstd (h.channelFlush zstd).2) :
    (h.channelFlush zstd).2.channel.shape = h.channel.shape ∧
      (h.channelFlush zstd).2.channel.encoder = h.channel.encoder ∧ ∃ sent,
      Resizes zstd id start first records (h.channelFlush zstd).2 [] (events ++ sent) := by
  obtain ⟨ok, h₁, hflush, hencoder, hok, hsent⟩ := channelFlush_spec hlossless
    hr.pending hr.roomy.sound hr.willing.neverTorn
  obtain ⟨n, -, -, hiff, hempty⟩ := @fails_channelFlush zstd h
  rw [hflush] at hpacked hiff hempty ⊢
  have htrue := hok hr.willing.headD hpacked
  obtain ⟨frame, hsends⟩ : ∃ frame, Sends zstd h held [] [⟨held, frame⟩] h₁ [] := by
    rcases hsent with ⟨-, hsends⟩ | ⟨hfalse, -⟩
    · exact hsends
    · rw [htrue] at hfalse
      cases hfalse
  have hroom₁ : h₁.channel.Roomy 0 := by
    have hflushed := hempty (hiff.mp htrue)
    dsimp only at hflushed
    rw [hflushed]
    exact hr.roomy.flushed
  have hsent := hr.sends hsends hroom₁ (by rw [List.append_nil]; exact hr.valid)
    (by rw [List.append_nil, hencoder]; exact hr.counted)
  rw [List.append_nil] at hsent
  exact ⟨hsends.shape, hencoder, _, hsent⟩

/-- A resize. -/
theorem Resizes.resize (hr : Resizes zstd id start first records h held events)
    (channelType : UInt8) {ztdOut : Nat} {bucketSize : UInt32}
    (hgentle : h.Gentle ztdOut bucketSize) :
    (h.resizeBucket bucketSize).2.channel.encoder = h.channel.encoder ∧
    ((h.resizeBucket bucketSize).2.channel.threshold = h.channel.threshold ∨
      (h.resizeBucket bucketSize).2.channel.threshold + OTIC_PACK_CACHE_TOP_LIMIT.toNat =
        (OticPack.effectiveSize bucketSize).toNat) ∧ ∃ events',
      Resizes zstd id start first records (h.resizeBucket bucketSize).2 held
        (events ++ events') := by
  rcases h.resizeBucket_cases bucketSize with ⟨error, hfailed⟩ | hresized
  · rw [hfailed]
    refine ⟨rfl, Or.inl rfl, [], ?_⟩
    rw [List.append_nil]
    exact ⟨hr.stream, hr.accepted, hr.content, hr.pending, hr.roomy, hr.willing, hr.size,
      hr.channelId, hr.valid, hr.counted⟩
  · obtain ⟨hroom, -⟩ := hgentle (by rw [hresized])
    have hthreshold : (OticPack.effectiveSize bucketSize).toNat -
        OTIC_PACK_CACHE_TOP_LIMIT.toNat + OTIC_PACK_CACHE_TOP_LIMIT.toNat =
          (OticPack.effectiveSize bucketSize).toNat := by omega
    rw [hresized]
    refine ⟨rfl, Or.inr hthreshold,
      [.define id channelType (OticPack.effectiveSize bucketSize)], ?_⟩
    refine ⟨?_, ?_, ?_, hr.pending, ⟨hr.roomy.inside, hthreshold, ?_⟩, hr.willing.tail, ?_,
      hr.channelId, hr.valid, hr.counted⟩
    · rw [← List.append_assoc]
      exact hr.stream.define id channelType _
    · simp only [Parent.flusher, hr.willing.headD, if_true]
      rw [hr.accepted, hr.channelId, laterBytes_append, List.append_assoc]
      simp [laterBytes]
    · rw [← List.append_assoc, recordsOf_append]
      change recordsOf id (first ++ events) ++ [] ++ held = records
      rw [List.append_nil]
      exact hr.content
    · change h.channel.pending.length ≤ (OticPack.effectiveSize bucketSize).toNat -
        OTIC_PACK_CACHE_TOP_LIMIT.toNat + 0
      omega
    · rw [← List.append_assoc, sizeOf_concat_define, if_pos rfl]
      rfl

/-- **Any calls on a channel**, resizes included, by induction: the results are those of
the encoder, and what was written is what was sent and what is held back. -/
theorem Resizes.changes (hlossless : zstd.Lossless) (channelType : UInt8)
    {ztdOut limit : Nat} {changes : List Change} : ∀ {records held : List Record}
    {events : List Event} {h : Handle}, Resizes zstd id start first records h held events →
      GentleRun zstd ztdOut h changes → PackedChanges zstd h changes →
      limit ≤ h.channel.threshold →
      (∀ c ∈ injectedBy changes, c.value.textSize ≤ limit) →
      (∀ bucketSize, .resize bucketSize ∈ changes →
        limit + OTIC_PACK_CACHE_TOP_LIMIT.toNat ≤ (OticPack.effectiveSize bucketSize).toNat) →
      let out := h.channel.encoder.run limit (injectedBy changes)
      (h.changes zstd changes).1 = out.oks ∧
        (h.changes zstd changes).2.channel.encoder = out.encoder ∧
        (h.changes zstd changes).2.channel.Closable zstd ∧ ∃ held' events',
          Resizes zstd id start first (records ++ out.records) (h.changes zstd changes).2 held'
            (events ++ events') := by
  induction changes with
  | nil =>
    intro records held events h hr _ hclosable _ _ _
    refine ⟨rfl, rfl, hclosable, held, [], ?_⟩
    simpa [injectedBy, Handle.changes] using hr
  | cons change changes ih =>
    intro records held events h hr hgentle hpacked hlimit htext hsizes
    have hsizes' : ∀ bucketSize, .resize bucketSize ∈ changes →
        limit + OTIC_PACK_CACHE_TOP_LIMIT.toNat ≤ (OticPack.effectiveSize bucketSize).toNat :=
      fun bucketSize hmem => hsizes bucketSize (List.mem_cons_of_mem _ hmem)
    cases change with
    | inject c =>
      obtain ⟨ok, h₁, hcall, hok, hencoder, sent, held₁, hsends⟩ :=
        inject_spec_willing hlossless hr.pending hr.roomy.sound hr.willing c hpacked.1
      have hroom₁ : h₁.channel.Roomy 0 := by
        have hroom := @roomy_inject zstd h c hr.roomy
        have hfirst := hpacked.1
        rw [hcall] at hroom hfirst
        exact hroom (hsends.steady hr.willing hfirst)
      have hthreshold : h₁.channel.threshold = h.channel.threshold :=
        congrArg Shape.threshold hsends.shape
      have hc := htext c List.mem_cons_self
      -- the text fits both limits
      have hsame : h.channel.encoder.inject h.channel.threshold c =
          h.channel.encoder.inject limit c := by
        simp only [Encoder.inject, if_neg (Nat.not_lt.mpr hc),
          if_neg (Nat.not_lt.mpr (hc.trans hlimit))]
      rw [hsame] at hok hencoder hsends
      obtain ⟨hcounted, hvalid⟩ := hr.counted.inject limit c
      have hr₁ := hr.sends hsends hroom₁
        ((validFrom_append _ _ _).mpr ⟨hr.valid, hvalid⟩)
        (by rw [namesAfter_append, hencoder]; exact hcounted)
      have hgentle₁ : GentleRun zstd ztdOut h₁ changes := by
        have hrun : GentleRun zstd ztdOut (c.inject zstd h).2 changes := hgentle
        rwa [hcall] at hrun
      have hpacked₁ : PackedChanges zstd h₁ changes := by
        have hrun := hpacked.2
        rwa [hcall] at hrun
      obtain ⟨hoks, hencoder', hclosable, held', events', hr'⟩ := ih hr₁ hgentle₁ hpacked₁
        (by rw [hthreshold]; exact hlimit) (fun d hd => htext d (List.mem_cons_of_mem _ hd)) hsizes'
      have hchanges : h.changes zstd (.inject c :: changes) =
          (ok :: (h₁.changes zstd changes).1, (h₁.changes zstd changes).2) := by
        simp only [Handle.changes, hcall]
      rw [hencoder] at hoks hencoder' hr'
      rw [hchanges]
      refine ⟨?_, hencoder', hclosable, held', sent.map (Sent.event id) ++ events', ?_⟩
      · change ok :: (h₁.changes zstd changes).1 = _
        rw [hoks, hok]
        rfl
      · rw [List.append_assoc, List.append_assoc] at hr'
        exact hr'
    | flush =>
      obtain ⟨hshape, hencoder, sent, hr₁⟩ := hr.flush hlossless hpacked.1
      obtain ⟨hoks, hencoder', hclosable, held', events', hr'⟩ := ih hr₁ hgentle hpacked.2
        (by rw [show (h.channelFlush zstd).2.channel.threshold = h.channel.threshold from
          congrArg Shape.threshold hshape]; exact hlimit) htext hsizes'
      rw [hencoder] at hoks hencoder' hr'
      rw [List.append_assoc] at hr'
      exact ⟨hoks, hencoder', hclosable, held', sent ++ events', hr'⟩
    | resize bucketSize =>
      obtain ⟨hencoder, hthreshold, sent, hr₁⟩ := hr.resize channelType hgentle.1
      have hsize := hsizes bucketSize List.mem_cons_self
      obtain ⟨hoks, hencoder', hclosable, held', events', hr'⟩ := ih hr₁ hgentle.2 hpacked
        (by rcases hthreshold with hthreshold | hthreshold <;> omega) htext hsizes'
      rw [hencoder] at hoks hencoder' hr'
      rw [List.append_assoc] at hr'
      exact ⟨hoks, hencoder', hclosable, held', sent ++ events', hr'⟩

end Pack

variable {zstd : Zstd} {select : List UInt8} {first events : List Event} {rest : List UInt8}
  {u : OticUnpack}

/-- **The reader goes through** what a channel hands over after its definition. -/
theorem parse_later (hlossless : zstd.Lossless) (hstream : Stream zstd (first ++ events))
    (h : Reads select first (laterBytes events ++ rest) u) :
    ∃ u', Loop.Goes (parse zstd) u u' ∧ Reads select (first ++ events) rest u' := by
  induction events using List.reverseRecOn generalizing rest with
  | nil =>
    rw [List.append_nil]
    exact ⟨u, .refl u, h⟩
  | append_singleton events e ih =>
    rw [← List.append_assoc] at hstream
    obtain ⟨hbefore, hsound⟩ := hstream.of_concat
    rw [laterBytes_append, List.append_assoc] at h
    obtain ⟨u₁, hgoes, h₁⟩ := ih hbefore h
    rw [← List.append_assoc]
    cases e with
    | define id channelType bucketSize =>
      obtain ⟨u₂, hparse, h₂⟩ := @parse_chunkSize zstd _ _ _ _ _ channelType _
        (by simpa [laterBytes] using h₁)
      exact ⟨u₂, hgoes.trans (.single hparse), h₂⟩
    | data id block frame =>
      obtain ⟨u₂, hparse, h₂⟩ := parse_data hlossless (hsound id block frame rfl)
        (by simpa [laterBytes] using h₁)
      exact ⟨u₂, hgoes.trans (.single hparse), h₂⟩

/-! ### A file with one channel -/

/-- A channel that is defined in a new file, before the first call on it. -/
def opened (features channelType id : UInt8) (bufferSize : UInt32) : Handle :=
  ⟨(defined features channelType id bufferSize).parent,
    Pack.Channel.init id channelType (OticPack.effectiveSize bufferSize)⟩

/-- The results of the injects, and the channel when it has been closed. -/
def resizedChannel (zstd : Zstd) (features channelType id : UInt8) (bufferSize : UInt32)
    (changes : List Change) : List Bool × Handle :=
  let (oks, h) := (opened features channelType id bufferSize).changes zstd changes
  (oks, h.finish zstd)

variable {features channelType id : UInt8} {bufferSize : UInt32} {changes : List Change}
  {limit : Nat}

/-- The results of an encoder tell what it accepts. -/
theorem accepted_opened (hid : id ≠ 0) :
    (opened features channelType id bufferSize).parent.accepted =
        fileHeader features ++
          bytesOf [.define id channelType (OticPack.effectiveSize bufferSize)] ∧
      (opened features channelType id bufferSize).parent.answers = [] := by
  unfold opened defined OticPack.defineChannel
  rw [if_neg (by simp [OticPack.init, OticPack.hear]), if_neg hid,
    if_neg (by simp [OticPack.init, OticPack.hear])]
  exact ⟨rfl, rfl⟩

theorem resizes_opened (features channelType : UInt8) (hid : id ≠ 0)
    (hsize : OTIC_PACK_CACHE_TOP_LIMIT ≤ OticPack.effectiveSize bufferSize) :
    let first := [Event.define id channelType (OticPack.effectiveSize bufferSize)]
    Resizes zstd id (fileHeader features ++ bytesOf first) first []
      (opened features channelType id bufferSize) [] [] := by
  intro first
  obtain ⟨haccepted, hanswers⟩ := @accepted_opened features channelType id bufferSize hid
  refine ⟨Stream.nil.define id channelType _, ?_, rfl, rfl,
    Pack.Channel.roomy_init id channelType hsize, ?_, ?_, rfl, trivial, Encoder.counted_init⟩
  · rw [haccepted, laterBytes, List.flatMap_nil, List.append_nil]
  · rw [hanswers]
    exact fun _ h => by cases h
  · simp [first, sizeOf, opened, Pack.Channel.init, Base.init]

/-- **The channel to its close**, and what is read of it. -/
theorem reads_resizedChannel (hlossless : zstd.Lossless) (hid : id ≠ 0)
    (hsize : OTIC_PACK_CACHE_TOP_LIMIT ≤ OticPack.effectiveSize bufferSize)
    (hlimit : limit ≤ (OticPack.effectiveSize bufferSize - OTIC_PACK_CACHE_TOP_LIMIT).toNat)
    (hsizes : ∀ bucketSize, .resize bucketSize ∈ changes →
      limit + OTIC_PACK_CACHE_TOP_LIMIT.toNat ≤ (OticPack.effectiveSize bucketSize).toNat)
    (htext : ∀ c ∈ injectedBy changes, c.value.textSize ≤ limit)
    (hgentle : GentleRun zstd (OticPack.effectiveSize bufferSize).toNat
      (opened features channelType id bufferSize) changes)
    (hpacked : PackedChanges zstd (opened features channelType id bufferSize) changes)
    (seeker : Bool) :
    let life := resizedChannel zstd features channelType id bufferSize changes
    let out := Encoder.init.run limit (injectedBy changes)
    life.1 = out.oks ∧ life.2.channel.overrun = false ∧
      ∃ u, readFile zstd seeker [id] life.2.parent.accepted = .ok u ∧
        u.calls.map Prod.snd = (View.init.applyAll out.closed).rows := by
  intro life out
  obtain ⟨hoks, hencoder, hclosable, held, events, hr⟩ :=
    (resizes_opened features channelType hid hsize).changes hlossless channelType hgentle hpacked
      hlimit htext hsizes
  rw [List.nil_append, List.nil_append] at hr
  obtain ⟨frame, hlast⟩ := finish_spec hlossless hr.pending hr.willing hclosable
  have hinside := @inside_finish zstd _ hr.roomy
  have hcount : ((opened features channelType id bufferSize).changes zstd
      changes).2.channel.base.rowCounter = out.encoder.rowCounter :=
    congrArg Encoder.rowCounter hencoder
  rw [hcount] at hlast
  obtain ⟨hstream, haccepted, hcontent⟩ := hr.sent hlast hinside
    ((validFrom_append _ _ _).mpr ⟨hr.valid, fun _ hnone => (by cases hnone), trivial⟩)
  refine ⟨hoks, hinside, ?_⟩
  -- the definition, and then what is behind it
  obtain ⟨u₀, hstart, h₀⟩ := start_reads Unpack.Channel.Allocated seeker (List.nodup_singleton id)
    features _ fun _ _ hnone => nomatch hnone
  obtain ⟨u₁, hgoes₁, h₁⟩ := parse_stream hlossless (Stream.nil.define id channelType _) h₀
  obtain ⟨u₂, hgoes₂, h₂⟩ := parse_later hlossless hstream (by rw [List.append_nil]; exact h₁)
  have hrun := (hgoes₁.trans hgoes₂).run h₂.stop (fun u => u.input.length)
    (fun _ _ => length_input_of_parse) (u₀.input.length + 1) (Nat.lt_succ_self _)
  refine ⟨u₂, ?_, ?_⟩
  · change readFile zstd seeker [id] (Handle.finish zstd _).parent.accepted = _
    rw [List.nil_append] at hstart
    rw [readFile, haccepted, List.append_assoc, hstart, Exec.ok_bind, parseAll, hrun]
    rfl
  · rw [List.append_nil] at hcontent
    rw [← rowsOf_of_forall fun call hcall => by
      rw [h₂.calls] at hcall
      exact List.mem_singleton.mp (mem_select_of_reading hcall), h₂.calls,
      rowsOf_reading List.mem_cons_self, hcontent]
    rfl

/-- **Resizes are invisible.** -/
theorem resizes_invisible (hlossless : zstd.Lossless) (hid : id ≠ 0)
    (hsize : limit + OTIC_PACK_CACHE_TOP_LIMIT.toNat ≤ (OticPack.effectiveSize bufferSize).toNat)
    (hsizes : ∀ bucketSize, .resize bucketSize ∈ changes →
      limit + OTIC_PACK_CACHE_TOP_LIMIT.toNat ≤ (OticPack.effectiveSize bucketSize).toNat)
    (htext : ∀ c ∈ injectedBy changes, c.value.textSize ≤ limit)
    (hgentle : GentleRun zstd (OticPack.effectiveSize bufferSize).toNat
      (opened features channelType id bufferSize) changes)
    (hpacked : PackedChanges zstd (opened features channelType id bufferSize) changes)
    (hunresized :
      (singleChannel features channelType id bufferSize (injectedBy changes)).Packed zstd)
    (seeker : Bool) :
    let life := resizedChannel zstd features channelType id bufferSize changes
    ∃ w u u', (singleChannel features channelType id bufferSize (injectedBy changes)).write zstd =
        some w ∧ readFile zstd seeker [id] w.accepted = .ok u ∧
      life.2.channel.overrun = false ∧
      readFile zstd seeker [id] life.2.parent.accepted = .ok u' ∧
      acceptedCalls (injectedBy changes) life.1 =
        acceptedCalls (injectedBy changes) w.oks.tail ∧
      u'.calls.map Prod.snd = u.calls.map Prod.snd := by
  intro life
  have hroom : OTIC_PACK_CACHE_TOP_LIMIT ≤ OticPack.effectiveSize bufferSize :=
    UInt32.le_iff_toNat_le.mpr (by omega)
  have hlimit : limit ≤ (OticPack.effectiveSize bufferSize - OTIC_PACK_CACHE_TOP_LIMIT).toNat := by
    rw [UInt32.toNat_sub_of_le _ _ hroom]
    omega
  obtain ⟨oks, pack, -, -, hw⟩ := @write_singleChannel zstd features channelType id bufferSize hid
    (injectedBy changes)
  obtain ⟨u, hread, haccepted, hrows⟩ := reads_singleChannel hlossless hid hunresized hw
    (inside_singleChannel hlossless hunresized hroom hw) seeker rfl
  obtain ⟨hoks, hinside, u', hread', hrows'⟩ := @reads_resizedChannel zstd features channelType id
    bufferSize changes limit hlossless hid hroom hlimit hsizes htext hgentle hpacked seeker
  -- both limits let all texts through
  have hsame := Encoder.run_limit htext (fun c hc => (htext c hc).trans hlimit) Encoder.init
  refine ⟨_, u, u', hw, hread, hinside, hread', ?_, ?_⟩
  · rw [haccepted, hoks, hsame, acceptedCalls_oks]
  · rw [hrows, hrows', hsame]

/-- A row, a smaller bucket, the row again, a flush, the first size again, another row. -/
def sampleChanges : List Change :=
  let tick : Tick := ⟨7, seven_lt_TS_NULL⟩
  [.inject (sampleCall tick 5), .resize 2048, .inject (sampleCall tick 5), .flush, .resize 4096,
    .inject (sampleCall tick 6)]

theorem resizes_invisible_sample :
    let life := resizedChannel Zstd.stored 0 0 1 4096 sampleChanges
    ∃ w u u', (singleChannel 0 0 1 4096 (injectedBy sampleChanges)).write Zstd.stored = some w ∧
      readFile Zstd.stored true [1] w.accepted = .ok u ∧ life.2.channel.overrun = false ∧
      readFile Zstd.stored true [1] life.2.parent.accepted = .ok u' ∧
      acceptedCalls (injectedBy sampleChanges) life.1 =
        acceptedCalls (injectedBy sampleChanges) w.oks.tail ∧
      u'.calls.map Prod.snd = u.calls.map Prod.snd := by
  apply @resizes_invisible Zstd.stored 0 0 1 4096 sampleChanges 1000 Zstd.stored_lossless
    (by decide) (by decide)
  · intro bucketSize hmem
    simp only [sampleChanges, List.mem_cons, List.not_mem_nil, reduceCtorEq, Change.resize.injEq,
      false_or, or_false] at hmem
    rcases hmem with rfl | rfl
    · decide
    · decide
  · intro c hc
    simp only [sampleChanges, injectedBy, List.filterMap_cons, List.filterMap_nil, List.mem_cons,
      List.not_mem_nil, or_false] at hc
    rcases hc with rfl | rfl | rfl
    all_goals exact Nat.zero_le _
  · exact ⟨fun _ => ⟨by decide, by decide⟩, fun _ => ⟨by decide, by decide⟩, trivial⟩
  · decide +kernel
  · exact ⟨by decide +kernel, by decide +kernel⟩

end Otic
