import Otic.Stored
import Otic.System.Delivery
import Otic.Unpack.Generate

/-!
# The two readers

`otic_unpack_parse` and `otic_unpack_generate` are called until they return 0, on what
the flusher took during a session.  If the blocks of the selected channels can be read
by lines, they call the callbacks alike exactly if there is no row behind the first end
mark (`readersAgree_iff`).
-/

namespace Otic

open Pack Unpack

/-- Both readers go through, and have made the same calls in the same order. -/
def ReadersAgree (zstd : Zstd) (seeker : Bool) (select : List UInt8) (input : List UInt8) : Prop :=
  ∃ u v u', OticUnpack.start seeker select input = .ok u ∧ u.parseAll zstd = .ok v ∧
    GeneratesTo zstd u u' ∧ u'.calls = v.calls

variable {zstd : Zstd} {s : Session} {w : Written} {events : List Event} {select : List UInt8}

theorem readersAgree_of_stream (hlossless : zstd.Lossless) (hstream : Stream zstd events)
    (hreadable : Readable select events) (hselect : select.Nodup) (seeker : Bool)
    (features : UInt8) :
    ReadersAgree zstd seeker select (fileHeader features ++ bytesOf events) ↔
      ∀ r ∈ unheard select events, r.index? = none := by
  obtain ⟨u, v, hstart, -, hparse, hreads⟩ :=
    parse_file hlossless hstream seeker hselect features
  obtain ⟨u₀, u', hstart', hgenerates, hheard⟩ :=
    generate_file hlossless hstream hreadable seeker hselect features
  rw [hstart, Except.ok.injEq] at hstart'
  subst hstart'
  rw [← calls_heard_iff (validFor_of_stream hstream select), ← hheard, ← hreads.calls]
  constructor
  · rintro ⟨u₁, v₁, u₁', hstart₁, hparse₁, hgenerates₁, hcalls⟩
    rw [hstart, Except.ok.injEq] at hstart₁
    subst hstart₁
    rw [hparse, Except.ok.injEq] at hparse₁
    subst hparse₁
    rw [hgenerates.unique hgenerates₁]
    exact hcalls
  · intro hcalls
    exact ⟨u, v, u', hstart, hparse, hgenerates, hcalls⟩

/-- **The two readers** on what a session leaves.  With a flusher and a compressor that are
careful it is a stream; and where a stream can be read by lines, they agree exactly if no row
of a selected channel is behind the first end mark of one. -/
theorem readersAgree_iff (hlossless : zstd.Lossless) (hw : s.write zstd = some w)
    (hselect : select.Nodup) (seeker : Bool) :
    (Willing s.opening → Willing s.closing →
      CarefulRun zstd (OticPack.init s.features s.opening) s.steps → s.Closable zstd →
      w.overran = false →
        ∃ events, Stream zstd events ∧ w.accepted = fileHeader s.features ++ bytesOf events) ∧
      ∀ events, Stream zstd events → w.accepted = fileHeader s.features ++ bytesOf events →
        Readable select events →
          (ReadersAgree zstd seeker select w.accepted ↔
            ∀ r ∈ unheard select events, r.index? = none) := by
  constructor
  · intro hopening hclosing hcareful hclosable hinside
    obtain ⟨events, hleaves⟩ :=
      Session.leaves hlossless hopening hclosing hcareful hclosable hw hinside
    exact ⟨events, hleaves.stream, hleaves.accepted⟩
  · intro events hstream haccepted hreadable
    rw [haccepted]
    exact readersAgree_of_stream hlossless hstream hreadable hselect seeker s.features

/-- Some channels are defined, and each gets the number 5 for a sensor `"a"` at tick 7. -/
def rowEach (ids : List UInt8) : Session where
  features := 0
  opening := []
  steps := ids.map (fun id => ⟨.define OTIC_CHANNEL_TYPE_SENSOR id 0, []⟩) ++ ids.map fun id =>
    ⟨.inject id ⟨⟨7, seven_lt_TS_NULL⟩, ⟨[0x61], notMem_a, sized_a⟩, none, .intPos 5, []⟩, []⟩
  closing := []

/-- The block of each channel. -/
def rowBlock : List Record :=
  [.setTimestamp 7, .nameAssign ⟨⟨[0x61], notMem_a, sized_a⟩, [], by decide⟩,
    .smallInt ⟨5, by decide⟩ 0, .eof 1]

/-- What the session leaves: the channel defined last is closed first. -/
def rowEvents (ids : List UInt8) : List Event :=
  ids.map (fun id => .define id OTIC_CHANNEL_TYPE_SENSOR (OticPack.effectiveSize 0)) ++
    ids.reverse.map fun id => .data id rowBlock (Zstd.storedFrame (encodeAll rowBlock))

/-- The block may follow wherever its channel was defined and has no block yet. -/
theorem stream_rowBlock {events : List Event} (hstream : Stream Zstd.stored events) {id : UInt8}
    (hsize : sizeOf id events = some (OticPack.effectiveSize 0))
    (hrecords : recordsOf id events = []) :
    Stream Zstd.stored (events ++ [.data id rowBlock (Zstd.storedFrame (encodeAll rowBlock))]) := by
  refine .data hstream ⟨⟨_, hsize, rfl, by decide⟩, ?_⟩
  rw [hrecords]
  decide

theorem readable_rowEvents (ids select : List UInt8) : Readable select (rowEvents ids) := by
  intro id block frame hmem _
  have hblock : block = rowBlock := by
    rcases List.mem_append.mp hmem with hmem | hmem
    · obtain ⟨id', -, hsame⟩ := List.mem_map.mp hmem
      cases hsame
    · obtain ⟨id', -, hsame⟩ := List.mem_map.mp hmem
      cases hsame
      rfl
  subst hblock
  decide

/-- With one channel there is nothing behind the end mark. -/
theorem readersAgree_iff_rowEach :
    ∃ w, (rowEach [1]).write Zstd.stored = some w ∧
      (∃ events, Stream Zstd.stored events ∧ w.accepted = fileHeader 0 ++ bytesOf events) ∧
        ReadersAgree Zstd.stored false [1] w.accepted := by
  have hpacked : PackedRun Zstd.stored (OticPack.init 0 []) (rowEach [1]).steps := by
    decide +kernel
  have hcareful := careful_of_packed hpacked (by decide)
  have hstream : Stream Zstd.stored (rowEvents [1]) :=
    stream_rowBlock (.define 1 OTIC_CHANNEL_TYPE_SENSOR (OticPack.effectiveSize 0) .nil) rfl rfl
  obtain ⟨w, hw, haccepted, hinside⟩ : ∃ w, (rowEach [1]).write Zstd.stored = some w ∧
      w.accepted = fileHeader 0 ++ bytesOf (rowEvents [1]) ∧ w.overran = false :=
    ⟨_, rfl, rfl, rfl⟩
  obtain ⟨hleaves, hagree⟩ := readersAgree_iff Zstd.stored_lossless hw
    (List.nodup_singleton 1) false
  refine ⟨w, hw, hleaves (by decide) (by decide) hcareful (by decide +kernel) hinside, ?_⟩
  apply (hagree (rowEvents [1]) hstream haccepted (readable_rowEvents [1] [1])).mpr
  decide

/-- With two channels the row of the one that is closed last is not generated. -/
theorem not_readersAgree_rowEach :
    ∃ w, (rowEach [1, 2]).write Zstd.stored = some w ∧
      ¬ ReadersAgree Zstd.stored false [1, 2] w.accepted := by
  have hdefined : Stream Zstd.stored
      [.define 1 OTIC_CHANNEL_TYPE_SENSOR (OticPack.effectiveSize 0),
        .define 2 OTIC_CHANNEL_TYPE_SENSOR (OticPack.effectiveSize 0)] :=
    .define 2 _ _ (.define 1 _ _ .nil)
  have hstream : Stream Zstd.stored (rowEvents [1, 2]) :=
    stream_rowBlock (stream_rowBlock hdefined rfl rfl) rfl rfl
  refine ⟨_, rfl, ?_⟩
  change ¬ ReadersAgree Zstd.stored false [1, 2] (fileHeader 0 ++ bytesOf (rowEvents [1, 2]))
  rw [readersAgree_of_stream Zstd.stored_lossless hstream (readable_rowEvents [1, 2] [1, 2])
    (by decide)]
  decide

end Otic
