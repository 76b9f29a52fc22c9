import Otic.Unpack.Lines
import Otic.Unpack.Stream

/-!
# Reading a stream with `otic_unpack_generate`

A call returns 1 after a line, at the end of a block, for a channel type and for the
size of a channel that was not selected; all other frames are passed within a call.  The
sizes announced reach `base.cache` only, so that a block is decompressed into what
`base.cacheSize` was at first (`Unresized`).  `generate_stream` says what has been
delivered when a call returns 0 for the first time: what is heard of the stream.
-/

namespace Otic.Unpack

open OticUnpack

variable {zstd : Zstd} {u u' w : OticUnpack} {select : List UInt8} {events : List Event}
  {rest : List UInt8}

/-! ### Calls until one returns 0 -/

/-- `otic_unpack_generate` is called until it returns 0. -/
def GeneratesTo (zstd : Zstd) (u u' : OticUnpack) : Prop :=
  ∃ w, Loop.Goes (generate zstd) u w ∧ w.generate zstd = .ok (false, u')

theorem GeneratesTo.unique (h : GeneratesTo zstd u u') (h' : GeneratesTo zstd u w) : u' = w := by
  obtain ⟨v, hgoes, hstop⟩ := h
  obtain ⟨v', hgoes', hstop'⟩ := h'
  rcases hgoes.continues hstop hgoes' with rfl | ⟨v'', hgo⟩
  · rw [hstop] at hstop'
    cases hstop'
    rfl
  · rw [hstop'] at hgo
    cases hgo

/-- Between two lines a call can as well begin behind a frame it passes. -/
inductive Proceeds (zstd : Zstd) : OticUnpack → OticUnpack → Prop
  | refl (u : OticUnpack) : Proceeds zstd u u
  | frame {u w u' : OticUnpack} (hcurrent : u.current = none) (hcurrent' : w.current = none)
      (hnext : u.nextFrame zstd = .ok (none, w)) (hlater : Proceeds zstd w u') : Proceeds zstd u u'
  | call {u w u' : OticUnpack} (hcall : u.generate zstd = .ok (true, w))
      (hlater : Proceeds zstd w u') : Proceeds zstd u u'

theorem Proceeds.trans (h : Proceeds zstd u w) (h' : Proceeds zstd w u') : Proceeds zstd u u' := by
  induction h with
  | refl => exact h'
  | frame hcurrent hcurrent' hnext _ ih => exact .frame hcurrent hcurrent' hnext (ih h')
  | call hcall _ ih => exact .call hcall (ih h')

theorem generate_of_current (hcurrent : u.current = none) : u.generate zstd = u.getNext zstd := by
  rw [generate, hcurrent]
  rfl

theorem generate_of_frame (hcurrent : u.current = none) (hcurrent' : w.current = none)
    (hnext : u.nextFrame zstd = .ok (none, w)) {result : Bool}
    (hcall : w.generate zstd = .ok (result, u')) : u.generate zstd = .ok (result, u') := by
  rw [generate_of_current hcurrent'] at hcall
  rw [generate_of_current hcurrent]
  obtain ⟨v, hframes, hlast⟩ := getNext_eq_ok hcall
  exact getNext_of_frames (hframes.head hnext) hlast

theorem Proceeds.generates (h : Proceeds zstd u w) (h' : GeneratesTo zstd w u') :
    GeneratesTo zstd u u' := by
  induction h with
  | refl => exact h'
  | frame hcurrent hcurrent' hnext _ ih =>
    obtain ⟨v, hgoes, hstop⟩ := ih h'
    cases hgoes with
    | refl => exact ⟨_, .refl _, generate_of_frame hcurrent hcurrent' hnext hstop⟩
    | step hcall hgoes =>
      exact ⟨v, .step (generate_of_frame hcurrent hcurrent' hnext hcall) hgoes, hstop⟩
  | call hcall _ ih =>
    obtain ⟨v, hgoes, hstop⟩ := ih h'
    exact ⟨v, .step hcall hgoes, hstop⟩

/-! ### Definitions -/

/-- Only the cache has the size last announced. -/
def Channel.Unresized (size : Option UInt32) (ch : Channel) : Prop :=
  ch.base.cacheSize = OTIC_BASE_CACHE_SIZE ∧ ch.outAlloc = OTIC_UNPACK_OUT_SIZE ∧
    ∀ n, size = some n → ch.cacheAlloc = n.toNat

/-- A reader that has generated some events. -/
abbrev Generated : List UInt8 → List Event → List UInt8 → OticUnpack → Prop :=
  ReadsAs Channel.Unresized

theorem nextFrame_channelDefine {id : UInt8}
    (h : Generated select events (MetaType.channelDefine.toByte :: id :: rest) u) :
    ∃ u', u.nextFrame zstd = .ok (none, u') ∧ Generated select events rest u' := by
  have hhead := fetch_head h.input
  refine ⟨_, ?_, @ReadsAs.alter _ _ _ _ _ h rest id
    (fun ch => { ch with base := { ch.base with state := .opened } })
    (fun ch => ⟨rfl, fun hwf => ⟨hwf.slots, hwf.total⟩, rfl, rfl⟩) fun _ _ hsize => hsize⟩
  rw [nextFrame, hhead]
  rfl

theorem nextFrame_channelType {id channelType : UInt8}
    (h : Generated select events (MetaType.channelType.toByte :: id :: channelType :: rest) u) :
    ∃ u', u.nextFrame zstd = .ok (some true, u') ∧ Generated select events rest u' := by
  have hhead := fetch_head h.input
  have hread : { u with input := channelType :: rest }.fetch 1 =
      some ([channelType], { u with input := rest }) := fetch_append [_] rfl rfl
  refine ⟨_, ?_, @ReadsAs.alter _ _ _ _ _ h rest id
    (fun ch => { ch with channelType := channelType })
    (fun ch => ⟨rfl, fun hwf => ⟨hwf.slots, hwf.total⟩, rfl, rfl⟩) fun _ _ hsize => hsize⟩
  rw [nextFrame, hhead]
  simp only [MetaType.ofByte?_toByte, hread]
  rfl

theorem nextFrame_compressionMethod {id value : UInt8}
    (h : Generated select events (MetaType.compressionMethod.toByte :: id :: value :: rest) u) :
    ∃ u', u.nextFrame zstd = .ok (none, u') ∧ Generated select events rest u' := by
  have hhead := fetch_head h.input
  have hread : { u with input := value :: rest }.fetch 1 =
      some ([value], { u with input := rest }) := fetch_append [_] rfl rfl
  refine ⟨{ u with input := rest }, ?_, { h with input := rfl }⟩
  rw [nextFrame, hhead]
  simp only [MetaType.ofByte?_toByte, hread]

/-- The size is the last frame of a definition; the call returns if the channel was not
selected. -/
theorem nextFrame_chunkSize {id channelType : UInt8} {bucketSize : UInt32}
    (h : Generated select events
      (MetaType.chunkSize.toByte :: id :: (Bytes.ofUInt32 bucketSize ++ rest)) u) :
    ∃ result u', u.nextFrame zstd = .ok (result, u') ∧ (result = none ∨ result = some true) ∧
      Generated select (events ++ [.define id channelType bucketSize]) rest u' := by
  have hhead := fetch_head h.input
  have hread : { u with input := Bytes.ofUInt32 bucketSize ++ rest }.fetch 4 =
      some (Bytes.ofUInt32 bucketSize, { u with input := rest }) :=
    fetch_append _ rfl (Bytes.length_ofUInt32 bucketSize)
  have hrecords : ∀ id', recordsOf id' (events ++ [.define id channelType bucketSize]) =
      recordsOf id' events := by
    intro id'
    rw [recordsOf_append]
    exact List.append_nil _
  have hcalls :
      u.calls = (reading select (events ++ [.define id channelType bucketSize])).calls := by
    rw [reading_concat]
    exact h.calls
  by_cases hid : id ∈ select
  · obtain ⟨found, -, hfind, -⟩ := h.find hid
    have hfind' : { u with input := rest }.findChannel id = some found := hfind
    refine ⟨none, _, ?_, Or.inl rfl, h.modify rest _ id (fun ch =>
      { ch with cacheAlloc := bucketSize.toNat, cached := [] }) (fun ch hch => hch) ?_
      (fun ch hch hholds => hholds.otherDefine hch channelType bucketSize) hcalls⟩
    · rw [nextFrame, hhead]
      simp only [MetaType.ofByte?_toByte, hread, Bytes.toUInt32_ofUInt32, hfind']
      rfl
    · rintro ch hch ⟨⟨fr, top, hstands, hempty⟩, hsize, hout, -⟩
      refine ⟨⟨_, top, ⟨⟨hstands.wellFormed.slots, hstands.wellFormed.total⟩, ?_, hstands.top,
        rfl⟩, ?_⟩, hsize, hout, ?_⟩
      · rw [hrecords]
        exact hstands.view
      · rw [← hstands.frame] at hempty
        exact hempty
      · intro n hn
        rw [sizeOf_concat_define, if_pos hch.symm, Option.some.injEq] at hn
        subst hn
        rfl
  · have hfind' : { u with input := rest }.findChannel id = none := h.find_none hid
    refine ⟨some true, { u with input := rest }, ?_, Or.inr rfl, ⟨rfl, h.state, h.error, h.version,
      h.current, h.distinct, h.ids, ?_, hcalls⟩⟩
    · rw [nextFrame, hhead]
      simp only [MetaType.ofByte?_toByte, hread, hfind']
      rfl
    · intro ch hch
      apply (h.holds ch hch).otherDefine
      intro hsame
      exact hid ((h.ids id).mp (hsame ▸ List.mem_map_of_mem hch))

theorem proceeds_of_nextFrame {events' : List Event} {rest' : List UInt8} {result : Option Bool}
    (h : Generated select events rest u) (hnext : u.nextFrame zstd = .ok (result, u'))
    (hresult : result = none ∨ result = some true) (h' : Generated select events' rest' u') :
    Proceeds zstd u u' := by
  rcases hresult with rfl | rfl
  · exact .frame h.current h'.current hnext (.refl u')
  · refine .call ?_ (.refl u')
    rw [generate_of_current h.current]
    exact getNext_of_frames .here hnext

/-- **A definition.** -/
theorem generate_define {id channelType : UInt8} {bucketSize : UInt32}
    (h : Generated select events ((Event.define id channelType bucketSize).bytes ++ rest) u) :
    ∃ u', Proceeds zstd u u' ∧
      Generated select (events ++ [.define id channelType bucketSize]) rest u' := by
  simp only [Event.bytes, Event.defineBytes, List.cons_append, List.nil_append] at h
  obtain ⟨u₁, hnext₁, h₁⟩ := @nextFrame_channelDefine zstd _ _ _ _ _ h
  obtain ⟨u₂, hnext₂, h₂⟩ := @nextFrame_channelType zstd _ _ _ _ _ _ h₁
  obtain ⟨u₃, hnext₃, h₃⟩ := @nextFrame_compressionMethod zstd _ _ _ _ _ _ h₂
  obtain ⟨result, u₄, hnext₄, hresult, h₄⟩ := @nextFrame_chunkSize zstd _ _ _ _ _ channelType _ h₃
  have hfirst := proceeds_of_nextFrame h hnext₁ (Or.inl rfl) h₁
  have hsecond := proceeds_of_nextFrame h₁ hnext₂ (Or.inr rfl) h₂
  have hthird := proceeds_of_nextFrame h₂ hnext₃ (Or.inl rfl) h₃
  have hfourth := proceeds_of_nextFrame h₃ hnext₄ hresult h₄
  exact ⟨u₄, ((hfirst.trans hsecond).trans hthird).trans hfourth, h₄⟩

/-! ### Blocks -/

/-- A channel within a block: some records are done, some are left. -/
structure Loaded (select : List UInt8) (before : List Event) (id : UInt8) (frame rest : List UInt8)
    (done left : List Record) (u : OticUnpack) (ch : Channel) : Prop where
  reads : Generated select (before ++ [.data id done frame]) rest { u with current := none }
  current : u.current = some id
  holds : ch.HoldsAs Channel.Unresized (before ++ [.data id done frame])
  channelId : ch.channelId = id
  top : ch.top = encodeAll left
  within : ch.Within

theorem recordsOf_concat_data (before : List Event) (id : UInt8) (block : List Record)
    (frame : List UInt8) :
    recordsOf id (before ++ [.data id block frame]) = recordsOf id before ++ block := by
  rw [recordsOf_append, recordsOf_cons, recordsOf_nil, List.append_nil, Event.blockOf, if_pos rfl]

theorem Channel.HoldsAs.goesOn {alloc : Allocation} {ch : Channel} {before : List Event}
    {id : UInt8} {done : List Record} {frame : List UInt8} (hid : ch.channelId ≠ id)
    (h : ch.HoldsAs alloc (before ++ [.data id done frame])) (line : List Record) :
    ch.HoldsAs alloc (before ++ [.data id (done ++ line) frame]) := by
  apply h.congr
  · simp [Event.blockOf, Ne.symm hid]
  · rw [sizeOf_concat_data, sizeOf_concat_data]

section

variable {before : List Event} {id : UInt8} {frame : List UInt8} {done left line : List Record}
  {ch : Channel}

/-- **A line** of the block. -/
theorem Loaded.getLine (h : Loaded select before id frame rest done (line ++ left) u ch)
    (hid : id ∈ select) (hline : Line line)
    (hvalid : ValidFrom (namesAfter 0 (recordsOf id before ++ done)) line) :
    ∃ u' ch', u.getLine ch = .ok (!line.any Record.isEof, u') ∧
      u'.findChannel id = some ch' ∧
        Loaded select before id frame rest (done ++ line) left u' ch' := by
  obtain ⟨⟨fr, top, hstands, hempty⟩, hallocated⟩ := h.holds
  have hstart : ch.Stands fr (View.init.applyAll (recordsOf id before ++ done))
      (encodeAll line ++ encodeAll left) := by
    rw [h.channelId, recordsOf_concat_data] at hstands
    refine ⟨hstands.wellFormed, hstands.view, ?_, hstands.frame⟩
    rw [h.top, encodeAll_append]
  obtain ⟨ch', hread, hch', hwithin⟩ := Channel.getLine_encode
    (show OTIC_VERSION_MAJOR ≠ 1 by decide) hline hstart h.within hempty (by
      rw [View.applyAll_sensors_length]
      exact hvalid)
  have hframe : ch'.frame = ch.frame := hch'.frame.trans hstart.frame.symm
  have hid' : ch'.channelId = id := (congrArg Frame.channelId hframe).trans h.channelId
  have hholds : ch'.HoldsAs Channel.Unresized (before ++ [.data id (done ++ line) frame]) := by
    refine ⟨⟨fr, encodeAll left, ?_, hempty⟩, ?_⟩
    · rw [hid', recordsOf_concat_data, ← List.append_assoc, View.applyAll_append]
      exact hch'
    · rw [hid', sizeOf_concat_data]
      rw [h.channelId, sizeOf_concat_data] at hallocated
      obtain ⟨hsize, hout, hcache⟩ := hallocated
      refine ⟨(congrArg Frame.cacheSize hframe).trans hsize,
        (congrArg Frame.outAlloc hframe).trans hout, ?_⟩
      intro n hn
      exact (congrArg Frame.cacheAlloc hframe).trans (hcache n hn)
  have hcalls : u.calls ++ (ch'.flushed.drop ch.flushed.length).map (fun row => (id, row)) =
      (reading select (before ++ [.data id (done ++ line) frame])).calls := by
    have hbefore : ch.flushed = (View.init.applyAll (recordsOf id before ++ done)).rows := by
      rw [← hstart.view]
      rfl
    have hafter : ch'.flushed =
        (View.init.applyAll (recordsOf id before ++ (done ++ line))).rows := by
      rw [← List.append_assoc, View.applyAll_append, ← hch'.view]
      rfl
    have hsofar : u.calls = (reading select (before ++ [.data id done frame])).calls :=
      h.reads.calls
    rw [calls_concat_data hid, hsofar, hbefore, hafter]
  have hstore := h.reads.modify rest (before ++ [.data id (done ++ line) frame]) id (fun _ => ch')
    (fun _ _ => hid') (fun _ _ _ => hholds) (fun c hne hc => hc.goesOn hne line) hcalls
  have hinput : u.input = rest := h.reads.input
  have hreads : Generated select (before ++ [.data id (done ++ line) frame]) rest
      { u.store ch ch' with current := none } := by
    subst hinput
    rw [store, h.channelId]
    exact hstore
  refine ⟨u.store ch ch', ch', ?_, ?_, hreads, h.current, hholds, hid', hch'.top, hwithin⟩
  · have hversion : u.version = OTIC_VERSION_MAJOR := h.reads.version
    simp only [OticUnpack.getLine, hversion, hread, Exec.ok_bind, Bool.false_eq_true, if_false]
  · -- the channel that is found is the one that was stored
    obtain ⟨found, hmem, hfind, hsame⟩ := hreads.find hid
    have hfind' : (u.store ch ch').findChannel id = some found := hfind
    rw [hfind']
    simp only [store, OticUnpack.modify, List.mem_map, h.channelId] at hmem
    obtain ⟨c, -, rfl⟩ := hmem
    by_cases hc : c.channelId = id
    · rw [if_pos hc]
    · rw [if_neg hc] at hsame
      exact absurd hsame hc

/-- **The end** of the block. -/
theorem Loaded.end (h : Loaded select before id frame rest done [] u ch) :
    ∃ u', u.getLine ch = .ok (true, u') ∧
      Generated select (before ++ [.data id done frame]) rest u' := by
  have htop : ch.top = [] := h.top
  have hread : Channel.getLine u.version ch = .ok (true, true, ch) := by
    rw [Channel.getLine, h.within.usedUp, decide_eq_true htop]
    rfl
  have hstore := h.reads.modify rest (before ++ [.data id done frame]) id (fun _ => ch)
    (fun _ _ => h.channelId) (fun _ _ _ => h.holds) (fun _ _ hc => hc) h.reads.calls
  have hinput : u.input = rest := h.reads.input
  refine ⟨{ u.store ch ch with current := none }, ?_, ?_⟩
  · simp only [OticUnpack.getLine, hread, Exec.ok_bind, if_true]
  · subst hinput
    rw [store, h.channelId, List.drop_length, List.map_nil, List.append_nil]
    exact hstore

/-- **A block**, by induction over its lines: either it is read to its end, or a call
returns 0 at its first end mark. -/
theorem Loaded.run (hid : id ∈ select) (hlegible : Legible left) :
    ∀ {done : List Record} {u₀ u : OticUnpack} {ch : Channel},
      (∀ result w, u.getLine ch = .ok (result, w) → u₀.generate zstd = .ok (result, w)) →
      Loaded select before id frame rest done left u ch →
      ValidFrom (namesAfter 0 (recordsOf id before ++ done)) left →
      (left.any Record.isEof = false → ∃ u', Proceeds zstd u₀ u' ∧
        Generated select (before ++ [.data id (done ++ left) frame]) rest u') ∧
      (left.any Record.isEof = true → ∃ u', GeneratesTo zstd u₀ u' ∧
        u'.calls =
          (reading select (before ++ [.data id (done ++ untilEof left) frame])).calls) := by
  induction hlegible using Legible.byLines with
  | nil =>
    intro done u₀ u ch hcall h _
    obtain ⟨u', hread, hgenerated⟩ := h.end
    constructor
    · intro _
      rw [List.append_nil]
      exact ⟨u', .call (hcall true u' hread) (.refl u'), hgenerated⟩
    · intro heof
      cases heof
  | line line left hline _ _ ih =>
    intro done u₀ u ch hcall h hvalid
    rw [validFrom_append] at hvalid
    obtain ⟨u₁, ch₁, hread, hfind, h₁⟩ := h.getLine hid hline hvalid.1
    have hcall₁ := hcall _ u₁ hread
    cases heof : line.any Record.isEof with
    | true =>
      rw [heof] at hcall₁
      constructor
      · intro hnone
        rw [List.any_append, heof] at hnone
        cases hnone
      · intro _
        rw [hline.untilEof_append heof]
        exact ⟨u₁, ⟨u₀, .refl u₀, hcall₁⟩, h₁.reads.calls⟩
    | false =>
      rw [heof] at hcall₁
      have hagain : ∀ result w, u₁.getLine ch₁ = .ok (result, w) →
          u₁.generate zstd = .ok (result, w) := by
        intro result w hline
        rw [generate, h₁.current, Option.bind_some, hfind]
        exact hline
      have hlater := hvalid.2
      rw [← namesAfter_append, List.append_assoc] at hlater
      obtain ⟨hends, hstops⟩ := ih hagain h₁ hlater
      rw [List.append_assoc] at hends hstops
      constructor
      · intro hnone
        rw [List.any_append, heof, Bool.false_or] at hnone
        obtain ⟨u', hproceeds, hgenerated⟩ := hends hnone
        exact ⟨u', .call hcall₁ hproceeds, hgenerated⟩
      · intro hsome
        rw [List.any_append, heof, Bool.false_or] at hsome
        obtain ⟨u', hgenerates, hcalls⟩ := hstops hsome
        rw [untilEof_append_of_none heof]
        exact ⟨u', (Proceeds.call hcall₁ (.refl u₁)).generates hgenerates, hcalls⟩

end

theorem generate_load (hlossless : zstd.Lossless) {id : UInt8} (hid : id ∈ select)
    {block : List Record} {frame : List UInt8} (hsound : Event.Sound zstd events id block frame)
    (hlength : (encodeAll block).length ≤ OTIC_UNPACK_OUT_SIZE)
    (h : Generated select events ((Event.data id block frame).bytes ++ rest) u) :
    ∃ w ch, (∀ result u', w.getLine ch = .ok (result, u') → u.generate zstd = .ok (result, u')) ∧
      Loaded select events id frame rest [] block w ch := by
  obtain ⟨⟨size, hsize, hcompress, -⟩, -⟩ := hsound
  have hframe := hlossless.compress_le hcompress
  have hinput := h.input
  rw [Event.bytes, List.append_assoc] at hinput
  have hahead := dataAhead hinput (lt_of_le_of_lt hframe size.toNat_lt)
  obtain ⟨ch, hmem, hfind, hch⟩ := h.find hid
  have hholds := h.holds ch hmem
  obtain ⟨hcapacity, hout, hcache⟩ := hholds.2
  have halloc := hcache size (by rw [hch]; exact hsize)
  have hfind' : { u with input := frame ++ rest }.findChannel id = some ch := hfind
  have hfits : (encodeAll block).length ≤ ch.base.cacheSize.toNat := by
    rw [hcapacity]
    exact hlength
  have hdecompress := @decompress_load _ hlossless _ _ _ hcompress (ch.receive frame) hfits
    (hfits.trans_eq ((congrArg UInt32.toNat hcapacity).trans hout.symm))
  have hfetched := @fetchInto_of_fetch _ _ ch _ _ hahead.payload
  have hempty : ∀ {c : Channel}, c.HoldsAs Channel.Unresized events →
      c.HoldsAs Channel.Unresized (events ++ [.data id [] frame]) := by
    intro c hc
    apply hc.congr
    · simp [Event.blockOf]
    · exact sizeOf_concat_data _ _ _ _ _
  refine ⟨{ u with input := rest, current := some id }, (ch.receive frame).load (encodeAll block),
    ?_, ⟨?_, rfl, ?_, hch, rfl, Channel.within_load _ _⟩⟩
  · intro result u' hline
    have hnext : u.nextFrame zstd = .ok (some result, u') := by
      rw [nextFrame, hahead.head]
      simp only [MetaType.ofByte?_toByte, hahead.size, Bytes.toUInt32_ofUInt32, hahead.count]
      rw [hfind']
      dsimp only
      rw [if_neg (by omega), hfetched]
      simp only [hdecompress, Exec.ok_bind, if_true]
      rw [hline]
      rfl
    rw [generate_of_current h.current]
    exact getNext_of_frames .here hnext
  · refine ⟨rfl, h.state, h.error, h.version, rfl, h.distinct, h.ids, ?_, ?_⟩
    · intro c hc
      exact hempty (h.holds c hc)
    · rw [reading_concat, Reading.event, if_pos hid]
      dsimp only
      rw [View.applyAll_nil, List.drop_length, List.map_nil, List.append_nil]
      exact h.calls
  · have hloaded : ((ch.receive frame).load (encodeAll block)).HoldsAs Channel.Unresized events :=
      hholds.of_same rfl (fun hwf => ⟨hwf.slots, hwf.total⟩) rfl rfl fun _ hsize => hsize
    exact hempty hloaded

/-- The block of a channel that was not selected is passed. -/
theorem generate_skip (hlossless : zstd.Lossless) {id : UInt8} (hid : id ∉ select)
    {block : List Record} {frame : List UInt8} (hsound : Event.Sound zstd events id block frame)
    (h : Generated select events ((Event.data id block frame).bytes ++ rest) u) :
    ∃ u', Proceeds zstd u u' ∧ Generated select (events ++ [.data id block frame]) rest u' := by
  obtain ⟨⟨size, -, hcompress, -⟩, -⟩ := hsound
  have hframe := hlossless.compress_le hcompress
  have hinput := h.input
  rw [Event.bytes, List.append_assoc] at hinput
  have hahead := dataAhead hinput (lt_of_le_of_lt hframe size.toNat_lt)
  have hfind' : { u with input := frame ++ rest }.findChannel id = none := h.find_none hid
  have hnext : u.nextFrame zstd = .ok (none, { u with input := rest }) := by
    rw [nextFrame, hahead.head]
    simp only [MetaType.ofByte?_toByte, hahead.size, Bytes.toUInt32_ofUInt32, hahead.count, hfind',
      hahead.skip]
  have hgenerated := h.skip hid block frame rest
  exact ⟨_, .frame h.current hgenerated.current hnext (.refl _), hgenerated⟩

/-! ### Streams -/

/-- The blocks of the selected channels are legible, and fit the first `out`. -/
def Readable (select : List UInt8) (events : List Event) : Prop :=
  ∀ id block frame, .data id block frame ∈ events → id ∈ select →
    Legible block ∧ (encodeAll block).length ≤ OTIC_UNPACK_OUT_SIZE

/-- **A block** of any channel. -/
theorem generate_data (hlossless : zstd.Lossless) {id : UInt8} {block : List Record}
    {frame : List UInt8} (hsound : Event.Sound zstd events id block frame)
    (hreadable : id ∈ select → Legible block ∧ (encodeAll block).length ≤ OTIC_UNPACK_OUT_SIZE)
    (h : Generated select events ((Event.data id block frame).bytes ++ rest) u) :
    ((Event.data id block frame).ends select = false → ∃ u', Proceeds zstd u u' ∧
      Generated select (events ++ [.data id block frame]) rest u') ∧
    ((Event.data id block frame).ends select = true → ∃ u', GeneratesTo zstd u u' ∧
      u'.calls = (reading select (events ++ [(Event.data id block frame).untilEof])).calls) := by
  by_cases hid : id ∈ select
  · obtain ⟨hlegible, hlength⟩ := hreadable hid
    obtain ⟨w, ch, hcall, hloaded⟩ := generate_load hlossless hid hsound hlength h
    have hvalid : ValidFrom (namesAfter 0 (recordsOf id events ++ [])) block := by
      rw [List.append_nil]
      exact hsound.valid
    have hends : (Event.data id block frame).ends select = block.any Record.isEof := by
      rw [Event.ends, Event.selected, if_pos hid]
    rw [hends]
    exact hloaded.run hid hlegible hcall hvalid
  · have hends : (Event.data id block frame).ends select = false := by
      rw [Event.ends, Event.selected, if_neg hid]
      rfl
    rw [hends]
    constructor
    · intro _
      exact generate_skip hlossless hid hsound h
    · intro hsome
      cases hsome

/-- **A whole stream**, by induction over its events: either it is read to its end, or a
call returns 0 at the first end mark of a selected channel. -/
theorem generate_stream (hlossless : zstd.Lossless) (hstream : Stream zstd events)
    (hreadable : Readable select events) :
    ∀ {rest : List UInt8} {u : OticUnpack}, Generated select [] (bytesOf events ++ rest) u →
      (events.any (Event.ends select) = false → ∃ u', Proceeds zstd u u' ∧
        Generated select events rest u') ∧
      (events.any (Event.ends select) = true → ∃ u', GeneratesTo zstd u u' ∧
        u'.calls = (reading select (heard select events)).calls) := by
  have hsplit : ∀ (events : List Event) (e : Event) {rest : List UInt8} {u : OticUnpack},
      Generated select [] (bytesOf (events ++ [e]) ++ rest) u →
        Generated select [] (bytesOf events ++ (e.bytes ++ rest)) u := by
    intro events e rest u h
    rwa [bytesOf_append, bytesOf_cons, bytesOf_nil, List.append_nil, List.append_assoc] at h
  induction hstream with
  | nil =>
    intro rest u h
    constructor
    · intro _
      exact ⟨u, .refl u, h⟩
    · intro hsome
      cases hsome
  | @define events id channelType bucketSize hstream ih =>
    intro rest u h
    have hbefore : Readable select events := fun id' block frame hmem =>
      hreadable id' block frame (List.mem_append_left _ hmem)
    obtain ⟨hends, hstops⟩ := ih hbefore (hsplit events _ h)
    have hlast : (events ++ [Event.define id channelType bucketSize]).any (Event.ends select) =
        events.any (Event.ends select) := by
      rw [List.any_append]
      exact Bool.or_false _
    rw [hlast]
    constructor
    · intro hnone
      obtain ⟨u₁, hproceeds, h₁⟩ := hends hnone
      obtain ⟨u', hproceeds', h'⟩ := @generate_define zstd _ _ _ _ _ _ _ h₁
      exact ⟨u', hproceeds.trans hproceeds', h'⟩
    · intro hsome
      rw [heard_append, if_pos hsome]
      exact hstops hsome
  | @data events id block frame hstream hsound ih =>
    intro rest u h
    have hbefore : Readable select events := fun id' block' frame' hmem =>
      hreadable id' block' frame' (List.mem_append_left _ hmem)
    obtain ⟨hends, hstops⟩ := ih hbefore (hsplit events _ h)
    rw [List.any_append, heard_append]
    cases hended : events.any (Event.ends select) with
    | true =>
      constructor
      · intro hnone
        cases hnone
      · intro _
        rw [if_pos rfl]
        exact hstops hended
    | false =>
      obtain ⟨u₁, hproceeds, h₁⟩ := hends hended
      obtain ⟨hgoes, hstops'⟩ := generate_data hlossless hsound
        (hreadable id block frame (List.mem_append_right _ List.mem_cons_self)) h₁
      rw [Bool.false_or, List.any_cons, List.any_nil, Bool.or_false, if_neg Bool.false_ne_true]
      constructor
      · intro hnone
        obtain ⟨u', hproceeds', h'⟩ := hgoes hnone
        exact ⟨u', hproceeds.trans hproceeds', h'⟩
      · intro hsome
        obtain ⟨u', hgenerates, hcalls⟩ := hstops' hsome
        rw [heard, if_pos hsome]
        exact ⟨u', hproceeds.generates hgenerates, hcalls⟩

theorem Generated.stop (h : Generated select events [] u) : u.generate zstd = .ok (false, u) := by
  have hnext : u.nextFrame zstd = .ok (some false, { u with current := none }) := by
    rw [nextFrame, fetch_none (by simp [h.input])]
  have hsame : { u with current := none } = u := by
    rw [← h.current]
  rw [generate_of_current h.current, getNext_of_frames .here hnext, hsame]

/-- **Generating a file.**  When a call returns 0, the rows that were heard have been
delivered. -/
theorem generate_file (hlossless : zstd.Lossless) (hstream : Stream zstd events)
    (hreadable : Readable select events) (seeker : Bool) (hselect : select.Nodup)
    (features : UInt8) :
    ∃ u u', start seeker select (fileHeader features ++ bytesOf events) = .ok u ∧
      GeneratesTo zstd u u' ∧ u'.calls = (reading select (heard select events)).calls := by
  obtain ⟨u, hstart, hgenerated⟩ := start_reads Channel.Unresized seeker hselect features
    (bytesOf events) fun id => ⟨rfl, rfl, fun n hn => by cases hn⟩
  have hinput : Generated select [] (bytesOf events ++ []) u := by
    rw [List.append_nil]
    exact hgenerated
  obtain ⟨hends, hstops⟩ := generate_stream hlossless hstream hreadable hinput
  cases hended : events.any (Event.ends select) with
  | true =>
    obtain ⟨u', hgenerates, hcalls⟩ := hstops hended
    exact ⟨u, u', hstart, hgenerates, hcalls⟩
  | false =>
    obtain ⟨u', hproceeds, h'⟩ := hends hended
    have hlast : GeneratesTo zstd u' u' := ⟨u', .refl u', h'.stop⟩
    refine ⟨u, u', hstart, hproceeds.generates hlast, ?_⟩
    rw [heard_of_none hended]
    exact h'.calls

end Otic.Unpack
