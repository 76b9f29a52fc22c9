import Otic.Unpack.Buffers

/-!
# Reading a stream

`parse_define` and `parse_data` are the steps of `otic_unpack_parse`, an event at a
time; `parse_stream` is the induction over the stream.
-/

namespace Otic.Unpack

open OticUnpack

variable {zstd : Zstd} {u : OticUnpack} {select : List UInt8} {events : List Event}
  {rest : List UInt8}

theorem length_input_of_parse {u' : OticUnpack} (h : u.parse zstd = .ok (true, u')) :
    u'.input.length < u.input.length := (parse_cases h).2 rfl

/-! ### Definitions -/

theorem parse_channelDefine {id : UInt8}
    (h : Reads select events (MetaType.channelDefine.toByte :: id :: rest) u) :
    ∃ u', u.parse zstd = .ok (true, u') ∧ Reads select events rest u' := by
  have hhead := fetch_head h.input
  refine ⟨_, ?_, @ReadsAs.alter _ _ _ _ _ h rest id
    (fun ch => { ch with base := { ch.base with state := .opened } })
    (fun ch => ⟨rfl, fun hwf => ⟨hwf.slots, hwf.total⟩, rfl, rfl⟩) fun _ _ hsize => hsize⟩
  rw [parse, hhead]
  rfl

theorem parse_channelType {id channelType : UInt8}
    (h : Reads select events (MetaType.channelType.toByte :: id :: channelType :: rest) u) :
    ∃ u', u.parse zstd = .ok (true, u') ∧ Reads select events rest u' := by
  have hhead := fetch_head h.input
  have hread : { u with input := channelType :: rest }.fetch 1 =
      some ([channelType], { u with input := rest }) := fetch_append [_] rfl rfl
  refine ⟨_, ?_, @ReadsAs.alter _ _ _ _ _ h rest id
    (fun ch => { ch with channelType := channelType })
    (fun ch => ⟨rfl, fun hwf => ⟨hwf.slots, hwf.total⟩, rfl, rfl⟩) fun _ _ hsize => hsize⟩
  rw [parse, hhead]
  simp only [MetaType.ofByte?_toByte, hread]
  rfl

theorem parse_compressionMethod {id value : UInt8}
    (h : Reads select events (MetaType.compressionMethod.toByte :: id :: value :: rest) u) :
    ∃ u', u.parse zstd = .ok (true, u') ∧ Reads select events rest u' := by
  have hhead := fetch_head h.input
  have hread : { u with input := value :: rest }.fetch 1 =
      some ([value], { u with input := rest }) := fetch_append [_] rfl rfl
  refine ⟨{ u with input := rest }, ?_, { h with input := rfl }⟩
  rw [parse, hhead]
  simp only [MetaType.ofByte?_toByte, hread]

theorem parse_chunkSize {id channelType : UInt8} {bucketSize : UInt32}
    (h : Reads select events
      (MetaType.chunkSize.toByte :: id :: (Bytes.ofUInt32 bucketSize ++ rest)) u) :
    ∃ u', u.parse zstd = .ok (true, u') ∧
      Reads select (events ++ [.define id channelType bucketSize]) rest u' := by
  have hhead := fetch_head h.input
  have hread : { u with input := Bytes.ofUInt32 bucketSize ++ rest }.fetch 4 =
      some (Bytes.ofUInt32 bucketSize, { u with input := rest }) :=
    fetch_append _ rfl (Bytes.length_ofUInt32 bucketSize)
  have hrecords : ∀ id', recordsOf id' (events ++ [.define id channelType bucketSize]) =
      recordsOf id' events := by
    intro id'
    rw [recordsOf_append]
    exact List.append_nil _
  refine ⟨_, ?_, h.modify rest _ id (fun ch => ch.reallocate bucketSize)
    (fun ch hch => hch) (fun ch hid hch => ?_)
    (fun ch hid hch => hch.otherDefine hid channelType bucketSize)
    (h.calls.trans (by rw [reading_concat]; rfl))⟩
  · rw [parse, hhead]
    simp only [MetaType.ofByte?_toByte, hread, Bytes.toUInt32_ofUInt32]
    rfl
  · obtain ⟨⟨fr, top, hstands, hempty⟩, -⟩ := hch
    refine ⟨⟨_, [], ⟨⟨hstands.wellFormed.slots, hstands.wellFormed.total⟩, ?_, rfl, rfl⟩, ?_⟩, ?_⟩
    · rw [hrecords]
      exact hstands.view
    · rw [← hstands.frame] at hempty
      exact hempty
    · intro n hn
      have hsame : id = (ch.reallocate bucketSize).channelId := hid.symm
      rw [sizeOf_concat_define, if_pos hsame, Option.some.injEq] at hn
      subst hn
      exact ⟨rfl, rfl, rfl⟩

/-- **A definition** is read in four steps. -/
theorem parse_define {id channelType : UInt8} {bucketSize : UInt32}
    (h : Reads select events ((Event.define id channelType bucketSize).bytes ++ rest) u) :
    ∃ u', Loop.Goes (parse zstd) u u' ∧
      Reads select (events ++ [.define id channelType bucketSize]) rest u' := by
  simp only [Event.bytes, Event.defineBytes, List.cons_append, List.nil_append] at h
  obtain ⟨u₁, hparse₁, h₁⟩ := parse_channelDefine h
  obtain ⟨u₂, hparse₂, h₂⟩ := parse_channelType h₁
  obtain ⟨u₃, hparse₃, h₃⟩ := parse_compressionMethod h₂
  obtain ⟨u₄, hparse₄, h₄⟩ := parse_chunkSize h₃
  exact ⟨u₄, .step hparse₁ (.step hparse₂ (.step hparse₃ (.single hparse₄))), h₄⟩

/-! ### Blocks -/

/-- What was compressed is loaded, if there is room for it. -/
theorem decompress_load (hlossless : zstd.Lossless) {capacity : Nat} {block frame : List UInt8}
    (hcompress : zstd.compress capacity block = some frame) {ch : Channel}
    (hsize : block.length ≤ ch.base.cacheSize.toNat) (hout : block.length ≤ ch.outAlloc) :
    decompress zstd ch frame = .ok (true, ch.load block) :=
  decompress_eq_ok.mpr <| Or.inl
    ⟨rfl, block, hlossless.decompress_compress hcompress hsize, by omega, rfl⟩

/-- The block of a selected channel, once it has been fetched and decompressed. -/
theorem parseBlock_data {ch : Channel} (h : ch.Holds events) {id : UInt8}
    (hid : ch.channelId = id) {block : List Record} (frame : List UInt8)
    (hvalid : ValidFrom (namesAfter 0 (recordsOf id events)) block) :
    ∃ ch', Channel.parseBlock OTIC_VERSION_MAJOR (ch.load (encodeAll block)) = .ok ch' ∧
      ch'.Holds (events ++ [.data id block frame]) ∧ ch'.channelId = id ∧ ch'.top = [] ∧
      ch'.view = (View.init.applyAll (recordsOf id events)).applyAll block := by
  subst hid
  obtain ⟨⟨fr, top, hstands, hempty⟩, hallocated⟩ := h
  obtain ⟨ch', hparse, hch'⟩ := Channel.parseBlock_encodeAll
    (show OTIC_VERSION_MAJOR ≠ 1 by decide) (hstands.load (encodeAll block)) hempty (by
      rw [View.applyAll_sensors_length]
      exact hvalid)
  have hframe : ch'.frame = ch.frame := hch'.frame.trans hstands.frame.symm
  have hid : ch'.channelId = ch.channelId := congrArg Frame.channelId hframe
  refine ⟨ch', hparse, ⟨⟨fr, [], ?_, hempty⟩, ?_⟩, hid, hch'.top, hch'.view⟩
  · rw [hid, recordsOf_append, View.applyAll_append]
    simpa [Event.blockOf] using hch'
  · rw [hid, sizeOf_concat_data]
    intro n hn
    obtain ⟨hcache, halloc, hout⟩ := hallocated n hn
    exact ⟨(congrArg Frame.cacheSize hframe).trans hcache,
      (congrArg Frame.cacheAlloc hframe).trans halloc,
      (congrArg Frame.outAlloc hframe).trans hout⟩

/-- **A block** of a channel is read in one step: it is parsed or passed over. -/
theorem parse_data (hlossless : zstd.Lossless) {id : UInt8} {block : List Record}
    {frame : List UInt8} (hsound : Event.Sound zstd events id block frame)
    (h : Reads select events ((Event.data id block frame).bytes ++ rest) u) :
    ∃ u', u.parse zstd = .ok (true, u') ∧
      Reads select (events ++ [.data id block frame]) rest u' := by
  obtain ⟨⟨size, hsize, hcompress, hlength⟩, hvalid⟩ := hsound
  have hframe := hlossless.compress_le hcompress
  have hinput := h.input
  rw [Event.bytes, List.append_assoc] at hinput
  have hahead := dataAhead hinput (lt_of_le_of_lt hframe size.toNat_lt)
  rw [parse, hahead.head]
  simp only [MetaType.ofByte?_toByte, hahead.size, Bytes.toUInt32_ofUInt32, hahead.count]
  by_cases hid : id ∈ select
  · -- selected: the frame fits the cache, and what it decompresses to fits `out`
    obtain ⟨ch, hmem, hfind, hch⟩ := h.find hid
    have hholds := h.holds ch hmem
    obtain ⟨hcache, halloc, hout⟩ := hholds.2 size (by rw [hch]; exact hsize)
    have hreceived : (ch.receive frame).Holds events :=
      hholds.of_same rfl (fun hwf => ⟨hwf.slots, hwf.total⟩) rfl rfl fun _ hsize => hsize
    obtain ⟨ch', hblock, hholds', hid', -, hview⟩ := parseBlock_data hreceived hch frame hvalid
    have hfind' : { u with input := frame ++ rest }.findChannel id = some ch := hfind
    have hdecompress := @decompress_load _ hlossless _ _ _ hcompress (ch.receive frame)
      (hlength.trans_eq (congrArg UInt32.toNat hcache).symm) (hlength.trans_eq hout.symm)
    rw [← h.version] at hblock
    rw [hfind']
    simp only [readData]
    rw [if_neg (by omega), hahead.payload]
    simp only [hdecompress, Exec.ok_bind, if_true, hblock]
    refine ⟨_, rfl, ?_⟩
    have hreads := @ReadsAs.modify _ _ _ _ _ h rest (events ++ [.data id block frame])
      (u.calls ++ (ch'.flushed.drop ch.flushed.length).map fun row => (id, row)) id (fun _ => ch')
      (fun _ _ => hid') (fun _ _ _ => hholds') (fun c hne hc => hc.other hne block frame) ?_
    · simpa only [store, hch] using hreads
    · obtain ⟨⟨fr, top, hstands, -⟩, -⟩ := hholds
      have hbefore : ch.flushed = (View.init.applyAll (recordsOf id events)).rows := by
        rw [← hch, ← hstands.view]
        rfl
      have hafter : ch'.flushed =
          ((View.init.applyAll (recordsOf id events)).applyAll block).rows := by
        rw [← hview]
        rfl
      rw [reading_concat, Reading.event, if_pos hid, reading_views hid, hbefore, hafter, h.calls]
  · -- not selected: the frame is passed over
    have hfind' : { u with input := frame ++ rest }.findChannel id = none := h.find_none hid
    rw [hfind']
    simp only [hahead.skip]
    exact ⟨_, rfl, h.skip hid block frame rest⟩

/-! ### Streams -/

/-- **A whole stream**, by induction over its events. -/
theorem parse_stream (hlossless : zstd.Lossless) (hstream : Stream zstd events) :
    ∀ {rest : List UInt8} {u : OticUnpack}, Reads select [] (bytesOf events ++ rest) u →
      ∃ u', Loop.Goes (parse zstd) u u' ∧ Reads select events rest u' := by
  induction hstream with
  | nil =>
    intro rest u h
    exact ⟨u, .refl u, h⟩
  | define id channelType bucketSize _ ih =>
    intro rest u h
    rw [bytesOf_append, bytesOf_cons, bytesOf_nil, List.append_nil, List.append_assoc] at h
    obtain ⟨u₁, hgoes, h₁⟩ := ih h
    obtain ⟨u', hgoes', h'⟩ := parse_define h₁
    exact ⟨u', hgoes.trans hgoes', h'⟩
  | data _ hsound ih =>
    intro rest u h
    rw [bytesOf_append, bytesOf_cons, bytesOf_nil, List.append_nil, List.append_assoc] at h
    obtain ⟨u₁, hgoes, h₁⟩ := ih h
    obtain ⟨u', hparse, h'⟩ := parse_data hlossless hsound h₁
    exact ⟨u', hgoes.trans (.single hparse), h'⟩

theorem ReadsAs.stop (h : Reads select events [] u) : u.parse zstd = .ok (false, u) := by
  rw [parse, fetch_none (by simp [h.input])]

/-- **Reading a file.**  Every call of `otic_unpack_parse` returns 1 until the input
ends, and what was delivered by then is what the events say. -/
theorem parse_file (hlossless : zstd.Lossless) (hstream : Stream zstd events) (seeker : Bool)
    (hselect : select.Nodup) (features : UInt8) :
    ∃ u u', start seeker select (fileHeader features ++ bytesOf events) = .ok u ∧
      Loop.Goes (parse zstd) u u' ∧ u.parseAll zstd = .ok u' ∧ Reads select events [] u' := by
  obtain ⟨u, hstart, hreads⟩ := start_reads Channel.Allocated seeker hselect features
    (bytesOf events) fun _ _ hnone => nomatch hnone
  obtain ⟨u', hgoes, hreads'⟩ := parse_stream hlossless hstream
    (show Reads select [] (bytesOf events ++ []) u by simpa using hreads)
  have hrun := hgoes.run hreads'.stop (fun u => u.input.length)
    (fun _ _ => length_input_of_parse) (u.input.length + 1) (Nat.lt_succ_self _)
  exact ⟨u, u', hstart, hgoes, by rw [parseAll, hrun]; rfl, hreads'⟩

end Otic.Unpack
