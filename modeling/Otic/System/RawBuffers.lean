import Otic.Format.Heard
import Otic.Pack.Mixed
import Otic.System.SingleChannel

/-!
# Raw buffers across the stream

`read_rawbuffer` takes the index of a buffer for its length, and does not count the row
that `inject_b` counted.  So it comes out behind a buffer only if the index is by chance
the number of bytes that follow it (`Passes`), and the number of rows is found to be
right only if the buffers number a multiple of 2^64.
-/

namespace Otic

open Pack Unpack
open Unpack.Channel (parseRecord parseBlock readTagged readRecord readRawbuffer Stands)

/-! ### What should be read -/

/-- In a block the reader goes on from every buffer at the piece after it. -/
def Unpack.Channel.Continues (version : UInt8) (ch : Unpack.Channel) (block : List Piece) : Prop :=
  ∀ before index bytes after, block = before ++ .buffer index bytes :: after →
    ∃ ch₁ ch₂, Loop.Goes (parseRecord version) { ch with top := encodePieces block } ch₁ ∧
      ch₁.top = (Piece.buffer index bytes).encode ++ encodePieces after ∧
      parseRecord version ch₁ = .ok (true, ch₂) ∧ ch₂.top = encodePieces after

/-- On its way from `u₀` the reader comes to the frame of a block, and goes on in the block
after every buffer. -/
def GoesThrough (zstd : Zstd) (id : UInt8) (u₀ : OticUnpack) (block : List Piece) : Prop :=
  ∃ u₁ ch frame rest, Loop.Goes (OticUnpack.parse zstd) u₀ u₁ ∧
    u₁.input = Event.dataHeader id frame.length ++ (frame ++ rest) ∧
    u₁.findChannel id = some ch ∧
    zstd.decompress ch.base.cacheSize.toNat frame = some (encodePieces block) ∧
    ch.Continues u₁.version block

/-- A reader that selected the channel goes through every block, delivers the rows of the
records as if there were nothing else, and finds the number of rows to be right. -/
def Undisturbed (zstd : Zstd) (seeker : Bool) (id : UInt8) (input : List UInt8)
    (blocks : List (List Piece)) : Prop :=
  ∃ u₀ u, OticUnpack.start seeker [id] input = .ok u₀ ∧ u₀.parseAll zstd = .ok u ∧
    u.calls.map Prod.snd = (View.init.applyAll (recordsIn blocks.flatten)).rows ∧
    (∀ ch ∈ u.channels, ch.base.error ≠ .rowCountMismatch) ∧
    ∀ block ∈ blocks, GoesThrough zstd id u₀ block

/-- How the pieces of a closed channel were divided into blocks. -/
structure DividedInto (h : Handle) (ps : List Piece) (blocks : List (List Piece)) : Prop where
  pieces : blocks.flatten = ps
  blocks : h.channel.cCtx = blocks.map encodePieces

/-- The index is taken for the number of bytes to skip, which are the length field and
the contents; behind the last piece of a block there may be more to skip. -/
def Passes (index : UInt32) (bytes : List UInt8) (after : List Piece) : Prop :=
  index.toNat = 8 + bytes.length ∨ (after = [] ∧ 8 + bytes.length ≤ index.toNat)

/-- All buffers of a block are passed. -/
def AllPass (block : List Piece) : Prop :=
  ∀ before index bytes after, block = before ++ .buffer index bytes :: after →
    Passes index bytes after

theorem AllPass.tail {p : Piece} {ps : List Piece} (hall : AllPass (p :: ps)) : AllPass ps := by
  rintro before index bytes after rfl
  exact hall (p :: before) index bytes after rfl

theorem AllPass.head {index : UInt32} {bytes : List UInt8} {ps : List Piece}
    (hall : AllPass (.buffer index bytes :: ps)) : Passes index bytes ps :=
  hall [] index bytes ps rfl

/-! ### Pieces -/

variable {zstd : Zstd} {seeker : Bool} {id : UInt8} {version : UInt8} {ch : Unpack.Channel}
  {fr : Unpack.Frame} {v : View} {rest : List UInt8}

/-- What is left after a buffer, whatever there was. -/
theorem parseRecord_buffer {index : UInt32} {bytes : List UInt8}
    (htop : ch.top = (Piece.buffer index bytes).encode ++ rest) :
    ∃ topEnd, parseRecord version ch = .ok (true, { ch with
      top := (Bytes.ofUInt64 (UInt64.ofNat bytes.length) ++ (bytes ++ rest)).drop index.toNat
      topEnd := topEnd }) := by
  have hlow : index.toUInt64.toUInt32 = index := by simp
  rw [Piece.encode, List.cons_append, List.append_assoc, List.append_assoc] at htop
  simp only [parseRecord, htop, Unpack.Channel.readTagged_toByte, readRecord,
    OticType.ofByte?_toByte, readRawbuffer, leb128DecodeUnsigned_encode, Exec.ok_bind, hlow]
  exact ⟨_, rfl⟩

theorem drop_eq_iff (index : UInt32) (bytes : List UInt8) (after : List Piece) :
    (Bytes.ofUInt64 (UInt64.ofNat bytes.length) ++ (bytes ++ encodePieces after)).drop index.toNat =
      encodePieces after ↔ Passes index bytes after := by
  have hfield := Bytes.length_ofUInt64 (UInt64.ofNat bytes.length)
  rw [← List.append_assoc]
  constructor
  · intro hdrop
    have hlength := congrArg List.length hdrop
    rw [List.length_drop, List.length_append, List.length_append, hfield] at hlength
    cases after with
    | nil =>
      rw [encodePieces_nil, List.length_nil] at hlength
      exact Or.inr ⟨rfl, by omega⟩
    | cons p ps =>
      have hpos := p.length_encode_pos
      rw [encodePieces_cons, List.length_append] at hlength
      exact Or.inl (by omega)
  · rintro (hexact | ⟨rfl, hmore⟩)
    · rw [List.drop_left' (by rw [List.length_append, hfield, hexact])]
    · rw [encodePieces_nil, List.append_nil]
      exact List.drop_eq_nil_of_le (by rw [List.length_append, hfield]; exact hmore)

/-- **One piece.**  A record is read as ever, and a buffer that is passed leaves no
trace. -/
theorem parseRecord_piece (hversion : version ≠ 1) {p : Piece} {after : List Piece}
    (hch : ch.Stands fr v (encodePieces (p :: after))) (hfetch : fr.toFetch = [])
    (hvalid : ValidFrom v.sensors.length (recordsIn [p])) (hall : AllPass (p :: after)) :
    ∃ ch', parseRecord version ch = .ok (true, ch') ∧
      ch'.Stands fr (v.applyAll (recordsIn [p])) (encodePieces after) := by
  rw [encodePieces_cons] at hch
  cases p with
  | record r => exact Unpack.Channel.parseRecord_encode hversion hch hfetch hvalid.1
  | buffer index bytes =>
    obtain ⟨topEnd, hparse⟩ := @parseRecord_buffer version _ _ _ _ hch.top
    refine ⟨_, hparse, ?_⟩
    rw [(drop_eq_iff index bytes after).mpr hall.head]
    exact ⟨⟨hch.wellFormed.slots, hch.wellFormed.total⟩, hch.view, rfl, hch.frame⟩

theorem recordsIn_cons (p : Piece) (ps : List Piece) :
    recordsIn (p :: ps) = recordsIn [p] ++ recordsIn ps := recordsIn_append [p] ps

/-- **Some pieces of a block**, one after the other. -/
theorem goes_pieces (hversion : version ≠ 1) (hfetch : fr.toFetch = []) {before after : List Piece}
    (hch : ch.Stands fr v (encodePieces (before ++ after)))
    (hvalid : ValidFrom v.sensors.length (recordsIn before)) (hall : AllPass (before ++ after)) :
    ∃ ch', Loop.Goes (parseRecord version) ch ch' ∧
      ch'.Stands fr (v.applyAll (recordsIn before)) (encodePieces after) := by
  induction before generalizing ch v with
  | nil => exact ⟨ch, .refl ch, hch⟩
  | cons p before ih =>
    rw [recordsIn_cons, validFrom_append] at hvalid
    obtain ⟨ch₁, hparse, hch₁⟩ := parseRecord_piece hversion hch hfetch hvalid.1 hall
    obtain ⟨ch', hgoes, hch'⟩ := ih hch₁ (by
      rw [View.applyAll_sensors_length]
      exact hvalid.2) hall.tail
    refine ⟨ch', .step hparse hgoes, ?_⟩
    rw [recordsIn_cons, View.applyAll_append]
    exact hch'

theorem foldl_recordsIn (v : View) (block : List Piece) :
    block.foldl (fun v p => v.applyAll (recordsIn [p])) v = v.applyAll (recordsIn block) := by
  induction block generalizing v with
  | nil => rfl
  | cons p ps ih => rw [List.foldl_cons, ih, recordsIn_cons p ps, View.applyAll_append]

theorem length_le_length_encodePieces (ps : List Piece) :
    ps.length ≤ (encodePieces ps).length := by
  induction ps with
  | nil => exact Nat.zero_le _
  | cons p ps ih =>
    have hpos := p.length_encode_pos
    rw [encodePieces_cons, List.length_append, List.length_cons]
    omega

/-- **A block** all of whose buffers are passed. -/
theorem parseBlock_pieces (hversion : version ≠ 1) (hfetch : fr.toFetch = []) {block : List Piece}
    (hch : ch.Stands fr v (encodePieces block))
    (hvalid : ValidFrom v.sensors.length (recordsIn block)) (hall : AllPass block) :
    ∃ ch', parseBlock version ch = .ok ch' ∧ ch'.Stands fr (v.applyAll (recordsIn block)) [] := by
  have hloop := @Loop.run_refines_foldl _ _ (parseRecord version) _ _
    (fun v p => v.applyAll (recordsIn [p]))
    (fun ps v ch => Stands fr v (encodePieces ps) ch ∧
      ValidFrom v.sensors.length (recordsIn ps) ∧ AllPass ps)
    (fun v ch => Stands fr v [] ch)
    (fun p ps v ch hat => by
      obtain ⟨hch, hvalid, hall⟩ := hat
      rw [recordsIn_cons, validFrom_append] at hvalid
      obtain ⟨ch', hparse, hch'⟩ := parseRecord_piece hversion hch hfetch hvalid.1 hall
      refine ⟨ch', hparse, hch', ?_, hall.tail⟩
      rw [View.applyAll_sensors_length]
      exact hvalid.2)
    (fun v ch hat => ⟨ch, by simp [parseRecord, hat.1.top], hat.1⟩)
    block v ch ⟨hch, hvalid, hall⟩ (ch.top.length + 1)
    (by
      rw [hch.top]
      exact Nat.lt_succ_of_le (length_le_length_encodePieces block))
  obtain ⟨ch', hrun, hch'⟩ := hloop
  rw [foldl_recordsIn] at hch'
  exact ⟨ch', by simp only [parseBlock, hrun, Exec.ok_bind], hch'⟩

/-! ### Files -/

/-- A reader of one channel that has read what `v` says. -/
structure Standing (size : UInt32) (id : UInt8) (v : View) (rest : List UInt8) (u : OticUnpack) :
    Prop where
  input : u.input = rest
  version : u.version = OTIC_VERSION_MAJOR
  calls : u.calls = v.rows.map fun row => (id, row)
  channel : ∃ ch fr top, u.channels = [ch] ∧ ch.channelId = id ∧ ch.Stands fr v top ∧
    fr.toFetch = [] ∧ ch.base.cacheSize = size ∧ ch.cacheAlloc = size.toNat ∧
    ch.outAlloc = size.toNat

/-- The reader of a file with one channel, after the definition. -/
theorem start_standing (seeker : Bool) (id features channelType : UInt8) (size : UInt32)
    (rest : List UInt8) :
    ∃ u₀ u, OticUnpack.start seeker [id]
        (fileHeader features ++ (Event.defineBytes id channelType size ++ rest)) = .ok u₀ ∧
      Loop.Goes (OticUnpack.parse zstd) u₀ u ∧ Standing size id View.init rest u := by
  obtain ⟨u₀, hstart, hreads⟩ := start_reads Unpack.Channel.Allocated seeker
    (List.nodup_singleton id) features (Event.defineBytes id channelType size ++ rest)
    fun _ _ hnone => nomatch hnone
  obtain ⟨u, hgoes, hreads'⟩ := @parse_define zstd _ _ [] _ id channelType size hreads
  refine ⟨u₀, u, hstart, hgoes, hreads'.input, hreads'.version, hreads'.calls, ?_⟩
  obtain ⟨ch, hmem, -, hid⟩ := hreads'.find (List.mem_singleton.mpr rfl)
  obtain ⟨⟨fr, top, hstands, hfetch⟩, hallocated⟩ := hreads'.holds ch hmem
  have hsize : sizeOf ch.channelId ([] ++ [.define id channelType size]) = some size := by
    rw [sizeOf_concat_define, if_pos hid.symm]
  obtain ⟨hcache, hcacheAlloc, houtAlloc⟩ := hallocated size hsize
  refine ⟨ch, fr, top, ?_, hid, ?_, hfetch, hcache, hcacheAlloc, houtAlloc⟩
  · -- every channel has the one id that was selected, and no two have the same
    have hall : ∀ ch' ∈ u.channels, ch'.channelId = id := by
      intro ch' hch'
      exact List.mem_singleton.mp ((hreads'.ids _).mp (List.mem_map_of_mem hch'))
    have hdistinct := hreads'.distinct
    rcases hchannels : u.channels with _ | ⟨first, _ | ⟨second, others⟩⟩
    · rw [hchannels] at hmem
      cases hmem
    · rw [hchannels, List.mem_singleton] at hmem
      rw [hmem]
    · rw [hchannels] at hall hdistinct
      have hfirst := hall first (by simp)
      have hsecond := hall second (by simp)
      simp [hfirst, hsecond] at hdistinct
  · have hnone : recordsOf ch.channelId ([] ++ [Event.define id channelType size]) = [] := rfl
    rw [hnone] at hstands
    exact hstands

/-- The block of a shipment. -/
structure Fetched (zstd : Zstd) (size : UInt32) (s : Shipment) : Prop where
  compressed : zstd.compress size.toNat (encodePieces s.block) = some s.frame
  short : s.frame.length < UInt32.size
  bounded : (encodePieces s.block).length ≤ size.toNat

theorem Standing.found {size : UInt32} {u : OticUnpack} (hat : Standing size id v rest u) :
    ∃ ch fr top, u.findChannel id = some ch ∧ ch.Stands fr v top ∧ fr.toFetch = [] ∧
      ch.base.cacheSize = size := by
  obtain ⟨ch, fr, top, hchannels, hid, hstands, hfetch, hcache, -, -⟩ := hat.channel
  refine ⟨ch, fr, top, ?_, hstands, hfetch, hcache⟩
  simp [OticUnpack.findChannel, hchannels, hid]

/-- **A DATA frame** is read in one step, if its block takes the channel to another view. -/
theorem Standing.dataFrame (hlossless : zstd.Lossless) {size : UInt32} {u : OticUnpack}
    {bytes frame : List UInt8} {v' : View}
    (hat : Standing size id v (Event.dataHeader id frame.length ++ frame ++ rest) u)
    (hcompress : zstd.compress size.toNat bytes = some frame) (hshort : frame.length < UInt32.size)
    (hbounded : bytes.length ≤ size.toNat) (hrows : v.rows <+: v'.rows)
    (hread : ∀ (fr : Unpack.Frame) (ch : Unpack.Channel), fr.toFetch = [] →
      ch.Stands fr v bytes →
      ∃ ch', parseBlock OTIC_VERSION_MAJOR ch = .ok ch' ∧ ch'.Stands fr v' []) :
    ∃ u', u.parse zstd = .ok (true, u') ∧ Standing size id v' rest u' := by
  obtain ⟨ch, fr, top, hchannels, hid, hstands, hfetch, hcache, hcacheAlloc, houtAlloc⟩ :=
    hat.channel
  have hinput := hat.input
  rw [List.append_assoc] at hinput
  have hahead := dataAhead hinput hshort
  have hfind : { u with input := frame ++ rest }.findChannel id = some ch := by
    simp [OticUnpack.findChannel, hchannels, hid]
  have hframe := hlossless.compress_le hcompress
  have hdecompress := @decompress_load _ hlossless _ _ _ hcompress (ch.receive frame)
    (hbounded.trans_eq (congrArg UInt32.toNat hcache).symm) (hbounded.trans_eq houtAlloc.symm)
  obtain ⟨ch', hblock, hch'⟩ := hread fr _ hfetch ((hstands.receive frame).load bytes)
  have hsame : ch'.frame = ch.frame := hch'.frame.trans hstands.frame.symm
  rw [← hat.version] at hblock
  rw [OticUnpack.parse, hahead.head]
  simp only [MetaType.ofByte?_toByte, hahead.size, Bytes.toUInt32_ofUInt32, hahead.count, hfind,
    OticUnpack.readData]
  rw [if_neg (by omega), hahead.payload]
  simp only [hdecompress, Exec.ok_bind, if_true, hblock]
  refine ⟨_, rfl, rfl, hat.version, ?_, ch', fr, [], ?_, ?_, hch', hfetch, ?_, ?_, ?_⟩
  · -- what was delivered before is a prefix of what has been delivered now
    have hbefore : ch.flushed = v.rows := congrArg View.rows hstands.view
    have hafter : ch'.flushed = v'.rows := congrArg View.rows hch'.view
    obtain ⟨more, hmore⟩ := hrows
    simp only [OticUnpack.store, OticUnpack.modify, hat.calls, hbefore, hafter, hid, ← hmore,
      List.drop_left, List.map_append]
  · simp [OticUnpack.store, OticUnpack.modify, hchannels]
  · rw [← hid]
    exact congrArg Unpack.Frame.channelId hsame
  · rw [← hcache]
    exact congrArg Unpack.Frame.cacheSize hsame
  · rw [← hcacheAlloc]
    exact congrArg Unpack.Frame.cacheAlloc hsame
  · rw [← houtAlloc]
    exact congrArg Unpack.Frame.outAlloc hsame

/-- **A block** is read in one step. -/
theorem Standing.block (hlossless : zstd.Lossless) {size : UInt32} {u : OticUnpack} {s : Shipment}
    (hat : Standing size id v (s.bytes id ++ rest) u) (hfetched : Fetched zstd size s)
    (hvalid : ValidFrom v.sensors.length (recordsIn s.block)) (hall : AllPass s.block) :
    ∃ u', u.parse zstd = .ok (true, u') ∧
      Standing size id (v.applyAll (recordsIn s.block)) rest u' := by
  have hrows := View.rows_isPrefix_applyAll v (recordsIn s.block)
  apply hat.dataFrame hlossless hfetched.compressed hfetched.short hfetched.bounded hrows
  intro fr ch hfetch hch
  exact parseBlock_pieces (show OTIC_VERSION_MAJOR ≠ 1 by decide) hfetch hch hvalid hall

/-- **Any number of blocks.** -/
theorem Standing.blocks (hlossless : zstd.Lossless) {size : UInt32} {sent : List Shipment}
    (hfetched : ∀ s ∈ sent, Fetched zstd size s) (hall : ∀ s ∈ sent, AllPass s.block) :
    ∀ {v : View} {u : OticUnpack}, Standing size id v (sent.flatMap (Shipment.bytes id) ++ rest) u →
      ValidFrom v.sensors.length (recordsIn (sent.flatMap Shipment.block)) →
      ∃ u', Loop.Goes (OticUnpack.parse zstd) u u' ∧
        Standing size id (v.applyAll (recordsIn (sent.flatMap Shipment.block))) rest u' := by
  induction sent with
  | nil => exact fun hat _ => ⟨_, .refl _, hat⟩
  | cons s sent ih =>
    intro v u hat hvalid
    rw [List.flatMap_cons, List.append_assoc] at hat
    rw [List.flatMap_cons, recordsIn_append, validFrom_append] at hvalid
    obtain ⟨u₁, hparse, hat₁⟩ := hat.block hlossless (hfetched s List.mem_cons_self) hvalid.1
      (hall s List.mem_cons_self)
    obtain ⟨u', hgoes, hat'⟩ := ih (fun s' hs' => hfetched s' (List.mem_cons_of_mem _ hs'))
      (fun s' hs' => hall s' (List.mem_cons_of_mem _ hs')) hat₁ (by
        rw [View.applyAll_sensors_length]
        exact hvalid.2)
    refine ⟨u', .step hparse hgoes, ?_⟩
    rw [List.flatMap_cons, recordsIn_append, View.applyAll_append]
    exact hat'

/-- A buffer that is not passed stops the reader from going on after it. -/
theorem passes_of_continues {block : List Piece} (hcontinues : ch.Continues version block) :
    AllPass block := by
  intro before index bytes after hblock
  obtain ⟨ch₁, ch₂, -, htop, hparse, htop'⟩ := hcontinues before index bytes after hblock
  obtain ⟨topEnd, hbuffer⟩ := @parseRecord_buffer version _ _ _ _ htop
  rw [hbuffer] at hparse
  cases hparse
  exact (drop_eq_iff index bytes after).mp htop'

theorem continues_of_passes (hversion : version ≠ 1) {top : List UInt8} {block : List Piece}
    (hch : ch.Stands fr v top) (hfetch : fr.toFetch = [])
    (hvalid : ValidFrom v.sensors.length (recordsIn block)) (hall : AllPass block) :
    ch.Continues version block := by
  rintro before index bytes after rfl
  rw [recordsIn_append, validFrom_append] at hvalid
  obtain ⟨ch₁, hgoes, hch₁⟩ := goes_pieces hversion hfetch (hch.withTop _) hvalid.1 hall
  have htop := hch₁.top
  rw [encodePieces_cons] at htop
  obtain ⟨topEnd, hparse⟩ := @parseRecord_buffer version _ _ _ _ htop
  refine ⟨ch₁, _, hgoes, htop, hparse, ?_⟩
  exact (drop_eq_iff index bytes after).mpr (hall before index bytes after rfl)

/-! ### Counting -/

/-- The end mark finds the right number of rows exactly if the buffers, which it counts
too, number a multiple of 2^64. -/
theorem error_closed {enc : Encoder} {ps : List Piece} (hwrote : enc.Wrote ps) :
    (View.init.applyAll (recordsIn ps ++ [.eof enc.rowCounter])).error ≠ .rowCountMismatch ↔
      2 ^ 64 ∣ buffersIn ps := by
  obtain ⟨hcounter, herror⟩ := @View.counted_applyAll _ View.init hwrote.valid hwrote.unmarked
  have hstart : View.init.rowCounter + UInt64.ofNat (rowsIn (recordsIn ps)) =
      UInt64.ofNat (rowsIn (recordsIn ps)) := UInt64.zero_add _
  have hsame : enc.rowCounter = UInt64.ofNat (rowsIn (recordsIn ps)) ↔ 2 ^ 64 ∣ buffersIn ps := by
    rw [hwrote.rows, ← UInt64.toNat_inj, UInt64.toNat_ofNat', UInt64.toNat_ofNat']
    omega
  rw [View.applyAll_append, View.applyAll_cons, View.applyAll_nil, View.apply, hcounter, hstart,
    ← hsame]
  split
  · rename_i hwrong
    exact ⟨fun hnot => absurd rfl hnot, fun hright => absurd hright hwrong⟩
  · rename_i hright
    rw [herror]
    exact ⟨fun _ => not_not.mp hright, fun _ hmismatch => by cases hmismatch⟩

/-! ### The channel of a new pack -/

variable {features channelType : UInt8} {bufferSize : UInt32} {answers : List Bool} {h : Handle}
  {ps : List Piece}

/-- What is left of a run when the channel is closed. -/
theorem Pack.Mixed.closed (hid : id ≠ 0)
    (hr : Mixed zstd (firstChannel features channelType id bufferSize answers) h ps)
    (hsteady : (h.finish zstd).channel.failures = h.channel.failures)
    (hinside : (h.finish zstd).channel.overrun = false) :
    ∃ sent : List Shipment, (sent.flatMap Shipment.block = closedPieces h ps) ∧
      (h.finish zstd).channel.cCtx = (sent.map Shipment.block).map encodePieces ∧
      (h.finish zstd).parent.accepted = fileHeader features ++
        (Event.defineBytes id channelType (OticPack.effectiveSize bufferSize) ++
          sent.flatMap (Shipment.bytes id)) ∧
      (∀ s ∈ sent, Fetched zstd (OticPack.effectiveSize bufferSize) s) ∧
      h.channel.encoder.Wrote ps := by
  obtain ⟨hlays, hwrote⟩ := hr.lays rfl rfl
  obtain ⟨sent, hlaid, hps⟩ := hlays.finish hsteady hinside
  refine ⟨sent, hps, ?_, ?_, ?_, hwrote⟩
  · rw [hlaid.blocks, List.map_map]
    rfl
  · rw [hlaid.accepted, accepted_firstChannel hid, List.append_assoc]
    rfl
  · intro s hs
    obtain ⟨hcompressed, hshort, hbounded⟩ := hlaid.compressed s hs
    exact ⟨hcompressed, hshort, hbounded⟩

theorem read_closed (hlossless : zstd.Lossless) {size : UInt32} {sent : List Shipment}
    (hfetched : ∀ s ∈ sent, Fetched zstd size s) (hall : ∀ s ∈ sent, AllPass s.block)
    (hvalid : ValidFrom 0 (recordsIn (sent.flatMap Shipment.block))) :
    ∃ u₀ u, OticUnpack.start seeker [id] (fileHeader features ++
        (Event.defineBytes id channelType size ++ sent.flatMap (Shipment.bytes id))) = .ok u₀ ∧
      u₀.parseAll zstd = .ok u ∧
      Standing size id (View.init.applyAll (recordsIn (sent.flatMap Shipment.block))) [] u ∧
      ∀ s ∈ sent, GoesThrough zstd id u₀ s.block := by
  obtain ⟨u₀, u, hstart, hgoes, hat⟩ := @start_standing zstd seeker id features channelType size
    (sent.flatMap (Shipment.bytes id))
  refine ⟨u₀, ?_⟩
  obtain ⟨u', hgoes', hat'⟩ := Standing.blocks hlossless hfetched hall
    (show Standing size id View.init (sent.flatMap (Shipment.bytes id) ++ []) u by
      rw [List.append_nil]
      exact hat) hvalid
  have hstop : u'.parse zstd = .ok (false, u') := by
    rw [OticUnpack.parse, fetch_none (by simp [hat'.input])]
  have hrun := (hgoes.trans hgoes').run hstop (fun u => u.input.length)
    (fun _ _ => length_input_of_parse) (u₀.input.length + 1) (Nat.lt_succ_self _)
  refine ⟨u', hstart, ?_, hat', ?_⟩
  · rw [OticUnpack.parseAll, hrun]
    rfl
  · intro s hs
    obtain ⟨past, future, rfl⟩ := List.append_of_mem hs
    rw [List.flatMap_append, List.flatMap_cons] at hat
    rw [List.flatMap_append, recordsIn_append, validFrom_append, List.flatMap_cons,
      recordsIn_append, validFrom_append] at hvalid
    obtain ⟨u₁, hgoes₁, hat₁⟩ := Standing.blocks hlossless
      (fun s' hs' => hfetched s' (List.mem_append_left _ hs'))
      (fun s' hs' => hall s' (List.mem_append_left _ hs')) hat hvalid.1
    obtain ⟨ch, fr, top, hfind, hstands, hfetch, hcache⟩ := hat₁.found
    have hs' := hfetched s (by simp)
    refine ⟨u₁, ch, s.frame, future.flatMap (Shipment.bytes id), hgoes.trans hgoes₁, ?_, hfind,
      ?_, ?_⟩
    · rw [hat₁.input, Shipment.bytes, List.append_assoc]
    · rw [hcache]
      exact hlossless.decompress_compress hs'.compressed hs'.bounded
    · rw [hat₁.version]
      apply continues_of_passes (by decide) hstands hfetch
      · rw [View.applyAll_sensors_length]
        exact hvalid.2.1
      · exact hall s (by simp)

/-- **Raw buffers do not disturb the stream** exactly if every one of them is passed and
they number a multiple of 2^64. -/
theorem undisturbed_iff (hlossless : zstd.Lossless) (hid : id ≠ 0)
    (hr : Mixed zstd (firstChannel features channelType id bufferSize answers) h ps)
    (hsteady : (h.finish zstd).channel.failures = h.channel.failures)
    (hinside : (h.finish zstd).channel.overrun = false) :
    ∃ blocks, DividedInto (h.finish zstd) (closedPieces h ps) blocks ∧
      (Undisturbed zstd seeker id (h.finish zstd).parent.accepted blocks ↔
        (∀ block ∈ blocks, AllPass block) ∧ 2 ^ 64 ∣ buffersIn ps) := by
  obtain ⟨sent, hps, hblocks, haccepted, hfetched, hwrote⟩ := hr.closed hid hsteady hinside
  have hflatten : (sent.map Shipment.block).flatten = closedPieces h ps := by
    rw [← hps, List.flatMap_def]
  have hrecords : recordsIn (closedPieces h ps) =
      recordsIn ps ++ [.eof h.channel.encoder.rowCounter] := recordsIn_append _ _
  have hvalid : ValidFrom 0 (recordsIn (sent.flatMap Shipment.block)) := by
    rw [hps, hrecords, validFrom_append]
    exact ⟨hwrote.valid, fun i hi => (by cases hi), trivial⟩
  refine ⟨sent.map Shipment.block, ⟨hflatten, hblocks⟩, ?_⟩
  rw [haccepted]
  constructor
  · rintro ⟨u₀, u, hstart, hread, hrows, herror, hcontinues⟩
    have hall : ∀ s ∈ sent, AllPass s.block := by
      intro s hs
      obtain ⟨u₁, ch, frame, rest, -, -, -, -, hcontinue⟩ :=
        hcontinues s.block (List.mem_map_of_mem hs)
      exact passes_of_continues hcontinue
    constructor
    · intro block hblock
      obtain ⟨s, hs, rfl⟩ := List.mem_map.mp hblock
      exact hall s hs
    · -- so the file is read to its end, where the numbers are compared
      obtain ⟨u₀', u', hstart', hread', hat, -⟩ := @read_closed zstd seeker id features channelType
        hlossless _ _ hfetched hall hvalid
      rw [hstart] at hstart'
      cases hstart'
      rw [hread] at hread'
      cases hread'
      obtain ⟨ch, fr, top, hchannels, -, hstands, -⟩ := hat.channel
      rw [hps, hrecords] at hstands
      have hquiet := herror ch (by simp [hchannels])
      rw [show ch.base.error = _ from congrArg View.error hstands.view] at hquiet
      exact (error_closed hwrote).mp hquiet
  · rintro ⟨hall, hcount⟩
    have hall' : ∀ s ∈ sent, AllPass s.block := fun s hs => hall _ (List.mem_map_of_mem hs)
    obtain ⟨u₀, u, hstart, hread, hat, hcontinues⟩ := @read_closed zstd seeker id features
      channelType hlossless _ _ hfetched hall' hvalid
    refine ⟨u₀, u, hstart, hread, ?_, ?_, ?_⟩
    · rw [hat.calls, List.map_map, hflatten, hps]
      exact List.map_id _
    · intro ch hch
      obtain ⟨ch', fr, top, hchannels, -, hstands, -⟩ := hat.channel
      rw [hchannels, List.mem_singleton] at hch
      subst hch
      rw [hps, hrecords] at hstands
      rw [show ch.base.error = _ from congrArg View.error hstands.view]
      exact (error_closed hwrote).mpr hcount
    · intro block hblock
      obtain ⟨s, hs, rfl⟩ := List.mem_map.mp hblock
      exact hcontinues s hs

/-- A channel of 1024 bytes, after a buffer of two bytes. -/
def afterTwoBytes : Handle := (twoBytes.inject Zstd.stored (firstChannel 0 0 1 1024 [])).2

def piecesOfTwoBytes : List Piece := [] ++ twoBytes.pieces Zstd.stored (firstChannel 0 0 1 1024 [])

theorem mixed_twoBytes : Mixed Zstd.stored (firstChannel 0 0 1 1024 []) afterTwoBytes
    piecesOfTwoBytes :=
  .inject twoBytes .start (fun aval hvalue => by cases hvalue) (by decide +kernel)
    (by decide +kernel)

theorem undisturbed_iff_twoBytes :
    ∃ blocks, DividedInto (afterTwoBytes.finish Zstd.stored)
        (closedPieces afterTwoBytes piecesOfTwoBytes) blocks ∧
      (Undisturbed Zstd.stored false 1 (afterTwoBytes.finish Zstd.stored).parent.accepted blocks ↔
        (∀ block ∈ blocks, AllPass block) ∧ 2 ^ 64 ∣ buffersIn piecesOfTwoBytes) :=
  undisturbed_iff Zstd.stored_lossless (by decide) mixed_twoBytes (by decide +kernel)
    (by decide +kernel)

/-- The two bytes have the index 0, so that nothing is skipped. -/
theorem not_undisturbed_twoBytes :
    ∃ blocks, DividedInto (afterTwoBytes.finish Zstd.stored)
        (closedPieces afterTwoBytes piecesOfTwoBytes) blocks ∧
      ¬ Undisturbed Zstd.stored false 1 (afterTwoBytes.finish Zstd.stored).parent.accepted
        blocks := by
  obtain ⟨sent, hps, hblocks, -⟩ :=
    mixed_twoBytes.closed (by decide) (by decide +kernel) (by decide +kernel)
  have hflatten : (sent.map Shipment.block).flatten =
      closedPieces afterTwoBytes piecesOfTwoBytes := by
    rw [← hps, List.flatMap_def]
  refine ⟨sent.map Shipment.block, ⟨hflatten, hblocks⟩, ?_⟩
  rintro ⟨u₀, u, -, -, -, -, hcontinues⟩
  have hwritten : Piece.buffer 0 [1, 2] ∈ (sent.map Shipment.block).flatten := by
    have haccepted : (twoBytes.inject Zstd.stored (firstChannel 0 0 1 1024 [])).1 = true := by
      decide +kernel
    have hrow : Piece.buffer 0 [1, 2] ∈ twoBytes.rowPieces
        { (firstChannel 0 0 1 1024 []).channel.encoder with timestampCurrent := twoBytes.tick } :=
      List.mem_cons_of_mem _ (List.mem_singleton.mpr rfl)
    rw [hflatten, closedPieces, piecesOfTwoBytes, AnyCall.pieces, if_pos haccepted, List.nil_append]
    exact List.mem_append_left _ (List.mem_append_right _ hrow)
  obtain ⟨block, hblock, hmem⟩ := List.mem_flatten.mp hwritten
  obtain ⟨before, after, rfl⟩ := List.append_of_mem hmem
  obtain ⟨u₁, ch, frame, rest, -, -, -, -, hcontinue⟩ := hcontinues _ hblock
  rcases passes_of_continues hcontinue before 0 [1, 2] after rfl with hexact | ⟨-, hmore⟩
  · exact absurd hexact (by decide)
  · exact absurd hmore (by decide)

end Otic
