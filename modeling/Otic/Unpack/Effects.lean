import Otic.Unpack.Reads

/-!
# What reading a frame can do

A frame has two bytes in front, some more that belong to its type, and a payload if it is
a DATA frame.  `Payload`, `Parsed` and `Passed` list what the calls do with each of these
when they do not fault.
-/

namespace Otic.Unpack.OticUnpack

variable {zstd : Zstd} {u w : OticUnpack}

/-! ### Fetches -/

theorem mem_of_findChannel {id : UInt8} {ch : Channel} (hfind : u.findChannel id = some ch) :
    ch ∈ u.channels ∧ ch.channelId = id :=
  ⟨List.mem_of_find?_eq_some hfind, by simpa using List.find?_some hfind⟩

theorem fetch_eq_some {n : Nat} {bytes : List UInt8} (hfetch : u.fetch n = some (bytes, w)) :
    ∃ input, input.length + n = u.input.length ∧ w = { u with input := input } := by
  have hlength := length_of_fetch hfetch
  unfold fetch at hfetch
  split at hfetch
  · cases hfetch
    exact ⟨_, hlength, rfl⟩
  · cases hfetch

/-- The head of a frame has two bytes. -/
theorem fetch_two (u : OticUnpack) :
    u.fetch 2 = none ∨ ∃ byte id w, u.fetch 2 = some ([byte, id], w) := by
  unfold fetch
  split
  · rename_i hlength
    match hinput : u.input with
    | [] => rw [hinput] at hlength; cases hlength
    | [_] => rw [hinput] at hlength; simp at hlength
    | byte :: id :: rest => exact Or.inr ⟨byte, id, _, rfl⟩
  · exact Or.inl rfl

/-- A payload is passed over, and nothing else changes. -/
theorem skip_eq (u : OticUnpack) (size : Nat) :
    ∃ input, input.length ≤ u.input.length ∧ u.skip size = { u with input := input } := by
  refine ⟨(u.skip size).input, length_skip_le u size, ?_⟩
  unfold skip
  split
  · rfl
  · split
    · rfl
    · rename_i hfetch
      obtain ⟨input, -, rfl⟩ := fetch_eq_some hfetch
      rfl

theorem fetchInto_of_fetch {ch : Channel} {size : Nat} {frame : List UInt8}
    (hpayload : u.fetch size = some (frame, w)) :
    u.fetchInto ch size = .ok (frame, ch.receive frame, w) := by
  unfold fetchInto
  rw [hpayload]

/-- Whether the fetch fails or not, only the input and what is in `base.cache` change. -/
theorem fetchInto_eq_ok {ch ch' : Channel} {size : Nat} {frame : List UInt8}
    (hpayload : u.fetchInto ch size = .ok (frame, ch', w)) :
    ∃ input cached, input.length ≤ u.input.length ∧ w = { u with input := input } ∧
      ch' = { ch with cached := cached } := by
  unfold fetchInto at hpayload
  split at hpayload
  · rename_i hfetch
    cases hpayload
    obtain ⟨input, hlength, rfl⟩ := fetch_eq_some hfetch
    exact ⟨input, _, by omega, rfl, rfl⟩
  · split at hpayload
    · cases hpayload
    · cases hpayload
      exact ⟨u.input, ch.cached, le_rfl, rfl, rfl⟩

/-! ### `otic_unpack_parse` -/

/-- **What decompressing does**: the block is loaded, or what is left of it spoils `out`. -/
theorem decompress_eq_ok {ch ch' : Channel} {frame : List UInt8} {ok : Bool} :
    decompress zstd ch frame = .ok (ok, ch') ↔
      (ok = true ∧ ∃ block, zstd.decompress ch.base.cacheSize.toNat frame = some block ∧
        ¬ ch.outAlloc < block.length ∧ ch' = ch.load block) ∨
      (ok = false ∧ zstd.decompress ch.base.cacheSize.toNat frame = none ∧
        ∃ out, out = zstd.remains ch.base.cacheSize.toNat frame ch.out ∧
          ¬ ch.outAlloc < out.length ∧ ch' = ch.spoil out) := by
  unfold decompress
  constructor
  · intro h
    dsimp only at h
    split at h
    · split at h
      · cases h
      · cases h
        exact Or.inr ⟨rfl, ‹_›, _, rfl, ‹_›, rfl⟩
    · split at h
      · cases h
      · cases h
        exact Or.inl ⟨rfl, _, ‹_›, ‹_›, rfl⟩
  · rintro (⟨rfl, block, hblock, hroom, rfl⟩ | ⟨rfl, hblock, out, rfl, hroom, rfl⟩)
    · simp only [hblock, if_neg hroom]
    · simp only [hblock, if_neg hroom]

/-- **What `otic_unpack_read_data` does.** -/
inductive Payload (zstd : Zstd) (u : OticUnpack) (ch : Channel) (size : Nat) :
    Bool × OticUnpack → Prop
  | short (hpayload : u.fetch size = none) :
      Payload zstd u ch size (false, u.store ch (ch.setBlockSize size))
  | broken {frame out : List UInt8} {w : OticUnpack} (hpayload : u.fetch size = some (frame, w))
      (hblock : decompress zstd (ch.receive frame) frame =
        .ok (false, (ch.receive frame).spoil out)) :
      Payload zstd u ch size (false, (w.store ch ((ch.receive frame).spoil out)).fail .zstd)
  | read {frame block : List UInt8} {w : OticUnpack} {ch' : Channel}
      (hpayload : u.fetch size = some (frame, w))
      (hblock : decompress zstd (ch.receive frame) frame =
        .ok (true, (ch.receive frame).load block))
      (hparse : Channel.parseBlock w.version ((ch.receive frame).load block) = .ok ch') :
      Payload zstd u ch size (true, w.store ch ch')

theorem readData_eq_ok {ch : Channel} {size : Nat} {out : Bool × OticUnpack} :
    u.readData zstd ch size = .ok out ↔
      ¬ ch.cacheAlloc < size ∧ Payload zstd u ch size out := by
  constructor
  · intro hread
    unfold readData at hread
    split at hread
    · cases hread
    rename_i hcache
    refine ⟨hcache, ?_⟩
    split at hread
    · cases hread
      exact .short ‹_›
    obtain ⟨⟨ok, ch₁⟩, hblock, hread⟩ := Exec.bind_eq_ok.mp hread
    rcases decompress_eq_ok.mp hblock with
      ⟨rfl, block, -, -, rfl⟩ | ⟨rfl, -, left, -, -, rfl⟩
    · obtain ⟨ch', hparse, hread⟩ := Exec.bind_eq_ok.mp hread
      cases hread
      exact .read ‹_› hblock hparse
    · cases hread
      exact .broken ‹_› hblock
  · rintro ⟨hcache, hpayload⟩
    unfold readData
    rw [if_neg hcache]
    cases hpayload with
    | short hpayload => rw [hpayload]
    | broken hpayload hblock =>
      simp only [hpayload, hblock, Exec.ok_bind, Bool.false_eq_true, if_false]
    | read hpayload hblock hparse => simp only [hpayload, hblock, Exec.ok_bind, if_true, hparse]

/-- How many bytes belong to the type of a frame. -/
def argumentSize : MetaType → Nat
  | .channelDefine => 0
  | .compressionMethod | .channelType => 1
  | .data | .chunkSize => 4

/-- **What `otic_unpack_parse` does** with the next frame. -/
inductive Parsed (zstd : Zstd) (u : OticUnpack) : Bool × OticUnpack → Prop
  | eof (hhead : u.fetch 2 = none) : Parsed zstd u (false, u)
  | unknown {byte id : UInt8} {w : OticUnpack} (hhead : u.fetch 2 = some ([byte, id], w))
      (htype : MetaType.ofByte? byte = none) : Parsed zstd u (false, w.fail .dataCorrupted)
  | cut {byte id : UInt8} {metaType : MetaType} {w : OticUnpack}
      (hhead : u.fetch 2 = some ([byte, id], w)) (htype : MetaType.ofByte? byte = some metaType)
      (hread : w.fetch (argumentSize metaType) = none) : Parsed zstd u (false, w.fail .eof)
  | define {byte id : UInt8} {w : OticUnpack} (hhead : u.fetch 2 = some ([byte, id], w))
      (htype : MetaType.ofByte? byte = some .channelDefine) :
      Parsed zstd u (true, w.modify id fun ch =>
        { ch with base := { ch.base with state := .opened } })
  | data {byte id : UInt8} {size : List UInt8} {w w' : OticUnpack} {ch : Channel}
      {out : Bool × OticUnpack} (hhead : u.fetch 2 = some ([byte, id], w))
      (htype : MetaType.ofByte? byte = some .data) (hsize : w.fetch 4 = some (size, w'))
      (hfind : w'.findChannel id = some ch)
      (hread : w'.readData zstd ch (Bytes.toUInt32 size).toNat = .ok out) : Parsed zstd u out
  | skip {byte id : UInt8} {size : List UInt8} {w w' : OticUnpack}
      (hhead : u.fetch 2 = some ([byte, id], w)) (htype : MetaType.ofByte? byte = some .data)
      (hsize : w.fetch 4 = some (size, w')) (hfind : w'.findChannel id = none) :
      Parsed zstd u (true, w'.skip (Bytes.toUInt32 size).toNat)
  | compressionMethod {byte id : UInt8} {read : List UInt8} {w w' : OticUnpack}
      (hhead : u.fetch 2 = some ([byte, id], w))
      (htype : MetaType.ofByte? byte = some .compressionMethod)
      (hread : w.fetch 1 = some (read, w')) : Parsed zstd u (true, w')
  | channelType {byte id : UInt8} {read : List UInt8} {w w' : OticUnpack}
      (hhead : u.fetch 2 = some ([byte, id], w))
      (htype : MetaType.ofByte? byte = some .channelType)
      (hread : w.fetch 1 = some (read, w')) :
      Parsed zstd u (true, w'.modify id fun ch => { ch with channelType := read.getD 0 0 })
  | chunkSize {byte id : UInt8} {size : List UInt8} {w w' : OticUnpack}
      (hhead : u.fetch 2 = some ([byte, id], w))
      (htype : MetaType.ofByte? byte = some .chunkSize)
      (hread : w.fetch 4 = some (size, w')) :
      Parsed zstd u (true, w'.modify id fun ch => ch.reallocate (Bytes.toUInt32 size))

theorem parse_eq_ok {out : Bool × OticUnpack} :
    u.parse zstd = .ok out ↔ Parsed zstd u out := by
  constructor
  · intro hparse
    unfold parse at hparse
    rcases u.fetch_two with hhead | ⟨byte, id, w, hhead⟩
    · rw [hhead] at hparse
      cases hparse
      exact .eof hhead
    rw [hhead] at hparse
    dsimp only at hparse
    split at hparse
    · cases hparse
      exact .define hhead ‹_›
    · split at hparse
      · cases hparse
        exact .cut hhead ‹_› ‹_›
      split at hparse
      · exact .data hhead ‹_› ‹_› ‹_› hparse
      · cases hparse
        exact .skip hhead ‹_› ‹_› ‹_›
    · split at hparse
      · cases hparse
        exact .cut hhead ‹_› ‹_›
      · cases hparse
        exact .compressionMethod hhead ‹_› ‹_›
    · split at hparse
      · cases hparse
        exact .cut hhead ‹_› ‹_›
      · cases hparse
        exact .channelType hhead ‹_› ‹_›
    · split at hparse
      · cases hparse
        exact .cut hhead ‹_› ‹_›
      · cases hparse
        exact .chunkSize hhead ‹_› ‹_›
    · cases hparse
      exact .unknown hhead ‹_›
  · intro hparsed
    unfold parse
    cases hparsed with
    | eof hhead => rw [hhead]
    | unknown hhead htype => simp only [hhead, htype]
    | cut hhead htype hread =>
      rename_i metaType w
      cases metaType with
      | channelDefine => cases hread
      | compressionMethod | channelType | data | chunkSize =>
        simp only [argumentSize] at hread
        simp only [hhead, htype, hread]
    | define hhead htype => simp only [hhead, htype]
    | data hhead htype hsize hfind hread => simp only [hhead, htype, hsize, hfind, hread]
    | skip hhead htype hsize hfind => simp only [hhead, htype, hsize, hfind]
    | compressionMethod hhead htype hread | channelType hhead htype hread
    | chunkSize hhead htype hread => simp only [hhead, htype, hread]

/-! ### `otic_unpack_getNext` -/

/-- **What the loop of `otic_unpack_getNext` does** with the next frame. -/
inductive Passed (zstd : Zstd) (u : OticUnpack) : Option Bool × OticUnpack → Prop
  | eof (hhead : u.fetch 2 = none) : Passed zstd u (some false, { u with current := none })
  | unknown {byte id : UInt8} {w : OticUnpack} (hhead : u.fetch 2 = some ([byte, id], w))
      (htype : MetaType.ofByte? byte = none) : Passed zstd u (w.failNext .dataCorrupted)
  | cut {byte id : UInt8} {metaType : MetaType} {w : OticUnpack}
      (hhead : u.fetch 2 = some ([byte, id], w)) (htype : MetaType.ofByte? byte = some metaType)
      (hread : w.fetch (argumentSize metaType) = none) : Passed zstd u (w.failNext .eof)
  | define {byte id : UInt8} {w : OticUnpack} (hhead : u.fetch 2 = some ([byte, id], w))
      (htype : MetaType.ofByte? byte = some .channelDefine) :
      Passed zstd u (none, w.modify id fun ch =>
        { ch with base := { ch.base with state := .opened } })
  | skip {byte id : UInt8} {size : List UInt8} {w w' : OticUnpack}
      (hhead : u.fetch 2 = some ([byte, id], w)) (htype : MetaType.ofByte? byte = some .data)
      (hsize : w.fetch 4 = some (size, w')) (hfind : w'.findChannel id = none) :
      Passed zstd u (none, w'.skip (Bytes.toUInt32 size).toNat)
  | broken {byte id : UInt8} {size frame out : List UInt8} {w w' w'' : OticUnpack}
      {ch ch' : Channel} (hhead : u.fetch 2 = some ([byte, id], w))
      (htype : MetaType.ofByte? byte = some .data) (hsize : w.fetch 4 = some (size, w'))
      (hfind : w'.findChannel id = some ch)
      (hpayload : w'.fetchInto ch (Bytes.toUInt32 size).toNat = .ok (frame, ch', w''))
      (hblock : decompress zstd ch' frame = .ok (false, ch'.spoil out)) :
      Passed zstd u (((w''.store ch' (ch'.spoil out)).fail .zstd).failNext .zstd)
  | line {byte id : UInt8} {size frame block : List UInt8} {w w' w'' u' : OticUnpack}
      {ch ch' : Channel} {result : Bool} (hhead : u.fetch 2 = some ([byte, id], w))
      (htype : MetaType.ofByte? byte = some .data) (hsize : w.fetch 4 = some (size, w'))
      (hfind : w'.findChannel id = some ch)
      (hpayload : w'.fetchInto ch (Bytes.toUInt32 size).toNat = .ok (frame, ch', w''))
      (hblock : decompress zstd ch' frame = .ok (true, ch'.load block))
      (hline : { w'' with current := some id }.getLine (ch'.load block) = .ok (result, u')) :
      Passed zstd u (some result, u')
  | compressionMethod {byte id : UInt8} {read : List UInt8} {w w' : OticUnpack}
      (hhead : u.fetch 2 = some ([byte, id], w))
      (htype : MetaType.ofByte? byte = some .compressionMethod)
      (hread : w.fetch 1 = some (read, w')) : Passed zstd u (none, w')
  | channelType {byte id : UInt8} {read : List UInt8} {w w' : OticUnpack}
      (hhead : u.fetch 2 = some ([byte, id], w))
      (htype : MetaType.ofByte? byte = some .channelType)
      (hread : w.fetch 1 = some (read, w')) :
      Passed zstd u (some true, w'.modify id fun ch => { ch with channelType := read.getD 0 0 })
  | strayChunkSize {byte id : UInt8} {size : List UInt8} {w w' : OticUnpack}
      (hhead : u.fetch 2 = some ([byte, id], w))
      (htype : MetaType.ofByte? byte = some .chunkSize)
      (hread : w.fetch 4 = some (size, w')) (hfind : w'.findChannel id = none) :
      Passed zstd u (some true, w')
  | chunkSize {byte id : UInt8} {size : List UInt8} {w w' : OticUnpack} {ch : Channel}
      (hhead : u.fetch 2 = some ([byte, id], w))
      (htype : MetaType.ofByte? byte = some .chunkSize)
      (hread : w.fetch 4 = some (size, w')) (hfind : w'.findChannel id = some ch) :
      Passed zstd u (none, w'.modify id fun ch =>
        { ch with cacheAlloc := (Bytes.toUInt32 size).toNat, cached := [] })

theorem passed_of_nextFrame {out : Option Bool × OticUnpack}
    (hnext : u.nextFrame zstd = .ok out) : Passed zstd u out := by
  unfold nextFrame at hnext
  rcases u.fetch_two with hhead | ⟨byte, id, w, hhead⟩
  · rw [hhead] at hnext
    cases hnext
    exact .eof hhead
  rw [hhead] at hnext
  dsimp only at hnext
  split at hnext
  · cases hnext
    exact .define hhead ‹_›
  · split at hnext
    · cases hnext
      exact .cut hhead ‹_› ‹_›
    split at hnext
    · cases hnext
      exact .skip hhead ‹_› ‹_› ‹_›
    split at hnext
    · cases hnext
    obtain ⟨⟨frame, ch', w''⟩, hpayload, hnext⟩ := Exec.bind_eq_ok.mp hnext
    obtain ⟨⟨ok, ch₁⟩, hblock, hnext⟩ := Exec.bind_eq_ok.mp hnext
    rcases decompress_eq_ok.mp hblock with
      ⟨rfl, block, -, -, rfl⟩ | ⟨rfl, -, left, -, -, rfl⟩
    · obtain ⟨⟨result, u'⟩, hline, hnext⟩ := Exec.bind_eq_ok.mp hnext
      cases hnext
      exact .line hhead ‹_› ‹_› ‹_› hpayload hblock hline
    · cases hnext
      exact .broken hhead ‹_› ‹_› ‹_› hpayload hblock
  · split at hnext
    · cases hnext
      exact .cut hhead ‹_› ‹_›
    · cases hnext
      exact .compressionMethod hhead ‹_› ‹_›
  · split at hnext
    · cases hnext
      exact .cut hhead ‹_› ‹_›
    · cases hnext
      exact .channelType hhead ‹_› ‹_›
  · split at hnext
    · cases hnext
      exact .cut hhead ‹_› ‹_›
    split at hnext
    · rename_i hfind
      cases hnext
      exact .strayChunkSize hhead ‹_› ‹_› (Option.isNone_iff_eq_none.mp hfind)
    · rename_i hfind
      obtain ⟨ch, hfind⟩ := Option.ne_none_iff_exists'.mp (mt Option.isNone_iff_eq_none.mpr hfind)
      cases hnext
      exact .chunkSize hhead ‹_› ‹_› hfind
  · cases hnext
    exact .unknown hhead ‹_›

end Otic.Unpack.OticUnpack
