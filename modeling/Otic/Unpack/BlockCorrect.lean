import Otic.Unpack.Dictionary

/-!
# Reading the encoding of records applies their meaning

One lemma per shape of record: a row record (`readRow_encode`), a name record,
the timestamps and the end mark.  Together they say what one iteration of
`otic_unpack_parseBlock` does at the encoding of a valid record
(`parseRecord_encode`); the loop rule carries this to whole blocks and to any
sequence of blocks.
-/

namespace Otic.Unpack.Channel

variable {fr : Frame} {v : View} {ch : Channel} {rest : List UInt8}

/-! ### Pieces of records -/

@[simp] theorem takeByte_cons (b : UInt8) (top : List UInt8) :
    takeByte (b :: top) = .ok (b, top) := rfl

@[simp] theorem takeBytes_append (bytes top : List UInt8) :
    takeBytes bytes.length (bytes ++ top) = .ok (bytes, top) := by
  rw [takeBytes, if_pos (by simp)]
  simp

theorem selectEntry_encode (hwf : ch.WellFormed) (index : UInt32)
    (htop : ch.top = leb128EncodeUnsigned index.toUInt64 ++ rest)
    (hindex : index.toNat < ch.entries.length) :
    selectEntry ch = .ok (index.toNat, ch.entries[index.toNat], rest) := by
  have hslot : ch.cache[index.toNat]? = some (some ch.entries[index.toNat]) :=
    hwf.slot.mpr (List.getElem?_eq_getElem hindex)
  have hlow : index.toUInt64.toUInt32 = index := by simp
  simp only [selectEntry, htop, leb128DecodeUnsigned_encode, Exec.ok_bind, hlow, hslot]

/-- With an empty fetch list every row is delivered. -/
theorem flushIfFlushable_of_empty (h : ch.toFetch = []) (e : Entry) :
    ch.flushIfFlushable e =
      { ch with
        flushed := ch.flushed ++ [⟨ch.ts, e.sensor.name, e.sensor.unit, e.value⟩] } := by
  rw [flushIfFlushable, h]
  simp [Entry.sensor]

/-- **A row record.**  The reader of a row selects the entry, and what its payload
reader makes of the rest decides the new value. -/
theorem readRow_encode {payload : Entry → List UInt8 → Exec (Oval × List UInt8)}
    {f : Oval → Oval} {index : UInt32} {bytes : List UInt8}
    (hch : ch.Stands fr v (leb128EncodeUnsigned index.toUInt64 ++ (bytes ++ rest)))
    (hfetch : fr.toFetch = []) (hindex : index.toNat < v.sensors.length)
    (hpayload : ∀ e, payload e (bytes ++ rest) = .ok (f e.value, rest)) :
    ∃ ch', readRow payload ch = .ok ch' ∧ ch'.Stands fr (v.deliver index f) rest := by
  obtain ⟨hwf, rfl, htop, hframe⟩ := hch
  have hlen : index.toNat < ch.entries.length := by
    rw [← view_sensors_length]
    exact hindex
  have htoFetch : ch.toFetch = [] := by
    rw [← hfetch, ← hframe]
    rfl
  let entry : Entry := { ch.entries[index.toNat] with value := f ch.entries[index.toNat].value }
  let ch' : Channel :=
    { ch with
      top := rest
      cache := ch.cache.set index.toNat (some entry)
      flushed := ch.flushed ++ [⟨ch.ts, entry.sensor.name, entry.sensor.unit, entry.value⟩]
      base := { ch.base with rowCounter := ch.base.rowCounter + 1 } }
  obtain ⟨hwf', hentries'⟩ : ch'.WellFormed ∧ ch'.entries = ch.entries.set index.toNat entry :=
    wellFormed_of_slots (hwf.set hlen entry) (by simp [ch', hwf.total])
  have hread : readRow payload ch = .ok ch' := by
    simp only [readRow, selectEntry_encode hwf index htop hlen, Exec.ok_bind, hpayload]
    rw [flushIfFlushable_of_empty]
    exact htoFetch
  have hsensor : ch.view.sensors[index.toNat]? = some ch.entries[index.toNat].sensor := by
    simp [view, hlen]
  have hview : ch'.view = ch.view.deliver index f := by
    rw [View.deliver, hsensor]
    unfold view
    rw [hentries', List.map_set]
    rfl
  exact ⟨ch', hread, hwf', hview, rfl, hframe⟩

/-! ### Name records -/

/-- The scan for the terminator stops at the zero byte between name and unit,
because a name holds none. -/
theorem insertEntry_encode (ch : Channel) {name : List UInt8} (hname : (0 : UInt8) ∉ name)
    (unit rest : List UInt8) :
    insertEntry ch (name ++ 0 :: (unit ++ rest))
        (name.length + unit.length + 1) =
      .ok (ch.reserve.pushEntry
        { index := UInt32.ofNat ch.reserve.totalEntries
          name := name ++ [0] ++ [0]
          unit := unit ++ [0]
          value := .eof
          ignore := !ch.reserve.isFetchable (name ++ [0] ++ [0]) }) := by
  have hscan : (Bytes.splitZero ((name ++ 0 :: (unit ++ rest)).take
      (name.length + unit.length + 1 + 1))).1 = name ++ [0] := by
    rw [List.take_append, List.take_of_length_le (by omega),
      show name.length + unit.length + 1 + 1 - name.length =
        unit.length + 1 + 1 by omega, List.take_succ_cons,
      Bytes.splitZero_of_notMem hname]
  have hunit : ((name ++ 0 :: (unit ++ rest)).take
      (name.length + unit.length + 1)).drop (name ++ [0]).length =
        unit := by
    rw [List.take_append, List.take_of_length_le (by omega),
      show name.length + unit.length + 1 - name.length =
        unit.length + 1 by omega, List.take_succ_cons, List.take_left,
      show name ++ 0 :: unit = (name ++ [0]) ++ unit by simp,
      List.drop_left]
  simp only [insertEntry, hscan]
  rw [if_neg (by simp), if_neg (by simp),
    if_neg (by simp only [List.length_append, List.length_cons]; omega), hunit]

/-- **A name record** adds its sensor. -/
theorem readNameAssign_encode {a : Assignment}
    (hch : ch.Stands fr v (UInt8.ofNat (a.name.size + a.unit.length + 1) ::
      (a.name.bytes ++ 0 :: (a.unit ++ rest)))) :
    ∃ ch', readNameAssign ch = .ok ch' ∧ ch'.Stands fr (v.apply (.nameAssign a)) rest := by
  obtain ⟨hwf, rfl, htop, hframe⟩ := hch
  have hfits := a.fits
  rw [UINT8_MAX, CStr.size] at hfits
  have hlength : (UInt8.ofNat (a.name.size + a.unit.length + 1)).toNat =
      a.name.bytes.length + a.unit.length + 1 := by
    rw [CStr.size, UInt8.toNat_ofNat', Nat.mod_eq_of_lt (by omega)]
  -- the channel once the length byte is read
  let ch₁ : Channel := { ch with top := a.name.bytes ++ 0 :: (a.unit ++ rest) }
  let entry : Entry :=
    { index := UInt32.ofNat ch₁.reserve.totalEntries
      name := a.name.bytes ++ [0] ++ [0]
      unit := a.unit ++ [0]
      value := .eof
      ignore := !ch₁.reserve.isFetchable (a.name.bytes ++ [0] ++ [0]) }
  let ch' : Channel :=
    { ch₁.reserve.pushEntry entry with top := rest, totalEntries := ch₁.totalEntries + 1 }
  have hwf₁ : ch₁.WellFormed := ⟨hwf.slots, hwf.total⟩
  obtain ⟨hwf', hentries'⟩ : ch'.WellFormed ∧ ch'.entries = ch.entries ++ [entry] :=
    hwf₁.push entry rest
  have hread : readNameAssign ch = .ok ch' := by
    have hskip : (a.name.bytes ++ 0 :: (a.unit ++ rest)).drop
        (a.name.bytes.length + a.unit.length + 1) = rest := by
      rw [show a.name.bytes ++ 0 :: (a.unit ++ rest) =
        (a.name.bytes ++ 0 :: a.unit) ++ rest by simp,
        show a.name.bytes.length + a.unit.length + 1 = (a.name.bytes ++ 0 :: a.unit).length by
          simp; omega]
      exact List.drop_left
    simp only [readNameAssign, htop, takeByte_cons, Exec.ok_bind, hlength,
      insertEntry_encode _ a.name.nulFree, hskip]
    simp [ch', ch₁, entry, pushEntry]
  have hname : Bytes.untilZero (a.name.bytes ++ [0] ++ [0]) = a.name.bytes := by
    rw [List.append_assoc]
    exact Bytes.untilZero_append_zero a.name.nulFree [0]
  have hsensor : entry.sensor = ⟨a.name.bytes, Bytes.untilZero a.unit, .eof⟩ := by
    simp only [Entry.sensor, entry, hname, Bytes.untilZero_append_singleton_zero]
  have hview : ch'.view = ch.view.apply (.nameAssign a) := by
    unfold view
    rw [hentries', List.map_append]
    simp [View.apply, hsensor, ch', ch₁, pushEntry]
  refine ⟨ch', hread, hwf', hview, rfl, ?_⟩
  calc ch'.frame = ch₁.reserve.frame := rfl
    _ = ch.frame := reserve_frame ch₁
    _ = fr := hframe

/-! ### Timestamps and the end mark -/

theorem readSetTimestamp_encode {tick : UInt64}
    (hch : ch.Stands fr v (leb128EncodeUnsigned tick ++ rest)) :
    ∃ ch', readSetTimestamp ch = .ok ch' ∧ ch'.Stands fr (v.apply (.setTimestamp tick)) rest := by
  obtain ⟨hwf, rfl, htop, rfl⟩ := hch
  simp only [readSetTimestamp, htop, leb128DecodeUnsigned_encode, Exec.ok_bind]
  exact ⟨_, rfl, ⟨hwf.slots, hwf.total⟩, rfl, rfl, rfl⟩

theorem readShiftTimestamp_encode {shift : UInt64}
    (hch : ch.Stands fr v (leb128EncodeUnsigned shift ++ rest)) :
    ∃ ch', readShiftTimestamp ch = .ok ch' ∧
      ch'.Stands fr (v.apply (.shiftTimestamp shift)) rest := by
  obtain ⟨hwf, rfl, htop, rfl⟩ := hch
  simp only [readShiftTimestamp, htop, leb128DecodeUnsigned_encode, Exec.ok_bind]
  exact ⟨_, rfl, ⟨hwf.slots, hwf.total⟩, rfl, rfl, rfl⟩

theorem readEof_encode {count : UInt64}
    (hch : ch.Stands fr v (leb128EncodeUnsigned count ++ rest)) :
    ∃ ch', readEof ch = .ok ch' ∧ ch'.Stands fr (v.apply (.eof count)) rest := by
  obtain ⟨hwf, rfl, htop, rfl⟩ := hch
  simp only [readEof, htop, leb128DecodeUnsigned_encode, Exec.ok_bind]
  by_cases hcount : count ≠ ch.base.rowCounter
  · rw [if_pos hcount]
    refine ⟨_, rfl, ⟨hwf.slots, hwf.total⟩, ?_, rfl, rfl⟩
    rw [View.apply, if_pos (show count ≠ ch.view.rowCounter from hcount)]
    rfl
  · rw [if_neg hcount]
    refine ⟨_, rfl, ⟨hwf.slots, hwf.total⟩, ?_, rfl, rfl⟩
    rw [View.apply, if_neg (show ¬ count ≠ ch.view.rowCounter from hcount)]
    rfl

/-! ### Blocks -/

theorem readTagged_toByte (version : UInt8) (type : OticType) (ch : Channel) :
    readTagged version type.toByte ch = readRecord version type.toByte ch := by
  rw [readTagged, if_neg type.not_toByte_lt]

/-- **One record.**  At the encoding of a valid record, one iteration of the loop
reads exactly that record and applies its meaning. -/
theorem parseRecord_encode {version : UInt8} (hversion : version ≠ 1) {r : Record}
    (hch : ch.Stands fr v (r.encode ++ rest)) (hfetch : fr.toFetch = [])
    (hvalid : r.Valid v.sensors.length) :
    ∃ ch', parseRecord version ch = .ok (true, ch') ∧ ch'.Stands fr (v.apply r) rest := by
  -- it is enough that the reader of the record's tag does so once `top` is past the tag
  suffices h : ∀ tag bytes, r.encode = tag :: bytes →
      ∃ ch', readTagged version tag { ch with top := bytes ++ rest } = .ok ch' ∧
        ch'.Stands fr (v.apply r) rest by
    obtain ⟨tag, bytes, hencode⟩ : ∃ tag bytes, r.encode = tag :: bytes :=
      List.exists_cons_of_length_pos r.length_encode_pos
    obtain ⟨ch', hread, hch'⟩ := h tag bytes hencode
    have htop : ch.top = tag :: (bytes ++ rest) := by rw [hch.top, hencode, List.cons_append]
    exact ⟨ch', by simp only [parseRecord, htop, hread, Exec.ok_bind], hch'⟩
  intro tag bytes hencode
  have hpast : Stands fr v (bytes ++ rest) { ch with top := bytes ++ rest } :=
    ⟨⟨hch.wellFormed.slots, hch.wellFormed.total⟩, hch.view, rfl, hch.frame⟩
  have hrow : ∀ {payload : Entry → List UInt8 → Exec (Oval × List UInt8)} {f : Oval → Oval}
      {index : UInt32} (value : List UInt8), r.index? = some index →
      bytes = leb128EncodeUnsigned index.toUInt64 ++ value →
      (∀ e, payload e (value ++ rest) = .ok (f e.value, rest)) →
      ∃ ch', readRow payload { ch with top := bytes ++ rest } = .ok ch' ∧
        ch'.Stands fr (v.deliver index f) rest := by
    intro payload f index value hindex hbytes hpayload
    rw [hbytes, List.append_assoc] at hpast ⊢
    exact readRow_encode hpast hfetch (hvalid index hindex) hpayload
  cases r with
  | smallInt value index =>
    obtain ⟨rfl, rfl⟩ := List.cons.inj hencode
    simp only [readTagged, if_pos value.property, readSmallint, View.apply]
    exact hrow [] rfl (by simp) fun e => rfl
  | setTimestamp tick =>
    obtain ⟨rfl, rfl⟩ := List.cons.inj hencode
    rw [readTagged_toByte, readRecord, OticType.ofByte?_toByte]
    exact readSetTimestamp_encode hpast
  | shiftTimestamp shift =>
    obtain ⟨rfl, rfl⟩ := List.cons.inj hencode
    rw [readTagged_toByte, readRecord, OticType.ofByte?_toByte]
    exact readShiftTimestamp_encode hpast
  | nameAssign a =>
    obtain ⟨rfl, rfl⟩ := List.cons.inj hencode
    rw [readTagged_toByte, readRecord, OticType.ofByte?_toByte]
    refine readNameAssign_encode ?_
    simpa using hpast
  | eof count =>
    obtain ⟨rfl, rfl⟩ := List.cons.inj hencode
    rw [readTagged_toByte, readRecord, OticType.ofByte?_toByte]
    exact readEof_encode hpast
  | intPos index value =>
    obtain ⟨rfl, rfl⟩ := List.cons.inj hencode
    simp only [readTagged_toByte, readRecord, OticType.ofByte?_toByte, readIntpos, View.apply]
    exact hrow (leb128EncodeUnsigned value) rfl rfl fun e => by simp
  | intNeg index value =>
    obtain ⟨rfl, rfl⟩ := List.cons.inj hencode
    simp only [readTagged_toByte, readRecord, OticType.ofByte?_toByte, readIntneg, View.apply]
    exact hrow (leb128EncodeUnsigned value) rfl rfl fun e => by simp
  | double index value =>
    obtain ⟨rfl, rfl⟩ := List.cons.inj hencode
    simp only [readTagged_toByte, readRecord, OticType.ofByte?_toByte, readDouble, View.apply]
    refine hrow (Bytes.ofUInt64 value) rfl rfl fun e => ?_
    rw [← Bytes.length_ofUInt64 value, takeBytes_append]
    simp
  | string index s =>
    obtain ⟨rfl, rfl⟩ := List.cons.inj hencode
    simp only [readTagged_toByte, readRecord, OticType.ofByte?_toByte, readString, View.apply]
    refine hrow (leb128EncodeUnsigned (UInt64.ofNat s.bytes.length) ++ s.bytes) rfl rfl fun e => ?_
    have hsize : (UInt64.ofNat s.bytes.length).toNat = s.bytes.length := by
      rw [UInt64.toNat_ofNat']
      exact Nat.mod_eq_of_lt s.sized
    simp only [if_neg hversion, List.append_assoc, leb128DecodeUnsigned_encode, Exec.ok_bind,
      hsize, takeBytes_append]
  | null index =>
    obtain ⟨rfl, rfl⟩ := List.cons.inj hencode
    simp only [readTagged_toByte, readRecord, OticType.ofByte?_toByte, readNull, View.apply]
    exact hrow [] rfl (by simp) fun e => rfl
  | true index =>
    obtain ⟨rfl, rfl⟩ := List.cons.inj hencode
    simp only [readTagged_toByte, readRecord, OticType.ofByte?_toByte, readTrue, View.apply]
    exact hrow [] rfl (by simp) fun e => rfl
  | false index =>
    obtain ⟨rfl, rfl⟩ := List.cons.inj hencode
    simp only [readTagged_toByte, readRecord, OticType.ofByte?_toByte, readFalse, View.apply]
    exact hrow [] rfl (by simp) fun e => rfl
  | unmodified index =>
    obtain ⟨rfl, rfl⟩ := List.cons.inj hencode
    simp only [readTagged_toByte, readRecord, OticType.ofByte?_toByte, readUnmodified, View.apply]
    exact hrow [] rfl (by simp) fun e => rfl

/-- **One block.**  The parser reads the encoding of valid records to its last byte. -/
theorem parseBlock_encodeAll {version : UInt8} (hversion : version ≠ 1) {rs : List Record}
    (hch : ch.Stands fr v (encodeAll rs)) (hfetch : fr.toFetch = [])
    (hvalid : ValidFrom v.sensors.length rs) :
    ∃ ch', parseBlock version ch = .ok ch' ∧ ch'.Stands fr (v.applyAll rs) [] := by
  have hloop := @Loop.run_refines_foldl _ _ (parseRecord version) _ _ View.apply
    (fun rs v ch => Stands fr v (encodeAll rs) ch ∧ ValidFrom v.sensors.length rs)
    (fun v ch => Stands fr v [] ch)
    (fun r rs v ch h => by
      obtain ⟨hch, hvalid⟩ := h
      obtain ⟨ch', hread, hch'⟩ :=
        parseRecord_encode hversion (by simpa using hch) hfetch hvalid.1
      exact ⟨ch', hread, hch', by simpa using hvalid.2⟩)
    (fun v ch h => ⟨ch, by simp [parseRecord, h.1.top], h.1⟩)
    rs v ch ⟨hch, hvalid⟩ (ch.top.length + 1)
    (by
      rw [hch.top]
      exact Nat.lt_succ_of_le (length_le_length_encodeAll rs))
  obtain ⟨ch', hrun, hch'⟩ := hloop
  exact ⟨ch', by simp only [parseBlock, hrun, Exec.ok_bind], hch'⟩

/-- A channel that is handed the next block stands at its first byte. -/
theorem Stands.withTop {top : List UInt8} (hch : ch.Stands fr v top) (block : List UInt8) :
    Stands fr v block { ch with top := block } :=
  ⟨⟨hch.wellFormed.slots, hch.wellFormed.total⟩, hch.view, rfl, hch.frame⟩

theorem Stands.receive {top : List UInt8} (hch : ch.Stands fr v top) (payload : List UInt8) :
    (ch.receive payload).Stands fr v top :=
  ⟨⟨hch.wellFormed.slots, hch.wellFormed.total⟩, hch.view, hch.top, hch.frame⟩

theorem Stands.load {top : List UInt8} (hch : ch.Stands fr v top) (block : List UInt8) :
    (ch.load block).Stands fr v block :=
  ⟨⟨hch.wellFormed.slots, hch.wellFormed.total⟩, hch.view, rfl, hch.frame⟩

/-- **Any number of blocks**, cut anywhere between two records. -/
theorem parseBlocks_encodeAll {version : UInt8} (hversion : version ≠ 1)
    {blocks : List (List Record)} {top : List UInt8} (hch : ch.Stands fr v top)
    (hfetch : fr.toFetch = []) (hvalid : ValidFrom v.sensors.length blocks.flatten) :
    ∃ ch', parseBlocks version ch (blocks.map encodeAll) = .ok ch' ∧
      ch'.Stands fr (v.applyAll blocks.flatten) (if blocks = [] then top else []) := by
  induction blocks generalizing ch v top with
  | nil => exact ⟨ch, rfl, by simpa using hch⟩
  | cons block blocks ih =>
    rw [List.flatten_cons, validFrom_append] at hvalid
    obtain ⟨ch₁, hblock, hch₁⟩ :=
      parseBlock_encodeAll hversion (hch.withTop (encodeAll block)) hfetch hvalid.1
    obtain ⟨ch', hblocks, hch'⟩ := ih hch₁ (by
      rw [View.applyAll_sensors_length]
      exact hvalid.2)
    refine ⟨ch', by simp only [List.map_cons, parseBlocks, hblock, Exec.ok_bind, hblocks], ?_⟩
    simpa using hch'

end Otic.Unpack.Channel
