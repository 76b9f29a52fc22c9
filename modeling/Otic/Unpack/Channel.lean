import Otic.Leb128
import Otic.Library.Loop

/-!
# A channel of the reader (`unpack.c`)

`oticUnpackChannel_t` and the functions that read the records of one
decompressed block.  `top` is the list of the bytes from `base.top` to
`out + blockSize`, as far as `out` has been written; behind a block that was just
decompressed `base.top - out < blockSize` says that it is not empty.  A read past
it is a fault.  The `otic_unpack_read_*` functions that deliver a row share one
body, `readRow`, and differ in how they read the value.
-/

namespace Otic.Unpack

/-- `oticUnpackEntry_t`; `name` and `unit` are the blocks allocated for them. -/
structure Entry where
  index : UInt32
  name : List UInt8
  unit : List UInt8
  value : Oval
  ignore : Bool

/-- `oticUnpackChannel_t`.  The slots of `cache.cache` number `cache_allocated`;
`cacheAlloc` and `outAlloc` are the sizes `base.cache` and `out` were last
allocated with, and `flushed` lists the calls of the callback so far.  `cached` and `out`
are what was written to these blocks, and `topEnd` the offset in `out` at which `top` ends;
there is none while `base.top` does not point into it. -/
structure Channel where
  base : Base
  top : List UInt8
  topEnd : Option Nat
  cached : List UInt8
  out : List UInt8
  blockSize : Nat
  cache : List (Option Entry)
  totalEntries : Nat
  allocationLeft : Nat
  ts : Option UInt64
  cacheAlloc : Nat
  outAlloc : Nat
  channelId : UInt8
  channelType : UInt8
  toFetch : List UInt64
  flushed : List Row

namespace Channel

/-- `otic_unpack_channel_init`. -/
def init (id : UInt8) : Channel where
  base := Base.init OTIC_BASE_CACHE_SIZE
  top := []
  topEnd := none
  cached := []
  out := []
  blockSize := 0
  cache := []
  totalEntries := 0
  allocationLeft := 0
  ts := none
  cacheAlloc := OTIC_BASE_CACHE_SIZE.toNat
  outAlloc := OTIC_UNPACK_OUT_SIZE
  channelId := id
  channelType := OTIC_CHANNEL_TYPE_SENSOR
  toFetch := []
  flushed := []

/-! ### Where `base.top` is -/

/-- `base.top - out`. -/
def offset (ch : Channel) : Option Nat := ch.topEnd.map fun topEnd => topEnd - ch.top.length

/-- `blockSize` is set, and `base.top` stays where it is. -/
def setBlockSize (ch : Channel) (blockSize : Nat) : Channel :=
  match ch.offset with
  | none => { ch with blockSize := blockSize }
  | some offset =>
      let top := (ch.out.drop offset).take (blockSize - offset)
      { ch with top := top, topEnd := some (offset + top.length), blockSize := blockSize }

/-- A payload was fetched into `base.cache`. -/
def receive (ch : Channel) (frame : List UInt8) : Channel :=
  { ch with cached := frame ++ ch.cached.drop frame.length }

/-- A block was decompressed into `out`. -/
def load (ch : Channel) (block : List UInt8) : Channel :=
  { ch with
    top := block
    topEnd := some block.length
    out := block ++ ch.out.drop block.length
    blockSize := block.length }

/-- An error code of zstd as a `size_t`; they are the last numbers below 2^64. -/
def ZSTD_ERROR_GENERIC : Nat := 2 ^ 64 - 1

/-- `ZSTD_decompressDCtx` returned an error and left this in `out`. -/
def spoil (ch : Channel) (out : List UInt8) : Channel :=
  { setBlockSize { ch with out := out } ZSTD_ERROR_GENERIC with
    base := { ch.base with error := .zstd } }

/-- What `otic_unpack_parse` does with a CHUNK_SIZE frame: `base.cache` and `out` are
allocated anew. -/
def reallocate (ch : Channel) (size : UInt32) : Channel :=
  { ch with
    base := { ch.base with cacheSize := size }
    top := []
    topEnd := none
    cached := []
    out := []
    cacheAlloc := size.toNat
    outAlloc := size.toNat }

/-! ### Reading bytes -/

/-- `*top++`. -/
def takeByte : List UInt8 → Exec (UInt8 × List UInt8)
  | [] => .error .overread
  | b :: rest => .ok (b, rest)

/-- `memcpy` of `n` bytes from `top`, then `top += n`. -/
def takeBytes (n : Nat) (top : List UInt8) : Exec (List UInt8 × List UInt8) :=
  if n ≤ top.length then .ok (top.take n, top.drop n) else .error .overread

/-! ### The dictionary -/

/-- `isFetchable`. -/
def isFetchable (ch : Channel) (name : List UInt8) : Bool :=
  ch.toFetch.contains (hashBytes (Bytes.untilZero name))

/-- The reallocation at the head of `otic_unpack_insert_entry`. -/
def reserve (ch : Channel) : Channel :=
  if ch.allocationLeft = 0 then
    { ch with
      cache := ch.cache ++ List.replicate OTIC_UNPACK_CACHE_ALLOCATION_RESERVE_SIZE none
      allocationLeft := OTIC_UNPACK_CACHE_ALLOCATION_RESERVE_SIZE }
  else ch

/-- The new entry takes the slot at `totalEntries`. -/
def pushEntry (ch : Channel) (entry : Entry) : Channel :=
  { ch with
    cache := ch.cache.set ch.totalEntries (some entry)
    allocationLeft := ch.allocationLeft - 1 }

/-- `otic_unpack_insert_entry` on the bytes from `value`, with `end = value + length`.
The scan for the terminator may look at `*end`; the type of the new entry's value
is the one its only caller sets. -/
def insertEntry (ch : Channel) (value : List UInt8) (length : Nat) : Exec Channel :=
  let ch := ch.reserve
  -- the bytes before `ptr` when the scan ends
  let scanned := (Bytes.splitZero (value.take (length + 1))).1
  if (0 : UInt8) ∉ scanned ∧ value.length < length + 1 then .error .overread
  else if length < scanned.length then .error .negativeUnit
  else if value.length < length then .error .overread
  else
    let name := scanned ++ [0]
    .ok (ch.pushEntry
      { index := UInt32.ofNat ch.totalEntries
        name := name
        unit := (value.take length).drop scanned.length ++ [0]
        value := .eof
        ignore := !ch.isFetchable name })

/-- The first two statements of every row reader: decode `entryIndex` and look the
entry up.  Only the low 32 bits of the number land in `entryIndex`. -/
def selectEntry (ch : Channel) : Exec (Nat × Entry × List UInt8) := do
  let (number, top) ← leb128DecodeUnsigned ch.top
  let entryIndex := number.toUInt32.toNat
  match ch.cache[entryIndex]? with
  | some (some entry) => .ok (entryIndex, entry, top)
  | _ => .error .badIndex

/-- `flush_if_flushable`. -/
def flushIfFlushable (ch : Channel) (entry : Entry) : Channel :=
  if entry.ignore && !ch.toFetch.isEmpty then ch
  else
    { ch with
      flushed := ch.flushed ++
        [⟨ch.ts, Bytes.untilZero entry.name, Bytes.untilZero entry.unit, entry.value⟩] }

/-! ### Row records -/

/-- The common body of the row readers: select the entry, read its new value with
`payload`, call the callback and count the row. -/
def readRow (payload : Entry → List UInt8 → Exec (Oval × List UInt8)) (ch : Channel) :
    Exec Channel := do
  let (entryIndex, entry, top) ← ch.selectEntry
  let (value, top) ← payload entry top
  let entry := { entry with value := value }
  let ch := { ch with top := top, cache := ch.cache.set entryIndex (some entry) }
  let ch := ch.flushIfFlushable entry
  .ok { ch with base := { ch.base with rowCounter := ch.base.rowCounter + 1 } }

/-- `otic_unpack_read_true`. -/
def readTrue : Channel → Exec Channel := readRow fun _ top => .ok (.true, top)

/-- `otic_unpack_read_false`. -/
def readFalse : Channel → Exec Channel := readRow fun _ top => .ok (.false, top)

/-- `otic_unpack_read_null`. -/
def readNull : Channel → Exec Channel := readRow fun _ top => .ok (.null, top)

/-- `otic_unpack_read_smallint`. -/
def readSmallint (val : UInt8) : Channel → Exec Channel :=
  readRow fun _ top => .ok (.intPos val.toUInt64, top)

/-- `otic_unpack_read_intneg`. -/
def readIntneg : Channel → Exec Channel := readRow fun _ top => do
  let (lval, top) ← leb128DecodeUnsigned top
  .ok (.intNeg lval, top)

/-- `otic_unpack_read_intpos`. -/
def readIntpos : Channel → Exec Channel := readRow fun _ top => do
  let (lval, top) ← leb128DecodeUnsigned top
  .ok (.intPos lval, top)

/-- `otic_unpack_read_double`. -/
def readDouble : Channel → Exec Channel := readRow fun _ top => do
  let (bytes, top) ← takeBytes 8 top
  .ok (.double (Bytes.toUInt64 bytes), top)

/-- `otic_unpack_read_float`: four bytes are copied into `dval`, the other four stay. -/
def readFloat : Channel → Exec Channel := readRow fun _ top => do
  let (bytes, top) ← takeBytes 4 top
  .ok (.float (Bytes.toUInt32 bytes) none, top)

/-- `otic_unpack_read_string`: the length is one byte in a version-1 file. -/
def readString (version : UInt8) : Channel → Exec Channel := readRow fun _ top => do
  let (total, top) ←
    if version = 1 then do
      let (b, top) ← takeByte top
      .ok (b.toUInt64, top)
    else leb128DecodeUnsigned top
  let (bytes, top) ← takeBytes total.toNat top
  .ok (.string (bytes ++ [0]) total.toNat, top)

/-- `otic_unpack_read_unmodified`. -/
def readUnmodified : Channel → Exec Channel := readRow fun entry top => .ok (entry.value, top)

/-! ### Arrays -/

/-- One element of `read_array`'s loop, given how a nested array is read: whether
the loop goes on, the element, and where `top` is. -/
def readElement (nested : List UInt8 → Exec (Bool × Oval × List UInt8)) (top : List UInt8) :
    Exec (Bool × Oval × List UInt8) := do
  let (tag, top) ← takeByte top
  match OticType.ofByte? tag with
  | some .intPos => do
      let (lval, top) ← leb128DecodeUnsigned top
      .ok (true, .intPos lval, top)
  | some .intNeg => do
      let (lval, top) ← leb128DecodeUnsigned top
      .ok (true, .intNeg lval, top)
  | some .double => do
      let (bytes, top) ← takeBytes 8 top
      .ok (true, .double (Bytes.toUInt64 bytes), top)
  | some .float => do
      -- eight bytes are copied, but `top` moves on by four
      let (bytes, _) ← takeBytes 8 top
      .ok (true,
        .float (Bytes.toUInt32 (bytes.take 4)) (some (Bytes.toUInt32 (bytes.drop 4))), top.drop 4)
  | some .string => do
      let (size, top) ← takeByte top
      let (bytes, top) ← takeBytes size.toNat top
      .ok (true, .string bytes size.toNat, top)
  | some .array => nested top
  -- `read_object` is not implemented and returns 0
  | some .object => .ok (false, .null, top)
  | some .true => .ok (true, .true, top)
  | some .false => .ok (true, .false, top)
  | _ => .ok (false, .null, top)

/-- The loop over the elements; those it does not reach stay NULL. -/
def readElements (nested : List UInt8 → Exec (Bool × Oval × List UInt8)) :
    (count : Nat) → List UInt8 → Exec (Bool × List Oval × List UInt8)
  | 0, top => .ok (true, [], top)
  | count + 1, top => do
      let (go, element, top) ← readElement nested top
      if go then
        let (done, elements, top) ← readElements nested count top
        .ok (done, element :: elements, top)
      else .ok (false, element :: List.replicate count .null, top)

/-- `read_array`, to a nesting depth.  `otic_array_init_size` sets every element to
NULL with a 32-bit counter that never reaches a count of 2^32 or more. -/
def readArray : (depth : Nat) → List UInt8 → Exec (Bool × Oval × List UInt8)
  | 0, _ => .error .overread
  | depth + 1, top => do
      let (size, top) ← leb128DecodeUnsigned top
      if 2 ^ 32 ≤ size.toNat then .error .endless
      else
        let (done, elements, top) ← readElements (readArray depth) size.toNat top
        .ok (done, .array elements, top)

/-- `otic_unpack_read_array`: the result of `read_array` is dropped.  Every nested
array takes at least one byte, so the number of bytes bounds the depth. -/
def readArrayRow : Channel → Exec Channel := readRow fun _ top => do
  let (_, value, top) ← readArray (top.length + 1) top
  .ok (value, top)

/-! ### Other records -/

/-- `otic_unpack_read_rawbuffer`: `top` may move past the end of the block. -/
def readRawbuffer (ch : Channel) : Exec Channel := do
  let (size, top) ← leb128DecodeUnsigned ch.top
  let size := size.toUInt32.toNat
  .ok { ch with
    top := top.drop size
    topEnd := ch.topEnd.map fun topEnd => topEnd + (size - top.length) }

/-- `otic_unpack_read_setTimestamp`. -/
def readSetTimestamp (ch : Channel) : Exec Channel := do
  let (value, top) ← leb128DecodeUnsigned ch.top
  .ok { ch with
    top := top
    base := { ch.base with timestampStart := value, timestampCurrent := value }
    ts := some value }

/-- `otic_unpack_read_shiftTimestamp`. -/
def readShiftTimestamp (ch : Channel) : Exec Channel := do
  let (value, top) ← leb128DecodeUnsigned ch.top
  let current := ch.base.timestampCurrent + value
  .ok { ch with
    top := top
    base := { ch.base with timestampCurrent := current }
    ts := some current }

/-- `otic_unpack_read_nameAssign`. -/
def readNameAssign (ch : Channel) : Exec Channel := do
  let (length, top) ← takeByte ch.top
  let ch ← insertEntry { ch with top := top } top length.toNat
  .ok { ch with top := top.drop length.toNat, totalEntries := ch.totalEntries + 1 }

/-- `otic_unpack_read_eof`. -/
def readEof (ch : Channel) : Exec Channel := do
  let (expected, top) ← leb128DecodeUnsigned ch.top
  let ch := { ch with top := top }
  if expected ≠ ch.base.rowCounter then
    .ok { ch with base := { ch.base with error := .rowCountMismatch, state := .onError } }
  else .ok ch

/-! ### Blocks -/

/-- The `switch` on a record's tag, once `top` is past it. -/
def readRecord (version tag : UInt8) (ch : Channel) : Exec Channel :=
  match OticType.ofByte? tag with
  | some .unmodified => ch.readUnmodified
  | some .intPos => ch.readIntpos
  | some .intNeg => ch.readIntneg
  | some .double => ch.readDouble
  | some .float => ch.readFloat
  | some .null => ch.readNull
  | some .true => ch.readTrue
  | some .false => ch.readFalse
  | some .setTimestamp => ch.readSetTimestamp
  | some .shiftTimestamp => ch.readShiftTimestamp
  | some .nameAssign => ch.readNameAssign
  | some .array => ch.readArrayRow
  | some .eof => ch.readEof
  | some .string => ch.readString version
  | some .rawbuffer => ch.readRawbuffer
  -- no case: the byte is skipped
  | _ => .ok ch

/-- What the loop of `otic_unpack_parseBlock` does after `*top++` gave `tag`: a byte
below the limit is a value, any other selects a case. -/
def readTagged (version tag : UInt8) (ch : Channel) : Exec Channel :=
  if tag < SMALL_INT_LIMIT then ch.readSmallint tag else ch.readRecord version tag

/-- One iteration of `otic_unpack_parseBlock`. -/
def parseRecord (version : UInt8) (ch : Channel) : Exec (Bool × Channel) :=
  match ch.top with
  | [] => .ok (false, ch)
  | tag :: top => do
      let ch ← readTagged version tag { ch with top := top }
      .ok (true, ch)

/-- `otic_unpack_parseBlock`.  Every iteration moves `top` on, so the bytes left
bound the iterations. -/
def parseBlock (version : UInt8) (ch : Channel) : Exec Channel := do
  let (_, ch) ← Loop.run (parseRecord version) (ch.top.length + 1) ch
  .ok ch

/-- `otic_unpack_parseBlock` on one decompressed block after the other. -/
def parseBlocks (version : UInt8) : Channel → List (List UInt8) → Exec Channel
  | ch, [] => .ok ch
  | ch, block :: blocks => do
      let ch ← parseBlock version { ch with top := block }
      parseBlocks version ch blocks

/-- `base.top - out >= blockSize`, compared without a sign.  Of a pointer that is not into
`out` only a `blockSize` of 0 tells something. -/
def usedUp (ch : Channel) : Exec Bool :=
  match ch.offset with
  | none => if ch.blockSize = 0 then .ok true else .error .stale
  | some offset => .ok (decide (ch.blockSize ≤ offset))

/-- What `otic_unpack_getLine` does behind its first test.  After a small integer the
`switch` reads on at the next record. -/
def takeLine (ch : Channel) (version : UInt8) : Exec (Bool × Bool × Channel) := do
  let (first, rest) ← takeByte ch.top
  let ch ←
    (if first < SMALL_INT_LIMIT then readSmallint first { ch with top := rest } else .ok ch)
  let (tag, top) ← takeByte ch.top
  let ch ← readRecord version tag { ch with top := top }
  .ok (OticType.ofByte? tag ≠ some .eof, false, ch)

/-- `otic_unpack_getLine`: the value returned, whether the block was used up (then
`parent->current` is cleared), and the channel. -/
def getLine (version : UInt8) (ch : Channel) : Exec (Bool × Bool × Channel) := do
  let used ← ch.usedUp
  if used then .ok (true, true, ch) else ch.takeLine version

end Channel

end Otic.Unpack
