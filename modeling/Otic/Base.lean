import Mathlib.Data.UInt
import Otic.Library.Bytes

/-!
# The types of `base.h`

Constants, enumerations and the value type shared by the writer and the reader.
C pointers become the data they point to: a `char*` string is the bytes before
its terminator (`CStr`), a `malloc`ed block is the list of its bytes.
-/

namespace Otic

/-! ### Constants -/

def OTIC_BASE_CACHE_SIZE : UInt32 := 100 * 16384
def OTIC_PACK_CACHE_SIZE : Nat := 255
def OTIC_PACK_CACHE_TOP_LIMIT : UInt32 := 512
def OTIC_UNPACK_OUT_SIZE : Nat := 100 * 16384
def OTIC_UNPACK_CACHE_ALLOCATION_RESERVE_SIZE : Nat := 8
def OTIC_MAGIC : List UInt8 := [0x4F, 0xA9, 0x46, 0x35]
def OTIC_VERSION_MAJOR : UInt8 := 2
def PTR_M : UInt64 := 31
def SMALL_INT_LIMIT : UInt8 := 0xC9
def TS_NULL : UInt64 := 0xFFFFFFFFFFFFFFFF
def UINT8_MAX : Nat := 255

/-! ### Enumerations -/

/-- `otic_type_e`: the tags of values and of records. -/
inductive OticType where
  | null | intNeg | intPos | float | double | string | array | object
  | true | false | rawbuffer | unmodified | setTimestamp | shiftTimestamp
  | nameAssign | eof
deriving DecidableEq, Repr

/-- The byte of a tag: the enumeration starts at `SMALL_INT_LIMIT`. -/
def OticType.toByte : OticType → UInt8
  | .null => 0xC9
  | .intNeg => 0xCA
  | .intPos => 0xCB
  | .float => 0xCC
  | .double => 0xCD
  | .string => 0xCE
  | .array => 0xCF
  | .object => 0xD0
  | .true => 0xD1
  | .false => 0xD2
  | .rawbuffer => 0xD3
  | .unmodified => 0xD4
  | .setTimestamp => 0xD5
  | .shiftTimestamp => 0xD6
  | .nameAssign => 0xD7
  | .eof => 0xD8

/-- The tag a byte stands for, if any. -/
def OticType.ofByte? (b : UInt8) : Option OticType :=
  [OticType.null, .intNeg, .intPos, .float, .double, .string, .array, .object, .true, .false,
    .rawbuffer, .unmodified, .setTimestamp, .shiftTimestamp, .nameAssign, .eof].find?
      fun type => type.toByte == b

@[simp] theorem OticType.ofByte?_toByte (type : OticType) :
    OticType.ofByte? type.toByte = some type := by
  cases type <;> rfl

theorem OticType.toByte_of_ofByte? {b : UInt8} {type : OticType}
    (h : OticType.ofByte? b = some type) : type.toByte = b := by
  simpa using List.find?_some h

@[simp] theorem OticType.not_toByte_lt (type : OticType) : ¬ type.toByte < SMALL_INT_LIMIT := by
  cases type <;> decide

/-- `otic_error_e`. -/
inductive OticError where
  | none | invalidPointer | bufferOverflow | invalidTimestamp | entryInsertionFailure | zstd
  | flushFailed | eof | invalidFile | dataCorrupted | invalidOticFile | versionUnsupported
  | rowCountMismatch | invalidArgument | atInvalidState | allocationFailure
deriving DecidableEq, Repr

/-- `otic_state_e`. -/
inductive OticState where
  | opened | onError | closed
deriving DecidableEq, Repr

/-- `otic_meta_type_e`: the tags of the frames of a file. -/
inductive MetaType where
  | channelDefine | channelType | compressionMethod | chunkSize | data
deriving DecidableEq, Repr

def MetaType.toByte : MetaType → UInt8
  | .channelDefine => 0
  | .channelType => 1
  | .compressionMethod => 2
  | .chunkSize => 3
  | .data => 4

def MetaType.ofByte? (b : UInt8) : Option MetaType :=
  [MetaType.channelDefine, .channelType, .compressionMethod, .chunkSize, .data].find?
    fun type => type.toByte == b

@[simp] theorem MetaType.ofByte?_toByte (type : MetaType) :
    MetaType.ofByte? type.toByte = some type := by
  cases type <;> rfl

/-- `channel_type_e`; the reader stores whatever byte the file holds. -/
def OTIC_CHANNEL_TYPE_SENSOR : UInt8 := 0
def OTIC_CHANNEL_TYPE_BINARY : UInt8 := 1

/-- The one compression method the writer names (`OTIC_FEATURE_COMPRESSION_ZSTD`). -/
def OTIC_FEATURE_COMPRESSION_ZSTD : UInt8 := 0

/-! ### Strings and values -/

/-- A C string: its bytes without the terminator, hence without any zero.  With the
terminator it is an object, and no object is larger than `PTRDIFF_MAX`. -/
structure CStr where
  bytes : List UInt8
  nulFree : (0 : UInt8) ∉ bytes
  sized : bytes.length + 1 < 2 ^ 63
deriving DecidableEq

def CStr.empty : CStr := ⟨[], by simp, by simp⟩

/-- The string `"a"`, which names the sensor of the examples, is a C string. -/
theorem notMem_a : (0 : UInt8) ∉ [0x61] := by decide

theorem sized_a : [(0x61 : UInt8)].length + 1 < 2 ^ 63 := by decide

/-- `strlen`. -/
def CStr.size (s : CStr) : Nat := s.bytes.length

theorem CStr.ext_bytes {s t : CStr} (h : s.bytes = t.bytes) : s = t := by
  cases s
  cases t
  cases h
  rfl

/-- `oval_t`: the active type together with what the union holds for it.  The
string is the block `sval.ptr` points to and `sval.size`; a double is its bit pattern.
A float is copied into the low half of `dval`; the high half is `none` where it keeps
what was there. -/
inductive Oval where
  | null
  | intNeg (lval : UInt64)
  | intPos (lval : UInt64)
  | float (low : UInt32) (high : Option UInt32)
  | double (dval : UInt64)
  | string (block : List UInt8) (size : Nat)
  | array (elements : List Oval)
  | true
  | false
  | rawbuffer
  | eof

/-- The tag of a value. -/
def Oval.type : Oval → OticType
  | .null => .null
  | .intNeg _ => .intNeg
  | .intPos _ => .intPos
  | .float _ _ => .float
  | .double _ => .double
  | .string _ _ => .string
  | .array _ => .array
  | .true => .true
  | .false => .false
  | .rawbuffer => .rawbuffer
  | .eof => .eof

/-- What the reader's callback is called with.  The time is the tick whose quotient
by `OTIC_TS_MULTIPLICATOR` is the double passed (`none` before any timestamp
record was read); name and unit are what a C string function sees at the pointers. -/
structure Row where
  ts : Option UInt64
  name : List UInt8
  unit : List UInt8
  value : Oval

/-- `otic_base_t`, less the block `cache` and the pointer `top` into it. -/
structure Base where
  timestampStart : UInt64
  timestampCurrent : UInt64
  error : OticError
  state : OticState
  rowCounter : UInt64
  cacheSize : UInt32
deriving DecidableEq, Repr

/-- `otic_base_init`. -/
def Base.init (bucketSize : UInt32) : Base where
  timestampStart := TS_NULL
  timestampCurrent := TS_NULL
  error := .none
  state := .opened
  rowCounter := 0
  cacheSize := bucketSize

/-- A `char` that is signed, as an addend of a `size_t`. -/
def signExtend (c : UInt8) : UInt64 := if c < 0x80 then c.toUInt64 else c.toUInt64 - 0x100

/-- The loop of `otic_pack_hashFunction` and `otic_unpack_hashFunction`. -/
def hashBytes (bytes : List UInt8) : UInt64 :=
  bytes.foldl (fun hash c => PTR_M * hash + signExtend c) 0

/-! ### Doubles -/

/-- The bits of a double without its sign. -/
def magnitude (dval : UInt64) : UInt64 := dval &&& 0x7FFFFFFFFFFFFFFF

def isNaN (dval : UInt64) : Bool := 0x7FF0000000000000 < magnitude dval

/-- The C operator `==` on two doubles given by their bits. -/
def doubleEq (a b : UInt64) : Bool :=
  !isNaN a && !isNaN b && (a == b || (magnitude a == 0 && magnitude b == 0))

/-- The same bits, or equal under `==`. -/
def SameDouble (a b : UInt64) : Prop := a = b ∨ doubleEq a b = true

instance (a b : UInt64) : Decidable (SameDouble a b) := by
  unfold SameDouble
  infer_instance

/-- A quotient by a power of two, rounded to the nearest number, to the even one of two. -/
def roundEven (n shift : Nat) : Nat :=
  let quotient := n / 2 ^ shift
  let twice := 2 * (n % 2 ^ shift)
  if 2 ^ shift < twice ∨ (twice = 2 ^ shift ∧ quotient % 2 = 1) then quotient + 1 else quotient

/-- The cast of a double to `float`, both as bits. -/
def toSingle (dval : UInt64) : UInt32 :=
  let exponent := (dval >>> 52 &&& 0x7FF).toNat
  let fraction := (dval &&& 0xFFFFFFFFFFFFF).toNat
  let bits :=
    if exponent = 0x7FF then
      if fraction = 0 then 0x7F800000 else 0x7FC00000 ||| fraction >>> 29
    else
      -- the significand counts units of `2 ^ (scale - 1075)`, a float's at least `2 ^ -149`
      let scale := max exponent 1
      let shift := max 29 (926 - scale)
      let significand := if exponent = 0 then fraction else fraction + 2 ^ 52
      min 0x7F800000 ((scale + shift - 926) * 2 ^ 23 + roundEven significand shift)
  UInt32.ofNat ((dval >>> 63).toNat * 2 ^ 31 + bits)

/-- Equal to single precision. -/
def SameSingle (a b : UInt64) : Prop := toSingle a = toSingle b ∨ (isNaN a = true ∧ isNaN b = true)

instance (a b : UInt64) : Decidable (SameSingle a b) := by
  unfold SameSingle
  infer_instance

/-! ### zstd

The compressor is a library outside the repository: a parameter of the model.
`none` is an error code. -/

structure Zstd where
  /-- `ZSTD_compressCCtx`: capacity of the destination, source. -/
  compress : Nat → List UInt8 → Option (List UInt8)
  /-- `ZSTD_decompressDCtx`: capacity of the destination, source. -/
  decompress : Nat → List UInt8 → Option (List UInt8)
  /-- What `ZSTD_decompressDCtx` leaves in the destination when it returns an error:
  capacity, source, what the destination held. -/
  remains : Nat → List UInt8 → List UInt8 → List UInt8

/-- Decompression inverts compression, and neither writes past its capacity. -/
structure Zstd.Lossless (zstd : Zstd) : Prop where
  compress_le : ∀ {capacity block frame},
    zstd.compress capacity block = some frame → frame.length ≤ capacity
  decompress_compress : ∀ {capacity block frame capacity'},
    zstd.compress capacity block = some frame → block.length ≤ capacity' →
      zstd.decompress capacity' frame = some block

/-! ### Undefined behaviour -/

/-- What a C execution can do that the language gives no meaning to, or that
never ends. -/
inductive Fault where
  /-- a byte at or past `blockSize`, or one that nothing was written to, was read -/
  | overread
  /-- an `entryIndex` that is not below `totalEntries` was used -/
  | badIndex
  /-- a group of a LEB128 number was shifted by 64 or more -/
  | shift
  /-- a name record without a terminator left a unit of negative length -/
  | negativeUnit
  /-- a 32-bit counter was to reach a count of 2^32 or more -/
  | endless
  /-- more was fetched into `base.cache` than it was allocated with -/
  | cacheOverrun
  /-- more was decompressed into `out` than it was allocated with -/
  | outOverrun
  /-- bytes were used that no fetch had delivered, or that had been freed -/
  | stale
deriving DecidableEq, Repr

/-- A computation that either has a meaning or a fault. -/
abbrev Exec := Except Fault

@[simp] theorem Exec.ok_bind {α β : Type} (a : α) (f : α → Exec β) :
    (Except.ok a >>= f) = f a := rfl

theorem Except.bind_eq_ok {ε α β : Type} {x : Except ε α} {f : α → Except ε β} {b : β} :
    (x >>= f) = .ok b ↔ ∃ a, x = .ok a ∧ f a = .ok b := by
  cases x <;> simp [bind, Except.bind]

theorem Exec.bind_eq_ok {α β : Type} {x : Exec α} {f : α → Exec β} {b : β} :
    (x >>= f) = .ok b ↔ ∃ a, x = .ok a ∧ f a = .ok b :=
  Except.bind_eq_ok

end Otic
