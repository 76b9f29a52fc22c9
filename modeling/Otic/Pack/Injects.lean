import Otic.Pack.Refine

/-!
# All eight injects

The two injects that `Channel.lean` leaves out, `inject_b` and `inject_array`, and the
eight of them as one function: the timestamp, for a string the room for its text, the
row, and except after an array the flush.  `row` is what the row comes to for the
encoder, as bytes; that the channel writes these bytes is `writeRow_map_countRow`.
-/

namespace Otic.Pack

/-! ### Arrays -/

/-- An `oval_t` that `write_array` meets; `other` is any type it has no case for.  A
float is held as a double. -/
inductive Element where
  | intPos (lval : UInt64)
  | intNeg (lval : UInt64)
  | double (dval : UInt64)
  | float (dval : UInt64)
  | string (sval : List UInt8)
  | array (aval : List Element)
  | object (size : UInt32)
  | true
  | false
  | other

mutual

/-- Lengths are those of objects in memory and of 32-bit counters. -/
def Element.Sized : Element → Prop
  | .string sval => sval.length < 2 ^ 63
  | .array aval => aval.length < 2 ^ 32 ∧ Element.AllSized aval
  | _ => True

def Element.AllSized : List Element → Prop
  | [] => True
  | el :: elements => el.Sized ∧ Element.AllSized elements

end

/-- `oval_array_t`. -/
abbrev OvalArray := { elements : List Element // (Element.array elements).Sized }

def OvalArray.empty : OvalArray := ⟨[], by simp [Element.Sized, Element.AllSized]⟩

/-- `size`, a `uint32_t`. -/
def OvalArray.size (aval : OvalArray) : Nat := aval.val.length

namespace Channel

/-- `write_float`. -/
def writeFloat (ch : Channel) (value : UInt64) : Channel :=
  ch.put (Bytes.ofUInt32 (toSingle value))

/-- `write_string`: the length is one byte. -/
def writeString (ch : Channel) (value : List UInt8) : Channel :=
  (ch.writeByte (UInt8.ofNat value.length)).put value

/-- `write_object`. -/
def writeObject (ch : Channel) (size : UInt32) : Channel := ch.writeLong size.toUInt64

/-- `write_buffer`: `size` is copied as it lies in memory. -/
def writeBuffer (ch : Channel) (buffer : List UInt8) : Channel :=
  (ch.put (Bytes.ofUInt64 (UInt64.ofNat buffer.length))).put buffer

mutual

/-- The `switch` of `write_array`. -/
def writeElement (ch : Channel) : Element → Channel
  | .intPos lval =>
      if lval < SMALL_INT_LIMIT.toUInt64 then ch.writeByte lval.toUInt8
      else (ch.writeByte OticType.intPos.toByte).writeLong lval
  | .intNeg lval => (ch.writeByte OticType.intNeg.toByte).writeLong lval
  | .double dval => (ch.writeByte OticType.double.toByte).writeDouble dval
  | .float dval => (ch.writeByte OticType.float.toByte).writeFloat dval
  | .string sval => (ch.writeByte OticType.string.toByte).writeString sval
  | .array aval =>
      writeElements
        ((ch.writeByte OticType.array.toByte).writeLong (UInt64.ofNat aval.length)) aval
  | .object size => (ch.writeByte OticType.object.toByte).writeObject size
  | .true => ch.writeByte OticType.true.toByte
  | .false => ch.writeByte OticType.false.toByte
  | .other => ch

/-- The loop of `write_array`. -/
def writeElements (ch : Channel) : List Element → Channel
  | [] => ch
  | el :: elements => writeElements (ch.writeElement el) elements

end

/-- `write_array`. -/
def writeArray (ch : Channel) (aval : List Element) : Channel :=
  writeElements (ch.writeLong (UInt64.ofNat aval.length)) aval

/-- `otic_pack_entry_insert_b`. -/
def entryInsertB (cache : Chained.Table Entry) (o unit : CStr) (index : UInt16) :
    Chained.Table Entry :=
  entryInsertRoutine cache o unit index .rawbuffer

/-- `otic_pack_entry_insert_array`: only the type is stored.  The size is that of a new
entry, 0, or what lies there (`stale`) in an entry that has the index already. -/
def entryInsertArray (stale : Nat) (cache : Chained.Table Entry) (o unit : CStr)
    (index : UInt16) : Chained.Table Entry :=
  let taken := (cache (hashFunction o.bytes)).any fun entry => entry.index == index.toUInt32
  entryInsertRoutine cache o unit index
    (.array (if taken then List.replicate stale .null else []))

def bInjection (buffer : List UInt8) : Injection where
  insert := entryInsertB
  same _ := false
  changed := .rawbuffer
  write index ch :=
    ((ch.writeByte OticType.rawbuffer.toByte).writeLong index).writeBuffer buffer

/-- Only the size of the last array is ever stored, never its elements: `equal` is what
`oval_array_cmp` makes of whatever lies at `elements` when the sizes agree. -/
def arrayInjection (aval : OvalArray) (equal : Bool) (stale : Nat) : Injection where
  insert := entryInsertArray stale
  same
    | .array elements => elements.length == aval.size && (aval.size == 0 || equal)
    | _ => false
  changed := .array (List.replicate aval.size .null)
  write index ch := ((ch.writeByte OticType.array.toByte).writeLong index).writeArray aval.val

end Channel

namespace Handle

variable (zstd : Zstd)

/-- `otic_pack_channel_inject_b`. -/
def injectB (h : Handle) (timestamp : UInt64) (sensorName : CStr) (unit : Option CStr)
    (buffer : List UInt8) : Bool × Handle :=
  injectRow zstd .onError (Channel.bInjection buffer) h timestamp sensorName unit

/-- `otic_pack_channel_inject_array`: there is no flush after the row. -/
def injectArray (h : Handle) (timestamp : UInt64) (sensorName : CStr) (unit : Option CStr)
    (v : OvalArray) (equal : Bool) (stale : Nat) : Bool × Handle :=
  match h.tsHandler zstd timestamp with
  | (false, h) => (false, h.setState .onError)
  | (true, h) =>
      match h.channel.writeRow (Channel.arrayInjection v equal stale)
          (Channel.entryFind h.channel.cache sensorName) sensorName unit with
      | none => (false, (h.setError .bufferOverflow).setState .onError)
      | some ch => (true, { h with channel := ch.countRow })

end Handle

/-! ### A call of any inject -/

/-- The value of an inject. -/
inductive AnyValue where
  | scalar (value : Value)
  | buffer (bytes : List UInt8)
  | array (aval : OvalArray)

/-- A call of an inject; `heap` matters for strings, `equal` and `stale` for arrays. -/
structure AnyCall where
  tick : Tick
  sensorName : CStr
  unit : Option CStr
  value : AnyValue
  heap : List UInt8
  equal : Bool
  stale : Nat

namespace AnyCall

def unitStr (c : AnyCall) : CStr := c.unit.getD CStr.empty

abbrev Fits (c : AnyCall) : Prop := c.sensorName.size + c.unitStr.bytes.length + 1 ≤ UINT8_MAX

/-- The call of a scalar. -/
def scalar (c : AnyCall) (value : Value) : Call := ⟨c.tick, c.sensorName, c.unit, value, c.heap⟩

def inject (zstd : Zstd) (c : AnyCall) (h : Handle) : Bool × Handle :=
  match c.value with
  | .scalar value => (c.scalar value).inject zstd h
  | .buffer bytes => h.injectB zstd c.tick c.sensorName c.unit bytes
  | .array aval => h.injectArray zstd c.tick c.sensorName c.unit aval c.equal c.stale

def injection (c : AnyCall) : Channel.Injection :=
  match c.value with
  | .scalar value => (c.scalar value).injection
  | .buffer bytes => Channel.bInjection bytes
  | .array aval => Channel.arrayInjection aval c.equal c.stale

/-- The state an inject leaves behind when it fails. -/
def failState (c : AnyCall) : OticState :=
  match c.value with
  | .scalar (.bool _) | .scalar (.intNeg _) | .scalar .null => .closed
  | _ => .onError

/-- The length of a string; no other value is checked against the threshold. -/
def textSize (c : AnyCall) : Nat :=
  match c.value with
  | .scalar value => value.textSize
  | _ => 0

/-- Whether the bucket is flushed after the row if it is full. -/
def flushes (c : AnyCall) : Bool :=
  match c.value with
  | .array _ => false
  | _ => true

end AnyCall

/-- A call of a scalar inject, as one of any. -/
def Call.any (c : Call) : AnyCall :=
  ⟨c.tick, c.sensorName, c.unit, .scalar c.value, c.heap, false, 0⟩

@[simp] theorem Call.inject_any (zstd : Zstd) (c : Call) (h : Handle) :
    c.any.inject zstd h = c.inject zstd h := rfl

/-! ### The bytes of a row -/

mutual

/-- What `write_array` puts for an element. -/
def Element.encode : Element → List UInt8
  | .intPos lval =>
      if lval < SMALL_INT_LIMIT.toUInt64 then [lval.toUInt8]
      else OticType.intPos.toByte :: leb128EncodeUnsigned lval
  | .intNeg lval => OticType.intNeg.toByte :: leb128EncodeUnsigned lval
  | .double dval => OticType.double.toByte :: Bytes.ofUInt64 dval
  | .float dval => OticType.float.toByte :: Bytes.ofUInt32 (toSingle dval)
  | .string sval => OticType.string.toByte :: UInt8.ofNat sval.length :: sval
  | .array aval =>
      OticType.array.toByte ::
        (leb128EncodeUnsigned (UInt64.ofNat aval.length) ++ encodeElements aval)
  | .object size => OticType.object.toByte :: leb128EncodeUnsigned size.toUInt64
  | .true => [OticType.true.toByte]
  | .false => [OticType.false.toByte]
  | .other => []

def encodeElements : List Element → List UInt8
  | [] => []
  | el :: elements => el.encode ++ encodeElements elements

end

/-- What `write_array` puts. -/
def encodeArray (aval : List Element) : List UInt8 :=
  leb128EncodeUnsigned (UInt64.ofNat aval.length) ++ encodeElements aval

namespace Channel

mutual

theorem writeElement_put (ch : Channel) (bytes : List UInt8) :
    ∀ el : Element, (ch.put bytes).writeElement el = ch.put (bytes ++ el.encode)
  | .intPos lval => by
    simp only [writeElement, Element.encode]
    split <;> simp [writeByte, writeLong]
  | .intNeg _ => by simp [writeElement, Element.encode, writeByte, writeLong]
  | .double _ => by simp [writeElement, Element.encode, writeByte, writeDouble]
  | .float _ => by simp [writeElement, Element.encode, writeByte, writeFloat]
  | .string _ => by simp [writeElement, Element.encode, writeByte, writeString]
  | .array aval => by
    simp only [writeElement, Element.encode, writeByte, writeLong, put_put]
    rw [writeElements_put ch _ aval]
    simp
  | .object _ => by simp [writeElement, Element.encode, writeByte, writeObject, writeLong]
  | .true => by simp [writeElement, Element.encode, writeByte]
  | .false => by simp [writeElement, Element.encode, writeByte]
  | .other => by simp [writeElement, Element.encode]

/-- The loop appends the elements to what was put before. -/
theorem writeElements_put (ch : Channel) (bytes : List UInt8) :
    ∀ elements : List Element,
      (ch.put bytes).writeElements elements = ch.put (bytes ++ encodeElements elements)
  | [] => by simp [writeElements, encodeElements]
  | el :: elements => by
    rw [writeElements, writeElement_put ch bytes el, writeElements_put ch _ elements,
      encodeElements, List.append_assoc]

end

theorem writeArray_put (ch : Channel) (bytes : List UInt8) (aval : List Element) :
    (ch.put bytes).writeArray aval = ch.put (bytes ++ encodeArray aval) := by
  rw [writeArray, writeLong, put_put, writeElements_put, encodeArray, List.append_assoc]

end Channel

namespace AnyCall

/-- The record of the value under an index. -/
def payload (c : AnyCall) (index : UInt32) : List UInt8 :=
  match c.value with
  | .scalar value => (value.record index).encode
  | .buffer bytes =>
      OticType.rawbuffer.toByte :: (leb128EncodeUnsigned index.toUInt64 ++
        (Bytes.ofUInt64 (UInt64.ofNat bytes.length) ++ bytes))
  | .array aval =>
      OticType.array.toByte :: (leb128EncodeUnsigned index.toUInt64 ++ encodeArray aval.val)

theorem write_injection (c : AnyCall) (index : UInt32) (ch : Channel) :
    c.injection.write index.toUInt64 ch = ch.put (c.payload index) := by
  unfold injection payload
  cases c.value with
  | scalar value =>
    have hscalar := Channel.write_injection (c.scalar value) index ch
    rw [Channel.writeRecord_eq_put] at hscalar
    exact hscalar
  | buffer bytes =>
    simp [Channel.bInjection, Channel.writeByte, Channel.writeLong, Channel.writeBuffer]
  | array aval =>
    simp [Channel.arrayInjection, Channel.writeByte, Channel.writeLong, Channel.writeArray_put]

/-- The row of a call whose sensor is new. -/
def newRow (enc : Encoder) (c : AnyCall) : Option (Encoder × List UInt8) :=
  if h : c.Fits then
    some
      ({ enc with
        cache := c.injection.insert enc.cache c.sensorName c.unitStr enc.totalEntries
        totalEntries := enc.totalEntries + 1
        rowCounter := enc.rowCounter + 1 },
        (Record.nameAssign ⟨c.sensorName, c.unitStr.bytes, h⟩).encode ++
          c.payload enc.totalEntries.toUInt32)
  else none

/-- The row of a call whose sensor has an entry. -/
def knownRow (enc : Encoder) (c : AnyCall) (entry : Entry) : Encoder × List UInt8 :=
  if c.injection.same entry.lastValue then
    ({ enc with rowCounter := enc.rowCounter + 1 }, (Record.unmodified entry.index).encode)
  else
    ({ enc with
      cache := Channel.setLastValue enc.cache c.sensorName c.injection.changed
      rowCounter := enc.rowCounter + 1 }, c.payload entry.index)

/-- What the row of a call comes to; `none` if name and unit of a new sensor are too
long. -/
def row (enc : Encoder) (c : AnyCall) : Option (Encoder × List UInt8) :=
  match Channel.entryFind enc.cache c.sensorName with
  | none => c.newRow enc
  | some entry => some (c.knownRow enc entry)

/-- **The channel writes** the bytes of the row. -/
theorem writeRow_map_countRow (c : AnyCall) (ch : Channel) :
    (ch.writeRow c.injection (Channel.entryFind ch.cache c.sensorName) c.sensorName c.unit).map
        Channel.countRow =
      (c.row ch.encoder).map fun out => (ch.put out.2).install out.1 := by
  unfold Channel.writeRow row
  change
    Option.map _ (match Channel.entryFind ch.cache c.sensorName with | none => _ | some _ => _) =
    Option.map _ (match Channel.entryFind ch.cache c.sensorName with | none => _ | some _ => _)
  cases hentry : Channel.entryFind ch.cache c.sensorName with
  | none =>
    by_cases hfits : c.Fits
    · have hfits' : ¬ UINT8_MAX < c.sensorName.size + (c.unit.getD CStr.empty).size + 1 := by
        simpa [Fits, unitStr, CStr.size] using hfits
      have hname : ∀ ch : Channel, ch.idAssign c.sensorName (c.unit.getD CStr.empty).bytes =
          ch.put (Record.nameAssign ⟨c.sensorName, c.unitStr.bytes, hfits⟩).encode :=
        fun ch => ch.writeRecord_eq_put (.nameAssign ⟨c.sensorName, c.unitStr.bytes, hfits⟩)
      have hrow : ∀ (ch : Channel) (index : UInt16), c.injection.write index.toUInt64 ch =
          ch.put (c.payload index.toUInt32) := by
        intro ch index
        rw [← write_injection]
        simp
      simp only [newRow, dif_pos hfits, if_neg hfits', Option.map_some, hname, hrow,
        Channel.put_put]
      rfl
    · have hfits' : UINT8_MAX < c.sensorName.size + (c.unit.getD CStr.empty).size + 1 := by
        simpa [Fits, unitStr, CStr.size] using hfits
      simp only [newRow, dif_neg hfits, if_pos hfits', Option.map_none]
  | some entry =>
    simp only [knownRow]
    by_cases hsame : c.injection.same entry.lastValue = true
    · have hrecord : (ch.writeByte OticType.unmodified.toByte).writeLong entry.index.toUInt64 =
          ch.put (Record.unmodified entry.index).encode :=
        ch.writeRecord_eq_put (.unmodified entry.index)
      simp only [if_pos hsame, hrecord, Option.map_some]
      rfl
    · simp only [if_neg hsame, write_injection, Option.map_some]
      rfl

end AnyCall

end Otic.Pack
