import Otic.Leb128

/-!
# The grammar of a block

Which bytes are a sequence of records, as relations between the bytes from some point
of a block to its end, what is read there, and the bytes that are left.  The grammar
has two parameters.  `Rules.format` is the format itself.  `Rules.reader` is what the
reader of `unpack.c` gets through without a fault: it is lax in what it does not check,
and it asks for more room in one place.  `Rules.safe` has what the two share.
-/

namespace Otic

/-- How a block is to be read. -/
structure Rules where
  /-- unknown tags, indices and sizes that are too wide, arrays that break off and
  buffers that run past the end are passed over -/
  lax : Prop
  /-- the bytes that must follow a float inside an array -/
  room : Nat

namespace Rules

/-- The format: nothing but complete records. -/
def format : Rules := ⟨False, 0⟩

/-- What the reader gets through. -/
def reader : Rules := ⟨True, 4⟩

/-- The second rules admit what the first do. -/
def Allows (g g' : Rules) : Prop := (g.lax → g'.lax) ∧ g'.room ≤ g.room

variable (g : Rules)

/-! ### Numbers -/

/-- A number of at most ten groups; a lax reader drops what exceeds 64 bits. -/
structure Number (value : Nat) (digits : List UInt8) : Prop where
  terminated : Varint.Terminated digits
  groups : digits.length ≤ 10
  value_eq : Varint.value digits % 2 ^ 64 = value
  fits : g.lax ∨ Varint.value digits < 2 ^ 64

/-- An index below the number of names; a lax reader looks at its low 32 bits. -/
def Index (names : Nat) (digits : List UInt8) : Prop :=
  ∃ index, g.Number index digits ∧ index % 2 ^ 32 < names ∧ (g.lax ∨ index < names)

/-! ### Values -/

/-- The tags an element of an array may have. -/
def elementTags : List OticType :=
  [.intPos, .intNeg, .double, .float, .string, .array, .true, .false]

/-- `count` elements of an array; the flag says whether all of them were read. -/
inductive Elements : Nat → List UInt8 → Bool → List UInt8 → Prop
  | nil {rest : List UInt8} : Elements 0 rest true rest
  | number {count value : Nat} {type : OticType} {digits bytes rest : List UInt8} {done : Bool}
      (htype : type ∈ [OticType.intPos, .intNeg]) (hnumber : g.Number value digits)
      (htail : Elements count bytes done rest) :
      Elements (count + 1) (type.toByte :: (digits ++ bytes)) done rest
  | double {count : Nat} {eight bytes rest : List UInt8} {done : Bool} (hlength : eight.length = 8)
      (htail : Elements count bytes done rest) :
      Elements (count + 1) (OticType.double.toByte :: (eight ++ bytes)) done rest
  | float {count : Nat} {four bytes rest : List UInt8} {done : Bool} (hlength : four.length = 4)
      (hroom : g.room ≤ bytes.length) (htail : Elements count bytes done rest) :
      Elements (count + 1) (OticType.float.toByte :: (four ++ bytes)) done rest
  | string {count : Nat} {size : UInt8} {body bytes rest : List UInt8} {done : Bool}
      (hlength : body.length = size.toNat) (htail : Elements count bytes done rest) :
      Elements (count + 1) (OticType.string.toByte :: size :: (body ++ bytes)) done rest
  | flag {count : Nat} {type : OticType} {bytes rest : List UInt8} {done : Bool}
      (htype : type ∈ [OticType.true, .false]) (htail : Elements count bytes done rest) :
      Elements (count + 1) (type.toByte :: bytes) done rest
  | array {count size : Nat} {digits inner bytes rest : List UInt8} {done : Bool}
      (hsize : g.Number size digits) (hcount : size < 2 ^ 32)
      (hinner : Elements size inner true bytes) (htail : Elements count bytes done rest) :
      Elements (count + 1) (OticType.array.toByte :: (digits ++ inner)) done rest
  | arrayStopped {count size : Nat} {digits inner rest : List UInt8}
      (hsize : g.Number size digits) (hcount : size < 2 ^ 32)
      (hinner : Elements size inner false rest) :
      Elements (count + 1) (OticType.array.toByte :: (digits ++ inner)) false rest
  | stopped {count : Nat} {tag : UInt8} {rest : List UInt8} (hlax : g.lax)
      (htag : ∀ type ∈ elementTags, OticType.ofByte? tag ≠ some type) :
      Elements (count + 1) (tag :: rest) false rest

/-- What follows the tag and the index of a row. -/
inductive Payload (version : UInt8) : OticType → List UInt8 → List UInt8 → Prop
  | flag {type : OticType} {rest : List UInt8}
      (htype : type ∈ [OticType.null, .true, .false, .unmodified]) :
      Payload version type rest rest
  | number {value : Nat} {type : OticType} {digits rest : List UInt8}
      (htype : type ∈ [OticType.intPos, .intNeg]) (hnumber : g.Number value digits) :
      Payload version type (digits ++ rest) rest
  | double {eight rest : List UInt8} (hlength : eight.length = 8) :
      Payload version .double (eight ++ rest) rest
  | float {four rest : List UInt8} (hlength : four.length = 4) :
      Payload version .float (four ++ rest) rest
  | shortString {size : UInt8} {body rest : List UInt8} (hversion : version = 1)
      (hlength : body.length = size.toNat) : Payload version .string (size :: (body ++ rest)) rest
  | string {digits body rest : List UInt8} (hversion : version ≠ 1)
      (hsize : g.Number body.length digits) :
      Payload version .string (digits ++ (body ++ rest)) rest
  | array {size : Nat} {digits bytes rest : List UInt8} {done : Bool}
      (hsize : g.Number size digits) (hcount : size < 2 ^ 32)
      (helements : g.Elements size bytes done rest) :
      Payload version .array (digits ++ bytes) rest

end Rules

/-! ### Records -/

/-- What a record does to the counters of a channel. -/
inductive Effect where
  | row | name | none
  | count (rows : Nat)

/-- The counters a block is read with, and whether an error is reported. -/
structure Tally where
  names : Nat
  rows : UInt64
  reported : Bool
deriving DecidableEq, Repr

/-- The end mark reports a count that is not the number of rows. -/
def Tally.after (t : Tally) : Effect → Tally
  | .row => { t with rows := t.rows + 1 }
  | .name => { t with names := t.names + 1 }
  | .none => t
  | .count rows => { t with reported := t.reported || rows ≠ t.rows.toNat }

namespace Rules

variable (g : Rules)

/-- A record at the head of the bytes. -/
inductive RecordAt (version : UInt8) (names : Nat) : List UInt8 → Effect → List UInt8 → Prop
  | smallInt {tag : UInt8} {digits rest : List UInt8} (htag : tag < SMALL_INT_LIMIT)
      (hindex : g.Index names digits) : RecordAt version names (tag :: (digits ++ rest)) .row rest
  | row {type : OticType} {digits bytes rest : List UInt8} (hindex : g.Index names digits)
      (hpayload : g.Payload version type bytes rest) :
      RecordAt version names (type.toByte :: (digits ++ bytes)) .row rest
  | timestamp {value : Nat} {type : OticType} {digits rest : List UInt8}
      (htype : type ∈ [OticType.setTimestamp, .shiftTimestamp]) (hnumber : g.Number value digits) :
      RecordAt version names (type.toByte :: (digits ++ rest)) .none rest
  | eof {rows : Nat} {digits rest : List UInt8} (hnumber : g.Number rows digits) :
      RecordAt version names (OticType.eof.toByte :: (digits ++ rest)) (.count rows) rest
  | nameAssign {length : UInt8} {name unit rest : List UInt8} (hname : (0 : UInt8) ∉ name)
      (hlength : length.toNat = name.length + unit.length + 1) :
      RecordAt version names
        (OticType.nameAssign.toByte :: length :: (name ++ 0 :: (unit ++ rest))) .name rest
  | rawbuffer {size : Nat} {digits bytes : List UInt8} (hnumber : g.Number size digits)
      (hinside : g.lax ∨ size < 2 ^ 32 ∧ size ≤ bytes.length) :
      RecordAt version names (OticType.rawbuffer.toByte :: (digits ++ bytes)) .none
        (bytes.drop (size % 2 ^ 32))
  | skipped {tag : UInt8} {rest : List UInt8} (hlax : g.lax) (hlimit : ¬ tag < SMALL_INT_LIMIT)
      (htag : OticType.ofByte? tag = Option.none ∨ OticType.ofByte? tag = some .object) :
      RecordAt version names (tag :: rest) .none rest

/-- A sequence of records up to the end of a block. -/
inductive Records (version : UInt8) : Tally → List UInt8 → Tally → Prop
  | nil {t : Tally} : Records version t [] t
  | cons {t t' : Tally} {effect : Effect} {bytes rest : List UInt8}
      (hrecord : g.RecordAt version t.names bytes effect rest)
      (htail : Records version (t.after effect) rest t') : Records version t bytes t'

variable {g} {g' : Rules}

/-! ### More rules admit more -/

theorem Number.mono {value : Nat} {digits : List UInt8} (h : g.Number value digits)
    (hg : g.Allows g') : g'.Number value digits :=
  { h with fits := h.fits.imp_left hg.1 }

theorem Index.mono {names : Nat} {digits : List UInt8} (h : g.Index names digits)
    (hg : g.Allows g') : g'.Index names digits := by
  obtain ⟨index, hnumber, hlt, hfits⟩ := h
  exact ⟨index, hnumber.mono hg, hlt, hfits.imp_left hg.1⟩

theorem Elements.mono {count : Nat} {bytes rest : List UInt8} {done : Bool}
    (h : g.Elements count bytes done rest) (hg : g.Allows g') :
    g'.Elements count bytes done rest := by
  induction h with
  | nil => exact .nil
  | number htype hnumber _ ih => exact .number htype (hnumber.mono hg) ih
  | double hlength _ ih => exact .double hlength ih
  | float hlength hroom _ ih => exact .float hlength (hg.2.trans hroom) ih
  | string hlength _ ih => exact .string hlength ih
  | flag htype _ ih => exact .flag htype ih
  | array hsize hcount _ _ ihinner ih => exact .array (hsize.mono hg) hcount ihinner ih
  | arrayStopped hsize hcount _ ih => exact .arrayStopped (hsize.mono hg) hcount ih
  | stopped hlax htag => exact .stopped (hg.1 hlax) htag

theorem Payload.mono {version : UInt8} {type : OticType} {bytes rest : List UInt8}
    (h : g.Payload version type bytes rest) (hg : g.Allows g') :
    g'.Payload version type bytes rest := by
  cases h with
  | flag htype => exact .flag htype
  | number htype hnumber => exact .number htype (hnumber.mono hg)
  | double hlength => exact .double hlength
  | float hlength => exact .float hlength
  | shortString hversion hlength => exact .shortString hversion hlength
  | string hversion hsize => exact .string hversion (hsize.mono hg)
  | array hsize hcount helements => exact .array (hsize.mono hg) hcount (helements.mono hg)

theorem RecordAt.mono {version : UInt8} {names : Nat} {effect : Effect} {bytes rest : List UInt8}
    (h : g.RecordAt version names bytes effect rest) (hg : g.Allows g') :
    g'.RecordAt version names bytes effect rest := by
  cases h with
  | smallInt htag hindex => exact .smallInt htag (hindex.mono hg)
  | row hindex hpayload => exact .row (hindex.mono hg) (hpayload.mono hg)
  | timestamp htype hnumber => exact .timestamp htype (hnumber.mono hg)
  | eof hnumber => exact .eof (hnumber.mono hg)
  | nameAssign hname hlength => exact .nameAssign hname hlength
  | rawbuffer hnumber hinside => exact .rawbuffer (hnumber.mono hg) (hinside.imp_left hg.1)
  | skipped hlax hlimit htag => exact .skipped (hg.1 hlax) hlimit htag

theorem Records.mono {version : UInt8} {t t' : Tally} {bytes : List UInt8}
    (h : g.Records version t bytes t') (hg : g.Allows g') : g'.Records version t bytes t' := by
  induction h with
  | nil => exact .nil
  | cons hrecord _ ih => exact .cons (hrecord.mono hg) ih

/-! ### Every record takes a byte -/

theorem Elements.length_le {count : Nat} {bytes rest : List UInt8} {done : Bool}
    (h : g.Elements count bytes done rest) : rest.length ≤ bytes.length := by
  induction h with
  | nil => exact le_rfl
  | _ => simp only [List.length_cons, List.length_append] at *; omega

theorem Payload.length_le {version : UInt8} {type : OticType} {bytes rest : List UInt8}
    (h : g.Payload version type bytes rest) : rest.length ≤ bytes.length := by
  cases h with
  | array _ _ helements =>
    have := helements.length_le
    simp only [List.length_append]
    omega
  | _ => simp <;> omega

end Rules

end Otic
