import Otic.Unpack.Channel

/-!
# Records: what a block is made of and what it means

The scalar wire format at the level of whole records.  `Record.encode` is the
byte string the writers of `pack.c` produce for a record; `View.apply` is what
the record means to a reader that holds a list of sensors, a clock and a row
counter.  Both writer and reader are later compared with this level: the writer
emits encodings of records, the reader applies their meaning.

A record that could not be written cannot be built: a small integer carries that
it is below `SMALL_INT_LIMIT`, a name record that its length fits one byte.
-/

namespace Otic

/-! ### Records -/

/-- The values that are their own tag. -/
abbrev SmallInt := { v : UInt8 // v < SMALL_INT_LIMIT }

/-- What `otic_pack_id_assign` is called with. -/
structure Assignment where
  name : CStr
  unit : List UInt8
  fits : name.size + unit.length + 1 ≤ UINT8_MAX

/-- The contents of an `otic_str_t`: the length is a `size_t`. -/
structure SizedString where
  bytes : List UInt8
  sized : bytes.length < 2 ^ 64

/-- The records of scalar channels; an index is an `entry->index`. -/
inductive Record where
  | setTimestamp (tick : UInt64)
  | shiftTimestamp (shift : UInt64)
  | nameAssign (assignment : Assignment)
  | smallInt (value : SmallInt) (index : UInt32)
  | intPos (index : UInt32) (value : UInt64)
  | intNeg (index : UInt32) (value : UInt64)
  | double (index : UInt32) (value : UInt64)
  | string (index : UInt32) (value : SizedString)
  | null (index : UInt32)
  | true (index : UInt32)
  | false (index : UInt32)
  | unmodified (index : UInt32)
  | eof (count : UInt64)

/-- The index a row record carries; the other records have none. -/
def Record.index? : Record → Option UInt32
  | .smallInt _ i | .intPos i _ | .intNeg i _ | .double i _ | .string i _
  | .null i | .true i | .false i | .unmodified i => some i
  | .setTimestamp _ | .shiftTimestamp _ | .nameAssign _ | .eof _ => none

/-- The records that are counted as rows. -/
def rowsIn (rs : List Record) : Nat := rs.countP fun r => r.index?.isSome

@[simp] theorem rowsIn_append (rs rs' : List Record) :
    rowsIn (rs ++ rs') = rowsIn rs + rowsIn rs' :=
  List.countP_append

/-- The bytes `otic_pack_write_byte`, `write_long`, `write_double` and
`write_string2` write for a record. -/
def Record.encode : Record → List UInt8
  | .setTimestamp tick => OticType.setTimestamp.toByte :: leb128EncodeUnsigned tick
  | .shiftTimestamp shift => OticType.shiftTimestamp.toByte :: leb128EncodeUnsigned shift
  | .nameAssign a =>
      OticType.nameAssign.toByte :: UInt8.ofNat (a.name.size + a.unit.length + 1) ::
        (a.name.bytes ++ 0 :: a.unit)
  | .smallInt v i => v.val :: leb128EncodeUnsigned i.toUInt64
  | .intPos i v =>
      OticType.intPos.toByte :: (leb128EncodeUnsigned i.toUInt64 ++ leb128EncodeUnsigned v)
  | .intNeg i v =>
      OticType.intNeg.toByte :: (leb128EncodeUnsigned i.toUInt64 ++ leb128EncodeUnsigned v)
  | .double i v =>
      OticType.double.toByte :: (leb128EncodeUnsigned i.toUInt64 ++ Bytes.ofUInt64 v)
  | .string i s =>
      OticType.string.toByte :: (leb128EncodeUnsigned i.toUInt64 ++
        (leb128EncodeUnsigned (UInt64.ofNat s.bytes.length) ++ s.bytes))
  | .null i => OticType.null.toByte :: leb128EncodeUnsigned i.toUInt64
  | .true i => OticType.true.toByte :: leb128EncodeUnsigned i.toUInt64
  | .false i => OticType.false.toByte :: leb128EncodeUnsigned i.toUInt64
  | .unmodified i => OticType.unmodified.toByte :: leb128EncodeUnsigned i.toUInt64
  | .eof count => OticType.eof.toByte :: leb128EncodeUnsigned count

/-- The contents of a block made of these records. -/
def encodeAll (records : List Record) : List UInt8 := records.flatMap Record.encode

@[simp] theorem encodeAll_nil : encodeAll [] = [] := rfl

@[simp] theorem encodeAll_cons (r : Record) (rs : List Record) :
    encodeAll (r :: rs) = r.encode ++ encodeAll rs := by
  simp [encodeAll]

@[simp] theorem encodeAll_append (rs rs' : List Record) :
    encodeAll (rs ++ rs') = encodeAll rs ++ encodeAll rs' := by
  simp [encodeAll]

theorem Record.length_encode_pos (r : Record) : 0 < r.encode.length := by
  cases r <;> simp [Record.encode]

theorem length_le_length_encodeAll (rs : List Record) : rs.length ≤ (encodeAll rs).length := by
  induction rs with
  | nil => simp
  | cons r rs ih =>
    have := r.length_encode_pos
    simp only [encodeAll_cons, List.length_cons, List.length_append]
    omega

/-! ### Meaning -/

/-- A sensor as the reader knows it. -/
structure Sensor where
  name : List UInt8
  unit : List UInt8
  value : Oval

/-- What the records of a channel are about: the sensors in the order of their
assignment, the clock, the number of rows, the rows themselves, and the error
flag that a wrong row count raises. -/
structure View where
  sensors : List Sensor
  clock : UInt64
  ts : Option UInt64
  rowCounter : UInt64
  rows : List Row
  error : OticError

/-- One row of the sensor at an index: its value changes by `f` and is delivered. -/
def View.deliver (v : View) (index : UInt32) (f : Oval → Oval) : View :=
  match v.sensors[index.toNat]? with
  | none => v
  | some sensor =>
      let value := f sensor.value
      { v with
        sensors := v.sensors.set index.toNat { sensor with value := value }
        rows := v.rows ++ [⟨v.ts, sensor.name, sensor.unit, value⟩]
        rowCounter := v.rowCounter + 1 }

/-- The meaning of a record. -/
def View.apply (v : View) : Record → View
  | .setTimestamp tick => { v with clock := tick, ts := some tick }
  | .shiftTimestamp shift =>
      { v with clock := v.clock + shift, ts := some (v.clock + shift) }
  | .nameAssign a =>
      { v with sensors := v.sensors ++ [⟨a.name.bytes, Bytes.untilZero a.unit, .eof⟩] }
  | .smallInt value index => v.deliver index fun _ => .intPos value.val.toUInt64
  | .intPos index value => v.deliver index fun _ => .intPos value
  | .intNeg index value => v.deliver index fun _ => .intNeg value
  | .double index value => v.deliver index fun _ => .double value
  | .string index s => v.deliver index fun _ => .string (s.bytes ++ [0]) s.bytes.length
  | .null index => v.deliver index fun _ => .null
  | .true index => v.deliver index fun _ => .true
  | .false index => v.deliver index fun _ => .false
  | .unmodified index => v.deliver index id
  | .eof count =>
      if count ≠ v.rowCounter then { v with error := .rowCountMismatch } else v

/-- The records applied one after the other. -/
def View.applyAll (v : View) (records : List Record) : View := records.foldl View.apply v

@[simp] theorem View.applyAll_nil (v : View) : v.applyAll [] = v := rfl

@[simp] theorem View.applyAll_cons (v : View) (r : Record) (rs : List Record) :
    v.applyAll (r :: rs) = (v.apply r).applyAll rs := rfl

@[simp] theorem View.applyAll_append (v : View) (rs rs' : List Record) :
    v.applyAll (rs ++ rs') = (v.applyAll rs).applyAll rs' := by
  simp [View.applyAll]

/-- What a channel knows before its first record. -/
def View.init : View where
  sensors := []
  clock := TS_NULL
  ts := none
  rowCounter := 0
  rows := []
  error := .none

/-! ### Which indices a list of records may use -/

/-- The number of sensors after a record. -/
def Record.names (n : Nat) : Record → Nat
  | .nameAssign _ => n + 1
  | _ => n

/-- A record refers to a sensor among the `n` known ones. -/
def Record.Valid (n : Nat) (r : Record) : Prop := ∀ i, r.index? = some i → i.toNat < n

/-- Every index refers to a name assigned earlier in the list or among the `n`
names already held. -/
def ValidFrom : (n : Nat) → List Record → Prop
  | _, [] => True
  | n, r :: rs => r.Valid n ∧ ValidFrom (r.names n) rs

instance Record.decidableValid (n : Nat) (r : Record) : Decidable (r.Valid n) :=
  match h : r.index? with
  | none => isTrue fun i hi => by simp [h] at hi
  | some i => decidable_of_iff (i.toNat < n) ⟨fun hi j hj => by simp_all, fun hv => hv i h⟩

instance decidableValidFrom : (n : Nat) → (rs : List Record) → Decidable (ValidFrom n rs)
  | _, [] => isTrue trivial
  | n, r :: rs =>
      haveI := decidableValidFrom (r.names n) rs
      inferInstanceAs (Decidable (r.Valid n ∧ ValidFrom (r.names n) rs))

@[simp] theorem validFrom_nil (n : Nat) : ValidFrom n [] := trivial

@[simp] theorem validFrom_cons (n : Nat) (r : Record) (rs : List Record) :
    ValidFrom n (r :: rs) ↔ r.Valid n ∧ ValidFrom (r.names n) rs := Iff.rfl

/-- The number of sensors after some records. -/
def namesAfter (n : Nat) (rs : List Record) : Nat := rs.foldl Record.names n

@[simp] theorem namesAfter_nil (n : Nat) : namesAfter n [] = n := rfl

@[simp] theorem namesAfter_cons (n : Nat) (r : Record) (rs : List Record) :
    namesAfter n (r :: rs) = namesAfter (r.names n) rs := rfl

theorem namesAfter_append (n : Nat) (rs rs' : List Record) :
    namesAfter n (rs ++ rs') = namesAfter (namesAfter n rs) rs' := by
  simp [namesAfter]

theorem validFrom_append (n : Nat) (rs rs' : List Record) :
    ValidFrom n (rs ++ rs') ↔ ValidFrom n rs ∧ ValidFrom (namesAfter n rs) rs' := by
  induction rs generalizing n with
  | nil => simp
  | cons r rs ih => simp [ih, and_assoc]

/-- A list of records may be read by who knows more names. -/
theorem ValidFrom.mono {m n : Nat} (hmn : m ≤ n) {rs : List Record} (h : ValidFrom m rs) :
    ValidFrom n rs := by
  induction rs generalizing m n with
  | nil => trivial
  | cons r rs ih =>
    refine ⟨fun i hi => lt_of_lt_of_le (h.1 i hi) hmn, ih ?_ h.2⟩
    cases r <;> simp only [Record.names] <;> omega

/-- Lists that can be read from the start can be read one after the other. -/
theorem ValidFrom.append_zero {rs rs' : List Record} (h : ValidFrom 0 rs) (h' : ValidFrom 0 rs') :
    ValidFrom 0 (rs ++ rs') :=
  (validFrom_append 0 rs rs').mpr ⟨h, h'.mono (Nat.zero_le _)⟩

theorem map_set_of_eq {α β : Type*} {f : α → β} {as : List α} {i : Nat} {a b : α}
    (h : as[i]? = some a) (hf : f b = f a) : (as.set i b).map f = as.map f := by
  obtain ⟨hi, hget⟩ := List.getElem?_eq_some_iff.mp h
  apply List.ext_getElem?
  intro j
  rw [List.map_set, List.getElem?_set]
  split
  · rename_i hij
    subst hij
    simp [hi, hget, hf]
  · rfl

/-! ### Names -/

/-- The name a record assigns. -/
def Record.assigned? : Record → Option (List UInt8)
  | .nameAssign a => some a.name.bytes
  | _ => none

theorem View.deliver_names (v : View) (i : UInt32) (f : Oval → Oval) :
    (v.deliver i f).sensors.map Sensor.name = v.sensors.map Sensor.name := by
  unfold View.deliver
  split
  · rfl
  · rename_i sensor hsensor
    exact map_set_of_eq hsensor rfl

/-- Names are stored in the order of their assignment, and stay. -/
theorem View.applyAll_names (v : View) (rs : List Record) :
    (v.applyAll rs).sensors.map Sensor.name =
      v.sensors.map Sensor.name ++ rs.filterMap Record.assigned? := by
  induction rs generalizing v with
  | nil => simp
  | cons r rs ih =>
    rw [View.applyAll_cons, ih]
    cases r with
    | nameAssign a => simp [View.apply, Record.assigned?]
    | setTimestamp tick | shiftTimestamp shift => rfl
    | eof count =>
      simp only [View.apply]
      split <;> rfl
    | smallInt value index | intPos index value | intNeg index value | double index value
    | string index s | null index | true index | false index | unmodified index =>
      simp only [View.apply, View.deliver_names]
      rfl

@[simp] theorem View.deliver_sensors_length (v : View) (i : UInt32) (f : Oval → Oval) :
    (v.deliver i f).sensors.length = v.sensors.length := by
  unfold View.deliver
  split <;> simp

@[simp] theorem View.apply_sensors_length (v : View) (r : Record) :
    (v.apply r).sensors.length = r.names v.sensors.length := by
  cases r <;> simp only [View.apply, Record.names, View.deliver_sensors_length, List.length_append,
    List.length_singleton]
  split <;> rfl

theorem View.applyAll_sensors_length (v : View) (rs : List Record) :
    (v.applyAll rs).sensors.length = namesAfter v.sensors.length rs := by
  induction rs generalizing v with
  | nil => rfl
  | cons r rs ih => rw [applyAll_cons, ih, apply_sensors_length, namesAfter_cons]

/-- The names of rows: a row has the name that was assigned at its index. -/
theorem View.apply_rowNames {v : View} {r : Record} (hvalid : r.Valid v.sensors.length) :
    (v.apply r).rows.map Row.name = v.rows.map Row.name ++
      r.index?.toList.map fun i => (v.sensors.map Sensor.name).getD i.toNat [] := by
  have hdeliver : ∀ (index : UInt32) (f : Oval → Oval), index.toNat < v.sensors.length →
      (v.deliver index f).rows.map Row.name =
        v.rows.map Row.name ++ [(v.sensors.map Sensor.name).getD index.toNat []] := by
    intro index f hindex
    simp [View.deliver, List.getElem?_eq_getElem hindex]
  cases r with
  | setTimestamp tick | shiftTimestamp shift | nameAssign a => exact (List.append_nil _).symm
  | eof count =>
    simp only [View.apply]
    split <;> exact (List.append_nil _).symm
  | smallInt value index | intPos index value | intNeg index value | double index value
  | string index s | null index | true index | false index | unmodified index =>
    exact hdeliver index _ (hvalid index rfl)

theorem View.applyAll_rowNames (rs : List Record) {v : View}
    (hvalid : ValidFrom v.sensors.length rs) :
    (v.applyAll rs).rows.map Row.name = v.rows.map Row.name ++
      (rs.filterMap Record.index?).map fun i =>
        ((v.applyAll rs).sensors.map Sensor.name).getD i.toNat [] := by
  induction rs generalizing v with
  | nil => simp
  | cons r rs ih =>
    obtain ⟨hr, hlater⟩ := hvalid
    rw [← View.apply_sensors_length] at hlater
    rw [View.applyAll_cons, ih hlater, View.apply_rowNames hr, List.append_assoc]
    congr 1
    cases hindex : r.index? with
    | none => simp [hindex]
    | some i =>
      rw [List.filterMap_cons_some hindex, List.map_cons, Option.toList_some, List.map_singleton,
        List.singleton_append]
      congr 1
      -- the names that were there keep their positions
      have hi : i.toNat < (v.sensors.map Sensor.name).length := by
        rw [List.length_map]
        exact hr i hindex
      have hnames := View.applyAll_names v (r :: rs)
      rw [View.applyAll_cons] at hnames
      rw [hnames, List.getD_eq_getElem?_getD, List.getD_eq_getElem?_getD,
        List.getElem?_append_left hi]

theorem View.rows_isPrefix_apply (v : View) (r : Record) : v.rows <+: (v.apply r).rows := by
  have hdeliver : ∀ index f, v.rows <+: (v.deliver index f).rows := by
    intro index f
    unfold View.deliver
    split
    · exact List.prefix_rfl
    · exact List.prefix_append _ _
  cases r with
  | setTimestamp tick | shiftTimestamp shift | nameAssign a => exact List.prefix_rfl
  | eof count =>
    simp only [View.apply]
    split <;> exact List.prefix_rfl
  | smallInt value index | intPos index value | intNeg index value | double index value
  | string index s | null index | true index | false index | unmodified index =>
    exact hdeliver _ _

theorem View.rows_isPrefix_applyAll (v : View) (rs : List Record) :
    v.rows <+: (v.applyAll rs).rows := by
  induction rs generalizing v with
  | nil => exact List.prefix_rfl
  | cons r rs ih => exact (rows_isPrefix_apply v r).trans (ih _)

/-! ### Telling records apart -/

/-- The tag of a record; a small integer is its own. -/
def Record.type? : Record → Option OticType
  | .smallInt _ _ => none
  | .setTimestamp _ => some .setTimestamp
  | .shiftTimestamp _ => some .shiftTimestamp
  | .nameAssign _ => some .nameAssign
  | .intPos _ _ => some .intPos
  | .intNeg _ _ => some .intNeg
  | .double _ _ => some .double
  | .string _ _ => some .string
  | .null _ => some .null
  | .true _ => some .true
  | .false _ => some .false
  | .unmodified _ => some .unmodified
  | .eof _ => some .eof

/-- How many records have a tag. -/
def countOf (type : OticType) (rs : List Record) : Nat := rs.countP fun r => r.type? = some type

@[simp] theorem countOf_append (type : OticType) (rs rs' : List Record) :
    countOf type (rs ++ rs') = countOf type rs + countOf type rs' := List.countP_append

theorem Record.type?_eq (r : Record) : r.type? = r.encode.head?.bind OticType.ofByte? := by
  cases r with
  | smallInt v i =>
    cases htype : OticType.ofByte? v.val with
    | none => exact htype.symm
    | some type =>
      have hlt := v.property
      rw [← OticType.toByte_of_ofByte? htype] at hlt
      exact absurd hlt type.not_toByte_lt
  | setTimestamp | shiftTimestamp | nameAssign | intPos | intNeg | double | string | null
  | true | false | unmodified | eof => exact (OticType.ofByte?_toByte _).symm

theorem index_append_inj {i i' : UInt32} {rest rest' : List UInt8}
    (h : leb128EncodeUnsigned i.toUInt64 ++ rest = leb128EncodeUnsigned i'.toUInt64 ++ rest') :
    i = i' ∧ rest = rest' := by
  obtain ⟨hindex, hrest⟩ := leb128EncodeUnsigned_append_inj h
  exact ⟨UInt32.toUInt64_inj.mp hindex, hrest⟩

/-- The name of a name record ends at its zero, and the record where its length says. -/
theorem Assignment.encode_append_inj {a a' : Assignment} {rest rest' : List UInt8}
    (hsize : UInt8.ofNat (a.name.size + a.unit.length + 1) =
      UInt8.ofNat (a'.name.size + a'.unit.length + 1))
    (h : a.name.bytes ++ 0 :: (a.unit ++ rest) = a'.name.bytes ++ 0 :: (a'.unit ++ rest')) :
    a = a' ∧ rest = rest' := by
  obtain ⟨name, unit, hfits⟩ := a
  obtain ⟨name', unit', hfits'⟩ := a'
  dsimp only at h hsize hfits hfits'
  have hmax : UINT8_MAX = 255 := rfl
  have hlength : name.size + unit.length + 1 = name'.size + unit'.length + 1 := by
    have hnat := congrArg UInt8.toNat hsize
    rwa [Varint.toNat_ofNat_of_lt (by omega), Varint.toNat_ofNat_of_lt (by omega)] at hnat
  have hname := congrArg Bytes.untilZero h
  rw [Bytes.untilZero_append_zero name.nulFree, Bytes.untilZero_append_zero name'.nulFree] at hname
  obtain rfl := CStr.ext_bytes hname
  have hbody := (List.cons.inj (List.append_cancel_left h)).2
  obtain ⟨rfl, hrest⟩ := List.append_inj hbody (by omega)
  exact ⟨rfl, hrest⟩

/-- **No record begins with another**: what follows a record does not change which it is. -/
theorem Record.encode_append_inj {r r' : Record} {rest rest' : List UInt8}
    (h : r.encode ++ rest = r'.encode ++ rest') : r = r' ∧ rest = rest' := by
  have htype : r.type? = r'.type? := by
    have hhead := congrArg List.head? h
    rw [List.head?_append_of_ne_nil _ (List.ne_nil_of_length_pos r.length_encode_pos),
      List.head?_append_of_ne_nil _ (List.ne_nil_of_length_pos r'.length_encode_pos)] at hhead
    rw [r.type?_eq, r'.type?_eq, hhead]
  -- only records of one tag are left to compare
  cases r <;> cases r' <;> first | (cases htype; done) | skip
  all_goals
    simp only [Record.encode, List.cons_append, List.append_assoc, List.cons.injEq, true_and] at h
  case setTimestamp | shiftTimestamp | eof =>
    obtain ⟨rfl, hrest⟩ := leb128EncodeUnsigned_append_inj h
    exact ⟨rfl, hrest⟩
  case null | true | false | unmodified =>
    obtain ⟨rfl, hrest⟩ := index_append_inj h
    exact ⟨rfl, hrest⟩
  case smallInt v i v' i' =>
    obtain ⟨hv, hindex⟩ := h
    obtain ⟨rfl, hrest⟩ := index_append_inj hindex
    obtain rfl := Subtype.ext hv
    exact ⟨rfl, hrest⟩
  case intPos | intNeg =>
    obtain ⟨rfl, hvalue⟩ := index_append_inj h
    obtain ⟨rfl, hrest⟩ := leb128EncodeUnsigned_append_inj hvalue
    exact ⟨rfl, hrest⟩
  case double i v i' v' =>
    obtain ⟨rfl, hvalue⟩ := index_append_inj h
    obtain ⟨hbits, hrest⟩ := List.append_inj hvalue (by simp)
    have hsame := congrArg Bytes.toUInt64 hbits
    rw [Bytes.toUInt64_ofUInt64, Bytes.toUInt64_ofUInt64] at hsame
    exact ⟨congrArg (Record.double i) hsame, hrest⟩
  case string i s i' s' =>
    obtain ⟨bytes, hsized⟩ := s
    obtain ⟨bytes', hsized'⟩ := s'
    obtain ⟨rfl, hvalue⟩ := index_append_inj h
    obtain ⟨hlength, htext⟩ := leb128EncodeUnsigned_append_inj hvalue
    have hsame := congrArg UInt64.toNat hlength
    rw [UInt64.toNat_ofNat_of_lt' hsized, UInt64.toNat_ofNat_of_lt' hsized'] at hsame
    obtain ⟨rfl, hrest⟩ := List.append_inj htext hsame
    exact ⟨rfl, hrest⟩
  case nameAssign a a' =>
    obtain ⟨rfl, hrest⟩ := Assignment.encode_append_inj h.1 h.2
    exact ⟨rfl, hrest⟩

/-- Bytes are made of records in one way. -/
theorem encodeAll_injective : Function.Injective encodeAll := by
  intro rs
  induction rs with
  | nil =>
    intro rs' h
    cases rs' with
    | nil => rfl
    | cons r' rs' =>
      have hlength := congrArg List.length h
      have hpos := r'.length_encode_pos
      simp only [encodeAll_nil, encodeAll_cons, List.length_nil, List.length_append] at hlength
      omega
  | cons r rs ih =>
    intro rs' h
    cases rs' with
    | nil =>
      have hlength := congrArg List.length h
      have hpos := r.length_encode_pos
      simp only [encodeAll_nil, encodeAll_cons, List.length_nil, List.length_append] at hlength
      omega
    | cons r' rs' =>
      rw [encodeAll_cons, encodeAll_cons] at h
      obtain ⟨rfl, hrest⟩ := Record.encode_append_inj h
      rw [ih hrest]

end Otic
