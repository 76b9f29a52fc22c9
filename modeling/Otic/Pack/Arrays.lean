import Otic.Stored
import Otic.Pack.LastValue

/-!
# The cached array

`lastValue` is a union of two words: the first is a number, the address of a string or,
in its lower half, the size of an array, the second is the size of a string or the
address of an array's elements.  No inject ever stores elements, so that address is
whatever the second word held before.  A `Cell` is such a union, and its operations fail
where a C execution would follow or free that address.  `arrays_sound` says under which
calls none does.
-/

namespace Otic.Pack

variable {zstd : Zstd} {h : Handle}

/-! ### The union -/

/-- The first word: `lval`, `dval` and, in its lower half, `aval.size`, or `sval.ptr`,
with the block at the address. -/
inductive Word where
  | bits (number : UInt64)
  | block (bytes : List UInt8)

/-- The number in the word; that of an address is not read. -/
def Word.number : Word → UInt64
  | .bits number => number
  | .block _ => 0

/-- `lastValue`, where `second` is `sval.size` or `aval.elements`. -/
structure Cell where
  type : OticType
  first : Word
  second : UInt64

/-- An address is read or freed that is not one of a block of the entry. -/
inductive Wild where
  | read
  | free

namespace Cell

/-- `aval.size`. -/
def size (cell : Cell) : Nat := cell.first.number.toUInt32.toNat

/-- `aval.size` is stored, in the lower half of the word. -/
def setSize (cell : Cell) (size : UInt32) : Cell :=
  { cell with first := .bits (cell.first.number &&& 0xFFFFFFFF00000000 ||| size.toUInt64) }

/-- `otic_pack_entry_insert_routine` clears the two words before a value is entered. -/
def entered (c : AnyCall) : Cell :=
  match c.value with
  | .scalar (.bool value) => ⟨if value then .true else .false, .bits 0, 0⟩
  | .scalar (.intNeg value) => ⟨.intNeg, .bits value.toUInt32.toUInt64, 0⟩
  | .scalar (.intPos value) => ⟨.intPos, .bits value.toUInt32.toUInt64, 0⟩
  | .scalar (.double value) => ⟨.double, .bits value, 0⟩
  | .scalar (.string value) => ⟨.string, .block value.bytes, UInt64.ofNat value.size⟩
  | .scalar .null => ⟨.null, .bits 0, 0⟩
  | .buffer _ => ⟨.rawbuffer, .bits 0, 0⟩
  | .array _ => ⟨.array, .bits 0, 0⟩

/-- `otic_pack_releaser`. -/
def release (cell : Cell) : Except Wild Cell :=
  match cell.type with
  | .string => .ok { cell with first := .bits 0 }
  | .array | .object => if cell.second = 0 then .ok cell else .error .free
  | _ => .ok cell

/-- `oval_array_cmp`: of arrays of one size the elements are read, unless there are none. -/
def arrayCmp (cell : Cell) (aval : OvalArray) : Except Wild Bool :=
  if cell.size ≠ aval.size then .ok false
  else if aval.size = 0 then .ok true
  else .error .read

/-- The condition under which `inject_array` writes an unmodified record. -/
def findsArray (cell : Cell) (aval : OvalArray) : Except Wild Bool :=
  if cell.type = .array then cell.arrayCmp aval else .ok false

/-- The last value is released, and another stored. -/
def replace (cell : Cell) (store : Cell → Cell) : Except Wild (Bool × Cell) := do
  let cell ← cell.release
  .ok (false, store cell)

/-- What an inject does to the last value of a known sensor, and whether it finds it
unmodified. -/
def update (cell : Cell) (c : AnyCall) : Except Wild (Bool × Cell) :=
  match c.value with
  | .scalar (.bool value) =>
      let type := if value then .true else .false
      if cell.type = type then .ok (true, cell)
      else cell.replace fun cell => { cell with type := type }
  | .scalar (.intNeg value) =>
      if cell.type = .intNeg ∧ cell.first.number = value then .ok (true, cell)
      else cell.replace fun cell => { cell with type := .intNeg, first := .bits value }
  | .scalar (.intPos value) =>
      if cell.type = .intPos ∧ cell.first.number = value then .ok (true, cell)
      -- a small integer replaces the last value without releasing it
      else if value < SMALL_INT_LIMIT.toUInt64 then
        .ok (false, { cell with type := .intPos, first := .bits value })
      else cell.replace fun cell => { cell with type := .intPos, first := .bits value }
  | .scalar (.double value) =>
      if cell.type = .double ∧ doubleEq cell.first.number value = true then .ok (true, cell)
      else cell.replace fun cell => { cell with type := .double, first := .bits value }
  | .scalar (.string value) =>
      let same := match cell.type, cell.first with
        | .string, .block bytes => decide (Bytes.untilZero (bytes ++ c.heap) = value.bytes)
        | _, _ => false
      if same then .ok (true, cell)
      else cell.replace fun _ =>
        ⟨.string, .block (value.bytes ++ [0]), UInt64.ofNat value.size⟩
  | .scalar .null =>
      if cell.type = .null then .ok (true, cell)
      else cell.replace fun cell => { cell with type := .null }
  | .buffer _ => cell.replace fun cell => { cell with type := .rawbuffer }
  | .array aval => do
      let same ← cell.findsArray aval
      if same then .ok (true, cell)
      else cell.replace fun cell =>
        { cell with type := .array }.setSize (UInt32.ofNat aval.size)

/-- The last value of a sensor after its first call and some later ones. -/
def run (first : AnyCall) (later : List AnyCall) : Except Wild Cell :=
  later.foldlM (fun cell c => (cell.update c).map Prod.snd) (entered first)

/-- The union is that of a last value. -/
def Shows (cell : Cell) : Oval → Prop
  | .null => cell.type = .null
  | .true => cell.type = .true
  | .false => cell.type = .false
  | .rawbuffer => cell.type = .rawbuffer
  | .intNeg lval => cell.type = .intNeg ∧ cell.first = .bits lval
  | .intPos lval => cell.type = .intPos ∧ cell.first = .bits lval
  | .double dval => cell.type = .double ∧ cell.first = .bits dval
  | .string bytes size =>
      cell.type = .string ∧ cell.first = .block bytes ∧ cell.second = UInt64.ofNat size
  | .array elements => cell.type = .array ∧ cell.size = elements.length
  | .float _ _ | .eof => False

/-- The elements of an array are null; a block of the entry they never are. -/
def Owns (cell : Cell) : Prop := cell.type = .array → cell.second = 0

theorem size_setSize (cell : Cell) (size : UInt32) : (cell.setSize size).size = size.toNat := by
  have hlower : (cell.first.number &&& 0xFFFFFFFF00000000 ||| size.toUInt64).toUInt32 = size := by
    have hmask : (0xFFFFFFFF00000000 : UInt64).toUInt32 = 0 := by decide
    rw [UInt64.toUInt32_or, UInt64.toUInt32_and, hmask]
    simp
  unfold setSize Cell.size Word.number
  dsimp only
  exact congrArg UInt32.toNat hlower

theorem shows_entered (c : AnyCall) : (entered c).Shows c.entered := by
  unfold entered AnyCall.entered
  cases c.value with
  | scalar value =>
    cases value with
    | bool value => cases value <;> exact rfl
    | intNeg | intPos | double => exact ⟨rfl, rfl⟩
    | string => exact ⟨rfl, rfl, rfl⟩
    | null => exact rfl
  | buffer => exact rfl
  | array =>
    refine ⟨rfl, ?_⟩
    change (0 : UInt64).toUInt32.toNat = 0
    rfl

theorem owns_entered (c : AnyCall) : (entered c).Owns := by
  unfold entered Owns
  cases c.value with
  | scalar value =>
    cases value with
    | bool value => cases value <;> exact fun _ => rfl
    | string => intro htype; cases htype
    | intNeg | intPos | double | null => exact fun _ => rfl
  | buffer | array => exact fun _ => rfl

/-! ### One call -/

section Update

variable {cell : Cell} {lastValue : Oval} (hshows : cell.Shows lastValue)

include hshows

theorem type_of_shows : cell.type = lastValue.type := by
  cases lastValue with
  | intNeg | intPos | double | string | array => exact hshows.1
  | null | true | false | rawbuffer => exact hshows
  | float | eof => exact hshows.elim

theorem same_intNeg (value : UInt64) :
    (cell.type = .intNeg ∧ cell.first.number = value) ↔
      (Channel.iNegInjection value).same lastValue = true := by
  have htype := type_of_shows hshows
  cases lastValue with
  | intNeg lval =>
    have hnumber : cell.first.number = lval := by
      rw [hshows.2]
      rfl
    simp [Channel.iNegInjection, htype, hnumber, Oval.type]
  | null | intPos | float | double | string | array | true | false | rawbuffer | eof =>
    simp [Channel.iNegInjection, htype, Oval.type]

theorem same_intPos (value : UInt64) :
    (cell.type = .intPos ∧ cell.first.number = value) ↔
      (Channel.iInjection value).same lastValue = true := by
  have htype := type_of_shows hshows
  cases lastValue with
  | intPos lval =>
    have hnumber : cell.first.number = lval := by
      rw [hshows.2]
      rfl
    simp [Channel.iInjection, htype, hnumber, Oval.type]
  | null | intNeg | float | double | string | array | true | false | rawbuffer | eof =>
    simp [Channel.iInjection, htype, Oval.type]

theorem same_double (value : UInt64) :
    (cell.type = .double ∧ doubleEq cell.first.number value = true) ↔
      (Channel.dInjection value).same lastValue = true := by
  have htype := type_of_shows hshows
  cases lastValue with
  | double dval =>
    have hnumber : cell.first.number = dval := by
      rw [hshows.2]
      rfl
    simp [Channel.dInjection, htype, hnumber, Oval.type]
  | null | intNeg | intPos | float | string | array | true | false | rawbuffer | eof =>
    simp [Channel.dInjection, htype, Oval.type]

theorem same_string (value : CStr) (heap : List UInt8) :
    (match cell.type, cell.first with
      | .string, .block bytes => decide (Bytes.untilZero (bytes ++ heap) = value.bytes)
      | _, _ => false) = (Channel.sInjection value heap).same lastValue := by
  have htype := type_of_shows hshows
  cases lastValue with
  | string bytes size =>
    rw [htype, hshows.2.1]
    rfl
  | null | intNeg | intPos | float | double | array | true | false | rawbuffer | eof =>
    rw [htype]
    rfl

/-- Nothing is freed but a string and null. -/
theorem replace_ok (howns : cell.Owns) (store : Cell → Cell) :
    ∃ first, cell.replace store = .ok (false, store { cell with first := first }) := by
  obtain ⟨type, first, second⟩ := cell
  obtain rfl : type = lastValue.type := type_of_shows hshows
  unfold replace release
  cases lastValue with
  | string => exact ⟨.bits 0, rfl⟩
  | array =>
    have hnull : second = 0 := howns rfl
    subst hnull
    exact ⟨first, rfl⟩
  | null | intNeg | intPos | double | true | false | rawbuffer => exact ⟨first, rfl⟩
  | float | eof => exact hshows.elim

/-- The arrays are compared by their sizes alone, if both are empty or they differ. -/
theorem same_array {c : AnyCall} {aval : OvalArray} (hvalue : c.value = .array aval)
    (hempty : cell.type = .array → cell.size = aval.size → aval.size = 0) :
    cell.findsArray aval = .ok (c.injection.same lastValue) := by
  have htype := type_of_shows hshows
  have hinjection : c.injection = Channel.arrayInjection aval c.equal c.stale := by
    simp only [AnyCall.injection, hvalue]
  rw [hinjection]
  unfold findsArray
  cases lastValue with
  | array elements =>
    have harray : cell.type = .array := htype
    rw [if_pos harray]
    have hsize : cell.size = elements.length := hshows.2
    unfold arrayCmp
    change _ = Except.ok (elements.length == aval.size && (aval.size == 0 || c.equal))
    by_cases hsame : cell.size = aval.size
    · have hzero := hempty htype hsame
      rw [if_neg (not_not_intro hsame), if_pos hzero]
      simp [← hsize, hsame, hzero]
    · rw [if_pos hsame]
      have hdiffer : elements.length ≠ aval.size := by rwa [← hsize]
      simp [hdiffer]
  | null | intNeg | intPos | float | double | string | true | false | rawbuffer | eof =>
    rw [if_neg (by rw [htype]; intro heq; cases heq)]
    rfl

theorem update_keeps (howns : cell.Owns) {c : AnyCall} (hsame : c.injection.same lastValue = true)
    (hupdate : cell.update c = .ok (true, cell)) :
    ∃ cell', cell.update c = .ok (c.injection.same lastValue, cell') ∧
      cell'.Shows (if c.injection.same lastValue then lastValue else c.injection.changed) ∧
      cell'.Owns := by
  rw [if_pos hsame, hsame]
  exact ⟨cell, hupdate, hshows, howns⟩

omit hshows in
theorem update_stores {c : AnyCall} {cell' : Cell} (hsame : c.injection.same lastValue ≠ true)
    (hupdate : cell.update c = .ok (false, cell')) (hshows' : cell'.Shows c.injection.changed)
    (howns' : cell'.Owns) :
    ∃ cell', cell.update c = .ok (c.injection.same lastValue, cell') ∧
      cell'.Shows (if c.injection.same lastValue then lastValue else c.injection.changed) ∧
      cell'.Owns := by
  rw [if_neg hsame, Bool.eq_false_iff.mpr hsame]
  exact ⟨cell', hupdate, hshows', howns'⟩

/-- Most injects find the last value unmodified, or replace it. -/
theorem update_replaces (howns : cell.Owns) {c : AnyCall} {found : Prop} [Decidable found]
    (hsame : found ↔ c.injection.same lastValue = true) {store : Cell → Cell}
    (hupdate : cell.update c = if found then .ok (true, cell) else cell.replace store)
    (hstored : ∀ first, (store { cell with first := first }).Shows c.injection.changed ∧
      (store { cell with first := first }).Owns) :
    ∃ cell', cell.update c = .ok (c.injection.same lastValue, cell') ∧
      cell'.Shows (if c.injection.same lastValue then lastValue else c.injection.changed) ∧
      cell'.Owns := by
  by_cases hunmodified : found
  · rw [if_pos hunmodified] at hupdate
    exact update_keeps hshows howns (hsame.mp hunmodified) hupdate
  · obtain ⟨first, hreplace⟩ := replace_ok hshows howns store
    obtain ⟨hshows', howns'⟩ := hstored first
    rw [if_neg hunmodified] at hupdate
    exact update_stores (mt hsame.mpr hunmodified) (hupdate.trans hreplace) hshows' howns'

/-- **One call** follows the last value, and leaves null for the elements of an array. -/
theorem update_shows (howns : cell.Owns) {c : AnyCall}
    (hheeded : ∀ aval, c.value = .array aval →
      cell.second = 0 ∧ (cell.type = .array → cell.size = aval.size → aval.size = 0)) :
    ∃ cell', cell.update c = .ok (c.injection.same lastValue, cell') ∧
      cell'.Shows (if c.injection.same lastValue then lastValue else c.injection.changed) ∧
      cell'.Owns := by
  have htype := type_of_shows hshows
  have hplain : ∀ type first second, type ≠ OticType.array → Owns ⟨type, first, second⟩ :=
    fun _ _ _ hne heq => absurd heq hne
  cases hvalue : c.value with
  | scalar value =>
    cases value with
    | bool value =>
      have hinjection : c.injection = Channel.boolInjection value := by
        simp only [AnyCall.injection, hvalue, AnyCall.scalar, Call.injection]
      have hsame : cell.type = (if value then .true else .false) ↔
          c.injection.same lastValue = true := by
        rw [hinjection, htype]
        exact decide_eq_true_iff.symm
      refine update_replaces hshows howns hsame (by simp only [update, hvalue]; rfl) fun first => ?_
      rw [hinjection]
      cases value <;> exact ⟨rfl, hplain _ _ _ (by decide)⟩
    | intNeg value =>
      have hinjection : c.injection = Channel.iNegInjection value := by
        simp only [AnyCall.injection, hvalue, AnyCall.scalar, Call.injection]
      have hsame := same_intNeg hshows value
      rw [← hinjection] at hsame
      refine update_replaces hshows howns hsame (by simp only [update, hvalue]; rfl) fun first => ?_
      rw [hinjection]
      exact ⟨⟨rfl, rfl⟩, hplain _ _ _ (by decide)⟩
    | intPos value =>
      have hinjection : c.injection = Channel.iInjection value := by
        simp only [AnyCall.injection, hvalue, AnyCall.scalar, Call.injection]
      have hsame := same_intPos hshows value
      rw [← hinjection] at hsame
      have hchanged : ∀ second, Shows ⟨.intPos, .bits value, second⟩ c.injection.changed := by
        intro second
        rw [hinjection]
        exact ⟨rfl, rfl⟩
      by_cases hsmall : value < SMALL_INT_LIMIT.toUInt64
      · by_cases hunmodified : cell.type = .intPos ∧ cell.first.number = value
        · exact update_keeps hshows howns (hsame.mp hunmodified)
            (by simp only [update, hvalue, if_pos hunmodified])
        · have hupdate : cell.update c = .ok (false, ⟨.intPos, .bits value, cell.second⟩) := by
            simp only [update, hvalue, if_neg hunmodified, if_pos hsmall]
          exact update_stores (mt hsame.mpr hunmodified) hupdate (hchanged _)
            (hplain _ _ _ (by decide))
      · exact update_replaces hshows howns hsame
          (by simp only [update, hvalue, if_neg hsmall]; rfl)
          fun first => ⟨hchanged _, hplain .intPos _ _ (by decide)⟩
    | double value =>
      have hinjection : c.injection = Channel.dInjection value := by
        simp only [AnyCall.injection, hvalue, AnyCall.scalar, Call.injection]
      have hsame := same_double hshows value
      rw [← hinjection] at hsame
      refine update_replaces hshows howns hsame (by simp only [update, hvalue]; rfl) fun first => ?_
      rw [hinjection]
      exact ⟨⟨rfl, rfl⟩, hplain _ _ _ (by decide)⟩
    | string value =>
      have hinjection : c.injection = Channel.sInjection value c.heap := by
        simp only [AnyCall.injection, hvalue, AnyCall.scalar, Call.injection]
      have hsame := same_string hshows value c.heap
      rw [← hinjection] at hsame
      refine update_replaces hshows howns Iff.rfl (by simp only [update, hvalue, hsame]; rfl)
        fun first => ?_
      rw [hinjection]
      exact ⟨⟨rfl, rfl, rfl⟩, hplain _ _ _ (by decide)⟩
    | null =>
      have hinjection : c.injection = Channel.nInjection := by
        simp only [AnyCall.injection, hvalue, AnyCall.scalar, Call.injection]
      have hsame : cell.type = .null ↔ c.injection.same lastValue = true := by
        rw [hinjection, htype]
        exact decide_eq_true_iff.symm
      refine update_replaces hshows howns hsame (by simp only [update, hvalue]; rfl) fun first => ?_
      rw [hinjection]
      exact ⟨rfl, hplain _ _ _ (by decide)⟩
  | buffer bytes =>
    have hinjection : c.injection = Channel.bInjection bytes := by
      simp only [AnyCall.injection, hvalue]
    obtain ⟨first, hreplace⟩ := replace_ok hshows howns
      fun cell => { cell with type := .rawbuffer }
    refine update_stores (by rw [hinjection]; exact Bool.false_ne_true)
      (by simp only [update, hvalue]; exact hreplace) ?_ (hplain _ _ _ (by decide))
    rw [hinjection]
    exact rfl
  | array aval =>
    obtain ⟨hnull, hempty⟩ := hheeded aval hvalue
    have hinjection : c.injection = Channel.arrayInjection aval c.equal c.stale := by
      simp only [AnyCall.injection, hvalue]
    have hsame := same_array hshows hvalue hempty
    have hsize : (UInt32.ofNat aval.size).toNat = aval.size := by
      obtain ⟨elements, hsized⟩ := aval
      rw [Element.Sized] at hsized
      exact UInt32.toNat_ofNat_of_lt' hsized.1
    refine update_replaces hshows howns Iff.rfl (by simp only [update, hvalue, hsame]; rfl)
      fun first => ⟨?_, fun _ => hnull⟩
    rw [hinjection]
    refine ⟨rfl, ?_⟩
    rw [size_setSize, hsize, List.length_replicate]

end Update

theorem run_concat (first : AnyCall) (later : List AnyCall) (c : AnyCall) :
    run first (later ++ [c]) = (do
      let cell ← run first later
      (cell.update c).map Prod.snd) := by
  unfold run
  rw [List.foldlM_append]
  simp

end Cell

/-! ### Runs -/

/-- The array of a call. -/
def AnyCall.arrayValue (c : AnyCall) : Option OvalArray :=
  match c.value with
  | .array aval => some aval
  | _ => none

/-- The array most recently injected under a name. -/
def lastArray (calls : List AnyCall) (sensorName : CStr) : Option OvalArray :=
  ((callsFor calls sensorName).filterMap AnyCall.arrayValue).getLast?

/-- An array for a known sensor finds null for the elements, and if it finds an array of
its size, then both this array and the last one are empty. -/
def ArrayHeeded (before : List AnyCall) (c : AnyCall) : Prop :=
  ∀ aval first later cell, c.value = .array aval → callsFor before c.sensorName = first :: later →
    Cell.run first later = .ok cell →
      cell.second = 0 ∧ (cell.type = .array → cell.size = aval.size →
        aval.size = 0 ∧ ∀ last, lastArray before c.sensorName = some last → last.size = 0)

/-- **The union of a sensor** after any calls that are heeded: no address was followed or
freed, and an array has null for its elements. -/
theorem cell_held {calls : List AnyCall} (hheeded : Throughout ArrayHeeded calls) :
    ∀ {sensorName : CStr} {first : AnyCall} {later : List AnyCall},
      callsFor calls sensorName = first :: later →
        ∃ cell, Cell.run first later = .ok cell ∧ cell.Shows (held first later) ∧ cell.Owns := by
  induction calls using List.reverseRecOn with
  | nil =>
    intro sensorName first later hcalls
    cases hcalls
  | append_singleton calls c ih =>
    obtain ⟨hbefore, hlast⟩ := hheeded.init
    intro sensorName first later hcalls
    rw [callsFor_concat] at hcalls
    split at hcalls
    · rename_i hname
      subst hname
      cases hold : callsFor calls c.sensorName with
      | nil =>
        rw [hold, List.nil_append] at hcalls
        cases hcalls
        exact ⟨Cell.entered c, rfl, Cell.shows_entered c, Cell.owns_entered c⟩
      | cons first' later' =>
        rw [hold, List.cons_append] at hcalls
        cases hcalls
        obtain ⟨cell, hrun, hshows, howns⟩ := ih hbefore hold
        have hheed : ∀ aval, c.value = .array aval →
            cell.second = 0 ∧ (cell.type = .array → cell.size = aval.size → aval.size = 0) := by
          intro aval hvalue
          obtain ⟨hnull, hempty⟩ := hlast aval _ _ cell hvalue hold hrun
          exact ⟨hnull, fun htype hsize => (hempty htype hsize).1⟩
        obtain ⟨cell', hupdate, hshows', howns'⟩ := Cell.update_shows hshows howns hheed
        refine ⟨cell', ?_, ?_, howns'⟩
        · rw [Cell.run_concat, hrun]
          exact congrArg (Except.map Prod.snd) hupdate
        · rw [held_concat]
          exact hshows'
    · exact ih hbefore hcalls

theorem arrayValue_of_entered {c : AnyCall} {elements : List Oval}
    (hentered : c.entered = .array elements) : ∃ aval, c.arrayValue = some aval := by
  unfold AnyCall.entered at hentered
  unfold AnyCall.arrayValue
  cases hvalue : c.value with
  | array aval => exact ⟨aval, rfl⟩
  | buffer =>
    rw [hvalue] at hentered
    cases hentered
  | scalar value =>
    rw [hvalue] at hentered
    cases value with
    | bool value => cases value <;> cases hentered
    | intNeg | intPos | double | string | null => cases hentered

theorem arrayValue_of_changed {c : AnyCall} {elements : List Oval}
    (hchanged : c.injection.changed = .array elements) : ∃ aval, c.arrayValue = some aval := by
  unfold AnyCall.injection at hchanged
  unfold AnyCall.arrayValue
  cases hvalue : c.value with
  | array aval => exact ⟨aval, rfl⟩
  | buffer =>
    rw [hvalue] at hchanged
    cases hchanged
  | scalar value =>
    rw [hvalue] at hchanged
    cases value with
    | bool value => cases value <;> cases hchanged
    | intNeg | intPos | double | string | null => cases hchanged

theorem arrayValue_of_held (first : AnyCall) {later : List AnyCall} {elements : List Oval} :
    held first later = .array elements →
      ∃ c ∈ first :: later, ∃ aval, c.arrayValue = some aval := by
  induction later using List.reverseRecOn with
  | nil =>
    intro hheld
    exact ⟨first, List.mem_singleton.mpr rfl, arrayValue_of_entered hheld⟩
  | append_singleton later c ih =>
    intro hheld
    rw [held_concat] at hheld
    split at hheld
    · obtain ⟨d, hd, hvalue⟩ := ih hheld
      exact ⟨d, List.mem_append_left [c] hd, hvalue⟩
    · exact ⟨c, List.mem_append_right (first :: later) (List.mem_singleton.mpr rfl),
        arrayValue_of_changed hheld⟩

theorem lastArray_of_held {calls : List AnyCall} {sensorName : CStr} {first : AnyCall}
    {later : List AnyCall} {elements : List Oval}
    (hcalls : callsFor calls sensorName = first :: later)
    (hheld : held first later = .array elements) :
    ∃ aval, lastArray calls sensorName = some aval := by
  obtain ⟨c, hc, aval, hvalue⟩ := arrayValue_of_held first hheld
  have hmem : aval ∈ (callsFor calls sensorName).filterMap AnyCall.arrayValue := by
    rw [hcalls]
    exact List.mem_filterMap.mpr ⟨c, hc, hvalue⟩
  unfold lastArray
  cases hlast : ((callsFor calls sensorName).filterMap AnyCall.arrayValue).getLast? with
  | none =>
    rw [List.getLast?_eq_none_iff.mp hlast] at hmem
    cases hmem
  | some last => exact ⟨last, rfl⟩

/-- **Repeated arrays are detected soundly** in every state of a run whose calls are heeded:
the union of every sensor was updated without a wild access and has null for the
elements of an array, and an array that is found unmodified is the last one. -/
theorem arrays_sound {parent : Parent} {id channelType : UInt8} {bucketSize : UInt32}
    {calls : List AnyCall}
    (hr : Reached zstd ⟨parent, Channel.init id channelType bucketSize⟩ h calls)
    (hfew : (sensorNames calls).length ≤ 65536) (hheeded : Throughout ArrayHeeded calls) :
    (∀ sensorName entry, Channel.entryFind h.channel.cache sensorName = some entry →
      ∃ first later cell, callsFor calls sensorName = first :: later ∧
        Cell.run first later = .ok cell ∧ cell.Shows entry.lastValue ∧ cell.Owns) ∧
      ∀ c aval entry, ArrayHeeded calls c → c.value = .array aval →
        Channel.entryFind h.channel.cache c.sensorName = some entry →
          c.injection.same entry.lastValue = true →
            lastArray calls c.sensorName = some aval := by
  obtain ⟨slots, hslots⟩ := hr.holds hfew
  constructor
  · intro sensorName entry hentry
    obtain ⟨first, later, hcalls, -, hlast⟩ := hslots.entry hentry
    obtain ⟨cell, hrun, hshows, howns⟩ := cell_held hheeded hcalls
    rw [← hlast] at hshows
    exact ⟨first, later, cell, hcalls, hrun, hshows, howns⟩
  · intro c aval entry hheed hvalue hentry hsame
    obtain ⟨first, later, hcalls, -, hlast⟩ := hslots.entry hentry
    obtain ⟨cell, hrun, hshows, howns⟩ := cell_held hheeded hcalls
    obtain ⟨hnull, hempty⟩ := hheed aval first later cell hvalue hcalls hrun
    have hinjection : c.injection = Channel.arrayInjection aval c.equal c.stale := by
      simp only [AnyCall.injection, hvalue]
    rw [hinjection] at hsame
    rw [← hlast] at hshows
    cases hvalueHeld : entry.lastValue with
    | array elements =>
      rw [hvalueHeld] at hshows hsame hlast
      obtain ⟨last, hlastArray⟩ := lastArray_of_held hcalls hlast.symm
      have hsizes : elements.length = aval.size := by
        change (elements.length == aval.size && _) = true at hsame
        rw [Bool.and_eq_true, beq_iff_eq] at hsame
        exact hsame.1
      obtain ⟨hzero, hlastZero⟩ := hempty hshows.1 (hshows.2.trans hsizes)
      rw [hlastArray]
      -- both are the empty array
      have hnil := List.length_eq_zero_iff.mp hzero
      have hlastNil := List.length_eq_zero_iff.mp (hlastZero last hlastArray)
      exact congrArg some (Subtype.ext (hlastNil.trans hnil.symm))
    | null | intNeg | intPos | float | double | string | true | false | rawbuffer | eof =>
      rw [hvalueHeld] at hsame
      cases hsame

/-- A channel of a kilobyte, and two calls for one sensor: the array of an integer, and
the empty array. -/
def arrayChannel : Handle := ⟨⟨[], [], [], .none, .opened⟩, Channel.init 1 0 1024⟩

def oneElement : AnyCall :=
  ⟨⟨7, seven_lt_TS_NULL⟩, CStr.empty, none,
    .array ⟨[.intPos 500], by simp [Element.Sized, Element.AllSized]⟩, [], false, 0⟩

def noElement : AnyCall := { oneElement with value := .array OvalArray.empty }

def afterElement : Handle := (oneElement.inject Zstd.stored arrayChannel).2

theorem reached_afterElement : Reached Zstd.stored arrayChannel afterElement [oneElement] :=
  .accepted oneElement .start (by decide +kernel)

/-- The empty array twice, of which the second is heeded. -/
def afterEmpty : Handle :=
  (noElement.inject Zstd.stored (noElement.inject Zstd.stored arrayChannel).2).2

theorem reached_afterEmpty :
    Reached Zstd.stored arrayChannel afterEmpty [noElement, noElement] :=
  .accepted noElement (.accepted noElement .start (by decide +kernel)) (by decide +kernel)

theorem heeded_afterEmpty : Throughout ArrayHeeded [noElement, noElement] := by
  intro before c after hsplit aval first later cell hvalue hcalls hrun
  rcases before with _ | ⟨d, _ | ⟨e, before⟩⟩
  · cases hcalls
  · cases hsplit
    cases hvalue
    cases hcalls
    obtain rfl : Cell.entered noElement = cell := Except.ok.inj hrun
    refine ⟨rfl, fun _ _ => ⟨rfl, fun last hlast => ?_⟩⟩
    obtain rfl : OvalArray.empty = last := Option.some.inj hlast
    rfl
  · cases before <;> cases hsplit

theorem arrays_sound_afterEmpty :
    (∀ sensorName entry, Channel.entryFind afterEmpty.channel.cache sensorName = some entry →
      ∃ first later cell, callsFor [noElement, noElement] sensorName = first :: later ∧
        Cell.run first later = .ok cell ∧ cell.Shows entry.lastValue ∧ cell.Owns) ∧
      ∀ c aval entry, ArrayHeeded [noElement, noElement] c → c.value = .array aval →
        Channel.entryFind afterEmpty.channel.cache c.sensorName = some entry →
          c.injection.same entry.lastValue = true →
            lastArray [noElement, noElement] c.sensorName = some aval :=
  arrays_sound reached_afterEmpty (by decide) heeded_afterEmpty

/-- The empty array is found unmodified after an array that is not. -/
theorem not_arrays_sound_afterElement :
    (noElement.inject Zstd.stored afterElement).1 = true ∧
      ∃ entry, Channel.entryFind afterElement.channel.cache noElement.sensorName = some entry ∧
        noElement.injection.same entry.lastValue = true ∧
        lastArray [oneElement] noElement.sensorName ≠ some OvalArray.empty := by
  refine ⟨by decide +kernel, ?_⟩
  obtain ⟨slots, hslots⟩ := reached_afterElement.holds (by decide)
  cases hentry : Channel.entryFind afterElement.channel.cache noElement.sensorName with
  | none =>
    have hnew := (hslots.new_iff _).mp hentry
    exact absurd hnew (by decide)
  | some entry =>
    obtain ⟨first, later, hcalls, -, hlast⟩ := hslots.entry hentry
    cases hcalls
    refine ⟨entry, rfl, ?_, ?_⟩
    · rw [hlast]
      decide
    · intro hequal
      have hvalues := congrArg (Option.map fun aval : OvalArray => aval.val.length) hequal
      revert hvalues
      decide

end Otic.Pack
