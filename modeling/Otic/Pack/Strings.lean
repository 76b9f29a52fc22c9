import Otic.Pack.LastValue
import Otic.Pack.Room

/-!
# The copy of the last string

`inject_s` compares its value with the cached copy by `strcmp`.  The copy that
`otic_pack_entry_insert_s` makes of a sensor's first string has no terminator, the copy
of a later one has.  `strcmp` is defined here on the block alone, so that it is seen to
leave it; `comparesSoundly_iff` says which calls make it do so.
-/

namespace Otic.Pack

variable {zstd : Zstd} {h : Handle}

/-! ### Comparing within a block -/

/-- `strcmp` of a block and a string, whether they are equal; `none` if a byte behind the
block is read. -/
def strcmp : List UInt8 → List UInt8 → Option Bool
  | [], _ => none
  | b :: _, [] => some (b == 0)
  | b :: block, v :: value => if b = v then strcmp block value else some false

/-- A block with a terminator is left for no string. -/
theorem strcmp_terminated {s value : List UInt8} (hs : (0 : UInt8) ∉ s)
    (hvalue : (0 : UInt8) ∉ value) : strcmp (s ++ [0]) value = some (decide (value = s)) := by
  induction s generalizing value with
  | nil =>
    cases value with
    | nil => rfl
    | cons v value =>
      have hne : (0 : UInt8) ≠ v := fun heq => hvalue (by simp [heq])
      simp [strcmp, hne]
  | cons b s ih =>
    simp only [List.mem_cons, not_or] at hs
    cases value with
    | nil => simp [strcmp, Ne.symm hs.1]
    | cons v value =>
      simp only [List.mem_cons, not_or] at hvalue
      rw [List.cons_append, strcmp, ih hs.2 hvalue.2]
      by_cases heq : b = v
      · simp [heq]
      · have hne : v ≠ b := fun heq' => heq heq'.symm
        simp [heq, hne]

/-- A block without one is left exactly for the strings that begin with it. -/
theorem strcmp_unterminated {s value : List UInt8} (hs : (0 : UInt8) ∉ s) :
    strcmp s value = if s <+: value then none else some false := by
  induction s generalizing value with
  | nil => simp [strcmp]
  | cons b s ih =>
    simp only [List.mem_cons, not_or] at hs
    cases value with
    | nil => simp [strcmp, Ne.symm hs.1]
    | cons v value =>
      rw [strcmp, ih hs.2]
      by_cases heq : b = v
      · simp [heq]
      · simp [heq, List.cons_prefix_cons]

/-- As long as it stays in the block, `strcmp` answers as `inject_s` acts, whatever lies
behind the block. -/
theorem strcmp_untilZero {block value : List UInt8} (hvalue : (0 : UInt8) ∉ value) {equal : Bool}
    (hcmp : strcmp block value = some equal) (heap : List UInt8) :
    Bytes.untilZero (block ++ heap) = value ↔ equal = true := by
  induction block generalizing value with
  | nil => cases hcmp
  | cons b block ih =>
    cases value with
    | nil =>
      obtain rfl := Option.some.inj hcmp
      by_cases hzero : b = 0 <;> simp [Bytes.untilZero, hzero]
    | cons v value =>
      simp only [List.mem_cons, not_or] at hvalue
      rw [strcmp] at hcmp
      split at hcmp
      · rename_i heq
        subst heq
        have hne : b ≠ 0 := fun heq => hvalue.1 heq.symm
        rw [← ih hvalue.2 hcmp]
        simp [Bytes.untilZero, hne]
      · rename_i hne
        obtain rfl := Option.some.inj hcmp
        by_cases hzero : b = 0 <;> simp [Bytes.untilZero, hzero, hne]

/-! ### What is cached -/

/-- The string of a call. -/
def AnyCall.text (c : AnyCall) : Option CStr :=
  match c.value with
  | .scalar (.string value) => some value
  | _ => none

/-- The string most recently injected under a name. -/
def lastText (calls : List AnyCall) (sensorName : CStr) : Option CStr :=
  ((callsFor calls sensorName).filterMap AnyCall.text).getLast?

theorem entered_string {c : AnyCall} {block : List UInt8} {size : Nat}
    (hentered : c.entered = .string block size) : ∃ s, c.text = some s ∧ block = s.bytes := by
  unfold AnyCall.entered at hentered
  unfold AnyCall.text
  cases hvalue : c.value with
  | scalar value =>
    rw [hvalue] at hentered
    cases value with
    | string s =>
      cases hentered
      exact ⟨s, rfl, rfl⟩
    | bool value => cases value <;> cases hentered
    | intNeg | intPos | double | null => cases hentered
  | buffer | array =>
    rw [hvalue] at hentered
    cases hentered

theorem changed_string {c : AnyCall} {block : List UInt8} {size : Nat}
    (hchanged : c.injection.changed = .string block size) :
    ∃ s, c.text = some s ∧ block = s.bytes ++ [0] := by
  unfold AnyCall.injection at hchanged
  unfold AnyCall.text
  cases hvalue : c.value with
  | scalar value =>
    rw [hvalue] at hchanged
    cases value with
    | string s =>
      cases hchanged
      exact ⟨s, rfl, rfl⟩
    | bool value => cases value <;> cases hchanged
    | intNeg | intPos | double | null => cases hchanged
  | buffer | array =>
    rw [hvalue] at hchanged
    cases hchanged

theorem same_string {c : AnyCall} {block : List UInt8} {size : Nat}
    (hsame : c.injection.same (.string block size) = true) :
    ∃ s, c.text = some s ∧ Bytes.untilZero (block ++ c.heap) = s.bytes := by
  unfold AnyCall.injection at hsame
  unfold AnyCall.text
  cases hvalue : c.value with
  | scalar value =>
    rw [hvalue] at hsame
    cases value with
    | string s => exact ⟨s, rfl, of_decide_eq_true hsame⟩
    | bool value => cases value <;> exact absurd hsame Bool.false_ne_true
    | intNeg | intPos | double | null => exact absurd hsame Bool.false_ne_true
  | buffer | array =>
    rw [hvalue] at hsame
    exact absurd hsame Bool.false_ne_true

/-- The first string of a sensor does not begin the second one. -/
def TextHeeded (before : List AnyCall) (c : AnyCall) : Prop :=
  ∀ first s value, callsFor before c.sensorName = [first] → first.text = some s →
    c.text = some value → ¬ s.bytes <+: value.bytes

/-- The block that is cached, of a string, after some calls for the sensor. -/
inductive Cached : AnyCall → List AnyCall → List UInt8 → Prop
  | first {first : AnyCall} {s : CStr} (htext : first.text = some s) : Cached first [] s.bytes
  | later {first last : AnyCall} {later : List AnyCall} {s : CStr} (htext : last.text = some s) :
      Cached first (later ++ [last]) (s.bytes ++ [0])

/-- **The copy of a string** has a terminator, unless it is that of a first call. -/
theorem cached_held {calls : List AnyCall} (hheeded : Throughout TextHeeded calls) :
    ∀ {sensorName : CStr} {first : AnyCall} {later : List AnyCall} {block : List UInt8}
      {size : Nat},
      callsFor calls sensorName = first :: later → held first later = .string block size →
        Cached first later block := by
  induction calls using List.reverseRecOn with
  | nil =>
    intro sensorName first later block size hcalls
    cases hcalls
  | append_singleton calls c ih =>
    obtain ⟨hbefore, hlast⟩ := hheeded.init
    intro sensorName first later block size hcalls hheld
    rw [callsFor_concat] at hcalls
    split at hcalls
    · rename_i hname
      subst hname
      cases hold : callsFor calls c.sensorName with
      | nil =>
        rw [hold, List.nil_append] at hcalls
        cases hcalls
        obtain ⟨s, htext, rfl⟩ := entered_string hheld
        exact .first htext
      | cons first' later' =>
        rw [hold, List.cons_append] at hcalls
        cases hcalls
        rw [held_concat] at hheld
        split at hheld
        · -- the call found its string in the block that was there
          rename_i hsame
          rw [hheld] at hsame
          obtain ⟨value, htext, heq⟩ := same_string hsame
          cases ih hbefore hold hheld with
          | first hfirst =>
            rename_i s
            have hprefix := hlast _ s value hold hfirst htext
            have hcmp := @strcmp_unterminated s.bytes value.bytes s.nulFree
            rw [if_neg hprefix] at hcmp
            have hequal := (strcmp_untilZero value.nulFree hcmp c.heap).mp heq
            cases hequal
          | later hlater =>
            rename_i last later s
            have hcmp := strcmp_terminated s.nulFree value.nulFree
            have hequal := (strcmp_untilZero value.nulFree hcmp c.heap).mp heq
            rw [← of_decide_eq_true hequal]
            exact .later htext
        · obtain ⟨s, htext, rfl⟩ := changed_string hheld
          exact .later htext
    · exact ih hbefore hcalls hheld

/-! ### Comparisons -/

/-- The inject gets past its timestamp, and there is room for its string. -/
def AnyCall.Compares (zstd : Zstd) (c : AnyCall) (h : Handle) : Prop :=
  h.channel.encoder.clock c.tick ≠ none ∧ c.textSize ≤ h.channel.threshold ∧
    ((h.stamped zstd c.tick).makeRoom zstd c.textSize).1 = true

/-- If a string is compared with the cached one, only the block of the copy is read, and
they are found equal exactly if the string is the one most recently injected. -/
def ComparesSoundly (zstd : Zstd) (h : Handle) (calls : List AnyCall) (c : AnyCall) : Prop :=
  ∀ value entry block size, c.Compares zstd h → c.text = some value →
    Channel.entryFind h.channel.cache c.sensorName = some entry →
      entry.lastValue = .string block size →
        strcmp block value.bytes = some (decide (lastText calls c.sensorName = some value))

theorem lastText_singleton {calls : List AnyCall} {sensorName : CStr} {first : AnyCall} {s : CStr}
    (hcalls : callsFor calls sensorName = [first]) (htext : first.text = some s) :
    lastText calls sensorName = some s := by
  simp [lastText, hcalls, htext]

theorem lastText_concat {calls : List AnyCall} {sensorName : CStr} {first last : AnyCall}
    {later : List AnyCall} {s : CStr}
    (hcalls : callsFor calls sensorName = first :: (later ++ [last]))
    (htext : last.text = some s) : lastText calls sensorName = some s := by
  rw [lastText, hcalls, ← List.cons_append, List.filterMap_append]
  simp [htext]

section Comparing

variable {parent : Parent} {id channelType : UInt8} {bucketSize : UInt32} {calls : List AnyCall}
  (hr : Reached zstd ⟨parent, Channel.init id channelType bucketSize⟩ h calls)
  (hfew : (sensorNames calls).length ≤ 65536)

include hr hfew

/-- A string that begins with the first one makes `strcmp` leave the block. -/
theorem textHeeded_of_comparesSoundly {c : AnyCall} (hsound : ComparesSoundly zstd h calls c)
    (hcompares : c.Compares zstd h) : TextHeeded calls c := by
  intro first s value hcalls hfirst htext hprefix
  obtain ⟨slots, hslots⟩ := hr.holds hfew
  have hcalled : c.sensorName ∈ sensorNames calls := by
    by_contra hnew
    rw [callsFor_eq_nil.mpr hnew] at hcalls
    cases hcalls
  cases hentry : Channel.entryFind h.channel.cache c.sensorName with
  | none => exact (hslots.new_iff c.sensorName).mp hentry hcalled
  | some entry =>
    obtain ⟨first', later', hcalls', -, hlast⟩ := hslots.entry hentry
    rw [hcalls] at hcalls'
    cases hcalls'
    have hentered : first.entered = .string s.bytes s.size := by
      unfold AnyCall.text at hfirst
      unfold AnyCall.entered
      split at hfirst
      · rename_i hvalue
        rw [hvalue]
        cases hfirst
        rfl
      · cases hfirst
    have hcmp := hsound value entry s.bytes s.size hcompares htext hentry (hlast.trans hentered)
    rw [strcmp_unterminated s.nulFree, if_pos hprefix] at hcmp
    cases hcmp

theorem comparesSoundly_of_textHeeded (hheeded : Throughout TextHeeded calls) {c : AnyCall}
    (hheed : c.Compares zstd h → TextHeeded calls c) : ComparesSoundly zstd h calls c := by
  intro value entry block size hcompares htext hentry hstring
  obtain ⟨slots, hslots⟩ := hr.holds hfew
  obtain ⟨first, later, hcalls, -, hlast⟩ := hslots.entry hentry
  rw [hlast] at hstring
  cases cached_held hheeded hcalls hstring with
  | first hfirst =>
    rename_i s
    have hprefix := hheed hcompares first s value hcalls hfirst htext
    have hne : s ≠ value := by
      rintro rfl
      exact hprefix (List.prefix_refl s.bytes)
    rw [strcmp_unterminated s.nulFree, if_neg hprefix, lastText_singleton hcalls hfirst]
    simp [hne]
  | later hlater =>
    rename_i last later s
    rw [strcmp_terminated s.nulFree value.nulFree, lastText_concat hcalls hlater]
    have hiff : value.bytes = s.bytes ↔ s = value :=
      ⟨fun heq => (CStr.ext_bytes heq).symm, fun heq => by rw [heq]⟩
    simp [hiff]

/-- **Strings are compared soundly** in every state of a run whose calls are heeded, and
by no call that compares and is not. -/
theorem comparesSoundly_iff (hheeded : Throughout TextHeeded calls) (c : AnyCall) :
    ComparesSoundly zstd h calls c ↔ (c.Compares zstd h → TextHeeded calls c) :=
  ⟨textHeeded_of_comparesSoundly hr hfew, comparesSoundly_of_textHeeded hr hfew hheeded⟩

end Comparing

/-- A channel of a kilobyte, and the strings of one byte for a sensor without a name. -/
def kilobyte : Handle := ⟨⟨[], [], [], .none, .opened⟩, Channel.init 1 0 1024⟩

def oneByte (b : UInt8) (hb : b ≠ 0) : AnyCall :=
  { emptyString.any with value := .scalar (.string ⟨[b], by simpa using Ne.symm hb, by simp⟩) }

def afterOne : Handle := ((oneByte 1 (by decide)).inject Zstd.stored kilobyte).2

theorem reached_afterOne : Reached Zstd.stored kilobyte afterOne [oneByte 1 (by decide)] :=
  .accepted _ .start (by decide +kernel)

theorem throughout_singleton (c : AnyCall) : Throughout TextHeeded [c] := by
  intro before d after hsplit
  cases before with
  | nil =>
    intro first s value hcalls
    cases hcalls
  | cons d' before =>
    cases before <;> cases hsplit

theorem comparesSoundly_iff_afterOne :
    ComparesSoundly Zstd.stored afterOne [oneByte 1 (by decide)] (oneByte 2 (by decide)) ↔
      ((oneByte 2 (by decide)).Compares Zstd.stored afterOne →
        TextHeeded [oneByte 1 (by decide)] (oneByte 2 (by decide))) :=
  comparesSoundly_iff reached_afterOne (by decide) (throughout_singleton _) _

/-- The same string again, which is compared with a block of one byte. -/
theorem not_comparesSoundly_afterOne :
    ¬ ComparesSoundly Zstd.stored afterOne [oneByte 1 (by decide)] (oneByte 1 (by decide)) := by
  intro hsound
  have hheeded := textHeeded_of_comparesSoundly reached_afterOne (by decide) hsound
    ⟨by decide +kernel, by decide +kernel, by decide +kernel⟩
  exact hheeded _ _ _ rfl rfl rfl (List.prefix_refl [1])

end Otic.Pack
