import Otic.Tsv.Compress

/-!
# Comparing two files of lines (`compare.c`)

`compare_compareLineValues` goes through a file of five columns and the four columns that
are printed for it.  Of both lines it sees fifteen characters of the first column; the
terminator for this is written wherever the sixteenth character of the line is, so that a
shorter first column costs another column its end.  Behind the end of the second file its
last line is compared again and again.
-/

namespace Otic.Tsv

open Utility

/-! ### The source -/

/-- What ends a comparison. -/
inductive Stop where
  | fault (fault : Fault)
  /-- `printError`, which exits -/
  | exit (compVal1 compVal2 : List UInt8) (line : ℕ)
  /-- a newline at the front of a file is never passed -/
  | endless
deriving DecidableEq, Repr

/-- The variables of `compare_compareLineValues`. -/
structure Comparison where
  file1 : List UInt8
  file2 : List UInt8
  buffer1 : List UInt8
  buffer2 : List UInt8
  format1 : Format
  format2 : Format
  line : ℕ

/-- `columns.content[counter]`. -/
def contentOf (format : Format) (counter : ℕ) : Except Fault (Option ℕ) :=
  match format.content[counter]? with
  | some content => .ok content
  | none => .error (.format .slot)

def cutVal (memory : List UInt8) (value : Option ℕ) (needle : ℕ) :
    Except Fault (List UInt8) :=
  match value with
  | none => .error .null
  | some position => (store memory (position + needle) [0]).mapError .format

/-- A line of each file is read and parsed, and both are cut. -/
def Comparison.load (s : Comparison) : Except Fault Comparison := do
  let (_, buffer1, file1) ← (fscanf s.buffer1 0 s.file1).mapError .format
  let (_, buffer2, file2) ← (fscanf s.buffer2 0 s.file2).mapError .format
  let (_, buffer1, format1) ← (s.format1.parse buffer1 0).mapError .format
  let (_, buffer2, format2) ← (s.format2.parse buffer2 0).mapError .format
  let buffer1 ← cutVal buffer1 (← contentOf format1 0) 15
  let buffer2 ← cutVal buffer2 (← contentOf format2 0) 15
  return { s with file1, file2, buffer1, buffer2, format1, format2 }

/-- The arguments of `printError`, if it is called. -/
abbrev Difference := Option (List UInt8 × List UInt8)

/-- `strcmp(…) != 0`. -/
def stringsDiffer (memory1 : List UInt8) (content1 : Option ℕ) (memory2 : List UInt8)
    (content2 : Option ℕ) : Except Fault Difference := do
  let text1 ← contentAt memory1 content1
  let text2 ← contentAt memory2 content2
  return if text1.bytes = text2.bytes then none else some (text1.bytes, text2.bytes)

/-- `"(null)"`. -/
def nullText : List UInt8 := [40, 110, 117, 108, 108, 41]

/-- A null pointer in the first line: there is to be one in the second line, too. -/
def nullsDiffer (memory2 : List UInt8) (content2 : Option ℕ) : Except Fault Difference :=
  match content2 with
  | none => .ok none
  | some position => do
      let text2 ← stringAt memory2 position
      return some (nullText, text2.bytes)

variable (numbers : Numbers)

/-- `case 0`, behind the cut. -/
def timestampsDiffer (s : Comparison) : Except Fault Difference := do
  let text1 ← contentAt s.buffer1 (← contentOf s.format1 0)
  let text2 ← contentAt s.buffer2 (← contentOf s.format2 0)
  return if doubleEq (numbers.strtod text1.bytes) (numbers.strtod text2.bytes) then none
    else some (text1.bytes, text2.bytes)

/-- `case 1`. -/
def namesDiffer (s : Comparison) : Except Fault Difference := do
  stringsDiffer s.buffer1 (← contentOf s.format1 1) s.buffer2 (← contentOf s.format2 1)

/-- `case 2`. -/
def unitsDiffer (s : Comparison) : Except Fault Difference := do
  let content1 ← contentOf s.format1 3
  let content2 ← contentOf s.format2 2
  if content1 = none then nullsDiffer s.buffer2 content2
  else stringsDiffer s.buffer1 content1 s.buffer2 content2

/-- `case 3`. -/
def valuesDiffer (s : Comparison) : Except Fault Difference := do
  let content1 ← contentOf s.format1 4
  let content2 ← contentOf s.format2 3
  if content1 = none then nullsDiffer s.buffer2 content2
  else
    let text1 ← contentAt s.buffer1 content1
    if isNumeric text1.bytes then
      let text2 ← contentAt s.buffer2 content2
      return if strtol text1.bytes = strtol text2.bytes then none
        else some (text1.bytes, text2.bytes)
    else stringsDiffer s.buffer1 content1 s.buffer2 content2

/-- The next column is compared if this one does not differ. -/
def andThen (first next : Except Fault Difference) : Except Fault Difference := do
  match ← first with
  | some texts => return some texts
  | none => next

/-- The columns of a line. -/
def linesDiffer (s : Comparison) : Except Fault Difference :=
  andThen (timestampsDiffer numbers s)
    (andThen (namesDiffer s) (andThen (unitsDiffer s) (valuesDiffer s)))

/-- One line. -/
def compareBody (s : Comparison) : Except Stop (Bool × Comparison) :=
  if s.file1 = [] then .ok (false, s)
  else do
    let s ← s.load.mapError .fault
    match ← (linesDiffer numbers s).mapError .fault with
    | some (compVal1, compVal2) => throw (.exit compVal1 compVal2 s.line)
    | none => return (true, { s with line := s.line + 1 })

/-- `compare_compareLineValues`.  The buffers and the slots hold anything before. -/
def compareLineValues (buffer1 buffer2 : List UInt8) (content1 content2 : List (Option ℕ))
    (file1 file2 : List UInt8) : Except Stop Bool := do
  let (going, _) ← Loop.run (compareBody numbers) (file1.length + 1)
    ⟨file1, file2, buffer1, buffer2, ⟨TAB, content1, 0⟩, ⟨TAB, content2, 0⟩, 0⟩
  if going then throw .endless else return true

variable {numbers} {buffer memory : List UInt8} {format : Format} {position : ℕ}
  {text rest : List UInt8}

/-! ### Columns -/

/-- Columns with delimiters between them. -/
def lineText : List Column → List UInt8
  | [] => []
  | [column] => column.text
  | column :: columns => column.text ++ TAB :: lineText columns

/-- The slots for columns that start at this position; the last one is not null. -/
def slotsFrom : ℕ → List Column → List (Option ℕ)
  | _, [] => []
  | position, [_] => [some position]
  | position, column :: columns =>
      (if column.text = [] then none else some position) ::
        slotsFrom (position + column.text.length + 1) columns

theorem lineText_cons (column next : Column) (columns : List Column) :
    lineText (column :: next :: columns) = column.text ++ TAB :: lineText (next :: columns) := rfl

theorem slotsFrom_cons (position : ℕ) (column next : Column) (columns : List Column) :
    slotsFrom position (column :: next :: columns) =
      (if column.text = [] then none else some position) ::
        slotsFrom (position + column.text.length + 1) (next :: columns) := rfl

theorem plain_lineText (columns : List Column) :
    0 ∉ lineText columns ∧ NEWLINE ∉ lineText columns := by
  have hcolumn (column : Column) : 0 ∉ column.text ∧ NEWLINE ∉ column.text :=
    ⟨fun hmem => (column.plain 0 hmem).1 rfl, column.free.2⟩
  have htab : (0 : UInt8) ≠ TAB ∧ NEWLINE ≠ TAB := by decide
  induction columns with
  | nil => exact ⟨List.not_mem_nil, List.not_mem_nil⟩
  | cons column columns ih =>
    cases columns with
    | nil => exact hcolumn column
    | cons next columns =>
      simp only [lineText, List.mem_append, List.mem_cons, not_or]
      exact ⟨⟨(hcolumn column).1, htab.1, ih.1⟩, (hcolumn column).2, htab.2, ih.2⟩

theorem fieldsOf_lineText (columns : List Column) : ∀ column : Column,
    fieldsOf TAB (lineText (column :: columns)) = (column :: columns).map Column.text := by
  have hsplit (columns : List Column) : ∀ column : Column,
      (lineText (column :: columns)).splitOn TAB = (column :: columns).map Column.text := by
    induction columns with
    | nil => exact fun column => List.splitOn_eq_singleton column.free.1
    | cons next columns ih =>
      intro column
      rw [lineText_cons, List.splitOn_append_cons_of_beq _ _ (beq_self_eq_true TAB),
        List.splitOn_eq_singleton column.free.1, ih]
      rfl
  intro column
  rw [fieldsOf, lineOf_of_notMem (plain_lineText _).2, hsplit]

/-- **The slots of a line** that stands alone in its buffer. -/
theorem slots_lineText (columns : List Column) : ∀ (column : Column) (position : ℕ),
    slots TAB position (lineText (column :: columns)) =
      slotsFrom (position + column.text.length + 1) columns := by
  induction columns with
  | nil =>
    intro column position
    have hlast := slots_last column.free (Or.inl rfl) position
    rwa [List.append_nil] at hlast
  | cons next columns ih =>
    intro column position
    rw [lineText_cons, slots_column column.free, ih]
    cases columns with
    | nil =>
      have hhead := head_column next []
      rw [List.append_nil] at hhead
      rw [lineText, if_neg (by rw [hhead]; simp)]
      rfl
    | cons last columns =>
      rw [lineText_cons, slotsFrom_cons]
      simp only [head_column, List.head?_cons, true_or, and_true]

/-! ### The cut -/

/-- What is left of a text at a position when the sixteenth character becomes a terminator. -/
def cutAt (position : ℕ) (text : List UInt8) : List UInt8 :=
  if position ≤ 15 then text.take (15 - position) else text

theorem mem_of_mem_cutAt {char : UInt8} (h : char ∈ cutAt position text) : char ∈ text := by
  unfold cutAt at h
  split at h
  · exact List.mem_of_mem_take h
  · exact h

theorem set_terminated (text behind : List UInt8) (index : ℕ) : ∃ behind',
    (text ++ 0 :: behind).set index 0 = text.take index ++ 0 :: behind' := by
  by_cases hindex : index < text.length
  · refine ⟨text.drop (index + 1) ++ 0 :: behind, ?_⟩
    rw [List.set_append_left _ _ hindex, List.set_eq_take_append_cons_drop, if_pos hindex,
      List.append_assoc, List.cons_append]
  · rw [List.set_append_right _ _ (Nat.le_of_not_lt hindex),
      List.take_of_length_le (Nat.le_of_not_lt hindex)]
    cases index - text.length with
    | zero => exact ⟨behind, rfl⟩
    | succ later => exact ⟨behind.set later 0, rfl⟩

theorem stringAt_cut (h : StringAt memory position text) :
    StringAt (memory.set 15 0) position (cutAt position text) := by
  obtain ⟨hzero, behind, hbehind⟩ := h
  refine ⟨fun hmem => hzero (mem_of_mem_cutAt hmem), ?_⟩
  rw [List.drop_set, cutAt]
  by_cases hposition : position ≤ 15
  · rw [if_neg (Nat.not_lt.mpr hposition), if_pos hposition, hbehind]
    exact set_terminated text behind (15 - position)
  · rw [if_pos (Nat.lt_of_not_le hposition), if_neg hposition]
    exact ⟨behind, hbehind⟩

theorem length_lt_of_stringAt (h : StringAt memory position text) :
    text.length < memory.length := by
  obtain ⟨-, behind, hbehind⟩ := h
  have hlength := congrArg List.length hbehind
  rw [List.length_drop, List.length_append, List.length_cons] at hlength
  omega

theorem cutVal_eq (h : buffer.length = 512) :
    cutVal buffer (some 0) 15 = .ok (buffer.set 15 0) := by
  have hstore : store buffer (0 + 15) [0] = .ok (buffer.set 15 0) := by
    rw [store, if_pos (by simp [h]), List.set_eq_take_append_cons_drop, if_pos (by omega)]
    rfl
  rw [cutVal, hstore]
  rfl

/-! ### What is seen of a line -/

/-- What is compared; an empty unit is a null pointer. -/
structure Seen where
  timestamp : List UInt8
  name : List UInt8
  unit : Option (List UInt8)
  value : List UInt8

/-- A column that is not the last one, in a slot. -/
def seenAt (position : ℕ) (column : Column) : Option (List UInt8) :=
  if column.text = [] then none else some (cutAt position column.text)

def Line.seen (line : Line) : Seen :=
  let name := line.timestamp.text.length + 1
  let unit := name + line.name.text.length + 1 + line.skipped.text.length + 1
  { timestamp := cutAt 0 line.timestamp.text
    name := cutAt name line.name.text
    unit := seenAt unit line.unit
    value := cutAt (unit + line.unit.text.length + 1) line.value.text }

/-- A line of four columns. -/
structure PrintedLine where
  timestamp : Column
  name : Column
  unit : Column
  value : Column

def PrintedLine.columns (line : PrintedLine) : List Column :=
  [line.timestamp, line.name, line.unit, line.value]

def PrintedLine.seen (line : PrintedLine) : Seen :=
  let name := line.timestamp.text.length + 1
  let unit := name + line.name.text.length + 1
  { timestamp := cutAt 0 line.timestamp.text
    name := cutAt name line.name.text
    unit := seenAt unit line.unit
    value := cutAt (unit + line.unit.text.length + 1) line.value.text }

/-- What is seen of two lines is the same: the numbers of the first column, the texts of the
next two, and the texts of the last one, or the numbers if the first file has one there. -/
structure Agrees (numbers : Numbers) (a b : Seen) : Prop where
  timestamp : doubleEq (numbers.strtod a.timestamp) (numbers.strtod b.timestamp) = true
  name : a.name = b.name
  unit : a.unit = b.unit
  value : if isNumeric a.value then strtol a.value = strtol b.value else a.value = b.value

/-- A buffer and the slots of its line, after the cut. -/
structure Shows (unitSlot valueSlot : ℕ) (seen : Seen) (buffer : List UInt8) (format : Format) :
    Prop where
  length : buffer.length = 512
  delimiter : format.delimiter = TAB
  columns : format.size = 5
  cut : buffer.set 15 0 = buffer
  first : format.content[0]? = some (some 0)
  timestamp : StringAt buffer 0 seen.timestamp
  plain : TAB ∉ seen.timestamp ∧ NEWLINE ∉ seen.timestamp
  name : ∃ position, format.content[1]? = some (some position) ∧
    StringAt buffer position seen.name
  unit : ∃ slot, format.content[unitSlot]? = some slot ∧
    Option.Rel (StringAt buffer) slot seen.unit
  value : ∃ position, format.content[valueSlot]? = some (some position) ∧
    StringAt buffer position seen.value

/-! ### Two lines -/

variable {buffer1 buffer2 : List UInt8} {a b : Seen} {s : Comparison}

/-- A comparison that finds no difference exactly if there is none, and that fails, if at all,
on a null pointer. -/
structure Decides (result : Except Fault Difference) (same null : Prop) : Prop where
  same : result = .ok none ↔ same
  null : ∀ fault, result = .error fault → fault = .null ∧ null

theorem Decides.of_ite {same : Prop} [Decidable same] (texts : List UInt8 × List UInt8)
    (null : Prop) : Decides (.ok (if same then none else some texts)) same null where
  same := by
    by_cases h : same
    · simp [h]
    · simp [h]
  null := fun fault h => by cases h

theorem Decides.andThen {first next : Except Fault Difference} {same same' null : Prop}
    (h : Decides first same null) (h' : Decides next same' null) :
    Decides (andThen first next) (same ∧ same') null := by
  obtain ⟨hsame, hnull⟩ := h
  cases first with
  | error fault =>
    refine ⟨⟨fun herror => (by cases herror), fun hboth => ?_⟩, fun fault' herror => ?_⟩
    · cases hsame.mpr hboth.1
    · cases herror
      exact hnull fault rfl
  | ok difference =>
    cases difference with
    | some texts =>
      refine ⟨⟨fun hok => (by cases hok), fun hboth => ?_⟩, fun fault herror => by cases herror⟩
      cases hsame.mpr hboth.1
    | none =>
      have hfirst := hsame.mp rfl
      exact ⟨h'.same.trans ⟨fun h => ⟨hfirst, h⟩, fun h => h.2⟩, h'.null⟩

theorem contentAt_eq (h : StringAt memory position text) (hlength : memory.length = 512) :
    ∃ str : CStr, str.bytes = text ∧ contentAt memory (some position) = .ok str := by
  have hshort := length_lt_of_stringAt h
  obtain ⟨str, hstr, hbytes⟩ := contentAt_of_holds (show Holds memory (some position) text from h)
    (by omega)
  exact ⟨str, hbytes, hstr⟩

theorem contentOf_eq {counter : ℕ} {slot : Option ℕ} (h : format.content[counter]? = some slot) :
    contentOf format counter = .ok slot := by
  rw [contentOf, h]

theorem decides_strings {position1 position2 : ℕ} {text1 text2 : List UInt8}
    (h1 : StringAt buffer1 position1 text1) (h2 : StringAt buffer2 position2 text2)
    (hlength1 : buffer1.length = 512) (hlength2 : buffer2.length = 512) (null : Prop) :
    Decides (stringsDiffer buffer1 (some position1) buffer2 (some position2)) (text1 = text2)
      null := by
  obtain ⟨str1, rfl, hstr1⟩ := contentAt_eq h1 hlength1
  obtain ⟨str2, rfl, hstr2⟩ := contentAt_eq h2 hlength2
  unfold stringsDiffer
  rw [hstr1, hstr2]
  exact .of_ite _ null

/-- **Two lines** are the same, or a unit is compared with a null pointer. -/
theorem decides_lines (numbers : Numbers) (h1 : Shows 3 4 a s.buffer1 s.format1)
    (h2 : Shows 2 3 b s.buffer2 s.format2) :
    Decides (linesDiffer numbers s) (Agrees numbers a b) (a.unit ≠ none ∧ b.unit = none) := by
  have htimestamps : Decides (timestampsDiffer numbers s)
      (doubleEq (numbers.strtod a.timestamp) (numbers.strtod b.timestamp) = true)
      (a.unit ≠ none ∧ b.unit = none) := by
    obtain ⟨str1, hbytes1, hstr1⟩ := contentAt_eq h1.timestamp h1.length
    obtain ⟨str2, hbytes2, hstr2⟩ := contentAt_eq h2.timestamp h2.length
    rw [timestampsDiffer, contentOf_eq h1.first, contentOf_eq h2.first, ← hbytes1, ← hbytes2]
    simp only [bind, Except.bind, hstr1, hstr2]
    exact .of_ite _ _
  have hnames : Decides (namesDiffer s) (a.name = b.name) (a.unit ≠ none ∧ b.unit = none) := by
    obtain ⟨position1, hslot1, hname1⟩ := h1.name
    obtain ⟨position2, hslot2, hname2⟩ := h2.name
    rw [namesDiffer, contentOf_eq hslot1, contentOf_eq hslot2]
    exact decides_strings hname1 hname2 h1.length h2.length _
  have hunits : Decides (unitsDiffer s) (a.unit = b.unit) (a.unit ≠ none ∧ b.unit = none) := by
    obtain ⟨slot1, hslot1, hunit1⟩ := h1.unit
    obtain ⟨slot2, hslot2, hunit2⟩ := h2.unit
    rw [unitsDiffer, contentOf_eq hslot1, contentOf_eq hslot2]
    generalize a.unit = unit1 at hunit1 ⊢
    generalize b.unit = unit2 at hunit2 ⊢
    cases hunit1 with
    | none =>
      cases hunit2 with
      | none => exact ⟨by simp [bind, Except.bind, nullsDiffer], fun fault h => by cases h⟩
      | @some position2 text2 h2' =>
        obtain ⟨str2, -, hstr2⟩ := contentAt_eq h2' h2.length
        rw [contentAt] at hstr2
        simp only [bind, Except.bind, nullsDiffer, hstr2, if_true]
        exact ⟨⟨fun h => (by cases h), fun h => (by cases h)⟩, fun fault h => by cases h⟩
    | @some position1 text1 h1' =>
      simp only [bind, Except.bind, Option.some_ne_none, if_false]
      cases hunit2 with
      | none =>
        obtain ⟨str1, -, hstr1⟩ := contentAt_eq h1' h1.length
        have hnull : stringsDiffer s.buffer1 (some position1) s.buffer2 none = .error .null := by
          rw [stringsDiffer, hstr1]
          rfl
        rw [hnull]
        refine ⟨⟨fun h => (by cases h), fun h => (by cases h)⟩, fun fault h => ?_⟩
        cases h
        exact ⟨rfl, Option.some_ne_none _, rfl⟩
      | @some position2 text2 h2' =>
        have hstrings := decides_strings h1' h2' h1.length h2.length
          (some text1 ≠ none ∧ some text2 = none)
        exact ⟨by rw [hstrings.same, Option.some_inj], hstrings.null⟩
  have hvalues : Decides (valuesDiffer s)
      (if isNumeric a.value then strtol a.value = strtol b.value else a.value = b.value)
      (a.unit ≠ none ∧ b.unit = none) := by
    obtain ⟨position1, hslot1, hvalue1⟩ := h1.value
    obtain ⟨position2, hslot2, hvalue2⟩ := h2.value
    obtain ⟨str1, hbytes1, hstr1⟩ := contentAt_eq hvalue1 h1.length
    obtain ⟨str2, hbytes2, hstr2⟩ := contentAt_eq hvalue2 h2.length
    rw [valuesDiffer, contentOf_eq hslot1, contentOf_eq hslot2]
    simp only [bind, Except.bind, Option.some_ne_none, if_false, hstr1, hstr2, hbytes1, hbytes2]
    split
    · exact .of_ite _ _
    · exact decides_strings hvalue1 hvalue2 h1.length h2.length _
  have hall := htimestamps.andThen (hnames.andThen (hunits.andThen hvalues))
  exact ⟨hall.same.trans ⟨fun h => ⟨h.1, h.2.1, h.2.2.1, h.2.2.2⟩,
    fun h => ⟨h.timestamp, h.name, h.unit, h.value⟩⟩, hall.null⟩

/-! ### Reading -/

/-- A buffer and slots that a line can be read into. -/
structure Ready (buffer : List UInt8) (format : Format) : Prop where
  length : buffer.length = 512
  delimiter : format.delimiter = TAB
  columns : format.size = 5

variable {unitSlot valueSlot : ℕ} {file file' : List UInt8}

theorem Shows.ready (h : Shows unitSlot valueSlot a buffer format) : Ready buffer format :=
  ⟨h.length, h.delimiter, h.columns⟩

/-- What the next line of a file is once it is read, parsed and cut. -/
def ReadsLine (unitSlot valueSlot : ℕ) (seen : Seen) (buffer file : List UInt8) (format : Format)
    (file' : List UInt8) : Prop :=
  ∃ scanned memory next parsed format', fscanf buffer 0 file = .ok (scanned, memory, file') ∧
    format.parse memory 0 = .ok (next, parsed, format') ∧ parsed.length = 512 ∧
    Shows unitSlot valueSlot seen (parsed.set 15 0) format'

theorem load_eq {file1 file2 : List UInt8} (h1 : ReadsLine 3 4 a s.buffer1 s.file1 s.format1 file1)
    (h2 : ReadsLine 2 3 b s.buffer2 s.file2 s.format2 file2) :
    ∃ s', s.load = .ok s' ∧ s'.file1 = file1 ∧ s'.file2 = file2 ∧ s'.line = s.line ∧
      Shows 3 4 a s'.buffer1 s'.format1 ∧ Shows 2 3 b s'.buffer2 s'.format2 := by
  obtain ⟨scanned1, memory1, next1, parsed1, format1, hscan1, hparse1, hlength1, hshows1⟩ := h1
  obtain ⟨scanned2, memory2, next2, parsed2, format2, hscan2, hparse2, hlength2, hshows2⟩ := h2
  have hload : s.load = .ok { s with
      file1, file2, format1, format2
      buffer1 := parsed1.set 15 0
      buffer2 := parsed2.set 15 0 } := by
    simp only [Comparison.load, hscan1, hscan2, hparse1, hparse2, Except.mapError, bind,
      Except.bind, contentOf_eq hshows1.first, contentOf_eq hshows2.first, cutVal_eq hlength1,
      cutVal_eq hlength2, pure, Except.pure]
  exact ⟨_, hload, rfl, rfl, rfl, hshows1, hshows2⟩

/-- A line is stored in front of what the buffer holds. -/
theorem store_line (hlength : buffer.length = 512) (hshort : text.length < 512) :
    store buffer 0 (text ++ [0]) = .ok (text ++ 0 :: buffer.drop (text.length + 1)) := by
  rw [store, if_pos (by simp only [List.length_append, List.length_singleton]; omega)]
  simp

/-- **A line of some columns** is read and parsed. -/
theorem reads_columns {column : Column} {more : List Column} (hcount : more.length ≤ 4)
    (hne : lineText (column :: more) ≠ []) (hshort : (lineText (column :: more)).length < 512)
    (hready : Ready buffer format) (hrest : rest = [] ∨ rest.head? = some NEWLINE) :
    ∃ memory next parsed format',
      fscanf buffer 0 (lineText (column :: more) ++ rest) =
        .ok (1, memory, rest.dropWhile isspace) ∧
      format.parse memory 0 = .ok (next, parsed, format') ∧ Ready parsed format' ∧
      format'.content = (some 0 :: slotsFrom (column.text.length + 1) more) ++
        format.content.drop (more.length + 1) ∧
      List.Forall₂ (Holds parsed) (some 0 :: slotsFrom (column.text.length + 1) more)
        ((column :: more).map Column.text) := by
  obtain ⟨hlength, hdelimiter, hcolumns⟩ := hready
  have hplain := plain_lineText (column :: more)
  have hfields := fieldsOf_lineText more column
  have hslots := slots_lineText more column 0
  rw [Nat.zero_add] at hslots
  have hcounted := length_slots TAB (lineText (column :: more)) 0
  generalize lineText (column :: more) = text at *
  have hstore := store_line hlength hshort
  have hparse := parse_eq format [] text (buffer.drop (text.length + 1)) hplain.1
    (by rw [hdelimiter, hfields, hcolumns, List.length_map, List.length_cons]; omega)
  have hheld := holds_parsed TAB [] text (buffer.drop (text.length + 1)) hplain.1
  rw [hdelimiter, hfields, List.length_nil, hslots, List.length_map, List.length_cons] at hparse
  rw [hfields, List.length_nil, hslots] at hheld
  rw [hslots, hfields, List.length_map, List.length_cons] at hcounted
  refine ⟨_, _, _, _, fscanf_line hne hplain.2 hrest hstore, hparse, ⟨?_, rfl, ?_⟩, rfl, hheld⟩
  · rw [List.nil_append, length_scanned, List.length_drop]
    omega
  · rw [Format.size] at hcolumns
    simp only [Format.size, List.length_append, List.length_cons, List.length_drop]
    omega

/-- A slot of a column that is not the last one, after the cut. -/
theorem rel_seenAt {column : Column}
    (h : Holds memory (if column.text = [] then none else some position) column.text) :
    Option.Rel (StringAt (memory.set 15 0)) (if column.text = [] then none else some position)
      (seenAt position column) := by
  unfold seenAt
  by_cases hempty : column.text = []
  · rw [if_pos hempty, if_pos hempty]
    exact .none
  · rw [if_neg hempty] at h
    rw [if_neg hempty, if_neg hempty]
    exact .some (stringAt_cut h)

theorem free_cutAt (column : Column) (position : ℕ) :
    TAB ∉ cutAt position column.text ∧ NEWLINE ∉ cutAt position column.text :=
  ⟨fun hmem => column.free.1 (mem_of_mem_cutAt hmem),
    fun hmem => column.free.2 (mem_of_mem_cutAt hmem)⟩

/-- A line of the first file. -/
theorem reads_line {line : Line} (hsound : line.Sound) (hshort : line.text.length < 512)
    (hready : Ready buffer format) (hrest : rest = [] ∨ rest.head? = some NEWLINE) :
    ReadsLine 3 4 line.seen buffer (line.text ++ rest) format (rest.dropWhile isspace) := by
  have hcolumns : line.text =
      lineText [line.timestamp, line.name, line.skipped, line.unit, line.value] := rfl
  have hne := line.text_ne_nil
  rw [hcolumns] at hne hshort ⊢
  obtain ⟨memory, next, parsed, format', hscan, hparse, hready', hcontent, hheld⟩ :=
    reads_columns (le_refl _) hne hshort hready hrest
  simp only [slotsFrom, if_neg hsound.named] at hcontent hheld
  simp only [List.map_cons, List.map_nil, List.forall₂_cons, List.forall₂_nil_left_iff,
    and_true] at hheld
  obtain ⟨htimestamp, hname, -, hunit, hvalue⟩ := hheld
  refine ⟨_, memory, next, parsed, format', hscan, hparse, hready'.length, ?_⟩
  exact {
    length := by rw [List.length_set, hready'.length]
    delimiter := hready'.delimiter
    columns := hready'.columns
    cut := List.set_set _
    first := by rw [hcontent]; rfl
    timestamp := stringAt_cut htimestamp
    plain := free_cutAt line.timestamp 0
    name := ⟨_, by rw [hcontent]; rfl, stringAt_cut hname⟩
    unit := ⟨_, by rw [hcontent]; rfl, rel_seenAt hunit⟩
    value := ⟨_, by rw [hcontent]; rfl, stringAt_cut hvalue⟩ }

/-- A printed line has a name, does not begin with white space, and fits the buffer. -/
structure PrintedLine.Sound (line : PrintedLine) : Prop where
  named : line.name.text ≠ []
  started : ∀ char ∈ (lineText line.columns).head?, isspace char = false
  short : (lineText line.columns).length < 512

/-- A line of the second file. -/
theorem reads_printed {line : PrintedLine} (hsound : line.Sound) (hready : Ready buffer format)
    (hrest : rest = [] ∨ rest.head? = some NEWLINE) :
    ReadsLine 2 3 line.seen buffer (lineText line.columns ++ rest) format
      (rest.dropWhile isspace) := by
  have hne : lineText line.columns ≠ [] := by
    simp [PrintedLine.columns, lineText_cons]
  have hcount : [line.name, line.unit, line.value].length ≤ 4 := Nat.le_succ 3
  obtain ⟨memory, next, parsed, format', hscan, hparse, hready', hcontent, hheld⟩ :=
    reads_columns hcount hne hsound.short hready hrest
  simp only [slotsFrom, if_neg hsound.named] at hcontent hheld
  simp only [List.map_cons, List.map_nil, List.forall₂_cons, List.forall₂_nil_left_iff,
    and_true] at hheld
  obtain ⟨htimestamp, hname, hunit, hvalue⟩ := hheld
  refine ⟨_, memory, next, parsed, format', hscan, hparse, hready'.length, ?_⟩
  exact {
    length := by rw [List.length_set, hready'.length]
    delimiter := hready'.delimiter
    columns := hready'.columns
    cut := List.set_set _
    first := by rw [hcontent]; rfl
    timestamp := stringAt_cut htimestamp
    plain := free_cutAt line.timestamp 0
    name := ⟨_, by rw [hcontent]; rfl, stringAt_cut hname⟩
    unit := ⟨_, by rw [hcontent]; rfl, rel_seenAt hunit⟩
    value := ⟨_, by rw [hcontent]; rfl, stringAt_cut hvalue⟩ }

theorem scanned_of_free (h : TAB ∉ text ∧ NEWLINE ∉ text) (behind : List UInt8) :
    scanned TAB text behind = text ++ 0 :: behind := by
  induction text with
  | nil => rfl
  | cons char text ih =>
    simp only [List.mem_cons, not_or] at h
    rw [scanned, if_neg (Ne.symm h.2.1), if_neg (Ne.symm h.1.1), ih ⟨h.1.2, h.2.2⟩]
    rfl

/-- **Behind the end of a file** the last line is still in the buffer: its first column is
parsed again, and its other slots stay. -/
theorem reads_again (h : Shows unitSlot valueSlot a buffer format) :
    ReadsLine unitSlot valueSlot a buffer [] format [] := by
  obtain ⟨hzero, behind, hbehind⟩ := h.timestamp
  rw [List.drop_zero] at hbehind
  have hfields : fieldsOf TAB a.timestamp = [a.timestamp] := by
    rw [fieldsOf, lineOf_of_notMem h.plain.2, List.splitOn_eq_singleton h.plain.1]
  have hslots : slots TAB 0 a.timestamp = [] := by
    have hlength := length_slots TAB a.timestamp 0
    rw [hfields, List.length_singleton] at hlength
    exact List.length_eq_zero_iff.mp (by omega)
  have hscanned := (scanned_of_free h.plain behind).trans hbehind.symm
  have hparse := parse_eq format [] a.timestamp behind hzero
    (by rw [h.delimiter, hfields, h.columns, List.length_singleton]; omega)
  rw [h.delimiter, hfields, List.length_nil, hslots, List.length_singleton, hscanned,
    List.nil_append, List.nil_append, ← hbehind] at hparse
  have hcontent : (some 0 :: ([] : List (Option ℕ))) ++ format.content.drop 1 = format.content := by
    obtain ⟨first, content, hcons⟩ := List.exists_cons_of_ne_nil
      (List.ne_nil_of_length_pos (show 0 < format.content.length by
        rw [show format.content.length = 5 from h.columns]; decide))
    have hfirst := h.first
    rw [hcons] at hfirst ⊢
    cases hfirst
    rfl
  rw [hcontent] at hparse
  refine ⟨-1, buffer, _, buffer, _, rfl, hparse, h.length, ?_⟩
  rw [h.cut]
  exact { h with delimiter := rfl }

/-! ### The loop -/

/-- The file of some printed lines. -/
def printedFile (printed : List PrintedLine) : List UInt8 :=
  printed.flatMap fun line => lineText line.columns ++ [NEWLINE]

/-- What is compared with what; `last` is in the second buffer. -/
def pairsOf : (last : Seen) → List Line → List PrintedLine → List (Seen × Seen)
  | _, [], _ => []
  | last, line :: lines, [] => (line.seen, last) :: pairsOf last lines []
  | _, line :: lines, other :: printed =>
      (line.seen, other.seen) :: pairsOf other.seen lines printed

/-- How a comparison ends that starts with this number. -/
inductive Ends (numbers : Numbers) : ℕ → List (Seen × Seen) → Except Stop Bool → Prop
  | equal (n : ℕ) : Ends numbers n [] (.ok true)
  | agree {n : ℕ} {a b : Seen} {pairs : List (Seen × Seen)} {result : Except Stop Bool}
      (h : Agrees numbers a b) (hmore : Ends numbers (n + 1) pairs result) :
      Ends numbers n ((a, b) :: pairs) result
  | differ {n : ℕ} {a b : Seen} (pairs : List (Seen × Seen)) (h : ¬ Agrees numbers a b)
      (compVal1 compVal2 : List UInt8) :
      Ends numbers n ((a, b) :: pairs) (.error (.exit compVal1 compVal2 n))
  | null {n : ℕ} {a b : Seen} (pairs : List (Seen × Seen)) (ha : a.unit ≠ none)
      (hb : b.unit = none) : Ends numbers n ((a, b) :: pairs) (.error (.fault .null))

/-- The result of the loop. -/
def finished (result : Except Stop (Bool × Comparison)) : Except Stop Bool := do
  let (going, _) ← result
  if going then throw .endless else return true

variable {lines : List Line} {printed : List PrintedLine} {bare : Bool}

/-- **One line.** -/
theorem compareBody_line {file1 file2 : List UInt8} (numbers : Numbers) (hne : s.file1 ≠ [])
    (h1 : ReadsLine 3 4 a s.buffer1 s.file1 s.format1 file1)
    (h2 : ReadsLine 2 3 b s.buffer2 s.file2 s.format2 file2) :
    (∃ s', Agrees numbers a b ∧ compareBody numbers s = .ok (true, s') ∧ s'.file1 = file1 ∧
        s'.file2 = file2 ∧ s'.line = s.line + 1 ∧ Shows 3 4 a s'.buffer1 s'.format1 ∧
        Shows 2 3 b s'.buffer2 s'.format2) ∨
      (∃ compVal1 compVal2, ¬ Agrees numbers a b ∧
        compareBody numbers s = .error (.exit compVal1 compVal2 s.line)) ∨
      a.unit ≠ none ∧ b.unit = none ∧ compareBody numbers s = .error (.fault .null) := by
  obtain ⟨s', hload, hfile1, hfile2, hline, hshows1, hshows2⟩ := load_eq h1 h2
  have hdecides := decides_lines numbers hshows1 hshows2
  unfold compareBody
  rw [if_neg hne, hload]
  cases hdiffer : linesDiffer numbers s' with
  | error fault =>
    obtain ⟨rfl, ha, hb⟩ := hdecides.null fault hdiffer
    refine Or.inr (Or.inr ⟨ha, hb, ?_⟩)
    simp only [Except.mapError, bind, Except.bind, hdiffer]
  | ok difference =>
    cases difference with
    | some texts =>
      refine Or.inr (Or.inl ⟨texts.1, texts.2, fun hagrees => ?_, ?_⟩)
      · cases hdiffer.symm.trans (hdecides.same.mpr hagrees)
      · simp only [Except.mapError, bind, Except.bind, hdiffer, hline]
        rfl
    | none =>
      refine Or.inl ⟨{ s' with line := s'.line + 1 }, hdecides.same.mp hdiffer, ?_, hfile1, hfile2,
        congrArg (· + 1) hline, hshows1, hshows2⟩
      simp only [Except.mapError, bind, Except.bind, hdiffer]
      rfl

theorem dropWhile_printedFile (h : ∀ line ∈ printed, line.Sound) :
    (printedFile printed).dropWhile isspace = printedFile printed := by
  cases printed with
  | nil => rfl
  | cons line printed =>
    have hstarted := (h line List.mem_cons_self).started
    rw [printedFile, List.flatMap_cons, List.append_assoc]
    cases htext : lineText line.columns with
    | nil => simp [PrintedLine.columns, lineText_cons] at htext
    | cons char text =>
      rw [htext] at hstarted
      rw [List.cons_append, List.dropWhile_cons_of_neg (by rw [hstarted char rfl]; decide)]

/-- **The loop** goes through the first file. -/
theorem ends_run (numbers : Numbers)
    (hlines : ∀ line ∈ lines, line.Sound ∧ line.text.length < 512) :
    ∀ {printed : List PrintedLine} {s : Comparison} {last : Seen} {fuel : ℕ},
      (∀ line ∈ printed, line.Sound) → s.file1 = fileOf bare lines → s.file2 = printedFile printed →
      Ready s.buffer1 s.format1 → Ready s.buffer2 s.format2 →
      (printed = [] → Shows 2 3 last s.buffer2 s.format2) → lines.length < fuel →
      Ends numbers s.line (pairsOf last lines printed)
        (finished (Loop.run (compareBody numbers) fuel s)) := by
  induction lines with
  | nil =>
    intro printed s last fuel _ hfile1 _ _ _ _ hfuel
    obtain ⟨fuel, rfl⟩ : ∃ n, fuel = n + 1 := ⟨fuel - 1, by omega⟩
    have hstop : compareBody numbers s = .ok (false, s) := by
      rw [compareBody, if_pos (show s.file1 = [] from hfile1)]
    rw [Loop.run_of_stop hstop]
    exact .equal _
  | cons line lines ih =>
    intro printed s last fuel hprinted hfile1 hfile2 hready1 hready2 hlast hfuel
    obtain ⟨fuel, rfl⟩ : ∃ n, fuel = n + 1 := ⟨fuel - 1, by omega⟩
    rw [List.length_cons] at hfuel
    obtain ⟨hsound, hshort⟩ := hlines line List.mem_cons_self
    have hlater : ∀ next ∈ lines, next.Sound ∧ next.text.length < 512 :=
      fun next hnext => hlines next (List.mem_cons_of_mem _ hnext)
    have hne : s.file1 ≠ [] := by
      rw [hfile1, fileOf_cons]
      exact fun h => line.text_ne_nil (List.append_eq_nil_iff.mp h).1
    have hreads1 : ReadsLine 3 4 line.seen s.buffer1 s.file1 s.format1 (fileOf bare lines) := by
      have hleft := @dropWhile_fileOf bare lines fun next hnext => (hlater next hnext).1
      rw [hfile1, fileOf_cons]
      cases hbare : lines.isEmpty && bare with
      | false =>
        have hreads := reads_line hsound hshort hready1 (Or.inr rfl :
          NEWLINE :: fileOf bare lines = [] ∨ (NEWLINE :: fileOf bare lines).head? = some NEWLINE)
        rwa [List.dropWhile_cons_of_pos (by decide), hleft] at hreads
      | true =>
        simp only [Bool.and_eq_true, List.isEmpty_iff] at hbare
        rw [hbare.1]
        exact reads_line hsound hshort hready1 (Or.inl rfl)
    -- the next line of the second file, or the last one once more
    obtain ⟨other, printed', hpairs, hprinted', hreads2⟩ : ∃ other printed',
        pairsOf last (line :: lines) printed =
          (line.seen, other) :: pairsOf other lines printed' ∧
        (∀ line ∈ printed', line.Sound) ∧
        ReadsLine 2 3 other s.buffer2 s.file2 s.format2 (printedFile printed') := by
      cases printed with
      | nil =>
        refine ⟨last, [], rfl, hprinted, ?_⟩
        rw [hfile2]
        exact reads_again (hlast rfl)
      | cons next printed =>
        have hprinted' : ∀ line ∈ printed, line.Sound :=
          fun line hline => hprinted line (List.mem_cons_of_mem _ hline)
        refine ⟨next.seen, printed, rfl, hprinted', ?_⟩
        have hreads := reads_printed (hprinted next List.mem_cons_self) hready2 (Or.inr rfl :
          NEWLINE :: printedFile printed = [] ∨
            (NEWLINE :: printedFile printed).head? = some NEWLINE)
        rw [List.dropWhile_cons_of_pos (by decide), dropWhile_printedFile hprinted'] at hreads
        rw [hfile2, printedFile, List.flatMap_cons, List.append_assoc]
        exact hreads
    rw [hpairs]
    rcases compareBody_line numbers hne hreads1 hreads2 with
      ⟨s', hagrees, hbody, hfile1', hfile2', hline, hshows1, hshows2⟩ |
      ⟨compVal1, compVal2, hdiffers, hbody⟩ | ⟨ha, hb, hbody⟩
    · rw [Loop.run_of_continue hbody]
      refine .agree hagrees ?_
      rw [← hline]
      exact ih hlater hprinted' hfile1' hfile2' hshows1.ready hshows2.ready (fun _ => hshows2)
        (by omega)
    · rw [Loop.run_of_error hbody]
      exact .differ _ hdiffers _ _
    · rw [Loop.run_of_error hbody]
      exact .null _ ha hb

/-! ### The result -/

/-- The line that the line with this number is compared with. -/
def partnerOf (printed : List PrintedLine) (i : ℕ) : Option PrintedLine :=
  printed[min i (printed.length - 1)]?

theorem Ends.ok_iff {n : ℕ} {pairs : List (Seen × Seen)} {result : Except Stop Bool}
    (h : Ends numbers n pairs result) :
    result = .ok true ↔ ∀ (i : ℕ) a b, pairs[i]? = some (a, b) → Agrees numbers a b := by
  induction h with
  | equal => exact ⟨fun _ i a b h => (by cases h), fun _ => rfl⟩
  | agree hagrees _ ih =>
    refine ih.trans ⟨fun hall i a b hi => ?_, fun hall i a b hi => hall (i + 1) a b hi⟩
    cases i with
    | zero =>
      cases hi
      exact hagrees
    | succ i => exact hall i a b hi
  | differ pairs hdiffers =>
    exact ⟨fun h => (by cases h), fun hall => absurd (hall 0 _ _ rfl) hdiffers⟩
  | null pairs ha hb =>
    refine ⟨fun h => (by cases h), fun hall => absurd (hall 0 _ _ rfl).unit ?_⟩
    rw [hb]
    exact ha

/-- A comparison that stops does so at the first two lines that do not agree. -/
theorem Ends.stopped {n : ℕ} {pairs : List (Seen × Seen)} {result : Except Stop Bool} {stop : Stop}
    (h : Ends numbers n pairs result) (hstop : result = .error stop) :
    ∃ i a b, pairs[i]? = some (a, b) ∧ ¬ Agrees numbers a b ∧
      (∀ j < i, ∀ a b, pairs[j]? = some (a, b) → Agrees numbers a b) ∧
      ((∃ compVal1 compVal2, stop = .exit compVal1 compVal2 (n + i)) ∨
        stop = .fault .null ∧ a.unit ≠ none ∧ b.unit = none) := by
  induction h with
  | equal => cases hstop
  | agree hagrees _ ih =>
    obtain ⟨i, a, b, hi, hdiffers, hbefore, hresult⟩ := ih hstop
    refine ⟨i + 1, a, b, hi, hdiffers, fun j hj a b hpair => ?_, ?_⟩
    · cases j with
      | zero =>
        cases hpair
        exact hagrees
      | succ j => exact hbefore j (by omega) a b hpair
    · rwa [Nat.add_right_comm, Nat.add_assoc] at hresult
  | differ pairs hdiffers compVal1 compVal2 =>
    cases hstop
    exact ⟨0, _, _, rfl, hdiffers, fun j hj => absurd hj (Nat.not_lt_zero j),
      Or.inl ⟨compVal1, compVal2, rfl⟩⟩
  | null pairs ha hb =>
    cases hstop
    refine ⟨0, _, _, rfl, fun hagrees => ha (hagrees.unit.trans hb),
      fun j hj => absurd hj (Nat.not_lt_zero j), Or.inr ⟨rfl, ha, hb⟩⟩

theorem getElem?_pairsOf (lines : List Line) :
    ∀ (printed : List PrintedLine) (last : Seen) (i : ℕ),
      (pairsOf last lines printed)[i]? = lines[i]?.map fun line =>
        (line.seen, ((partnerOf printed i).map PrintedLine.seen).getD last) := by
  induction lines with
  | nil => exact fun _ _ _ => rfl
  | cons line lines ih =>
    intro printed last i
    cases printed with
    | nil =>
      cases i with
      | zero => rfl
      | succ i => exact ih [] last i
    | cons other printed =>
      cases i with
      | zero => rfl
      | succ i =>
        rw [pairsOf, List.getElem?_cons_succ, ih, List.getElem?_cons_succ]
        congr 1
        funext next
        congr 1
        cases printed with
        | nil => rfl
        | cons other' printed =>
          have hpartner : partnerOf (other :: other' :: printed) (i + 1) =
              partnerOf (other' :: printed) i := by
            have hindex : min (i + 1) ((other :: other' :: printed).length - 1) =
                min i ((other' :: printed).length - 1) + 1 := by
              simp only [List.length_cons]
              omega
            rw [partnerOf, hindex, List.getElem?_cons_succ, partnerOf]
          have hsome : ∃ found, partnerOf (other' :: printed) i = some found := by
            rw [partnerOf]
            exact ⟨_, List.getElem?_eq_getElem (by simp only [List.length_cons]; omega)⟩
          obtain ⟨found, hfound⟩ := hsome
          rw [hpartner, hfound]
          rfl

/-- The comparison of two files, as the loop over their lines. -/
theorem ends_compare (numbers : Numbers) (hbuffer1 : buffer1.length = 512)
    (hbuffer2 : buffer2.length = 512) {content1 content2 : List (Option ℕ)}
    (hcontent1 : content1.length = 5) (hcontent2 : content2.length = 5)
    (hlines : ∀ line ∈ lines, line.Sound ∧ line.text.length < 512)
    (hprinted : ∀ line ∈ printed, line.Sound) (hsome : lines ≠ [] → printed ≠ []) (last : Seen) :
    Ends numbers 0 (pairsOf last lines printed)
      (compareLineValues numbers buffer1 buffer2 content1 content2 (fileOf bare lines)
        (printedFile printed)) := by
  have hlength := length_fileOf bare lines
  cases lines with
  | nil => exact .equal 0
  | cons line lines =>
    exact @ends_run _ bare numbers hlines printed
      ⟨fileOf bare (line :: lines), printedFile printed, buffer1, buffer2, ⟨TAB, content1, 0⟩,
        ⟨TAB, content2, 0⟩, 0⟩ last _ hprinted rfl rfl ⟨hbuffer1, rfl, hcontent1⟩
      ⟨hbuffer2, rfl, hcontent2⟩
      (fun hnil => absurd hnil (hsome (List.cons_ne_nil _ _))) (Nat.lt_succ_of_le hlength)

theorem getElem?_pairsOf_iff (hsome : lines ≠ [] → printed ≠ []) (last : Seen) (i : ℕ)
    (a b : Seen) : (pairsOf last lines printed)[i]? = some (a, b) ↔
      ∃ line other, lines[i]? = some line ∧ partnerOf printed i = some other ∧
        a = line.seen ∧ b = other.seen := by
  rw [getElem?_pairsOf, Option.map_eq_some_iff]
  constructor
  · rintro ⟨line, hline, hpair⟩
    have hne := hsome (List.ne_nil_of_mem (List.mem_of_getElem? hline))
    have hpartner := List.getElem?_eq_getElem (l := printed) (i := min i (printed.length - 1))
      (by have := List.length_pos_iff.mpr hne; omega)
    rw [partnerOf, hpartner] at hpair
    cases hpair
    exact ⟨line, _, hline, hpartner, rfl, rfl⟩
  · rintro ⟨line, other, hline, hother, rfl, rfl⟩
    exact ⟨line, hline, by rw [hother]; rfl⟩

theorem compare_ok_iff (numbers : Numbers) (hbuffer1 : buffer1.length = 512)
    (hbuffer2 : buffer2.length = 512) {content1 content2 : List (Option ℕ)}
    (hcontent1 : content1.length = 5) (hcontent2 : content2.length = 5)
    (hlines : ∀ line ∈ lines, line.Sound ∧ line.text.length < 512)
    (hprinted : ∀ line ∈ printed, line.Sound) (hsome : lines ≠ [] → printed ≠ []) :
    compareLineValues numbers buffer1 buffer2 content1 content2 (fileOf bare lines)
        (printedFile printed) = .ok true ↔
      ∀ i line other, lines[i]? = some line → partnerOf printed i = some other →
        Agrees numbers line.seen other.seen := by
  have hends := @ends_compare buffer1 buffer2 lines printed bare numbers hbuffer1 hbuffer2 _ _
    hcontent1 hcontent2 hlines hprinted hsome ⟨[], [], none, []⟩
  have hpair := getElem?_pairsOf_iff hsome ⟨[], [], none, []⟩
  refine hends.ok_iff.trans ⟨fun hall i line other hline hother => ?_, fun hall i a b hi => ?_⟩
  · exact hall i _ _ ((hpair i _ _).mpr ⟨line, other, hline, hother, rfl, rfl⟩)
  · obtain ⟨line, other, hline, hother, rfl, rfl⟩ := (hpair i a b).mp hi
    exact hall i line other hline hother

/-- **What the comparison accepts**: every line of the first file agrees with the line of the
second file in its place, or with the last line of the second file, if there are too few.  If
it stops, it does so at the first line that does not agree. -/
theorem compareLineValues_iff (numbers : Numbers) (hbuffer1 : buffer1.length = 512)
    (hbuffer2 : buffer2.length = 512) {content1 content2 : List (Option ℕ)}
    (hcontent1 : content1.length = 5) (hcontent2 : content2.length = 5)
    (hlines : ∀ line ∈ lines, line.Sound ∧ line.text.length < 512)
    (hprinted : ∀ line ∈ printed, line.Sound) (hsome : lines ≠ [] → printed ≠ []) :
    (compareLineValues numbers buffer1 buffer2 content1 content2 (fileOf bare lines)
        (printedFile printed) = .ok true ↔
      ∀ i line other, lines[i]? = some line → partnerOf printed i = some other →
        Agrees numbers line.seen other.seen) ∧
    ∀ stop, compareLineValues numbers buffer1 buffer2 content1 content2 (fileOf bare lines)
        (printedFile printed) = .error stop →
      ∃ i line other, lines[i]? = some line ∧ partnerOf printed i = some other ∧
        ¬ Agrees numbers line.seen other.seen ∧
        (∀ j < i, ∀ line other, lines[j]? = some line → partnerOf printed j = some other →
          Agrees numbers line.seen other.seen) ∧
        ((∃ compVal1 compVal2, stop = .exit compVal1 compVal2 i) ∨
          stop = .fault .null ∧ line.unit.text ≠ [] ∧ other.unit.text = []) := by
  have hends := @ends_compare buffer1 buffer2 lines printed bare numbers hbuffer1 hbuffer2 _ _
    hcontent1 hcontent2 hlines hprinted hsome ⟨[], [], none, []⟩
  have hpair := getElem?_pairsOf_iff hsome ⟨[], [], none, []⟩
  refine ⟨compare_ok_iff numbers hbuffer1 hbuffer2 hcontent1 hcontent2 hlines hprinted hsome,
    fun stop hstop => ?_⟩
  obtain ⟨i, a, b, hi, hdiffers, hbefore, hresult⟩ := hends.stopped hstop
  obtain ⟨line, other, hline, hother, rfl, rfl⟩ := (hpair i a b).mp hi
  refine ⟨i, line, other, hline, hother, hdiffers, fun j hj line other hline hother => ?_, ?_⟩
  · exact hbefore j hj _ _ ((hpair j _ _).mpr ⟨line, other, hline, hother, rfl, rfl⟩)
  · rw [Nat.zero_add] at hresult
    rcases hresult with hexit | ⟨hnull, ha, hb⟩
    · exact Or.inl hexit
    · refine Or.inr ⟨hnull, fun hempty => ha (if_pos hempty), ?_⟩
      by_contra hne
      have hunit : other.seen.unit = some _ := if_neg hne
      rw [hunit] at hb
      cases hb

/-- `strtod` of `"1"` is 1. -/
def oneNumbers : Numbers where
  tick := sampleNumbers.tick
  strtod := fun text => if text = [0x31] then 0x3FF0000000000000 else 0

/-- The line of `emptyLine`, as it is printed for the timestamp `"1"`. -/
def printedLine : PrintedLine :=
  ⟨⟨[0x31], plain_one⟩, ⟨[0x61], plain_a⟩, ⟨[], plain_nil⟩, ⟨[], plain_nil⟩⟩

/-- The second of two lines is missing in the second file, and is not missed. -/
theorem compareLineValues_iff_missing :
    compareLineValues oneNumbers (List.replicate 512 0) (List.replicate 512 0)
      (List.replicate 5 none) (List.replicate 5 none)
      (fileOf true (List.replicate 2 (emptyLine ⟨[0x31], plain_one⟩)))
      (printedFile [printedLine]) = .ok true := by
  have hlines (line) (hline : line ∈ List.replicate 2 (emptyLine ⟨[0x31], plain_one⟩)) :
      line.Sound ∧ line.text.length < 512 := by
    rw [List.eq_of_mem_replicate hline]
    exact ⟨⟨by decide, fun char hchar => (by cases hchar; rfl), by decide⟩, by decide⟩
  have hprinted (line) (hline : line ∈ [printedLine]) : line.Sound := by
    rw [List.mem_singleton] at hline
    subst hline
    exact ⟨by decide, fun char hchar => (by cases hchar; rfl), by decide⟩
  refine (compareLineValues_iff oneNumbers List.length_replicate List.length_replicate
    List.length_replicate List.length_replicate hlines hprinted
    (fun _ => List.cons_ne_nil _ _)).1.mpr ?_
  intro i line other hline hother
  rw [partnerOf, List.length_singleton, Nat.sub_self, Nat.min_zero] at hother
  cases hother
  rw [List.eq_of_mem_replicate (List.mem_of_getElem? hline)]
  exact ⟨by decide, rfl, rfl, by decide⟩

end Otic.Tsv
