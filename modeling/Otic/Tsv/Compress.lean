import Otic.Library.Decimal
import Otic.Tsv.Chunks
import Otic.Pack.Ample
import Otic.System.SingleChannel

/-!
# Packing a file of lines (`compress` in `tsvParser.c`)

A chunk is split into lines, and every line is one inject on channel 1: the fifth column
decides which one.  Where the chunks end cannot be told from what is injected, but for one
thing: an empty value whose line has lost its newline is no null pointer, and is injected
as the integer 0.
-/

namespace Otic.Tsv

open Utility Pack

/-- What the code does that has no meaning. -/
inductive Fault where
  /-- outside of the buffer or of the slots -/
  | format (fault : FormatFault)
  /-- a null pointer is read -/
  | null
  /-- the least `int64_t` is negated -/
  | overflow
  /-- an inject on a channel that is not open -/
  | channel
deriving DecidableEq, Repr

/-! ### Numbers -/

/-- `strtod`, and the tick that an inject makes of what it returns. -/
structure Numbers where
  tick : List UInt8 → Tick
  strtod : List UInt8 → UInt64

def isNumericChar (char : UInt8) : Bool := Decimal.IsDigit char ∨ char = 46 ∨ char = 45

def isNumeric (value : List UInt8) : Bool := value.all isNumericChar

/-- The characters from the point on, as a `uint8_t` counts them. -/
def getDecPos (value : List UInt8) : UInt8 := .ofNat (value.dropWhile (· ≠ 46)).length

/-- The number that the digits in front stand for. -/
def digits (text : List UInt8) : ℕ := Decimal.value (text.takeWhile Decimal.IsDigit)

/-- `strtol` in base 10: white space, a sign, digits; numbers out of range are cut off. -/
def strtol (text : List UInt8) : ℤ :=
  match text.dropWhile isspace with
  | [] => 0
  | char :: rest =>
      if char = 45 then max (-2 ^ 63) (-digits rest)
      else if char = 43 then min (2 ^ 63 - 1) (digits rest)
      else min (2 ^ 63 - 1) (digits (char :: rest))

/-- The inject that is called for the fifth column, and the value that it gets. -/
def valueOf (numbers : Numbers) : Option CStr → Except Fault Pack.Value
  | none => .ok .null
  | some content =>
      if isNumeric content.bytes then
        if getDecPos content.bytes = 0 then
          if 0 ≤ strtol content.bytes then
            .ok (.intPos (.ofNat (strtol content.bytes).toNat))
          else if strtol content.bytes = -2 ^ 63 then .error .overflow
          else .ok (.intNeg (.ofNat (-strtol content.bytes).toNat))
        else .ok (.double (numbers.strtod content.bytes))
      else .ok (.string content)

/-! ### Lines -/

/-- The C string at a position; no object is larger than a C string may be. -/
def stringAt (memory : List UInt8) (position : ℕ) : Except Fault CStr := do
  let text ← (readString memory position).mapError .format
  if h : 0 ∉ text ∧ text.length + 1 < 2 ^ 63 then .ok ⟨text, h.1, h.2⟩
  else .error (.format .read)

/-- The C string of a slot that is read. -/
def contentAt (memory : List UInt8) : Option ℕ → Except Fault CStr
  | none => .error .null
  | some content => stringAt memory content

/-- The C string of a slot that is tested, or passed on. -/
def optionAt (memory : List UInt8) : Option ℕ → Except Fault (Option CStr)
  | none => .ok none
  | some content => some <$> stringAt memory content

/-- The arguments of the inject for the line that was parsed; `heap` is what `strcmp` may
find behind the last value of the sensor. -/
def callOf (numbers : Numbers) (chunker : Chunker) (heap : List UInt8) : Except Fault Call :=
  match chunker.format.content with
  | [timestamp, name, _, unit, value] => do
      let content ← optionAt chunker.memory value
      let value ← valueOf numbers content
      let timestamp ← contentAt chunker.memory timestamp
      let sensorName ← contentAt chunker.memory name
      let unit ← optionAt chunker.memory unit
      return ⟨numbers.tick timestamp.bytes, sensorName, unit, value, heap⟩
  | _ => .error (.format .slot)

/-! ### The loops -/

/-- The variables of `compress`; `injects` are the calls it has made, with their results. -/
structure Compress where
  inputFile : List UInt8
  formatChunker : Chunker
  oticPack : OticPack
  injects : List (Call × Bool)

/-- What `compress` comes to: the injects, whether the pack was closed, and the output. -/
structure Compressed where
  injects : List (Call × Bool)
  closed : Bool
  outputFile : List UInt8

variable (zstd : Zstd) (numbers : Numbers) (heap : List (Call × Bool) → List UInt8)

/-- One line.  The result of the inject is not looked at, only the state of the pack. -/
def lineBody (s : Compress) : Except Fault (Bool × Compress) := do
  if s.formatChunker.ptrCurrent - s.formatChunker.ptrStart < s.formatChunker.size then
    let (next, formatChunker) ← s.formatChunker.parse.mapError .format
    let call ← callOf numbers formatChunker (heap s.injects)
    match s.oticPack.step zstd ⟨.inject 1 call, []⟩ with
    | none => throw .channel
    | some (ok, oticPack) =>
        return (oticPack.parent.state ≠ .onError, { s with
          formatChunker := { formatChunker with ptrCurrent := next }
          oticPack, injects := s.injects ++ [(call, ok)] })
  else
    return (false, s)

/-- One chunk. -/
def fileBody (s : Compress) : Except Fault (Bool × Compress) := do
  if s.inputFile = [] then
    return (false, s)
  else
    let (read, memory, inputFile) ←
      (readChunk s.formatChunker.memory s.inputFile).mapError .format
    let formatChunker := { s.formatChunker with memory }.set 0 read
    let (_, s) ← Loop.run (lineBody zstd numbers heap) (read + 1)
      { s with inputFile, formatChunker }
    return (s.oticPack.parent.state ≠ .onError, s)

/-- `compress`.  `buffer` and `content` are what the buffer and the slots hold before they
are written. -/
def compress (buffer : List UInt8) (content : List (Option ℕ)) (inputFile : List UInt8) :
    Except Fault Compressed := do
  match (OticPack.init 0 []).step zstd ⟨.define OTIC_CHANNEL_TYPE_SENSOR 1 0, []⟩ with
  | none => throw .channel
  | some (false, oticPack) => return ⟨[], false, oticPack.parent.accepted⟩
  | some (true, oticPack) =>
      let (_, s) ← Loop.run (fileBody zstd numbers heap) (inputFile.length + 1)
        ⟨inputFile, ⟨⟨TAB, content, 0⟩, 0, 0, 0, buffer⟩, oticPack, []⟩
      if s.oticPack.parent.state = .onError then
        return ⟨s.injects, false, s.oticPack.parent.accepted⟩
      else
        let (closed, oticPack) := (s.oticPack.hear []).close zstd
        return ⟨s.injects, closed, oticPack.parent.accepted⟩

variable {zstd} {numbers} {heap} {line : Line} {bare : Bool} {memory : List UInt8}

/-! ### The slots of a line -/

theorem contentAt_of_holds {position : ℕ} {field : List UInt8}
    (h : Holds memory (some position) field) (hlength : field.length < 1024) :
    ∃ content, contentAt memory (some position) = .ok content ∧ content.bytes = field := by
  have hobject : 0 ∉ field ∧ field.length + 1 < 2 ^ 63 := ⟨h.1, by omega⟩
  refine ⟨⟨field, hobject.1, hobject.2⟩, ?_, rfl⟩
  rw [contentAt, stringAt, readString_of_stringAt h]
  exact dif_pos hobject

theorem optionAt_of_holds {slot : Option ℕ} {field : List UInt8} (h : Holds memory slot field)
    (hlength : field.length < 1024) :
    ∃ content, optionAt memory slot = .ok content ∧
      content.map CStr.bytes = slot.map fun _ => field := by
  cases slot with
  | none => exact ⟨none, rfl, rfl⟩
  | some position =>
    obtain ⟨content, hcontent, hbytes⟩ := contentAt_of_holds h hlength
    refine ⟨some content, ?_, congrArg some hbytes⟩
    rw [contentAt] at hcontent
    rw [optionAt, hcontent]
    rfl

theorem slots_column {column : List UInt8} (h : TAB ∉ column ∧ NEWLINE ∉ column)
    (text : List UInt8) : ∀ position, slots TAB position (column ++ TAB :: text) =
      (if text.head? = some TAB ∨ text.head? = some NEWLINE then none
        else some (position + column.length + 1)) ::
          slots TAB (position + column.length + 1) text := by
  induction column with
  | nil =>
    intro position
    rw [List.nil_append, slots, if_neg (by decide), if_pos rfl]
    rfl
  | cons char column ih =>
    intro position
    simp only [List.mem_cons, not_or] at h
    rw [List.cons_append, slots, if_neg (Ne.symm h.2.1), if_neg (Ne.symm h.1.1),
      ih ⟨h.1.2, h.2.2⟩, List.length_cons]
    have hnext : position + 1 + column.length + 1 = position + (column.length + 1) + 1 := by omega
    rw [hnext]

theorem slots_last {column : List UInt8} (h : TAB ∉ column ∧ NEWLINE ∉ column)
    {rest : List UInt8} (hrest : rest = [] ∨ rest.head? = some NEWLINE) :
    ∀ position, slots TAB position (column ++ rest) = [] := by
  induction column with
  | nil =>
    intro position
    rcases hrest with rfl | hhead
    · rfl
    · obtain ⟨more, rfl⟩ := List.head?_eq_some_iff.mp hhead
      rw [List.nil_append, slots, if_pos rfl]
  | cons char column ih =>
    intro position
    simp only [List.mem_cons, not_or] at h
    rw [List.cons_append, slots, if_neg (Ne.symm h.2.1), if_neg (Ne.symm h.1.1),
      ih ⟨h.1.2, h.2.2⟩]

theorem Column.free (column : Column) : TAB ∉ column.text ∧ NEWLINE ∉ column.text :=
  ⟨fun hmem => (column.plain TAB hmem).2.1 rfl, fun hmem => (column.plain NEWLINE hmem).2.2 rfl⟩

/-- What is behind a line in its chunk. -/
theorem head_chunkOf {lines : List (Line × Bool)} (h : bare = true → lines = []) :
    (if bare then [] else [NEWLINE]) ++ chunkOf lines = [] ∧ bare = true ∨
      ∃ rest, (if bare then [] else [NEWLINE]) ++ chunkOf lines = NEWLINE :: rest ∧
        bare = false := by
  cases bare with
  | true => exact Or.inl ⟨by rw [h rfl]; rfl, rfl⟩
  | false => exact Or.inr ⟨_, rfl, rfl⟩

/-- A slot is null if the column is empty and the end of the next one follows at once. -/
theorem head_column (column : Column) (rest : List UInt8) :
    ((column.text ++ rest).head? = some TAB ∨ (column.text ++ rest).head? = some NEWLINE) ↔
      column.text = [] ∧ (rest.head? = some TAB ∨ rest.head? = some NEWLINE) := by
  cases htext : column.text with
  | nil => simp
  | cons char text =>
    have hplain := column.plain char (by rw [htext]; exact List.mem_cons_self)
    simp [hplain.2.1, hplain.2.2]

/-- **The slots of a line.**  The name is not null, a unit is null if it is empty, and an
empty value is null if the newline is behind it. -/
theorem slots_line {lines : List (Line × Bool)} (hsound : line.Sound)
    (h : bare = true → lines = []) (position : ℕ) :
    ∃ name skipped unit value, slots TAB position (chunkOf ((line, bare) :: lines)) =
        [some name, skipped, unit, value] ∧ (unit = none ↔ line.unit.text = []) ∧
      (value = none ↔ line.value.text = [] ∧ bare = false) := by
  have htail := head_chunkOf h
  simp only [chunkOf]
  generalize (if bare then [] else [NEWLINE]) ++ chunkOf lines = tail at htail ⊢
  have hends : tail = [] ∨ tail.head? = some NEWLINE := by
    rcases htail with ⟨hnil, -⟩ | ⟨rest, hrest, -⟩
    · exact Or.inl hnil
    · exact Or.inr (by rw [hrest]; rfl)
  have hnewline : tail.head? = some TAB ∨ tail.head? = some NEWLINE ↔ bare = false := by
    rcases htail with ⟨rfl, rfl⟩ | ⟨rest, rfl, rfl⟩
    · simp
    · simp
  have htab (rest : List UInt8) : (TAB :: rest).head? = some TAB ∨
      (TAB :: rest).head? = some NEWLINE := Or.inl rfl
  simp only [Line.text, List.append_assoc, List.cons_append]
  rw [slots_column line.timestamp.free, slots_column line.name.free,
    slots_column line.skipped.free, slots_column line.unit.free,
    slots_last line.value.free hends]
  simp only [head_column, htab, hnewline, and_true]
  rw [if_neg hsound.named]
  exact ⟨_, _, _, _, rfl, by simp, by simp⟩

/-! ### One line -/

theorem lineOf_chunkOf {lines : List (Line × Bool)} (h : bare = true → lines = []) :
    lineOf (chunkOf ((line, bare) :: lines)) = line.text := by
  rw [chunkOf]
  rcases head_chunkOf h with ⟨htail, -⟩ | ⟨rest, htail, -⟩
  · rw [htail, List.append_nil, lineOf_of_notMem line.plain.2]
  · rw [htail, lineOf_append_newline line.plain.2]

theorem fieldsOf_chunkOf {lines : List (Line × Bool)} (h : bare = true → lines = []) :
    fieldsOf TAB (chunkOf ((line, bare) :: lines)) =
      [line.timestamp.text, line.name.text, line.skipped.text, line.unit.text,
        line.value.text] := by
  have hsplit (column : Column) (rest : List UInt8) :
      (column.text ++ TAB :: rest).splitOn TAB = column.text :: rest.splitOn TAB := by
    rw [List.splitOn_append_cons_of_beq _ _ (beq_self_eq_true TAB),
      List.splitOn_eq_singleton column.free.1]
    rfl
  rw [fieldsOf, lineOf_chunkOf h, Line.text, hsplit, hsplit, hsplit, hsplit,
    List.splitOn_eq_singleton line.value.free.1]

theorem zero_notMem_chunkOf (lines : List (Line × Bool)) : 0 ∉ chunkOf lines := by
  induction lines with
  | nil => exact List.not_mem_nil
  | cons marked lines ih =>
    obtain ⟨line, bare⟩ := marked
    have hnewline : (0 : UInt8) ∉ (if bare then [] else [NEWLINE]) := by
      cases bare
      · decide
      · decide
    simp only [chunkOf, List.mem_append, not_or]
    exact ⟨line.plain.1, hnewline, ih⟩

/-- What an inject is called with for a line; `bare` says that the newline is not behind
it. -/
structure Injected (numbers : Numbers) (marked : Line × Bool) (c : Call) : Prop where
  tick : c.tick = numbers.tick marked.1.timestamp.text
  sensorName : c.sensorName.bytes = marked.1.name.text
  unit : c.unitStr.bytes = marked.1.unit.text
  value : ∃ content : Option CStr,
    content.map CStr.bytes = (if marked.1.value.text = [] ∧ marked.2 = false then none
      else some marked.1.value.text) ∧ valueOf numbers content = .ok c.value

/-- Every value has its inject, but for the least integer. -/
theorem valueOf_ok (numbers : Numbers) {content : Option CStr}
    (h : ∀ str, content = some str → isNumeric str.bytes = true → getDecPos str.bytes = 0 →
      strtol str.bytes ≠ -2 ^ 63) : ∃ value, valueOf numbers content = .ok value := by
  cases content with
  | none => exact ⟨.null, rfl⟩
  | some str =>
    unfold valueOf
    dsimp only
    split
    · rename_i hnumeric
      split
      · rename_i hpoint
        split
        · exact ⟨_, rfl⟩
        · rw [if_neg (h str rfl hnumeric hpoint)]
          exact ⟨_, rfl⟩
      · exact ⟨_, rfl⟩
    · exact ⟨_, rfl⟩

theorem callOf_line {chunker : Chunker} {timestamp name : ℕ} {skipped unit value : Option ℕ}
    (hcontent : chunker.format.content = [some timestamp, some name, skipped, unit, value])
    (hheld : List.Forall₂ (Holds chunker.memory) chunker.format.content
      [line.timestamp.text, line.name.text, line.skipped.text, line.unit.text, line.value.text])
    (hunit : unit = none ↔ line.unit.text = [])
    (hvalue : value = none ↔ line.value.text = [] ∧ bare = false) (hsound : line.Sound)
    (hleast : isNumeric line.value.text = true → getDecPos line.value.text = 0 →
      strtol line.value.text ≠ -2 ^ 63) (heap : List UInt8) :
    ∃ c, callOf numbers chunker heap = .ok c ∧ Injected numbers (line, bare) c ∧
      c.heap = heap := by
  have hshort := hsound.short
  simp only [Line.text, List.length_append, List.length_cons] at hshort
  rw [hcontent] at hheld
  simp only [List.forall₂_cons, List.forall₂_nil_left_iff, and_true] at hheld
  obtain ⟨htimestamp, hname, -, hunits, hvalues⟩ := hheld
  obtain ⟨tick, htick, htickBytes⟩ := contentAt_of_holds htimestamp (by omega)
  obtain ⟨sensorName, hsensorName, hnameBytes⟩ := contentAt_of_holds hname (by omega)
  obtain ⟨unitStr, hunitStr, hunitBytes⟩ := optionAt_of_holds hunits (by omega)
  obtain ⟨content, hcontentStr, hcontentBytes⟩ := optionAt_of_holds hvalues (by omega)
  obtain ⟨v, hv⟩ := @valueOf_ok numbers content (by
    rintro str rfl
    obtain ⟨position, rfl⟩ : ∃ position, value = some position := by
      cases value with
      | none => cases hcontentBytes
      | some position => exact ⟨position, rfl⟩
    rw [Option.some.inj hcontentBytes]
    exact hleast)
  refine ⟨⟨numbers.tick tick.bytes, sensorName, unitStr, v, heap⟩, ?_,
    ⟨?_, hnameBytes, ?_, content, ?_, hv⟩, rfl⟩
  · simp only [callOf, hcontent, hcontentStr, hv, htick, hsensorName, hunitStr, bind, Except.bind,
      pure, Except.pure]
  · rw [htickBytes]
  · cases unit with
    | none =>
      rw [hunit.mp rfl, Call.unitStr, Option.map_eq_none_iff.mp hunitBytes]
      rfl
    | some position =>
      obtain ⟨str, rfl, hstr⟩ := Option.map_eq_some_iff.mp hunitBytes
      exact hstr
  · rw [hcontentBytes]
    cases value with
    | none => rw [if_pos (hvalue.mp rfl), Option.map_none]
    | some position =>
      rw [if_neg fun h => Option.some_ne_none position (hvalue.mpr h), Option.map_some]

/-! ### Where the loop stands -/

/-- The chunker before the rest of a chunk: the text is in the buffer, or there is none and
the loop ends. -/
structure BeforeChunk (lines : List (Line × Bool)) (c : Chunker) : Prop where
  delimiter : c.format.delimiter = TAB
  columns : c.format.content.length = 5
  buffer : c.memory.length = READ_BUFFERSIZE
  start : c.ptrStart = 0
  size : lines = [] → c.size ≤ c.ptrCurrent
  text : lines ≠ [] → c.ptrCurrent + (chunkOf lines).length = c.size ∧ ∃ done behind,
    c.memory = done ++ (chunkOf lines ++ 0 :: behind) ∧ done.length = c.ptrCurrent

/-- **One line** is parsed: its slots, and where the chunker stands then. -/
theorem parse_line {lines : List (Line × Bool)} {c : Chunker} (hsound : line.Sound)
    (hends : bare = true → lines = []) (h : BeforeChunk ((line, bare) :: lines) c) :
    ∃ next c', c.parse = .ok (next, c') ∧ BeforeChunk lines { c' with ptrCurrent := next } ∧
      c.ptrCurrent < c.size ∧ ∃ timestamp name skipped unit value,
        c'.format.content = [some timestamp, some name, skipped, unit, value] ∧
        List.Forall₂ (Holds c'.memory) c'.format.content
          [line.timestamp.text, line.name.text, line.skipped.text, line.unit.text,
            line.value.text] ∧
        (unit = none ↔ line.unit.text = []) ∧
        (value = none ↔ line.value.text = [] ∧ bare = false) := by
  obtain ⟨hposition, done, behind, hmemory, hdone⟩ := h.text (List.cons_ne_nil _ _)
  have hdelimiter := h.delimiter
  have hcolumns := h.columns
  have hbuffer := h.buffer
  have hfields := @fieldsOf_chunkOf line bare lines hends
  have hzero := zero_notMem_chunkOf ((line, bare) :: lines)
  have hparse := parse_eq c.format done (chunkOf ((line, bare) :: lines)) behind hzero
    (by rw [hdelimiter, hfields, Format.size, hcolumns]; exact le_refl _)
  have hheld := holds_parsed TAB done (chunkOf ((line, bare) :: lines)) behind hzero
  obtain ⟨name, skipped, unit, value, hslots, hunit, hvalue⟩ := slots_line hsound hends done.length
  rw [hdelimiter, hfields, hslots, lineOf_chunkOf hends, ← hmemory, hdone] at hparse
  rw [hfields, hslots] at hheld
  have hnone : c.format.content.drop 5 = [] := List.drop_of_length_le (by omega)
  have hparsed : c.parse = .ok (c.ptrCurrent + line.text.length + 1,
      { c with
        memory := done ++ scanned TAB (chunkOf ((line, bare) :: lines)) behind
        format := { c.format with
          content := [some done.length, some name, skipped, unit, value]
          parsed := 5 } }) := by
    simp only [List.length_cons, List.length_nil, Nat.zero_add, hnone, List.append_nil] at hparse
    simp only [Chunker.parse, hparse, hdelimiter, hdone, bind, Except.bind, pure, Except.pure]
  rw [hmemory, List.length_append, List.length_append, List.length_cons] at hbuffer
  refine ⟨_, _, hparsed, ⟨hdelimiter, rfl, ?_, h.start, ?_, ?_⟩, ?_, done.length, name, skipped,
    unit, value, rfl, hheld, hunit, hvalue⟩
  · dsimp only
    rw [List.length_append, length_scanned]
    omega
  · rintro rfl
    dsimp only
    have hlength : (if bare then [] else [NEWLINE]).length ≤ 1 := by cases bare <;> decide
    simp only [chunkOf, List.append_nil, List.length_append] at hposition
    omega
  · intro hne
    have hbare : bare = false := Bool.eq_false_iff.mpr fun hbare => hne (hends hbare)
    subst hbare
    have hchunk : chunkOf ((line, false) :: lines) = line.text ++ NEWLINE :: chunkOf lines := rfl
    obtain ⟨passed, hlength, hpassed⟩ :=
      @length_scanned_line TAB line.text line.plain.2 (chunkOf lines) behind
    rw [hchunk, List.length_append, List.length_cons] at hposition
    refine ⟨by dsimp only; omega, done ++ passed, behind, ?_, ?_⟩
    · dsimp only
      rw [hchunk, hpassed, List.append_assoc]
    · dsimp only
      rw [List.length_append, hdone, hlength]
      omega
  · have hne := List.length_pos_iff.mpr line.text_ne_nil
    rw [chunkOf, List.length_append] at hposition
    omega

/-! ### The pack -/

/-- The pack while `compress` runs: channel 1 is open, and nothing has failed. -/
structure Running (zstd : Zstd) (pack : OticPack) : Prop where
  keeps : ∃ calls events, Keeps zstd 0 pack calls events
  spacious : pack.Spacious
  opened : 1 ∈ pack.ids
  state : pack.parent.state = .opened

/-- **An inject**, whatever its result, leaves the pack as it should be, if its blocks are
compressed: the flusher takes everything, and the errors of a channel are not those of the
pack. -/
theorem Running.inject (hlossless : zstd.Lossless) {pack : OticPack} (h : Running zstd pack)
    {c : Call} (hpacked : Step.Packed zstd pack ⟨.inject 1 c, []⟩) :
    ∃ ok pack', pack.step zstd ⟨.inject 1 c, []⟩ = some (ok, pack') ∧ Running zstd pack' := by
  obtain ⟨calls, events, hk⟩ := h.keeps
  have hwilling : Willing [] := fun _ h => by cases h
  obtain ⟨⟨ok, pack'⟩, hstep⟩ : ∃ out, pack.step zstd ⟨.inject 1 c, []⟩ = some out := by
    apply Option.isSome_iff_exists.mp
    rw [step_isSome]
    intro id hid
    cases hid
    exact h.opened
  have hids : 1 ∈ pack'.ids := by
    rw [step_ids hstep]
    exact h.opened
  have hspacious := hk.spacious_step hlossless h.spacious hstep trivial hwilling hpacked
  refine ⟨ok, pack', hstep, ?_, hspacious, hids, ?_⟩
  · obtain ⟨events', hk', -⟩ := hk.step hlossless hstep
      (Step.careful_of_packed hpacked hwilling ok) hspacious.inside
    exact ⟨_, _, hk'⟩
  · obtain ⟨handle, hhandle, hcall⟩ := Option.map_eq_some_iff.mp hstep
    obtain ⟨rfl, rfl⟩ := Prod.mk.inj hcall
    have hk' := hk.hear []
    obtain ⟨hparent, hmem, hid⟩ := handle_eq_some hhandle
    have hanswers : Willing handle.parent.answers := by
      rw [hparent]
      exact hwilling
    obtain ⟨out, -, -, -, hon⟩ := @onwards_inject zstd c handle
    have hover := inside_update hmem (congrArg Shape.channelId hon.shape) hspacious.inside
    obtain ⟨events', -, hstate⟩ := hk'.inject hlossless hhandle hanswers.neverTorn c rfl
      (Or.inl ⟨hanswers, hpacked handle hhandle⟩) hover
    have hsame := hstate hanswers (hpacked handle hhandle)
    rw [hparent] at hsame
    exact hsame.trans h.state

/-! ### The loops -/

variable {s s' s'' : Compress} {lines lines' : List (Line × Bool)}

/-- From one state of `compress` to another, one inject for every line. -/
def Injects (zstd : Zstd) (numbers : Numbers) (heap : List (Call × Bool) → List UInt8)
    (lines : List (Line × Bool)) (s s' : Compress) : Prop :=
  ∃ calls oks, List.Forall₂ (Injected numbers) lines calls ∧
    (∀ c ∈ calls, ∃ before, c.heap = heap before) ∧ oks.length = calls.length ∧
    s.oticPack.run zstd (calls.map fun c => ⟨.inject 1 c, []⟩) = some (oks, s'.oticPack) ∧
    s'.injects = s.injects ++ calls.zip oks

theorem run_append {steps steps' : List Pack.Step} {oks oks' : List Bool}
    {pack' pack'' : OticPack} :
    ∀ {pack : OticPack}, pack.run zstd steps = some (oks, pack') →
      pack'.run zstd steps' = some (oks', pack'') →
        pack.run zstd (steps ++ steps') = some (oks ++ oks', pack'') := by
  induction steps generalizing oks with
  | nil =>
    intro pack hrun hrun'
    cases hrun
    exact hrun'
  | cons step steps ih =>
    intro pack hrun hrun'
    simp only [OticPack.run, Option.bind_eq_bind, Option.bind_eq_some_iff, Option.some.injEq,
      Prod.mk.injEq, Prod.exists] at hrun
    obtain ⟨ok, pack₁, hstep, oks₁, pack₂, hrest, rfl, rfl⟩ := hrun
    simp only [List.cons_append, OticPack.run, hstep, ih hrest hrun', Option.bind_eq_bind,
      Option.bind_some]

theorem Injects.refl (s : Compress) : Injects zstd numbers heap [] s s :=
  ⟨[], [], .nil, fun _ hc => absurd hc List.not_mem_nil, rfl, rfl, (List.append_nil _).symm⟩

theorem Injects.append (h : Injects zstd numbers heap lines s s')
    (h' : Injects zstd numbers heap lines' s' s'') :
    Injects zstd numbers heap (lines ++ lines') s s'' := by
  obtain ⟨calls, oks, hcalls, hheap, hlength, hrun, hinjects⟩ := h
  obtain ⟨calls', oks', hcalls', hheap', hlength', hrun', hinjects'⟩ := h'
  refine ⟨calls ++ calls', oks ++ oks', List.rel_append hcalls hcalls', ?_, ?_, ?_, ?_⟩
  · intro c hc
    exact (List.mem_append.mp hc).elim (hheap c) (hheap' c)
  · rw [List.length_append, List.length_append, hlength, hlength']
  · rw [List.map_append]
    exact run_append hrun hrun'
  · rw [hinjects', hinjects, List.append_assoc, List.zip_append hlength.symm]

/-- The lines that have an inject. -/
def Injectable (line : Line) : Prop :=
  line.Sound ∧ (isNumeric line.value.text = true → getDecPos line.value.text = 0 →
    strtol line.value.text ≠ -2 ^ 63)

/-- The inject of a line exists. -/
theorem exists_injected (hline : Injectable line) (bare : Bool) (heap : List UInt8) :
    ∃ c, Injected numbers (line, bare) c ∧ c.heap = heap := by
  have hshort := hline.1.short
  simp only [Line.text, List.length_append, List.length_cons] at hshort
  have hfree (column : Column) : 0 ∉ column.text := fun hmem => (column.plain 0 hmem).1 rfl
  let content : Option CStr :=
    if line.value.text = [] ∧ bare = false then none
    else some ⟨line.value.text, hfree line.value, by omega⟩
  have hcontent : content.map CStr.bytes =
      if line.value.text = [] ∧ bare = false then none else some line.value.text := by
    simp only [content]
    split
    · rfl
    · rfl
  obtain ⟨value, hvalue⟩ := @valueOf_ok numbers content (by
    intro str hstr
    simp only [content] at hstr
    split at hstr
    · cases hstr
    · cases hstr
      exact hline.2)
  exact ⟨⟨numbers.tick line.timestamp.text, ⟨line.name.text, hfree line.name, by omega⟩,
    some ⟨line.unit.text, hfree line.unit, by omega⟩, value, heap⟩,
    ⟨rfl, rfl, rfl, content, hcontent, hvalue⟩, rfl⟩

theorem exists_injects {lines : List (Line × Bool)} (hlines : ∀ marked ∈ lines, Injectable marked.1)
    (heap : List (Call × Bool) → List UInt8) :
    ∃ calls, List.Forall₂ (Injected numbers) lines calls ∧
      ∀ c ∈ calls, ∃ before, c.heap = heap before := by
  induction lines with
  | nil => exact ⟨[], .nil, fun _ hc => absurd hc List.not_mem_nil⟩
  | cons marked lines ih =>
    obtain ⟨calls, hcalls, hheap⟩ := ih fun m hm => hlines m (List.mem_cons_of_mem _ hm)
    obtain ⟨c, hc, hcheap⟩ := @exists_injected numbers marked.1
      (hlines marked List.mem_cons_self) marked.2 (heap [])
    refine ⟨c :: calls, .cons hc hcalls, fun d hd => ?_⟩
    rcases List.mem_cons.mp hd with rfl | hd
    · exact ⟨[], hcheap⟩
    · exact hheap d hd

/-- Whatever the injects of some lines are, their blocks will be compressed. -/
def Ahead (zstd : Zstd) (numbers : Numbers) (heap : List (Call × Bool) → List UInt8)
    (lines : List (Line × Bool)) (pack : OticPack) : Prop :=
  (∀ marked ∈ lines, Injectable marked.1) ∧
    ∀ calls, List.Forall₂ (Injected numbers) lines calls →
      (∀ c ∈ calls, ∃ before, c.heap = heap before) →
        PackedRun zstd pack (calls.map fun c => ⟨.inject 1 c, []⟩)

theorem Ahead.inject {marked : Line × Bool} {pack : OticPack} {c : Call}
    (h : Ahead zstd numbers heap (marked :: lines) pack) (hc : Injected numbers marked c)
    (hheap : ∃ before, c.heap = heap before) :
    Step.Packed zstd pack ⟨.inject 1 c, []⟩ ∧
      ∀ out ∈ pack.step zstd ⟨.inject 1 c, []⟩, Ahead zstd numbers heap lines out.2 := by
  have hlines : ∀ m ∈ lines, Injectable m.1 := fun m hm => h.1 m (List.mem_cons_of_mem _ hm)
  have hboth : ∀ calls, List.Forall₂ (Injected numbers) lines calls →
      (∀ d ∈ calls, ∃ before, d.heap = heap before) →
        PackedRun zstd pack ((c :: calls).map fun d => ⟨.inject 1 d, []⟩) := by
    intro calls hcalls hheaps
    refine h.2 _ (.cons hc hcalls) fun d hd => ?_
    rcases List.mem_cons.mp hd with rfl | hd
    · exact hheap
    · exact hheaps d hd
  obtain ⟨calls, hcalls, hheaps⟩ := @exists_injects numbers _ hlines heap
  exact ⟨(hboth calls hcalls hheaps).1, fun out hout =>
    ⟨hlines, fun calls hcalls hheaps => (hboth calls hcalls hheaps).2 out hout⟩⟩

/-- One round of the inner loop. -/
theorem lineBody_line (hlossless : zstd.Lossless) {rest : List (Line × Bool)}
    (hends : bare = true → lines = [])
    (hbefore : BeforeChunk ((line, bare) :: lines) s.formatChunker)
    (hahead : Ahead zstd numbers heap ((line, bare) :: rest) s.oticPack)
    (hrunning : Running zstd s.oticPack) :
    ∃ s', lineBody zstd numbers heap s = .ok (true, s') ∧
      Injects zstd numbers heap [(line, bare)] s s' ∧ s'.inputFile = s.inputFile ∧
      BeforeChunk lines s'.formatChunker ∧ Ahead zstd numbers heap rest s'.oticPack ∧
      Running zstd s'.oticPack := by
  have hline : Injectable line := hahead.1 _ List.mem_cons_self
  obtain ⟨next, chunker, hparse, hnext, hlt, timestamp, name, skipped, unit, value, hcontent,
    hheld, hunit, hvalue⟩ := parse_line hline.1 hends hbefore
  obtain ⟨c, hc, hinjected, hheap⟩ := @callOf_line numbers line bare chunker timestamp name
    skipped unit value hcontent hheld hunit hvalue hline.1 hline.2 (heap s.injects)
  obtain ⟨hpacked, hlater⟩ := hahead.inject hinjected ⟨_, hheap⟩
  obtain ⟨ok, pack, hstep, hrunning'⟩ := hrunning.inject hlossless hpacked
  refine ⟨⟨s.inputFile, { chunker with ptrCurrent := next }, pack, s.injects ++ [(c, ok)]⟩, ?_,
    ⟨[c], [ok], .cons hinjected .nil, ?_, rfl, ?_, rfl⟩, rfl, hnext, hlater _ hstep, hrunning'⟩
  · unfold lineBody
    rw [if_pos (by rw [hbefore.start]; exact hlt)]
    simp only [hparse, hc, hstep, Except.mapError, bind, Except.bind, pure, Except.pure,
      hrunning'.state]
    rfl
  · intro d hd
    rw [List.mem_singleton.mp hd]
    exact ⟨_, hheap⟩
  · simp only [List.map_cons, List.map_nil, OticPack.run, hstep, Option.bind_eq_bind,
      Option.bind_some]

/-- **The lines of a chunk**, by induction. -/
theorem lines_run (hlossless : zstd.Lossless) (later : List (Line × Bool)) :
    ∀ {s : Compress} {fuel : ℕ}, EndsOnly lines → BeforeChunk lines s.formatChunker →
      Ahead zstd numbers heap (lines ++ later) s.oticPack → Running zstd s.oticPack →
      lines.length < fuel →
      ∃ s', Loop.run (lineBody zstd numbers heap) fuel s = .ok (false, s') ∧
        Injects zstd numbers heap lines s s' ∧ s'.inputFile = s.inputFile ∧
        BeforeChunk [] s'.formatChunker ∧ Ahead zstd numbers heap later s'.oticPack ∧
        Running zstd s'.oticPack := by
  induction lines with
  | nil =>
    intro s fuel _ hbefore hahead hrunning hfuel
    obtain ⟨fuel, rfl⟩ : ∃ k, fuel = k + 1 := ⟨fuel - 1, by omega⟩
    refine ⟨s, Loop.run_of_stop ?_ fuel, .refl s, rfl, hbefore, hahead, hrunning⟩
    unfold lineBody
    rw [if_neg (by rw [hbefore.start]; exact Nat.not_lt.mpr (hbefore.size rfl))]
    rfl
  | cons marked lines ih =>
    intro s fuel hends hbefore hahead hrunning hfuel
    obtain ⟨fuel, rfl⟩ : ∃ k, fuel = k + 1 := ⟨fuel - 1, by omega⟩
    obtain ⟨line, bare⟩ := marked
    obtain ⟨s₁, hbody, hinjects, hfile, hbefore₁, hahead₁, hrunning₁⟩ :=
      lineBody_line hlossless hends.1 hbefore hahead hrunning
    obtain ⟨s', hrun, hinjects', hfile', hbefore', hahead', hrunning'⟩ :=
      ih hends.2 hbefore₁ hahead₁ hrunning₁ (by simpa using hfuel)
    exact ⟨s', by rw [Loop.run_of_continue hbody]; exact hrun, hinjects.append hinjects',
      hfile'.trans hfile, hbefore', hahead', hrunning'⟩

/-- One round of the outer loop. -/
theorem fileBody_chunk (hlossless : zstd.Lossless) {lines : List Line}
    (hne : lines ≠ []) (hlines : ∀ line ∈ lines, Injectable line)
    (hfile : s.inputFile = fileOf bare lines) (hbefore : BeforeChunk [] s.formatChunker)
    {rest : List (Line × Bool)}
    (hahead : Ahead zstd numbers heap
      ((nextChunk bare (READ_BUFFERSIZE - 1024) lines).1 ++ rest) s.oticPack)
    (hrunning : Running zstd s.oticPack) :
    ∃ s', fileBody zstd numbers heap s = .ok (true, s') ∧
      Injects zstd numbers heap (nextChunk bare (READ_BUFFERSIZE - 1024) lines).1 s s' ∧
      s'.inputFile = fileOf bare (nextChunk bare (READ_BUFFERSIZE - 1024) lines).2 ∧
      BeforeChunk [] s'.formatChunker ∧ Ahead zstd numbers heap rest s'.oticPack ∧
      Running zstd s'.oticPack := by
  have hopen : fileOf bare lines ≠ [] := by
    intro hnil
    have hlength := length_fileOf bare lines
    rw [hnil, List.length_nil, Nat.le_zero, List.length_eq_zero_iff] at hlength
    exact hne hlength
  obtain ⟨behind, hread, hbuffer⟩ :=
    readChunk_eq hbefore.buffer (fun line hline => (hlines line hline).1) bare
  have hends := endsOnly_nextChunk bare lines (READ_BUFFERSIZE - 1024)
  have hchunkNe : (nextChunk bare (READ_BUFFERSIZE - 1024) lines).1 ≠ [] := by
    obtain ⟨line, more, rfl⟩ := List.exists_cons_of_ne_nil hne
    exact nextChunk_ne_nil bare _ line more
  generalize (nextChunk bare (READ_BUFFERSIZE - 1024) lines).1 = chunk at *
  generalize (nextChunk bare (READ_BUFFERSIZE - 1024) lines).2 = later at *
  have hchunk : BeforeChunk chunk ⟨s.formatChunker.format, 0, 0, (chunkOf chunk).length,
      chunkOf chunk ++ 0 :: behind⟩ :=
    ⟨hbefore.delimiter, hbefore.columns, hbuffer, rfl, fun hnil => absurd hnil hchunkNe,
      fun _ => ⟨Nat.zero_add _, [], behind, rfl, rfl⟩⟩
  obtain ⟨s', hrun, hinjects, hfile', hbefore', hahead', hrunning'⟩ := @lines_run zstd numbers heap
    chunk hlossless rest ⟨fileOf bare later, _, s.oticPack, s.injects⟩ ((chunkOf chunk).length + 1)
    hends hchunk hahead hrunning (Nat.lt_succ_of_le (length_chunkOf chunk))
  refine ⟨s', ?_, hinjects, hfile', hbefore', hahead', hrunning'⟩
  unfold fileBody
  rw [hfile, if_neg hopen]
  simp only [hread, hrun, Chunker.set, Except.mapError, bind, Except.bind, pure, Except.pure,
    hrunning'.state]
  rfl

/-- **The chunks of a file**, by induction on the lines that are left. -/
theorem file_run (hlossless : zstd.Lossless) (bare : Bool) (n : ℕ) :
    ∀ {lines : List Line} {s : Compress} {fuel : ℕ}, lines.length = n →
      (∀ line ∈ lines, Injectable line) → s.inputFile = fileOf bare lines →
      BeforeChunk [] s.formatChunker →
      Ahead zstd numbers heap (cutLines bare (READ_BUFFERSIZE - 1024) lines) s.oticPack →
      Running zstd s.oticPack → n < fuel →
      ∃ s', Loop.run (fileBody zstd numbers heap) fuel s = .ok (false, s') ∧
        Injects zstd numbers heap (cutLines bare (READ_BUFFERSIZE - 1024) lines) s s' ∧
        Running zstd s'.oticPack := by
  induction n using Nat.strong_induction_on with
  | h n ih =>
    intro lines s fuel hn hlines hfile hbefore hahead hrunning hfuel
    obtain ⟨fuel, rfl⟩ : ∃ k, fuel = k + 1 := ⟨fuel - 1, by omega⟩
    by_cases hne : lines = []
    · subst hne
      refine ⟨s, Loop.run_of_stop ?_ fuel, .refl s, hrunning⟩
      rw [fileOf] at hfile
      unfold fileBody
      rw [if_pos hfile]
      rfl
    · rw [cutLines_eq] at hahead ⊢
      obtain ⟨s₁, hbody, hinjects, hfile₁, hbefore₁, hahead₁, hrunning₁⟩ :=
        fileBody_chunk hlossless hne hlines hfile hbefore hahead hrunning
      have hshorter : (nextChunk bare (READ_BUFFERSIZE - 1024) lines).2.length < n := by
        obtain ⟨line, more, rfl⟩ := List.exists_cons_of_ne_nil hne
        have hchunk := List.length_pos_iff.mpr
          (nextChunk_ne_nil bare (READ_BUFFERSIZE - 1024) line more)
        have hlength := congrArg List.length
          (nextChunk_append bare (line :: more) (READ_BUFFERSIZE - 1024))
        rw [List.length_append, List.length_map] at hlength
        omega
      obtain ⟨s', hrun, hinjects', hrunning'⟩ := @ih _ hshorter _ s₁ fuel rfl
        (fun next hnext => hlines next (mem_of_mem_later hnext)) hfile₁ hbefore₁ hahead₁ hrunning₁
        (by omega)
      exact ⟨s', by rw [Loop.run_of_continue hbody]; exact hrun, hinjects.append hinjects',
        hrunning'⟩

/-! ### The file -/

/-- After the definition of the channel. -/
theorem running_defined (hlossless : zstd.Lossless) :
    (OticPack.init 0 []).step zstd ⟨.define OTIC_CHANNEL_TYPE_SENSOR 1 0, []⟩ =
        some (true, defined 0 OTIC_CHANNEL_TYPE_SENSOR 1 0) ∧
      Running zstd (defined 0 OTIC_CHANNEL_TYPE_SENSOR 1 0) := by
  obtain ⟨hdefine, hchannels⟩ :=
    @defineChannel_defined 0 OTIC_CHANNEL_TYPE_SENSOR 1 0 (by decide)
  have hwilling : Willing [] := fun _ h => by cases h
  have hinit := keeps_init zstd 0 hwilling
  have hstep : (OticPack.init 0 []).step zstd ⟨.define OTIC_CHANNEL_TYPE_SENSOR 1 0, []⟩ =
      some (true, defined 0 OTIC_CHANNEL_TYPE_SENSOR 1 0) := by
    simp only [OticPack.step, hdefine]
  have hspacious := hinit.spacious_step hlossless ⟨rfl, fun ch hch => by cases hch⟩ hstep
    (by decide) hwilling trivial
  obtain ⟨events, hk, hstate⟩ := hinit.step hlossless hstep hwilling hspacious.inside
  refine ⟨hstep, ⟨_, _, hk⟩, hspacious, ?_, (hstate hwilling trivial).1 rfl⟩
  simp [OticPack.ids, hchannels, Pack.Channel.init]

/-- The lines of a file, without where they are cut. -/
theorem cutLines_fst (bare : Bool) (lines : List Line) : ∀ room : ℕ,
    (cutLines bare room lines).map Prod.fst = lines := by
  induction lines with
  | nil => exact fun _ => rfl
  | cons line lines ih =>
    intro room
    rw [cutLines]
    split
    · exact congrArg (List.cons line) (ih _)
    · exact congrArg (List.cons line) (ih _)

theorem mem_of_mem_cutLines {room : ℕ} {lines : List Line} {marked : Line × Bool}
    (h : marked ∈ cutLines bare room lines) : marked.1 ∈ lines := by
  rw [← cutLines_fst bare lines room]
  exact List.mem_map_of_mem h

/-- A value that is not empty is injected wherever its line is cut. -/
theorem Injected.uncut {marked : Line × Bool} {c : Call} (h : Injected numbers marked c)
    (hvalue : marked.1.value.text ≠ []) : Injected numbers (marked.1, false) c := by
  obtain ⟨content, hcontent, hv⟩ := h.value
  refine ⟨h.tick, h.sensorName, h.unit, content, ?_, hv⟩
  rw [hcontent, if_neg fun h => hvalue h.1, if_neg fun h => hvalue h.1]

/-- An empty value is the integer 0 if its line is cut there. -/
theorem Injected.empty {marked : Line × Bool} {c : Call} (h : Injected numbers marked c)
    (hempty : marked.1.value.text = []) : c.value = if marked.2 then .intPos 0 else .null := by
  obtain ⟨content, hcontent, hv⟩ := h.value
  cases hbare : marked.2 with
  | false =>
    rw [if_pos ⟨hempty, hbare⟩, Option.map_eq_none_iff] at hcontent
    rw [hcontent] at hv
    exact (Except.ok.inj hv).symm
  | true =>
    have hcut : ¬ (marked.1.value.text = [] ∧ marked.2 = false) := by simp [hbare]
    rw [if_neg hcut, hempty, Option.map_eq_some_iff] at hcontent
    obtain ⟨⟨bytes, hzero, hsized⟩, rfl, hbytes⟩ := hcontent
    dsimp only at hbytes
    subst hbytes
    exact (Except.ok.inj hv).symm

/-- Every block is compressed in the sessions that the lines of a file make. -/
def PackedLines (zstd : Zstd) (numbers : Numbers) (heap : List (Call × Bool) → List UInt8)
    (bare : Bool) (lines : List Line) : Prop :=
  ∀ calls, List.Forall₂ (Injected numbers) (cutLines bare (READ_BUFFERSIZE - 1024) lines) calls →
    (∀ c ∈ calls, ∃ before, c.heap = heap before) →
      (singleChannel 0 OTIC_CHANNEL_TYPE_SENSOR 1 0 calls).Packed zstd

/-- They are if the default bucket is ample. -/
theorem packedLines_of_ample (hlossless : zstd.Lossless)
    (hample : zstd.Ample (OticPack.effectiveSize 0).toNat) (numbers : Numbers)
    (heap : List (Call × Bool) → List UInt8) (bare : Bool) (lines : List Line) :
    PackedLines zstd numbers heap bare lines := by
  intro calls _ _
  refine Session.packed_of_ample undisturbed_singleChannel hlossless (fun st hst => ?_)
    fun st hst => ?_
  · rcases List.mem_cons.mp hst with rfl | hst
    · decide
    · obtain ⟨c, -, rfl⟩ := List.mem_map.mp hst
      trivial
  · rcases List.mem_cons.mp hst with rfl | hst
    · exact hample
    · obtain ⟨c, -, rfl⟩ := List.mem_map.mp hst
      trivial

/-- The injects of a file, and the session that they make. -/
theorem compress_injects (hlossless : zstd.Lossless) {buffer : List UInt8}
    (hbuffer : buffer.length = READ_BUFFERSIZE) {content : List (Option ℕ)}
    (hcontent : content.length = 5) {lines : List Line} (hlines : ∀ line ∈ lines, Injectable line)
    {bare : Bool} (hpacked : PackedLines zstd numbers heap bare lines) :
    ∃ calls w,
      List.Forall₂ (Injected numbers) (cutLines bare (READ_BUFFERSIZE - 1024) lines) calls ∧
      (∀ c ∈ calls, ∃ before, c.heap = heap before) ∧ w.oks.tail.length = calls.length ∧
      (singleChannel 0 OTIC_CHANNEL_TYPE_SENSOR 1 0 calls).write zstd = some w ∧
      compress zstd numbers heap buffer content (fileOf bare lines) =
        .ok ⟨calls.zip w.oks.tail, true, w.accepted⟩ := by
  obtain ⟨hstep, hrunning⟩ := @running_defined zstd hlossless
  have hahead : Ahead zstd numbers heap (cutLines bare (READ_BUFFERSIZE - 1024) lines)
      (defined 0 OTIC_CHANNEL_TYPE_SENSOR 1 0) := by
    refine ⟨fun marked hmarked => hlines _ (mem_of_mem_cutLines hmarked), ?_⟩
    intro calls hcalls hheap
    exact (hpacked calls hcalls hheap).steps.2 _ hstep
  obtain ⟨s', hrun, ⟨calls, oks, hcalls, hheap, hlength, hinjects, hdone⟩, hrunning'⟩ :=
    @file_run zstd numbers heap hlossless bare lines.length lines
    ⟨fileOf bare lines, ⟨⟨TAB, content, 0⟩, 0, 0, 0, buffer⟩,
      defined 0 OTIC_CHANNEL_TYPE_SENSOR 1 0, []⟩ ((fileOf bare lines).length + 1) rfl hlines rfl
    ⟨rfl, hcontent, hbuffer, rfl, fun _ => le_refl _, fun hne => absurd rfl hne⟩ hahead hrunning
    (Nat.lt_succ_of_le (length_fileOf bare lines))
  obtain ⟨oks', pack', hrun', -, hwrite⟩ :=
    @write_singleChannel zstd 0 OTIC_CHANNEL_TYPE_SENSOR 1 0 (by decide) calls
  rw [hinjects, Option.some.injEq, Prod.mk.injEq] at hrun'
  obtain ⟨rfl, rfl⟩ := hrun'
  refine ⟨calls, ⟨true :: oks, true, _, _⟩, hcalls, hheap, hlength, hwrite, ?_⟩
  unfold compress
  simp only [hstep, hrun, bind, Except.bind, pure, Except.pure, hrunning'.state]
  rw [if_neg (by decide), hdone]
  rfl

/-- **Packing a file.**  There is one inject for every line, in their order, and the output
is that of a session with these injects.  Where the chunks of the file ended is told by the
empty values, and by nothing else. -/
theorem compress_lines (hlossless : zstd.Lossless) (numbers : Numbers)
    (heap : List (Call × Bool) → List UInt8) {buffer : List UInt8}
    (hbuffer : buffer.length = READ_BUFFERSIZE) {content : List (Option ℕ)}
    (hcontent : content.length = 5) {lines : List Line} (hlines : ∀ line ∈ lines, Injectable line)
    (bare : Bool) (hpacked : PackedLines zstd numbers heap bare lines) :
    ∃ calls w,
      List.Forall₂ (Injected numbers) (cutLines bare (READ_BUFFERSIZE - 1024) lines) calls ∧
      (∀ marked c, (marked, c) ∈ (cutLines bare (READ_BUFFERSIZE - 1024) lines).zip calls →
        marked.1.value.text = [] → c.value = if marked.2 then .intPos 0 else .null) ∧
      ((∀ line ∈ lines, line.value.text ≠ []) →
        List.Forall₂ (fun line => Injected numbers (line, false)) lines calls) ∧
      (singleChannel 0 OTIC_CHANNEL_TYPE_SENSOR 1 0 calls).write zstd = some w ∧
      compress zstd numbers heap buffer content (fileOf bare lines) =
        .ok ⟨calls.zip w.oks.tail, true, w.accepted⟩ := by
  obtain ⟨calls, w, hcalls, -, -, hwrite, hcompress⟩ := @compress_injects zstd numbers heap
    hlossless buffer hbuffer content hcontent lines hlines bare hpacked
  refine ⟨calls, w, hcalls, fun marked c hmem => ?_, fun hvalues => ?_, hwrite, hcompress⟩
  · exact ((List.forall₂_iff_zip.mp hcalls).2 hmem).empty
  · have huncut := forall₂_imp_mem hcalls.flip fun c marked hmem h =>
      h.uncut (hvalues _ (mem_of_mem_cutLines hmem))
    rw [← cutLines_fst bare lines (READ_BUFFERSIZE - 1024), List.forall₂_map_left_iff]
    exact huncut.flip

/-! ### Two lines without a value -/

theorem ten_lt_TS_NULL : (10000 : UInt64) < TS_NULL := by decide

theorem twenty_lt_TS_NULL : (20000 : UInt64) < TS_NULL := by decide

/-- The numbers `1` and `2` as timestamps. -/
def sampleNumbers : Numbers where
  tick := fun text =>
    if text = [0x32] then ⟨20000, twenty_lt_TS_NULL⟩ else ⟨10000, ten_lt_TS_NULL⟩
  strtod := fun _ => 0

theorem plain_nil : ∀ char ∈ ([] : List UInt8), char ≠ 0 ∧ char ≠ TAB ∧ char ≠ NEWLINE := by
  simp [TAB, NEWLINE]

theorem plain_a : ∀ char ∈ [(0x61 : UInt8)], char ≠ 0 ∧ char ≠ TAB ∧ char ≠ NEWLINE := by
  simp [TAB, NEWLINE]

theorem plain_one : ∀ char ∈ [(0x31 : UInt8)], char ≠ 0 ∧ char ≠ TAB ∧ char ≠ NEWLINE := by
  simp [TAB, NEWLINE]

theorem plain_two : ∀ char ∈ [(0x32 : UInt8)], char ≠ 0 ∧ char ≠ TAB ∧ char ≠ NEWLINE := by
  simp [TAB, NEWLINE]

/-- No unit and no value for the sensor `"a"`. -/
def emptyLine (timestamp : Column) : Line :=
  ⟨timestamp, ⟨[0x61], plain_a⟩, ⟨[], plain_nil⟩, ⟨[], plain_nil⟩, ⟨[], plain_nil⟩⟩

def emptyLines : List Line := [emptyLine ⟨[0x31], plain_one⟩, emptyLine ⟨[0x32], plain_two⟩]

/-- The file ends without a newline: the first value is null, the second one is 0. -/
theorem compress_lines_emptyLines :
    ∃ c d w, c.value = .null ∧ d.value = .intPos 0 ∧
      (singleChannel 0 OTIC_CHANNEL_TYPE_SENSOR 1 0 [c, d]).write Zstd.stored = some w ∧
      compress Zstd.stored sampleNumbers (fun _ => []) (List.replicate READ_BUFFERSIZE 0)
          (List.replicate 5 none) [0x31, 9, 0x61, 9, 9, 9, 10, 0x32, 9, 0x61, 9, 9, 9] =
        .ok ⟨[c, d].zip w.oks.tail, true, w.accepted⟩ := by
  have hlines : ∀ line ∈ emptyLines, Injectable line := by
    intro line hline
    simp only [emptyLines, List.mem_cons, List.not_mem_nil, or_false] at hline
    rcases hline with rfl | rfl
    · exact ⟨⟨by decide, fun char hchar => by cases hchar; rfl, by decide⟩, fun _ _ => by decide⟩
    · exact ⟨⟨by decide, fun char hchar => by cases hchar; rfl, by decide⟩, fun _ _ => by decide⟩
  obtain ⟨calls, w, hcalls, hempty, -, hwrite, hcompress⟩ := compress_lines Zstd.stored_lossless
    sampleNumbers (fun _ => []) List.length_replicate (@List.length_replicate _ 5 none) hlines true
    (packedLines_of_ample Zstd.stored_lossless (Zstd.stored_ample _) _ _ _ _)
  obtain ⟨c, d, rfl⟩ : ∃ c d, calls = [c, d] := List.length_eq_two.mp hcalls.length_eq.symm
  exact ⟨c, d, w, hempty _ c List.mem_cons_self rfl,
    hempty _ d (List.mem_cons_of_mem _ List.mem_cons_self) rfl, hwrite, hcompress⟩

end Otic.Tsv
