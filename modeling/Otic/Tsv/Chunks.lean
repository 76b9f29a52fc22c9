import Otic.Utility.Chunker

/-!
# Chunks of a file (`tsvParser.c`)

`compress` reads a file in chunks: `fread` takes a fixed number of bytes, and `fscanf` the
rest of the line that it stopped in.  A chunk is a text in the buffer with a terminator
behind it, so that its last line has lost its newline, unless the file ended with it.
-/

namespace Otic.Tsv

open Utility

/-- `'\\t'`. -/
def TAB : UInt8 := 9

def READ_BUFFERSIZE : ℕ := 1048576

/-- `isspace`. -/
def isspace (char : UInt8) : Bool := char = 32 ∨ 9 ≤ char ∧ char ≤ 13

/-! ### The buffer -/

/-- `memory[position ..] = bytes`. -/
def store (memory : List UInt8) (position : ℕ) (bytes : List UInt8) :
    Except FormatFault (List UInt8) :=
  if position + bytes.length ≤ memory.length then
    .ok (memory.take position ++ (bytes ++ memory.drop (position + bytes.length)))
  else .error .write

/-- `strlen`. -/
def strlen (memory : List UInt8) (position : ℕ) : Except FormatFault ℕ := do
  let text ← readString memory position
  return text.length

/-- `fscanf` with `"%[^\n]\n"`: its result, the memory, and what is left of the file. -/
def fscanf (memory : List UInt8) (position : ℕ) (file : List UInt8) :
    Except FormatFault (Int × List UInt8 × List UInt8) :=
  match file with
  | [] => .ok (-1, memory, [])
  | char :: rest =>
      if char = NEWLINE then .ok (0, memory, char :: rest)
      else do
        let line := lineOf (char :: rest)
        let memory ← store memory position (line ++ [0])
        return (1, memory, ((char :: rest).drop line.length).dropWhile isspace)

/-- What `read` grows by behind `fscanf`. -/
def added (scanned : Int) (memory : List UInt8) (position : ℕ) : Except FormatFault ℕ :=
  if scanned = -1 then .ok 0 else strlen memory position

/-- The part of `compress` that reads a chunk: its size, the buffer, and what is left of the
file. -/
def readChunk (buffer file : List UInt8) :
    Except FormatFault (ℕ × List UInt8 × List UInt8) := do
  let got := file.take (READ_BUFFERSIZE - 1024)
  let buffer ← store buffer 0 (got ++ [0])
  let (scanned, buffer, file) ← fscanf buffer got.length (file.drop (READ_BUFFERSIZE - 1024))
  let more ← added scanned buffer got.length
  let file := if scanned = 0 ∧ file.head? = some NEWLINE then file.tail else file
  let buffer ← store buffer (got.length + more) [0]
  return (got.length + more, buffer, file)

/-! ### Lines -/

/-- A column without the characters that end one. -/
structure Column where
  text : List UInt8
  plain : ∀ char ∈ text, char ≠ 0 ∧ char ≠ TAB ∧ char ≠ NEWLINE

/-- A line of five columns; the third one is not looked at. -/
structure Line where
  timestamp : Column
  name : Column
  skipped : Column
  unit : Column
  value : Column

/-- The text of a line. -/
def Line.text (line : Line) : List UInt8 :=
  line.timestamp.text ++ TAB :: (line.name.text ++ TAB :: (line.skipped.text ++ TAB ::
    (line.unit.text ++ TAB :: line.value.text)))

/-- A line has a name, does not begin with white space, and fits behind a chunk. -/
structure Line.Sound (line : Line) : Prop where
  named : line.name.text ≠ []
  started : ∀ char ∈ line.text.head?, isspace char = false
  short : line.text.length < 1024

/-- The file with these lines; `bare` if it does not end with a newline. -/
def fileOf (bare : Bool) : List Line → List UInt8
  | [] => []
  | [line] => line.text ++ if bare then [] else [NEWLINE]
  | line :: lines => line.text ++ NEWLINE :: fileOf bare lines

/-- The lines of the next chunk, given the bytes that `fread` has yet to take, each with
whether it is without its newline there, and the lines behind the chunk. -/
def nextChunk (bare : Bool) : (room : ℕ) → List Line → List (Line × Bool) × List Line
  | _, [] => ([], [])
  | room, line :: lines =>
      if room ≤ line.text.length then ([(line, true)], lines)
      else
        let rest := nextChunk bare (room - (line.text.length + 1)) lines
        ((line, lines.isEmpty && bare) :: rest.1, rest.2)

/-- The lines in the buffer. -/
def chunkOf : List (Line × Bool) → List UInt8
  | [] => []
  | (line, bare) :: lines => line.text ++ ((if bare then [] else [NEWLINE]) ++ chunkOf lines)

/-- The lines of a file, each with whether it is without its newline in its chunk. -/
def cutLines (bare : Bool) : (room : ℕ) → List Line → List (Line × Bool)
  | _, [] => []
  | room, line :: lines =>
      if room ≤ line.text.length then
        (line, true) :: cutLines bare (READ_BUFFERSIZE - 1024) lines
      else
        (line, lines.isEmpty && bare) :: cutLines bare (room - (line.text.length + 1)) lines

/-! ### Texts -/

variable {bare : Bool} {line : Line} {lines : List Line}

theorem Line.plain (line : Line) : 0 ∉ line.text ∧ NEWLINE ∉ line.text := by
  have hcolumn (column : Column) : 0 ∉ column.text ∧ NEWLINE ∉ column.text :=
    ⟨fun hmem => (column.plain 0 hmem).1 rfl, fun hmem => (column.plain NEWLINE hmem).2.2 rfl⟩
  have htab : (0 : UInt8) ≠ TAB ∧ NEWLINE ≠ TAB := by decide
  simp only [Line.text, List.mem_append, List.mem_cons, not_or]
  exact ⟨⟨(hcolumn _).1, htab.1, (hcolumn _).1, htab.1, (hcolumn _).1, htab.1, (hcolumn _).1,
      htab.1, (hcolumn _).1⟩,
    (hcolumn _).2, htab.2, (hcolumn _).2, htab.2, (hcolumn _).2, htab.2, (hcolumn _).2,
    htab.2, (hcolumn _).2⟩

theorem Line.text_ne_nil (line : Line) : line.text ≠ [] := by
  simp [Line.text]

theorem fileOf_cons (bare : Bool) (line : Line) (lines : List Line) :
    fileOf bare (line :: lines) =
      line.text ++ if lines.isEmpty && bare then [] else NEWLINE :: fileOf bare lines := by
  cases lines with
  | nil => cases bare <;> rfl
  | cons next lines => rfl

/-- A file does not begin with white space. -/
theorem dropWhile_fileOf (h : ∀ line ∈ lines, line.Sound) :
    (fileOf bare lines).dropWhile isspace = fileOf bare lines := by
  cases lines with
  | nil => rfl
  | cons line lines =>
    obtain ⟨char, text, htext⟩ := List.exists_cons_of_ne_nil line.text_ne_nil
    have hchar := (h line List.mem_cons_self).started char (by rw [htext]; rfl)
    rw [fileOf_cons, htext, List.cons_append, List.dropWhile_cons_of_neg (by rw [hchar]; simp)]

/-- **Where a chunk ends.**  Behind the bytes that `fread` takes there is the rest of a
line, and behind it the newline and the lines that are left, or the end of the file. -/
theorem take_fileOf (bare : Bool) (lines : List Line) : ∀ room : ℕ,
    (∀ line ∈ lines, line.Sound) → ∃ run, NEWLINE ∉ run ∧ 0 ∉ run ∧ run.length < 1024 ∧
      chunkOf (nextChunk bare room lines).1 = (fileOf bare lines).take room ++ run ∧
      ((fileOf bare lines).drop room =
          run ++ NEWLINE :: fileOf bare (nextChunk bare room lines).2 ∨
        (fileOf bare lines).drop room = run ∧ (nextChunk bare room lines).2 = []) := by
  induction lines with
  | nil =>
    intro room _
    exact ⟨[], List.not_mem_nil, List.not_mem_nil, Nat.zero_lt_succ _, by simp [chunkOf,
      nextChunk, fileOf], Or.inr ⟨by simp [fileOf], rfl⟩⟩
  | cons line lines ih =>
    intro room h
    have hsound := h line List.mem_cons_self
    rw [nextChunk, fileOf_cons]
    by_cases hroom : room ≤ line.text.length
    · -- the line is not read to its end
      rw [if_pos hroom]
      refine ⟨line.text.drop room, fun hmem => line.plain.2 (List.mem_of_mem_drop hmem),
        fun hmem => line.plain.1 (List.mem_of_mem_drop hmem), ?_, ?_, ?_⟩
      · rw [List.length_drop]
        have := hsound.short
        omega
      · rw [List.take_append_of_le_length hroom, List.take_append_drop]
        simp [chunkOf]
      · rw [List.drop_append_of_le_length hroom]
        cases hlast : lines.isEmpty && bare with
        | false => exact Or.inl rfl
        | true =>
          simp only [Bool.and_eq_true, List.isEmpty_iff] at hlast
          exact Or.inr ⟨List.append_nil _, hlast.1⟩
    · rw [if_neg hroom]
      obtain ⟨run, hnewline, hzero, hshort, hchunk, hrest⟩ :=
        ih (room - (line.text.length + 1)) fun next hnext => h next (List.mem_cons_of_mem _ hnext)
      have hread : room = line.text.length + (room - line.text.length) := by omega
      have hmore : room - line.text.length = room - (line.text.length + 1) + 1 := by omega
      refine ⟨run, hnewline, hzero, hshort, ?_⟩
      cases hlast : lines.isEmpty && bare with
      | false =>
        have htake : (line.text ++ NEWLINE :: fileOf bare lines).take room =
            line.text ++ NEWLINE :: (fileOf bare lines).take (room - (line.text.length + 1)) := by
          rw [hread, List.take_length_add_append, hmore, List.take_succ_cons]
          congr 4
          omega
        have hdrop : (line.text ++ NEWLINE :: fileOf bare lines).drop room =
            (fileOf bare lines).drop (room - (line.text.length + 1)) := by
          rw [hread, List.drop_length_add_append, hmore, List.drop_succ_cons]
          congr 1
          omega
        simp only [Bool.false_eq_true, if_false, htake, hdrop, chunkOf, hchunk]
        exact ⟨by simp, hrest⟩
      | true =>
        -- the file ends here without a newline
        simp only [Bool.and_eq_true, List.isEmpty_iff] at hlast
        obtain ⟨rfl, -⟩ := hlast
        have hrun : run = [] := by simpa [chunkOf, nextChunk, fileOf] using hchunk.symm
        subst hrun
        have hlength := Nat.le_of_not_le hroom
        simp only [if_true, List.append_nil, chunkOf, nextChunk, List.take_of_length_le hlength]
        exact ⟨trivial, Or.inr ⟨List.drop_of_length_le hlength, trivial⟩⟩

/-! ### The lines of a chunk -/

/-- A chunk takes lines off the front of the file. -/
theorem nextChunk_append (bare : Bool) (lines : List Line) : ∀ room : ℕ,
    (nextChunk bare room lines).1.map Prod.fst ++ (nextChunk bare room lines).2 = lines := by
  induction lines with
  | nil => exact fun _ => rfl
  | cons line lines ih =>
    intro room
    rw [nextChunk]
    split
    · rfl
    · exact congrArg (List.cons line) (ih _)

theorem nextChunk_ne_nil (bare : Bool) (room : ℕ) (line : Line) (lines : List Line) :
    (nextChunk bare room (line :: lines)).1 ≠ [] := by
  rw [nextChunk]
  split
  · exact List.cons_ne_nil _ _
  · exact List.cons_ne_nil _ _

theorem mem_of_mem_later {room : ℕ} (h : line ∈ (nextChunk bare room lines).2) :
    line ∈ lines := by
  rw [← nextChunk_append bare lines room]
  exact List.mem_append_right _ h

/-- Only the last line of a chunk is without its newline. -/
def EndsOnly : List (Line × Bool) → Prop
  | [] => True
  | (_, bare) :: lines => (bare = true → lines = []) ∧ EndsOnly lines

theorem endsOnly_nextChunk (bare : Bool) (lines : List Line) : ∀ room : ℕ,
    EndsOnly (nextChunk bare room lines).1 := by
  induction lines with
  | nil => exact fun _ => trivial
  | cons line lines ih =>
    intro room
    rw [nextChunk]
    split
    · exact ⟨fun _ => rfl, trivial⟩
    · refine ⟨fun hlast => ?_, ih _⟩
      simp only [Bool.and_eq_true, List.isEmpty_iff] at hlast
      rw [hlast.1]
      rfl

/-- **A file is the lines of its chunks.** -/
theorem cutLines_eq (bare : Bool) (lines : List Line) : ∀ room : ℕ,
    cutLines bare room lines = (nextChunk bare room lines).1 ++
      cutLines bare (READ_BUFFERSIZE - 1024) (nextChunk bare room lines).2 := by
  induction lines with
  | nil => exact fun _ => rfl
  | cons line lines ih =>
    intro room
    rw [cutLines, nextChunk]
    split
    · rfl
    · exact congrArg (List.cons _) (ih _)

theorem length_chunkOf (lines : List (Line × Bool)) : lines.length ≤ (chunkOf lines).length := by
  induction lines with
  | nil => exact le_refl _
  | cons marked lines ih =>
    have hne := List.length_pos_iff.mpr marked.1.text_ne_nil
    simp only [chunkOf, List.length_append, List.length_cons]
    omega

theorem length_fileOf (bare : Bool) (lines : List Line) :
    lines.length ≤ (fileOf bare lines).length := by
  induction lines with
  | nil => exact le_refl _
  | cons line lines ih =>
    have hne := List.length_pos_iff.mpr line.text_ne_nil
    rw [fileOf_cons, List.length_append, List.length_cons]
    cases hlast : lines.isEmpty && bare with
    | false =>
      simp only [Bool.false_eq_true, if_false, List.length_cons]
      omega
    | true =>
      simp only [Bool.and_eq_true, List.isEmpty_iff] at hlast
      simp only [hlast.1, List.length_nil]
      omega

/-! ### One chunk -/

variable {file run rest memory memory' : List UInt8} {position : ℕ}

theorem store_eq {before old bytes rest : List UInt8} (h : old.length = bytes.length) :
    store (before ++ (old ++ rest)) before.length bytes = .ok (before ++ (bytes ++ rest)) := by
  unfold store
  rw [if_pos (by simp only [List.length_append]; omega), List.take_left, ← h,
    List.drop_length_add_append, List.drop_left]

theorem fscanf_line (hrun : run ≠ []) (hnewline : NEWLINE ∉ run)
    (hrest : rest = [] ∨ rest.head? = some NEWLINE)
    (hstore : store memory position (run ++ [0]) = .ok memory') :
    fscanf memory position (run ++ rest) = .ok (1, memory', rest.dropWhile isspace) := by
  obtain ⟨char, run, rfl⟩ := List.exists_cons_of_ne_nil hrun
  have hline : lineOf (char :: run ++ rest) = char :: run := by
    rcases hrest with rfl | hhead
    · rw [List.append_nil, lineOf_of_notMem hnewline]
    · obtain ⟨more, rfl⟩ := List.head?_eq_some_iff.mp hhead
      exact lineOf_append_newline hnewline more
  have hchar : char ≠ NEWLINE := fun heq => hnewline (heq ▸ List.mem_cons_self)
  have hdrop : (char :: (run ++ rest)).drop (char :: run).length = rest :=
    @List.drop_left _ (char :: run) rest
  rw [List.cons_append] at hline ⊢
  simp only [fscanf, if_neg hchar, hline, hstore, hdrop]
  rfl

/-- What `fscanf` finds behind the bytes that `fread` took, and what is left when a newline
that it did not pass is taken. -/
theorem fscanf_eq (hnewline : NEWLINE ∉ run)
    (hfile : file = run ++ NEWLINE :: rest ∨ file = run ∧ rest = [])
    (hrest : rest.dropWhile isspace = rest)
    (hstore : store memory position (run ++ [0]) = .ok memory')
    (hsame : run = [] → memory' = memory) :
    ∃ scanned left, fscanf memory position file = .ok (scanned, memory', left) ∧
      (scanned = -1 → run = []) ∧
      (if scanned = 0 ∧ left.head? = some NEWLINE then left.tail else left) = rest := by
  by_cases hrun : run = []
  · rw [hsame hrun]
    subst hrun
    rcases hfile with rfl | ⟨rfl, rfl⟩
    · exact ⟨0, NEWLINE :: rest, rfl, fun _ => rfl, rfl⟩
    · exact ⟨-1, [], rfl, fun _ => rfl, rfl⟩
  · have hone : ¬ ((1 : Int) = 0 ∧ rest.head? = some NEWLINE) := fun h => by cases h.1
    refine ⟨1, rest, ?_, fun h => absurd h (by decide), if_neg hone⟩
    rcases hfile with rfl | ⟨rfl, rfl⟩
    · rw [fscanf_line hrun hnewline (Or.inr rfl) hstore,
        List.dropWhile_cons_of_pos (by decide : isspace NEWLINE = true), hrest]
    · have hscan := fscanf_line hrun hnewline (Or.inl rfl) hstore
      rwa [List.append_nil] at hscan

/-- The buffer when `got` and `run` are stored: the parts that are written, and the rest. -/
theorem stores_eq {buffer got : List UInt8} (hgot : got.length + 1024 ≤ buffer.length)
    (hrun : run.length < 1024) :
    ∃ memory behind, store buffer 0 (got ++ [0]) = .ok memory ∧
      store memory got.length (run ++ [0]) = .ok (got ++ (run ++ 0 :: behind)) ∧
      (run = [] → got ++ (run ++ 0 :: behind) = memory) ∧
      (got ++ (run ++ 0 :: behind)).length = buffer.length := by
  obtain ⟨old, more, hold, rfl⟩ : ∃ old more, old.length = (got ++ [(0 : UInt8)]).length ∧
      buffer = old ++ more := by
    refine ⟨buffer.take (got.length + 1), buffer.drop (got.length + 1), ?_,
      (List.take_append_drop _ _).symm⟩
    simp only [List.length_take, List.length_append, List.length_cons, List.length_nil]
    omega
  simp only [List.length_append, List.length_cons, List.length_nil] at hgot hold
  obtain ⟨old', behind, hold', hmore⟩ : ∃ old' behind,
      old'.length = (run ++ [(0 : UInt8)]).length ∧ 0 :: more = old' ++ behind := by
    refine ⟨(0 :: more).take (run.length + 1), (0 :: more).drop (run.length + 1), ?_,
      (List.take_append_drop _ _).symm⟩
    simp only [List.length_take, List.length_append, List.length_cons, List.length_nil]
    omega
  refine ⟨got ++ 0 :: more, behind, ?_, ?_, fun hnil => ?_, ?_⟩
  · have hstore := @store_eq [] old (got ++ [0]) more (by simpa using hold)
    simpa using hstore
  · rw [hmore, store_eq hold', List.append_assoc run]
    rfl
  · subst hnil
    obtain ⟨zero, rfl⟩ := List.length_eq_one_iff.mp hold'
    cases hmore
    rfl
  · have hlength := congrArg List.length hmore
    simp only [List.length_append, List.length_cons, List.length_nil] at hlength hold' ⊢
    omega

/-- **One chunk** is the lines up to the one that `fread` stopped in. -/
theorem readChunk_eq {buffer : List UInt8} (hbuffer : buffer.length = READ_BUFFERSIZE)
    (hsound : ∀ line ∈ lines, line.Sound) (bare : Bool) :
    ∃ behind, readChunk buffer (fileOf bare lines) =
        .ok ((chunkOf (nextChunk bare (READ_BUFFERSIZE - 1024) lines).1).length,
          chunkOf (nextChunk bare (READ_BUFFERSIZE - 1024) lines).1 ++ 0 :: behind,
          fileOf bare (nextChunk bare (READ_BUFFERSIZE - 1024) lines).2) ∧
      (chunkOf (nextChunk bare (READ_BUFFERSIZE - 1024) lines).1 ++ 0 :: behind).length =
        READ_BUFFERSIZE := by
  obtain ⟨run, hnewline, hzero, hshort, hchunk, hrest⟩ :=
    take_fileOf bare lines (READ_BUFFERSIZE - 1024) hsound
  have hleft := @dropWhile_fileOf bare (nextChunk bare (READ_BUFFERSIZE - 1024) lines).2
    fun line hmem => hsound line (mem_of_mem_later hmem)
  have hgot := List.length_take_le (READ_BUFFERSIZE - 1024) (fileOf bare lines)
  have hsize : READ_BUFFERSIZE = 1048576 := rfl
  rw [hchunk]
  unfold readChunk
  generalize (nextChunk bare (READ_BUFFERSIZE - 1024) lines).2 = later at hrest hleft ⊢
  generalize (fileOf bare lines).take (READ_BUFFERSIZE - 1024) = got at hgot ⊢
  obtain ⟨memory, behind, hfirst, hsecond, hsame, hlength⟩ :=
    @stores_eq run buffer got (by omega) hshort
  obtain ⟨scanned, left, hscanned, hend, hfile⟩ := fscanf_eq hnewline
    (hrest.imp_right fun h => ⟨h.1, by rw [h.2]; rfl⟩) hleft hsecond hsame
  have hadded : added scanned (got ++ (run ++ 0 :: behind)) got.length = .ok run.length := by
    unfold added
    by_cases hscan : scanned = -1
    · rw [if_pos hscan, hend hscan]
      rfl
    · rw [if_neg hscan, strlen, readString_of_stringAt ⟨hzero, behind, List.drop_left⟩]
      rfl
  have hlast : store (got ++ (run ++ 0 :: behind)) (got.length + run.length) [0] =
      .ok (got ++ (run ++ 0 :: behind)) := by
    rw [← List.append_assoc, ← List.length_append]
    exact @store_eq (got ++ run) [0] [0] behind rfl
  refine ⟨behind, ?_, ?_⟩
  · simp only [hfirst, hscanned, hadded, hlast, hfile, bind, Except.bind, pure, Except.pure,
      List.length_append, List.append_assoc]
  · rw [List.append_assoc, hlength, hbuffer]

end Otic.Tsv
