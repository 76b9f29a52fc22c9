import Otic.Utility.FormatWrite

/-!
# Lines of a chunk (`format.c`)

The caller of `format_chunker_parse` goes through a chunk line by line, and reads the
slots after every line.
-/

namespace Otic.Utility

/-- `format_chunker_t` and the chunk it points into. -/
structure Chunker where
  format : Format
  ptrStart : ℕ
  ptrCurrent : ℕ
  size : ℕ
  memory : List UInt8

/-- `format_chunker_set`. -/
def Chunker.set (chunker : Chunker) (chunk size : ℕ) : Chunker :=
  { chunker with ptrStart := chunk, ptrCurrent := chunk, size }

/-- `format_chunker_parse`: the pointer it returns and what it leaves. -/
def Chunker.parse (chunker : Chunker) : Except FormatFault (ℕ × Chunker) := do
  let (next, memory, format) ← chunker.format.parse chunker.memory chunker.ptrCurrent
  return (next, { chunker with memory, format })

/-- The text of a slot, as its reader takes it. -/
def textOf (memory : List UInt8) : Option ℕ → Except FormatFault (List UInt8)
  | none => .ok []
  | some content => readString memory content

/-- The texts of the slots that were filled. -/
def Chunker.texts (chunker : Chunker) : Except FormatFault (List (List UInt8)) :=
  (chunker.format.content.take chunker.format.parsed).mapM (textOf chunker.memory)

/-- One round of the caller's loop: the line that is parsed, and the lines read before it. -/
def chunkBody (s : Chunker × List (List (List UInt8))) :
    Except FormatFault (Bool × Chunker × List (List (List UInt8))) := do
  if s.1.ptrCurrent - s.1.ptrStart < s.1.size then
    let (next, chunker) ← s.1.parse
    let line ← chunker.texts
    return (true, { chunker with ptrCurrent := next }, s.2 ++ [line])
  else
    return (false, s)

/-- The lines of a chunk: a final newline ends a line and starts none. -/
def linesOf (text : List UInt8) : List (List UInt8) :=
  let lines := text.splitOn NEWLINE
  if lines.getLast? = some [] then lines.dropLast else lines

/-! ### Lines -/

@[simp] theorem linesOf_nil : linesOf [] = [] := rfl

theorem linesOf_last {line : List UInt8} (hline : NEWLINE ∉ line) (hne : line ≠ []) :
    linesOf line = [line] := by
  unfold linesOf
  simp only [List.splitOn_eq_singleton hline, List.getLast?_singleton, Option.some.injEq]
  rw [if_neg hne]

theorem linesOf_cons {line : List UInt8} (hline : NEWLINE ∉ line) (text : List UInt8) :
    linesOf (line ++ NEWLINE :: text) = line :: linesOf text := by
  unfold linesOf
  simp only [List.splitOn_append_cons_of_beq line text (beq_self_eq_true NEWLINE),
    List.splitOn_eq_singleton hline, List.singleton_append]
  obtain ⟨first, rest, hsplit⟩ := List.exists_cons_of_ne_nil (List.splitOn_ne_nil NEWLINE text)
  rw [hsplit, List.getLast?_cons_cons, List.dropLast_cons_cons]
  split <;> rfl

theorem lineOf_of_notMem {line : List UInt8} (h : NEWLINE ∉ line) : lineOf line = line := by
  induction line with
  | nil => rfl
  | cons char line ih =>
    rw [List.mem_cons, not_or] at h
    rw [lineOf_cons, if_neg (Ne.symm h.1), ih h.2]

theorem lineOf_append_newline {line : List UInt8} (h : NEWLINE ∉ line) (rest : List UInt8) :
    lineOf (line ++ NEWLINE :: rest) = line := by
  induction line with
  | nil => rfl
  | cons char line ih =>
    rw [List.mem_cons, not_or] at h
    rw [List.cons_append, lineOf_cons, if_neg (Ne.symm h.1), ih h.2]

/-- A text is its first line alone, or the first line, a newline and more. -/
theorem line_cases (text : List UInt8) :
    NEWLINE ∉ lineOf text ∧
      (text = lineOf text ∨ ∃ rest, text = lineOf text ++ NEWLINE :: rest) := by
  induction text with
  | nil => exact ⟨List.not_mem_nil, Or.inl rfl⟩
  | cons char text ih =>
    obtain ⟨hmem, htext⟩ := ih
    rw [lineOf_cons]
    by_cases h : char = NEWLINE
    · rw [if_pos h, h]
      exact ⟨List.not_mem_nil, Or.inr ⟨text, rfl⟩⟩
    · rw [if_neg h]
      refine ⟨by rw [List.mem_cons, not_or]; exact ⟨Ne.symm h, hmem⟩, ?_⟩
      rcases htext with htext | ⟨rest, hrest⟩
      · exact Or.inl (congrArg (List.cons char) htext)
      · exact Or.inr ⟨rest, congrArg (List.cons char) hrest⟩

theorem length_scanned_line {delimiter : UInt8} {line : List UInt8} (h : NEWLINE ∉ line)
    (rest behind : List UInt8) :
    ∃ done, done.length = line.length + 1 ∧
      scanned delimiter (line ++ NEWLINE :: rest) behind = done ++ (rest ++ 0 :: behind) := by
  induction line with
  | nil => exact ⟨[0], rfl, rfl⟩
  | cons char line ih =>
    rw [List.mem_cons, not_or] at h
    obtain ⟨done, hlength, hscanned⟩ := ih h.2
    refine ⟨(if char = delimiter then 0 else char) :: done, by simp [hlength], ?_⟩
    rw [List.cons_append, scanned, if_neg (Ne.symm h.1), hscanned]
    rfl

/-! ### The loop -/

theorem texts_of_holds {memory : List UInt8} {held : List (Option ℕ)} {fields : List (List UInt8)}
    (h : List.Forall₂ (Holds memory) held fields) :
    held.mapM (textOf memory) = (Except.ok fields : Except FormatFault _) := by
  induction h with
  | nil => rfl
  | @cons slot field held fields hslot _ ih =>
    have htext : textOf memory slot = .ok field := by
      cases slot with
      | none =>
        have hfield : field = [] := hslot
        rw [hfield]
        rfl
      | some content => exact readString_of_stringAt hslot
    rw [List.mapM_cons, htext, ih]
    rfl

/-- The loop before `text`: the rest of the chunk is as it was. -/
structure BeforeText (c₀ : Chunker) (behind text : List UInt8) (c : Chunker) : Prop where
  size : c.size = c₀.size
  columns : c.format.size = c₀.format.size
  delimiter : c.format.delimiter = c₀.format.delimiter
  memory : ∃ done, c.memory = done ++ (text ++ 0 :: behind) ∧ done.length = c.ptrCurrent
  position : c.ptrCurrent + text.length = c.ptrStart + c₀.size
  started : c.ptrStart ≤ c.ptrCurrent

theorem chunkBody_stop {s : Chunker × List (List (List UInt8))}
    (h : s.1.size ≤ s.1.ptrCurrent - s.1.ptrStart) : chunkBody s = .ok (false, s) := by
  unfold chunkBody
  rw [if_neg (Nat.not_lt.mpr h)]
  rfl

/-- One round before a text that is not empty reads the fields of its first line. -/
theorem chunkBody_line {c₀ c : Chunker} {behind text : List UInt8}
    (rows : List (List (List UInt8))) (hne : text ≠ []) (hzero : 0 ∉ text)
    (hsize : (fieldsOf c₀.format.delimiter text).length ≤ c₀.format.size)
    (h : BeforeText c₀ behind text c) :
    ∃ c', chunkBody (c, rows) = .ok (true, c', rows ++ [fieldsOf c₀.format.delimiter text]) ∧
      c'.size = c₀.size ∧ c'.format.size = c₀.format.size ∧
      c'.format.delimiter = c₀.format.delimiter ∧ c'.ptrStart = c.ptrStart ∧
      c'.ptrCurrent = c.ptrCurrent + (lineOf text).length + 1 ∧
      ∃ done, c'.memory = done ++ scanned c₀.format.delimiter text behind ∧
        done.length = c.ptrCurrent := by
  obtain ⟨hchunk, hcolumns, hdelimiter, ⟨done, hmemory, hdone⟩, hposition, hstarted⟩ := h
  have hlength : 0 < text.length := List.length_pos_iff.mpr hne
  rw [← hdelimiter, ← hcolumns] at hsize
  rw [← hdelimiter, ← hcolumns, ← hchunk]
  have hparse := parse_eq c.format done text behind hzero hsize
  have hheld := holds_parsed c.format.delimiter done text behind hzero
  rw [← hmemory, hdone] at hparse
  have htexts := texts_of_holds hheld
  rw [hdone] at htexts
  have hslots := length_slots c.format.delimiter text c.ptrCurrent
  unfold chunkBody
  rw [if_pos (show c.ptrCurrent - c.ptrStart < c.size by omega)]
  simp only [Chunker.parse, hparse, bind, Except.bind, pure, Except.pure, Chunker.texts]
  rw [List.take_left' (by rw [List.length_cons, hslots]), htexts]
  refine ⟨_, rfl, rfl, ?_, rfl, rfl, rfl, done, rfl, hdone⟩
  rw [Format.size] at hsize
  simp only [Format.size, List.length_append, List.length_cons, List.length_drop]
  omega

/-- A line without a newline is the last one. -/
theorem chunkBody_last {c₀ c : Chunker} {behind line : List UInt8}
    (rows : List (List (List UInt8))) (hline : NEWLINE ∉ line) (hne : line ≠ []) (hzero : 0 ∉ line)
    (hsize : (line.splitOn c₀.format.delimiter).length ≤ c₀.format.size)
    (h : BeforeText c₀ behind line c) :
    ∃ c', chunkBody (c, rows) = .ok (true, c', rows ++ [line.splitOn c₀.format.delimiter]) ∧
      c'.size ≤ c'.ptrCurrent - c'.ptrStart := by
  have hfirst : lineOf line = line := lineOf_of_notMem hline
  have hfields : fieldsOf c₀.format.delimiter line = line.splitOn c₀.format.delimiter := by
    rw [fieldsOf, hfirst]
  rw [← hfields] at hsize ⊢
  obtain ⟨c', hbody, hchunk, -, -, hstart, hcurrent, -⟩ := chunkBody_line rows hne hzero hsize h
  have hposition := h.position
  have hstarted := h.started
  rw [hfirst] at hcurrent
  exact ⟨c', hbody, by omega⟩

/-- Behind a line with its newline the loop stands before the rest of the text. -/
theorem chunkBody_next {c₀ c : Chunker} {behind line rest : List UInt8}
    (rows : List (List (List UInt8))) (hline : NEWLINE ∉ line)
    (hzero : 0 ∉ line ++ NEWLINE :: rest)
    (hsize : (line.splitOn c₀.format.delimiter).length ≤ c₀.format.size)
    (h : BeforeText c₀ behind (line ++ NEWLINE :: rest) c) :
    ∃ c', chunkBody (c, rows) = .ok (true, c', rows ++ [line.splitOn c₀.format.delimiter]) ∧
      BeforeText c₀ behind rest c' := by
  have hfirst : lineOf (line ++ NEWLINE :: rest) = line := lineOf_append_newline hline rest
  have hfields : fieldsOf c₀.format.delimiter (line ++ NEWLINE :: rest) =
      line.splitOn c₀.format.delimiter := by
    rw [fieldsOf, hfirst]
  have hne : line ++ NEWLINE :: rest ≠ [] := by simp
  rw [← hfields] at hsize ⊢
  obtain ⟨c', hbody, hchunk, hcolumns, hdelimiter, hstart, hcurrent, done, hmemory, hdone⟩ :=
    chunkBody_line rows hne hzero hsize h
  obtain ⟨passed, hlength, hpassed⟩ :=
    @length_scanned_line c₀.format.delimiter line hline rest behind
  have hposition := h.position
  have hstarted := h.started
  rw [List.length_append, List.length_cons] at hposition
  rw [hfirst] at hcurrent
  refine ⟨c', hbody, hchunk, hcolumns, hdelimiter, ⟨done ++ passed, ?_, ?_⟩, ?_, ?_⟩
  · rw [hmemory, hpassed, List.append_assoc]
  · rw [List.length_append, hdone, hlength, hcurrent, Nat.add_assoc]
  · rw [hcurrent, hstart]
    omega
  · rw [hcurrent, hstart]
    omega

/-- Where the loop stands when `lines` are left, and what it has read. -/
def At (c₀ : Chunker) (behind : List UInt8) (lines : List (List UInt8))
    (rows : List (List (List UInt8))) (s : Chunker × List (List (List UInt8))) : Prop :=
  s.2 = rows ∧ (∀ line ∈ lines, (line.splitOn c₀.format.delimiter).length ≤ c₀.format.size) ∧
    ((lines = [] ∧ s.1.size ≤ s.1.ptrCurrent - s.1.ptrStart) ∨
      ∃ text, 0 ∉ text ∧ linesOf text = lines ∧ BeforeText c₀ behind text s.1)

theorem linesOf_eq_nil {text : List UInt8} (h : linesOf text = []) : text = [] := by
  obtain ⟨hline, htext | ⟨rest, hrest⟩⟩ := line_cases text
  · by_contra hne
    rw [linesOf_last (htext ▸ hline) hne] at h
    cases h
  · rw [hrest, linesOf_cons hline] at h
    cases h

theorem at_nil {c₀ : Chunker} {behind : List UInt8} {rows : List (List (List UInt8))}
    {s : Chunker × List (List (List UInt8))} (h : At c₀ behind [] rows s) :
    ∃ s', chunkBody s = .ok (false, s') ∧ s'.2 = rows := by
  obtain ⟨hrows, -, ⟨-, hend⟩ | ⟨text, -, hlines, hbefore⟩⟩ := h
  · exact ⟨s, chunkBody_stop hend, hrows⟩
  · rw [linesOf_eq_nil hlines] at hbefore
    have hposition := hbefore.position
    rw [List.length_nil] at hposition
    exact ⟨s, chunkBody_stop (by rw [hbefore.size]; omega), hrows⟩

theorem at_cons {c₀ : Chunker} {behind line : List UInt8} {lines : List (List UInt8)}
    {rows : List (List (List UInt8))} {s : Chunker × List (List (List UInt8))}
    (h : At c₀ behind (line :: lines) rows s) :
    ∃ s', chunkBody s = .ok (true, s') ∧
      At c₀ behind lines (rows ++ [line.splitOn c₀.format.delimiter]) s' := by
  obtain ⟨hrows, hsize, ⟨hnil, -⟩ | ⟨text, hzero, hlines, hbefore⟩⟩ := h
  · cases hnil
  · obtain ⟨c, rows'⟩ := s
    dsimp only at hrows hbefore
    subst hrows
    have hfirst := hsize line List.mem_cons_self
    have hrest := fun l hl => hsize l (List.mem_cons_of_mem line hl)
    have hne : text ≠ [] := by
      rintro rfl
      cases hlines
    obtain ⟨hline, htext | ⟨rest, htext⟩⟩ := line_cases text
    · rw [linesOf_last (htext ▸ hline) hne, List.cons.injEq] at hlines
      obtain ⟨rfl, rfl⟩ := hlines
      obtain ⟨c', hbody, hend⟩ :=
        chunkBody_last rows' (htext ▸ hline) hne hzero hfirst hbefore
      exact ⟨_, hbody, rfl, hrest, Or.inl ⟨rfl, hend⟩⟩
    · rw [htext] at hzero hbefore
      rw [htext, linesOf_cons hline, List.cons.injEq] at hlines
      obtain ⟨hhead, hmore⟩ := hlines
      rw [← hhead] at hfirst ⊢
      obtain ⟨c', hbody, hnext⟩ := chunkBody_next rows' hline hzero hfirst hbefore
      refine ⟨_, hbody, rfl, hrest, Or.inr ⟨rest, ?_, hmore, hnext⟩⟩
      exact fun hmem => hzero (List.mem_append_right _ (List.mem_cons_of_mem _ hmem))

/-- **Chunks.**  The loop ends with the chunk, after as many rounds as it has lines, and
reads the fields of every line once, in their order.  Nothing behind the terminator is
read: `behind` may be empty. -/
theorem chunk_lines (c : Chunker) (before text behind : List UInt8) (hzero : 0 ∉ text)
    (hmemory : c.memory = before ++ (text ++ 0 :: behind))
    (hsize : ∀ line ∈ linesOf text, (line.splitOn c.format.delimiter).length ≤ c.format.size)
    (fuel : ℕ) (hfuel : (linesOf text).length < fuel) :
    ∃ c', Loop.run chunkBody fuel (c.set before.length text.length, []) =
      .ok (false, c', (linesOf text).map (·.splitOn c.format.delimiter)) := by
  obtain ⟨⟨c', rows⟩, hrun, hrows⟩ := Loop.run_refines_foldl
    (fun rows line => rows ++ [line.splitOn c.format.delimiter])
    (At (c.set before.length text.length) behind) (fun rows s => s.2 = rows)
    (fun _ _ _ _ h => at_cons h) (fun _ _ h => at_nil h) (linesOf text) []
    (c.set before.length text.length, [])
    ⟨rfl, hsize, Or.inr ⟨text, hzero, rfl, rfl, rfl, rfl, ⟨before, hmemory, rfl⟩, rfl, le_refl _⟩⟩
    fuel hfuel
  have hrows' : rows = (linesOf text).map (·.splitOn c.format.delimiter) := by
    rw [List.foldl_append_eq_append, List.nil_append, ← List.flatMap_def] at hrows
    exact hrows.trans List.map_eq_flatMap.symm
  exact ⟨c', by rw [hrun, hrows']⟩

/-- Three lines of a chunk, the middle one blank, the last one without a newline, and
nothing behind the terminator. -/
theorem chunk_lines_three :
    ∃ c', Loop.run chunkBody 4 (Chunker.set
        ⟨⟨44, [none, none], 0⟩, 0, 0, 0, [97, 44, 98, 10, 10, 99, 0]⟩ 0 6, []) =
      .ok (false, c', [[[97], [98]], [[]], [[99]]]) :=
  chunk_lines ⟨⟨44, [none, none], 0⟩, 0, 0, 0, [97, 44, 98, 10, 10, 99, 0]⟩ []
    [97, 44, 98, 10, 10, 99] [] (by decide) rfl (by decide) 4 (by decide)

end Otic.Utility
