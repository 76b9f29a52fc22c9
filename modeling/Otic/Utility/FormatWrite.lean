import Otic.Utility.Format

/-!
# Writing a parsed line (`format.c`)

`format_write` prints the fields of a line that was parsed, with the delimiter between
them, by one `sprintf` after the other.
-/

namespace Otic.Utility

def INT_MAX : ℕ := 2 ^ 31 - 1

/-- The characters that `%s` prints. -/
def readString (memory : List UInt8) (position : ℕ) : Except FormatFault (List UInt8) :=
  let text := (memory.drop position).takeWhile (· ≠ 0)
  if text.length < (memory.drop position).length then .ok text else .error .read

/-- `sprintf` of these characters to a position of `dest`: the number it returns, an `int`,
and the destination.  Of more characters than that the number is negative, `none`. -/
def sprintf (dest : List UInt8) (position : ℕ) (printed : List UInt8) :
    Except FormatFault (Option ℕ × List UInt8) :=
  if position + printed.length < dest.length then
    .ok (if printed.length ≤ INT_MAX then some printed.length else none,
      dest.take position ++ (printed ++ 0 :: dest.drop (position + printed.length + 1)))
  else .error .write

/-- `columns.content[index]`. -/
def Format.slot (format : Format) (index : ℕ) : Except FormatFault (Option ℕ) :=
  match format.content[index]? with
  | some slot => .ok slot
  | none => .error .slot

/-- What one round of `format_write` prints. -/
def Format.printed (format : Format) (memory : List UInt8) :
    Option ℕ → Except FormatFault (List UInt8)
  | none => .ok [format.delimiter]
  | some content => do return (← readString memory content) ++ [format.delimiter]

/-- The rounds that are left of the loop of `format_write`, and what follows it. -/
def Format.writeFrom (format : Format) (memory : List UInt8) :
    (rounds counter position : ℕ) → List UInt8 → Except FormatFault (ℕ × List UInt8)
  | 0, counter, position, dest => do
      match ← format.slot counter with
      | none => return (1, dest)
      | some content =>
          let text ← readString memory content
          let (_, dest) ← sprintf dest position text
          return (1, dest)
  | rounds + 1, counter, position, dest => do
      let printed ← format.printed memory (← format.slot counter)
      match ← sprintf dest position printed with
      | (none, _) => throw .tooLong
      | (some length, dest) =>
          format.writeFrom memory rounds (counter + 1) (position + length) dest

/-- `format_write`: `parsed - 1` is a `size_t`. -/
def Format.write (format : Format) (memory dest : List UInt8) :
    Except FormatFault (ℕ × List UInt8) :=
  format.writeFrom memory (if format.parsed = 0 then 2 ^ 64 - 1 else format.parsed - 1) 0 0 dest

/-- An `int` can count the characters of each field but the last, with its delimiter.  What
`sprintf` returns for the last one is not looked at. -/
def IntCounted (fields : List (List UInt8)) : Prop :=
  ∀ field ∈ fields.dropLast, field.length < INT_MAX

instance (fields : List (List UInt8)) : Decidable (IntCounted fields) := by
  unfold IntCounted
  infer_instance

theorem intCounted_cons_cons (field next : List UInt8) (fields : List (List UInt8)) :
    IntCounted (field :: next :: fields) ↔
      field.length < INT_MAX ∧ IntCounted (next :: fields) := by
  unfold IntCounted
  rw [List.dropLast_cons_cons, List.forall_mem_cons]

/-! ### One field -/

theorem readString_of_stringAt {memory : List UInt8} {position : ℕ} {text : List UInt8}
    (h : StringAt memory position text) : readString memory position = .ok text := by
  obtain ⟨hzero, rest, hrest⟩ := h
  have htake : (text ++ 0 :: rest).takeWhile (· ≠ (0 : UInt8)) = text := by
    rw [List.takeWhile_append_of_pos]
    · simp
    · intro char hchar
      have hne : char ≠ 0 := fun h => hzero (h ▸ hchar)
      simpa using hne
  unfold readString
  simp only [hrest, htake]
  rw [if_pos]
  simp

theorem printed_of_holds {format : Format} {memory : List UInt8} {slot : Option ℕ}
    {field : List UInt8} (h : Holds memory slot field) :
    format.printed memory slot = .ok (field ++ [format.delimiter]) := by
  cases slot with
  | none =>
    have hfield : field = [] := h
    rw [hfield]
    rfl
  | some content =>
    unfold Format.printed
    simp only [readString_of_stringAt h]
    rfl

theorem slot_of_drop {format : Format} {counter : ℕ} {slot : Option ℕ} {rest : List (Option ℕ)}
    (h : format.content.drop counter = slot :: rest) : format.slot counter = .ok slot := by
  have hget : format.content[counter]? = some slot := by
    have h' := congrArg List.head? h
    rwa [List.head?_drop, List.head?_cons] at h'
  unfold Format.slot
  rw [hget]

theorem sprintf_append {written tail printed : List UInt8} (hroom : printed.length < tail.length) :
    sprintf (written ++ tail) written.length printed =
      .ok (if printed.length ≤ INT_MAX then some printed.length else none,
        written ++ (printed ++ 0 :: tail.drop (printed.length + 1))) := by
  unfold sprintf
  rw [if_pos (by rw [List.length_append]; omega)]
  have hdrop : (written ++ tail).drop (written.length + printed.length + 1) =
      tail.drop (printed.length + 1) := by
    rw [Nat.add_assoc, List.drop_append]
    simp
  rw [List.take_left, hdrop]

/-! ### The loop -/

/-- The last field is printed without a delimiter; a null slot prints nothing. -/
theorem writeFrom_last {format : Format} {memory field : List UInt8} {slot : Option ℕ}
    {rest : List (Option ℕ)} {counter : ℕ} {written tail : List UInt8}
    (hcontent : format.content.drop counter = slot :: rest) (hslot : Holds memory slot field)
    (hnull : slot = none → ∃ rest, tail = 0 :: rest) (hroom : field.length < tail.length) :
    ∃ rest, format.writeFrom memory 0 counter written.length (written ++ tail) =
      .ok (1, written ++ (field ++ 0 :: rest)) := by
  rw [Format.writeFrom, slot_of_drop hcontent]
  cases slot with
  | none =>
    have hfield : field = [] := hslot
    obtain ⟨rest, rfl⟩ := hnull rfl
    subst hfield
    exact ⟨rest, rfl⟩
  | some content =>
    simp only [bind, Except.bind, readString_of_stringAt hslot, sprintf_append hroom]
    exact ⟨_, rfl⟩

/-- The rounds print the fields from `counter` on, if an `int` can count them. -/
theorem writeFrom_eq {format : Format} {memory : List UInt8} (fields : List (List UInt8)) :
    ∀ (field : List UInt8) (held beyond : List (Option ℕ)) (counter : ℕ)
        (written tail : List UInt8),
      format.content.drop counter = held ++ beyond →
      List.Forall₂ (Holds memory) held (field :: fields) →
      (held.head? = some none → ∃ rest, tail = 0 :: rest) →
      ([format.delimiter].intercalate (field :: fields)).length < tail.length →
      (IntCounted (field :: fields) →
        ∃ rest, format.writeFrom memory fields.length counter written.length (written ++ tail) =
          .ok (1, written ++ ([format.delimiter].intercalate (field :: fields) ++ 0 :: rest))) ∧
      (¬ IntCounted (field :: fields) →
        format.writeFrom memory fields.length counter written.length (written ++ tail) =
          .error .tooLong) := by
  induction fields with
  | nil =>
    intro field held beyond counter written tail hcontent hheld hnull hroom
    obtain ⟨slot, held, hslot, hrest, rfl⟩ := List.forall₂_cons_right_iff.mp hheld
    rw [List.forall₂_nil_right_iff] at hrest
    subst hrest
    rw [List.intercalate_singleton] at hroom ⊢
    constructor
    · intro _
      exact writeFrom_last hcontent hslot (fun h => hnull (congrArg some h)) hroom
    · intro hnot
      exact absurd (fun _ hnone => absurd hnone List.not_mem_nil) hnot
  | cons next fields ih =>
    intro field held beyond counter written tail hcontent hheld hnull hroom
    obtain ⟨slot, held, hslot, hrest, rfl⟩ := List.forall₂_cons_right_iff.mp hheld
    rw [List.intercalate_cons_cons] at hroom ⊢
    have hget := slot_of_drop hcontent
    have hnext : format.content.drop (counter + 1) = held ++ beyond := by
      rw [← List.drop_drop, hcontent]
      rfl
    have hlength : (field ++ [format.delimiter]).length < tail.length := by
      rw [List.length_append] at hroom
      omega
    rw [List.length_cons, Format.writeFrom, hget, intCounted_cons_cons]
    simp only [bind, Except.bind, printed_of_holds hslot, sprintf_append hlength]
    by_cases hshort : (field ++ [format.delimiter]).length ≤ INT_MAX
    · have hcounted : field.length < INT_MAX := by
        rw [List.length_append, List.length_singleton] at hshort
        omega
      simp only [if_pos hshort]
      have hih := ih next held beyond (counter + 1) (written ++ (field ++ [format.delimiter]))
        (0 :: tail.drop ((field ++ [format.delimiter]).length + 1)) hnext hrest
        (fun _ => ⟨_, rfl⟩)
        (by
          rw [List.length_append] at hroom
          rw [List.length_cons, List.length_drop]
          omega)
      rw [List.length_append, List.append_assoc] at hih
      constructor
      · rintro ⟨-, hrest⟩
        obtain ⟨rest, hwrite⟩ := hih.1 hrest
        refine ⟨rest, ?_⟩
        rw [hwrite]
        simp only [List.append_assoc]
      · intro hnot
        exact hih.2 fun hrest => hnot ⟨hcounted, hrest⟩
    · simp only [if_neg hshort]
      constructor
      · rintro ⟨hcounted, -⟩
        rw [List.length_append, List.length_singleton] at hshort
        omega
      · exact fun _ => rfl

/-! ### A line -/

/-- `format_write` after `format_parse` leaves the text of the line at `dest`. -/
def WritesBack (format : Format) (memory : List UInt8) (line : ℕ) (text dest : List UInt8) : Prop :=
  ∃ next memory' format' dest', format.parse memory line = .ok (next, memory', format') ∧
    format'.write memory' dest = .ok (1, dest') ∧ StringAt dest' 0 (lineOf text)

/-- What `format_write` makes of the fields of a line that was parsed. -/
theorem write_parsed (format : Format) (before text behind dest : List UInt8) (h : 0 ∉ text)
    (hsize : (fieldsOf format.delimiter text).length ≤ format.size)
    (hdest : (lineOf text).length < dest.length) :
    ∃ next memory' format',
      format.parse (before ++ (text ++ 0 :: behind)) before.length = .ok (next, memory', format') ∧
      (IntCounted (fieldsOf format.delimiter text) →
        ∃ rest, format'.write memory' dest = .ok (1, lineOf text ++ 0 :: rest)) ∧
      (¬ IntCounted (fieldsOf format.delimiter text) →
        format'.write memory' dest = .error .tooLong) := by
  have hparse := parse_eq format before text behind h hsize
  have hheld := holds_parsed format.delimiter before text behind h
  have hjoin : [format.delimiter].intercalate (fieldsOf format.delimiter text) = lineOf text :=
    List.intercalate_splitOn _
  obtain ⟨field, fields, hfields⟩ :=
    List.exists_cons_of_ne_nil (fieldsOf_ne_nil format.delimiter text)
  rw [hfields] at hheld hparse hjoin ⊢
  have hwrite := @writeFrom_eq { format with
      content := (some before.length :: slots format.delimiter before.length text) ++
        format.content.drop (field :: fields).length
      parsed := (field :: fields).length } _ fields field _ _ 0 [] dest rfl hheld
    (fun hnull => by cases hnull) (by rw [hjoin]; exact hdest)
  rw [hjoin] at hwrite
  exact ⟨_, _, _, hparse, hwrite⟩

/-- **Writing a line.**  Into a destination that is large enough, `format_write` writes the
line that was parsed exactly if an `int` can count what each `sprintf` but the last prints. -/
theorem writesBack_iff (format : Format) (before text behind dest : List UInt8) (h : 0 ∉ text)
    (hsize : (fieldsOf format.delimiter text).length ≤ format.size)
    (hdest : (lineOf text).length < dest.length) :
    WritesBack format (before ++ (text ++ 0 :: behind)) before.length text dest ↔
      IntCounted (fieldsOf format.delimiter text) := by
  obtain ⟨next, memory', format', hparse, hwrites, hfails⟩ :=
    write_parsed format before text behind dest h hsize hdest
  constructor
  · rintro ⟨next₁, memory₁, format₁, dest₁, hparse₁, hdone, -⟩
    rw [hparse] at hparse₁
    cases hparse₁
    by_contra hnot
    cases hdone.symm.trans (hfails hnot)
  · intro hcounted
    obtain ⟨rest, hdone⟩ := hwrites hcounted
    have hzero : 0 ∉ lineOf text := fun hmem => h (List.takeWhile_subset _ hmem)
    exact ⟨next, memory', format', _, hparse, hdone, hzero, rest, rfl⟩

/-- A line of three fields, the middle one empty, to a destination of eight bytes. -/
theorem writesBack_three :
    WritesBack ⟨44, [none, none, none], 0⟩ ([] ++ ([97, 44, 44, 98] ++ 0 :: [])) 0
      [97, 44, 44, 98] (List.replicate 8 1) :=
  (writesBack_iff ⟨44, [none, none, none], 0⟩ [] [97, 44, 44, 98] [] (List.replicate 8 1)
    (by decide) (by decide) (by decide)).mpr (by decide)

/-- A first field of 2^31 characters is longer than an `int` can tell. -/
theorem not_writesBack_long :
    ¬ WritesBack ⟨44, [none, none], 0⟩
      ([] ++ (List.replicate (2 ^ 31) 97 ++ [44, 98] ++ 0 :: [])) 0
      (List.replicate (2 ^ 31) 97 ++ [44, 98]) (List.replicate (2 ^ 31 + 3) 1) := by
  generalize hn : 2 ^ 31 = n
  have hother : ∀ char : UInt8, char ∉ [97, 44, 98] →
      char ∉ List.replicate n (97 : UInt8) ++ [44, 98] := by
    intro char hchar hmem
    rcases List.mem_append.mp hmem with hfield | hrest
    · exact hchar (List.eq_of_mem_replicate hfield ▸ List.mem_cons_self)
    · exact hchar (List.mem_cons_of_mem _ hrest)
  have hline : lineOf (List.replicate n 97 ++ [44, 98]) = List.replicate n 97 ++ [44, 98] := by
    unfold lineOf
    rw [List.takeWhile_append_of_pos]
    · rfl
    · intro char hchar
      rw [List.eq_of_mem_replicate hchar]
      rfl
  have hfields : fieldsOf 44 (List.replicate n 97 ++ [44, 98]) = [List.replicate n 97, [98]] := by
    have hfirst : (44 : UInt8) ∉ List.replicate n (97 : UInt8) := fun hmem => by
      cases List.eq_of_mem_replicate hmem
    rw [fieldsOf, hline, List.splitOn_append_cons_self_of_not_mem hfirst]
    rfl
  obtain ⟨next, memory', format', hparse, -, hfails⟩ :=
    write_parsed ⟨44, [none, none], 0⟩ [] (List.replicate n 97 ++ [44, 98]) []
      (List.replicate (n + 3) 1) (hother 0 (by decide)) (by rw [hfields]; exact le_refl _)
      (by rw [hline]; simp)
  rintro ⟨next₁, memory₁, format₁, dest₁, hparse₁, hdone, -⟩
  rw [List.length_nil] at hparse
  rw [hparse] at hparse₁
  cases hparse₁
  have hlong : ¬ IntCounted (fieldsOf 44 (List.replicate n 97 ++ [44, 98])) := by
    rw [hfields, intCounted_cons_cons, List.length_replicate, ← hn]
    exact fun hcounted => absurd hcounted.1 (by decide)
  cases hdone.symm.trans (hfails hlong)

end Otic.Utility
