import Otic.Library.Loop
import Otic.Base

/-!
# Lines of fields (`format.c`)

`format_parse` splits a line at its delimiters in place: every delimiter and the newline
are overwritten by a zero byte, and the slots of the format point to where the fields
start.  The memory is a list of bytes and a pointer a position in it; a read behind the
memory and a write behind the slots are faults.
-/

namespace Otic.Utility

/-- `'\\n'`. -/
def NEWLINE : UInt8 := 10

inductive FormatFault where
  /-- a byte past the memory was read -/
  | read
  /-- a slot that the columns do not have was used -/
  | slot
  /-- a byte past the destination was written -/
  | write
  /-- a pointer was moved by a negative result of `sprintf` -/
  | tooLong
deriving DecidableEq, Repr

/-- `format_t`; `columns.size` is the length of `content`, the slots that were allocated. -/
structure Format where
  delimiter : UInt8
  content : List (Option ℕ)
  parsed : ℕ
deriving DecidableEq, Repr

/-- `columns.size`. -/
def Format.size (format : Format) : ℕ := format.content.length

/-- `format_init`, with the slots as the allocation left them (`none` if it failed). -/
def Format.init (delimiter : UInt8) (allocated : Option (List (Option ℕ))) : Option Format :=
  allocated.map fun content => { delimiter, content, parsed := 0 }

/-- `*memory`. -/
def readByte (memory : List UInt8) (position : ℕ) : Except FormatFault UInt8 :=
  match memory[position]? with
  | some char => .ok char
  | none => .error .read

/-- `columns.content[index] = slot`. -/
def Format.store (format : Format) (index : ℕ) (slot : Option ℕ) : Except FormatFault Format :=
  if index < format.size then .ok { format with content := format.content.set index slot }
  else .error .slot

/-- The variables of `format_parse` in its loop; `ptr` is an index of the slots. -/
structure Scan where
  memory : List UInt8
  line : ℕ
  ptr : ℕ
  format : Format

/-- One round of the loop of `format_parse`. -/
def scanBody (s : Scan) : Except FormatFault (Bool × Scan) := do
  let char ← readByte s.memory s.line
  if char = 0 then
    return (false, s)
  else if char = NEWLINE then
    return (false, { s with memory := s.memory.set s.line 0 })
  else if char = s.format.delimiter then
    let memory := s.memory.set s.line 0
    let next ← readByte memory (s.line + 1)
    let slot := if next = s.format.delimiter ∨ next = NEWLINE then none else some (s.line + 1)
    let format ← s.format.store (s.ptr + 1) slot
    return (true, {
      memory, line := s.line + 1, ptr := s.ptr + 1
      format := { format with parsed := format.parsed + 1 } })
  else
    return (true, { s with line := s.line + 1 })

/-- `format_parse`: the position it returns, the memory and the format. -/
def Format.parse (format : Format) (memory : List UInt8) (line : ℕ) :
    Except FormatFault (ℕ × List UInt8 × Format) := do
  let format ← { format with parsed := 1 }.store 0 (some line)
  let (_, s) ← Loop.run scanBody (memory.length + 1) ⟨memory, line, 0, format⟩
  return (s.line + 1, s.memory, s.format)

/-! ### Text -/

/-- The text up to its first newline. -/
def lineOf (text : List UInt8) : List UInt8 := text.takeWhile (· ≠ NEWLINE)

/-- The fields of the first line. -/
def fieldsOf (delimiter : UInt8) (text : List UInt8) : List (List UInt8) :=
  (lineOf text).splitOn delimiter

/-- A C string in the memory. -/
def StringAt (memory : List UInt8) (position : ℕ) (text : List UInt8) : Prop :=
  0 ∉ text ∧ ∃ rest, memory.drop position = text ++ 0 :: rest

/-- What a slot holds: null stands for an empty field. -/
def Holds (memory : List UInt8) (slot : Option ℕ) (field : List UInt8) : Prop :=
  match slot with
  | none => field = []
  | some position => StringAt memory position field

@[simp] theorem lineOf_nil : lineOf [] = [] := rfl

theorem lineOf_cons (char : UInt8) (text : List UInt8) :
    lineOf (char :: text) = if char = NEWLINE then [] else char :: lineOf text := by
  unfold lineOf
  rw [List.takeWhile_cons]
  by_cases h : char = NEWLINE
  · simp [h]
  · simp [h]

@[simp] theorem fieldsOf_nil (delimiter : UInt8) : fieldsOf delimiter [] = [[]] := rfl

theorem fieldsOf_cons (delimiter char : UInt8) (text : List UInt8) :
    fieldsOf delimiter (char :: text) =
      if char = NEWLINE then [[]]
      else if char = delimiter then [] :: fieldsOf delimiter text
      else (fieldsOf delimiter text).modifyHead (List.cons char) := by
  unfold fieldsOf
  rw [lineOf_cons]
  by_cases hnewline : char = NEWLINE
  · rw [if_pos hnewline, if_pos hnewline]
    rfl
  · rw [if_neg hnewline, if_neg hnewline, List.splitOn_cons_eq_if_modifyHead]
    simp only [beq_iff_eq]

theorem fieldsOf_ne_nil (delimiter : UInt8) (text : List UInt8) : fieldsOf delimiter text ≠ [] :=
  List.splitOn_ne_nil _ _

theorem stringAt_cons {done rest : List UInt8} {char : UInt8} {text : List UInt8} (hchar : char ≠ 0)
    (h : StringAt (done ++ char :: rest) (done.length + 1) text) :
    StringAt (done ++ char :: rest) done.length (char :: text) := by
  obtain ⟨hzero, behind, hbehind⟩ := h
  refine ⟨?_, behind, ?_⟩
  · rw [List.mem_cons, not_or]
    exact ⟨hchar.symm, hzero⟩
  · rw [List.drop_append_of_le_length (le_refl _), List.drop_length, List.nil_append,
      List.cons_append, ← hbehind]
    simp [List.drop_append]

theorem stringAt_nil (done rest : List UInt8) : StringAt (done ++ 0 :: rest) done.length [] := by
  refine ⟨List.not_mem_nil, rest, ?_⟩
  rw [List.drop_append_of_le_length (le_refl _), List.drop_length]

/-! ### What a scan leaves -/

/-- The memory behind `line` after the scan. -/
def scanned (delimiter : UInt8) : (text behind : List UInt8) → List UInt8
  | [], behind => 0 :: behind
  | char :: text, behind =>
      if char = NEWLINE then 0 :: (text ++ 0 :: behind)
      else (if char = delimiter then 0 else char) :: scanned delimiter text behind

theorem length_scanned (delimiter : UInt8) (text behind : List UInt8) :
    (scanned delimiter text behind).length = text.length + behind.length + 1 := by
  induction text with
  | nil => simp [scanned]
  | cons char text ih =>
    rw [scanned]
    split
    · simp only [List.length_cons, List.length_append]
      omega
    · simp only [List.length_cons, ih]
      omega

/-- The slots for the fields behind the first. -/
def slots (delimiter : UInt8) : (line : ℕ) → (text : List UInt8) → List (Option ℕ)
  | _, [] => []
  | line, char :: text =>
      if char = NEWLINE then []
      else if char = delimiter then
        (if text.head? = some delimiter ∨ text.head? = some NEWLINE then none
          else some (line + 1)) :: slots delimiter (line + 1) text
      else slots delimiter (line + 1) text

theorem length_slots (delimiter : UInt8) (text : List UInt8) :
    ∀ line, (slots delimiter line text).length + 1 = (fieldsOf delimiter text).length := by
  induction text with
  | nil => exact fun _ => rfl
  | cons char text ih =>
    intro line
    rw [slots, fieldsOf_cons]
    by_cases hnewline : char = NEWLINE
    · rw [if_pos hnewline, if_pos hnewline]
      rfl
    · rw [if_neg hnewline, if_neg hnewline]
      by_cases hdelimiter : char = delimiter
      · rw [if_pos hdelimiter, if_pos hdelimiter, List.length_cons, List.length_cons, ih]
      · rw [if_neg hdelimiter, if_neg hdelimiter, List.length_modifyHead, ih]

/-- A field that a delimiter or a newline follows at once is empty. -/
theorem fieldsOf_head {delimiter : UInt8} {text : List UInt8} {field : List UInt8}
    {fields : List (List UInt8)} (h : fieldsOf delimiter text = field :: fields)
    (hhead : text.head? = some delimiter ∨ text.head? = some NEWLINE) : field = [] := by
  cases text with
  | nil => simp at hhead
  | cons char text =>
    rw [fieldsOf_cons] at h
    simp only [List.head?_cons, Option.some.injEq] at hhead
    by_cases hnewline : char = NEWLINE
    · rw [if_pos hnewline] at h
      cases h
      rfl
    · rw [if_neg hnewline, if_pos (hhead.resolve_right hnewline)] at h
      cases h
      rfl

/-- The slots hold the fields in the memory that the scan leaves. -/
theorem holds_scanned (delimiter : UInt8) (behind : List UInt8) (text : List UInt8) (h : 0 ∉ text) :
    ∀ done : List UInt8, ∃ field fields, fieldsOf delimiter text = field :: fields ∧
      StringAt (done ++ scanned delimiter text behind) done.length field ∧
      List.Forall₂ (Holds (done ++ scanned delimiter text behind))
        (slots delimiter done.length text) fields := by
  induction text with
  | nil =>
    intro done
    exact ⟨[], [], rfl, stringAt_nil done behind, List.Forall₂.nil⟩
  | cons char text ih =>
    intro done
    rw [List.mem_cons, not_or] at h
    obtain ⟨hzero, htext⟩ := h
    rw [fieldsOf_cons, slots, scanned]
    by_cases hnewline : char = NEWLINE
    · simp only [if_pos hnewline]
      exact ⟨[], [], rfl, stringAt_nil done _, List.Forall₂.nil⟩
    · simp only [if_neg hnewline]
      by_cases hdelimiter : char = delimiter
      · simp only [if_pos hdelimiter]
        obtain ⟨field, fields, hfields, hfirst, hrest⟩ := ih htext (done ++ [0])
        simp only [List.append_assoc, List.singleton_append, List.length_append,
          List.length_singleton] at hfirst hrest
        refine ⟨[], fieldsOf delimiter text, rfl, stringAt_nil done _, ?_⟩
        rw [hfields]
        apply List.Forall₂.cons
        · split
          · rename_i hhead
            exact fieldsOf_head hfields hhead
          · exact hfirst
        · exact hrest
      · simp only [if_neg hdelimiter]
        obtain ⟨field, fields, hfields, hfirst, hrest⟩ := ih htext (done ++ [char])
        simp only [List.append_assoc, List.singleton_append, List.length_append,
          List.length_singleton] at hfirst hrest
        refine ⟨char :: field, fields, by rw [hfields]; rfl, ?_, hrest⟩
        exact stringAt_cons (Ne.symm hzero) hfirst

/-! ### The loop -/

@[simp] theorem readByte_append (done rest : List UInt8) (char : UInt8) :
    readByte (done ++ char :: rest) done.length = .ok char := by
  unfold readByte
  rw [List.getElem?_append_right (le_refl _), Nat.sub_self]
  rfl

@[simp] theorem set_append_length (done rest : List UInt8) (char char' : UInt8) :
    (done ++ char :: rest).set done.length char' = done ++ char' :: rest := by
  rw [List.set_append_right _ _ (le_refl _), Nat.sub_self]
  rfl

theorem scanBody_end (done behind : List UInt8) (ptr : ℕ) (format : Format) :
    scanBody ⟨done ++ 0 :: behind, done.length, ptr, format⟩ =
      .ok (false, ⟨done ++ 0 :: behind, done.length, ptr, format⟩) := by
  unfold scanBody
  simp only [readByte_append]
  rfl

theorem scanBody_newline (done rest : List UInt8) (ptr : ℕ) (format : Format) :
    scanBody ⟨done ++ NEWLINE :: rest, done.length, ptr, format⟩ =
      .ok (false, ⟨done ++ 0 :: rest, done.length, ptr, format⟩) := by
  unfold scanBody
  simp only [readByte_append, set_append_length]
  rfl

theorem scanBody_other {char : UInt8} (hzero : char ≠ 0) (hnewline : char ≠ NEWLINE)
    (done rest : List UInt8) (ptr : ℕ) {format : Format} (h : char ≠ format.delimiter) :
    scanBody ⟨done ++ char :: rest, done.length, ptr, format⟩ =
      .ok (true, ⟨done ++ char :: rest, done.length + 1, ptr, format⟩) := by
  unfold scanBody
  simp only [readByte_append, bind, Except.bind]
  rw [if_neg hzero, if_neg hnewline, if_neg h]
  rfl

/-- A delimiter: the next byte decides what the next slot gets. -/
theorem scanBody_delimiter {format : Format} (hzero : format.delimiter ≠ 0)
    (hnewline : format.delimiter ≠ NEWLINE) (done text behind : List UInt8) (ptr : ℕ) :
    scanBody ⟨done ++ format.delimiter :: (text ++ 0 :: behind), done.length, ptr, format⟩ = do
      let format ← format.store (ptr + 1)
        (if text.head? = some format.delimiter ∨ text.head? = some NEWLINE then none
          else some (done.length + 1))
      return (true, ⟨done ++ 0 :: (text ++ 0 :: behind), done.length + 1, ptr + 1,
        { format with parsed := format.parsed + 1 }⟩) := by
  have hmemory : done ++ 0 :: (text ++ 0 :: behind) = (done ++ [0]) ++ (text ++ 0 :: behind) := by
    rw [List.append_assoc]
    rfl
  have hnext : ∃ next, readByte (done ++ 0 :: (text ++ 0 :: behind)) (done.length + 1) = .ok next ∧
      ((next = format.delimiter ∨ next = NEWLINE) ↔
        (text.head? = some format.delimiter ∨ text.head? = some NEWLINE)) := by
    have hlength : done.length + 1 = (done ++ [0]).length := by simp
    rw [hmemory, hlength]
    cases text with
    | nil =>
      refine ⟨0, readByte_append (done ++ [0]) behind 0, ?_⟩
      exact iff_of_false (by rw [not_or]; exact ⟨hzero.symm, by decide⟩) (by simp)
    | cons char text =>
      refine ⟨char, readByte_append (done ++ [0]) (text ++ 0 :: behind) char, ?_⟩
      simp
  obtain ⟨next, hread, hiff⟩ := hnext
  unfold scanBody
  simp only [readByte_append, set_append_length, bind, Except.bind, hread, hiff]
  rw [if_neg hzero, if_neg hnewline, if_pos trivial]

/-- The format after the slots behind `ptr` were stored one by one. -/
def Format.fill (format : Format) (ptr : ℕ) (slots : List (Option ℕ)) : Format :=
  { format with
    content := format.content.take (ptr + 1) ++ slots ++
      format.content.drop (ptr + 1 + slots.length)
    parsed := format.parsed + slots.length }

theorem Format.fill_nil (format : Format) (ptr : ℕ) : format.fill ptr [] = format := by
  simp [Format.fill]

theorem Format.store_of_lt {format : Format} {index : ℕ} (h : index < format.size)
    (slot : Option ℕ) :
    format.store index slot = .ok { format with content := format.content.set index slot } :=
  if_pos h

theorem Format.store_of_ge {format : Format} {index : ℕ} (h : format.size ≤ index)
    (slot : Option ℕ) : format.store index slot = .error .slot :=
  if_neg (Nat.not_lt.mpr h)

theorem Format.fill_cons {format : Format} {ptr : ℕ} (h : ptr + 1 < format.size)
    (slot : Option ℕ) (slots : List (Option ℕ)) :
    Format.fill { format with
      content := format.content.set (ptr + 1) slot
      parsed := format.parsed + 1 } (ptr + 1) slots = format.fill ptr (slot :: slots) := by
  have htake : (format.content.set (ptr + 1) slot).take (ptr + 1 + 1) =
      format.content.take (ptr + 1) ++ [slot] := by
    rw [List.take_add_one, List.take_set_of_le (le_refl _), List.getElem?_set_self h]
    rfl
  have hdrop : (format.content.set (ptr + 1) slot).drop (ptr + 1 + 1 + slots.length) =
      format.content.drop (ptr + 1 + (slots.length + 1)) := by
    rw [List.drop_set_of_lt (by omega)]
    congr 1
    omega
  unfold Format.fill
  simp only [htake, hdrop, List.length_cons, List.append_assoc, List.cons_append]
  congr 1
  omega

/-- The scan behind a delimiter that there is a slot for. -/
theorem scan_delimiter {format : Format} (hzero : format.delimiter ≠ 0)
    (hnewline : format.delimiter ≠ NEWLINE) {ptr : ℕ} (hptr : ptr + 1 < format.size)
    (done text behind : List UInt8) (fuel : ℕ) :
    Loop.run scanBody (fuel + 1)
        ⟨done ++ format.delimiter :: (text ++ 0 :: behind), done.length, ptr, format⟩ =
      Loop.run scanBody fuel ⟨done ++ [0] ++ (text ++ 0 :: behind), (done ++ [0]).length, ptr + 1,
        { format with
          content := format.content.set (ptr + 1)
            (if text.head? = some format.delimiter ∨ text.head? = some NEWLINE then none
              else some (done.length + 1))
          parsed := format.parsed + 1 }⟩ := by
  have hstep := scanBody_delimiter hzero hnewline done text behind ptr
  rw [Format.store_of_lt hptr] at hstep
  rw [Loop.run_of_continue hstep, List.append_assoc, List.length_append]
  rfl

theorem scan_other {char : UInt8} (hzero : char ≠ 0) (hnewline : char ≠ NEWLINE)
    {format : Format} (hdelimiter : char ≠ format.delimiter) (done rest : List UInt8)
    (ptr fuel : ℕ) :
    Loop.run scanBody (fuel + 1) ⟨done ++ char :: rest, done.length, ptr, format⟩ =
      Loop.run scanBody fuel ⟨done ++ [char] ++ rest, (done ++ [char]).length, ptr, format⟩ := by
  rw [Loop.run_of_continue (scanBody_other hzero hnewline done rest ptr hdelimiter),
    List.append_assoc, List.length_append]
  rfl

/-- The scan ends behind the line, if there is a slot for every field. -/
theorem scan_run (behind text : List UInt8) (h : 0 ∉ text) :
    ∀ (done : List UInt8) (ptr fuel : ℕ) (format : Format), text.length < fuel →
      ptr + (slots format.delimiter done.length text).length < format.size →
      Loop.run scanBody fuel ⟨done ++ (text ++ 0 :: behind), done.length, ptr, format⟩ =
        .ok (false, ⟨done ++ scanned format.delimiter text behind,
          done.length + (lineOf text).length,
          ptr + (slots format.delimiter done.length text).length,
          format.fill ptr (slots format.delimiter done.length text)⟩) := by
  induction text with
  | nil =>
    intro done ptr fuel format hfuel hsize
    obtain ⟨fuel, rfl⟩ : ∃ k, fuel = k + 1 := ⟨fuel - 1, by omega⟩
    rw [List.nil_append, Loop.run_of_stop (scanBody_end done behind ptr format), slots,
      Format.fill_nil]
    rfl
  | cons char text ih =>
    intro done ptr fuel format hfuel hsize
    obtain ⟨fuel, rfl⟩ : ∃ k, fuel = k + 1 := ⟨fuel - 1, by omega⟩
    rw [List.mem_cons, not_or] at h
    obtain ⟨hzero, htext⟩ := h
    have hfuel' : text.length < fuel := by
      rw [List.length_cons] at hfuel
      omega
    have hsucc (k n : ℕ) : k + 1 + n = k + (n + 1) := by omega
    rw [slots] at hsize ⊢
    rw [scanned, lineOf_cons, List.cons_append]
    by_cases hnewline : char = NEWLINE
    · subst hnewline
      rw [Loop.run_of_stop (scanBody_newline done (text ++ 0 :: behind) ptr format)]
      simp [Format.fill_nil]
    · simp only [if_neg hnewline] at hsize ⊢
      by_cases hdelimiter : char = format.delimiter
      · subst hdelimiter
        simp only [if_true] at hsize ⊢
        rw [List.length_cons] at hsize
        have hptr : ptr + 1 < format.size := by omega
        rw [scan_delimiter (Ne.symm hzero) hnewline hptr,
          ih htext (done ++ [0]) (ptr + 1) fuel _ hfuel' ?_]
        · simp only [List.append_assoc, List.singleton_append, List.length_append,
            List.length_singleton]
          rw [Format.fill_cons hptr, List.length_cons, List.length_cons, hsucc, hsucc]
        · simp only [List.length_append, List.length_singleton, Format.size, List.length_set]
          rw [Format.size] at hsize
          omega
      · simp only [if_neg hdelimiter] at hsize ⊢
        have hlength : (done ++ [char]).length = done.length + 1 := List.length_append
        rw [scan_other (Ne.symm hzero) hnewline hdelimiter,
          ih htext (done ++ [char]) ptr fuel format hfuel' (by rwa [hlength]), hlength,
          List.append_assoc, List.singleton_append, List.length_cons, hsucc]

/-- With more fields than slots the scan stores behind the slots. -/
theorem scan_fails (behind text : List UInt8) (h : 0 ∉ text) :
    ∀ (done : List UInt8) (ptr fuel : ℕ) (format : Format), text.length < fuel →
      ptr < format.size →
      format.size ≤ ptr + (slots format.delimiter done.length text).length →
      Loop.run scanBody fuel ⟨done ++ (text ++ 0 :: behind), done.length, ptr, format⟩ =
        .error .slot := by
  induction text with
  | nil =>
    intro done ptr fuel format hfuel hptr hsize
    rw [slots, List.length_nil] at hsize
    omega
  | cons char text ih =>
    intro done ptr fuel format hfuel hptr hsize
    obtain ⟨fuel, rfl⟩ : ∃ k, fuel = k + 1 := ⟨fuel - 1, by omega⟩
    rw [List.mem_cons, not_or] at h
    obtain ⟨hzero, htext⟩ := h
    have hfuel' : text.length < fuel := by
      rw [List.length_cons] at hfuel
      omega
    rw [slots] at hsize
    rw [List.cons_append]
    by_cases hnewline : char = NEWLINE
    · rw [if_pos hnewline, List.length_nil] at hsize
      omega
    · rw [if_neg hnewline] at hsize
      by_cases hdelimiter : char = format.delimiter
      · subst hdelimiter
        rw [if_pos rfl, List.length_cons] at hsize
        by_cases hnext : ptr + 1 < format.size
        · rw [scan_delimiter (Ne.symm hzero) hnewline hnext]
          apply ih htext (done ++ [0]) (ptr + 1) fuel _ hfuel'
          · simp only [Format.size, List.length_set]
            exact hnext
          · simp only [List.length_append, List.length_singleton, Format.size, List.length_set]
            rw [Format.size] at hsize
            omega
        · have hstep := scanBody_delimiter (Ne.symm hzero) hnewline done text behind ptr
          rw [Format.store_of_ge (Nat.le_of_not_lt hnext)] at hstep
          exact Loop.run_of_error hstep fuel
      · rw [if_neg hdelimiter] at hsize
        have hlength : (done ++ [char]).length = done.length + 1 := List.length_append
        rw [scan_other (Ne.symm hzero) hnewline hdelimiter]
        exact ih htext (done ++ [char]) ptr fuel format hfuel' hptr (by rwa [hlength])

/-! ### A line -/

/-- What `format_parse` leaves of a line that there are enough slots for. -/
theorem parse_eq (format : Format) (before text behind : List UInt8) (h : 0 ∉ text)
    (hsize : (fieldsOf format.delimiter text).length ≤ format.size) :
    format.parse (before ++ (text ++ 0 :: behind)) before.length =
      .ok (before.length + (lineOf text).length + 1,
        before ++ scanned format.delimiter text behind,
        { format with
          content := (some before.length :: slots format.delimiter before.length text) ++
            format.content.drop (fieldsOf format.delimiter text).length
          parsed := (fieldsOf format.delimiter text).length }) := by
  have hlength := length_slots format.delimiter text before.length
  have hzero : 0 < format.size := by omega
  have hfirst := @Format.store_of_lt { format with parsed := 1 } _ hzero
    (some before.length)
  have hroom : 0 + (slots format.delimiter before.length text).length <
      (format.content.set 0 (some before.length)).length := by
    rw [Format.size] at hsize
    rw [List.length_set]
    omega
  have hscan := scan_run behind text h before 0 ((before ++ (text ++ 0 :: behind)).length + 1)
    { format with parsed := 1, content := format.content.set 0 (some before.length) }
    (by simp only [List.length_append]; omega) hroom
  have htake : (format.content.set 0 (some before.length)).take 1 = [some before.length] := by
    rw [Format.size] at hzero
    rw [List.take_add_one, List.getElem?_set_self hzero]
    rfl
  unfold Format.parse
  simp only [hfirst, hscan, bind, Except.bind, pure, Except.pure, Format.fill, Nat.zero_add, htake]
  rw [List.drop_set_of_lt (by omega), Nat.add_comm 1, hlength, List.append_assoc]
  rfl

theorem parse_fails (format : Format) (before text behind : List UInt8) (h : 0 ∉ text)
    (hsize : format.size < (fieldsOf format.delimiter text).length) :
    format.parse (before ++ (text ++ 0 :: behind)) before.length = .error .slot := by
  have hlength := length_slots format.delimiter text before.length
  unfold Format.parse
  by_cases hzero : 0 < format.size
  · have hfirst := @Format.store_of_lt { format with parsed := 1 } _ hzero
      (some before.length)
    have hroom : (format.content.set 0 (some before.length)).length ≤
        0 + (slots format.delimiter before.length text).length := by
      rw [Format.size] at hsize
      rw [List.length_set]
      omega
    have hscan := scan_fails behind text h before 0 ((before ++ (text ++ 0 :: behind)).length + 1)
      { format with parsed := 1, content := format.content.set 0 (some before.length) }
      (by simp only [List.length_append]; omega)
      (by rw [Format.size, List.length_set]; exact hzero) hroom
    simp only [hfirst, hscan, bind, Except.bind]
  · have hfirst := @Format.store_of_ge { format with parsed := 1 } _
      (Nat.le_of_not_lt hzero) (some before.length)
    simp only [hfirst, bind, Except.bind]

/-- The slots of a line that was parsed hold its fields. -/
theorem holds_parsed (delimiter : UInt8) (before text behind : List UInt8) (h : 0 ∉ text) :
    List.Forall₂ (Holds (before ++ scanned delimiter text behind))
      (some before.length :: slots delimiter before.length text) (fieldsOf delimiter text) := by
  obtain ⟨field, fields, hfields, hfirst, hrest⟩ := holds_scanned delimiter behind text h before
  rw [hfields]
  exact List.Forall₂.cons hfirst hrest

/-- `format_parse` splits the line of `text` at `line` into the slots. -/
def SplitsLine (format : Format) (memory : List UInt8) (line : ℕ) (text : List UInt8) : Prop :=
  ∃ next memory' format', format.parse memory line = .ok (next, memory', format') ∧
    format'.size = format.size ∧ format'.parsed = (fieldsOf format.delimiter text).length ∧
    (∃ held beyond, format'.content = held ++ beyond ∧
      List.Forall₂ (Holds memory') held (fieldsOf format.delimiter text) ∧
      ∀ slot ∈ beyond, slot = none) ∧
    next = line + (lineOf text).length + 1

/-- **Parsing a line.**  The slots hold the fields of the line and nothing else exactly if
there is a slot for every field and the slots behind the last field were null before. -/
theorem splitsLine_iff (format : Format) (before text behind : List UInt8) (h : 0 ∉ text) :
    SplitsLine format (before ++ (text ++ 0 :: behind)) before.length text ↔
      (fieldsOf format.delimiter text).length ≤ format.size ∧
        ∀ slot ∈ format.content.drop (fieldsOf format.delimiter text).length, slot = none := by
  have hlength := length_slots format.delimiter text before.length
  constructor
  · rintro ⟨next, memory', format', hparse, -, -, ⟨held, beyond, hcontent, hheld, hbeyond⟩, -⟩
    by_cases hsize : (fieldsOf format.delimiter text).length ≤ format.size
    · refine ⟨hsize, ?_⟩
      rw [parse_eq format before text behind h hsize] at hparse
      cases hparse
      have hdrop := List.append_inj_right hcontent
        (by rw [hheld.length_eq, List.length_cons, hlength])
      rw [hdrop]
      exact hbeyond
    · rw [parse_fails format before text behind h (Nat.lt_of_not_le hsize)] at hparse
      cases hparse
  · rintro ⟨hsize, hnull⟩
    refine ⟨_, _, _, parse_eq format before text behind h hsize, ?_, rfl,
      ⟨_, _, rfl, holds_parsed format.delimiter before text behind h, hnull⟩, rfl⟩
    rw [Format.size] at hsize ⊢
    simp only [List.length_append, List.length_cons, List.length_drop, Format.size]
    omega

/-- Three fields of a line for three slots. -/
theorem splitsLine_three :
    SplitsLine ⟨44, [none, none, none], 0⟩ ([] ++ ([97, 44, 44] ++ 0 :: [])) 0 [97, 44, 44] :=
  (splitsLine_iff ⟨44, [none, none, none], 0⟩ [] [97, 44, 44] [] (by decide)).mpr (by decide)

/-- After the line of two fields a second line of one field keeps the second slot, and a
line of three fields stores behind the two slots. -/
theorem not_splitsLine_second :
    (∃ next memory' format', (Format.mk 44 [none, none] 0).parse [97, 44, 98, 0, 97, 0] 0 =
        .ok (next, memory', format') ∧ ¬ SplitsLine format' memory' 4 [97]) ∧
      ¬ SplitsLine ⟨44, [none, none], 0⟩ [97, 44, 98, 44, 99, 0] 0 [97, 44, 98, 44, 99] := by
  constructor
  · refine ⟨4, [97, 0, 98, 0, 97, 0], ⟨44, [some 0, some 2], 2⟩, by decide, ?_⟩
    rintro ⟨next, memory', format', hparse, -, -, ⟨held, beyond, hcontent, hheld, hbeyond⟩, -⟩
    have hdone : Format.parse ⟨44, [some 0, some 2], 2⟩ [97, 0, 98, 0, 97, 0] 4 =
        .ok (6, [97, 0, 98, 0, 97, 0], ⟨44, [some 4, some 2], 1⟩) := by decide
    rw [hdone] at hparse
    cases hparse
    -- one field is one slot, so the second is behind the fields
    obtain ⟨slot, rfl⟩ := List.length_eq_one_iff.mp hheld.length_eq
    rw [List.singleton_append, List.cons.injEq] at hcontent
    have hstale := hbeyond (some 2) (by rw [← hcontent.2]; exact List.mem_singleton_self _)
    cases hstale
  · rintro ⟨next, memory', format', hparse, -⟩
    have hdone : Format.parse ⟨44, [none, none], 0⟩ [97, 44, 98, 44, 99, 0] 0 = .error .slot := by
      decide
    rw [hdone] at hparse
    cases hparse

end Otic.Utility
