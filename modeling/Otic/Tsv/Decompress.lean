import Otic.Pack.Plain
import Otic.Tsv.Compress

/-!
# Unpacking a file of lines (`decompress` in `tsvParser.c`)

A row is printed as a line of four columns: the column that packing does not look at is
gone, and the unit is the one that the sensor was first packed with.  A value comes back
as the text it was, if it is a text or an integer as it is usually written.
-/

namespace Otic.Tsv

open Utility Pack Unpack

/-! ### Printing -/

/-- `"%lf"`, for the quotient that is passed for a tick, and for the bits of a double. -/
structure Printing where
  timestamp : Option UInt64 → List UInt8
  double : UInt64 → List UInt8

/-- The fourth column; `none` for the types that `flusher2` has no case for.  The reader puts
a terminator behind every string. -/
def valueText (printing : Printing) : Oval → Option (List UInt8)
  | .intPos lval => some (Decimal.numeral lval.toNat)
  | .intNeg lval => some (45 :: Decimal.numeral lval.toNat)
  | .double dval => some (printing.double dval)
  | .string block _ => some (Bytes.untilZero block)
  | .null => some []
  | .true | .false | .float _ _ | .array _ | .rawbuffer | .eof => none

/-- `flusher2`: what it prints. -/
def flusher2 (printing : Printing) (row : Row) : List UInt8 :=
  match valueText printing row.value with
  | none => []
  | some value =>
      printing.timestamp row.ts ++ TAB :: (row.name ++ TAB :: (row.unit ++ TAB ::
        (value ++ [NEWLINE])))

/-- `decompress`: what it prints.  The file is whole: every `fread` gets what it asks for. -/
def decompress (zstd : Zstd) (printing : Printing) (inputFile : List UInt8) :
    Exec (List UInt8) := do
  let u ← readFile zstd true [1] inputFile
  return (u.calls.map fun call => flusher2 printing call.2).flatten

/-! ### Values -/

/-- A text that is packed and printed again as it is. -/
inductive Canonical : List UInt8 → Prop
  | empty : Canonical []
  | natural {n : ℕ} (h : n < 2 ^ 63) : Canonical (Decimal.numeral n)
  | negative {n : ℕ} (hpos : 0 < n) (h : n < 2 ^ 63) : Canonical (45 :: Decimal.numeral n)
  | text {text : List UInt8} (h : isNumeric text = false) : Canonical text

/-- What is printed for a value; a double is one that compares equal. -/
inductive Reprints (numbers : Numbers) (printing : Printing) : List UInt8 → List UInt8 → Prop
  | same {text : List UInt8} (h : Canonical text) : Reprints numbers printing text text
  | double {text : List UInt8} {bits : UInt64} (hnumeric : isNumeric text = true)
      (hpoint : getDecPos text ≠ 0) (h : SameDouble bits (numbers.strtod text)) :
      Reprints numbers printing text (printing.double bits)

/-- A value that is printed again: it has a point or is canonical, and an empty one is not
cut. -/
def Printable (marked : Line × Bool) : Prop :=
  (Canonical marked.1.value.text ∨
      isNumeric marked.1.value.text = true ∧ getDecPos marked.1.value.text ≠ 0) ∧
    (marked.1.value.text = [] → marked.2 = false)

theorem isNumeric_numeral (n : ℕ) : isNumeric (Decimal.numeral n) = true := by
  rw [isNumeric, List.all_eq_true]
  exact fun char hchar => decide_eq_true (Or.inl (Decimal.isDigit_numeral n char hchar))

theorem getDecPos_eq_zero {text : List UInt8} (h : 46 ∉ text) : getDecPos text = 0 := by
  have hdrop : text.dropWhile (· ≠ 46) = [] := by
    rw [List.dropWhile_eq_nil_iff]
    exact fun char hchar => decide_eq_true fun heq => h (heq ▸ hchar)
  rw [getDecPos, hdrop]
  rfl

theorem point_notMem_numeral (n : ℕ) : 46 ∉ Decimal.numeral n :=
  fun hmem => absurd (Decimal.isDigit_numeral n 46 hmem) (by decide)

theorem digits_numeral (n : ℕ) : digits (Decimal.numeral n) = n := by
  rw [digits, Decimal.takeWhile_numeral, Decimal.value_numeral]

theorem isDigit_apart {char : UInt8} (h : Decimal.IsDigit char) :
    isspace char = false ∧ char ≠ 45 ∧ char ≠ 43 := by
  have hlow := UInt8.le_iff_toNat_le.mp h.1
  have hnumber : (48 : UInt8).toNat = 48 ∧ (45 : UInt8).toNat = 45 ∧ (43 : UInt8).toNat = 43 ∧
    (32 : UInt8).toNat = 32 ∧ (13 : UInt8).toNat = 13 := ⟨rfl, rfl, rfl, rfl, rfl⟩
  refine ⟨decide_eq_false ?_, ?_, ?_⟩
  · rintro (rfl | ⟨-, hspace⟩)
    · omega
    · have := UInt8.le_iff_toNat_le.mp hspace
      omega
  · rintro rfl
    omega
  · rintro rfl
    omega

theorem strtol_numeral {n : ℕ} (h : n < 2 ^ 63) : strtol (Decimal.numeral n) = n := by
  have hdigits := digits_numeral n
  have hdigit := Decimal.isDigit_numeral n
  obtain ⟨char, text, htext⟩ := List.exists_cons_of_ne_nil (Decimal.numeral_ne_nil n)
  rw [htext] at hdigits hdigit ⊢
  obtain ⟨hspace, hminus, hplus⟩ := isDigit_apart (hdigit char List.mem_cons_self)
  rw [strtol, List.dropWhile_cons_of_neg (by rw [hspace]; simp)]
  dsimp only
  rw [if_neg hminus, if_neg hplus, hdigits]
  omega

theorem strtol_negative {n : ℕ} (h : n < 2 ^ 63) : strtol (45 :: Decimal.numeral n) = -n := by
  rw [strtol, List.dropWhile_cons_of_neg (by decide)]
  dsimp only
  rw [if_pos rfl, digits_numeral]
  omega

variable {zstd : Zstd} {numbers : Numbers} {printing : Printing} {marked : Line × Bool} {c : Call}

/-- What a value that is not cut is injected as. -/
theorem Injected.value_some (h : Injected numbers marked c)
    (hvalue : marked.1.value.text ≠ []) :
    ∃ str : CStr, str.bytes = marked.1.value.text ∧ valueOf numbers (some str) = .ok c.value := by
  obtain ⟨content, hcontent, hv⟩ := h.value
  rw [if_neg fun h => hvalue h.1, Option.map_eq_some_iff] at hcontent
  obtain ⟨str, rfl, hbytes⟩ := hcontent
  exact ⟨str, hbytes, hv⟩

theorem valueOf_natural {str : CStr} {n : ℕ} (h : str.bytes = Decimal.numeral n)
    (hn : n < 2 ^ 63) : valueOf numbers (some str) = .ok (.intPos (.ofNat n)) := by
  have hpoint := getDecPos_eq_zero (point_notMem_numeral n)
  simp only [valueOf, h, isNumeric_numeral, hpoint, strtol_numeral hn, if_true, Int.toNat_natCast]
  rw [if_pos (Int.natCast_nonneg n)]

theorem valueOf_negative {str : CStr} {n : ℕ} (h : str.bytes = 45 :: Decimal.numeral n)
    (hpos : 0 < n) (hn : n < 2 ^ 63) :
    valueOf numbers (some str) = .ok (.intNeg (.ofNat n)) := by
  have hmem : 46 ∉ 45 :: Decimal.numeral n := by
    rw [List.mem_cons, not_or]
    exact ⟨by decide, point_notMem_numeral n⟩
  have hnumeric : isNumeric (45 :: Decimal.numeral n) = true := by
    have := isNumeric_numeral n
    rw [isNumeric] at this ⊢
    rw [List.all_cons, this]
    rfl
  simp only [valueOf, h, hnumeric, getDecPos_eq_zero hmem, strtol_negative hn, if_true]
  rw [if_neg (by omega), if_neg (by omega), Int.neg_neg, Int.toNat_natCast]

/-- **A value** is printed again. -/
theorem reprints_of_delivered (h : Injected numbers marked c) (hprintable : Printable marked)
    {oval : Oval} (hdelivered : c.value.Delivered oval) :
    ∃ text, valueText printing oval = some text ∧
      Reprints numbers printing marked.1.value.text text := by
  obtain ⟨hcanonical | ⟨hnumeric, hpoint⟩, huncut⟩ := hprintable
  · refine ⟨marked.1.value.text, ?_, .same hcanonical⟩
    by_cases hempty : marked.1.value.text = []
    · rw [h.empty hempty, if_neg (by rw [huncut hempty]; decide)] at hdelivered
      cases hdelivered
      rw [hempty]
      rfl
    · obtain ⟨str, hstr, hv⟩ := h.value_some hempty
      rw [← hstr]
      generalize marked.1.value.text = text at hcanonical hempty hstr
      cases hcanonical with
      | empty => exact absurd rfl hempty
      | @natural n hn =>
        rw [valueOf_natural hstr hn] at hv
        rw [← Except.ok.inj hv] at hdelivered
        cases hdelivered
        rw [hstr]
        exact congrArg (fun m => some (Decimal.numeral m)) (UInt64.toNat_ofNat_of_lt'
          (by rw [UInt64.size]; omega))
      | @negative n hpos hn =>
        rw [valueOf_negative hstr hpos hn] at hv
        rw [← Except.ok.inj hv] at hdelivered
        cases hdelivered
        rw [hstr]
        exact congrArg (fun m => some (45 :: Decimal.numeral m)) (UInt64.toNat_ofNat_of_lt'
          (by rw [UInt64.size]; omega))
      | text htext =>
        rw [← hstr] at htext
        have hstring : valueOf numbers (some str) = .ok (.string str) := by
          simp only [valueOf, htext, Bool.false_eq_true, if_false]
        rw [hstring] at hv
        rw [← Except.ok.inj hv] at hdelivered
        cases hdelivered
        exact congrArg some (Bytes.untilZero_append_zero str.nulFree [])
  · have hempty : marked.1.value.text ≠ [] := by
      intro hnil
      rw [hnil] at hpoint
      exact hpoint rfl
    obtain ⟨str, hstr, hv⟩ := h.value_some hempty
    have hdouble : valueOf numbers (some str) = .ok (.double (numbers.strtod str.bytes)) := by
      simp only [valueOf, hstr, hnumeric, if_true]
      rw [if_neg hpoint]
    rw [hdouble] at hv
    rw [← Except.ok.inj hv] at hdelivered
    obtain ⟨bits, rfl, hsame⟩ := hdelivered
    rw [hstr] at hsame
    exact ⟨printing.double bits, rfl, .double hnumeric hpoint hsame⟩

/-! ### Lines -/

/-- A line and its inject, with a value that is printed again. -/
def Packs (numbers : Numbers) (line : Line) (c : Call) : Prop :=
  ∃ bare, Injected numbers (line, bare) c ∧ Printable (line, bare)

/-- The unit of a sensor is the one of its first line. -/
def unitFirst (lines : List Line) (name : List UInt8) : List UInt8 :=
  match lines.find? fun line => line.name.text = name with
  | some line => line.unit.text
  | none => []

/-- Name and unit fit a record, or the sensor has been named before. -/
def Nameable (before : List Line) (line : Line) : Prop :=
  (∃ earlier ∈ before, earlier.name.text = line.name.text) ∨
    line.name.text.length + line.unit.text.length + 1 ≤ UINT8_MAX

instance (before : List Line) (line : Line) : Decidable (Nameable before line) := by
  unfold Nameable
  infer_instance

/-- The lines that are packed, behind the lines `before`; the others are left out without a
word. -/
def keptLines (numbers : Numbers) : Option Tick → List Line → List Line → List Line
  | _, _, [] => []
  | clock, before, line :: lines =>
      if Late clock (numbers.tick line.timestamp.text) then keptLines numbers clock before lines
      else if Nameable before line then
        line :: keptLines numbers (some (numbers.tick line.timestamp.text)) (before ++ [line]) lines
      else keptLines numbers (some (numbers.tick line.timestamp.text)) before lines

/-- What is printed for a line among those that are packed. -/
def Prints (numbers : Numbers) (printing : Printing) (lines : List Line) (text : List UInt8)
    (line : Line) : Prop :=
  ∃ value, Reprints numbers printing line.value.text value ∧
    text = printing.timestamp (some (numbers.tick line.timestamp.text).val) ++ TAB ::
      (line.name.text ++ TAB :: (unitFirst lines line.name.text ++ TAB :: (value ++ [NEWLINE])))

variable {line : Line} {lines before : List Line} {calls beforeCalls allCalls : List Call}

theorem Packs.sensorName_eq_iff (h : Packs numbers line c) (sensorName : CStr) :
    c.sensorName = sensorName ↔ line.name.text = sensorName.bytes := by
  obtain ⟨bare, hinjected, -⟩ := h
  rw [← hinjected.sensorName]
  exact ⟨congrArg CStr.bytes, CStr.ext_bytes⟩

/-- **The first unit** of a sensor is the same for the lines and for their injects. -/
theorem unitOf_packs (h : List.Forall₂ (Packs numbers) lines calls) (sensorName : CStr) :
    (unitOf calls sensorName).bytes = unitFirst lines sensorName.bytes := by
  induction h with
  | nil => rfl
  | @cons line c lines calls hline _ ih =>
    have hname := hline.sensorName_eq_iff sensorName
    obtain ⟨bare, hinjected, -⟩ := hline
    unfold unitOf callsOf unitFirst at ih ⊢
    rw [List.filter_cons, List.find?_cons]
    by_cases hsame : c.sensorName = sensorName
    · simp only [hsame, hname.mp hsame, decide_true, if_true]
      exact hinjected.unit
    · simp only [hsame, mt hname.mpr hsame, decide_false, Bool.false_eq_true, if_false]
      exact ih

theorem nameable_iff (hbefore : List.Forall₂ (Packs numbers) before beforeCalls)
    (h : Packs numbers line c) :
    Nameable before line ↔ callsOf beforeCalls c.sensorName ≠ [] ∨ c.Fits := by
  have hnamed : (∃ earlier ∈ before, earlier.name.text = line.name.text) ↔
      callsOf beforeCalls c.sensorName ≠ [] := by
    obtain ⟨bare, hinjected, -⟩ := h
    rw [← hinjected.sensorName]
    induction hbefore with
    | nil => simp
    | @cons earlier d before beforeCalls hearlier _ ih =>
      have hname := hearlier.sensorName_eq_iff c.sensorName
      unfold callsOf at ih ⊢
      rw [List.filter_cons]
      by_cases hsame : d.sensorName = c.sensorName
      · simp [hsame, hname.mp hsame]
      · simp [hsame, mt hname.mpr hsame, ih]
  obtain ⟨bare, hinjected, -⟩ := h
  have hfits : line.name.text.length + line.unit.text.length + 1 ≤ UINT8_MAX ↔ c.Fits := by
    rw [Call.Fits, CStr.size, hinjected.sensorName, hinjected.unit]
  rw [Nameable, hnamed, hfits]

/-- **The lines that are kept** are those of the injects that are accepted. -/
theorem packs_kept {limit : ℕ} (h : List.Forall₂ (Packs numbers) lines calls)
    (htext : ∀ c ∈ calls, c.value.textSize ≤ limit) :
    ∀ {clock : Option Tick} {before : List Line} {beforeCalls : List Call},
      List.Forall₂ (Packs numbers) before beforeCalls →
      List.Forall₂ (Packs numbers) (keptLines numbers clock before lines)
        (acceptable limit clock beforeCalls calls) := by
  induction h with
  | nil => exact fun _ => .nil
  | @cons line c lines calls hline _ ih =>
    intro clock before beforeCalls hbefore
    have hlater : ∀ d ∈ calls, d.value.textSize ≤ limit :=
      fun d hd => htext d (List.mem_cons_of_mem _ hd)
    have hnameable := nameable_iff hbefore hline
    have htick : c.tick = numbers.tick line.timestamp.text := by
      obtain ⟨bare, hinjected, -⟩ := hline
      exact hinjected.tick
    rw [keptLines, acceptable, clockAfter, ← htick]
    by_cases hlate : Late clock c.tick
    · have hrefused : ¬ Acceptable limit clock beforeCalls c := fun h => h.1 hlate
      rw [if_pos hlate, if_neg hrefused, if_pos hlate]
      exact ih hlater hbefore
    · rw [if_neg hlate, if_neg hlate]
      by_cases hname : Nameable before line
      · have haccept : Acceptable limit clock beforeCalls c :=
          ⟨hlate, htext c List.mem_cons_self, hnameable.mp hname⟩
        rw [if_pos hname, if_pos haccept]
        exact .cons hline (ih hlater (List.rel_append hbefore (.cons hline .nil)))
      · have hrefused : ¬ Acceptable limit clock beforeCalls c :=
            fun h => hname (hnameable.mpr h.2.2)
        rw [if_neg hname, if_neg hrefused]
        exact ih hlater hbefore

/-- The row of an inject is printed as its line. -/
theorem prints_of_matches {row : Row} {unit : CStr} (hmatches : Matches row c unit)
    (h : Packs numbers line c) (hunit : unit.bytes = unitFirst lines line.name.text) :
    Prints numbers printing lines (flusher2 printing row) line := by
  obtain ⟨bare, hinjected, hprintable⟩ := h
  obtain ⟨value, hvalue, hreprints⟩ :=
    @reprints_of_delivered numbers printing _ c hinjected hprintable _ hmatches.value
  refine ⟨value, hreprints, ?_⟩
  rw [flusher2, hvalue, hmatches.ts, hinjected.tick, hmatches.name, hinjected.sensorName,
    hmatches.unit, hunit]

theorem prints_rows {rows : List Row} {allLines : List Line}
    (hrows : List.Forall₂ (fun row c => Matches row c (unitOf allCalls c.sensorName)) rows calls)
    (hunits : ∀ sensorName, (unitOf allCalls sensorName).bytes =
      unitFirst allLines sensorName.bytes)
    (hcalls : List.Forall₂ (Packs numbers) lines calls) :
    List.Forall₂ (Prints numbers printing allLines) (rows.map (flusher2 printing)) lines := by
  induction hrows generalizing lines with
  | nil =>
    cases hcalls
    exact .nil
  | @cons row c rows calls hrow _ ih =>
    cases hcalls with
    | @cons line _ lines _ hline hrest =>
      refine .cons (prints_of_matches hrow hline ?_) (ih hrest)
      rw [hunits, (hline.sensorName_eq_iff c.sensorName).mp rfl]

/-! ### The file -/

/-- A line that is packed without a loss: an integer fits the copy of the last value. -/
structure Line.Small (line : Line) : Prop where
  sound : line.Sound
  least : isNumeric line.value.text = true → getDecPos line.value.text = 0 →
    -2 ^ 32 < strtol line.value.text
  greatest : isNumeric line.value.text = true → getDecPos line.value.text = 0 →
    strtol line.value.text < 2 ^ 32

theorem Line.Small.injectable (h : line.Small) : Injectable line := by
  refine ⟨h.sound, fun hnumeric hpoint hleast => ?_⟩
  have := h.least hnumeric hpoint
  omega

theorem small_valueOf {content : Option CStr} {v : Pack.Value}
    (hv : valueOf numbers content = .ok v)
    (hsmall : ∀ str, content = some str → isNumeric str.bytes = true → getDecPos str.bytes = 0 →
      -2 ^ 32 < strtol str.bytes ∧ strtol str.bytes < 2 ^ 32) : v.Small := by
  cases content with
  | none =>
    cases hv
    trivial
  | some str =>
    unfold valueOf at hv
    dsimp only at hv
    split at hv
    · rename_i hnumeric
      split at hv
      · rename_i hpoint
        obtain ⟨hleast, hgreatest⟩ := hsmall str rfl hnumeric hpoint
        have hbound : ∀ n : ℕ, n < 2 ^ 32 → (UInt64.ofNat n).toNat < 2 ^ 32 := by
          intro n hn
          rw [UInt64.toNat_ofNat_of_lt' (by rw [UInt64.size]; omega)]
          exact hn
        split at hv
        · cases hv
          exact hbound _ (by omega)
        · split at hv
          · cases hv
          · cases hv
            exact hbound _ (by omega)
      · cases hv
        trivial
    · cases hv
      trivial

/-- What is injected for a value is part of it. -/
theorem Injected.textSize_le (h : Injected numbers marked c) (hsound : marked.1.Sound) :
    c.value.textSize ≤ 1024 := by
  obtain ⟨content, hcontent, hv⟩ := h.value
  cases hvalue : c.value with
  | string str =>
    rw [hvalue] at hv
    have hstr : content = some str := by
      cases content with
      | none => cases hv
      | some other =>
        unfold valueOf at hv
        dsimp only at hv
        split at hv
        · split at hv
          · split at hv
            · cases hv
            · split at hv <;> cases hv
          · cases hv
        · cases hv
          rfl
    have hbytes : str.bytes = marked.1.value.text := by
      rw [hstr] at hcontent
      split at hcontent
      · cases hcontent
      · exact Option.some.inj hcontent
    have hshort := hsound.short
    simp only [Line.text, List.length_append, List.length_cons] at hshort
    rw [Value.textSize, CStr.size, hbytes]
    omega
  | bool _ | intNeg _ | intPos _ | double _ | null => exact Nat.zero_le _

theorem Injected.small (h : Injected numbers marked c) (hsmall : marked.1.Small) :
    c.value.Small := by
  obtain ⟨content, hcontent, hv⟩ := h.value
  refine small_valueOf hv fun str hstr hnumeric hpoint => ?_
  rw [hstr] at hcontent
  split at hcontent
  · cases hcontent
  · rw [Option.some.inj hcontent] at hnumeric hpoint ⊢
    exact ⟨hsmall.least hnumeric hpoint, hsmall.greatest hnumeric hpoint⟩

/-- There are as many names as in the lines. -/
theorem card_names (h : List.Forall₂ (Packs numbers) lines calls) :
    (calls.map Call.sensorName).toFinset.card ≤
      (lines.map fun line => line.name.text).toFinset.card := by
  have hnames : calls.map (fun c => c.sensorName.bytes) = lines.map fun line => line.name.text := by
    induction h with
    | nil => rfl
    | @cons line c lines calls hline _ ih =>
      obtain ⟨bare, hinjected, -⟩ := hline
      rw [List.map_cons, List.map_cons, hinjected.sensorName, ih]
  rw [← hnames]
  refine Finset.card_le_card_of_injOn CStr.bytes (fun name hname => ?_)
    fun name _ name' _ => CStr.ext_bytes
  rw [Finset.mem_coe, List.mem_toFinset] at hname ⊢
  obtain ⟨c, hc, rfl⟩ := List.mem_map.mp hname
  exact List.mem_map_of_mem hc

/-- The rows of the output are those of the injects of the lines that are packed. -/
theorem rows_compress (hlossless : zstd.Lossless) (numbers : Numbers)
    (printing : Printing) {heap : List (Call × Bool) → List UInt8}
    (hheap : ∀ before, Bytes.untilZero (heap before) = []) {buffer : List UInt8}
    (hbuffer : buffer.length = READ_BUFFERSIZE) {content : List (Option ℕ)}
    (hcontent : content.length = 5) {lines : List Line} (hlines : ∀ line ∈ lines, line.Small)
    (hfew : (lines.map fun line => line.name.text).toFinset.card ≤ 65536) {bare : Bool}
    (hprintable : ∀ marked ∈ cutLines bare (READ_BUFFERSIZE - 1024) lines, Printable marked)
    (hpacked : PackedLines zstd numbers heap bare lines) :
    ∃ packed rows calls,
      compress zstd numbers heap buffer content (fileOf bare lines) = .ok packed ∧
      packed.closed = true ∧
      decompress zstd printing packed.outputFile = .ok (rows.map (flusher2 printing)).flatten ∧
      RowsMatch rows calls ∧
      List.Forall₂ (Packs numbers) (keptLines numbers none [] lines) calls := by
  obtain ⟨calls, w, hcalls, hheaps, -, hwrite, hcompress⟩ := @compress_injects zstd numbers heap
    hlossless buffer hbuffer content hcontent lines
    (fun line hline => (hlines line hline).injectable) bare hpacked
  have hpacks : List.Forall₂ (Packs numbers) lines calls := by
    have := forall₂_imp_mem hcalls.flip fun c marked hmem h => (⟨marked.2, h, hprintable _ hmem⟩ :
      Packs numbers marked.1 c)
    rw [← cutLines_fst bare lines (READ_BUFFERSIZE - 1024), List.forall₂_map_left_iff]
    exact this.flip
  have hvalues (c) (hc : c ∈ calls) : c.value.Small ∧ c.value.textSize ≤ 1024 := by
    obtain ⟨i, hi, rfl⟩ := List.getElem_of_mem hc
    have hi' : i < (cutLines bare (READ_BUFFERSIZE - 1024) lines).length := by
      rw [hcalls.length_eq]
      exact hi
    have hline := hcalls.get hi' hi
    have hsmall := hlines _ (mem_of_mem_cutLines (List.getElem_mem hi'))
    exact ⟨hline.small hsmall, hline.textSize_le hsmall.sound⟩
  have hplain : Plain calls := by
    refine ⟨fun c hc => (hvalues c hc).1, fun c hc => ?_, (card_names hpacks).trans hfew⟩
    obtain ⟨before, hbefore⟩ := hheaps c hc
    rw [hbefore]
    exact hheap before
  have hsession := hpacked calls hcalls hheaps
  have hinside := inside_singleChannel hlossless hsession (by decide) hwrite
  obtain ⟨u, hread, -, hrows⟩ :=
    reads_singleChannel hlossless (by decide) hsession hwrite hinside true rfl
  have hmatches :=
    hplain.rowsMatch (OticPack.effectiveSize 0 - OTIC_PACK_CACHE_TOP_LIMIT).toNat
  rw [← hrows] at hmatches
  have hroom : 1024 ≤ (OticPack.effectiveSize 0 - OTIC_PACK_CACHE_TOP_LIMIT).toNat := by decide
  have hkept := @packs_kept numbers lines calls _ hpacks
    (fun c hc => (hvalues c hc).2.trans hroom) none [] [] .nil
  refine ⟨_, u.calls.map Prod.snd, _, hcompress, rfl, ?_, hmatches, hkept⟩
  rw [List.map_map, decompress, hread]
  rfl

/-- **Unpacking a packed file** prints its lines, in order and without the third column.  The
lines that go back in time, or whose sensor has a new name that is too long, are left out, and
so are the units that came later than the first one. -/
theorem decompress_compress (hlossless : zstd.Lossless) (numbers : Numbers)
    (printing : Printing) {heap : List (Call × Bool) → List UInt8}
    (hheap : ∀ before, Bytes.untilZero (heap before) = []) {buffer : List UInt8}
    (hbuffer : buffer.length = READ_BUFFERSIZE) {content : List (Option ℕ)}
    (hcontent : content.length = 5) {lines : List Line} (hlines : ∀ line ∈ lines, line.Small)
    (hfew : (lines.map fun line => line.name.text).toFinset.card ≤ 65536) {bare : Bool}
    (hprintable : ∀ marked ∈ cutLines bare (READ_BUFFERSIZE - 1024) lines, Printable marked)
    (hpacked : PackedLines zstd numbers heap bare lines) :
    ∃ packed texts, compress zstd numbers heap buffer content (fileOf bare lines) = .ok packed ∧
      packed.closed = true ∧
      decompress zstd printing packed.outputFile = .ok texts.flatten ∧
      List.Forall₂ (Prints numbers printing (keptLines numbers none [] lines)) texts
        (keptLines numbers none [] lines) := by
  obtain ⟨packed, rows, calls, hcompress, hclosed, hdecompress, hmatches, hkept⟩ :=
    @rows_compress zstd hlossless numbers printing heap hheap buffer hbuffer content hcontent
      lines hlines hfew bare hprintable hpacked
  exact ⟨packed, _, hcompress, hclosed, hdecompress,
    prints_rows hmatches (unitOf_packs hkept) hkept⟩

/-! ### A line that goes back in time -/

theorem plain_minusTwelve :
    ∀ char ∈ [(0x2D : UInt8), 0x31, 0x32], char ≠ 0 ∧ char ≠ TAB ∧ char ≠ NEWLINE := by
  simp [TAB, NEWLINE]

/-- The integer -12 for the sensor `"a"`. -/
def negativeLine (timestamp : Column) : Line :=
  ⟨timestamp, ⟨[0x61], plain_a⟩, ⟨[], plain_nil⟩, ⟨[], plain_nil⟩,
    ⟨[0x2D, 0x31, 0x32], plain_minusTwelve⟩⟩

def lateLines : List Line :=
  [negativeLine ⟨[0x32], plain_two⟩, negativeLine ⟨[0x31], plain_one⟩]

/-- `"2.000000"` for every timestamp. -/
def samplePrinting : Printing where
  timestamp := fun _ => 0x32 :: 0x2E :: List.replicate 6 0x30
  double := fun _ => []

/-- The second line is left out. -/
theorem decompress_compress_lateLines :
    ∃ packed, compress Zstd.stored sampleNumbers (fun _ => []) (List.replicate READ_BUFFERSIZE 0)
        (List.replicate 5 none) [0x32, 9, 0x61, 9, 9, 9, 0x2D, 0x31, 0x32, 10,
          0x31, 9, 0x61, 9, 9, 9, 0x2D, 0x31, 0x32, 10] = .ok packed ∧
      decompress Zstd.stored samplePrinting packed.outputFile =
        .ok (0x32 :: 0x2E :: (List.replicate 6 0x30 ++
          [9, 0x61, 9, 9, 0x2D, 0x31, 0x32, 10])) := by
  have hlate (line) (hline : line ∈ lateLines) : ∃ timestamp, line = negativeLine timestamp ∧
      line.Small := by
    simp only [lateLines, List.mem_cons, List.not_mem_nil, or_false] at hline
    rcases hline with rfl | rfl
    · exact ⟨_, rfl, ⟨by decide, fun char hchar => by cases hchar; rfl, by decide⟩,
        fun _ _ => by decide, fun _ _ => by decide⟩
    · exact ⟨_, rfl, ⟨by decide, fun char hchar => by cases hchar; rfl, by decide⟩,
        fun _ _ => by decide, fun _ _ => by decide⟩
  obtain ⟨packed, texts, hpacked, -, htexts, hprints⟩ := @decompress_compress Zstd.stored
    Zstd.stored_lossless sampleNumbers samplePrinting (fun _ => []) (fun _ => rfl)
    (List.replicate READ_BUFFERSIZE 0) List.length_replicate (List.replicate 5 none)
    List.length_replicate lateLines (fun line hline => (hlate line hline).choose_spec.2)
    (by decide) false (by
      intro marked hmarked
      obtain ⟨timestamp, hline, -⟩ := hlate _ (mem_of_mem_cutLines hmarked)
      rw [Printable, hline]
      refine ⟨Or.inl ?_, fun h => by cases h⟩
      exact @Canonical.negative 12 (by decide) (by decide))
    (packedLines_of_ample Zstd.stored_lossless (Zstd.stored_ample _) _ _ _ _)
  have hkept : keptLines sampleNumbers none [] lateLines = [negativeLine ⟨[0x32], plain_two⟩] := rfl
  rw [hkept] at hprints
  refine ⟨packed, hpacked, htexts.trans ?_⟩
  cases hprints with
  | cons htext hrest =>
    cases hrest
    obtain ⟨value, hvalue, rfl⟩ := htext
    cases hvalue with
    | same _ => rfl
    | double _ hpoint _ => exact absurd rfl hpoint

end Otic.Tsv
