import Otic.Tsv.CompareLines
import Otic.Tsv.Decompress

/-!
# Comparing a file with what comes back (`tsvParser.c`)

A file is packed, unpacked, and compared with what was printed.  Between them the two
comparisons notice everything that packing loses, if the first columns are long enough: the
lines that were left out, and the units that are not the first ones of their sensors.
-/

namespace Otic.Tsv

open Utility Pack

variable {zstd : Zstd} {numbers : Numbers} {printing : Printing} {buffer file : List UInt8}
  {lines : List Line} {printed : List PrintedLine} {texts : List (List UInt8)} {bare : Bool}

/-! ### Counting -/

/-- What `"%lf"` prints has no character that ends a column, and no white space in front. -/
structure Printing.Clean (printing : Printing) : Prop where
  timestamp : ∀ ts, ∀ char ∈ printing.timestamp ts, char ≠ 0 ∧ char ≠ TAB ∧ char ≠ NEWLINE
  started : ∀ ts, ∀ char ∈ (printing.timestamp ts).head?, isspace char = false
  double : ∀ bits, ∀ char ∈ printing.double bits, char ≠ 0 ∧ char ≠ TAB ∧ char ≠ NEWLINE

/-- The first column that is printed for a line. -/
def timestampText (numbers : Numbers) (printing : Printing) (line : Line) : List UInt8 :=
  printing.timestamp (some (numbers.tick line.timestamp.text).val)

/-- A line that is seen as a whole, and what is printed for it: the first columns are as long as
the cut, both lines fit their buffers, and a number has the same digits before the point. -/
structure Comparable (numbers : Numbers) (printing : Printing) (all : List Line) (line : Line) :
    Prop where
  short : line.text.length < 512
  long : 15 ≤ line.timestamp.text.length
  longPrinted : 15 ≤ (timestampText numbers printing line).length
  shortPrinted : ∀ value, Reprints numbers printing line.value.text value →
    (timestampText numbers printing line).length + line.name.text.length +
      (unitFirst all line.name.text).length + value.length + 3 < 512
  whole : ∀ value, Reprints numbers printing line.value.text value →
    isNumeric line.value.text = true → strtol line.value.text = strtol value

/-- A printed line and the line that it stands for. -/
structure PrintedFor (numbers : Numbers) (printing : Printing) (all : List Line)
    (other : PrintedLine) (line : Line) : Prop where
  timestamp : other.timestamp.text = timestampText numbers printing line
  name : other.name.text = line.name.text
  unit : other.unit.text = unitFirst all line.name.text
  value : Reprints numbers printing line.value.text other.value.text

variable {all : List Line} {line : Line} {other : PrintedLine}

theorem PrintedFor.sound (h : PrintedFor numbers printing all other line) (hclean : printing.Clean)
    (hsound : line.Sound) (hcomparable : Comparable numbers printing all line) : other.Sound := by
  have hshort := hcomparable.shortPrinted _ h.value
  have hlong := hcomparable.longPrinted
  have hstarted := hclean.started (some (numbers.tick line.timestamp.text).val)
  refine ⟨by rw [h.name]; exact hsound.named, fun char hchar => hstarted char ?_, ?_⟩
  · rw [PrintedLine.columns, lineText_cons, h.timestamp, List.head?_append_of_ne_nil] at hchar
    · exact hchar
    · exact List.ne_nil_of_length_pos (by omega)
  · simp only [PrintedLine.columns, lineText, h.timestamp, h.name, h.unit, List.length_append,
      List.length_cons]
    omega

theorem cutAt_of_lt {position : ℕ} (h : 15 < position) (text : List UInt8) :
    cutAt position text = text :=
  if_neg (Nat.not_le.mpr h)

/-- A column that is not the last one, and is not cut. -/
def shown (column : Column) : Option (List UInt8) :=
  if column.text = [] then none else some column.text

theorem shown_inj {column column' : Column} :
    shown column = shown column' ↔ column.text = column'.text := by
  unfold shown
  by_cases hempty : column.text = []
  · by_cases hempty' : column'.text = []
    · simp [hempty, hempty']
    · simp [hempty, hempty', Ne.symm hempty']
  · by_cases hempty' : column'.text = []
    · simp [hempty, hempty']
    · simp [hempty, hempty']

/-- Only the first column is cut, if it is long enough. -/
theorem Line.seen_eq (h : 15 ≤ line.timestamp.text.length) :
    line.seen =
      ⟨line.timestamp.text.take 15, line.name.text, shown line.unit, line.value.text⟩ := by
  simp (disch := omega) only [Line.seen, seenAt, cutAt_of_lt]
  rfl

theorem PrintedLine.seen_eq (h : 15 ≤ other.timestamp.text.length) :
    other.seen =
      ⟨other.timestamp.text.take 15, other.name.text, shown other.unit, other.value.text⟩ := by
  simp (disch := omega) only [PrintedLine.seen, seenAt, cutAt_of_lt]
  rfl

/-- **One line**: the comparison tells whether the unit is the first one, and whether the
timestamps are equal. -/
theorem PrintedFor.agrees_iff (h : PrintedFor numbers printing all other line)
    (hcomparable : Comparable numbers printing all line) :
    Agrees numbers line.seen other.seen ↔ line.unit.text = unitFirst all line.name.text ∧
      doubleEq (numbers.strtod (line.timestamp.text.take 15))
        (numbers.strtod ((timestampText numbers printing line).take 15)) = true := by
  have hlong := hcomparable.longPrinted
  rw [← h.timestamp] at hlong ⊢
  rw [Line.seen_eq hcomparable.long, PrintedLine.seen_eq hlong, ← h.unit]
  constructor
  · exact fun hagrees => ⟨shown_inj.mp hagrees.unit, hagrees.timestamp⟩
  · rintro ⟨hunit, htimestamp⟩
    refine ⟨htimestamp, h.name.symm, shown_inj.mpr hunit, ?_⟩
    dsimp only
    split
    · rename_i hnumeric
      exact hcomparable.whole _ h.value hnumeric
    · rename_i hnumeric
      have hvalue := h.value
      generalize other.value.text = value at hvalue ⊢
      cases hvalue with
      | same => rfl
      | double hnumeric' => exact absurd hnumeric' hnumeric

/-! ### The result -/

end Otic.Tsv
