import Otic.Library.Blocks
import Otic.Unpack.Reachable

/-!
# Who frees the values of the reader (`unpack.c`)

The value of an entry as it lies in memory: strings and the elements of arrays are blocks
of their own, which `otic_unpack_cleaner` frees before another value is written, and when
the channel is closed.  Most readers call it, those of booleans and arrays do not, and an
array without elements leaves the pointer to them as it was.  What this comes to for a
sensor is its `Grip`, and nothing is freed but what was allocated and has not been freed
yet exactly if every grip is safe (`Memory.Keeps.close`).
-/

namespace Otic.Unpack

open Blocks

/-- `oval_t` in memory: the type and the two words of the union.  `sval.ptr`, the numbers
and `aval.size` start in the first word, `sval.size` and `aval.elements` in the second. -/
structure Cell where
  type : OticType
  first : Word
  second : Word
deriving DecidableEq, Repr

/-- The value of a new entry: `sval.ptr` and `sval.size` are 0. -/
def Cell.fresh : Cell := ⟨.eof, .bits 0, .bits 0⟩

/-- `otic_unpack_cleaner`. -/
def Cell.cleaner (c : Cell) (heap : Heap) : Heap :=
  match c.type with
  | .string => heap.free c.first
  | .array | .object => heap.free c.second
  | _ => heap

/-- What the row readers do to the value.  The blocks of strings and arrays within an
array belong to its elements, and nothing frees them. -/
def Cell.write (c : Cell) (heap : Heap) : Oval → Cell × Heap
  | .null => ({ c with type := .null }, c.cleaner heap)
  | .intNeg lval => ({ c with type := .intNeg, first := .bits lval.toNat }, c.cleaner heap)
  | .intPos lval => ({ c with type := .intPos, first := .bits lval.toNat }, c.cleaner heap)
  | .double dval => ({ c with type := .double, first := .bits dval.toNat }, c.cleaner heap)
  -- four bytes are written into `dval`
  | .float _ _ => ({ c with type := .float, first := .torn }, c.cleaner heap)
  | .string _ size =>
      let (ptr, heap) := (c.cleaner heap).malloc
      (⟨.string, ptr, .bits size⟩, heap)
  -- the readers from here on do not call the cleaner
  | .true => ({ c with type := .true }, heap)
  | .false => ({ c with type := .false }, heap)
  | .array elements =>
      if elements.isEmpty then ({ c with type := .array, first := .torn }, heap)
      else
        let (ptr, heap) := heap.malloc
        (⟨.array, .torn, ptr⟩, heap)
  | .rawbuffer => ({ c with type := .rawbuffer }, heap)
  | .eof => ({ c with type := .eof }, heap)

/-- What a record does to the values of a channel. -/
inductive Deed where
  | assign
  | write (entryIndex : Nat) (value : Oval)

/-- The values of a channel in memory. -/
structure Memory where
  cells : List Cell
  heap : Heap

namespace Memory

def empty : Memory := ⟨[], Heap.empty⟩

def step (m : Memory) : Deed → Memory
  | .assign => { m with cells := m.cells ++ [Cell.fresh] }
  | .write entryIndex value =>
      match m.cells[entryIndex]? with
      | none => m
      | some cell =>
          let (cell, heap) := cell.write m.heap value
          ⟨m.cells.set entryIndex cell, heap⟩

def run (deeds : List Deed) : Memory := deeds.foldl step empty

/-- The loop of `otic_unpack_channel_close`. -/
def close (m : Memory) : Heap := m.cells.foldl (fun heap cell => cell.cleaner heap) m.heap

end Memory

namespace Channel

/-- A row reader went from `ch` to `ch'`. -/
def written (ch ch' : Channel) : List Deed :=
  match ch.selectEntry with
  | .ok (entryIndex, _, _) =>
      (ch'.entries[entryIndex]?).toList.map fun entry => .write entryIndex entry.value
  | .error _ => []

/-- The case of a tag went from `ch` to `ch'`. -/
def deeds (tag : UInt8) (ch ch' : Channel) : List Deed :=
  match OticType.ofByte? tag with
  | some .intPos | some .intNeg | some .double | some .float | some .null | some .true
  | some .false | some .array | some .string => written ch ch'
  | some .nameAssign => [.assign]
  | _ => []

/-- The states of a channel over any history, with all that was done to the values. -/
inductive Traced : Channel → List Deed → Prop
  | init (id : UInt8) : Traced (Channel.init id) []
  | configured {ch ch' : Channel} {done : List Deed} (h : Traced ch done)
      (hcache : ch'.cache = ch.cache) (hleft : ch'.allocationLeft = ch.allocationLeft)
      (htotal : ch'.totalEntries = ch.totalEntries) : Traced ch' done
  | smallint {ch ch' : Channel} {done : List Deed} (h : Traced ch done) (val : UInt8)
      (hread : readSmallint val ch = .ok ch') : Traced ch' (done ++ written ch ch')
  | record {ch ch' : Channel} {done : List Deed} (h : Traced ch done) (version tag : UInt8)
      (hread : readRecord version tag ch = .ok ch') : Traced ch' (done ++ deeds tag ch ch')

end Channel

/-! ### What the second word stands for -/

/-- Null, the elements of an array that are the value's own, or anything else. -/
inductive Tail where
  | null | held | stale
deriving DecidableEq, Repr

/-- The tail when the block has been freed. -/
def Tail.freed : Tail → Tail
  | .held => .stale
  | .null => .null
  | .stale => .stale

/-- The types of which the cleaner frees the elements. -/
def HasElements (type : OticType) : Prop := type = .array ∨ type = .object

instance (type : OticType) : Decidable (HasElements type) := by
  unfold HasElements
  infer_instance

/-- What the values of a sensor so far say about its next ones: `lost` is set when the
cleaner was called on an array whose elements were not its own. -/
structure Grip where
  type : OticType
  tail : Tail
  lost : Bool
deriving DecidableEq, Repr

namespace Grip

def fresh : Grip := ⟨.eof, .null, false⟩

/-- The value has elements that are not its own. -/
def Slips (g : Grip) : Prop := HasElements g.type ∧ g.tail = .stale

instance (g : Grip) : Decidable g.Slips := by
  unfold Slips
  infer_instance

/-- The cleaner. -/
def clean (g : Grip) : Grip :=
  { g with
    tail := if HasElements g.type then g.tail.freed else g.tail
    lost := g.lost || decide g.Slips }

/-- Another value. -/
def write (g : Grip) : Oval → Grip
  | .null => { g.clean with type := .null }
  | .intNeg _ => { g.clean with type := .intNeg }
  | .intPos _ => { g.clean with type := .intPos }
  | .double _ => { g.clean with type := .double }
  | .float _ _ => { g.clean with type := .float }
  -- the length stands where an array has its elements
  | .string _ size => { g.clean with type := .string, tail := if size = 0 then .null else .stale }
  | .true => { g with type := .true }
  | .false => { g with type := .false }
  | .array elements => { g with type := .array, tail := if elements.isEmpty then g.tail else .held }
  | .rawbuffer => { g with type := .rawbuffer }
  | .eof => { g with type := .eof }

end Grip

/-- The value that is written into an entry, if any. -/
def Deed.valueFor (entryIndex : Nat) : Deed → Option Oval
  | .assign => none
  | .write i value => if i = entryIndex then some value else none

/-- The values that were written into an entry. -/
def writesTo (entryIndex : Nat) (deeds : List Deed) : List Oval :=
  deeds.filterMap (Deed.valueFor entryIndex)

/-- What a sensor has come to. -/
def gripOf (values : List Oval) : Grip := values.foldl Grip.write Grip.fresh

/-- Whenever the cleaner was called on the value its elements were null or its own, and so
they are at the close. -/
def Grip.Safe (g : Grip) : Prop := g.lost = false ∧ ¬ g.Slips

/-! ### One value -/

variable {own : ℕ × Bool → Option ℕ} {heap : Heap} {i : ℕ} {c : Cell} {g : Grip}

/-- What stands in the second word. -/
def Tail.Fits (own : ℕ × Bool → Option ℕ) (heap : Heap) (i : ℕ) (w : Word) : Tail → Prop
  | .null => w = .bits 0
  | .held => ∃ b, w = .block b ∧ own (i, true) = some b
  | .stale => heap.Stale w

/-- The value of the entry at `i` in memory, next to what it has come to. -/
structure Cell.Fits (own : ℕ × Bool → Option ℕ) (heap : Heap) (i : ℕ) (c : Cell) (g : Grip) :
    Prop where
  type : c.type = g.type
  text : c.type = .string → ∃ b, c.first = .block b ∧ own (i, false) = some b
  tail : g.tail.Fits own heap i c.second

/-- The heap changes where another entry has its blocks. -/
structure Apart (own own' : ℕ × Bool → Option ℕ) (heap heap' : Heap) (i : ℕ) : Prop where
  own : ∀ p, p.1 ≠ i → own' p = own p
  stale : ∀ w, heap.Stale w → heap'.Stale w

theorem Apart.refl (own : ℕ × Bool → Option ℕ) (heap : Heap) (i : ℕ) :
    Apart own own heap heap i := ⟨fun _ _ => rfl, fun _ h => h⟩

theorem Apart.trans {own₁ own₂ : ℕ × Bool → Option ℕ} {heap₁ heap₂ : Heap}
    (h : Apart own own₁ heap heap₁ i) (h' : Apart own₁ own₂ heap₁ heap₂ i) :
    Apart own own₂ heap heap₂ i :=
  ⟨fun p hp => (h'.own p hp).trans (h.own p hp), fun w hw => h'.stale w (h.stale w hw)⟩

theorem Apart.update (i : ℕ) (half : Bool) (block : Option ℕ) {heap' : Heap}
    (hstale : ∀ w, heap.Stale w → heap'.Stale w) :
    Apart own (Function.update own (i, half) block) heap heap' i :=
  ⟨fun _ hp => Function.update_of_ne (fun heq => hp (congrArg Prod.fst heq)) _ _, hstale⟩

theorem Tail.Fits.mono {tail : Tail} {w : Word} {own' : ℕ × Bool → Option ℕ} {heap' : Heap}
    (h : tail.Fits own heap i w) (hown : own' (i, true) = own (i, true))
    (hstale : ∀ w, heap.Stale w → heap'.Stale w) : tail.Fits own' heap' i w := by
  cases tail with
  | null => exact h
  | held =>
    obtain ⟨b, hw, hb⟩ := h
    exact ⟨b, hw, hown.trans hb⟩
  | stale => exact hstale w h

/-- Other entries keep what they have. -/
theorem Cell.Fits.apart {own' : ℕ × Bool → Option ℕ} {heap' : Heap} {j : ℕ}
    (h : c.Fits own heap j g) (hapart : Apart own own' heap heap' i) (hne : j ≠ i) :
    c.Fits own' heap' j g where
  type := h.type
  text := fun htype => by
    obtain ⟨b, hfirst, hb⟩ := h.text htype
    exact ⟨b, hfirst, (hapart.own (j, false) hne).trans hb⟩
  tail := h.tail.mono (hapart.own (j, true) hne) hapart.stale

theorem Tail.Fits.free {tail : Tail} {w : Word} (h : tail.Fits own heap i w)
    (howned : Owned own heap) :
    ∃ own', Owned own' (heap.free w) ∧ Apart own own' heap (heap.free w) i ∧
      tail.freed.Fits own' (heap.free w) i w ∧
      ((heap.free w).broken = true ↔ heap.broken = true ∨ tail = .stale) := by
  cases tail with
  | null =>
    have hw : w = .bits 0 := h
    rw [hw, Heap.free_null]
    exact ⟨own, howned, .refl own heap i, rfl, by simp⟩
  | held =>
    obtain ⟨b, rfl, hb⟩ := h
    obtain ⟨hbroken, hstale, howned'⟩ := howned.free hb
    refine ⟨_, howned', .update i true none fun w hw => hw.free _, hstale, ?_⟩
    rw [hbroken]
    simp
  | stale =>
    rw [Heap.free_stale h]
    have hsame : ∀ w, heap.Stale w → ({ heap with broken := true } : Heap).Stale w := by
      intro w hw
      cases w with
      | bits n => exact hw
      | block b => exact hw
      | torn => trivial
    exact ⟨own, howned.congr rfl rfl, ⟨fun _ _ => rfl, hsame⟩, hsame w h, by simp⟩

/-- **The cleaner** breaks the heap exactly if the value has elements that are not its
own. -/
theorem Cell.Fits.cleaner (h : c.Fits own heap i g) (howned : Owned own heap) :
    ∃ own', Owned own' (c.cleaner heap) ∧ Apart own own' heap (c.cleaner heap) i ∧
      g.clean.tail.Fits own' (c.cleaner heap) i c.second ∧
      ((c.cleaner heap).broken = true ↔ heap.broken = true ∨ g.Slips) := by
  by_cases helements : HasElements g.type
  · have hcleaner : c.cleaner heap = heap.free c.second := by
      unfold Cell.cleaner
      rcases helements with harray | hobject
      · rw [h.type, harray]
      · rw [h.type, hobject]
    obtain ⟨own', howned', hapart, htail, hbroken⟩ := h.tail.free howned
    rw [hcleaner, Grip.clean, if_pos helements]
    refine ⟨own', howned', hapart, htail, hbroken.trans ?_⟩
    simp [Grip.Slips, helements]
  · have hslips : ¬ g.Slips := fun hslips => helements hslips.1
    rw [Grip.clean, if_neg helements]
    by_cases hstring : c.type = .string
    · obtain ⟨b, hfirst, hb⟩ := h.text hstring
      have hcleaner : c.cleaner heap = heap.free (.block b) := by
        rw [Cell.cleaner, hstring, hfirst]
      obtain ⟨hbroken, -, howned'⟩ := howned.free hb
      rw [hcleaner]
      refine ⟨_, howned', .update i false none fun w hw => hw.free _, ?_, ?_⟩
      · exact h.tail.mono (Function.update_of_ne (by simp) _ _) fun w hw => hw.free _
      · rw [hbroken]
        simp [hslips]
    · have hcleaner : c.cleaner heap = heap := by
        rw [HasElements, not_or, ← h.type] at helements
        unfold Cell.cleaner
        split
        · exact absurd ‹_› hstring
        · exact absurd ‹_› helements.1
        · exact absurd ‹_› helements.2
        · rfl
      rw [hcleaner]
      exact ⟨own, howned, .refl own heap i, h.tail, by simp [hslips]⟩

/-- An entry has got another value: `lost` says whether the heap is broken by it. -/
structure Wrote (own : ℕ × Bool → Option ℕ) (heap : Heap) (i : ℕ) (g : Grip) (out : Cell × Heap)
    (g' : Grip) (own' : ℕ × Bool → Option ℕ) : Prop where
  owned : Owned own' out.2
  apart : Apart own own' heap out.2 i
  fits : out.1.Fits own' out.2 i g'
  broken : ∀ others : Prop, (heap.broken = true ↔ others ∨ g.lost = true) →
    (out.2.broken = true ↔ others ∨ g'.lost = true)

theorem broken_clean {heap' : Heap} (h : heap'.broken = true ↔ heap.broken = true ∨ g.Slips)
    (others : Prop) (hbroken : heap.broken = true ↔ others ∨ g.lost = true) :
    heap'.broken = true ↔ others ∨ g.clean.lost = true := by
  rw [h, hbroken, Grip.clean, Bool.or_eq_true, decide_eq_true_eq, or_assoc]

/-- A number, or null, takes the place of the value. -/
theorem Cell.Fits.plain (h : c.Fits own heap i g) (howned : Owned own heap) {type : OticType}
    (hplain : type ≠ .string) (first : Word) :
    ∃ own', Wrote own heap i g (⟨type, first, c.second⟩, c.cleaner heap)
      { g.clean with type := type } own' := by
  obtain ⟨own', howned', hapart, htail, hbroken⟩ := h.cleaner howned
  exact ⟨own', howned', hapart, ⟨rfl, fun hstring => absurd hstring hplain, htail⟩,
    broken_clean hbroken⟩

/-- A boolean leaves what was there. -/
theorem Cell.Fits.keep (h : c.Fits own heap i g) (howned : Owned own heap) {type : OticType}
    (hplain : type ≠ .string) (first : Word) :
    ∃ own', Wrote own heap i g (⟨type, first, c.second⟩, heap) { g with type := type } own' :=
  ⟨own, howned, .refl own heap i, ⟨rfl, fun hstring => absurd hstring hplain, h.tail⟩,
    fun _ hbroken => hbroken⟩

/-- A string gets a new block. -/
theorem Cell.Fits.string (h : c.Fits own heap i g) (howned : Owned own heap)
    (block : List UInt8) (size : ℕ) :
    ∃ own', Wrote own heap i g (c.write heap (.string block size)) (g.write (.string block size))
      own' := by
  obtain ⟨own', howned', hapart, -, hbroken⟩ := h.cleaner howned
  obtain ⟨hptr, howned''⟩ := howned'.malloc (i, false)
  refine ⟨_, howned'', hapart.trans (.update i false _ fun w hw => hw.malloc),
    ⟨rfl, fun _ => ⟨_, hptr, Function.update_self _ _ _⟩, ?_⟩, broken_clean hbroken⟩
  rw [Grip.write]
  by_cases hsize : size = 0
  · rw [if_pos hsize, hsize]
    rfl
  · rw [if_neg hsize]
    exact hsize

/-- An array gets a new block, or none if it is empty. -/
theorem Cell.Fits.array (h : c.Fits own heap i g) (howned : Owned own heap)
    (elements : List Oval) :
    ∃ own',
      Wrote own heap i g (c.write heap (.array elements)) (g.write (.array elements)) own' := by
  rw [Cell.write, Grip.write]
  split
  · exact h.keep howned (by decide) .torn
  · obtain ⟨hptr, howned'⟩ := howned.malloc (i, true)
    exact ⟨_, howned', .update i true _ fun w hw => hw.malloc,
      ⟨rfl, fun hstring => (by cases hstring), ⟨_, hptr, Function.update_self _ _ _⟩⟩,
      fun _ hbroken => hbroken⟩

/-- **Every value.** -/
theorem Cell.Fits.write (h : c.Fits own heap i g) (howned : Owned own heap) (value : Oval) :
    ∃ own', Wrote own heap i g (c.write heap value) (g.write value) own' := by
  cases value with
  | null => exact h.plain howned (by decide) c.first
  | intNeg lval => exact h.plain howned (by decide) _
  | intPos lval => exact h.plain howned (by decide) _
  | float low high => exact h.plain howned (by decide) _
  | double dval => exact h.plain howned (by decide) _
  | string block size => exact h.string howned block size
  | array elements => exact h.array howned elements
  | true => exact h.keep howned (by decide) c.first
  | false => exact h.keep howned (by decide) c.first
  | rawbuffer => exact h.keep howned (by decide) c.first
  | eof => exact h.keep howned (by decide) c.first

/-! ### All values of a channel -/

theorem writesTo_assign (i : ℕ) (deeds : List Deed) :
    writesTo i (deeds ++ [.assign]) = writesTo i deeds := by
  rw [writesTo, List.filterMap_append]
  exact List.append_nil _

theorem writesTo_self (i : ℕ) (value : Oval) (deeds : List Deed) :
    writesTo i (deeds ++ [.write i value]) = writesTo i deeds ++ [value] := by
  have hvalue : Deed.valueFor i (.write i value) = some value := if_pos rfl
  rw [writesTo, List.filterMap_append, List.filterMap_cons_some hvalue]
  rfl

theorem writesTo_of_ne {i j : ℕ} (hji : j ≠ i) (value : Oval) (deeds : List Deed) :
    writesTo i (deeds ++ [.write j value]) = writesTo i deeds := by
  have hvalue : Deed.valueFor i (.write j value) = none := if_neg hji
  rw [writesTo, List.filterMap_append, List.filterMap_cons_none hvalue]
  exact List.append_nil _

theorem gripOf_append (values : List Oval) (value : Oval) :
    gripOf (values ++ [value]) = (gripOf values).write value := by
  rw [gripOf, List.foldl_append]
  rfl

/-- The memory after some deeds. -/
structure Memory.Keeps (own : ℕ × Bool → Option ℕ) (m : Memory) (deeds : List Deed) : Prop where
  owned : Owned own m.heap
  fits : ∀ (i : ℕ) (c : Cell), m.cells[i]? = some c →
    c.Fits own m.heap i (gripOf (writesTo i deeds))
  beyond : ∀ i, m.cells.length ≤ i → writesTo i deeds = []
  broken : m.heap.broken = true ↔ ∃ i, (gripOf (writesTo i deeds)).lost = true

namespace Memory

variable {m : Memory} {deeds : List Deed}

theorem keeps_empty : Memory.Keeps (fun _ => none) Memory.empty [] where
  owned := Owned.empty
  fits := fun i c hc => by cases hc
  beyond := fun _ _ => rfl
  broken := ⟨fun h => (by cases h), fun ⟨_, h⟩ => (by cases h)⟩

theorem Keeps.assign (h : Memory.Keeps own m deeds) :
    Memory.Keeps own (m.step .assign) (deeds ++ [.assign]) := by
  refine ⟨h.owned, fun i c hc => ?_, fun i hi => ?_, ?_⟩
  · rw [writesTo_assign]
    have hcells : (m.cells ++ [Cell.fresh])[i]? = some c := hc
    rcases Nat.lt_or_ge i m.cells.length with hlt | hge
    · rw [List.getElem?_append_left hlt] at hcells
      exact h.fits i c hcells
    · rw [List.getElem?_append_right hge] at hcells
      have hfresh := List.mem_singleton.mp (List.mem_of_getElem? hcells)
      rw [h.beyond i hge, hfresh]
      exact ⟨rfl, fun hstring => (by cases hstring), rfl⟩
  · rw [writesTo_assign]
    have hlength : m.cells.length + 1 ≤ i := by simpa [step] using hi
    exact h.beyond i (Nat.le_of_succ_le hlength)
  · simp only [writesTo_assign]
    exact h.broken

theorem Keeps.write (h : Memory.Keeps own m deeds) (value : Oval) (hi : i < m.cells.length) :
    ∃ own', Memory.Keeps own' (m.step (.write i value)) (deeds ++ [.write i value]) := by
  obtain ⟨c, hc⟩ : ∃ c, m.cells[i]? = some c := ⟨_, List.getElem?_eq_getElem hi⟩
  have hstep : m.step (.write i value) =
      ⟨m.cells.set i (c.write m.heap value).1, (c.write m.heap value).2⟩ := by
    simp only [step, hc]
  obtain ⟨own', hwrote⟩ := (h.fits i c hc).write h.owned value
  rw [hstep]
  refine ⟨own', hwrote.owned, fun j c' hc' => ?_, fun j hj => ?_, ?_⟩
  · dsimp only at hc'
    by_cases hji : i = j
    · subst hji
      rw [List.getElem?_set_self hi, Option.some.injEq] at hc'
      rw [writesTo_self, gripOf_append, ← hc']
      exact hwrote.fits
    · rw [List.getElem?_set_ne hji] at hc'
      rw [writesTo_of_ne hji]
      exact (h.fits j c' hc').apart hwrote.apart (Ne.symm hji)
  · rw [List.length_set] at hj
    rw [writesTo_of_ne (by omega)]
    exact h.beyond j hj
  · have hbefore : m.heap.broken = true ↔
        (∃ j, j ≠ i ∧ (gripOf (writesTo j deeds)).lost = true) ∨
          (gripOf (writesTo i deeds)).lost = true := by
      rw [h.broken]
      constructor
      · rintro ⟨j, hj⟩
        by_cases hji : j = i
        · exact Or.inr (hji ▸ hj)
        · exact Or.inl ⟨j, hji, hj⟩
      · rintro (⟨j, -, hj⟩ | hj)
        · exact ⟨j, hj⟩
        · exact ⟨i, hj⟩
    rw [hwrote.broken _ hbefore, ← gripOf_append, ← writesTo_self]
    constructor
    · rintro (⟨j, hji, hj⟩ | hj)
      · exact ⟨j, by rw [writesTo_of_ne (Ne.symm hji)]; exact hj⟩
      · exact ⟨i, hj⟩
    · rintro ⟨j, hj⟩
      by_cases hji : j = i
      · exact Or.inr (hji ▸ hj)
      · rw [writesTo_of_ne (Ne.symm hji)] at hj
        exact Or.inl ⟨j, hji, hj⟩

/-- **The close**, by induction on the values that are left. -/
theorem broken_cleaners (cells : List Cell) : ∀ {own : ℕ × Bool → Option ℕ} {heap : Heap} {n : ℕ}
    {grips : ℕ → Grip}, Owned own heap →
      (∀ (j : ℕ) (c : Cell), cells[j]? = some c → c.Fits own heap (n + j) (grips (n + j))) →
      ((cells.foldl (fun heap cell => cell.cleaner heap) heap).broken = true ↔
        heap.broken = true ∨ ∃ j, j < cells.length ∧ (grips (n + j)).Slips) := by
  induction cells with
  | nil =>
    intro own heap n grips _ _
    simp
  | cons c cells ih =>
    intro own heap n grips howned hfits
    obtain ⟨own', howned', hapart, -, hbroken⟩ := (hfits 0 c rfl).cleaner howned
    have hlater := @ih own' (c.cleaner heap) (n + 1) grips howned' fun j c' hc' => by
      have hold := hfits (j + 1) c' (by rw [List.getElem?_cons_succ]; exact hc')
      rw [show n + 1 + j = n + (j + 1) by omega]
      exact hold.apart hapart (by omega)
    rw [List.foldl_cons, hlater, hbroken, or_assoc]
    apply or_congr_right
    constructor
    · rintro (hslips | ⟨j, hj, hslips⟩)
      · exact ⟨0, Nat.zero_lt_succ _, hslips⟩
      · rw [show n + 1 + j = n + (j + 1) by omega] at hslips
        exact ⟨j + 1, Nat.succ_lt_succ hj, hslips⟩
    · rintro ⟨j, hj, hslips⟩
      cases j with
      | zero => exact Or.inl hslips
      | succ j =>
        rw [← show n + 1 + j = n + (j + 1) by omega] at hslips
        exact Or.inr ⟨j, Nat.lt_of_succ_lt_succ hj, hslips⟩

/-- The heap is sound after the close exactly if every sensor is. -/
theorem Keeps.close (h : Memory.Keeps own m deeds) :
    m.close.broken = false ↔ ∀ i, (gripOf (writesTo i deeds)).Safe := by
  have hclose := @broken_cleaners m.cells own m.heap 0 (fun i => gripOf (writesTo i deeds)) h.owned
    fun j c hc => by rw [Nat.zero_add]; exact h.fits j c hc
  rw [← Bool.not_eq_true, Memory.close, hclose, h.broken, not_or, not_exists, not_exists]
  simp only [Nat.zero_add, not_and, Bool.not_eq_true]
  constructor
  · rintro ⟨hlost, hslips⟩ i
    refine ⟨hlost i, ?_⟩
    rcases Nat.lt_or_ge i m.cells.length with hlt | hge
    · exact hslips i hlt
    · rw [h.beyond i hge]
      decide
  · intro hsafe
    exact ⟨fun i => (hsafe i).1, fun i _ => (hsafe i).2⟩

end Memory

/-! ### The records -/

namespace Channel

variable {ch ch' : Channel} {done : List Deed}

/-- A row reader exchanges the value of one entry. -/
theorem readRow_entries (h : ch.WellFormed)
    {payload : Entry → List UInt8 → Exec (Oval × List UInt8)}
    (hread : readRow payload ch = .ok ch') :
    ∃ i e top value top', ch.entries[i]? = some e ∧ payload e top = .ok (value, top') ∧
      ch'.entries = ch.entries.set i { e with value := value } ∧
      written ch ch' = [.write i value] := by
  obtain ⟨⟨i, e, top⟩, hselect, hread⟩ := Exec.bind_eq_ok.mp hread
  obtain ⟨⟨value, top'⟩, hpayload, hread⟩ := Exec.bind_eq_ok.mp hread
  obtain ⟨hi, he⟩ := selectEntry_eq_ok h hselect
  rw [h.total] at hi
  cases hread
  have hset := (@wellFormed_of_slots
    { ch with top := top', cache := ch.cache.set i (some { e with value := value }) } _
    (h.set hi { e with value := value }) (by simp [h.total])).2
  have hentries : ∀ entry rowCounter, entries { flushIfFlushable
      { ch with top := top', cache := ch.cache.set i (some { e with value := value }) } entry with
        base := rowCounter } = ch.entries.set i { e with value := value } := by
    intro entry rowCounter
    rw [← hset]
    unfold flushIfFlushable
    split <;> rfl
  refine ⟨i, e, top, value, top', he, hpayload, hentries _ _, ?_⟩
  rw [written, hselect]
  dsimp only
  rw [hentries, List.getElem?_set_self hi]
  rfl

theorem readNameAssign_entries (h : ch.WellFormed) (hread : readNameAssign ch = .ok ch') :
    ∃ e, ch'.entries = ch.entries ++ [e] ∧ e.value = .eof := by
  obtain ⟨⟨length, top⟩, -, hread⟩ := Exec.bind_eq_ok.mp hread
  obtain ⟨ch₁, hinsert, hread⟩ := Exec.bind_eq_ok.mp hread
  obtain ⟨e, rfl, hvalue⟩ : ∃ e, ch₁ = pushEntry (reserve { ch with top := top }) e ∧
      e.value = .eof := by
    unfold insertEntry at hinsert
    dsimp only at hinsert
    split at hinsert
    · cases hinsert
    split at hinsert
    · cases hinsert
    split at hinsert
    · cases hinsert
    · cases hinsert
      exact ⟨_, rfl, rfl⟩
  cases hread
  exact ⟨e, ((h.withTop top).push e (top.drop length.toNat)).2, hvalue⟩

/-- **What a record does to the values**, by the cases of its tag. -/
theorem readRecord_deeds (h : ch.WellFormed) {version tag : UInt8}
    (hread : readRecord version tag ch = .ok ch') :
    (deeds tag ch ch' = [] ∧ ch'.entries = ch.entries) ∨
    (∃ e, deeds tag ch ch' = [.assign] ∧ ch'.entries = ch.entries ++ [e] ∧ e.value = .eof) ∨
    ∃ i e value, deeds tag ch ch' = [.write i value] ∧ ch.entries[i]? = some e ∧
      ch'.entries = ch.entries.set i { e with value := value } := by
  have hrow : ∀ payload, readRow payload ch = .ok ch' → ∃ i e value,
      written ch ch' = [.write i value] ∧ ch.entries[i]? = some e ∧
        ch'.entries = ch.entries.set i { e with value := value } := by
    intro payload hread
    obtain ⟨i, e, top, value, top', he, -, hentries, hwritten⟩ := readRow_entries h hread
    exact ⟨i, e, value, hwritten, he, hentries⟩
  unfold readRecord at hread
  unfold deeds
  split at hread
  · -- the value that is written is the one that was there
    obtain ⟨i, e, top, value, top', he, hpayload, hentries, -⟩ := readRow_entries h hread
    cases hpayload
    refine Or.inl ⟨by simp only [*], ?_⟩
    rw [hentries]
    obtain ⟨hi, rfl⟩ := List.getElem?_eq_some_iff.mp he
    exact List.set_getElem_self hi
  case h_9 =>
    obtain ⟨⟨value, top⟩, -, hread⟩ := Exec.bind_eq_ok.mp hread
    cases hread
    exact Or.inl ⟨by simp only [*], rfl⟩
  case h_10 =>
    obtain ⟨⟨value, top⟩, -, hread⟩ := Exec.bind_eq_ok.mp hread
    cases hread
    exact Or.inl ⟨by simp only [*], rfl⟩
  case h_11 =>
    obtain ⟨e, hentries, hvalue⟩ := readNameAssign_entries h hread
    exact Or.inr (Or.inl ⟨e, by simp only [*], hentries, hvalue⟩)
  case h_13 =>
    obtain ⟨⟨expected, top⟩, -, hread⟩ := Exec.bind_eq_ok.mp hread
    dsimp only at hread
    split at hread <;>
    · cases hread
      exact Or.inl ⟨by simp only [*], rfl⟩
  case h_15 =>
    obtain ⟨⟨size, top⟩, -, hread⟩ := Exec.bind_eq_ok.mp hread
    cases hread
    exact Or.inl ⟨by simp only [*], rfl⟩
  case h_16 =>
    -- no case of the one is a case of the other
    cases hread
    refine Or.inl ⟨?_, rfl⟩
    split
    all_goals first | rfl | simp_all only [not_true_eq_false, imp_false]
  all_goals
    obtain ⟨i, e, value, hwritten, he, hentries⟩ := hrow _ hread
    exact Or.inr (Or.inr ⟨i, e, value, by simp only [*], he, hentries⟩)

/-- A channel next to the memory of its values. -/
structure Follows (own : ℕ × Bool → Option ℕ) (ch : Channel) (done : List Deed) : Prop where
  wellFormed : ch.WellFormed
  types : (Memory.run done).cells.map Cell.type = ch.entries.map fun e => e.value.type
  keeps : Memory.Keeps own (Memory.run done) done

theorem run_append (done : List Deed) (deed : Deed) :
    Memory.run (done ++ [deed]) = (Memory.run done).step deed := by
  rw [Memory.run, List.foldl_append]
  rfl

theorem Follows.assign (h : Follows own ch done) (hwell : ch'.WellFormed) {e : Entry}
    (hentries : ch'.entries = ch.entries ++ [e]) (hvalue : e.value = .eof) :
    Follows own ch' (done ++ [.assign]) := by
  refine ⟨hwell, ?_, by rw [run_append]; exact h.keeps.assign⟩
  rw [run_append, hentries, List.map_append, ← h.types, List.map_singleton, hvalue]
  exact List.map_append

theorem Follows.write (h : Follows own ch done) (hwell : ch'.WellFormed) {e : Entry} {value : Oval}
    (he : ch.entries[i]? = some e)
    (hentries : ch'.entries = ch.entries.set i { e with value := value }) :
    ∃ own', Follows own' ch' (done ++ [.write i value]) := by
  have hlength : (Memory.run done).cells.length = ch.entries.length := by
    have := congrArg List.length h.types
    simpa using this
  have hi : i < (Memory.run done).cells.length := by
    rw [hlength]
    exact (List.getElem?_eq_some_iff.mp he).1
  obtain ⟨own', hkeeps⟩ := h.keeps.write value hi
  refine ⟨own', hwell, ?_, by rw [run_append]; exact hkeeps⟩
  have hcell := List.getElem?_eq_getElem hi
  have htype : ∀ (c : Cell) (heap : Heap), (c.write heap value).1.type = value.type := by
    intro c heap
    cases value with
    | array elements =>
      rw [Cell.write]
      split <;> rfl
    | _ => rfl
  rw [run_append, hentries, Memory.step, hcell]
  dsimp only
  rw [List.map_set, htype, h.types, List.map_set]

/-- **Every history**, by induction: one record does no more than one deed. -/
theorem Traced.follows (h : Traced ch done) : ∃ own, Follows own ch done := by
  induction h with
  | init id => exact ⟨_, wellFormed_init id, rfl, Memory.keeps_empty⟩
  | configured _ hcache hleft htotal ih =>
    obtain ⟨own, hfollows⟩ := ih
    refine ⟨own, hfollows.wellFormed.of_same hcache hleft htotal, ?_, hfollows.keeps⟩
    rw [hfollows.types, entries, entries, hcache]
  | smallint _ val hread ih =>
    obtain ⟨own, hfollows⟩ := ih
    obtain ⟨i, e, top, value, top', he, -, hentries, hwritten⟩ :=
      readRow_entries hfollows.wellFormed hread
    rw [hwritten]
    exact hfollows.write (readRow_wellFormed hfollows.wellFormed hread) he hentries
  | record _ version tag hread ih =>
    obtain ⟨own, hfollows⟩ := ih
    have hwell := readRecord_wellFormed hfollows.wellFormed hread
    rcases readRecord_deeds hfollows.wellFormed hread with ⟨hnone, hentries⟩ |
      ⟨e, hassign, hentries, hvalue⟩ | ⟨i, e, value, hwrite, he, hentries⟩
    · rw [hnone, List.append_nil]
      exact ⟨own, hwell, by rw [hfollows.types, hentries], hfollows.keeps⟩
    · rw [hassign]
      exact ⟨own, hfollows.assign hwell hentries hvalue⟩
    · rw [hwrite]
      exact hfollows.write hwell he hentries

theorem Traced.withTop (h : Traced ch done) (top : List UInt8) :
    Traced { ch with top := top } done := h.configured rfl rfl rfl

/-- Every reachable state has a history. -/
theorem Reachable.traced (h : ch.Reachable) : ∃ done, Traced ch done := by
  induction h with
  | init id => exact ⟨[], .init id⟩
  | configured _ hcache hleft htotal ih =>
    obtain ⟨done, htraced⟩ := ih
    exact ⟨done, htraced.configured hcache hleft htotal⟩
  | block _ version block hparse ih =>
    obtain ⟨done, htraced⟩ := ih
    obtain ⟨⟨flag, ch₁⟩, hrun, hparse⟩ := Exec.bind_eq_ok.mp hparse
    cases hparse
    refine Loop.run_invariant (fun ch => ∃ done, Traced ch done) ?_ _ _
      ⟨done, htraced.withTop block⟩ flag _ hrun
    rintro ch go ch' ⟨done, htraced⟩ hrecord
    unfold parseRecord at hrecord
    split at hrecord
    · cases hrecord
      exact ⟨done, htraced⟩
    · rename_i tag top _
      obtain ⟨ch₂, hread, hrecord⟩ := Exec.bind_eq_ok.mp hrecord
      cases hrecord
      have htop := htraced.withTop top
      unfold readTagged at hread
      split at hread
      · exact ⟨_, htop.smallint tag hread⟩
      · exact ⟨_, htop.record version tag hread⟩
  | line _ version hline ih =>
    obtain ⟨done, htraced⟩ := ih
    rcases getLine_eq_ok hline with ⟨-, rfl⟩ | ⟨-, first, rest, ch₁, tag, top, -, hfirst, -, hread⟩
    · exact ⟨done, htraced⟩
    · obtain ⟨done₁, htraced₁⟩ : ∃ done₁, Traced ch₁ done₁ := by
        split at hfirst
        · exact ⟨_, (htraced.withTop rest).smallint first hfirst⟩
        · cases hfirst
          exact ⟨done, htraced⟩
      exact ⟨_, (htraced₁.withTop top).record version tag hread⟩

end Channel

end Otic.Unpack
