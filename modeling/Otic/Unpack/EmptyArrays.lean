import Otic.Unpack.Ownership

/-!
# Empty arrays (`unpack.c`)

When the reader frees only what it owns, said of the values that were written for a
sensor.  An array without elements leaves `aval.elements` as it was.  What stands there is
the size of a string, or the elements of an earlier array, and these may have been freed;
the cleaner is called on them when the next number, null or string comes, or the channel
is closed.  `frees_iff` says that this is the only way to go wrong.
-/

namespace Otic.Unpack

/-- Strings and arrays with elements: their readers store the word of `aval.elements`. -/
def stores : Oval → Bool
  | .string _ _ => true
  | .array elements => !elements.isEmpty
  | _ => false

/-- The values whose readers call the cleaner first. -/
def cleans : Oval → Bool
  | .null | .intNeg _ | .intPos _ | .double _ | .float _ _ | .string _ _ => true
  | _ => false

/-- An array was followed by a value whose reader calls the cleaner. -/
def ArrayFreed (values : List Oval) : Prop :=
  ∃ before elements value after, values = before ++ .array elements :: value :: after ∧
    cleans value = true

/-- The word of `aval.elements` is neither null nor that of a live block: the last value
that stored it is a string that is not empty, or an array that was freed since. -/
inductive LeavesStale (values : List Oval) : Prop
  | string {before after : List Oval} {block : List UInt8} {size : ℕ}
      (hvalues : values = before ++ .string block size :: after)
      (hlast : ∀ later ∈ after, stores later = false) (hsize : size ≠ 0)
  | freed {before after : List Oval} {elements : List Oval}
      (hvalues : values = before ++ .array elements :: after)
      (hlast : ∀ later ∈ after, stores later = false) (helements : elements ≠ [])
      (hfreed : ArrayFreed (.array elements :: after))

/-- No empty array finds a stale word and is cleaned, by the next value or at the close. -/
def FreesHeld (values : List Oval) : Prop :=
  ∀ before after, values = before ++ .array [] :: after →
    (∀ value ∈ after.head?, cleans value = true) → ¬ LeavesStale before

/-! ### The last value that stored the word -/

variable {values before after : List Oval} {value : Oval}

theorem exists_last_stored (values : List Oval) : (∀ value ∈ values, stores value = false) ∨
    ∃ before value after, values = before ++ value :: after ∧ stores value = true ∧
      ∀ later ∈ after, stores later = false := by
  induction values with
  | nil => exact Or.inl fun _ hnone => absurd hnone List.not_mem_nil
  | cons first values ih =>
    rcases ih with hnone | ⟨before, value, after, rfl, hstores, hlast⟩
    · cases hfirst : stores first with
      | true => exact Or.inr ⟨[], first, values, rfl, hfirst, hnone⟩
      | false => exact Or.inl (List.forall_mem_cons.mpr ⟨hfirst, hnone⟩)
    · exact Or.inr ⟨first :: before, value, after, rfl, hstores, hlast⟩

/-! ### What the grip says -/

theorem type_gripOf (values : List Oval) (value : Oval) :
    (gripOf (values ++ [value])).type = value.type := by
  rw [gripOf_append]
  cases value <;> rfl

theorem type_gripOf_append (before : List Oval) (hvalues : values ≠ []) :
    (gripOf (before ++ values)).type = (gripOf values).type := by
  rcases List.eq_nil_or_concat' values with rfl | ⟨middle, value, rfl⟩
  · exact absurd rfl hvalues
  · rw [← List.append_assoc, type_gripOf, type_gripOf]

theorem hasElements_type : HasElements value.type ↔ ∃ elements, value = .array elements := by
  cases value <;> simp [HasElements, Oval.type]

/-- The value of a sensor is an array exactly if the last one that was written is. -/
theorem hasElements_gripOf : HasElements (gripOf values).type ↔
    ∃ before elements, values = before ++ [.array elements] := by
  rcases List.eq_nil_or_concat' values with rfl | ⟨before, value, rfl⟩
  · simp [gripOf, Grip.fresh, HasElements]
  · rw [type_gripOf, hasElements_type]
    simp

theorem lost_write (g : Grip) (value : Oval) :
    (g.write value).lost = (g.lost || (cleans value && decide g.Slips)) := by
  cases value <;> simp [Grip.write, Grip.clean, cleans]

theorem tail_write (g : Grip) (hstores : stores value = false) :
    (g.write value).tail =
      if cleans value = true ∧ HasElements g.type then g.tail.freed else g.tail := by
  cases value with
  | string => cases hstores
  | array elements =>
    have hempty : elements.isEmpty = true := by simpa [stores] using hstores
    simp [Grip.write, hempty, cleans]
  | _ => simp [Grip.write, Grip.clean, cleans]

theorem arrayFreed_append : ArrayFreed (values ++ [value]) ↔
    ArrayFreed values ∨ cleans value = true ∧ HasElements (gripOf values).type := by
  constructor
  · rintro ⟨before, elements, next, after, hvalues, hcleans⟩
    rcases List.eq_nil_or_concat' after with rfl | ⟨after, last, rfl⟩
    · have hsplit : values ++ [value] = (before ++ [.array elements]) ++ [next] := by
        simpa using hvalues
      obtain ⟨rfl, hlast⟩ := List.append_inj' hsplit rfl
      cases hlast
      exact Or.inr ⟨hcleans, hasElements_gripOf.mpr ⟨before, elements, rfl⟩⟩
    · have hsplit : values ++ [value] = (before ++ .array elements :: next :: after) ++ [last] := by
        simpa using hvalues
      exact Or.inl ⟨before, elements, next, after, (List.append_inj' hsplit rfl).1, hcleans⟩
  · rintro (⟨before, elements, next, after, rfl, hcleans⟩ | ⟨hcleans, helements⟩)
    · exact ⟨before, elements, next, after ++ [value], by simp, hcleans⟩
    · obtain ⟨before, elements, rfl⟩ := hasElements_gripOf.mp helements
      exact ⟨before, elements, value, [], by simp, hcleans⟩

theorem tail_of_none (hnone : ∀ value ∈ values, stores value = false) :
    (gripOf values).tail = .null := by
  induction values using List.reverseRecOn with
  | nil => rfl
  | append_singleton values value ih =>
    rw [gripOf_append, tail_write _ (hnone value (by simp)), ih fun v hv => hnone v (by simp [hv])]
    exact ite_self _

theorem tail_of_string {block : List UInt8} {size : ℕ}
    (hlast : ∀ later ∈ after, stores later = false) :
    (gripOf (before ++ .string block size :: after)).tail =
      if size = 0 then .null else .stale := by
  induction after using List.reverseRecOn with
  | nil =>
    rw [gripOf_append]
    rfl
  | append_singleton after value ih =>
    rw [← List.cons_append, ← List.append_assoc, gripOf_append,
      tail_write _ (hlast value (by simp)), ih fun v hv => hlast v (by simp [hv])]
    split <;> split <;> rfl

/-- The elements of an array are held until it is freed. -/
theorem tail_of_array {elements : List Oval} (helements : elements ≠ [])
    (hlast : ∀ later ∈ after, stores later = false) :
    ((gripOf (before ++ .array elements :: after)).tail = .held ∧
        ¬ ArrayFreed (.array elements :: after)) ∨
      (gripOf (before ++ .array elements :: after)).tail = .stale ∧
        ArrayFreed (.array elements :: after) := by
  induction after using List.reverseRecOn with
  | nil =>
    left
    constructor
    · rw [gripOf_append]
      exact if_neg (by simpa using helements)
    · rintro ⟨before, _, _, after, hvalues, -⟩
      have hlength := congrArg List.length hvalues
      simp only [List.length_append, List.length_cons, List.length_nil] at hlength
      omega
  | append_singleton after value ih =>
    have hkeep := ih fun later hlater => hlast later (by simp [hlater])
    rw [← List.cons_append, ← List.append_assoc, gripOf_append, arrayFreed_append,
      tail_write _ (hlast value (by simp)), type_gripOf_append _ (List.cons_ne_nil _ _)]
    by_cases hfreed : cleans value = true ∧ HasElements (gripOf (.array elements :: after)).type
    · rw [if_pos hfreed]
      refine Or.inr ⟨?_, Or.inr hfreed⟩
      rcases hkeep with ⟨htail, -⟩ | ⟨htail, -⟩ <;> rw [htail] <;> rfl
    · rw [if_neg hfreed]
      rcases hkeep with ⟨htail, hheld⟩ | ⟨htail, hstale⟩
      · exact Or.inl ⟨htail, fun h => h.elim hheld hfreed⟩
      · exact Or.inr ⟨htail, Or.inl hstale⟩

/-- **The word is stale** exactly if the grip's tail is. -/
theorem tail_eq_stale_iff : (gripOf values).tail = .stale ↔ LeavesStale values := by
  constructor
  · intro htail
    rcases exists_last_stored values with hnone | ⟨before, value, after, rfl, hstores, hlast⟩
    · rw [tail_of_none hnone] at htail
      cases htail
    cases value with
    | string block size =>
      rw [tail_of_string hlast] at htail
      split at htail
      · cases htail
      · exact .string rfl hlast ‹_›
    | array elements =>
      have helements : elements ≠ [] := by simpa [stores] using hstores
      rcases @tail_of_array before after elements helements hlast with ⟨hheld, -⟩ | ⟨-, hfreed⟩
      · rw [hheld] at htail
        cases htail
      · exact .freed rfl hlast helements hfreed
    | _ => cases hstores
  · intro hstale
    cases hstale with
    | string hvalues hlast hsize => rw [hvalues, tail_of_string hlast, if_neg hsize]
    | freed hvalues hlast helements hfreed =>
      rw [hvalues]
      exact (tail_of_array helements hlast).elim (fun h => absurd hfreed h.2) And.left

theorem slips_iff : (gripOf values).Slips ↔ ∃ before, values = before ++ [.array []] ∧
    LeavesStale before := by
  constructor
  · rintro ⟨helements, htail⟩
    obtain ⟨before, elements, rfl⟩ := hasElements_gripOf.mp helements
    rw [gripOf_append] at htail
    cases elements with
    | nil => exact ⟨before, rfl, tail_eq_stale_iff.mp htail⟩
    | cons => cases htail
  · rintro ⟨before, rfl, hstale⟩
    refine ⟨hasElements_gripOf.mpr ⟨before, [], rfl⟩, ?_⟩
    rw [gripOf_append]
    exact tail_eq_stale_iff.mpr hstale

theorem lost_iff : (gripOf values).lost = true ↔ ∃ before value after,
    values = before ++ .array [] :: value :: after ∧ cleans value = true ∧ LeavesStale before := by
  induction values using List.reverseRecOn with
  | nil =>
    refine iff_of_false Bool.false_ne_true ?_
    rintro ⟨before, value, after, hvalues, -⟩
    cases before <;> cases hvalues
  | append_singleton values last ih =>
    rw [gripOf_append, lost_write, Bool.or_eq_true, Bool.and_eq_true, decide_eq_true_eq, ih,
      slips_iff]
    constructor
    · rintro (⟨before, value, after, rfl, hcleans, hstale⟩ | ⟨hcleans, before, rfl, hstale⟩)
      · exact ⟨before, value, after ++ [last], by simp, hcleans, hstale⟩
      · exact ⟨before, last, [], by simp, hcleans, hstale⟩
    · rintro ⟨before, value, after, hvalues, hcleans, hstale⟩
      rcases List.eq_nil_or_concat' after with rfl | ⟨after, final, rfl⟩
      · have hsplit : values ++ [last] = (before ++ [.array []]) ++ [value] := by
          simpa using hvalues
        obtain ⟨rfl, hlast⟩ := List.append_inj' hsplit rfl
        cases hlast
        exact Or.inr ⟨hcleans, before, rfl, hstale⟩
      · have hsplit : values ++ [last] = (before ++ .array [] :: value :: after) ++ [final] := by
          simpa using hvalues
        exact Or.inl ⟨before, value, after, (List.append_inj' hsplit rfl).1, hcleans, hstale⟩

/-- **Safe grips** are those of sound values. -/
theorem safe_iff : (gripOf values).Safe ↔ FreesHeld values := by
  rw [Grip.Safe, slips_iff, ← Bool.not_eq_true, lost_iff]
  constructor
  · rintro ⟨hlost, hslips⟩ before after hvalues hnext hstale
    cases after with
    | nil => exact hslips ⟨before, hvalues, hstale⟩
    | cons value after => exact hlost ⟨before, value, after, hvalues, hnext value rfl, hstale⟩
  · intro hsound
    constructor
    · rintro ⟨before, value, after, hvalues, hcleans, hstale⟩
      refine hsound before (value :: after) hvalues ?_ hstale
      intro next hnext
      cases hnext
      exact hcleans
    · rintro ⟨before, hvalues, hstale⟩
      exact hsound before [] hvalues (fun _ hnone => by cases hnone) hstale

/-! ### The result -/

/-- **What the reader frees.**  The types of the values in memory are those of the entries,
the pointer of a string is that of a live block, and nothing else than live blocks is
freed, up to the close, exactly if every sensor is sound. -/
theorem frees_iff {ch : Channel} {done : List Deed} (h : ch.Traced done) :
    (Memory.run done).cells.map Cell.type = ch.entries.map (fun e => e.value.type) ∧
      (∀ c ∈ (Memory.run done).cells, c.type = .string →
        ∃ b ∈ (Memory.run done).heap.live, c.first = .block b) ∧
      ((Memory.run done).close.broken = false ↔ ∀ i, FreesHeld (writesTo i done)) ∧
      ((∀ i elements, .array elements ∈ writesTo i done → elements ≠ []) →
        (Memory.run done).close.broken = false) := by
  obtain ⟨own, hfollows⟩ := h.follows
  have hclose : (Memory.run done).close.broken = false ↔ ∀ i, FreesHeld (writesTo i done) :=
    hfollows.keeps.close.trans (forall_congr' fun _ => safe_iff)
  refine ⟨hfollows.types, fun c hc hstring => ?_, hclose, fun helements => ?_⟩
  · obtain ⟨i, hi⟩ := List.mem_iff_getElem?.mp hc
    obtain ⟨b, hfirst, hb⟩ := (hfollows.keeps.fits i c hi).text hstring
    exact ⟨b, hfollows.keeps.owned.live _ b hb, hfirst⟩
  · apply hclose.mpr
    intro i before after hvalues
    exact absurd rfl (helements i [] (by rw [hvalues]; simp))

/-! ### An empty array in the place of a string -/

/-- A channel that has read a record. -/
def afterRecord (ch : Channel) (tag : UInt8) (top : List UInt8) : Channel :=
  match Channel.readRecord OTIC_VERSION_MAJOR tag { ch with top := top } with
  | .ok ch => ch
  | .error _ => ch

/-- A name, the string `"b"` for it, and an empty array. -/
def lostName : Channel := afterRecord (Channel.init 1) 0xD7 [2, 0x61, 0]
def lostString : Channel := afterRecord lostName 0xCE [0, 1, 0x62]
def lostSize : Channel := afterRecord lostString 0xCF [0, 0]

theorem traced_lostSize :
    lostSize.Traced [.assign, .write 0 (.string [0x62, 0] 1), .write 0 (.array [])] := by
  have hname : lostName.Traced [.assign] :=
    ((Channel.Traced.init 1).withTop [2, 0x61, 0]).record OTIC_VERSION_MAJOR 0xD7 rfl
  have hstring : lostString.Traced [.assign, .write 0 (.string [0x62, 0] 1)] :=
    (hname.withTop [0, 1, 0x62]).record OTIC_VERSION_MAJOR 0xCE rfl
  exact (hstring.withTop [0, 0]).record OTIC_VERSION_MAJOR 0xCF rfl

/-- The length of the string is freed. -/
theorem frees_iff_lostSize : ∃ done, lostSize.Traced done ∧
    ((Memory.run done).close.broken = false ↔ ∀ i, FreesHeld (writesTo i done)) ∧
    (Memory.run done).close.broken = true :=
  ⟨_, traced_lostSize, (frees_iff traced_lostSize).2.2.1, by decide⟩

end Otic.Unpack
