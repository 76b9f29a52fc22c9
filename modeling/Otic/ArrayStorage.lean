import Otic.Library.Loop
import Otic.Base

/-!
# The storage of an array (`base.c`)

`otic_array_init_size` takes a 64-bit count, keeps it in 32 bits, asks for as many bytes
as its product in 64 bits says, and goes through the elements with a counter of 32 bits.
The storage that it is given is the list of the types in it, whatever they were before.
-/

namespace Otic

def SIZEOF_OVAL : UInt64 := 24

/-- `malloc`: the elements that have their place in the storage it returns, if any. -/
structure Malloc where
  answer : UInt64 → Option (List OticType)
  room : ∀ bytes elements, answer bytes = some elements →
    elements.length = bytes.toNat / SIZEOF_OVAL.toNat

/-- An element was written behind the storage. -/
inductive StorageFault where
  | overwrite
deriving DecidableEq, Repr

/-- The members of an `oval_t` that holds an array. -/
structure ArrayVal where
  type : OticType
  size : UInt32
  elements : List OticType
deriving DecidableEq, Repr

/-- One round of the loop of `otic_array_init_size`. -/
def initBody (size : UInt64) (s : UInt32 × List OticType) :
    Except StorageFault (Bool × UInt32 × List OticType) :=
  if s.1.toUInt64 < size then
    if s.1.toNat < s.2.length then .ok (true, s.1 + 1, s.2.set s.1.toNat .null)
    else .error .overwrite
  else .ok (false, s)

/-- `otic_array_init_size`, in so many rounds of its loop: whether it was cut off, what it
returns and the value. -/
def arrayInitSize (malloc : Malloc) (oval : ArrayVal) (size : UInt64) (rounds : ℕ) :
    Except StorageFault (Bool × UInt8 × ArrayVal) :=
  let oval := { oval with size := size.toUInt32 }
  if size ≠ 0 then
    match malloc.answer (size * SIZEOF_OVAL) with
    | none => .ok (false, 0, { oval with elements := [] })
    | some elements => do
        let (cut, _, elements) ← Loop.run (initBody size) rounds (0, elements)
        .ok (cut, 1, { oval with elements, type := .array })
  else .ok (false, 1, { oval with type := .array })

/-- The call ends, and returns 0, or 1 with storage for so many elements, all NULL. -/
def StoresCount (malloc : Malloc) (oval : ArrayVal) (size : UInt64) : Prop :=
  ∃ rounds ret oval', arrayInitSize malloc oval size rounds = .ok (false, ret, oval') ∧
    (ret = 0 ∨
      ret = 1 ∧ oval'.type = .array ∧ oval'.size.toNat = size.toNat ∧
        (size * SIZEOF_OVAL).toNat = size.toNat * SIZEOF_OVAL.toNat ∧
        (size ≠ 0 → oval'.elements = List.replicate size.toNat .null))

/-! ### The loop -/

/-- The rounds that are left set the rest of the storage to NULL. -/
theorem initBody_run {size : UInt64} (hsize : size.toNat < 2 ^ 32) (rest : List OticType) :
    ∀ (done rounds : ℕ), done + rest.length = size.toNat → rest.length < rounds →
      Loop.run (initBody size) rounds
          (UInt32.ofNat done, List.replicate done .null ++ rest) =
        .ok (false, UInt32.ofNat size.toNat, List.replicate size.toNat .null) := by
  induction rest with
  | nil =>
    intro done rounds hlength hrounds
    obtain ⟨rounds, rfl⟩ : ∃ k, rounds = k + 1 := ⟨rounds - 1, by omega⟩
    rw [List.length_nil, Nat.add_zero] at hlength
    subst hlength
    have hend : ¬ (UInt32.ofNat size.toNat).toUInt64 < size := by
      rw [UInt64.lt_iff_toNat_lt, UInt32.toNat_toUInt64, UInt32.toNat_ofNat_of_lt' hsize]
      exact Nat.lt_irrefl _
    rw [List.append_nil]
    apply Loop.run_of_stop
    rw [initBody, if_neg hend]
  | cons type rest ih =>
    intro done rounds hlength hrounds
    obtain ⟨rounds, rfl⟩ : ∃ k, rounds = k + 1 := ⟨rounds - 1, by omega⟩
    rw [List.length_cons] at hlength hrounds
    have hsmall : done < UInt32.size := lt_of_le_of_lt (by omega) hsize
    have hdone : (UInt32.ofNat done).toNat = done := UInt32.toNat_ofNat_of_lt' hsmall
    have hgo : (UInt32.ofNat done).toUInt64 < size := by
      rw [UInt64.lt_iff_toNat_lt, UInt32.toNat_toUInt64, hdone]
      omega
    have hstep : initBody size (UInt32.ofNat done, List.replicate done .null ++ type :: rest) =
        .ok (true, UInt32.ofNat (done + 1), List.replicate (done + 1) .null ++ rest) := by
      unfold initBody
      simp only [hdone]
      rw [if_pos hgo, if_pos (by simp), List.set_append_right _ _ (by simp)]
      simp [List.replicate_succ', UInt32.ofNat_add]
    rw [Loop.run_of_continue hstep]
    exact ih (done + 1) rounds (by omega) (by omega)

/-- Below a count of 2^32 or more the counter always is. -/
theorem initBody_goes {size : UInt64} (hsize : 2 ^ 32 ≤ size.toNat)
    (s s' : UInt32 × List OticType) : initBody size s ≠ .ok (false, s') := by
  have hgo : s.1.toUInt64 < size := by
    rw [UInt64.lt_iff_toNat_lt, UInt32.toNat_toUInt64]
    exact lt_of_lt_of_le s.1.toNat_lt hsize
  unfold initBody
  rw [if_pos hgo]
  split <;> exact fun h => by cases h

/-! ### The call -/

theorem toNat_mul_sizeof {size : UInt64} (hsize : size.toNat < 2 ^ 32) :
    (size * SIZEOF_OVAL).toNat = size.toNat * SIZEOF_OVAL.toNat := by
  have hsizeof : SIZEOF_OVAL.toNat = 24 := rfl
  rw [UInt64.toNat_mul, hsizeof, Nat.mod_eq_of_lt (by omega)]

theorem arrayInitSize_small {malloc : Malloc} {size : UInt64} {elements : List OticType}
    (oval : ArrayVal) (hne : size ≠ 0) (hsize : size.toNat < 2 ^ 32)
    (halloc : malloc.answer (size * SIZEOF_OVAL) = some elements) {rounds : ℕ}
    (hrounds : size.toNat < rounds) :
    arrayInitSize malloc oval size rounds = .ok (false, 1,
      { type := .array, size := size.toUInt32
        elements := List.replicate size.toNat .null }) := by
  have hlength : elements.length = size.toNat := by
    rw [malloc.room _ _ halloc, toNat_mul_sizeof hsize]
    exact Nat.mul_div_cancel _ (by decide)
  have hrun := initBody_run hsize elements 0 rounds (by omega) (by omega)
  rw [List.replicate_zero, List.nil_append] at hrun
  unfold arrayInitSize
  simp only [halloc]
  rw [if_pos hne]
  change (Loop.run (initBody size) rounds (UInt32.ofNat 0, elements) >>= _) = _
  rw [hrun]
  rfl

theorem arrayInitSize_refused {malloc : Malloc} {size : UInt64} (oval : ArrayVal) (hne : size ≠ 0)
    (halloc : malloc.answer (size * SIZEOF_OVAL) = none) (rounds : ℕ) :
    arrayInitSize malloc oval size rounds =
      .ok (false, 0, { oval with size := size.toUInt32, elements := [] }) := by
  unfold arrayInitSize
  simp only [halloc]
  rw [if_pos hne]

/-- With storage for a count of 2^32 or more, whatever its size, the call does not end. -/
theorem arrayInitSize_endless {malloc : Malloc} {size : UInt64} {elements : List OticType}
    {oval oval' : ArrayVal} (hsize : 2 ^ 32 ≤ size.toNat)
    (halloc : malloc.answer (size * SIZEOF_OVAL) = some elements) (rounds : ℕ) (ret : UInt8) :
    arrayInitSize malloc oval size rounds ≠ .ok (false, ret, oval') := by
  have hne : size ≠ 0 := by
    rintro rfl
    exact absurd hsize (by decide)
  unfold arrayInitSize
  simp only [halloc]
  rw [if_pos hne]
  intro h
  obtain ⟨⟨cut, s⟩, hrun, h⟩ := Except.bind_eq_ok.mp h
  cases h
  exact Loop.run_never_stops (initBody_goes hsize) rounds _ _ hrun

/-- The loop keeps the storage as long as it was. -/
theorem length_initBody_run {size : UInt64} {elements : List OticType} {rounds : ℕ} {cut : Bool}
    {s : UInt32 × List OticType}
    (h : Loop.run (initBody size) rounds (0, elements) = .ok (cut, s)) :
    s.2.length = elements.length := by
  refine Loop.run_invariant (fun s => s.2.length = elements.length) ?_ rounds (0, elements) rfl
    cut s h
  intro s go s' hlength hbody
  unfold initBody at hbody
  split at hbody
  · split at hbody
    · cases hbody
      rw [List.length_set]
      exact hlength
    · cases hbody
  · cases hbody
    exact hlength

/-- Whatever the count, a call that returns 1 leaves storage for the size it kept. -/
theorem inStorage_of_one {malloc : Malloc} {size : UInt64} {oval oval' : ArrayVal} {rounds : ℕ}
    (h : arrayInitSize malloc oval size rounds = .ok (false, 1, oval')) :
    ∀ counter < oval'.size.toNat, counter < oval'.elements.length := by
  by_cases hne : size = 0
  · subst hne
    unfold arrayInitSize at h
    simp only at h
    rw [if_neg (by decide)] at h
    cases h
    intro counter hcounter
    exact absurd hcounter (Nat.not_lt_zero counter)
  · cases halloc : malloc.answer (size * SIZEOF_OVAL) with
    | none =>
      rw [arrayInitSize_refused oval hne halloc] at h
      cases h
    | some elements =>
      by_cases hsize : size.toNat < 2 ^ 32
      · have hroom := malloc.room _ _ halloc
        rw [toNat_mul_sizeof hsize, Nat.mul_div_cancel _ (by decide)] at hroom
        unfold arrayInitSize at h
        simp only [halloc] at h
        rw [if_pos hne] at h
        obtain ⟨⟨cut, s⟩, hrun, h⟩ := Except.bind_eq_ok.mp h
        have hlength := length_initBody_run hrun
        cases h
        intro counter hcounter
        rw [hlength, hroom]
        rw [UInt64.toNat_toUInt32, Nat.mod_eq_of_lt hsize] at hcounter
        exact hcounter
      · exact absurd h (arrayInitSize_endless (Nat.le_of_not_lt hsize) halloc rounds 1)

/-- **Array storage.**  The call ends as it should exactly for counts below 2^32, and for
those that there is no storage for; and where it returns 1, the loop of `read_array` over
`aval.size` stays inside the storage. -/
theorem storesCount_iff (malloc : Malloc) (oval : ArrayVal) (size : UInt64) :
    (StoresCount malloc oval size ↔
      size.toNat < 2 ^ 32 ∨ malloc.answer (size * SIZEOF_OVAL) = none) ∧
    ∀ rounds oval', arrayInitSize malloc oval size rounds = .ok (false, 1, oval') →
      ∀ counter < oval'.size.toNat, counter < oval'.elements.length := by
  refine ⟨?_, fun rounds oval' h => inStorage_of_one h⟩
  constructor
  · rintro ⟨rounds, ret, oval', h, -⟩
    by_contra hnot
    rw [not_or, Nat.not_lt] at hnot
    obtain ⟨elements, halloc⟩ := Option.ne_none_iff_exists'.mp hnot.2
    exact arrayInitSize_endless hnot.1 halloc rounds ret h
  · intro h
    by_cases hne : size = 0
    · subst hne
      exact ⟨0, 1, _, rfl, Or.inr ⟨rfl, rfl, rfl, rfl, fun h => absurd rfl h⟩⟩
    · cases halloc : malloc.answer (size * SIZEOF_OVAL) with
      | none => exact ⟨0, 0, _, arrayInitSize_refused oval hne halloc 0, Or.inl rfl⟩
      | some elements =>
        have hsize : size.toNat < 2 ^ 32 := h.resolve_right (by rw [halloc]; exact nofun)
        refine ⟨size.toNat + 1, 1, _,
          arrayInitSize_small oval hne hsize halloc (Nat.lt_succ_self _), Or.inr ?_⟩
        have hkept : size.toUInt32.toNat = size.toNat := by
          rw [UInt64.toNat_toUInt32, Nat.mod_eq_of_lt hsize]
        exact ⟨rfl, rfl, hkept, toNat_mul_sizeof hsize, fun _ => rfl⟩

/-- Storage for whatever is asked for, with NULL in it. -/
def Malloc.generous : Malloc where
  answer bytes := some (List.replicate (bytes.toNat / SIZEOF_OVAL.toNat) .null)
  room := by
    intro bytes elements h
    cases h
    exact List.length_replicate

/-- The least count whose product passes 2^64 asks for eight bytes. -/
theorem not_storesCount_wrapped :
    (768614336404564651 * SIZEOF_OVAL).toNat = 8 ∧
      ¬ StoresCount .generous ⟨.null, 0, []⟩ 768614336404564651 := by
  refine ⟨by decide, ?_⟩
  rintro ⟨rounds, ret, oval', h, -⟩
  exact arrayInitSize_endless (by decide) rfl rounds ret h

end Otic
