import Otic.System.Isolation
import Otic.Unpack.Effects

/-!
# Files that are cut off

A writer that dies, or a disk that is full, leaves a part of a file.  The reader
delivers the blocks that are complete in it and nothing else (`readFile_take`), and it
takes notice of the end only if it comes between the head of a frame and what belongs to
its type.
-/

namespace Otic

open Pack Unpack OticUnpack

variable {zstd : Zstd} {u : OticUnpack} {select : List UInt8} {events later : List Event}
  {rest : List UInt8} {n : Nat}

/-! ### Parts of streams -/

theorem Stream.of_concat {e : Event} (h : Stream zstd (events ++ [e])) :
    Stream zstd events ∧ ∀ id block frame, e = .data id block frame →
      Event.Sound zstd events id block frame := by
  generalize hall : events ++ [e] = all at h
  cases h with
  | nil => exact absurd hall (List.append_ne_nil_of_right_ne_nil _ (List.cons_ne_nil _ _))
  | define id channelType bucketSize h =>
    obtain ⟨rfl, hlast⟩ := List.append_inj' hall rfl
    cases hlast
    exact ⟨h, fun _ _ _ hdata => nomatch hdata⟩
  | data h hsound =>
    obtain ⟨rfl, hlast⟩ := List.append_inj' hall rfl
    cases hlast
    refine ⟨h, fun id block frame hdata => ?_⟩
    cases hdata
    exact hsound

theorem Stream.of_append (h : Stream zstd (events ++ later)) : Stream zstd events := by
  induction later using List.reverseRecOn with
  | nil => simpa using h
  | append_singleton later e ih =>
    rw [← List.append_assoc] at h
    exact ih h.of_concat.1

/-- A reader that has come to the end of a file. -/
structure Ended (calls : List (UInt8 × Row)) (torn : Prop) (u : OticUnpack) : Prop where
  calls : u.calls = calls
  noticed : torn → u.state = .onError ∧ u.error = .eof
  unnoticed : ¬ torn → u.state = .opened ∧ u.error = .none

theorem Ended.congr {calls : List (UInt8 × Row)} {torn torn' : Prop} (h : Ended calls torn u)
    (hsame : torn ↔ torn') : Ended calls torn' u :=
  ⟨h.calls, fun ht => h.noticed (hsame.mpr ht), fun ht => h.unnoticed (mt hsame.mp ht)⟩

/-- The calls of `otic_unpack_parse` up to the one that returns 0. -/
def Stops (zstd : Zstd) (u u' : OticUnpack) : Prop :=
  ∃ u₁, Loop.Goes (parse zstd) u u₁ ∧ u₁.parse zstd = .ok (false, u')

theorem Stops.step {u₁ u' : OticUnpack} (h : Stops zstd u₁ u')
    (hparse : u.parse zstd = .ok (true, u₁)) : Stops zstd u u' := by
  obtain ⟨u₂, hgoes, hstop⟩ := h
  exact ⟨u₂, .step hparse hgoes, hstop⟩

end Otic
