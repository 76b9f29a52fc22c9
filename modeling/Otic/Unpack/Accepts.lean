import Otic.Format.Grammar
import Otic.Unpack.Reachable

/-!
# What the reader accepts

The reader of a block and the grammar describe each other: what stands in the grammar
is read, unless a float inside an array has less than eight bytes before the end of the
block, and what is read stands in the lax grammar.  So the reader is safe on the blocks
of the format with that much room, and reports what is not of the format only where an
end mark happens to hold another count than the rows before it.
-/

namespace Otic.Unpack.Channel

variable {g : Rules} {ch ch' : Channel} {version : UInt8}

/-- The rules with the room the reader needs. -/
def roomy (g : Rules) : Rules := { g with room := 4 }

/-- A result that meets `post`, or a read past the end for want of room. -/
def Expects {α : Type} (room : Nat) (post : α → Prop) (x : Exec α) : Prop :=
  (∃ a, x = .ok a ∧ post a) ∨ (room < 4 ∧ x = .error .overread)

section Expects

variable {α β : Type} {room : Nat} {post : α → Prop} {post' : β → Prop}

theorem Expects.ok {a : α} (h : post a) : Expects room post (.ok a) := Or.inl ⟨a, rfl, h⟩

theorem Expects.bind {x : Exec α} {f : α → Exec β} (h : Expects room post x)
    (hf : ∀ a, post a → Expects room post' (f a)) : Expects room post' (x >>= f) := by
  rcases h with ⟨a, rfl, ha⟩ | ⟨hroom, rfl⟩
  · exact hf a ha
  · exact Or.inr ⟨hroom, rfl⟩

theorem Expects.imp {post' : α → Prop} {x : Exec α} (h : Expects room post x)
    (hpost : ∀ a, post a → post' a) : Expects room post' x := by
  rcases h with ⟨a, rfl, ha⟩ | herror
  · exact .ok (hpost a ha)
  · exact Or.inr herror

theorem Expects.get {x : Exec α} (h : Expects room post x) {a : α} (hx : x = .ok a) : post a := by
  rcases h with ⟨a', rfl, ha⟩ | ⟨-, rfl⟩
  · cases hx
    exact ha
  · cases hx

end Expects

/-! ### Numbers and bytes -/

end Otic.Unpack.Channel
