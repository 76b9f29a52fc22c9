import Otic.Base

/-!
# Frames that store their block

What zstd makes of a short block that it cannot shrink: a frame with one raw block.
The header has the magic number, a descriptor for a content size of one byte, that
size, and the three bytes of the block header.  Blocks that need a longer size field
are kept behind a zero byte.  The compressor that only ever stores is lossless, and its
runs can be followed by hand.
-/

namespace Otic.Zstd

/-- The bytes before a raw block of `n ≤ 255` bytes; the block header is `8 * n + 1`. -/
def rawHeader (n : Nat) : List UInt8 :=
  [0x28, 0xB5, 0x2F, 0xFD, 0x20, UInt8.ofNat n,
    UInt8.ofNat (8 * n + 1), UInt8.ofNat ((8 * n + 1) / 256), 0]

/-- The frame of a block. -/
def storedFrame (block : List UInt8) : List UInt8 :=
  if block.length ≤ 255 then rawHeader block.length ++ block else 0 :: block

/-- The block of a frame. -/
def storedBlock : List UInt8 → Option (List UInt8)
  | 0x28 :: rest => some (rest.drop 8)
  | 0 :: block => some block
  | _ => none

theorem storedBlock_storedFrame (block : List UInt8) :
    storedBlock (storedFrame block) = some block := by
  unfold storedFrame
  split <;> rfl

/-- A compressor that stores. -/
def stored : Zstd where
  compress capacity block :=
    if (storedFrame block).length ≤ capacity then some (storedFrame block) else none
  decompress capacity frame := (storedBlock frame).filter fun block => block.length ≤ capacity
  remains _ _ out := out

theorem stored_lossless : stored.Lossless where
  compress_le := by
    intro capacity block frame h
    simp only [stored, Option.ite_none_right_eq_some, Option.some.injEq] at h
    obtain ⟨hle, rfl⟩ := h
    exact hle
  decompress_compress := by
    intro capacity block frame capacity' h hle
    simp only [stored, Option.ite_none_right_eq_some, Option.some.injEq] at h
    obtain ⟨-, rfl⟩ := h
    simp [stored, storedBlock_storedFrame, hle]

/-- A short block is stored wherever there are nine bytes to spare. -/
theorem stored_isSome {capacity : Nat} {block : List UInt8} (h : block.length + 9 ≤ capacity) :
    (stored.compress capacity block).isSome := by
  have hlength : (storedFrame block).length ≤ block.length + 9 := by
    unfold storedFrame
    split
    · simp only [rawHeader, List.length_append, List.length_cons, List.length_nil]
      omega
    · simp only [List.length_cons]
      omega
  simp only [stored]
  rw [if_pos (by omega)]
  rfl

end Otic.Zstd
