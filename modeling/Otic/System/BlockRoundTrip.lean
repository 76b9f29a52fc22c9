import Otic.Pack.Encoder
import Otic.Unpack.Reachable

/-!
# The block parser undoes the record writers

The writers of `pack.c` put the encodings of records into an empty bucket, and the
parser of `unpack.c` gives them back their meaning, over the whole scalar format.
-/

namespace Otic

open Unpack.Channel

/-- The bucket of a writer after a block of records. -/
def blockOf (w : Pack.Channel) (records : List Record) : List UInt8 :=
  (w.writeRecords records).pending

theorem blockOf_eq {w : Pack.Channel} (hw : w.pending = []) (records : List Record) :
    blockOf w records = encodeAll records := by
  rw [blockOf, Pack.Channel.writeRecords_pending, hw, List.nil_append]

/-- **Blocks of records are read back.**  After each block, however the records are cut
into blocks, the parser has consumed the block to its last byte, and the sensors with
their values, the clock, the row counter and the rows delivered are what the records
so far amount to. -/
theorem parseBlocks_blockOf {w : Pack.Channel} (hw : w.pending = []) {ch : Unpack.Channel}
    (hch : ch.Reachable) (hfetch : ch.toFetch = []) {blocks : List (List Record)}
    (hvalid : ValidFrom ch.totalEntries blocks.flatten) (k : Nat) :
    ∃ ch', parseBlocks OTIC_VERSION_MAJOR ch ((blocks.take k).map (blockOf w)) = .ok ch' ∧
      (blocks.take k = [] ∨ ch'.top = []) ∧
      ch'.view = ch.view.applyAll (blocks.take k).flatten := by
  have hblocks : (blocks.take k).map (blockOf w) = (blocks.take k).map encodeAll :=
    List.map_congr_left fun records _ => blockOf_eq hw records
  have hcount : ch.totalEntries = ch.view.sensors.length := by
    rw [view_sensors_length]
    exact hch.wellFormed.total
  have hprefix : ValidFrom ch.view.sensors.length (blocks.take k).flatten := by
    rw [← List.take_append_drop k blocks, List.flatten_append, validFrom_append, hcount] at hvalid
    exact hvalid.1
  obtain ⟨ch', hparse, hch'⟩ := parseBlocks_encodeAll
    (show OTIC_VERSION_MAJOR ≠ 1 by decide) hch.wellFormed.stands hfetch hprefix
  refine ⟨ch', by rw [hblocks, hparse], ?_, hch'.view⟩
  have htop := hch'.top
  by_cases hempty : blocks.take k = []
  · exact Or.inl hempty
  · rw [if_neg hempty] at htop
    exact Or.inr htop

/-- A name, a value below the limit, a string that holds a tag, and the end mark, in
two blocks. -/
def sampleBlocks : List (List Record) :=
  [[.setTimestamp 5, .nameAssign ⟨⟨[0x61], notMem_a, sized_a⟩, [0x6D], by decide⟩,
      .smallInt ⟨7, by decide⟩ 0],
    [.string 0 ⟨[0xD8, 0x00], by decide⟩, .unmodified 0, .eof 3]]

theorem parseBlocks_blockOf_sample :
    ∃ ch', parseBlocks OTIC_VERSION_MAJOR (Unpack.Channel.init 1)
        ((sampleBlocks.take 2).map (blockOf (Pack.Channel.init 1 0 512))) = .ok ch' ∧
      (sampleBlocks.take 2 = [] ∨ ch'.top = []) ∧
      ch'.view = (Unpack.Channel.init 1).view.applyAll (sampleBlocks.take 2).flatten :=
  parseBlocks_blockOf rfl (.init 1) rfl (by decide) 2

end Otic
