import Otic.Format.Heard
import Otic.Unpack.Buffers

/-!
# Reading a stream by lines

A call of `otic_unpack_getLine` takes one record, but after a small integer it reads on
at the next record and does not look whether that one is a small integer too.  Where
every small integer has another record behind it (`Legible`), a call takes one line:
`getLine_encode` is the step, `Loaded.run` the induction over a block, and
`generate_stream` the one over the stream.
-/

namespace Otic

def Record.isSmallInt : Record → Bool
  | .smallInt _ _ => .true
  | _ => .false

/-- What one call reads of a block. -/
inductive Line : List Record → Prop
  | one {r : Record} (hr : r.isSmallInt = .false) : Line [r]
  | two (value : SmallInt) (index : UInt32) {r : Record} (hr : r.isSmallInt = .false) :
      Line [.smallInt value index, r]

/-- An end mark can only be the last record of a line. -/
theorem Line.untilEof_append {line : List Record} (hline : Line line)
    (heof : line.any Record.isEof = .true) (left : List Record) :
    untilEof (line ++ left) = line := by
  cases hline with
  | one hr =>
    rw [List.any_cons, List.any_nil, Bool.or_false] at heof
    rw [List.cons_append, untilEof, if_pos heof]
  | two value index hr =>
    have hsmall : (Record.smallInt value index).isEof = .false := rfl
    rw [List.any_cons, List.any_cons, List.any_nil, Bool.or_false, hsmall, Bool.false_or] at heof
    rw [List.cons_append, untilEof, if_neg (by simp [hsmall]), List.cons_append, untilEof,
      if_pos heof]

/-- Behind every small integer there is a record that is none. -/
def Legible : List Record → Prop
  | [] => True
  | r :: rs => (r.isSmallInt = .true → ∃ next ∈ rs.head?, next.isSmallInt = .false) ∧ Legible rs

instance decidableLegible : (block : List Record) → Decidable (Legible block)
  | [] => isTrue trivial
  | r :: rs =>
      haveI := decidableLegible rs
      inferInstanceAs (Decidable
        ((r.isSmallInt = .true → ∃ next ∈ rs.head?, next.isSmallInt = .false) ∧ Legible rs))

theorem Legible.cases {block : List Record} (h : Legible block) :
    block = [] ∨ ∃ line rest, block = line ++ rest ∧ Line line ∧ Legible rest := by
  cases block with
  | nil => exact Or.inl rfl
  | cons r rs =>
    right
    cases hr : r.isSmallInt with
    | false => exact ⟨[r], rs, rfl, .one hr, h.2⟩
    | true =>
      obtain ⟨next, hnext, hsmall⟩ := h.1 hr
      cases r with
      | smallInt value index =>
        cases rs with
        | nil => cases hnext
        | cons r' rs =>
          have hsame : r' = next := by simpa using hnext
          subst hsame
          exact ⟨[.smallInt value index, r'], rs, rfl, .two value index hsmall, h.2.2⟩
      | _ => cases hr

/-- Induction over the lines of a legible block. -/
theorem Legible.byLines {motive : (block : List Record) → Legible block → Prop}
    (nil : motive [] trivial)
    (line : ∀ (line rest : List Record) (_ : Line line) (hrest : Legible rest)
      (hboth : Legible (line ++ rest)), motive rest hrest → motive (line ++ rest) hboth)
    {block : List Record} (h : Legible block) : motive block h := by
  have hsized : ∀ (n : Nat) (block : List Record) (h : Legible block), block.length ≤ n →
      motive block h := by
    intro n
    induction n with
    | zero =>
      intro block h hlength
      cases List.eq_nil_of_length_eq_zero (Nat.le_zero.mp hlength)
      exact nil
    | succ n ih =>
      intro block h hlength
      rcases h.cases with rfl | ⟨first, rest, rfl, hline, hrest⟩
      · exact nil
      · have hpos : 0 < first.length := by cases hline <;> simp
        rw [List.length_append] at hlength
        exact line first rest hline hrest h (ih rest hrest (by omega))
  exact hsized block.length block h le_rfl

namespace Unpack.Channel

variable {fr : Frame} {v : View} {ch ch' : Channel} {rest : List UInt8}

/-! ### Where the block ends -/

/-- `base.top` is in the block that was decompressed last. -/
structure Within (ch : Channel) : Prop where
  topEnd : ch.topEnd = some ch.blockSize
  length : ch.top.length ≤ ch.blockSize

theorem within_load (ch : Channel) (block : List UInt8) : (ch.load block).Within := ⟨rfl, le_rfl⟩

/-- There the block is used up where `top` is empty. -/
theorem Within.usedUp (h : ch.Within) : ch.usedUp = .ok (decide (ch.top = [])) := by
  have hlength := h.length
  have hempty : ch.blockSize ≤ ch.blockSize - ch.top.length ↔ ch.top = [] := by
    rw [← List.length_eq_zero_iff]
    omega
  simp only [Channel.usedUp, offset, h.topEnd, Option.map_some, hempty]

/-- The same block. -/
def SameBlock (ch ch' : Channel) : Prop := ch'.topEnd = ch.topEnd ∧ ch'.blockSize = ch.blockSize

theorem Within.of_sameBlock (h : ch.Within) (hsame : ch.SameBlock ch')
    (hlength : ch'.top.length ≤ ch.top.length) : ch'.Within := by
  constructor
  · rw [hsame.1, hsame.2]
    exact h.topEnd
  · rw [hsame.2]
    exact hlength.trans h.length

theorem readRow_sameBlock {payload : Entry → List UInt8 → Exec (Oval × List UInt8)}
    (hread : readRow payload ch = .ok ch') : ch.SameBlock ch' := by
  obtain ⟨⟨i, e, top⟩, -, hread⟩ := Exec.bind_eq_ok.mp hread
  obtain ⟨⟨value, top'⟩, -, hread⟩ := Exec.bind_eq_ok.mp hread
  cases hread
  unfold flushIfFlushable
  split <;> exact ⟨rfl, rfl⟩

/-- Only a raw buffer can lead out of the block. -/
theorem readRecord_sameBlock {version tag : UInt8} (htag : OticType.ofByte? tag ≠ some .rawbuffer)
    (hread : readRecord version tag ch = .ok ch') : ch.SameBlock ch' := by
  unfold readRecord at hread
  split at hread
  case h_9 | h_10 =>
    obtain ⟨⟨value, top⟩, -, hread⟩ := Exec.bind_eq_ok.mp hread
    cases hread
    exact ⟨rfl, rfl⟩
  case h_11 =>
    obtain ⟨⟨length, top⟩, -, hread⟩ := Exec.bind_eq_ok.mp hread
    obtain ⟨ch₁, hinsert, hread⟩ := Exec.bind_eq_ok.mp hread
    obtain ⟨e, rfl⟩ := insertEntry_eq_ok hinsert
    cases hread
    unfold reserve
    split <;> exact ⟨rfl, rfl⟩
  case h_13 =>
    obtain ⟨⟨expected, top⟩, -, hread⟩ := Exec.bind_eq_ok.mp hread
    dsimp only at hread
    split at hread <;>
    · cases hread
      exact ⟨rfl, rfl⟩
  case h_15 => exact absurd ‹_› htag
  case h_16 =>
    cases hread
    exact ⟨rfl, rfl⟩
  all_goals exact readRow_sameBlock hread

/-! ### Lines -/

theorem readRecord_encode {version : UInt8} (hversion : version ≠ 1) {r : Record}
    (hch : ch.Stands fr v (r.encode ++ rest)) (hfetch : fr.toFetch = [])
    (hvalid : r.Valid v.sensors.length) (hsmall : r.isSmallInt = .false) :
    ∃ tag top ch', ch.top = tag :: top ∧ ¬ tag < SMALL_INT_LIMIT ∧
      readRecord version tag { ch with top := top } = .ok ch' ∧
      ch'.Stands fr (v.apply r) rest ∧ (ch.Within → ch'.Within) ∧
      decide (OticType.ofByte? tag ≠ some .eof) = !r.isEof := by
  obtain ⟨type, bytes, hencode, hraw, htype⟩ : ∃ (type : OticType) (bytes : List UInt8),
      r.encode = type.toByte :: bytes ∧ type ≠ .rawbuffer ∧
        decide (some type ≠ some .eof) = !r.isEof := by
    cases r with
    | smallInt value index => cases hsmall
    | _ => exact ⟨_, _, rfl, by decide, rfl⟩
  obtain ⟨ch', hparse, hch'⟩ := parseRecord_encode hversion hch hfetch hvalid
  have htop : ch.top = type.toByte :: (bytes ++ rest) := by
    rw [hch.top, hencode, List.cons_append]
  have hread : readRecord version type.toByte { ch with top := bytes ++ rest } = .ok ch' := by
    simp only [parseRecord, htop, readTagged_toByte] at hparse
    obtain ⟨ch₁, hread, hparse⟩ := Exec.bind_eq_ok.mp hparse
    cases hparse
    exact hread
  refine ⟨type.toByte, bytes ++ rest, ch', htop, type.not_toByte_lt, hread, hch', ?_, ?_⟩
  · intro hwithin
    have hsame := readRecord_sameBlock (by
      rw [OticType.ofByte?_toByte]
      exact fun h => hraw (Option.some.inj h)) hread
    apply hwithin.of_sameBlock hsame
    rw [hch'.top, htop, List.length_cons, List.length_append]
    omega
  · rw [OticType.ofByte?_toByte]
    exact htype

/-- **A line** is read by one call. -/
theorem getLine_encode {version : UInt8} (hversion : version ≠ 1) {line : List Record}
    (hline : Line line) (hch : ch.Stands fr v (encodeAll line ++ rest)) (hwithin : ch.Within)
    (hfetch : fr.toFetch = []) (hvalid : ValidFrom v.sensors.length line) :
    ∃ ch', getLine version ch = .ok (!line.any Record.isEof, false, ch') ∧
      ch'.Stands fr (v.applyAll line) rest ∧ ch'.Within := by
  have hgoes : ch.top ≠ [] → getLine version ch = ch.takeLine version := by
    intro hne
    rw [getLine, hwithin.usedUp, decide_eq_false hne]
    rfl
  cases hline with
  | one hr =>
    rename_i r
    rw [encodeAll_cons, encodeAll_nil, List.append_nil] at hch
    obtain ⟨tag, top, ch', htop, hlimit, hread, hch', hwithin', heof⟩ :=
      readRecord_encode hversion hch hfetch hvalid.1 hr
    refine ⟨ch', ?_, hch', hwithin' hwithin⟩
    rw [hgoes (by rw [htop]; exact List.cons_ne_nil tag top)]
    simp only [takeLine, htop, if_neg hlimit, Exec.ok_bind, takeByte_cons, hread, heof,
      List.any_cons, List.any_nil, Bool.or_false]
  | two value index hr =>
    rename_i r
    rw [encodeAll_cons, encodeAll_cons, encodeAll_nil, List.append_nil, List.append_assoc] at hch
    -- the small integer, as the loop over a block reads it
    obtain ⟨ch₁, hfirst, hch₁⟩ := parseRecord_encode hversion hch hfetch hvalid.1
    have htop₁ :
        ch.top = value.val :: (leb128EncodeUnsigned index.toUInt64 ++ (r.encode ++ rest)) :=
      hch.top
    simp only [parseRecord, htop₁, readTagged, if_pos value.property] at hfirst
    obtain ⟨ch₂, hsmall, hfirst⟩ := Exec.bind_eq_ok.mp hfirst
    cases hfirst
    have hvalid₁ : r.Valid (v.apply (.smallInt value index)).sensors.length := by
      rw [View.apply_sensors_length]
      exact hvalid.2.1
    obtain ⟨tag, top, ch', htop, -, hread, hch', hwithin', heof⟩ :=
      readRecord_encode hversion hch₁ hfetch hvalid₁ hr
    have hwithin₁ : ch₁.Within := by
      have hsame := readRow_sameBlock hsmall
      apply hwithin.of_sameBlock hsame
      rw [hch₁.top, htop₁, List.length_cons, @List.length_append _ (leb128EncodeUnsigned _)]
      omega
    refine ⟨ch', ?_, hch', hwithin' hwithin₁⟩
    rw [hgoes (by rw [htop₁]; exact List.cons_ne_nil _ _)]
    simp only [takeLine, htop₁, if_pos value.property, hsmall, Exec.ok_bind, htop, takeByte_cons,
      hread, heof, List.any_cons, List.any_nil, Bool.or_false]
    rfl

end Unpack.Channel

end Otic
