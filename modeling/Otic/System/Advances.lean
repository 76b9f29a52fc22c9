import Otic.System.ArrayRoundTrip
import Otic.System.RawBuffers

/-!
# What some bytes do to a reader

Bytes that take a reader from one view to another, whatever is behind them (`Advances`): those
of records, and those of the row of an array that is read back.  What they do does not depend
on the blocks that they are sent in.
-/

namespace Otic

open Pack Unpack
open Unpack.Channel (parseRecord parseBlock readTagged readTagged_toByte readRecord readArray
  readArrayRow readRow_encode Stands)

/-! ### Arrays that are read back -/

mutual

/-- What an element is read as; a float is read with what follows it, and others are not read
back at all. -/
def ovalOf : Element → Option Oval
  | .intPos lval => if SMALL_INT_LIMIT.toUInt64 ≤ lval then some (.intPos lval) else none
  | .intNeg lval => some (.intNeg lval)
  | .double dval => some (.double dval)
  | .string sval => if sval.length ≤ 255 then some (.string sval sval.length) else none
  | .array aval => (ovalsOf aval).map .array
  | .true => some .true
  | .false => some .false
  | .float _ | .object _ | .other => none

def ovalsOf : List Element → Option (List Oval)
  | [] => some []
  | el :: elements => do
      let value ← ovalOf el
      let values ← ovalsOf elements
      return value :: values

end

mutual

theorem decodes_of_ovalOf : ∀ (el : Element) {value : Oval}, ovalOf el = some value →
    (∀ rest, Decodes el rest) ∧ ∀ value', RebuiltBy el value' → value' = value
  | .intPos lval, value, h => by
    rw [ovalOf] at h
    split at h
    · rename_i hlarge
      cases h
      exact ⟨fun _ => by rw [Decodes]; exact hlarge, fun _ h => by rwa [RebuiltBy] at h⟩
    · cases h
  | .intNeg lval, value, h => by
    rw [ovalOf] at h
    cases h
    exact ⟨fun _ => by rw [Decodes]; trivial, fun _ h => by rwa [RebuiltBy] at h⟩
  | .double dval, value, h => by
    rw [ovalOf] at h
    cases h
    exact ⟨fun _ => by rw [Decodes]; trivial, fun _ h => by rwa [RebuiltBy] at h⟩
  | .string sval, value, h => by
    rw [ovalOf] at h
    split at h
    · rename_i hshort
      cases h
      exact ⟨fun _ => by rw [Decodes]; exact hshort, fun _ h => by rwa [RebuiltBy] at h⟩
    · cases h
  | .array aval, value, h => by
    rw [ovalOf, Option.map_eq_some_iff] at h
    obtain ⟨values, hvalues, rfl⟩ := h
    obtain ⟨hdecode, hunique⟩ := allDecode_of_ovalsOf aval hvalues
    refine ⟨fun rest => by rw [Decodes]; exact hdecode rest, fun value' h => ?_⟩
    rw [RebuiltBy] at h
    obtain ⟨values', rfl, hrebuilt⟩ := h
    rw [hunique values' hrebuilt]
  | .true, value, h => by
    rw [ovalOf] at h
    cases h
    exact ⟨fun _ => by rw [Decodes]; trivial, fun _ h => by rwa [RebuiltBy] at h⟩
  | .false, value, h => by
    rw [ovalOf] at h
    cases h
    exact ⟨fun _ => by rw [Decodes]; trivial, fun _ h => by rwa [RebuiltBy] at h⟩
  | .float _, _, h => by
    rw [ovalOf] at h
    cases h
  | .object _, _, h => by
    rw [ovalOf] at h
    cases h
  | .other, _, h => by
    rw [ovalOf] at h
    cases h

theorem allDecode_of_ovalsOf : ∀ (elements : List Element) {values : List Oval},
    ovalsOf elements = some values →
      (∀ rest, AllDecode elements rest) ∧
        ∀ values', AllRebuiltBy elements values' → values' = values
  | [], values, h => by
    rw [ovalsOf] at h
    cases h
    exact ⟨fun _ => by rw [AllDecode]; trivial, fun _ h => by rwa [AllRebuiltBy] at h⟩
  | el :: elements, values, h => by
    rw [ovalsOf, Option.bind_eq_bind, Option.bind_eq_some_iff] at h
    obtain ⟨value, hvalue, h⟩ := h
    rw [Option.bind_eq_bind, Option.bind_eq_some_iff] at h
    obtain ⟨later, hlater, h⟩ := h
    cases h
    obtain ⟨hdecodes, hunique⟩ := decodes_of_ovalOf el hvalue
    obtain ⟨hdecode, huniques⟩ := allDecode_of_ovalsOf elements hlater
    refine ⟨fun rest => by rw [AllDecode]; exact ⟨hdecodes _, hdecode rest⟩, fun values' h => ?_⟩
    rw [AllRebuiltBy] at h
    obtain ⟨value', later', rfl, hrebuilt, hrebuilts⟩ := h
    rw [hunique value' hrebuilt, huniques later' hrebuilts]

end

/-- **An array** of such elements is read back, whatever is behind it. -/
theorem readArray_of_ovalsOf {aval : OvalArray} {values : List Oval}
    (h : ovalsOf aval.val = some values) (rest : List UInt8) :
    readArray ((encodeArray aval.val ++ rest).length + 1) (encodeArray aval.val ++ rest) =
      .ok (true, .array values, rest) := by
  obtain ⟨hdecode, hunique⟩ := allDecode_of_ovalsOf aval.val h
  obtain ⟨values', hread, hrebuilt⟩ := arrayRoundTrips_of_allDecode (hdecode rest)
  rw [hread, hunique values' hrebuilt]

/-! ### Bytes -/

variable {v v' v₁ : View} {bytes bytes' rest : List UInt8}

/-- One round of `otic_unpack_parseBlock` takes some bytes. -/
structure Round (v : View) (bytes : List UInt8) (v' : View) : Prop where
  nonempty : bytes ≠ []
  rows : v.rows <+: v'.rows
  reads : ∀ {version : UInt8} {fr : Unpack.Frame} {ch : Unpack.Channel} {rest : List UInt8},
    version ≠ 1 → fr.toFetch = [] → ch.Stands fr v (bytes ++ rest) →
      ∃ ch', parseRecord version ch = .ok (true, ch') ∧ ch'.Stands fr v' rest

/-- Some rounds take these bytes. -/
inductive Advances : View → List UInt8 → View → Prop
  | refl (v : View) : Advances v [] v
  | round {v v₁ v' : View} {bytes bytes' : List UInt8} (hround : Round v bytes v₁)
      (hmore : Advances v₁ bytes' v') : Advances v (bytes ++ bytes') v'

theorem Round.advances (h : Round v bytes v') : Advances v bytes v' := by
  have hone := Advances.round h (.refl v')
  rwa [List.append_nil] at hone

theorem Advances.append (h : Advances v bytes v₁) (h' : Advances v₁ bytes' v') :
    Advances v (bytes ++ bytes') v' := by
  induction h with
  | refl => exact h'
  | round hround _ ih =>
    rw [List.append_assoc]
    exact .round hround (ih h')

theorem Advances.of_nil (h : Advances v [] v') : v' = v := by
  generalize hbytes : ([] : List UInt8) = bytes at h
  cases h with
  | refl => rfl
  | round hround _ => exact absurd (List.append_eq_nil_iff.mp hbytes.symm).1 hround.nonempty

/-- Rows that were delivered stay. -/
theorem Advances.rows (h : Advances v bytes v') : v.rows <+: v'.rows := by
  induction h with
  | refl => exact List.prefix_rfl
  | round hround _ ih => exact hround.rows.trans ih

/-- The record of something that is valid. -/
theorem round_record {r : Record} (hvalid : r.Valid v.sensors.length) :
    Round v r.encode (v.apply r) where
  nonempty := List.ne_nil_of_length_pos r.length_encode_pos
  rows := View.rows_isPrefix_applyAll v [r]
  reads := fun hversion hfetch hch =>
    Unpack.Channel.parseRecord_encode hversion hch hfetch hvalid

theorem advances_records {rs : List Record} :
    ∀ {v : View}, ValidFrom v.sensors.length rs → Advances v (encodeAll rs) (v.applyAll rs) := by
  induction rs with
  | nil => exact fun _ => .refl _
  | cons r rs ih =>
    intro v hvalid
    rw [encodeAll_cons, View.applyAll_cons]
    refine .round (round_record hvalid.1) (ih ?_)
    rw [View.apply_sensors_length]
    exact hvalid.2

/-- **The row of an array.** -/
theorem round_array {index : UInt32} {aval : OvalArray} {values : List Oval}
    (hvalues : ovalsOf aval.val = some values) (hindex : index.toNat < v.sensors.length) :
    Round v (OticType.array.toByte ::
        (leb128EncodeUnsigned index.toUInt64 ++ encodeArray aval.val))
      (v.deliver index fun _ => .array values) where
  nonempty := List.cons_ne_nil _ _
  rows := by
    rw [View.deliver, List.getElem?_eq_getElem hindex]
    exact List.prefix_append _ _
  reads := by
    intro version fr ch rest hversion hfetch hch
    have htop := hch.top
    rw [List.cons_append, List.append_assoc] at htop hch
    have hpast : Stands fr v (leb128EncodeUnsigned index.toUInt64 ++ (encodeArray aval.val ++ rest))
        { ch with top := leb128EncodeUnsigned index.toUInt64 ++ (encodeArray aval.val ++ rest) } :=
      ⟨⟨hch.wellFormed.slots, hch.wellFormed.total⟩, hch.view, rfl, hch.frame⟩
    obtain ⟨ch', hread, hch'⟩ : ∃ ch', readArrayRow { ch with
        top := leb128EncodeUnsigned index.toUInt64 ++ (encodeArray aval.val ++ rest) } = .ok ch' ∧
        ch'.Stands fr (v.deliver index fun _ => .array values) rest := by
      unfold readArrayRow
      refine readRow_encode hpast hfetch hindex fun _ => ?_
      rw [readArray_of_ovalsOf hvalues]
      rfl
    refine ⟨ch', ?_, hch'⟩
    simp only [parseRecord, htop, readTagged_toByte, readRecord, OticType.ofByte?_toByte, hread,
      Exec.ok_bind]

/-! ### Blocks -/

variable {version : UInt8} {fr : Unpack.Frame} {ch : Unpack.Channel}

/-- **A block** is read round after round. -/
theorem Advances.parseBlock (h : Advances v bytes v') (hversion : version ≠ 1)
    (hfetch : fr.toFetch = []) (hch : ch.Stands fr v bytes) :
    ∃ ch', parseBlock version ch = .ok ch' ∧ ch'.Stands fr v' [] := by
  have hloop : ∀ fuel, bytes.length < fuel →
      ∃ ch', Loop.run (parseRecord version) fuel ch = .ok (false, ch') ∧ ch'.Stands fr v' [] := by
    induction h generalizing ch with
    | refl v =>
      intro fuel hfuel
      obtain ⟨fuel, rfl⟩ : ∃ n, fuel = n + 1 := ⟨fuel - 1, by omega⟩
      exact ⟨ch, Loop.run_of_stop (by simp only [parseRecord, hch.top]) fuel, hch⟩
    | round hround _ ih =>
      intro fuel hfuel
      obtain ⟨fuel, rfl⟩ : ∃ n, fuel = n + 1 := ⟨fuel - 1, by omega⟩
      have hpositive := List.length_pos_iff.mpr hround.nonempty
      rw [List.length_append] at hfuel
      obtain ⟨ch₁, hread, hch₁⟩ := hround.reads hversion hfetch hch
      obtain ⟨ch', hrun, hch'⟩ := ih hch₁ fuel (by omega)
      exact ⟨ch', by rw [Loop.run_of_continue hread]; exact hrun, hch'⟩
  obtain ⟨ch', hrun, hch'⟩ := hloop (ch.top.length + 1) (by rw [hch.top]; omega)
  exact ⟨ch', by simp only [Unpack.Channel.parseBlock, hrun, Exec.ok_bind], hch'⟩

/-- **A frame** whose block advances the reader is read in one step. -/
theorem Standing.advance {zstd : Zstd} (hlossless : zstd.Lossless) {size : UInt32} {id : UInt8}
    {u : OticUnpack} {frame : List UInt8}
    (hat : Standing size id v (Event.dataHeader id frame.length ++ frame ++ rest) u)
    (hcompress : zstd.compress size.toNat bytes = some frame) (hshort : frame.length < UInt32.size)
    (hbounded : bytes.length ≤ size.toNat) (h : Advances v bytes v') :
    ∃ u', u.parse zstd = .ok (true, u') ∧ Standing size id v' rest u' := by
  apply hat.dataFrame hlossless hcompress hshort hbounded h.rows
  intro fr ch hfetch hch
  exact h.parseBlock (show OTIC_VERSION_MAJOR ≠ 1 by decide) hfetch hch

end Otic
