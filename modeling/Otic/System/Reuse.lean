import Otic.Stored
import Otic.System.Delivery

/-!
# Ids that are used again

A closed id may be defined again.  The writer starts over then, and the reader does
not: it goes on counting rows and indices where it was.  A session comes out right if
the incarnations of an id before the newest one have no rows (`delivered_of_clean`).
-/

namespace Otic

open Pack Unpack

/-- A reader gets the rows of all incarnations of the ids it selected, in order and
under their own names and units, and finds no wrong row count. -/
def Delivered (zstd : Zstd) (seeker : Bool) (select : List UInt8) (s : Session) : Prop :=
  ∃ w u, s.write zstd = some w ∧ readFile zstd seeker select w.accepted = .ok u ∧
    (∀ id ∈ select, Delivers (rowsOf id u.calls) (incarnations id (s.history w))) ∧
    ∀ ch ∈ u.channels, ch.base.error ≠ .rowCountMismatch

variable {zstd : Zstd} {s : Session} {w : Written} {select : List UInt8}

/-- What a session leaves comes out right for ids that are clean. -/
theorem Pack.Leaves.delivered {events : List Event} (h : Leaves zstd s w events)
    (hlossless : zstd.Lossless) (hselect : select.Nodup) (seeker : Bool)
    (hclean : ∀ id ∈ select, Clean (incarnations id (s.history w))) :
    ∃ u, readFile zstd seeker select w.accepted = .ok u ∧
      (∀ id ∈ select, Delivers (rowsOf id u.calls) (incarnations id (s.history w))) ∧
      ∀ ch ∈ u.channels, ch.base.error = .none := by
  obtain ⟨-, u, -, -, hread, hreads⟩ := h.read hlossless hselect seeker
  refine ⟨u, hread, fun id hid => ?_, fun ch hch => ?_⟩
  · rw [h.rows hreads hid]
    exact (delivers_of_clean (h.results id) (hclean id hid)).1
  · have hid : ch.channelId ∈ select := (hreads.ids _).mp (List.mem_map_of_mem hch)
    rw [h.error hreads hch]
    exact (delivers_of_clean (h.results _) (hclean _ hid)).2

/-- **Ids that are used again** are delivered if they are clean. -/
theorem delivered_of_clean (hlossless : zstd.Lossless) (hundisturbed : s.Undisturbed)
    (hpacked : s.Packed zstd) (hw : s.write zstd = some w) (hinside : w.overran = false)
    (hselect : select.Nodup) (seeker : Bool)
    (hclean : ∀ id ∈ select, Clean (incarnations id (s.history w))) :
    Delivered zstd seeker select s := by
  obtain ⟨events, hleaves⟩ := hundisturbed.leaves hlossless hpacked hw hinside
  obtain ⟨u, hread, hrows, herror⟩ := hleaves.delivered hlossless hselect seeker hclean
  refine ⟨w, u, hw, hread, hrows, fun ch hch => ?_⟩
  rw [herror ch hch]
  decide

/-- The sensor `"a"` gets a value at tick 7. -/
def reading7 (value : Value) : Call :=
  ⟨⟨7, seven_lt_TS_NULL⟩, ⟨[0x61], notMem_a, sized_a⟩, none, value, []⟩

/-- The id 1 is used twice, with some rows each time. -/
def usedTwice (first second : List Call) : Session where
  features := 0
  opening := []
  steps :=
    ⟨.define OTIC_CHANNEL_TYPE_SENSOR 1 0, []⟩ :: first.map (fun c => ⟨.inject 1 c, []⟩) ++
      ⟨.close 1, []⟩ :: ⟨.define OTIC_CHANNEL_TYPE_SENSOR 1 0, []⟩ ::
        second.map fun c => ⟨.inject 1 c, []⟩
  closing := []

/-- An incarnation without rows does no harm. -/
theorem delivered_of_clean_usedTwice :
    Delivered Zstd.stored false [1] (usedTwice [] [reading7 .null]) := by
  obtain ⟨w, hw, hoks, hinside⟩ :
      ∃ w, (usedTwice [] [reading7 .null]).write Zstd.stored = some w ∧
        w.oks = [true, true, true, true] ∧ w.overran = false := ⟨_, rfl, rfl, rfl⟩
  apply delivered_of_clean Zstd.stored_lossless ⟨by decide, by decide, by decide⟩
    ⟨by decide +kernel, by decide +kernel⟩ hw hinside (by decide)
  intro id hid
  rw [List.mem_singleton.mp hid, Session.history, hoks]
  refine ⟨?_, ?_⟩
  · exact (faithfulFrom_cons _ _ _).mpr ⟨by change 0 < 65536; decide, faithfulFrom_nil _⟩
  · intro j hj
    rw [List.mem_singleton.mp hj]
    rfl

/-- The count of the second end mark is not the one the reader has by then. -/
theorem not_delivered_usedTwice :
    ¬ Delivered Zstd.stored false [1] (usedTwice [reading7 .null] [reading7 .null]) := by
  rintro ⟨w, u, hw, hread, -, hquiet⟩
  have hmismatch : ∀ w u, (usedTwice [reading7 .null] [reading7 .null]).write Zstd.stored = some w →
      readFile Zstd.stored false [1] w.accepted = .ok u →
        u.channels.any fun ch => ch.base.error = .rowCountMismatch := by
    intro w u hw hread
    cases hw
    cases hread
    rfl
  obtain ⟨ch, hch, herror⟩ := List.any_eq_true.mp (hmismatch w u hw hread)
  exact hquiet ch hch (by simpa using herror)

end Otic
