import Otic.Pack.Lifetime
import Otic.Pack.Sessions
import Otic.Unpack.Stream

/-!
# From sessions to deliveries

A file is what the flusher took during a session, and reading it is calling
`otic_unpack_parse` until it returns 0.  What is delivered for an id is what the
records of its incarnations amount to (`Leaves.rows`); it is what was injected if
only the last incarnation of the id has accepted calls, and these are faithful
(`delivers_of_clean`).
-/

namespace Otic

open Pack Unpack

/-- A reader that selected some channels, when `otic_unpack_parse` has returned 0. -/
def readFile (zstd : Zstd) (seeker : Bool) (select : List UInt8) (input : List UInt8) :
    Exec OticUnpack := do
  let u ← OticUnpack.start seeker select input
  u.parseAll zstd

variable {zstd : Zstd} {s : Session} {w : Written} {events : List Event} {select : List UInt8}

/-- What is left by a session is read to its end. -/
theorem Pack.Leaves.read (h : Leaves zstd s w events) (hlossless : zstd.Lossless)
    (hselect : select.Nodup) (seeker : Bool) :
    ∃ u₀ u, OticUnpack.start seeker select w.accepted = .ok u₀ ∧
      Loop.Goes (OticUnpack.parse zstd) u₀ u ∧ readFile zstd seeker select w.accepted = .ok u ∧
      Reads select events [] u := by
  obtain ⟨u₀, u, hstart, hgoes, hall, hreads⟩ :=
    parse_file hlossless h.stream seeker hselect s.features
  rw [← h.accepted] at hstart
  refine ⟨u₀, u, hstart, hgoes, ?_, hreads⟩
  rw [readFile, hstart, Exec.ok_bind, hall]

/-- The records of an id, up to the end of the session. -/
def lifetimes (s : Session) (w : Written) (id : UInt8) : List Record :=
  writtenBy ((incarnations id (s.history w)).map Incarnation.finish)

theorem Pack.Leaves.rows (h : Leaves zstd s w events) {u : OticUnpack}
    (hreads : Reads select events [] u) {id : UInt8} (hid : id ∈ select) :
    rowsOf id u.calls = (View.init.applyAll (lifetimes s w id)).rows := by
  rw [hreads.calls, rowsOf_reading hid, h.content, lifetimes]

theorem Pack.Leaves.error (h : Leaves zstd s w events) {u : OticUnpack}
    (hreads : Reads select events [] u) {ch : Unpack.Channel} (hch : ch ∈ u.channels) :
    ch.base.error = (View.init.applyAll (lifetimes s w ch.channelId)).error := by
  obtain ⟨⟨fr, top, hstands, -⟩, -⟩ := hreads.holds ch hch
  rw [lifetimes, ← h.content, ← hstands.view]
  rfl

/-! ### What should be delivered -/

/-- The rows of all incarnations of an id, newest incarnation first: each gets the rows
of its accepted calls, with the units of its own first calls. -/
def Delivers : List Row → List Incarnation → Prop
  | rows, [] => rows = []
  | rows, i :: past => ∃ before own, rows = before ++ own ∧ Delivers before past ∧
      RowsMatch own i.accepted

/-- The calls of an incarnation that are accepted, told from the calls. -/
def Pack.Incarnation.admitted (i : Incarnation) : List Call :=
  Pack.admitted i.limit (i.calls.map Prod.fst)

/-- Only the newest incarnation has calls that are accepted, and these are faithful. -/
def Clean : List Incarnation → Prop
  | [] => True
  | i :: past => Faithful i.admitted ∧ ∀ j ∈ past, j.admitted = []

theorem accepted_eq {limit : Nat} {calls : List (Call × Bool)} : ∀ {enc : Encoder},
    calls.map Prod.snd = (enc.run limit (calls.map Prod.fst)).oks →
      (calls.filter Prod.snd).map Prod.fst = enc.accepted limit (calls.map Prod.fst) := by
  induction calls with
  | nil => exact fun _ => rfl
  | cons call calls ih =>
    intro enc h
    obtain ⟨c, ok⟩ := call
    simp only [List.map_cons, Encoder.run, List.cons.injEq] at h
    obtain ⟨rfl, hlater⟩ := h
    simp only [List.map_cons, Encoder.accepted]
    rw [← ih hlater]
    cases (enc.inject limit c).ok <;> rfl

theorem Pack.Incarnation.accepted_eq {i : Incarnation}
    (h : i.calls.map Prod.snd = i.outcomes.oks) :
    i.accepted = Encoder.init.accepted i.limit (i.calls.map Prod.fst) :=
  Otic.accepted_eq h

/-- Faithful calls are accepted as they should be. -/
theorem Pack.Incarnation.accepted_of_faithful {i : Incarnation}
    (h : i.calls.map Prod.snd = i.outcomes.oks) (hfaithful : Faithful i.admitted) :
    i.accepted = i.admitted := by
  rw [Incarnation.accepted_eq h]
  exact ((agree_init blank_init).accepted _ Encoder.clocked_init).2 hfaithful

theorem Pack.Incarnation.records_finish (i : Incarnation) :
    i.finish.records = i.outcomes.closed := by
  rw [Incarnation.records, Encoder.Outcomes.closed]
  rfl

/-- Incarnations without accepted calls leave no trace. -/
theorem blank_of_idle {is : List Incarnation}
    (hresults : ∀ i ∈ is, i.calls.map Prod.snd = i.outcomes.oks)
    (hidle : ∀ i ∈ is, i.accepted = []) :
    Blank (View.init.applyAll (writtenBy (is.map Incarnation.finish))) ∧ Delivers [] is := by
  induction is with
  | nil => exact ⟨blank_init, rfl⟩
  | cons i is ih =>
    obtain ⟨hblank, hnothing⟩ := ih (fun j hj => hresults j (List.mem_cons_of_mem _ hj))
      fun j hj => hidle j (List.mem_cons_of_mem _ hj)
    have hnone := hidle i List.mem_cons_self
    constructor
    · rw [List.map_cons, writtenBy_cons, View.applyAll_append, i.records_finish]
      apply hblank.closed
      rw [← Incarnation.accepted_eq (hresults i List.mem_cons_self), hnone]
    · refine ⟨[], [], rfl, hnothing, ?_⟩
      rw [hnone]
      exact .nil

/-- **Clean ids** are delivered as they were injected, and no row count is wrong. -/
theorem delivers_of_clean {is : List Incarnation}
    (hresults : ∀ i ∈ is, i.calls.map Prod.snd = i.outcomes.oks) (hclean : Clean is) :
    Delivers (View.init.applyAll (writtenBy (is.map Incarnation.finish))).rows is ∧
      (View.init.applyAll (writtenBy (is.map Incarnation.finish))).error = .none := by
  cases is with
  | nil => exact ⟨rfl, rfl⟩
  | cons i past =>
    obtain ⟨hfaithful, hidle⟩ := hclean
    have hpast : ∀ j ∈ past, j.accepted = [] := by
      intro j hj
      have hnone := hidle j hj
      rw [Incarnation.accepted_of_faithful (hresults j (List.mem_cons_of_mem _ hj)), hnone]
      rw [hnone]
      exact faithfulFrom_nil []
    obtain ⟨hblank, hnothing⟩ :=
      blank_of_idle (fun j hj => hresults j (List.mem_cons_of_mem _ hj)) hpast
    have haccepted := Incarnation.accepted_eq (hresults i List.mem_cons_self)
    rw [← Incarnation.accepted_of_faithful (hresults i List.mem_cons_self) hfaithful,
      haccepted] at hfaithful
    obtain ⟨hrows, hquiet⟩ := rowsMatch_of_faithful hblank hfaithful
    rw [List.map_cons, writtenBy_cons, View.applyAll_append, i.records_finish]
    refine ⟨⟨[], _, rfl, hnothing, ?_⟩, hquiet⟩
    rw [haccepted]
    exact hrows

end Otic
