import Otic.Stored
import Otic.System.Delivery
import Otic.System.Dictionaries
import Otic.Unpack.Fetch

/-!
# What a fetch list selects

The list is kept as hashes, so a row gets to the callback if its sensor's name has the
hash of a listed one, whether or not it is listed.  The names that rows can have are the
first ones that were assigned, as many as the largest dictionary of an incarnation has
indices (`mem_rowNames_iff`); `selectsListed_iff` says that the list selects exactly the
listed sensors if no other name that rows have has the hash of a listed one.
-/

namespace Otic

open Pack Unpack

/-! ### Names that rows have -/

/-- The first names agree, and rows use all of their indices and no others. -/
structure NamesUsed (accepted : List Call) (records : List Record) : Prop where
  names : (records.filterMap Record.assigned?).take 65536 =
    ((namesOf accepted).map CStr.bytes).take 65536
  indices : ∀ k, (∃ index ∈ records.filterMap Record.index?, index.toNat = k) ↔
    k < min 65536 (namesOf accepted).length

variable {enc : Encoder} {limit : Nat} {c : Call} {accepted : List Call} {records : List Record}

theorem Tracked.namesUsed (h : Tracked enc accepted records)
    (hfew : (namesOf accepted).length ≤ 65536) : NamesUsed accepted records := by
  refine ⟨by rw [h.names], fun k => ?_⟩
  have hindices : (∃ index ∈ records.filterMap Record.index?, index.toNat = k) ↔
      k ∈ accepted.map fun c => (namesOf accepted).idxOf c.sensorName := by
    rw [← h.indices, List.mem_map]
  rw [hindices, min_eq_right hfew, List.mem_map]
  constructor
  · rintro ⟨c, hc, rfl⟩
    exact List.idxOf_lt_length_of_mem (mem_namesOf.mpr ⟨c, hc, rfl⟩)
  · intro hk
    obtain ⟨c, hc, hname⟩ := mem_namesOf.mp (List.getElem_mem hk)
    refine ⟨c, hc, ?_⟩
    rw [hname]
    exact List.Nodup.idxOf_getElem (nodup_firsts accepted) k hk

/-- The index of a row has 16 bits. -/
theorem Narrow.index_lt (h : Narrow enc) {enc' : Encoder} {row : List Record}
    (hrow : enc.row c = some (enc', row)) :
    ∀ index ∈ row.filterMap Record.index?, index.toNat < 65536 := by
  unfold Encoder.row at hrow
  split at hrow
  · simp only [Encoder.newRow] at hrow
    split at hrow
    · cases hrow
      intro index hindex
      rw [List.filterMap_cons, List.filterMap_cons, Encoder.index?_record] at hindex
      rw [List.mem_singleton.mp (show index ∈ [enc.totalEntries.toUInt32] from hindex),
        UInt16.toNat_toUInt32]
      exact enc.totalEntries.toNat_lt
    · cases hrow
  · rename_i entry hentry
    have hnarrow : entry.index.toNat < 65536 := h.of_find hentry
    simp only [Encoder.knownRow] at hrow
    split at hrow
    · cases hrow
      intro index hindex
      simp only [List.filterMap_cons, Record.index?, List.filterMap_nil,
        List.mem_singleton] at hindex
      rw [hindex]
      exact hnarrow
    · cases hrow
      intro index hindex
      simp only [List.filterMap_cons, Encoder.index?_record, List.filterMap_nil,
        List.mem_singleton] at hindex
      rw [hindex]
      exact hnarrow

/-- With all indices in use, nothing is added to the first names by what comes later. -/
theorem NamesUsed.append (h : NamesUsed accepted records)
    (hmany : 65536 ≤ (namesOf accepted).length) (more : List Call) {later : List Record}
    (hlater : ∀ index ∈ later.filterMap Record.index?, index.toNat < 65536) :
    NamesUsed (accepted ++ more) (records ++ later) := by
  obtain ⟨names, hnames⟩ := namesOf_isPrefix accepted more
  have hlength : 65536 ≤ (namesOf (accepted ++ more)).length := by
    rw [← hnames, List.length_append]
    omega
  have hassigned : 65536 ≤ (records.filterMap Record.assigned?).length := by
    have htake := congrArg List.length h.names
    rw [List.length_take, List.length_take, List.length_map] at htake
    omega
  constructor
  · rw [List.filterMap_append, List.take_append_of_le_length hassigned, h.names, ← hnames,
      List.map_append, List.take_append_of_le_length (by rwa [List.length_map])]
  · intro k
    have hold := h.indices k
    rw [min_eq_left hmany] at hold
    rw [min_eq_left hlength, List.filterMap_append]
    constructor
    · rintro ⟨index, hindex, rfl⟩
      rcases List.mem_append.mp hindex with hindex | hindex
      · exact hold.mp ⟨index, hindex, rfl⟩
      · exact hlater index hindex
    · intro hk
      obtain ⟨index, hindex, hsame⟩ := hold.mpr hk
      exact ⟨index, List.mem_append_left _ hindex, hsame⟩

/-! ### One incarnation -/

/-- The encoder's side: indices are narrow, and up to 65536 names they are tracked. -/
structure Covering (enc : Encoder) (accepted : List Call) (records : List Record) : Prop where
  narrow : Narrow enc
  tracked : (namesOf accepted).length ≤ 65536 → Tracked enc accepted records
  namesUsed : NamesUsed accepted records

theorem covering_init : Covering Encoder.init [] [] := by
  refine ⟨?_, fun _ => tracked_init, tracked_init.namesUsed (Nat.zero_le _)⟩
  intro bucket entry hentry
  cases hentry

/-- **One call.** -/
theorem Covering.possible (h : Covering enc accepted records) {out : Encoder.Outcome}
    (hout : enc.Possible limit c out) :
    Covering out.encoder (if out.ok then accepted ++ [c] else accepted)
      (records ++ out.records) := by
  have hprefix : namesOf accepted <+: namesOf (if out.ok then accepted ++ [c] else accepted) := by
    split
    · exact namesOf_isPrefix accepted [c]
    · exact List.prefix_rfl
  have htracked : (namesOf (if out.ok then accepted ++ [c] else accepted)).length ≤ 65536 →
      Tracked out.encoder (if out.ok then accepted ++ [c] else accepted)
        (records ++ out.records) :=
    fun hfew => (h.tracked (le_trans hprefix.length_le hfew)).possible hout hfew
  refine ⟨h.narrow.possible hout, htracked, ?_⟩
  by_cases hfew : (namesOf (if out.ok then accepted ++ [c] else accepted)).length ≤ 65536
  · exact (htracked hfew).namesUsed hfew
  · rcases possible_cases hout with ⟨hok, ⟨hsilent, -, -⟩, -⟩ | ⟨hok, silent, row, ⟨hsilent, -, -⟩,
      hrecords, hrow⟩
    · rw [hok, if_neg (by decide)] at hfew ⊢
      have happend := h.namesUsed.append (by omega) []
        (fun index hindex => by rw [hsilent] at hindex; cases hindex)
      rwa [List.append_nil] at happend
    · rw [hok, if_pos rfl] at hfew ⊢
      have hmany : 65536 ≤ (namesOf accepted).length := by
        rw [namesOf_concat] at hfew
        split at hfew
        · omega
        · rw [List.length_append, List.length_singleton] at hfew
          omega
      apply h.namesUsed.append hmany [c]
      have hticked : Narrow { enc with timestampCurrent := c.tick } := h.narrow
      rw [hrecords, List.filterMap_append, hsilent, List.nil_append]
      exact hticked.index_lt hrow

/-- **A run**, by induction over the calls. -/
theorem Covering.run (calls : List Call) : ∀ {enc : Encoder} {accepted : List Call}
    {records : List Record}, Covering enc accepted records →
      Covering (enc.run limit calls).encoder (accepted ++ enc.accepted limit calls)
        (records ++ (enc.run limit calls).records) := by
  induction calls with
  | nil =>
    intro enc accepted records h
    simpa [Encoder.accepted] using h
  | cons c calls ih =>
    intro enc accepted records h
    have hout : enc.Possible limit c (enc.inject limit c) := Or.inl rfl
    have hlater := ih (h.possible hout)
    simp only [Encoder.run, Encoder.accepted]
    rw [← List.append_assoc]
    cases hok : (enc.inject limit c).ok with
    | true => simpa [hok] using hlater
    | false => simpa [hok] using hlater

theorem namesUsed_incarnation {i : Incarnation} (h : i.calls.map Prod.snd = i.outcomes.oks) :
    NamesUsed i.accepted i.records := by
  have hrun := (@Covering.run i.limit (i.calls.map Prod.fst) _ _ _ covering_init).namesUsed
  rw [List.nil_append, List.nil_append, ← Incarnation.accepted_eq h] at hrun
  have hmark : i.records.filterMap Record.assigned? =
      i.outcomes.records.filterMap Record.assigned? ∧
        i.records.filterMap Record.index? = i.outcomes.records.filterMap Record.index? := by
    unfold Incarnation.records
    split <;> simp [Record.assigned?, Record.index?]
  constructor
  · rw [hmark.1]
    exact hrun.names
  · rw [hmark.2]
    exact hrun.indices

/-! ### All incarnations of an id -/

/-- The names that are assigned, oldest incarnation first. -/
def assignedNames (is : List Incarnation) : List CStr :=
  is.reverse.flatMap fun i => namesOf i.accepted

/-- How many indices rows use: every incarnation starts at 0 again, and so does one that
has used 65536. -/
def usedIndices (is : List Incarnation) : Nat :=
  is.foldr (fun i used => max used (min 65536 (namesOf i.accepted).length)) 0

theorem take_append_congr {α : Type*} {as bs cs ds : List α} {n : Nat}
    (h : as.take n = bs.take n) (h' : cs.take n = ds.take n) :
    (as ++ cs).take n = (bs ++ ds).take n := by
  have hlength := congrArg List.length h
  rw [List.length_take, List.length_take] at hlength
  by_cases hn : n ≤ as.length
  · rw [List.take_append_of_le_length hn, List.take_append_of_le_length (by omega), h]
  · rw [List.take_of_length_le (by omega), List.take_of_length_le (by omega)] at h
    have hrest := congrArg (List.take (n - as.length)) h'
    rw [List.take_take, List.take_take, min_eq_left (Nat.sub_le _ _)] at hrest
    rw [List.take_append, List.take_append, ← h, hrest]

/-- **The names of the rows**: the first of the names assigned. -/
theorem namesUsed_incarnations {is : List Incarnation}
    (h : ∀ i ∈ is, i.calls.map Prod.snd = i.outcomes.oks) :
    ((writtenBy is).filterMap Record.assigned?).take 65536 =
        ((assignedNames is).map CStr.bytes).take 65536 ∧
      (∀ k, (∃ index ∈ (writtenBy is).filterMap Record.index?, index.toNat = k) ↔
        k < usedIndices is) := by
  induction is with
  | nil => exact ⟨rfl, fun k => by simp [usedIndices]⟩
  | cons i past ih =>
    obtain ⟨hnames, hindices⟩ := ih fun j hj => h j (List.mem_cons_of_mem _ hj)
    have hfirst := namesUsed_incarnation (h i List.mem_cons_self)
    have hassigned : assignedNames (i :: past) = assignedNames past ++ namesOf i.accepted := by
      simp [assignedNames]
    constructor
    · rw [writtenBy_cons, List.filterMap_append, hassigned, List.map_append]
      exact take_append_congr hnames hfirst.names
    · intro k
      rw [writtenBy_cons, List.filterMap_append]
      have hused : k < usedIndices (i :: past) ↔
          k < usedIndices past ∨ k < min 65536 (namesOf i.accepted).length := lt_max_iff
      rw [hused, ← hindices k, ← hfirst.indices k]
      constructor
      · rintro ⟨index, hindex, hk⟩
        rcases List.mem_append.mp hindex with hindex | hindex
        · exact Or.inl ⟨index, hindex, hk⟩
        · exact Or.inr ⟨index, hindex, hk⟩
      · rintro (⟨index, hindex, hk⟩ | ⟨index, hindex, hk⟩)
        · exact ⟨index, List.mem_append_left _ hindex, hk⟩
        · exact ⟨index, List.mem_append_right _ hindex, hk⟩

theorem usedIndices_le (is : List Incarnation) :
    usedIndices is ≤ 65536 ∧ usedIndices is ≤ (assignedNames is).length := by
  induction is with
  | nil => exact ⟨Nat.zero_le _, Nat.zero_le _⟩
  | cons i past ih =>
    obtain ⟨hnarrow, hmany⟩ := ih
    have hassigned : assignedNames (i :: past) = assignedNames past ++ namesOf i.accepted := by
      simp [assignedNames]
    refine ⟨max_le hnarrow (min_le_left _ _), max_le ?_ ?_⟩
    · rw [hassigned, List.length_append]
      exact hmany.trans (Nat.le_add_right _ _)
    · rw [hassigned, List.length_append]
      exact (min_le_right _ _).trans (Nat.le_add_left _ _)

theorem assignedNames_finish (is : List Incarnation) :
    assignedNames (is.map Incarnation.finish) = assignedNames is := by
  simp only [assignedNames, ← List.map_reverse, List.flatMap_map]
  rfl

theorem usedIndices_finish (is : List Incarnation) :
    usedIndices (is.map Incarnation.finish) = usedIndices is := by
  simp only [usedIndices, List.foldr_map]
  rfl

/-- The names that rows of an id can have. -/
def rowNames (is : List Incarnation) : List CStr := (assignedNames is).take (usedIndices is)

/-- **The names of the rows** that are delivered: the first that were assigned. -/
theorem mem_rowNames_iff {is : List Incarnation}
    (h : ∀ i ∈ is, i.calls.map Prod.snd = i.outcomes.oks) (name : List UInt8) :
    name ∈ (View.init.applyAll (writtenBy (is.map Incarnation.finish))).rows.map Row.name ↔
      name ∈ (rowNames is).map CStr.bytes := by
  have hfinish : ∀ i ∈ is.map Incarnation.finish, i.calls.map Prod.snd = i.outcomes.oks := by
    intro i hi
    obtain ⟨j, hj, rfl⟩ := List.mem_map.mp hi
    exact h j hj
  obtain ⟨hnames, hindices⟩ := namesUsed_incarnations hfinish
  rw [assignedNames_finish] at hnames
  rw [usedIndices_finish] at hindices
  obtain ⟨hnarrow, hmany⟩ := usedIndices_le is
  generalize hrecords : writtenBy (is.map Incarnation.finish) = records at hnames hindices
  have hvalid : ValidFrom View.init.sensors.length records := by
    rw [← hrecords]
    exact validFrom_writtenBy _
  have hsensors : (View.init.applyAll records).sensors.map Sensor.name =
      records.filterMap Record.assigned? := View.applyAll_names View.init records
  -- both lists of names agree as far as indices are used
  have htake : (records.filterMap Record.assigned?).take (usedIndices is) =
      (rowNames is).map CStr.bytes := by
    have hboth := congrArg (List.take (usedIndices is)) hnames
    rw [List.take_take, List.take_take, min_eq_left hnarrow, ← List.map_take] at hboth
    exact hboth
  have hlength : (rowNames is).length = usedIndices is := by
    rw [rowNames, List.length_take, min_eq_left hmany]
  have hget : ∀ k < usedIndices is, (records.filterMap Record.assigned?).getD k [] =
      ((rowNames is).map CStr.bytes).getD k [] := by
    intro k hk
    rw [← htake, List.getD_eq_getElem?_getD, List.getD_eq_getElem?_getD,
      List.getElem?_take_of_lt hk]
  have hrows : (View.init.applyAll records).rows.map Row.name =
      (records.filterMap Record.index?).map fun index =>
        (records.filterMap Record.assigned?).getD index.toNat [] := by
    rw [View.applyAll_rowNames records hvalid, hsensors]
    exact List.nil_append _
  rw [hrows, List.mem_map]
  constructor
  · rintro ⟨index, hindex, rfl⟩
    have hused : index.toNat < usedIndices is := (hindices index.toNat).mp ⟨index, hindex, rfl⟩
    have hinside : index.toNat < ((rowNames is).map CStr.bytes).length := by
      rw [List.length_map, hlength]
      exact hused
    rw [hget _ hused, List.getD_eq_getElem?_getD, List.getElem?_eq_getElem hinside,
      Option.getD_some]
    exact List.getElem_mem hinside
  · intro hname
    obtain ⟨k, hinside, rfl⟩ := List.getElem_of_mem hname
    have hused : k < usedIndices is := by
      rw [List.length_map, hlength] at hinside
      exact hinside
    obtain ⟨index, hindex, rfl⟩ := (hindices k).mpr hused
    refine ⟨index, hindex, ?_⟩
    rw [hget _ hused, List.getD_eq_getElem?_getD, List.getElem?_eq_getElem hinside,
      Option.getD_some]

/-! ### Reading with a list -/

/-- A reader that selected some channels and gave the one of an id a fetch list, when
`otic_unpack_parse` has returned 0. -/
def readListed (zstd : Zstd) (seeker : Bool) (select : List UInt8) (id : UInt8)
    (values : List CStr) (input : List UInt8) : Exec OticUnpack := do
  let u ← OticUnpack.start seeker select input
  (u.setToFetch id values).parseAll zstd

/-- With the list those calls are made that are made without it, less the ones of the
channel whose sensor is not listed. -/
def SelectsListed (zstd : Zstd) (seeker : Bool) (select : List UInt8) (id : UInt8)
    (values : List CStr) (input : List UInt8) : Prop :=
  ∃ all listed, readFile zstd seeker select input = .ok all ∧
    readListed zstd seeker select id values input = .ok listed ∧
      listed.calls = all.calls.filter fun call =>
        call.1 ≠ id ∨ call.2.name ∈ values.map CStr.bytes

variable {zstd : Zstd} {seeker : Bool} {select : List UInt8} {id : UInt8} {values : List CStr}
  {input : List UInt8}

/-- **Any input** that is read to its end is read with the list too. -/
theorem readListed_of_readFile (hvalues : values ≠ []) {all : OticUnpack}
    (hread : readFile zstd seeker select input = .ok all) :
    readListed zstd seeker select id values input =
      .ok (all.select id (values.map fun value => hashBytes value.bytes)) := by
  obtain ⟨u, hstart, hparse⟩ := Exec.bind_eq_ok.mp hread
  have hfresh := OticUnpack.fresh_start hstart
  have hhashes : (values.map fun value => hashBytes value.bytes) ≠ [] := by
    simpa using hvalues
  rw [readListed, hstart, Exec.ok_bind, hfresh.setToFetch hvalues]
  exact OticUnpack.parseAll_select hhashes (hfresh.unlisted id) hparse

theorem fetches_iff {name : List UInt8} :
    fetches (values.map fun value => hashBytes value.bytes) name = true ↔
      ∃ value ∈ values, hashBytes value.bytes = hashBytes name := by
  simp [fetches]

/-- What is selected on an input that is read to its end. -/
theorem selectsListed_iff_rows (hvalues : values ≠ []) {all : OticUnpack}
    (hread : readFile zstd seeker select input = .ok all) :
    SelectsListed zstd seeker select id values input ↔
      ∀ name ∈ (rowsOf id all.calls).map Row.name,
        (∃ value ∈ values, hashBytes value.bytes = hashBytes name) →
          name ∈ values.map CStr.bytes := by
  have hlisted := @readListed_of_readFile zstd seeker select id values input hvalues all hread
  have hsame : SelectsListed zstd seeker select id values input ↔
      (all.calls.filter (OticUnpack.heard id (values.map fun value => hashBytes value.bytes))) =
        all.calls.filter fun call => call.1 ≠ id ∨ call.2.name ∈ values.map CStr.bytes := by
    constructor
    · rintro ⟨all', listed, hread', hlisted', hcalls⟩
      rw [hread, Except.ok.injEq] at hread'
      rw [hlisted, Except.ok.injEq] at hlisted'
      subst hread' hlisted'
      exact hcalls
    · exact fun hcalls => ⟨all, _, hread, hlisted, hcalls⟩
  rw [hsame]
  constructor
  · rintro hfilter name hname ⟨value, hvalue, hhash⟩
    obtain ⟨row, hrow, rfl⟩ := List.mem_map.mp hname
    obtain ⟨call, hcall, rfl⟩ := List.mem_map.mp hrow
    obtain ⟨hcall, hid⟩ := List.mem_filter.mp hcall
    -- the call gets through the list, so it is one of those that should
    have hheard : call ∈ all.calls.filter
        (OticUnpack.heard id (values.map fun value => hashBytes value.bytes)) := by
      rw [List.mem_filter, OticUnpack.heard, fetches_iff.mpr ⟨value, hvalue, hhash⟩, Bool.or_true]
      exact ⟨hcall, rfl⟩
    rw [hfilter, List.mem_filter, decide_eq_true_eq] at hheard
    exact hheard.2.resolve_left (fun hne => hne (beq_iff_eq.mp hid))
  · intro hnames
    refine List.filter_congr fun call hcall => ?_
    rw [Bool.eq_iff_iff, decide_eq_true_eq, OticUnpack.heard, Bool.or_eq_true, decide_eq_true_eq,
      fetches_iff]
    refine or_congr_right' fun hid => ⟨fun hhash => ?_, fun hname => ?_⟩
    · have hrow : call.2 ∈ rowsOf id all.calls :=
        List.mem_map_of_mem (List.mem_filter.mpr ⟨hcall, beq_iff_eq.mpr (not_not.mp hid)⟩)
      exact hnames _ (List.mem_map_of_mem hrow) hhash
    · obtain ⟨value, hvalue, hbytes⟩ := List.mem_map.mp hname
      exact ⟨value, hvalue, congrArg hashBytes hbytes⟩

/-- The names that rows of a session can have, told from its calls. -/
theorem selectsListed_iff_rowNames (hlossless : zstd.Lossless) {s : Session} {w : Written}
    {events : List Event} (hleaves : Leaves zstd s w events) (hselect : select.Nodup)
    (hid : id ∈ select) (hvalues : values ≠ []) (seeker : Bool) :
    SelectsListed zstd seeker select id values w.accepted ↔
      ∀ name ∈ rowNames (incarnations id (s.history w)),
        (∃ value ∈ values, hashBytes value.bytes = hashBytes name.bytes) → name ∈ values := by
  obtain ⟨-, all, -, -, hread, hreads⟩ := hleaves.read hlossless hselect seeker
  rw [selectsListed_iff_rows hvalues hread, hleaves.rows hreads hid, lifetimes]
  have hnames := mem_rowNames_iff (hleaves.results id)
  constructor
  · intro hall name hname hhash
    rw [← mem_map_bytes]
    exact hall name.bytes ((hnames _).mpr (List.mem_map_of_mem hname)) hhash
  · intro hall name hname hhash
    obtain ⟨sensorName, hmem, rfl⟩ := List.mem_map.mp ((hnames name).mp hname)
    exact List.mem_map_of_mem (hall sensorName hmem hhash)

/-- **What a fetch list selects**: of every stream that is read to its end exactly the listed
sensors, unless another one that rows of the stream have has the hash of a listed one.  Of
what a session leaves, these are told from its calls. -/
theorem selectsListed_iff (zstd : Zstd) (seeker : Bool) (select : List UInt8) (id : UInt8)
    (hvalues : values ≠ []) :
    (∀ input all, readFile zstd seeker select input = .ok all →
      (SelectsListed zstd seeker select id values input ↔
        ∀ name ∈ (rowsOf id all.calls).map Row.name,
          (∃ value ∈ values, hashBytes value.bytes = hashBytes name) →
            name ∈ values.map CStr.bytes)) ∧
    ∀ s w, Session.write zstd s = some w → zstd.Lossless → Willing s.opening →
      Willing s.closing → CarefulRun zstd (OticPack.init s.features s.opening) s.steps →
      s.Closable zstd → w.overran = false → select.Nodup → id ∈ select →
      (SelectsListed zstd seeker select id values w.accepted ↔
        ∀ name ∈ rowNames (incarnations id (s.history w)),
          (∃ value ∈ values, hashBytes value.bytes = hashBytes name.bytes) → name ∈ values) := by
  refine ⟨fun input all hread => selectsListed_iff_rows hvalues hread, ?_⟩
  intro s w hw hlossless hopening hclosing hcareful hclosable hinside hselect hid
  obtain ⟨events, hleaves⟩ :=
    Session.leaves hlossless hopening hclosing hcareful hclosable hw hinside
  exact selectsListed_iff_rowNames hlossless hleaves hselect hid hvalues seeker

/-! ### Two names with one hash -/

/-- A channel that gets the number 5 for each of some sensors. -/
def oneEach (names : List CStr) : Session where
  features := 0
  opening := []
  steps := ⟨.define OTIC_CHANNEL_TYPE_SENSOR 1 0, []⟩ ::
    names.map fun name => ⟨.inject 1 ⟨⟨7, seven_lt_TS_NULL⟩, name, none, .intPos 5, []⟩, []⟩
  closing := []

/-- The sensor name `"a"`. -/
def nameA : CStr := ⟨[0x61], notMem_a, sized_a⟩

/-- The sensor names `"Aa"` and `"BB"`, which have the same hash. -/
def nameAa : CStr := ⟨[0x41, 0x61], by decide, by decide⟩

def nameBB : CStr := ⟨[0x42, 0x42], by decide, by decide⟩

/-- A list with one of two sensors. -/
theorem selectsListed_iff_oneEach :
    ∃ w, (oneEach [nameAa, nameA]).write Zstd.stored = some w ∧
      SelectsListed Zstd.stored false [1] 1 [nameAa] w.accepted := by
  have hpacked : PackedRun Zstd.stored (OticPack.init 0 []) (oneEach [nameAa, nameA]).steps := by
    decide +kernel
  have hcareful := careful_of_packed hpacked (by decide)
  obtain ⟨-, hsessions⟩ :=
    selectsListed_iff Zstd.stored false [1] 1 (show [nameAa] ≠ [] by decide)
  refine ⟨_, rfl, ?_⟩
  apply (hsessions (oneEach [nameAa, nameA]) _ rfl Zstd.stored_lossless (by decide) (by decide)
    hcareful (by decide +kernel) rfl (by decide) (by decide)).mpr
  decide

/-- A row of a sensor that is not listed gets through. -/
theorem not_selectsListed_nameBB :
    ∃ w, (oneEach [nameBB]).write Zstd.stored = some w ∧
      ¬ SelectsListed Zstd.stored false [1] 1 [nameAa] w.accepted := by
  refine ⟨_, rfl, ?_⟩
  rw [selectsListed_iff_rows (by decide) rfl]
  decide

end Otic
