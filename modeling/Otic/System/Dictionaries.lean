import Otic.Stored
import Otic.Pack.Expected
import Otic.Pack.FlushPoints
import Otic.Pack.Frame
import Otic.Unpack.BlockCorrect

/-!
# The dictionaries of writer and reader

The writer finds the entry of a sensor by its name and writes the entry's index; the
reader stores names in the order in which they are assigned.  Up to 65536 names the
index is the position.  The name after that gets index 0 again, and whatever the hash
of it is, the writer's dictionary is wrong then (`dictionaries_agree_iff`).
-/

namespace Otic

open Pack

/-- The dictionaries of a channel and of a reader of what was put into its bucket, after
the injects `accepted` returned 1. -/
structure DictionariesAgree (ch : Channel) (accepted : List Call) : Prop where
  found : ∀ name, (Channel.entryFind ch.cache name).isSome ↔ name ∈ namesOf accepted
  named : ∀ name entry, Channel.entryFind ch.cache name = some entry →
    Channel.key entry = name.bytes
  distinct : ∀ name name' entry entry', Channel.entryFind ch.cache name = some entry →
    Channel.entryFind ch.cache name' = some entry' → entry.index = entry'.index → name = name'
  indices : ∃ records, ch.written = encodeAll records ∧
    (records.filterMap Record.index?).map UInt32.toNat =
      accepted.map fun c => (namesOf accepted).idxOf c.sensorName
  stored : ∃ reader, Unpack.Channel.parseBlock OTIC_VERSION_MAJOR
      { Unpack.Channel.init ch.channelId with top := ch.written } = .ok reader ∧
    reader.entries.map (fun entry => Bytes.untilZero entry.name) =
      (namesOf accepted).map CStr.bytes

/-! ### What one call writes -/

/-- Records about the clock. -/
def Silent (records : List Record) : Prop :=
  records.filterMap Record.index? = [] ∧ records.filterMap Record.assigned? = [] ∧
    ∀ n, ValidFrom n records

theorem silent_nil : Silent [] := ⟨rfl, rfl, fun _ => trivial⟩

variable {enc : Encoder} {limit : Nat} {c : Call}

theorem silent_clock {tick : UInt64} {records : List Record}
    (h : enc.clock tick = some records) : Silent records := by
  refine ⟨?_, ?_, fun n => (Encoder.clock_plain h n).2⟩ <;>
  · unfold Encoder.clock at h
    split at h
    · cases h
      rfl
    · split at h
      · cases h
        rfl
      · split at h <;> cases h
        rfl

/-- A call that returns 0 leaves the dictionary alone; one that returns 1 writes its row
after the clock. -/
theorem possible_cases {out : Encoder.Outcome} (h : enc.Possible limit c out) :
    (out.ok = false ∧ Silent out.records ∧
        ∃ tick, out.encoder = { enc with timestampCurrent := tick }) ∨
      (out.ok = true ∧ ∃ silent row, Silent silent ∧ out.records = silent ++ row ∧
        Encoder.row { enc with timestampCurrent := c.tick } c = some (out.encoder, row)) := by
  rcases h with rfl | ⟨-, records, hclock, rfl⟩
  · unfold Encoder.inject
    cases hclock : enc.clock c.tick with
    | none => exact Or.inl ⟨rfl, silent_nil, enc.timestampCurrent, rfl⟩
    | some records =>
      have hsilent := silent_clock hclock
      dsimp only
      split
      · exact Or.inl ⟨rfl, hsilent, c.tick, rfl⟩
      · cases hrow : Encoder.row { enc with timestampCurrent := c.tick } c with
        | none => exact Or.inl ⟨rfl, hsilent, c.tick, rfl⟩
        | some out => exact Or.inr ⟨rfl, records, out.2, hsilent, rfl, rfl⟩
  · exact Or.inl ⟨rfl, silent_clock hclock, c.tick, rfl⟩

/-! ### Keeping track -/

/-- The slots of the writer's dictionary, and the records so far. -/
structure Tracked (enc : Encoder) (accepted : List Call) (records : List Record) : Prop where
  registered : ∃ slots, enc.Registered slots ∧
    slots.map Encoder.Slot.name = (namesOf accepted).map CStr.bytes
  names : records.filterMap Record.assigned? = (namesOf accepted).map CStr.bytes
  indices : (records.filterMap Record.index?).map UInt32.toNat =
    accepted.map fun c => (namesOf accepted).idxOf c.sensorName
  valid : ValidFrom 0 records

variable {accepted : List Call} {records : List Record}

theorem tracked_init : Tracked Encoder.init [] [] :=
  ⟨⟨[], Encoder.registered_init, rfl⟩, rfl, rfl, trivial⟩

theorem mem_map_bytes {name : CStr} {names : List CStr} :
    name.bytes ∈ names.map CStr.bytes ↔ name ∈ names := by
  constructor
  · intro h
    obtain ⟨name', hname', hbytes⟩ := List.mem_map.mp h
    rwa [← CStr.ext_bytes hbytes]
  · exact List.mem_map_of_mem

theorem Tracked.names_length (h : Tracked enc accepted records) :
    namesAfter 0 records = (namesOf accepted).length := by
  have hlength := View.applyAll_sensors_length View.init records
  have hnames := View.applyAll_names View.init records
  rw [h.names] at hnames
  have hcount := congrArg List.length hnames
  simp only [List.length_map, List.length_append] at hcount
  exact hlength.symm.trans (hcount.trans (Nat.zero_add _))

theorem Tracked.silent (h : Tracked enc accepted records) {silent : List Record}
    (hsilent : Silent silent) (tick : UInt64) :
    Tracked { enc with timestampCurrent := tick } accepted (records ++ silent) := by
  obtain ⟨slots, hregistered, hslots⟩ := h.registered
  obtain ⟨hindices, hnames, hvalid⟩ := hsilent
  refine ⟨⟨slots, hregistered.tick tick, hslots⟩, ?_, ?_, ?_⟩
  · rw [List.filterMap_append, hnames, List.append_nil]
    exact h.names
  · rw [List.filterMap_append, hindices, List.append_nil]
    exact h.indices
  · exact (validFrom_append 0 _ _).mpr ⟨h.valid, hvalid _⟩

/-- **One more row**: the slots, the names and the index fit. -/
theorem Tracked.row (h : Tracked enc accepted records) {enc' : Encoder} {row : List Record}
    (hrow : enc.row c = some (enc', row)) {slots : List Encoder.Slot}
    (hregistered : enc'.Registered slots)
    (hslots : slots.map Encoder.Slot.name = (namesOf (accepted ++ [c])).map CStr.bytes)
    (hnames : (namesOf accepted).map CStr.bytes ++ row.filterMap Record.assigned? =
      (namesOf (accepted ++ [c])).map CStr.bytes)
    (index : UInt32) (hindex : row.filterMap Record.index? = [index])
    (hposition : index.toNat = (namesOf (accepted ++ [c])).idxOf c.sensorName) :
    Tracked enc' (accepted ++ [c]) (records ++ row) := by
  obtain ⟨slots₀, hregistered₀, hslots₀⟩ := h.registered
  refine ⟨⟨slots, hregistered, hslots⟩, ?_, ?_, ?_⟩
  · rw [List.filterMap_append, h.names, hnames]
  · rw [List.filterMap_append, List.map_append, h.indices, hindex, List.map_append]
    congr 1
    · -- the names of earlier calls keep their positions
      refine List.map_congr_left fun d hd => ?_
      have hmem : d.sensorName ∈ namesOf accepted := by
        rw [namesOf, mem_firsts_iff]
        exact List.ne_nil_of_mem (List.mem_filter.mpr ⟨hd, by simp⟩)
      obtain ⟨more, hmore⟩ := namesOf_isPrefix accepted [c]
      rw [← hmore, List.idxOf_append_of_mem hmem]
    · rw [List.map_singleton, List.map_singleton, hposition]
  · rw [validFrom_append, h.names_length]
    refine ⟨h.valid, ?_⟩
    have hlength := congrArg List.length hslots₀
    rw [List.length_map, List.length_map] at hlength
    rw [← hlength]
    exact (hregistered₀.counted.row hrow).2

theorem Tracked.known (h : Tracked enc accepted records) {entry : Entry}
    (hentry : Channel.entryFind enc.cache c.sensorName = some entry) {enc' : Encoder}
    {row : List Record} (hrow : enc.row c = some (enc', row)) :
    Tracked enc' (accepted ++ [c]) (records ++ row) := by
  obtain ⟨slots, hregistered, hslots⟩ := h.registered
  obtain ⟨slot, hslot, hname, -⟩ := hregistered.position hentry
  have hmem : c.sensorName ∈ namesOf accepted := by
    rw [← mem_map_bytes, ← hslots, ← hname]
    exact List.mem_map_of_mem (List.mem_of_getElem? hslot)
  have hnames : namesOf (accepted ++ [c]) = namesOf accepted := by
    rw [namesOf_concat, if_pos hmem]
  have hposition : entry.index.toNat = (namesOf accepted).idxOf c.sensorName := by
    have hget : (namesOf accepted)[entry.index.toNat]? = some c.sensorName := by
      have hbytes := congrArg (fun names => names[entry.index.toNat]?) hslots
      simp only [List.getElem?_map, hslot, Option.map_some, hname] at hbytes
      obtain ⟨name, hname', hsame⟩ := Option.map_eq_some_iff.mp hbytes.symm
      rw [hname', CStr.ext_bytes hsame]
    obtain ⟨hlt, hget'⟩ := List.getElem?_eq_some_iff.mp hget
    rw [← hget']
    exact (List.Nodup.idxOf_getElem (nodup_firsts accepted) _ hlt).symm
  have hrow' := hrow
  unfold Encoder.row at hrow'
  rw [hentry] at hrow'
  simp only [Encoder.knownRow] at hrow'
  split at hrow'
  · cases hrow'
    refine h.row hrow (hregistered.countRow _) ?_ ?_ entry.index rfl ?_
    · rw [hnames, hslots]
    · rw [hnames]
      simp [Record.assigned?]
    · rw [hnames, hposition]
  · cases hrow'
    have hset := map_set_of_eq (f := Encoder.Slot.name) (b := ⟨slot.name, c.injection.changed⟩)
      hslot rfl
    refine h.row hrow (hregistered.setLastValue hslot hname _ _) ?_ ?_ entry.index ?_ ?_
    · rw [hnames, hset, hslots]
    · rw [hnames]
      simp [Encoder.assigned?_record]
    · simp [Encoder.index?_record]
    · rw [hnames, hposition]

/-- A new sensor has no entry. -/
theorem Tracked.entryFind_isSome (h : Tracked enc accepted records) (name : CStr) :
    (Channel.entryFind enc.cache name).isSome ↔ name ∈ namesOf accepted := by
  obtain ⟨slots, hregistered, hslots⟩ := h.registered
  rw [hregistered.entryFind_isSome, hslots, mem_map_bytes]

theorem Tracked.new (h : Tracked enc accepted records)
    (hentry : Channel.entryFind enc.cache c.sensorName = none)
    (hfew : (namesOf accepted).length < 65536) {enc' : Encoder} {row : List Record}
    (hrow : enc.row c = some (enc', row)) :
    Tracked enc' (accepted ++ [c]) (records ++ row) := by
  obtain ⟨slots, hregistered, hslots⟩ := h.registered
  have hnew : c.sensorName ∉ namesOf accepted := by
    rw [← h.entryFind_isSome, hentry]
    decide
  have hnames : namesOf (accepted ++ [c]) = namesOf accepted ++ [c.sensorName] := by
    rw [namesOf_concat, if_neg hnew]
  have hcount : slots.length = (namesOf accepted).length := by
    have hlength := congrArg List.length hslots
    simpa using hlength
  have habsent : c.sensorName.bytes ∉ slots.map Encoder.Slot.name := by
    rw [hslots, mem_map_bytes]
    exact hnew
  have hrow' := hrow
  unfold Encoder.row at hrow'
  rw [hentry] at hrow'
  simp only [Encoder.newRow] at hrow'
  split at hrow'
  · cases hrow'
    have hindex : enc.totalEntries.toUInt32.toNat = (namesOf accepted).length := by
      rw [UInt16.toNat_toUInt32, hregistered.counted.total, hcount, Nat.mod_eq_of_lt hfew]
    have hinsert := hregistered.insert (by omega) habsent c.unitStr c.value.entered
      (enc.rowCounter + 1)
    rw [← Channel.insert_injection] at hinsert
    refine h.row hrow hinsert ?_ ?_ enc.totalEntries.toUInt32 ?_ ?_
    · rw [hnames, List.map_append, List.map_append, hslots]
      rfl
    · rw [hnames, List.map_append]
      simp only [List.filterMap_cons, Encoder.assigned?_record, List.filterMap_nil]
      rfl
    · simp only [List.filterMap_cons, Encoder.index?_record, List.filterMap_nil]
      rfl
    · rw [hnames, hindex, List.idxOf_append_of_notMem hnew]
      simp
  · cases hrow'

/-- **One call**, with indices left for the names after it. -/
theorem Tracked.possible (h : Tracked enc accepted records) {out : Encoder.Outcome}
    (hout : enc.Possible limit c out)
    (hfew : (namesOf (if out.ok then accepted ++ [c] else accepted)).length ≤ 65536) :
    Tracked out.encoder (if out.ok then accepted ++ [c] else accepted)
      (records ++ out.records) := by
  rcases possible_cases hout with ⟨hok, hsilent, tick, hencoder⟩ |
    ⟨hok, silent, row, hsilent, hrecords, hrow⟩
  · rw [hok, if_neg (by decide), hencoder]
    exact h.silent hsilent tick
  · rw [hok, if_pos rfl] at hfew ⊢
    have hticked := h.silent hsilent c.tick
    rw [hrecords, ← List.append_assoc]
    cases hentry : Channel.entryFind enc.cache c.sensorName with
    | some entry => exact hticked.known hentry hrow
    | none =>
      apply hticked.new hentry _ hrow
      have hnew : c.sensorName ∉ namesOf accepted := by
        rw [← h.entryFind_isSome, hentry]
        decide
      rw [namesOf_concat, if_neg hnew, List.length_append, List.length_singleton] at hfew
      omega

/-- Entries carry indices of 16 bits, however many there have been. -/
def Narrow (enc : Encoder) : Prop := Chained.All (fun entry => entry.index.toNat < 65536) enc.cache

theorem Narrow.row (h : Narrow enc) {enc' : Encoder} {row : List Record}
    (hrow : enc.row c = some (enc', row)) : Narrow enc' := by
  unfold Encoder.row at hrow
  split at hrow
  · simp only [Encoder.newRow] at hrow
    split at hrow
    · cases hrow
      have hindex : enc.totalEntries.toUInt32.toNat < 65536 := by
        rw [UInt16.toNat_toUInt32]
        exact enc.totalEntries.toNat_lt
      rw [Narrow, Channel.insert_injection]
      exact @Channel.all_entryInsertRoutine (fun i => i.toNat < 65536) _ h _ _ _ hindex _
    · cases hrow
  · simp only [Encoder.knownRow] at hrow
    split at hrow
    · cases hrow
      exact h
    · cases hrow
      exact @Channel.all_setLastValue (fun i => i.toNat < 65536) _ h _ _

theorem Narrow.possible (h : Narrow enc) {out : Encoder.Outcome}
    (hout : enc.Possible limit c out) : Narrow out.encoder := by
  rcases possible_cases hout with ⟨-, -, tick, hencoder⟩ | ⟨-, -, row, -, -, hrow⟩
  · rw [hencoder]
    exact h
  · have hticked : Narrow { enc with timestampCurrent := c.tick } := h
    exact hticked.row hrow

/-! ### Runs -/

/-- The states of a channel, each with the injects that have returned 1 by then, through
any calls on it and on the other channels of its pack. -/
inductive Reached (zstd : Zstd) (h₀ : Handle) : List Call → Handle → Prop
  | start : Reached zstd h₀ [] h₀
  | inject {accepted : List Call} {h : Handle} (c : Call) (hr : Reached zstd h₀ accepted h) :
      Reached zstd h₀ (if (c.inject zstd h).1 then accepted ++ [c] else accepted)
        (c.inject zstd h).2
  | flush {accepted : List Call} {h : Handle} (hr : Reached zstd h₀ accepted h) :
      Reached zstd h₀ accepted (h.channelFlush zstd).2
  | others {accepted : List Call} {h : Handle} (parent : Parent)
      (hr : Reached zstd h₀ accepted h) : Reached zstd h₀ accepted { h with parent := parent }

variable {zstd : Zstd} {h₀ h : Handle}

/-- **The writer's side** of every state that is reached. -/
theorem Reached.tracked (hr : Reached zstd h₀ accepted h)
    (hstart : h₀.channel.encoder = Encoder.init)
    (hempty : h₀.channel.written = []) :
    Narrow h.channel.encoder ∧ ((namesOf accepted).length ≤ 65536 →
      ∃ records, Tracked h.channel.encoder accepted records ∧
        h.channel.written = encodeAll records) := by
  induction hr with
  | start =>
    rw [hstart]
    refine ⟨?_, fun _ => ⟨[], tracked_init, hempty⟩⟩
    intro bucket entry hentry
    cases hentry
  | inject c hr ih =>
    obtain ⟨hnarrow, htracked⟩ := ih
    obtain ⟨out, hout, hok, hencoder, hon⟩ := @onwards_inject zstd c _
    rw [hok, hencoder]
    refine ⟨hnarrow.possible hout, fun hfew => ?_⟩
    obtain ⟨records, htracked', hwritten⟩ := htracked (by
      split at hfew
      · exact le_trans (namesOf_isPrefix _ [c]).length_le hfew
      · exact hfew)
    refine ⟨_, htracked'.possible hout hfew, ?_⟩
    rw [hon.written, hwritten, encodeAll_append]
  | flush hr ih =>
    obtain ⟨hon, hencoder⟩ := @onwards_channelFlush zstd _
    rw [hencoder, hon.written, encodeAll_nil, List.append_nil]
    exact ih
  | others parent hr ih => exact ih

theorem Tracked.agree {ch : Channel} (h : Tracked ch.encoder accepted records)
    (hwritten : ch.written = encodeAll records) : DictionariesAgree ch accepted := by
  obtain ⟨slots, hregistered, hslots⟩ := h.registered
  refine ⟨h.entryFind_isSome, ?_, ?_, ⟨records, hwritten, h.indices⟩, ?_⟩
  · intro name entry hentry
    exact Chained.key_of_find _ _ hentry
  · intro name name' entry entry' hentry hentry' hindex
    obtain ⟨slot, hslot, hname, -⟩ := hregistered.position hentry
    obtain ⟨slot', hslot', hname', -⟩ := hregistered.position hentry'
    rw [hindex, hslot', Option.some_inj] at hslot
    subst hslot
    exact CStr.ext_bytes (hname.symm.trans hname')
  · have hinit := (Unpack.Channel.wellFormed_init ch.channelId).stands
    have hversion : (OTIC_VERSION_MAJOR : UInt8) ≠ 1 := by decide
    obtain ⟨reader, hparse, hreader⟩ := Unpack.Channel.parseBlock_encodeAll hversion
      (hinit.withTop (encodeAll records)) rfl h.valid
    refine ⟨reader, by rw [hwritten]; exact hparse, ?_⟩
    have hnames := View.applyAll_names View.init records
    rw [h.names] at hnames
    have hview := congrArg (fun v => v.sensors.map Sensor.name) hreader.view
    simp only [Unpack.Channel.view, List.map_map] at hview
    exact hview.trans hnames

theorem DictionariesAgree.few {ch : Channel} (hagree : DictionariesAgree ch accepted)
    (hnarrow : Narrow ch.encoder) : (namesOf accepted).length ≤ 65536 := by
  -- the names have different indices, and all of these are below 65536
  let indexOf : CStr → Nat := fun name =>
    ((Channel.entryFind ch.cache name).map fun entry => entry.index.toNat).getD 0
  have hentry : ∀ name ∈ namesOf accepted, ∃ entry,
      Channel.entryFind ch.cache name = some entry ∧ indexOf name = entry.index.toNat := by
    intro name hname
    obtain ⟨entry, hentry⟩ := Option.isSome_iff_exists.mp ((hagree.found name).mpr hname)
    exact ⟨entry, hentry, by simp only [indexOf, hentry, Option.map_some, Option.getD_some]⟩
  have hnodup : ((namesOf accepted).map indexOf).Nodup := by
    refine List.Nodup.map_on ?_ (nodup_firsts accepted)
    intro name hname name' hname' hsame
    obtain ⟨entry, hfound, hindex⟩ := hentry name hname
    obtain ⟨entry', hfound', hindex'⟩ := hentry name' hname'
    rw [hindex, hindex'] at hsame
    exact hagree.distinct name name' entry entry' hfound hfound' (UInt32.toNat.inj hsame)
  have hbelow : (namesOf accepted).map indexOf ⊆ List.range 65536 := by
    intro index hmem
    obtain ⟨name, hname, rfl⟩ := List.mem_map.mp hmem
    obtain ⟨entry, hfound, hindex⟩ := hentry name hname
    rw [List.mem_range, hindex]
    exact hnarrow.of_find hfound
  have hlength := (List.subperm_of_subset hnodup hbelow).length_le
  rwa [List.length_map, List.length_range] at hlength

/-- **Dictionaries agree** exactly as long as there are at most 65536 names. -/
theorem dictionaries_agree_iff {parent : Parent} {id channelType : UInt8} {bucketSize : UInt32}
    (hr : Reached zstd ⟨parent, Channel.init id channelType bucketSize⟩ accepted h) :
    DictionariesAgree h.channel accepted ↔ (namesOf accepted).length ≤ 65536 := by
  obtain ⟨hnarrow, htracked⟩ := hr.tracked rfl rfl
  constructor
  · intro hagree
    exact hagree.few hnarrow
  · intro hfew
    obtain ⟨records, htracked', hwritten⟩ := htracked hfew
    exact htracked'.agree hwritten

/-! ### One name too many -/

/-- What is reached by injects and flushes one after the other. -/
theorem reached_moves (moves : List Move) : ∀ {h : Handle} {accepted : List Call},
    Reached zstd h₀ accepted h → Reached zstd h₀
      (accepted ++ acceptedCalls (injectsOf moves) (h.moves zstd moves).1)
      (h.moves zstd moves).2 := by
  induction moves with
  | nil =>
    intro h accepted hr
    simpa [Handle.moves, injectsOf, acceptedCalls] using hr
  | cons m moves ih =>
    intro h accepted hr
    cases m with
    | flush => exact ih hr.flush
    | inject c =>
      have hlater := ih (hr.inject c)
      cases hok : (c.inject zstd h).1 <;>
        simpa [Handle.moves, injectsOf, acceptedCalls, hok] using hlater

theorem row_timestampCurrent {enc' : Encoder} {row : List Record}
    (h : enc.row c = some (enc', row)) : enc'.timestampCurrent = enc.timestampCurrent := by
  unfold Encoder.row at h
  split at h
  · simp only [Encoder.newRow] at h
    split at h <;> cases h
    rfl
  · simp only [Encoder.knownRow] at h
    split at h <;> cases h <;> rfl

/-- Calls that fit are accepted if they all have the same tick. -/
theorem oks_run {tick : Tick} (calls : List Call)
    (hcalls : ∀ c ∈ calls, c.tick = tick ∧ c.value.textSize ≤ limit ∧ c.Fits) :
    ∀ {enc : Encoder}, enc.timestampCurrent = TS_NULL ∨ enc.timestampCurrent = tick →
      (enc.run limit calls).oks = calls.map fun _ => true := by
  induction calls with
  | nil => exact fun _ => rfl
  | cons c calls ih =>
    intro enc hclock
    obtain ⟨htick, htext, hfits⟩ := hcalls c List.mem_cons_self
    obtain ⟨records, hrecords⟩ : ∃ records, enc.clock c.tick = some records := by
      rw [htick]
      unfold Encoder.clock
      split
      · exact ⟨_, rfl⟩
      · rcases hclock with hnull | hsame
        · exact ⟨_, if_pos hnull⟩
        · contradiction
    obtain ⟨⟨enc', row⟩, hrow⟩ : ∃ out,
        Encoder.row { enc with timestampCurrent := c.tick } c = some out := by
      unfold Encoder.row
      split
      · exact ⟨_, dif_pos hfits⟩
      · exact ⟨_, rfl⟩
    have hinject : enc.inject limit c = ⟨true, enc', records ++ row⟩ := by
      have hlong := Nat.not_lt.mpr htext
      simp only [Encoder.inject, hrecords, if_neg hlong, hrow]
    have hcurrent : enc'.timestampCurrent = TS_NULL ∨ enc'.timestampCurrent = tick :=
      Or.inr ((row_timestampCurrent hrow).trans (congrArg Subtype.val htick))
    have hlater := ih (fun d hd => hcalls d (List.mem_cons_of_mem _ hd)) hcurrent
    simp only [Encoder.run, hinject, hlater, List.map_cons]

theorem namesOf_of_nodup {calls : List Call} (h : (calls.map Call.sensorName).Nodup) :
    namesOf calls = calls.map Call.sensorName := by
  induction calls using List.reverseRecOn with
  | nil => rfl
  | append_singleton calls c ih =>
    rw [List.map_append, List.nodup_append] at h
    obtain ⟨hbefore, -, hdisjoint⟩ := h
    have hsame := ih hbefore
    have hnew : c.sensorName ∉ namesOf calls := by
      rw [hsame]
      exact fun hmem => hdisjoint _ hmem _ List.mem_cons_self rfl
    rw [namesOf_concat, if_neg hnew, hsame, List.map_append]
    rfl

/-- A name for every number, in three digits of seven bits. -/
def numbered (n : Nat) : CStr where
  bytes := [n % 128, n / 128 % 128, n / 16384 % 128].map fun digit => UInt8.ofNat (digit + 1)
  nulFree := by
    intro hmem
    obtain ⟨digit, hdigit, hzero⟩ := List.mem_map.mp hmem
    have hsmall : digit < 128 := by
      simp only [List.mem_cons, List.not_mem_nil, or_false] at hdigit
      omega
    have hnat := congrArg UInt8.toNat hzero
    rw [UInt8.toNat_ofNat', UInt8.toNat_zero] at hnat
    omega
  sized := by simp

theorem numbered_inj {m n : Nat} (hm : m < 65537) (hn : n < 65537) (h : numbered m = numbered n) :
    m = n := by
  have hdigit : ∀ {a b : Nat}, a < 128 → b < 128 → UInt8.ofNat (a + 1) = UInt8.ofNat (b + 1) →
      a = b := by
    intro a b ha hb hab
    have hnat := congrArg UInt8.toNat hab
    rw [UInt8.toNat_ofNat', UInt8.toNat_ofNat'] at hnat
    omega
  have hbytes := congrArg CStr.bytes h
  simp only [numbered, List.map_cons, List.map_nil, List.cons.injEq, and_true] at hbytes
  obtain ⟨hlow, hmiddle, hhigh⟩ := hbytes
  have hlow' := hdigit (Nat.mod_lt _ (by decide)) (Nat.mod_lt _ (by decide)) hlow
  have hmiddle' := hdigit (Nat.mod_lt _ (by decide)) (Nat.mod_lt _ (by decide)) hmiddle
  have hhigh' := hdigit (Nat.mod_lt _ (by decide)) (Nat.mod_lt _ (by decide)) hhigh
  omega

/-- One call for each of the first `n` names. -/
def manyCalls (n : Nat) : List Call :=
  (List.range n).map fun i => ⟨⟨7, seven_lt_TS_NULL⟩, numbered i, none, .null, []⟩

theorem namesOf_manyCalls {n : Nat} (hn : n ≤ 65537) : (namesOf (manyCalls n)).length = n := by
  have hnames : (manyCalls n).map Call.sensorName = (List.range n).map numbered := by
    simp [manyCalls, Function.comp_def]
  rw [namesOf_of_nodup, hnames, List.length_map, List.length_range]
  rw [hnames]
  refine List.Nodup.map_on ?_ List.nodup_range
  intro i hi j hj hij
  exact numbered_inj (lt_of_lt_of_le (List.mem_range.mp hi) hn)
    (lt_of_lt_of_le (List.mem_range.mp hj) hn) hij

/-- A fresh channel with a flusher that takes everything. -/
def fresh : Handle := ⟨⟨[], [], [], .none, .opened⟩, Channel.init 1 0 512⟩

/-- The first `n` names are all accepted. -/
theorem reached_manyCalls (n : Nat) : Reached Zstd.stored fresh (manyCalls n)
    (fresh.moves Zstd.stored ((manyCalls n).map Move.inject)).2 := by
  have hreached := reached_moves ((manyCalls n).map Move.inject)
    (@Reached.start Zstd.stored fresh)
  have hinjects : injectsOf ((manyCalls n).map Move.inject) = manyCalls n := by
    simp [injectsOf, List.filterMap_map]
  have hoks := @oks_textless Zstd.stored ((manyCalls n).map Move.inject) fresh fun c hc => by
    rw [hinjects] at hc
    obtain ⟨i, -, rfl⟩ := List.mem_map.mp hc
    rfl
  have hall : (fresh.channel.encoder.run fresh.channel.threshold (manyCalls n)).oks =
      (manyCalls n).map fun _ => true := by
    refine @oks_run _ ⟨7, by decide⟩ _ (fun c hc => ?_) _ (Or.inl rfl)
    obtain ⟨i, -, rfl⟩ := List.mem_map.mp hc
    exact ⟨rfl, Nat.zero_le _, by simp [numbered, Call.unitStr, CStr.empty, CStr.size, UINT8_MAX]⟩
  rw [hinjects, hoks, hinjects, hall, acceptedCalls_true, List.nil_append] at hreached
  exact hreached

/-- Two names are not many. -/
theorem dictionaries_agree_iff_two :
    DictionariesAgree (fresh.moves Zstd.stored ((manyCalls 2).map Move.inject)).2.channel
        (manyCalls 2) ↔ (namesOf (manyCalls 2)).length ≤ 65536 :=
  dictionaries_agree_iff (reached_manyCalls 2)

/-- With one name more than there are indices the dictionaries disagree. -/
theorem dictionaries_disagree :
    Reached Zstd.stored fresh (manyCalls 65537)
        (fresh.moves Zstd.stored ((manyCalls 65537).map Move.inject)).2 ∧
      ¬ DictionariesAgree (fresh.moves Zstd.stored ((manyCalls 65537).map Move.inject)).2.channel
        (manyCalls 65537) := by
  have hreached := reached_manyCalls 65537
  refine ⟨hreached, fun hagree => ?_⟩
  have hfew := hagree.few (hreached.tracked rfl rfl).1
  rw [namesOf_manyCalls (Nat.le_refl _)] at hfew
  omega

end Otic
