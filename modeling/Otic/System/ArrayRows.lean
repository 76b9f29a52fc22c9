import Otic.Pack.Arrays
import Otic.Pack.Plain
import Otic.System.Carried

/-!
# Rows of scalars and of arrays

A channel that takes scalars and arrays, in any order and flushed anywhere, and a reader of what
it has written.  The writer never stores the elements of an array; `arrays_delivered` says that
the rows come back all the same, as long as no array is compared with a cached one and no
address is followed that is not there.
-/

namespace Otic

open Pack Unpack

/-! ### What should be read -/

/-- What a reader holds for a call. -/
def Pack.AnyCall.oval (c : AnyCall) : Option Oval :=
  match c.value with
  | .scalar value => some value.oval
  | .buffer _ => none
  | .array aval => (ovalsOf aval.val).map .array

/-- What is delivered for a call, doubles up to `==`. -/
def Pack.AnyCall.Delivered (c : AnyCall) (oval : Oval) : Prop :=
  match c.value with
  | .scalar value => value.Delivered oval
  | .buffer _ | .array _ => c.oval = some oval

/-- The values that come back: scalars that their copy does not cut off, and arrays that are not
empty and all of whose elements are read back. -/
def Pack.AnyCall.Kept (c : AnyCall) : Prop :=
  match c.value with
  | .scalar value => value.Small ∧ Bytes.untilZero c.heap = []
  | .buffer _ => False
  | .array aval => aval.val ≠ [] ∧ (ovalsOf aval.val).isSome

/-- The unit of a sensor is the one its first call gave. -/
def unitFor (calls : List AnyCall) (sensorName : CStr) : CStr :=
  match callsFor calls sensorName with
  | [] => CStr.empty
  | first :: _ => first.unitStr

/-- A row is what a call asked for. -/
structure AnyMatches (row : Row) (c : AnyCall) (unit : CStr) : Prop where
  ts : row.ts = some c.tick.val
  name : row.name = c.sensorName.bytes
  unit : row.unit = unit.bytes
  value : c.Delivered row.value

/-- One row for every call, in order. -/
def AllMatch (rows : List Row) (calls : List AnyCall) : Prop :=
  List.Forall₂ (fun row c => AnyMatches row c (unitFor calls c.sensorName)) rows calls

variable {zstd : Zstd} {c d : AnyCall} {calls later : List AnyCall} {first : AnyCall}

theorem Pack.AnyCall.Kept.oval (h : c.Kept) : ∃ oval, c.oval = some oval ∧ c.Delivered oval := by
  unfold AnyCall.Kept at h
  unfold AnyCall.Delivered AnyCall.oval
  cases hvalue : c.value with
  | scalar value => exact ⟨value.oval, rfl, value.delivered_oval⟩
  | buffer _ =>
    rw [hvalue] at h
    exact h.elim
  | array aval =>
    rw [hvalue] at h
    obtain ⟨values, hvalues⟩ := Option.isSome_iff_exists.mp h.2
    exact ⟨.array values, by simp only [hvalues, Option.map_some], by
      simp only [hvalues, Option.map_some]⟩

theorem unitFor_append {sensorName : CStr} (h : callsFor calls sensorName = first :: later)
    (more : List AnyCall) : unitFor (calls ++ more) sensorName = first.unitStr := by
  have happend : callsFor (calls ++ more) sensorName =
      first :: (later ++ callsFor more sensorName) := by
    rw [callsFor, List.filter_append, ← List.cons_append]
    exact congrArg (· ++ _) h
  rw [unitFor, happend]

/-- One more row for one more call; the units of the earlier calls stay. -/
theorem AllMatch.concat {rows : List Row} (h : AllMatch rows calls) {row : Row}
    (hrow : AnyMatches row c (unitFor (calls ++ [c]) c.sensorName)) :
    AllMatch (rows ++ [row]) (calls ++ [c]) := by
  refine List.rel_append (forall₂_imp_mem h fun row d hd hmatches => ?_) (.cons hrow .nil)
  obtain ⟨first, later, hcalls⟩ : ∃ first later, callsFor calls d.sensorName = first :: later :=
    List.exists_cons_of_ne_nil (List.ne_nil_of_mem (List.mem_filter.mpr ⟨hd, by simp⟩))
  rw [unitFor_append hcalls]
  rwa [unitFor, hcalls] at hmatches

/-! ### What both sides hold -/

/-- The reader holds the value of a call, and the writer what that call has left. -/
def Twins (first : AnyCall) (later : List AnyCall) (value : Oval) : Prop :=
  ∃ d : AnyCall, d.Kept ∧ d.oval = some value ∧
    (held first later = d.entered ∨ held first later = d.injection.changed)

/-- A scalar that is found in the entry is the one that the reader holds. -/
theorem delivered_of_same_scalar (hd : d.Kept) {value : Oval} (hvalue : d.oval = some value)
    {lastValue : Oval} (hlast : lastValue = d.entered ∨ lastValue = d.injection.changed)
    {scalar : Value} (hscalar : c.value = .scalar scalar) (hclean : Bytes.untilZero c.heap = [])
    (hsame : c.injection.same lastValue = true) : c.Delivered value := by
  have hinjection : c.injection = (c.scalar scalar).injection := by
    simp only [AnyCall.injection, hscalar]
  rw [hinjection] at hsame
  unfold AnyCall.Delivered
  rw [hscalar]
  unfold AnyCall.Kept at hd
  unfold AnyCall.oval at hvalue
  cases hdvalue : d.value with
  | scalar first =>
    rw [hdvalue] at hd hvalue
    cases hvalue
    rcases hlast with hlast | hlast
    · have hentered : d.entered = first.entered := by simp only [AnyCall.entered, hdvalue]
      rw [hlast, hentered] at hsame
      exact @delivered_of_sees (c.scalar scalar) first hd.1 hclean hsame
    · have hchanged : d.injection.changed = first.oval := by
        simp only [AnyCall.injection, hdvalue]
        exact changed_injection (d.scalar first)
      rw [hlast, hchanged] at hsame
      exact @delivered_of_same_oval (c.scalar scalar) first hsame
  | buffer _ =>
    rw [hdvalue] at hd
    exact hd.elim
  | array aval =>
    -- no scalar is found in the entry of an array
    have harray : ∃ elements, lastValue = .array elements := by
      rcases hlast with hlast | hlast
      · exact ⟨[], by rw [hlast]; simp only [AnyCall.entered, hdvalue]⟩
      · rw [AnyCall.injection, hdvalue] at hlast
        exact ⟨_, hlast⟩
    obtain ⟨elements, rfl⟩ := harray
    unfold Call.injection at hsame
    cases scalar with
    | bool value => cases value <;> cases hsame
    | intNeg | intPos | double | string | null => cases hsame

/-- An array is never found unmodified, if it is not empty. -/
theorem not_same_array {aval : OvalArray} (hvalue : c.value = .array aval) (hne : aval.val ≠ [])
    {cell : Pack.Cell} {lastValue : Oval} (hshows : cell.Shows lastValue)
    (hempty : cell.type = .array → cell.size = aval.size → aval.size = 0) :
    c.injection.same lastValue ≠ true := by
  have hinjection : c.injection = Channel.arrayInjection aval c.equal c.stale := by
    simp only [AnyCall.injection, hvalue]
  rw [hinjection]
  intro hsame
  cases lastValue with
  | array elements =>
    change (elements.length == aval.size && _) = true at hsame
    rw [Bool.and_eq_true, beq_iff_eq] at hsame
    exact hne (List.length_eq_zero_iff.mp (hempty hshows.1 (hshows.2.trans hsame.1)))
  | null | intNeg | intPos | float | double | string | true | false | rawbuffer | eof =>
    cases hsame

/-- **What is found unmodified** is what the reader holds. -/
theorem Twins.delivered {value : Oval} (h : Twins first later value) (hc : c.Kept)
    (hcalls : callsFor calls c.sensorName = first :: later)
    (hheeded : Throughout ArrayHeeded calls) (hheed : ArrayHeeded calls c)
    (hsame : c.injection.same (held first later) = true) : c.Delivered value := by
  obtain ⟨d, hd, hvalue, hlast⟩ := h
  cases hcvalue : c.value with
  | scalar scalar =>
    unfold AnyCall.Kept at hc
    rw [hcvalue] at hc
    exact delivered_of_same_scalar hd hvalue hlast hcvalue hc.2 hsame
  | buffer _ =>
    unfold AnyCall.Kept at hc
    rw [hcvalue] at hc
    exact hc.elim
  | array aval =>
    unfold AnyCall.Kept at hc
    rw [hcvalue] at hc
    obtain ⟨cell, hrun, hshows, -⟩ := cell_held hheeded hcalls
    obtain ⟨-, hempty⟩ := hheed aval first later cell hcvalue hcalls hrun
    exact absurd hsame (not_same_array hcvalue hc.1 hshows fun htype hsize =>
      (hempty htype hsize).1)

/-- The sensors of a reader, next to those of the calls. -/
structure Sensors (calls : List AnyCall) (sensors : List Sensor) : Prop where
  count : sensors.length = (sensorNames calls).length
  each : ∀ (i : Nat) sensorName, (sensorNames calls)[i]? = some sensorName → ∃ first later value,
    callsFor calls sensorName = first :: later ∧ Twins first later value ∧
    sensors[i]? = some ⟨sensorName.bytes, first.unitStr.bytes, value⟩

/-- An encoder, and the view of what it has written for these calls. -/
structure Mirrors (enc : Encoder) (v : View) (calls : List AnyCall) : Prop where
  clock : enc.timestampCurrent ≠ TS_NULL →
    v.clock = enc.timestampCurrent ∧ v.ts = some enc.timestampCurrent
  rowCounter : v.rowCounter = enc.rowCounter
  quiet : v.error = .none
  rows : AllMatch v.rows calls
  slots : ∃ slots, enc.Holds calls slots
  sensors : Sensors calls v.sensors

namespace Mirrors

variable {enc enc' : Encoder} {v : View}

theorem init : Mirrors Encoder.init View.init [] where
  clock := fun hset => absurd rfl hset
  rowCounter := rfl
  quiet := rfl
  rows := .nil
  slots := ⟨[], Encoder.holds_init⟩
  sensors := ⟨rfl, fun i sensorName h => by simp [sensorNames] at h⟩

/-- **A timestamp.** -/
theorem stamp (h : Mirrors enc v calls) {tick : Tick} (hclock : enc.clock tick ≠ none) :
    ∃ v', Advances v (enc.stamp tick) v' ∧ (enc.timestampCurrent = tick → v' = v) ∧
      Mirrors { enc with timestampCurrent := tick } v' calls := by
  obtain ⟨slots, hslots⟩ := h.slots
  have hstep : ∀ v' : View, v'.clock = tick → v'.ts = some tick.val →
      v'.rowCounter = v.rowCounter → v'.error = v.error → v'.rows = v.rows →
      v'.sensors = v.sensors → Mirrors { enc with timestampCurrent := tick } v' calls := by
    intro v' hclock' hts' hcount' herror' hrows' hsensors'
    refine ⟨fun _ => ⟨hclock', hts'⟩, hcount'.trans h.rowCounter, herror'.trans h.quiet, ?_,
      ⟨slots, hslots.tick tick⟩, ?_⟩
    · rw [hrows']
      exact h.rows
    · rw [hsensors']
      exact h.sensors
  have hnull : tick.val ≠ TS_NULL := Tick.ne_null tick
  have hrecord : ∀ r : Record, r.index? = none → Advances v (encodeAll [r]) (v.apply r) := by
    intro r hindex
    refine advances_records ⟨fun i hi => ?_, trivial⟩
    rw [hindex] at hi
    cases hi
  obtain ⟨records, hrecords⟩ := Option.ne_none_iff_exists'.mp hclock
  have hstamp : enc.stamp tick = encodeAll records := by
    unfold Encoder.stamp
    rw [hrecords]
  rw [hstamp]
  unfold Encoder.clock at hrecords
  split at hrecords
  · rename_i hsame
    cases hrecords
    obtain ⟨hcurrent, hts⟩ := h.clock (by rw [hsame]; exact hnull)
    exact ⟨v, .refl v, fun _ => rfl,
      hstep v (hcurrent.trans hsame) (by rw [hts, hsame]) rfl rfl rfl rfl⟩
  · rename_i hdiffers
    split at hrecords
    · cases hrecords
      exact ⟨_, hrecord _ rfl, fun hsame => absurd hsame hdiffers, hstep _ rfl rfl rfl rfl rfl rfl⟩
    · rename_i hset
      split at hrecords
      · cases hrecords
      · cases hrecords
        obtain ⟨hcurrent, -⟩ := h.clock hset
        have hshift : v.clock + (tick.val - enc.timestampCurrent) = tick.val := by
          rw [hcurrent, UInt64.add_comm, UInt64.sub_add_cancel]
        exact ⟨_, hrecord _ rfl, fun hsame => absurd hsame hdiffers,
          hstep _ hshift (congrArg some hshift) rfl rfl rfl rfl⟩

/-! ### Rows -/

/-- The bytes of a value. -/
theorem advances_payload {oval : Oval} (hoval : c.oval = some oval) {index : UInt32}
    (hindex : index.toNat < v.sensors.length) :
    Advances v (c.payload index) (v.deliver index fun _ => oval) := by
  unfold AnyCall.oval at hoval
  unfold AnyCall.payload
  cases hvalue : c.value with
  | scalar value =>
    rw [hvalue] at hoval
    cases hoval
    rw [← apply_record]
    refine (round_record fun i hi => ?_).advances
    rw [Encoder.index?_record] at hi
    cases hi
    exact hindex
  | buffer _ =>
    rw [hvalue] at hoval
    cases hoval
  | array aval =>
    rw [hvalue, Option.map_eq_some_iff] at hoval
    obtain ⟨values, hvalues, rfl⟩ := hoval
    exact (round_array hvalues hindex).advances

/-- One more row of a known sensor, which both sides hold as stated. -/
theorem deliver (h : Mirrors enc v calls) (htick : enc.timestampCurrent = c.tick) {index : UInt32}
    {value : Oval} (hname : (sensorNames calls)[index.toNat]? = some c.sensorName)
    (hcalls : callsFor calls c.sensorName = first :: later)
    (hsensor : v.sensors[index.toNat]? = some ⟨c.sensorName.bytes, first.unitStr.bytes, value⟩)
    {f : Oval → Oval} (hslots : ∃ slots, enc'.Holds (calls ++ [c]) slots)
    (hclock' : enc'.timestampCurrent = enc.timestampCurrent)
    (hcount' : enc'.rowCounter = enc.rowCounter + 1) (htwins : Twins first (later ++ [c]) (f value))
    (hdelivered : c.Delivered (f value)) : Mirrors enc' (v.deliver index f) (calls ++ [c]) := by
  obtain ⟨slots, hold⟩ := h.slots
  have hnodup : (sensorNames calls).Nodup := by
    have hslotNames := hold.registered.nodup
    rw [hold.names] at hslotNames
    exact hslotNames.of_map _
  have hnames : sensorNames (calls ++ [c]) = sensorNames calls := by
    rw [sensorNames_concat, if_pos (List.mem_of_getElem? hname)]
  have hcalls' : callsFor (calls ++ [c]) c.sensorName = first :: (later ++ [c]) := by
    rw [callsFor_concat, if_pos rfl, hcalls, List.cons_append]
  obtain ⟨hcurrent, hts⟩ := h.clock (by rw [htick]; exact Tick.ne_null c.tick)
  rw [deliver_of_getElem hsensor]
  refine ⟨fun _ => ?_, ?_, h.quiet, ?_, hslots, ?_, ?_⟩
  · rw [hclock']
    exact ⟨hcurrent, hts⟩
  · rw [hcount', ← h.rowCounter]
  · refine h.rows.concat ⟨by rw [← htick]; exact hts, rfl, ?_, hdelivered⟩
    rw [unitFor, hcalls']
  · rw [List.length_set, h.sensors.count, hnames]
  · intro i sensorName hi
    rw [hnames] at hi
    by_cases hsame : index.toNat = i
    · subst hsame
      rw [hname, Option.some_inj] at hi
      subst hi
      exact ⟨first, later ++ [c], f value, hcalls', htwins,
        List.getElem?_set_self (List.getElem?_eq_some_iff.mp hsensor).1⟩
    · -- another position has another name, whose calls are the same as before
      have hne : c.sensorName ≠ sensorName := by
        rintro rfl
        have hlt := (List.getElem?_eq_some_iff.mp hname).1
        exact hsame ((List.getElem?_inj hlt hnodup).mp (hname.trans hi.symm))
      obtain ⟨first', later', value', hfirst, htwins', hsensor'⟩ := h.sensors.each i sensorName hi
      rw [callsFor_concat, if_neg hne, List.getElem?_set_ne hsame]
      exact ⟨first', later', value', hfirst, htwins', hsensor'⟩

/-- **A row of a known sensor.** -/
theorem known (h : Mirrors enc v calls) (htick : enc.timestampCurrent = c.tick) (hc : c.Kept)
    (hheeded : Throughout ArrayHeeded calls) (hheed : ArrayHeeded calls c) {entry : Pack.Entry}
    (hentry : Channel.entryFind enc.cache c.sensorName = some entry) :
    ∃ v', Advances v (c.knownRow enc entry).2 v' ∧
      Mirrors (c.knownRow enc entry).1 v' (calls ++ [c]) := by
  obtain ⟨slots, hslots⟩ := h.slots
  obtain ⟨first, later, hcalls, hslot, hlast⟩ := hslots.entry hentry
  have hname : (sensorNames calls)[entry.index.toNat]? = some c.sensorName := by
    have hbytes := congrArg (·[entry.index.toNat]?) hslots.names
    simp only [List.getElem?_map, hslot, Option.map_some] at hbytes
    obtain ⟨sensorName, hsensorName, heq⟩ := Option.map_eq_some_iff.mp hbytes.symm
    rw [hsensorName, CStr.ext_bytes heq]
  obtain ⟨first', later', value, hcalls', htwins, hsensor⟩ := h.sensors.each _ _ hname
  rw [hcalls] at hcalls'
  cases hcalls'
  have hindex := (List.getElem?_eq_some_iff.mp hsensor).1
  have hslots' := hslots.knownRow hentry
  unfold AnyCall.knownRow at hslots' ⊢
  rw [hlast] at hslots' ⊢
  by_cases hsame : c.injection.same (held first later) = true
  · rw [if_pos hsame] at hslots' ⊢
    have hvalid : (Record.unmodified entry.index).Valid v.sensors.length := by
      intro i hi
      cases hi
      exact hindex
    refine ⟨v.deliver entry.index id, (round_record hvalid).advances,
      h.deliver htick hname hcalls hsensor hslots' rfl rfl ?_
        (htwins.delivered hc hcalls hheeded hheed hsame)⟩
    · obtain ⟨d, hd, hvalue, hleft⟩ := htwins
      exact ⟨d, hd, hvalue, by rw [held_concat, if_pos hsame]; exact hleft⟩
  · rw [if_neg hsame] at hslots' ⊢
    obtain ⟨oval, hoval, hdelivered⟩ := hc.oval
    refine ⟨v.deliver entry.index fun _ => oval, advances_payload hoval hindex,
      h.deliver htick hname hcalls hsensor hslots' rfl rfl ?_ hdelivered⟩
    exact ⟨c, hc, hoval, by rw [held_concat, if_neg hsame]; exact Or.inr rfl⟩

/-- **The first row of a sensor.** -/
theorem added (h : Mirrors enc v calls) (htick : enc.timestampCurrent = c.tick) (hc : c.Kept)
    (hentry : Channel.entryFind enc.cache c.sensorName = none)
    (hfew : (sensorNames (calls ++ [c])).length ≤ 65536) {bytes : List UInt8}
    (hrow : c.newRow enc = some (enc', bytes)) :
    ∃ v', Advances v bytes v' ∧ Mirrors enc' v' (calls ++ [c]) := by
  obtain ⟨slots, hslots⟩ := h.slots
  have hnew := (hslots.new_iff _).mp hentry
  have hnames : sensorNames (calls ++ [c]) = sensorNames calls ++ [c.sensorName] := by
    rw [sensorNames_concat, if_neg hnew]
  have hslots' := hslots.newRow hnew hfew hrow
  have hcalls : callsFor (calls ++ [c]) c.sensorName = [c] := by
    rw [callsFor_concat, if_pos rfl, callsFor_eq_nil.mpr hnew, List.nil_append]
  rw [hnames, List.length_append, List.length_singleton, ← hslots.length_slots] at hfew
  have hindex : enc.totalEntries.toUInt32.toNat = v.sensors.length := by
    have htotal := hslots.registered.counted.total
    rw [UInt16.toNat_toUInt32, htotal, h.sensors.count, ← hslots.length_slots]
    exact Nat.mod_eq_of_lt (by omega)
  obtain ⟨hcurrent, hts⟩ := h.clock (by rw [htick]; exact Tick.ne_null c.tick)
  obtain ⟨oval, hoval, hdelivered⟩ := hc.oval
  unfold AnyCall.newRow at hrow
  split at hrow
  · rename_i hfits
    cases hrow
    have hnamed : (v.apply (.nameAssign ⟨c.sensorName, c.unitStr.bytes, hfits⟩)).sensors =
        v.sensors ++ [⟨c.sensorName.bytes, c.unitStr.bytes, .eof⟩] := by
      rw [View.apply, Bytes.untilZero_of_notMem c.unitStr.nulFree]
    have hsensor : (v.apply (.nameAssign ⟨c.sensorName, c.unitStr.bytes, hfits⟩)).sensors[
        enc.totalEntries.toUInt32.toNat]? =
          some ⟨c.sensorName.bytes, c.unitStr.bytes, .eof⟩ := by
      rw [hnamed, hindex, List.getElem?_concat_length]
    refine ⟨(v.apply (.nameAssign ⟨c.sensorName, c.unitStr.bytes, hfits⟩)).deliver
      enc.totalEntries.toUInt32 fun _ => oval, ?_, ?_⟩
    · refine (round_record fun i hi => by cases hi).advances.append (advances_payload hoval ?_)
      exact (List.getElem?_eq_some_iff.mp hsensor).1
    · rw [deliver_of_getElem hsensor, hnamed, hindex, List.set_append_right _ _ (le_refl _),
        Nat.sub_self, List.set_cons_zero]
      refine ⟨fun _ => ⟨hcurrent, hts⟩, ?_, h.quiet, ?_, ⟨_, hslots'⟩, ?_, ?_⟩
      · exact congrArg (· + 1) h.rowCounter
      · refine h.rows.concat ⟨by rw [← htick]; exact hts, rfl, ?_, hdelivered⟩
        rw [unitFor, hcalls]
      · rw [List.length_append, h.sensors.count, hnames, List.length_append]
        rfl
      · intro i sensorName hi
        rw [hnames] at hi
        by_cases hlast : i < (sensorNames calls).length
        · rw [List.getElem?_append_left hlast] at hi
          have hne : c.sensorName ≠ sensorName := by
            rintro rfl
            exact hnew (List.mem_of_getElem? hi)
          obtain ⟨first, later, value, hfirst, htwins, hsensor'⟩ := h.sensors.each i sensorName hi
          rw [callsFor_concat, if_neg hne,
            List.getElem?_append_left (by rw [h.sensors.count]; exact hlast)]
          exact ⟨first, later, value, hfirst, htwins, hsensor'⟩
        · have hlt := (List.getElem?_eq_some_iff.mp hi).1
          rw [List.length_append, List.length_singleton] at hlt
          obtain rfl : i = (sensorNames calls).length := by omega
          rw [List.getElem?_concat_length, Option.some_inj] at hi
          subst hi
          refine ⟨c, [], oval, hcalls, ⟨c, hc, hoval, Or.inl rfl⟩, ?_⟩
          rw [← h.sensors.count, List.getElem?_concat_length]
  · cases hrow

/-- **A row** that is written. -/
theorem row (h : Mirrors enc v calls) (htick : enc.timestampCurrent = c.tick) (hc : c.Kept)
    (hfew : (sensorNames (calls ++ [c])).length ≤ 65536)
    (hheeded : Throughout ArrayHeeded (calls ++ [c])) {bytes : List UInt8}
    (hrow : c.row enc = some (enc', bytes)) :
    ∃ v', Advances v bytes v' ∧ Mirrors enc' v' (calls ++ [c]) := by
  unfold AnyCall.row at hrow
  split at hrow
  · rename_i hnone
    exact h.added htick hc hnone hfew hrow
  · rename_i entry hentry
    obtain ⟨v', hadvances, hmirrors⟩ :=
      h.known htick hc hheeded.init.1 hheeded.init.2 hentry
    rw [Option.some.inj hrow] at hadvances hmirrors
    exact ⟨v', hadvances, hmirrors⟩

end Mirrors

/-! ### Runs -/

/-- The states of a channel that injects and flushes lead to, with the calls that were accepted.
Every flush goes through, and nothing is written past the end of the bucket. -/
inductive Steady (zstd : Zstd) (h₀ : Handle) : Handle → List AnyCall → Prop
  | start : Steady zstd h₀ h₀ []
  | accepted {h : Handle} {calls : List AnyCall} (c : AnyCall) (hr : Steady zstd h₀ h calls)
      (hok : (c.inject zstd h).1 = true)
      (hsteady : (c.inject zstd h).2.channel.failures = h.channel.failures)
      (hinside : (c.inject zstd h).2.channel.overrun = false) :
      Steady zstd h₀ (c.inject zstd h).2 (calls ++ [c])
  | refused {h : Handle} {calls : List AnyCall} (c : AnyCall) (hr : Steady zstd h₀ h calls)
      (hok : (c.inject zstd h).1 = false)
      (hsteady : (c.inject zstd h).2.channel.failures = h.channel.failures)
      (hinside : (c.inject zstd h).2.channel.overrun = false) :
      Steady zstd h₀ (c.inject zstd h).2 calls
  | flush {h : Handle} {calls : List AnyCall} (hr : Steady zstd h₀ h calls)
      (hok : (h.channelFlush zstd).1 = true) : Steady zstd h₀ (h.channelFlush zstd).2 calls

variable {h₀ h : Handle}

/-- **A run** goes on as its reader does. -/
theorem Steady.carries (hempty : h₀.channel.pending = [])
    (hnew : h₀.channel.encoder = Encoder.init) (hr : Steady zstd h₀ h calls)
    (hkept : ∀ c ∈ calls, c.Kept) (hfew : (sensorNames calls).length ≤ 65536)
    (hheeded : Throughout ArrayHeeded calls) :
    ∃ v, Carries zstd h₀ v h ∧ Mirrors h.channel.encoder v calls := by
  induction hr with
  | start =>
    refine ⟨View.init, .start hempty, ?_⟩
    rw [hnew]
    exact .init
  | @accepted h calls c hr hok hsteady hinside ih =>
    have hle := length_sensorNames_le calls c
    obtain ⟨v, hc, hm⟩ := ih (fun d hd => hkept d (List.mem_append_left _ hd)) (by omega)
      hheeded.init.1
    obtain ⟨v', hc', -, hm'⟩ := @Carries.inject zstd h₀ h v hc c hsteady hinside
      (fun enc v => Mirrors enc v calls) (fun enc v => Mirrors enc v (calls ++ [c])) hm
      fun hclock => by
        obtain ⟨v', hadvances, hsame, hm'⟩ := hm.stamp hclock
        exact ⟨v', hadvances, hsame, hm', fun hrow _ =>
          hm'.row rfl (hkept c (List.mem_append_right _ List.mem_cons_self)) hfew hheeded hrow⟩
    exact ⟨v', hc', hm' hok⟩
  | @refused h calls c hr hok hsteady hinside ih =>
    obtain ⟨v, hc, hm⟩ := ih hkept hfew hheeded
    obtain ⟨v', hc', hm', -⟩ := @Carries.inject zstd h₀ h v hc c hsteady hinside
      (fun enc v => Mirrors enc v calls) (fun _ _ => True) hm
      fun hclock => by
        obtain ⟨v', hadvances, hsame, hm'⟩ := hm.stamp hclock
        refine ⟨v', hadvances, hsame, hm', fun _ hok' => ?_⟩
        rw [hok] at hok'
        cases hok'
    exact ⟨v', hc', hm' hok⟩
  | @flush h calls hr hok ih =>
    obtain ⟨v, hc, hm⟩ := ih hkept hfew hheeded
    refine ⟨v, (hc.flush hok).1, ?_⟩
    rw [(Handle.kept_channelFlush h).2]
    exact hm

/-- **Scalars and arrays are delivered**, in the order in which they were accepted, and the
number of rows is found to be right. -/
theorem arrays_delivered (hlossless : zstd.Lossless) {features channelType id : UInt8}
    {bufferSize : UInt32} {answers : List Bool} (hid : id ≠ 0)
    (hr : Steady zstd (firstChannel features channelType id bufferSize answers) h calls)
    (hkept : ∀ c ∈ calls, c.Kept) (hfew : (sensorNames calls).length ≤ 65536)
    (hheeded : Throughout ArrayHeeded calls)
    (hsteady : (h.finish zstd).channel.failures = h.channel.failures)
    (hinside : (h.finish zstd).channel.overrun = false) (seeker : Bool) :
    ∃ u, readFile zstd seeker [id] (h.finish zstd).parent.accepted = .ok u ∧
      AllMatch (u.calls.map Prod.snd) calls ∧ ∀ ch ∈ u.channels, ch.base.error = .none := by
  obtain ⟨v, hc, hm⟩ := hr.carries rfl rfl hkept hfew hheeded
  obtain ⟨hclosed, hpending⟩ := hc.finish hsteady hinside
  -- the mark has the number of the rows that were written
  have hmark : v.apply (.eof h.channel.base.rowCounter) = v := by
    have hcount : h.channel.base.rowCounter = v.rowCounter := hm.rowCounter.symm
    rw [View.apply, if_neg (not_not.mpr hcount)]
  rw [hmark] at hclosed
  obtain ⟨sent, v₁, haccepted, hships, hrest⟩ := hclosed.sent
  rw [hpending] at hrest
  obtain rfl := hrest.of_nil
  rw [accepted_firstChannel hid, List.append_assoc] at haccepted
  obtain ⟨u₀, u₁, hstart, hgoes, hat⟩ := @start_standing zstd seeker id features channelType
    (OticPack.effectiveSize bufferSize) sent
  rw [← List.append_nil sent] at hat
  obtain ⟨u, hgoes', hat'⟩ := hships.read hlossless hat
  have hstop : u.parse zstd = .ok (false, u) := by
    rw [OticUnpack.parse, fetch_none (by simp [hat'.input])]
  have hrun := (hgoes.trans hgoes').run hstop (fun u => u.input.length)
    (fun _ _ => length_input_of_parse) (u₀.input.length + 1) (Nat.lt_succ_self _)
  refine ⟨u, ?_, ?_, ?_⟩
  · rw [haccepted, readFile, hstart, Exec.ok_bind, OticUnpack.parseAll, hrun]
    rfl
  · have hrows : u.calls.map Prod.snd = v.rows := by
      rw [hat'.calls, List.map_map]
      exact List.map_id _
    rw [hrows]
    exact hm.rows
  · intro ch hch
    obtain ⟨ch', fr, top, hchannels, -, hstands, -⟩ := hat'.channel
    rw [hchannels, List.mem_singleton] at hch
    subst hch
    have herror : ch.base.error = v.error := congrArg View.error hstands.view
    rw [herror]
    exact hm.quiet

/-- An array with an array in it, a shorter one, and then a number for the same sensor. -/
def nestedArray : AnyCall :=
  ⟨⟨7, seven_lt_TS_NULL⟩, CStr.empty, none,
    .array ⟨[.intPos 500, .array [.true, .intNeg 3]], by simp [Element.Sized, Element.AllSized]⟩,
    [], false, 0⟩

def shorterArray : AnyCall :=
  { nestedArray with value := .array ⟨[.false], by simp [Element.Sized, Element.AllSized]⟩ }

def numberAfter : AnyCall := { nestedArray with value := .scalar (.intPos 3) }

def afterArrays : Handle :=
  (shorterArray.inject Zstd.stored
    (nestedArray.inject Zstd.stored (firstChannel 0 0 1 1024 [])).2).2

def afterNumber : Handle := (numberAfter.inject Zstd.stored afterArrays).2

theorem steady_afterNumber :
    Steady Zstd.stored (firstChannel 0 0 1 1024 []) afterNumber
      [nestedArray, shorterArray, numberAfter] :=
  .accepted numberAfter
    (.accepted shorterArray
      (.accepted nestedArray .start (by decide +kernel) (by decide +kernel) (by decide +kernel))
      (by decide +kernel) (by decide +kernel) (by decide +kernel))
    (by decide +kernel) (by decide +kernel) (by decide +kernel)

/-- The shorter array finds an array of no elements, at null. -/
theorem heeded_afterNumber : Throughout ArrayHeeded [nestedArray, shorterArray, numberAfter] := by
  intro before c after hsplit aval first later cell hvalue hcalls hrun
  rcases before with _ | ⟨d, _ | ⟨e, _ | ⟨f, before⟩⟩⟩
  · cases hcalls
  · cases hsplit
    cases hvalue
    cases hcalls
    obtain rfl : Pack.Cell.entered nestedArray = cell := Except.ok.inj hrun
    exact ⟨rfl, fun _ hsize => absurd hsize (by decide)⟩
  · cases hsplit
    cases hvalue
  · cases before <;> cases hsplit

theorem arrays_delivered_nestedArray :
    ∃ u, readFile Zstd.stored false [1] (afterNumber.finish Zstd.stored).parent.accepted = .ok u ∧
      AllMatch (u.calls.map Prod.snd) [nestedArray, shorterArray, numberAfter] ∧
      ∀ ch ∈ u.channels, ch.base.error = .none := by
  refine arrays_delivered Zstd.stored_lossless (by decide) steady_afterNumber ?_ (by decide)
    heeded_afterNumber (by decide +kernel) (by decide +kernel) false
  refine List.forall_mem_cons.mpr ⟨⟨List.cons_ne_nil _ _, rfl⟩, List.forall_mem_cons.mpr
    ⟨⟨List.cons_ne_nil _ _, rfl⟩, List.forall_mem_singleton.mpr ⟨?_, rfl⟩⟩⟩
  exact show (3 : UInt64).toNat < 2 ^ 32 by decide

end Otic
