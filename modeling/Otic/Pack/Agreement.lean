import Otic.Pack.Expected

/-!
# The reader's picture follows the writer's

`Agree` relates an encoder, the view that the records written so far amount to, and
the calls accepted so far.  One faithful call keeps it (`Agree.inject`), and so
does a run of them (`Agree.run`); the first call that is not faithful comes out as
a row that does not match.
-/

namespace Otic.Pack

/-- What the writer's entry and the reader's sensor hold after the calls for a sensor:
the first value, the writer a copy of it, until a call found it changed; the same
value from then on. -/
def Held (first : Call) (later : List Call) (lastValue value : Oval) : Prop :=
  ((∀ d ∈ later, d.sees first.value = true) ∧
      lastValue = first.value.entered ∧ value = first.value.oval) ∨
    (¬ (∀ d ∈ later, d.sees first.value = true) ∧
      ∃ w : Value, lastValue = w.oval ∧ value = w.oval)

/-- The slot and the sensor of one name. -/
structure AgreeAt (calls : List Call) (first : Call) (slot : Encoder.Slot) (sensor : Sensor) :
    Prop where
  slotName : slot.name = first.sensorName.bytes
  sensorName : sensor.name = first.sensorName.bytes
  sensorUnit : sensor.unit = first.unitStr.bytes
  held : ∃ later, callsOf calls first.sensorName = first :: later ∧
    Held first later slot.lastValue sensor.value

/-- The slots and the sensors of all names. -/
structure AgreeAll (calls : List Call) (slots : List Encoder.Slot) (sensors : List Sensor) :
    Prop where
  slotCount : slots.length = (firsts calls).length
  sensorCount : sensors.length = (firsts calls).length
  each : ∀ (i : Nat) first, (firsts calls)[i]? = some first → ∃ slot sensor,
    slots[i]? = some slot ∧ sensors[i]? = some sensor ∧ AgreeAt calls first slot sensor

theorem AgreeAll.slotNames {calls : List Call} {slots : List Encoder.Slot} {sensors : List Sensor}
    (h : AgreeAll calls slots sensors) :
    slots.map Encoder.Slot.name = (firsts calls).map fun first => first.sensorName.bytes := by
  apply List.ext_getElem (by simp [h.slotCount])
  intro i hi hi'
  rw [List.length_map] at hi hi'
  obtain ⟨slot, sensor, hslot, -, hat⟩ := h.each i _ (List.getElem?_eq_getElem hi')
  rw [List.getElem?_eq_getElem hi, Option.some_inj] at hslot
  rw [List.getElem_map, List.getElem_map, hslot, hat.slotName]

/-- The encoder and the view after some accepted calls. -/
structure Agree (enc : Encoder) (v : View) (calls : List Call) : Prop where
  clock : enc.timestampCurrent ≠ TS_NULL →
    v.clock = enc.timestampCurrent ∧ v.ts = some enc.timestampCurrent
  rowCounter : v.rowCounter = enc.rowCounter
  quiet : v.error = .none
  rows : RowsMatch v.rows calls
  sensors : ∃ slots, enc.Registered slots ∧ AgreeAll calls slots v.sensors

theorem Tick.ne_null (tick : Tick) : tick.val ≠ TS_NULL := by
  intro heq
  have := tick.property
  rw [heq] at this
  exact absurd this (by decide)

/-- A view without sensors and rows, whatever its clock shows. -/
structure Blank (v : View) : Prop where
  sensors : v.sensors = []
  rows : v.rows = []
  rowCounter : v.rowCounter = 0
  quiet : v.error = .none

theorem blank_init : Blank View.init := ⟨rfl, rfl, rfl, rfl⟩

theorem agree_init {v : View} (h : Blank v) : Agree Encoder.init v [] where
  clock := fun hset => absurd rfl hset
  rowCounter := h.rowCounter
  quiet := h.quiet
  rows := by rw [h.rows]; exact .nil
  sensors := ⟨[], Encoder.registered_init, rfl, by simp [h.sensors], by simp⟩

/-! ### Records of the encoder, as the view sees them -/

theorem apply_record (v : View) (value : Value) (index : UInt32) :
    v.apply (value.record index) = v.deliver index fun _ => value.oval := by
  cases value with
  | bool b => cases b <;> rfl
  | intPos value =>
    by_cases h : value < SMALL_INT_LIMIT.toUInt64
    · have hvalue : value.toUInt8.toUInt64 = value := by
        rw [← UInt64.toNat_inj, UInt8.toNat_toUInt64, UInt64.toNat_toUInt8]
        rw [UInt64.lt_iff_toNat_lt] at h
        have hlimit : SMALL_INT_LIMIT.toUInt64.toNat = 0xC9 := rfl
        omega
      simp only [Value.record, dif_pos h, View.apply, hvalue, Value.oval]
    · simp only [Value.record, dif_neg h, View.apply, Value.oval]
  | intNeg value | double value | string value | null => rfl

theorem deliver_of_getElem {v : View} {index : UInt32} {sensor : Sensor}
    (h : v.sensors[index.toNat]? = some sensor) (f : Oval → Oval) :
    v.deliver index f =
      { v with
        sensors := v.sensors.set index.toNat { sensor with value := f sensor.value }
        rows := v.rows ++ [⟨v.ts, sensor.name, sensor.unit, f sensor.value⟩]
        rowCounter := v.rowCounter + 1 } := by
  rw [View.deliver, h]

namespace Agree

variable {enc : Encoder} {v : View} {calls : List Call} {c : Call}

/-! ### The clock -/

theorem tick (h : Agree enc v calls) {tick : Tick} {records : List Record}
    (hclock : enc.clock tick = some records) :
    Agree { enc with timestampCurrent := tick } (v.applyAll records) calls ∧
      (v.applyAll records).rows = v.rows := by
  obtain ⟨slots, hregistered, hall⟩ := h.sensors
  have hstep : ∀ v' : View, v'.clock = tick → v'.ts = some tick.val →
      v'.rowCounter = v.rowCounter → v'.error = v.error → v'.rows = v.rows →
      v'.sensors = v.sensors →
      Agree { enc with timestampCurrent := tick } v' calls ∧ v'.rows = v.rows := by
    intro v' hclock' hts' hcount' herror' hrows' hsensors'
    refine ⟨⟨fun _ => ⟨hclock', hts'⟩, hcount'.trans h.rowCounter, herror'.trans h.quiet, ?_,
      slots, hregistered.tick _, ?_⟩, hrows'⟩
    · rw [hrows']
      exact h.rows
    · rw [hsensors']
      exact hall
  have hnull : tick.val ≠ TS_NULL := Tick.ne_null tick
  unfold Encoder.clock at hclock
  split at hclock
  · rename_i hsame
    obtain rfl := Option.some.inj hclock
    obtain ⟨hcurrent, hts⟩ := h.clock (by rw [hsame]; exact hnull)
    exact hstep v (hcurrent.trans hsame) (by rw [hts, hsame]) rfl rfl rfl rfl
  · split at hclock
    · obtain rfl := Option.some.inj hclock
      exact hstep _ rfl rfl rfl rfl rfl rfl
    · rename_i hset
      split at hclock
      · cases hclock
      · obtain rfl := Option.some.inj hclock
        obtain ⟨hcurrent, -⟩ := h.clock hset
        have hshift : v.clock + (tick.val - enc.timestampCurrent) = tick.val := by
          rw [hcurrent, UInt64.add_comm, UInt64.sub_add_cancel]
        exact hstep _ hshift (congrArg some hshift) rfl rfl rfl rfl

/-! ### Rows of known sensors -/

/-- Where the sensor of a call stands that has an entry. -/
structure Position (v : View) (calls : List Call) (c : Call) (entry : Entry)
    (slots : List Encoder.Slot) (first : Call) (slot : Encoder.Slot) (sensor : Sensor) : Prop where
  isFirst : (firsts calls)[entry.index.toNat]? = some first
  name : first.sensorName = c.sensorName
  isSlot : slots[entry.index.toNat]? = some slot
  isSensor : v.sensors[entry.index.toNat]? = some sensor
  agree : AgreeAt calls first slot sensor
  lastValue : entry.lastValue = slot.lastValue

theorem position (h : Agree enc v calls) {entry : Entry}
    (hentry : Channel.entryFind enc.cache c.sensorName = some entry) :
    ∃ slots first slot sensor, enc.Registered slots ∧ AgreeAll calls slots v.sensors ∧
      Position v calls c entry slots first slot sensor := by
  obtain ⟨slots, hregistered, hall⟩ := h.sensors
  obtain ⟨slot, hslot, hslotName, hlast⟩ := hregistered.position hentry
  have hi : entry.index.toNat < (firsts calls).length := by
    rw [← hall.slotCount]
    exact (List.getElem?_eq_some_iff.mp hslot).1
  obtain ⟨slot', sensor, hslot', hsensor, hat⟩ := hall.each _ _ (List.getElem?_eq_getElem hi)
  rw [hslot, Option.some_inj] at hslot'
  subst hslot'
  exact ⟨slots, _, slot, sensor, hregistered, hall, List.getElem?_eq_getElem hi,
    CStr.ext_bytes (hat.slotName.symm.trans hslotName), hslot, hsensor, hat, hlast⟩

/-- One more row of a known sensor, which both sides now hold as stated. -/
theorem deliver (h : Agree enc v calls) (htick : enc.timestampCurrent = c.tick) {entry : Entry}
    {slots : List Encoder.Slot} {first : Call} {slot : Encoder.Slot} {sensor : Sensor}
    (hall : AgreeAll calls slots v.sensors)
    (hpos : Position v calls c entry slots first slot sensor)
    {later : List Call} (hcalls : callsOf calls first.sensorName = first :: later)
    {enc' : Encoder} {lastValue : Oval} {f : Oval → Oval}
    (hregistered : enc'.Registered (slots.set entry.index.toNat ⟨slot.name, lastValue⟩))
    (hclock' : enc'.timestampCurrent = enc.timestampCurrent)
    (hcount' : enc'.rowCounter = enc.rowCounter + 1)
    (hheld : Held first (later ++ [c]) lastValue (f sensor.value))
    (hdelivered : c.value.Delivered (f sensor.value)) :
    Agree enc' (v.deliver entry.index f) (calls ++ [c]) := by
  obtain ⟨hfirst, hname, hslot, hsensor, hat, -⟩ := hpos
  have hfirsts : firsts (calls ++ [c]) = firsts calls := by
    rw [firsts_concat, if_pos (List.mem_map.mpr ⟨first, List.mem_of_getElem? hfirst, hname⟩)]
  have hcalls' : callsOf (calls ++ [c]) first.sensorName = first :: (later ++ [c]) := by
    rw [callsOf_concat, if_pos hname.symm, hcalls, List.cons_append]
  obtain ⟨hcurrent, hts⟩ := h.clock (by rw [htick]; exact Tick.ne_null c.tick)
  rw [deliver_of_getElem hsensor]
  refine ⟨fun _ => ?_, ?_, h.quiet, ?_, _, hregistered, ?_, ?_, ?_⟩
  · rw [hclock']
    exact ⟨hcurrent, hts⟩
  · rw [hcount', ← h.rowCounter]
  · refine h.rows.concat ⟨by rw [← htick]; exact hts, ?_, ?_, hdelivered⟩
    · rw [hat.sensorName, hname]
    · rw [← hname, unitOf, hcalls']
      exact hat.sensorUnit
  · rw [List.length_set, hall.slotCount, hfirsts]
  · rw [List.length_set, hall.sensorCount, hfirsts]
  · intro j other hother
    rw [hfirsts] at hother
    by_cases hj : entry.index.toNat = j
    · subst hj
      rw [hfirst, Option.some_inj] at hother
      subst hother
      exact ⟨⟨slot.name, lastValue⟩, { sensor with value := f sensor.value },
        List.getElem?_set_self (List.getElem?_eq_some_iff.mp hslot).1,
        List.getElem?_set_self (List.getElem?_eq_some_iff.mp hsensor).1,
        hat.slotName, hat.sensorName, hat.sensorUnit, later ++ [c], hcalls', hheld⟩
    · -- another position has another name, whose calls are the same as before
      have hne : c.sensorName ≠ other.sensorName := by
        intro heq
        refine hj ((List.getElem?_inj ?_ (nodup_firsts calls)).mp ?_)
        · simpa using (List.getElem?_eq_some_iff.mp hfirst).1
        · simp [hfirst, hother, hname, heq]
      obtain ⟨slot', sensor', hslot', hsensor', hat'⟩ := hall.each j other hother
      obtain ⟨later', hlater', hheld'⟩ := hat'.held
      exact ⟨slot', sensor', by rw [List.getElem?_set_ne hj]; exact hslot',
        by rw [List.getElem?_set_ne hj]; exact hsensor', hat'.slotName, hat'.sensorName,
        hat'.sensorUnit, later', by rw [callsOf_concat, if_neg hne]; exact hlater', hheld'⟩

/-- **A row of a known sensor** keeps the agreement if the call is faithful, and is
delivered with another value if it is not. -/
theorem known (h : Agree enc v calls) (htick : enc.timestampCurrent = c.tick) {entry : Entry}
    (hentry : Channel.entryFind enc.cache c.sensorName = some entry) :
    (FaithfulAt calls c → Agree (enc.knownRow c entry).1 (v.applyAll (enc.knownRow c entry).2)
      (calls ++ [c])) ∧
    (¬ FaithfulAt calls c → ∃ row, (v.applyAll (enc.knownRow c entry).2).rows = v.rows ++ [row] ∧
      ¬ c.value.Delivered row.value) := by
  obtain ⟨slots, first, slot, sensor, hregistered, hall, hpos⟩ := h.position hentry
  obtain ⟨later, hcalls, hheld⟩ := hpos.agree.held
  have hfaithful : FaithfulAt calls c ↔ ((∀ d ∈ later, d.sees first.value = true) →
      c.sees first.value = true → c.value.Delivered first.value.oval) := by
    rw [FaithfulAt, ← hpos.name, hcalls]
  have hsees : slot.lastValue = first.value.entered →
      c.sees first.value = c.injection.same entry.lastValue := by
    intro hlast
    rw [Call.sees, hpos.lastValue, hlast]
  unfold Encoder.knownRow
  by_cases hsame : c.injection.same entry.lastValue = true
  · rw [if_pos hsame]
    have hrows : (v.applyAll [.unmodified entry.index]).rows =
        v.rows ++ [⟨v.ts, sensor.name, sensor.unit, sensor.value⟩] := by
      simp only [View.applyAll_cons, View.applyAll_nil, View.apply,
        deliver_of_getElem hpos.isSensor, id]
    have hkeep : ∀ (_ : Held first (later ++ [c]) slot.lastValue sensor.value)
        (_ : c.value.Delivered sensor.value),
        Agree { enc with rowCounter := enc.rowCounter + 1 }
          (v.applyAll [.unmodified entry.index]) (calls ++ [c]) := by
      intro hheld' hdelivered
      have hset : slots.set entry.index.toNat ⟨slot.name, slot.lastValue⟩ = slots := by
        obtain ⟨hi, rfl⟩ := List.getElem?_eq_some_iff.mp hpos.isSlot
        exact List.set_getElem_self hi
      have hcounted := hregistered.countRow (enc.rowCounter + 1)
      rw [← hset] at hcounted
      exact h.deliver htick hall hpos hcalls hcounted rfl rfl hheld' hdelivered
    rcases hheld with ⟨hunchanged, hlast, hvalue⟩ | ⟨hchanged, w, hlast, hvalue⟩
    · -- the entry still holds the copy of the first value
      have hc : c.sees first.value = true := (hsees hlast).trans hsame
      constructor
      · intro hf
        have hstill : ∀ d ∈ later ++ [c], d.sees first.value = true :=
          List.forall_mem_append.mpr ⟨hunchanged, List.forall_mem_singleton.mpr hc⟩
        refine hkeep (Or.inl ⟨hstill, hlast, hvalue⟩) ?_
        rw [hvalue]
        exact hfaithful.mp hf hunchanged hc
      · intro hf
        refine ⟨_, hrows, fun hdelivered => hf (hfaithful.mpr fun _ _ => ?_)⟩
        rwa [← hvalue]
    · -- the entry holds an exact copy
      have hdelivered : c.value.Delivered sensor.value := by
        rw [hvalue]
        refine delivered_of_same_oval ?_
        rw [← hlast, ← hpos.lastValue]
        exact hsame
      constructor
      · intro _
        exact hkeep (Or.inr ⟨fun hsees' => hchanged fun d hd =>
          hsees' d (List.mem_append_left _ hd), w, hlast, hvalue⟩) hdelivered
      · intro hf
        exact absurd (hfaithful.mpr fun hsees' => absurd hsees' hchanged) hf
  · rw [if_neg hsame]
    -- the call is written out, and both sides hold its value exactly
    have hchanged : ¬ ∀ d ∈ later ++ [c], d.sees first.value = true := by
      intro hsees'
      rcases hheld with ⟨-, hlast, -⟩ | ⟨hchanged, -⟩
      · exact hsame ((hsees hlast).symm.trans (hsees' c (by simp)))
      · exact hchanged fun d hd => hsees' d (List.mem_append_left _ hd)
    constructor
    · intro _
      rw [View.applyAll_cons, View.applyAll_nil, apply_record, changed_injection]
      exact h.deliver htick hall hpos hcalls
        (hregistered.setLastValue hpos.isSlot (hpos.agree.slotName.trans (by rw [hpos.name]))
          _ _) rfl rfl (Or.inr ⟨hchanged, c.value, rfl, rfl⟩) c.value.delivered_oval
    · intro hf
      refine absurd (hfaithful.mpr fun hunchanged hc => ?_) hf
      exact absurd (List.forall_mem_append.mpr ⟨hunchanged, List.forall_mem_singleton.mpr hc⟩)
        hchanged

/-! ### Rows of new sensors -/

/-- A sensor without an entry has no slot, and has had no call. -/
theorem absent {slots : List Encoder.Slot} {sensors : List Sensor}
    (hregistered : enc.Registered slots) (hall : AgreeAll calls slots sensors) {name : CStr}
    (hentry : Channel.entryFind enc.cache name = none) :
    name.bytes ∉ slots.map Encoder.Slot.name ∧ callsOf calls name = [] := by
  have habsent : name.bytes ∉ slots.map Encoder.Slot.name := by
    intro hmem
    obtain ⟨slot, hslotMem, hslotName⟩ := List.mem_map.mp hmem
    obtain ⟨i, hslot⟩ := List.getElem?_of_mem hslotMem
    obtain ⟨entry, hlookup, -⟩ := hregistered.found i slot hslot
    have hnone : enc.lookup name.bytes = none := hentry
    rw [hslotName, hnone] at hlookup
    cases hlookup
  refine ⟨habsent, ?_⟩
  by_contra hsome
  obtain ⟨first, hmem, hname⟩ := List.mem_map.mp ((mem_firsts_iff calls name).mpr hsome)
  rw [hall.slotNames] at habsent
  exact habsent (List.mem_map.mpr ⟨first, hmem, by rw [hname]⟩)

/-- One more slot and one more sensor for the first call of a sensor. -/
theorem concat {slots : List Encoder.Slot} {sensors : List Sensor}
    (hall : AgreeAll calls slots sensors) (hnone : callsOf calls c.sensorName = []) :
    AgreeAll (calls ++ [c]) (slots ++ [⟨c.sensorName.bytes, c.value.entered⟩])
      (sensors ++ [⟨c.sensorName.bytes, c.unitStr.bytes, c.value.oval⟩]) := by
  have hunnamed : c.sensorName ∉ (firsts calls).map Call.sensorName := by
    rw [mem_firsts_iff, hnone]
    simp
  have hfirsts : firsts (calls ++ [c]) = firsts calls ++ [c] := by
    rw [firsts_concat, if_neg hunnamed]
  refine ⟨?_, ?_, fun i first hfirst => ?_⟩
  · rw [hfirsts, List.length_append, List.length_append, hall.slotCount]
    rfl
  · rw [hfirsts, List.length_append, List.length_append, hall.sensorCount]
    rfl
  rw [hfirsts] at hfirst
  by_cases hi : i < (firsts calls).length
  · -- an earlier sensor has another name, whose calls are the same as before
    rw [List.getElem?_append_left hi] at hfirst
    obtain ⟨slot, sensor, hslot, hsensor, hat⟩ := hall.each i first hfirst
    obtain ⟨later, hlater, hheld⟩ := hat.held
    refine ⟨slot, sensor, ?_, ?_, hat.slotName, hat.sensorName, hat.sensorUnit, later, ?_, hheld⟩
    · rw [List.getElem?_append_left (by rw [hall.slotCount]; exact hi)]
      exact hslot
    · rw [List.getElem?_append_left (by rw [hall.sensorCount]; exact hi)]
      exact hsensor
    · have hother : c.sensorName ≠ first.sensorName := fun heq =>
        hunnamed (List.mem_map.mpr ⟨first, List.mem_of_getElem? hfirst, heq.symm⟩)
      rw [callsOf_concat, if_neg hother]
      exact hlater
  · obtain ⟨rfl, rfl⟩ : i = (firsts calls).length ∧ c = first := by
      rw [List.getElem?_append_right (by omega)] at hfirst
      cases hk : i - (firsts calls).length with
      | zero => exact ⟨by omega, by simpa [hk] using hfirst⟩
      | succ k => simp [hk] at hfirst
    have hcalls : callsOf (calls ++ [c]) c.sensorName = [c] := by
      rw [callsOf_concat, if_pos rfl, hnone, List.nil_append]
    refine ⟨⟨c.sensorName.bytes, c.value.entered⟩,
      ⟨c.sensorName.bytes, c.unitStr.bytes, c.value.oval⟩, ?_, ?_, rfl, rfl, rfl, [], hcalls,
      Or.inl ⟨by simp, rfl, rfl⟩⟩
    · rw [List.getElem?_append_right (by rw [hall.slotCount]), hall.slotCount]
      simp
    · rw [List.getElem?_append_right (by rw [hall.sensorCount]), hall.sensorCount]
      simp

/-- The view once the name of a new sensor is read. -/
def named (v : View) (c : Call) : View :=
  { v with sensors := v.sensors ++ [⟨c.sensorName.bytes, Bytes.untilZero c.unitStr.bytes, .eof⟩] }

theorem applyAll_newRow (hfits : c.Fits) (index : UInt32) :
    v.applyAll [.nameAssign ⟨c.sensorName, c.unitStr.bytes, hfits⟩, c.value.record index] =
      (named v c).deliver index fun _ => c.value.oval := by
  rw [View.applyAll_cons, View.applyAll_cons, View.applyAll_nil, apply_record]
  rfl

/-- While an index is left, the row goes to the new sensor. -/
theorem deliver_new (h : Agree enc v calls) (htick : enc.timestampCurrent = c.tick)
    {slots : List Encoder.Slot} (hregistered : enc.Registered slots)
    (hall : AgreeAll calls slots v.sensors) (habsent : c.sensorName.bytes ∉ slots.map (·.name))
    (hnone : callsOf calls c.sensorName = []) (hfew : slots.length < 65536) :
    Agree
      { enc with
        cache := c.injection.insert enc.cache c.sensorName c.unitStr enc.totalEntries
        totalEntries := enc.totalEntries + 1
        rowCounter := enc.rowCounter + 1 }
      ((named v c).deliver enc.totalEntries.toUInt32 fun _ => c.value.oval) (calls ++ [c]) := by
  have htotal : enc.totalEntries.toUInt32.toNat = v.sensors.length := by
    rw [UInt16.toNat_toUInt32, hregistered.counted.total, Nat.mod_eq_of_lt hfew,
      hall.slotCount, hall.sensorCount]
  have hsensor : (named v c).sensors[enc.totalEntries.toUInt32.toNat]? =
      some ⟨c.sensorName.bytes, Bytes.untilZero c.unitStr.bytes, .eof⟩ := by
    rw [htotal]
    simp [named]
  obtain ⟨hcurrent, hts⟩ := h.clock (by rw [htick]; exact Tick.ne_null c.tick)
  have hcalls : callsOf (calls ++ [c]) c.sensorName = [c] := by
    rw [callsOf_concat, if_pos rfl, hnone, List.nil_append]
  have hunit : Bytes.untilZero c.unitStr.bytes = c.unitStr.bytes :=
    Bytes.untilZero_of_notMem c.unitStr.nulFree
  have hinsert := hregistered.insert hfew habsent c.unitStr c.value.entered (enc.rowCounter + 1)
  rw [deliver_of_getElem hsensor]
  refine ⟨fun _ => ⟨hcurrent, hts⟩, ?_, h.quiet, ?_,
    slots ++ [⟨c.sensorName.bytes, c.value.entered⟩], ?_, ?_⟩
  · dsimp only [named]
    rw [h.rowCounter]
  · refine h.rows.concat ⟨by rw [← htick]; exact hts, rfl, ?_, c.value.delivered_oval⟩
    rw [unitOf, hcalls]
    exact hunit
  · rw [Channel.insert_injection]
    exact hinsert
  · have hset : (named v c).sensors.set enc.totalEntries.toUInt32.toNat
        ⟨c.sensorName.bytes, Bytes.untilZero c.unitStr.bytes, c.value.oval⟩ =
          v.sensors ++ [⟨c.sensorName.bytes, c.unitStr.bytes, c.value.oval⟩] := by
      rw [htotal]
      simp [named, hunit]
    rw [hset]
    exact concat hall hnone

/-- Once all indices are taken, the next one is that of the first sensor again. -/
theorem deliver_wrapped {slots : List Encoder.Slot} (hregistered : enc.Registered slots)
    (hall : AgreeAll calls slots v.sensors) (habsent : c.sensorName.bytes ∉ slots.map (·.name))
    (hmany : slots.length = 65536) :
    ∃ row, ((named v c).deliver enc.totalEntries.toUInt32 fun _ => c.value.oval).rows =
      v.rows ++ [row] ∧ row.name ≠ c.sensorName.bytes := by
  have hzero : enc.totalEntries.toUInt32.toNat = 0 := by
    rw [UInt16.toNat_toUInt32, hregistered.counted.total, hmany]
  obtain ⟨first, hfirst⟩ : ∃ first, (firsts calls)[0]? = some first :=
    ⟨_, List.getElem?_eq_getElem (by rw [← hall.slotCount, hmany]; omega)⟩
  obtain ⟨slot, sensor, hslot, hsensor, hat⟩ := hall.each 0 first hfirst
  have hnext : (named v c).sensors[enc.totalEntries.toUInt32.toNat]? = some sensor := by
    rw [hzero]
    dsimp only [named]
    rw [List.getElem?_append_left (by rw [hall.sensorCount, ← hall.slotCount, hmany]; omega)]
    exact hsensor
  rw [deliver_of_getElem hnext]
  refine ⟨_, rfl, ?_⟩
  dsimp only
  rw [hat.sensorName, ← hat.slotName]
  exact fun heq => habsent (List.mem_map.mpr ⟨slot, List.mem_of_getElem? hslot, heq⟩)

/-- **A row of a new sensor** keeps the agreement while an index is left for it; the
65537th sensor is delivered under the name of the first. -/
theorem new (h : Agree enc v calls) (htick : enc.timestampCurrent = c.tick)
    (hentry : Channel.entryFind enc.cache c.sensorName = none) {enc' : Encoder}
    {records : List Record} (hrow : enc.newRow c = some (enc', records)) :
    (FaithfulAt calls c → Agree enc' (v.applyAll records) (calls ++ [c])) ∧
    (¬ FaithfulAt calls c → ∃ row, (v.applyAll records).rows = v.rows ++ [row] ∧
      row.name ≠ c.sensorName.bytes) := by
  obtain ⟨slots, hregistered, hall⟩ := h.sensors
  obtain ⟨habsent, hnone⟩ := absent hregistered hall hentry
  have hfaithful : FaithfulAt calls c ↔ slots.length < 65536 := by
    rw [FaithfulAt, hnone, hall.slotCount]
  unfold Encoder.newRow at hrow
  split at hrow
  case isFalse => cases hrow
  case isTrue hfits =>
    simp only [Option.some.injEq, Prod.mk.injEq] at hrow
    obtain ⟨rfl, rfl⟩ := hrow
    rw [applyAll_newRow]
    constructor
    · intro hf
      exact h.deliver_new htick hregistered hall habsent hnone (hfaithful.mp hf)
    · intro hf
      have hfew := hregistered.few
      have hnot := mt hfaithful.mpr hf
      exact deliver_wrapped hregistered hall habsent (by omega)

/-! ### Calls and runs -/

/-- **One call.**  A rejected call keeps the agreement, an accepted one as well if it
is faithful; if not, its row does not match. -/
theorem inject (h : Agree enc v calls) (limit : Nat) (c : Call) :
    let out := enc.inject limit c
    (out.ok = false → Agree out.encoder (v.applyAll out.records) calls) ∧
    (out.ok = true →
      (FaithfulAt calls c → Agree out.encoder (v.applyAll out.records) (calls ++ [c])) ∧
      (¬ FaithfulAt calls c → ∃ row, (v.applyAll out.records).rows = v.rows ++ [row] ∧
        ∀ unit, ¬ Matches row c unit)) := by
  unfold Encoder.inject
  cases hclock : enc.clock c.tick with
  | none => exact ⟨fun _ => h, (by intro hok; cases hok)⟩
  | some clock =>
    obtain ⟨htick, hrows⟩ := h.tick hclock
    dsimp only
    split
    · exact ⟨fun _ => htick, (by intro hok; cases hok)⟩
    · unfold Encoder.row
      cases hentry : Channel.entryFind enc.cache c.sensorName with
      | none =>
        dsimp only
        cases hrow : Encoder.newRow { enc with timestampCurrent := c.tick } c with
        | none => exact ⟨fun _ => htick, (by intro hok; cases hok)⟩
        | some out =>
          obtain ⟨hgood, hbad⟩ := htick.new rfl hentry hrow
          refine ⟨(by intro hok; cases hok), fun _ => ?_⟩
          dsimp only
          rw [View.applyAll_append]
          refine ⟨hgood, fun hf => ?_⟩
          obtain ⟨row, hrow', hname⟩ := hbad hf
          exact ⟨row, by rw [hrow', hrows], fun unit hmatch => hname hmatch.name⟩
      | some entry =>
        obtain ⟨hgood, hbad⟩ := htick.known rfl hentry
        refine ⟨(by intro hok; cases hok), fun _ => ?_⟩
        dsimp only
        rw [View.applyAll_append]
        refine ⟨hgood, fun hf => ?_⟩
        obtain ⟨row, hrow', hvalue⟩ := hbad hf
        exact ⟨row, by rw [hrow', hrows], fun unit hmatch => hvalue hmatch.value⟩

/-- **A run** of calls comes out right exactly if the accepted calls are faithful. -/
theorem run (limit : Nat) (cs : List Call) : ∀ {enc : Encoder} {v : View} {calls : List Call},
    Agree enc v calls →
      (FaithfulFrom calls (enc.accepted limit cs) →
        Agree (enc.run limit cs).encoder (v.applyAll (enc.run limit cs).records)
          (calls ++ enc.accepted limit cs)) ∧
      (¬ FaithfulFrom calls (enc.accepted limit cs) → ∀ more,
        ¬ RowsMatch ((v.applyAll (enc.run limit cs).records).rows ++ more)
          (calls ++ enc.accepted limit cs)) := by
  induction cs with
  | nil =>
    intro enc v calls h
    refine ⟨fun _ => by simpa [Encoder.accepted] using h, fun hf => ?_⟩
    exact absurd (faithfulFrom_nil calls) hf
  | cons c cs ih =>
    intro enc v calls h
    obtain ⟨hrejected, haccepted⟩ := h.inject limit c
    simp only [Encoder.run, Encoder.accepted, View.applyAll_append]
    cases hok : (enc.inject limit c).ok with
    | false =>
      rw [if_neg (by decide)]
      exact ih (hrejected hok)
    | true =>
      obtain ⟨hgood, hbad⟩ := haccepted hok
      rw [if_pos rfl, faithfulFrom_cons]
      by_cases hf : FaithfulAt calls c
      · obtain ⟨hgood', hbad'⟩ := ih (hgood hf)
        refine ⟨fun hfs => by simpa using hgood' hfs.2, fun hfs more => ?_⟩
        simpa using hbad' (fun hlater => hfs ⟨hf, hlater⟩) more
      · refine ⟨fun hfs => absurd hfs.1 hf, fun _ more => ?_⟩
        obtain ⟨row, hrow, hnot⟩ := hbad hf
        obtain ⟨later, hlater⟩ := View.rows_isPrefix_applyAll
          (v.applyAll (enc.inject limit c).records)
          ((enc.inject limit c).encoder.run limit cs).records
        rw [← hlater, hrow, List.append_assoc, List.append_assoc, List.singleton_append]
        exact not_rowsMatch_of_bad h.rows.length_eq hnot

theorem eof (h : Agree enc v calls) : v.apply (.eof enc.rowCounter) = v := by
  simp only [View.apply]
  rw [if_neg (not_not.mpr h.rowCounter.symm)]

end Agree

end Otic.Pack
