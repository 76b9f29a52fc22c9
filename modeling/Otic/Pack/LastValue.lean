import Otic.Pack.Course
import Otic.Pack.Names

/-!
# What a sensor's entry holds

The eight injects share the dictionary.  While there are at most 65536 names, the entry
of a sensor depends on the accepted calls for this sensor alone: the first one enters a
value, every later one keeps it or stores its own (`held`).  `Reached` lists the states
of a channel with the calls accepted on the way; `Reached.held` says what their entries
hold.
-/

namespace Otic.Pack

variable {zstd : Zstd} {h₀ h : Handle}

/-! ### Calls for one sensor -/

/-- What the entry of a new sensor holds; of an array nothing is stored. -/
def AnyCall.entered (c : AnyCall) : Oval :=
  match c.value with
  | .scalar value => value.entered
  | .buffer _ => .rawbuffer
  | .array _ => .array []

/-- What the entry of a sensor holds after its first call and some later ones. -/
def held (first : AnyCall) (later : List AnyCall) : Oval :=
  later.foldl
    (fun lastValue c => if c.injection.same lastValue then lastValue else c.injection.changed)
    first.entered

theorem held_concat (first : AnyCall) (later : List AnyCall) (c : AnyCall) :
    held first (later ++ [c]) =
      if c.injection.same (held first later) then held first later else c.injection.changed := by
  unfold held
  rw [List.foldl_append]
  rfl

/-- The calls for one sensor. -/
def callsFor (calls : List AnyCall) (sensorName : CStr) : List AnyCall :=
  calls.filter fun c => c.sensorName = sensorName

theorem callsFor_concat (calls : List AnyCall) (c : AnyCall) (sensorName : CStr) :
    callsFor (calls ++ [c]) sensorName =
      if c.sensorName = sensorName then callsFor calls sensorName ++ [c]
      else callsFor calls sensorName := by
  unfold callsFor
  rw [List.filter_append]
  split
  · rename_i hname
    simp [hname]
  · rename_i hname
    simp [hname]

/-- The sensors of some calls, in the order of their first call. -/
def sensorNames (calls : List AnyCall) : List CStr :=
  calls.foldl (fun names c => if c.sensorName ∈ names then names else names ++ [c.sensorName]) []

theorem sensorNames_concat (calls : List AnyCall) (c : AnyCall) :
    sensorNames (calls ++ [c]) =
      if c.sensorName ∈ sensorNames calls then sensorNames calls
      else sensorNames calls ++ [c.sensorName] := by
  unfold sensorNames
  rw [List.foldl_append]
  rfl

theorem callsFor_eq_nil {calls : List AnyCall} {sensorName : CStr} :
    callsFor calls sensorName = [] ↔ sensorName ∉ sensorNames calls := by
  induction calls using List.reverseRecOn with
  | nil => simp [callsFor, sensorNames]
  | append_singleton calls c ih =>
    rw [callsFor_concat, sensorNames_concat]
    by_cases hname : c.sensorName = sensorName
    · subst hname
      rw [if_pos rfl]
      split <;> simp_all
    · have hne : sensorName ≠ c.sensorName := fun heq => hname heq.symm
      rw [if_neg hname, ih]
      split <;> simp [hne]

/-- Every call is as it should be after those before it. -/
def Throughout (good : List AnyCall → AnyCall → Prop) (calls : List AnyCall) : Prop :=
  ∀ before c after, calls = before ++ c :: after → good before c

theorem Throughout.init {good : List AnyCall → AnyCall → Prop} {calls : List AnyCall} {c : AnyCall}
    (hgood : Throughout good (calls ++ [c])) : Throughout good calls ∧ good calls c := by
  constructor
  · rintro before d after rfl
    exact hgood before d (after ++ [c]) (by simp)
  · exact hgood calls c [] rfl

/-! ### What a call does to the encoder -/

/-- A refused call at most sets the clock, an accepted one writes its row after that. -/
theorem encoder_inject (c : AnyCall) (h : Handle) :
    ((c.inject zstd h).1 = false → ∃ tick,
        (c.inject zstd h).2.channel.encoder =
          { h.channel.encoder with timestampCurrent := tick }) ∧
      ((c.inject zstd h).1 = true → ∃ bytes,
        c.row { h.channel.encoder with timestampCurrent := c.tick } =
          some ((c.inject zstd h).2.channel.encoder, bytes)) := by
  have hcourse := @AnyCall.course zstd c h
  have hkept := fun h₂ hroom => (@Handle.kept_makeRoom zstd (h.stamped zstd c.tick) h₂ c.textSize
    true hroom).2
  have hstamped := (@Handle.kept_stamped zstd h c.tick).2
  rcases hout : c.inject zstd h with ⟨ok, h'⟩
  rw [hout] at hcourse
  cases hcourse with
  | late hclock => exact ⟨fun _ => ⟨h.channel.base.timestampCurrent, rfl⟩, fun hok => by cases hok⟩
  | long hclock hstamp hlong =>
    subst hstamp
    exact ⟨fun _ => ⟨c.tick, hstamped⟩, fun hok => by cases hok⟩
  | crowded hclock hstamp hshort hroom =>
    subst hstamp
    exact ⟨fun _ => ⟨c.tick, (Handle.kept_makeRoom hroom).2.trans hstamped⟩,
      fun hok => by cases hok⟩
  | unfit hclock hstamp hshort hroom hrow =>
    subst hstamp
    exact ⟨fun _ => ⟨c.tick, (Handle.kept_makeRoom hroom).2.trans hstamped⟩,
      fun hok => by cases hok⟩
  | @written h₁ h₂ enc bytes hclock hstamp hshort hroom hrow =>
    subst hstamp
    refine ⟨fun hok => (by cases hok), fun _ => ⟨bytes, ?_⟩⟩
    rw [(Handle.kept_makeRoom hroom).2, hstamped] at hrow
    rw [hrow, AnyCall.encoder_settle]
    rfl

/-! ### Runs -/

/-- The states of a channel with the calls it has accepted: any injects and flushes, and
any calls on the pack's other channels in between. -/
inductive Reached (zstd : Zstd) (h₀ : Handle) : Handle → List AnyCall → Prop
  | start : Reached zstd h₀ h₀ []
  | accepted {h : Handle} {calls : List AnyCall} (c : AnyCall) (hr : Reached zstd h₀ h calls)
      (hok : (c.inject zstd h).1 = true) : Reached zstd h₀ (c.inject zstd h).2 (calls ++ [c])
  | refused {h : Handle} {calls : List AnyCall} (c : AnyCall) (hr : Reached zstd h₀ h calls)
      (hok : (c.inject zstd h).1 = false) : Reached zstd h₀ (c.inject zstd h).2 calls
  | flush {h : Handle} {calls : List AnyCall} (hr : Reached zstd h₀ h calls) :
      Reached zstd h₀ (h.channelFlush zstd).2 calls
  | others {h : Handle} {calls : List AnyCall} (parent : Parent) (hr : Reached zstd h₀ h calls) :
      Reached zstd h₀ { h with parent := parent } calls

namespace Encoder

/-- The dictionary after some calls, as a list. -/
structure Holds (enc : Encoder) (calls : List AnyCall) (slots : List Slot) : Prop where
  registered : enc.Registered slots
  names : slots.map Slot.name = (sensorNames calls).map CStr.bytes
  held : ∀ sensorName first later, callsFor calls sensorName = first :: later →
    ⟨sensorName.bytes, held first later⟩ ∈ slots

variable {enc : Encoder} {calls : List AnyCall} {slots : List Slot}

/-- All injects enter a sensor alike, as long as its index is new. -/
theorem insert_anyCall (c : AnyCall) (hregistered : enc.Registered slots)
    (hfew : slots.length < 65536) (o unit : CStr) :
    c.injection.insert enc.cache o unit enc.totalEntries =
      Channel.entryInsertRoutine enc.cache o unit enc.totalEntries c.entered := by
  unfold AnyCall.injection AnyCall.entered
  cases hvalue : c.value with
  | scalar value =>
    exact Channel.insert_injection (c.scalar value) enc.cache o unit enc.totalEntries
  | buffer bytes => rfl
  | array aval =>
    have hfresh := hregistered.index_fresh hfew (Channel.hashFunction o.bytes)
    change Channel.entryInsertArray c.stale enc.cache o unit enc.totalEntries = _
    unfold Channel.entryInsertArray
    dsimp only
    rw [hfresh]
    rfl

theorem holds_init : Encoder.init.Holds [] [] :=
  ⟨registered_init, rfl, fun sensorName first later hcalls => by cases hcalls⟩

theorem Holds.tick (hholds : enc.Holds calls slots) (tick : UInt64) :
    Encoder.Holds { enc with timestampCurrent := tick } calls slots :=
  ⟨hholds.registered.tick tick, hholds.names, hholds.held⟩

theorem Holds.mem_names (hholds : enc.Holds calls slots) (sensorName : CStr) :
    sensorName.bytes ∈ slots.map Slot.name ↔ sensorName ∈ sensorNames calls := by
  rw [hholds.names, List.mem_map]
  constructor
  · rintro ⟨name, hmem, hbytes⟩
    rwa [← CStr.ext_bytes hbytes]
  · intro hmem
    exact ⟨sensorName, hmem, rfl⟩

theorem Holds.length_slots (hholds : enc.Holds calls slots) :
    slots.length = (sensorNames calls).length := by
  have hlength := congrArg List.length hholds.names
  rwa [List.length_map, List.length_map] at hlength

/-- **The entry of a sensor** holds what the calls for it left. -/
theorem Holds.entry (hholds : enc.Holds calls slots) {sensorName : CStr} {entry : Entry}
    (hentry : Channel.entryFind enc.cache sensorName = some entry) :
    ∃ first later, callsFor calls sensorName = first :: later ∧
      slots[entry.index.toNat]? = some ⟨sensorName.bytes, Otic.Pack.held first later⟩ ∧
      entry.lastValue = Otic.Pack.held first later := by
  obtain ⟨slot, hslot, hname, hlast⟩ := hholds.registered.position hentry
  have hmem := List.mem_of_getElem? hslot
  have hcalled : sensorName ∈ sensorNames calls := by
    rw [← hholds.mem_names, ← hname]
    exact List.mem_map_of_mem hmem
  cases hcalls : callsFor calls sensorName with
  | nil => exact absurd hcalled (callsFor_eq_nil.mp hcalls)
  | cons first later =>
    have hheld := hholds.held sensorName first later hcalls
    obtain rfl : slot = ⟨sensorName.bytes, Otic.Pack.held first later⟩ :=
      List.inj_on_of_nodup_map hholds.registered.nodup hmem hheld hname
    exact ⟨first, later, rfl, hslot, hlast⟩

theorem Holds.new_iff (hholds : enc.Holds calls slots) (sensorName : CStr) :
    Channel.entryFind enc.cache sensorName = none ↔ sensorName ∉ sensorNames calls := by
  rw [← hholds.mem_names, ← hholds.registered.entryFind_isSome, Bool.not_eq_true,
    Option.isSome_eq_false_iff, Option.isNone_iff_eq_none]

theorem Holds.newRow (hholds : enc.Holds calls slots) {c : AnyCall} {enc' : Encoder}
    {bytes : List UInt8} (hnew : c.sensorName ∉ sensorNames calls)
    (hfew : (sensorNames (calls ++ [c])).length ≤ 65536)
    (hrow : c.newRow enc = some (enc', bytes)) :
    enc'.Holds (calls ++ [c]) (slots ++ [⟨c.sensorName.bytes, c.entered⟩]) := by
  rw [sensorNames_concat, if_neg hnew, List.length_append, List.length_singleton] at hfew
  have hshort : slots.length < 65536 := by
    rw [hholds.length_slots]
    omega
  have habsent : c.sensorName.bytes ∉ slots.map Slot.name := mt (hholds.mem_names _).mp hnew
  unfold AnyCall.newRow at hrow
  split at hrow
  · simp only [Option.some.injEq, Prod.mk.injEq] at hrow
    obtain ⟨rfl, -⟩ := hrow
    rw [insert_anyCall c hholds.registered hshort]
    refine ⟨hholds.registered.insert hshort habsent _ _ _, ?_, ?_⟩
    · rw [sensorNames_concat, if_neg hnew, List.map_append, List.map_append, hholds.names]
      rfl
    · intro sensorName first later hcalls
      rw [callsFor_concat] at hcalls
      split at hcalls
      · rename_i hname
        rw [← hname, callsFor_eq_nil.mpr hnew, List.nil_append] at hcalls
        cases hcalls
        rw [← hname]
        exact List.mem_append_right slots (List.mem_singleton.mpr rfl)
      · exact List.mem_append_left _ (hholds.held sensorName first later hcalls)
  · cases hrow

theorem Holds.knownRow (hholds : enc.Holds calls slots) {c : AnyCall} {entry : Entry}
    (hentry : Channel.entryFind enc.cache c.sensorName = some entry) :
    ∃ slots', (c.knownRow enc entry).1.Holds (calls ++ [c]) slots' := by
  obtain ⟨first, later, hcalls, hslot, hlast⟩ := hholds.entry hentry
  have hcalled : c.sensorName ∈ sensorNames calls := by
    by_contra hnew
    rw [(hholds.new_iff _).mpr hnew] at hentry
    cases hentry
  have hnames : sensorNames (calls ++ [c]) = sensorNames calls := by
    rw [sensorNames_concat, if_pos hcalled]
  have hmore : callsFor (calls ++ [c]) c.sensorName = first :: (later ++ [c]) := by
    rw [callsFor_concat, if_pos rfl, hcalls, List.cons_append]
  have hothers : ∀ sensorName, sensorName ≠ c.sensorName →
      callsFor (calls ++ [c]) sensorName = callsFor calls sensorName := by
    intro sensorName hne
    rw [callsFor_concat, if_neg (fun heq => hne heq.symm)]
  unfold AnyCall.knownRow
  split
  · rename_i hsame
    refine ⟨slots, hholds.registered.countRow _, ?_, ?_⟩
    · rw [hnames]
      exact hholds.names
    · intro sensorName first' later' hcalls'
      by_cases hname : sensorName = c.sensorName
      · subst hname
        rw [hmore] at hcalls'
        cases hcalls'
        rw [held_concat, if_pos (by rw [← hlast]; exact hsame)]
        exact hholds.held _ _ _ hcalls
      · rw [hothers _ hname] at hcalls'
        exact hholds.held _ _ _ hcalls'
  · rename_i hdiffers
    have hset := hholds.registered.setLastValue hslot (o := c.sensorName) rfl c.injection.changed
      (enc.rowCounter + 1)
    have hlt : entry.index.toNat < slots.length := (List.getElem?_eq_some_iff.mp hslot).1
    refine ⟨_, hset, ?_, ?_⟩
    · rw [hnames, ← hholds.names]
      exact map_set_of_eq hslot rfl
    · intro sensorName first' later' hcalls'
      by_cases hname : sensorName = c.sensorName
      · subst hname
        rw [hmore] at hcalls'
        cases hcalls'
        rw [held_concat, if_neg (by rw [← hlast]; exact hdiffers)]
        exact List.mem_of_getElem? (List.getElem?_set_self hlt)
      · rw [hothers _ hname] at hcalls'
        obtain ⟨i, hi⟩ := List.getElem?_of_mem (hholds.held _ _ _ hcalls')
        have hne : entry.index.toNat ≠ i := by
          rintro rfl
          rw [hslot] at hi
          exact hname (CStr.ext_bytes (congrArg Slot.name (Option.some.inj hi)).symm)
        exact List.mem_of_getElem? ((List.getElem?_set_ne hne).trans hi)

/-- **A row** of any inject keeps the list. -/
theorem Holds.row (hholds : enc.Holds calls slots) {c : AnyCall} {enc' : Encoder}
    {bytes : List UInt8} (hfew : (sensorNames (calls ++ [c])).length ≤ 65536)
    (hrow : c.row enc = some (enc', bytes)) : ∃ slots', enc'.Holds (calls ++ [c]) slots' := by
  unfold AnyCall.row at hrow
  split at hrow
  · rename_i hnone
    exact ⟨_, hholds.newRow ((hholds.new_iff _).mp hnone) hfew hrow⟩
  · rename_i entry hentry
    obtain ⟨slots', hslots'⟩ := hholds.knownRow hentry
    rw [Option.some.inj hrow] at hslots'
    exact ⟨slots', hslots'⟩

end Encoder

theorem length_sensorNames_le (calls : List AnyCall) (c : AnyCall) :
    (sensorNames calls).length ≤ (sensorNames (calls ++ [c])).length := by
  rw [sensorNames_concat]
  split
  · exact le_refl _
  · simp

/-- **The dictionary of a channel**, while the names are few. -/
theorem Reached.holds {parent : Parent} {id channelType : UInt8} {bucketSize : UInt32}
    {calls : List AnyCall}
    (hr : Reached zstd ⟨parent, Channel.init id channelType bucketSize⟩ h calls)
    (hfew : (sensorNames calls).length ≤ 65536) : ∃ slots, h.channel.encoder.Holds calls slots := by
  induction hr with
  | start => exact ⟨[], Encoder.holds_init⟩
  | @accepted h calls c hr hok ih =>
    have hle := length_sensorNames_le calls c
    obtain ⟨slots, hslots⟩ := ih (by omega)
    obtain ⟨bytes, hrow⟩ := (encoder_inject c h).2 hok
    exact (hslots.tick c.tick).row hfew hrow
  | @refused h calls c hr hok ih =>
    obtain ⟨slots, hslots⟩ := ih hfew
    obtain ⟨tick, htick⟩ := (encoder_inject c h).1 hok
    rw [htick]
    exact ⟨slots, hslots.tick tick⟩
  | @flush h calls hr ih =>
    rw [(@Handle.kept_channelFlush zstd h).2]
    exact ih hfew
  | others parent hr ih => exact ih hfew

end Otic.Pack
