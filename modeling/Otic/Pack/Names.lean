import Otic.Pack.Encoder

/-!
# The writer's dictionary

Every entry carries an index below the number of names assigned so far, so a row
record always refers to a name the reader has (`Encoder.Counted`, for any number
of names).  While there are at most 65536 names the dictionary is exact: the entry
found under a name carries the position at which the name was assigned
(`Encoder.Registered`).  Past that `totalEntries` has come round and the search by
index in `entryInsertRoutine` can meet an older entry.
-/

namespace Otic.Pack

/-! ### Entering a sensor -/

/-- What the entry of a new sensor holds: integers are cut to 32 bits, strings are
copied without a terminator. -/
def Value.entered : Value → Oval
  | .bool value => if value then .true else .false
  | .intNeg value => .intNeg value.toUInt32.toUInt64
  | .intPos value => .intPos value.toUInt32.toUInt64
  | .double value => .double value
  | .string value => .string value.bytes value.size
  | .null => .null

namespace Channel

/-- Entering the same sensor again changes nothing. -/
theorem entryInsertRoutine_twice (cache : Chained.Table Entry) (o unit : CStr) (index : UInt16)
    (lastValue : Oval) :
    entryInsertRoutine (entryInsertRoutine cache o unit index lastValue) o unit index lastValue =
      entryInsertRoutine cache o unit index lastValue := by
  let hasIndex : Entry → Bool := fun entry => entry.index == index.toUInt32
  have hmodify : ∀ chain : List Entry, chain.any hasIndex = true →
      (Chained.modifyFirst hasIndex (fun entry => { entry with lastValue := lastValue })
        chain).any hasIndex = true ∧
      Chained.modifyFirst hasIndex (fun entry => { entry with lastValue := lastValue })
        (Chained.modifyFirst hasIndex (fun entry => { entry with lastValue := lastValue }) chain) =
      Chained.modifyFirst hasIndex (fun entry => { entry with lastValue := lastValue }) chain := by
    intro chain hany
    induction chain with
    | nil => simp at hany
    | cons entry chain ih =>
      by_cases hentry : hasIndex entry = true
      · have hkept : hasIndex { entry with lastValue := lastValue } = true := hentry
        simp [Chained.modifyFirst, hentry, hkept]
      · have hrest : chain.any hasIndex = true := by simpa [hentry] using hany
        obtain ⟨hany', heq⟩ := ih hrest
        simp [Chained.modifyFirst, hentry, hany', heq]
  conv_lhs => unfold entryInsertRoutine
  unfold entryInsertRoutine
  by_cases hany : (cache (hashFunction o.bytes)).any hasIndex = true
  · obtain ⟨hany', heq⟩ := hmodify _ hany
    have hany'' : (Chained.modify cache (hashFunction o.bytes) hasIndex
        (fun entry => { entry with lastValue := lastValue }) (hashFunction o.bytes)).any
          hasIndex = true := by
      simpa [Chained.modify] using hany'
    rw [if_pos hany, if_pos hany'']
    funext bucket
    by_cases hbucket : bucket = hashFunction o.bytes
    · simp only [Chained.modify, if_pos hbucket]
      rw [hbucket]
      exact heq
    · simp only [Chained.modify, if_neg hbucket]
  · rw [if_neg hany]
    have hany' : (Chained.push cache (hashFunction o.bytes)
        ⟨index.toUInt32, o.bytes ++ 0 :: (unit.bytes ++ [0]), lastValue⟩
          (hashFunction o.bytes)).any hasIndex = true := by
      simp [Chained.push, hasIndex]
    rw [if_pos hany']
    funext bucket
    by_cases hbucket : bucket = hashFunction o.bytes
    · simp [Chained.modify, Chained.push, Chained.modifyFirst, if_pos hbucket]
    · simp only [Chained.modify, Chained.push, if_neg hbucket]

/-- All injects enter a sensor alike, `inject_n` twice to the same effect. -/
theorem insert_injection (c : Call) (cache : Chained.Table Entry) (o unit : CStr)
    (index : UInt16) :
    c.injection.insert cache o unit index =
      entryInsertRoutine cache o unit index c.value.entered := by
  unfold Call.injection Value.entered
  cases c.value with
  | null => exact entryInsertRoutine_twice cache o unit index .null
  | bool value => rfl
  | intNeg value => rfl
  | intPos value => rfl
  | double value => rfl
  | string value => rfl

@[simp] theorem key_mk (index : UInt32) (o : CStr) (rest : List UInt8) (lastValue : Oval) :
    key ⟨index, o.bytes ++ 0 :: rest, lastValue⟩ = o.bytes :=
  Bytes.untilZero_append_zero o.nulFree rest

/-- Entering and changing keep what is true of the indices. -/
theorem all_entryInsertRoutine {P : UInt32 → Prop} {cache : Chained.Table Entry}
    (h : Chained.All (fun entry => P entry.index) cache) (o unit : CStr) {index : UInt16}
    (hindex : P index.toUInt32) (lastValue : Oval) :
    Chained.All (fun entry => P entry.index)
      (entryInsertRoutine cache o unit index lastValue) := by
  unfold entryInsertRoutine
  dsimp only
  split
  · exact h.modify _ _ fun _ hentry => hentry
  · exact h.push _ hindex

theorem all_setLastValue {P : UInt32 → Prop} {cache : Chained.Table Entry}
    (h : Chained.All (fun entry => P entry.index) cache) (o : CStr) (lastValue : Oval) :
    Chained.All (fun entry => P entry.index) (setLastValue cache o lastValue) :=
  h.modify _ _ fun _ hentry => hentry

end Channel

/-! ### Indices are in range -/

/-- The counters of an encoder after `n` names were assigned. -/
structure Encoder.Counted (enc : Encoder) (n : Nat) : Prop where
  total : enc.totalEntries.toNat = n % 65536
  index : Chained.All (fun entry => entry.index.toNat < n) enc.cache

namespace Encoder

variable {enc : Encoder} {n : Nat}

theorem counted_init : Encoder.init.Counted 0 :=
  ⟨rfl, fun _ entry hentry => by simp [Encoder.init] at hentry⟩

theorem Counted.tick (h : enc.Counted n) (tick : UInt64) :
    Encoder.Counted { enc with timestampCurrent := tick } n := ⟨h.total, h.index⟩

theorem toNat_succ_total (h : enc.Counted n) :
    (enc.totalEntries + 1).toNat = (n + 1) % 65536 := by
  rw [UInt16.toNat_add, h.total, UInt16.toNat_one]
  omega

theorem names_record (value : Value) (index : UInt32) (n : Nat) :
    (value.record index).names n = n := by
  cases value with
  | bool b => cases b <;> rfl
  | intPos v => simp only [Value.record]; split <;> rfl
  | intNeg v | double v | string v | null => rfl

theorem index?_record (value : Value) (index : UInt32) :
    (value.record index).index? = some index := by
  cases value with
  | bool b => cases b <;> rfl
  | intPos v => simp only [Value.record]; split <;> rfl
  | intNeg v | double v | string v | null => rfl

theorem assigned?_record (value : Value) (index : UInt32) :
    (value.record index).assigned? = none := by
  cases value with
  | bool b => cases b <;> rfl
  | intPos v => simp only [Value.record]; split <;> rfl
  | intNeg v | double v | string v | null => rfl

theorem valid_record {value : Value} {index : UInt32} {n : Nat} (h : index.toNat < n) :
    (value.record index).Valid n := by
  intro i hi
  rw [index?_record, Option.some_inj] at hi
  rwa [← hi]

/-- A row keeps the counters and refers to names that are there. -/
theorem Counted.row (h : enc.Counted n) {c : Call} {enc' : Encoder} {records : List Record}
    (hrow : enc.row c = some (enc', records)) :
    enc'.Counted (namesAfter n records) ∧ ValidFrom n records := by
  unfold Encoder.row at hrow
  split at hrow
  · unfold Encoder.newRow at hrow
    split at hrow
    · simp only [Option.some.injEq, Prod.mk.injEq] at hrow
      obtain ⟨rfl, rfl⟩ := hrow
      have hindex : enc.totalEntries.toUInt32.toNat < n + 1 := by
        have htotal := h.total
        rw [UInt16.toNat_toUInt32]
        omega
      refine ⟨?_, ?_⟩
      · rw [namesAfter_cons, namesAfter_cons, namesAfter_nil, names_record]
        refine ⟨toNat_succ_total h, ?_⟩
        dsimp only [Record.names]
        rw [Channel.insert_injection]
        have hmore : Chained.All (fun entry => entry.index.toNat < n + 1) enc.cache :=
          h.index.imp fun entry hentry => by omega
        exact @Channel.all_entryInsertRoutine (fun i => i.toNat < n + 1) _ hmore _ _ _ hindex _
      · exact ⟨fun i hi => by simp [Record.index?] at hi, valid_record hindex, trivial⟩
    · cases hrow
  · rename_i entry hentry
    have hindex : entry.index.toNat < n := h.index.of_find hentry
    unfold Encoder.knownRow at hrow
    split at hrow
    · simp only [Option.some.injEq, Prod.mk.injEq] at hrow
      obtain ⟨rfl, rfl⟩ := hrow
      refine ⟨⟨h.total, h.index⟩, ?_, trivial⟩
      intro i hi
      simp only [Record.index?, Option.some_inj] at hi
      rwa [← hi]
    · simp only [Option.some.injEq, Prod.mk.injEq] at hrow
      obtain ⟨rfl, rfl⟩ := hrow
      simp only [namesAfter_cons, namesAfter_nil, names_record]
      refine ⟨⟨h.total, ?_⟩, valid_record hindex, trivial⟩
      exact @Channel.all_setLastValue (fun i => i.toNat < n) _ h.index _ _

theorem clock_plain {tick : UInt64} {records : List Record} (h : enc.clock tick = some records)
    (n : Nat) : namesAfter n records = n ∧ ValidFrom n records := by
  unfold Encoder.clock at h
  split at h
  · obtain rfl := Option.some.inj h
    exact ⟨rfl, trivial⟩
  · split at h
    · obtain rfl := Option.some.inj h
      exact ⟨rfl, fun i hi => by simp [Record.index?] at hi, trivial⟩
    · split at h
      · cases h
      · obtain rfl := Option.some.inj h
        exact ⟨rfl, fun i hi => by simp [Record.index?] at hi, trivial⟩

/-- **A call** keeps the counters, and what it writes can be read. -/
theorem Counted.inject (h : enc.Counted n) (limit : Nat) (c : Call) :
    (enc.inject limit c).encoder.Counted (namesAfter n (enc.inject limit c).records) ∧
      ValidFrom n (enc.inject limit c).records := by
  unfold Encoder.inject
  cases hclock : enc.clock c.tick with
  | none => exact ⟨h, trivial⟩
  | some clock =>
    obtain ⟨hnames, hvalid⟩ := clock_plain hclock n
    dsimp only
    split
    · dsimp only
      rw [hnames]
      exact ⟨h.tick _, hvalid⟩
    · cases hrow : Encoder.row { enc with timestampCurrent := c.tick } c with
      | none =>
        dsimp only
        rw [hnames]
        exact ⟨h.tick _, hvalid⟩
      | some out =>
        obtain ⟨hcounted, hvalid'⟩ := (h.tick c.tick).row hrow
        dsimp only
        rw [namesAfter_append, validFrom_append, hnames]
        exact ⟨hcounted, hvalid, hvalid'⟩

/-- **A run** of calls can be read: every index refers to a name written before. -/
theorem Counted.run (limit : Nat) (cs : List Call) : ∀ {enc : Encoder} {n : Nat},
    enc.Counted n →
      (enc.run limit cs).encoder.Counted (namesAfter n (enc.run limit cs).records) ∧
        ValidFrom n (enc.run limit cs).records := by
  induction cs with
  | nil => exact fun h => ⟨h, trivial⟩
  | cons c cs ih =>
    intro enc n h
    obtain ⟨hfirst, hvalid⟩ := h.inject limit c
    obtain ⟨hlater, hvalid'⟩ := ih hfirst
    simp only [Encoder.run]
    rw [namesAfter_append, validFrom_append]
    exact ⟨hlater, hvalid, hvalid'⟩

/-! ### The dictionary as a list -/

/-- An entry without its place in the table. -/
structure Slot where
  name : List UInt8
  lastValue : Oval

/-- The entry under a name. -/
def lookup (enc : Encoder) (name : List UInt8) : Option Entry :=
  Chained.find Channel.hashFunction Channel.key enc.cache name

/-- The dictionary holds exactly these slots, each under its name and with its
position for an index. -/
structure Registered (enc : Encoder) (slots : List Slot) : Prop where
  counted : enc.Counted slots.length
  few : slots.length ≤ 65536
  nodup : (slots.map Slot.name).Nodup
  absent : ∀ name, name ∉ slots.map Slot.name → enc.lookup name = none
  found : ∀ i slot, slots[i]? = some slot → ∃ entry, enc.lookup slot.name = some entry ∧
    entry.index.toNat = i ∧ entry.lastValue = slot.lastValue

variable {slots : List Slot}

theorem registered_init : Encoder.init.Registered [] where
  counted := counted_init
  few := by simp
  nodup := by simp
  absent := fun _ _ => rfl
  found := by simp

theorem Registered.tick (h : enc.Registered slots) (tick : UInt64) :
    Encoder.Registered { enc with timestampCurrent := tick } slots :=
  ⟨h.counted.tick tick, h.few, h.nodup, h.absent, h.found⟩

theorem Registered.countRow (h : enc.Registered slots) (count : UInt64) :
    Encoder.Registered { enc with rowCounter := count } slots :=
  ⟨⟨h.counted.total, h.counted.index⟩, h.few, h.nodup, h.absent, h.found⟩

/-- The entry of a sensor has its slot's position for an index. -/
theorem Registered.position (h : enc.Registered slots) {o : CStr} {entry : Entry}
    (hentry : Channel.entryFind enc.cache o = some entry) :
    ∃ slot, slots[entry.index.toNat]? = some slot ∧ slot.name = o.bytes ∧
      entry.lastValue = slot.lastValue := by
  have hlookup : enc.lookup o.bytes = some entry := hentry
  have hmem : o.bytes ∈ slots.map Slot.name := by
    by_contra habsent
    rw [h.absent _ habsent] at hlookup
    cases hlookup
  obtain ⟨slot, hslotMem, hname⟩ := List.mem_map.mp hmem
  obtain ⟨i, hslot⟩ := List.getElem?_of_mem hslotMem
  obtain ⟨entry', hentry', hindex, hlast⟩ := h.found i slot hslot
  rw [hname, hlookup, Option.some_inj] at hentry'
  subst hentry'
  subst hindex
  exact ⟨slot, hslot, hname, hlast⟩

theorem Registered.entryFind_isSome (h : enc.Registered slots) (o : CStr) :
    (Channel.entryFind enc.cache o).isSome ↔ o.bytes ∈ slots.map Slot.name := by
  constructor
  · intro hsome
    obtain ⟨entry, hentry⟩ := Option.isSome_iff_exists.mp hsome
    obtain ⟨slot, hslot, hname, -⟩ := h.position hentry
    exact List.mem_map.mpr ⟨slot, List.mem_of_getElem? hslot, hname⟩
  · intro hmem
    obtain ⟨slot, hslotMem, hname⟩ := List.mem_map.mp hmem
    obtain ⟨i, hslot⟩ := List.getElem?_of_mem hslotMem
    obtain ⟨entry, hentry, -⟩ := h.found i slot hslot
    rw [hname] at hentry
    exact Option.isSome_iff_exists.mpr ⟨entry, hentry⟩

theorem Registered.index_fresh (h : enc.Registered slots) (hfew : slots.length < 65536)
    (bucket : Nat) :
    ((enc.cache bucket).any fun entry => entry.index == enc.totalEntries.toUInt32) = false := by
  have htotal : enc.totalEntries.toUInt32.toNat = slots.length := by
    rw [UInt16.toNat_toUInt32, h.counted.total, Nat.mod_eq_of_lt hfew]
  rw [List.any_eq_false]
  intro entry hentry heq
  have hbelow := h.counted.index _ entry hentry
  rw [beq_iff_eq] at heq
  rw [heq, htotal] at hbelow
  omega

theorem Registered.insert_eq_push (h : enc.Registered slots) (hfew : slots.length < 65536)
    (o unit : CStr) (lastValue : Oval) :
    Channel.entryInsertRoutine enc.cache o unit enc.totalEntries lastValue =
      Chained.push enc.cache (Channel.hashFunction o.bytes)
        ⟨enc.totalEntries.toUInt32, o.bytes ++ 0 :: (unit.bytes ++ [0]), lastValue⟩ := by
  have hfresh := h.index_fresh hfew (Channel.hashFunction o.bytes)
  unfold Channel.entryInsertRoutine
  dsimp only
  rw [hfresh]
  rfl

/-- **A new sensor** takes the next position. -/
theorem Registered.insert (h : enc.Registered slots) (hfew : slots.length < 65536) {o : CStr}
    (habsent : o.bytes ∉ slots.map Slot.name) (unit : CStr) (lastValue : Oval) (count : UInt64) :
    Encoder.Registered
      { enc with
        cache := Channel.entryInsertRoutine enc.cache o unit enc.totalEntries lastValue
        totalEntries := enc.totalEntries + 1
        rowCounter := count }
      (slots ++ [⟨o.bytes, lastValue⟩]) := by
  have htotal : enc.totalEntries.toUInt32.toNat = slots.length := by
    rw [UInt16.toNat_toUInt32, h.counted.total, Nat.mod_eq_of_lt hfew]
  have hindex : enc.totalEntries.toUInt32.toNat < slots.length + 1 := by omega
  have hkey := Channel.key_mk enc.totalEntries.toUInt32 o (unit.bytes ++ [0]) lastValue
  -- every other name finds what it found before
  have hother : ∀ name, name ≠ o.bytes → Chained.find Channel.hashFunction Channel.key
      (Channel.entryInsertRoutine enc.cache o unit enc.totalEntries lastValue) name =
        enc.lookup name := by
    intro name hname
    rw [h.insert_eq_push hfew]
    exact Chained.find_push_of_ne _ _ _ _ (by rw [hkey]; exact hname.symm)
  refine ⟨⟨?_, ?_⟩, ?_, ?_, ?_, ?_⟩
  · simpa using toNat_succ_total h.counted
  · have hmore : Chained.All (fun entry => entry.index.toNat < slots.length + 1) enc.cache :=
      h.counted.index.imp fun entry hentry => by omega
    rw [List.length_append, List.length_singleton]
    exact @Channel.all_entryInsertRoutine (fun i => i.toNat < slots.length + 1) _ hmore _ _ _
      hindex _
  · simp only [List.length_append, List.length_singleton]
    omega
  · simpa [List.nodup_append] using
      ⟨h.nodup, fun slot hslot heq => habsent (List.mem_map.mpr ⟨slot, hslot, heq⟩)⟩
  · intro name hname
    simp only [List.map_append, List.map_cons, List.map_nil, List.mem_append, List.mem_singleton,
      not_or] at hname
    exact (hother name hname.2).trans (h.absent name hname.1)
  · intro i slot hslot
    by_cases hi : i < slots.length
    · rw [List.getElem?_append_left hi] at hslot
      obtain ⟨entry, hentry, hrest⟩ := h.found i slot hslot
      have hne : slot.name ≠ o.bytes := fun heq =>
        habsent (List.mem_map.mpr ⟨slot, List.mem_of_getElem? hslot, heq⟩)
      exact ⟨entry, (hother slot.name hne).trans hentry, hrest⟩
    · rw [List.getElem?_append_right (by omega)] at hslot
      obtain ⟨hlast, rfl⟩ : i - slots.length = 0 ∧ (⟨o.bytes, lastValue⟩ : Slot) = slot := by
        cases hk : i - slots.length with
        | zero => simpa [hk] using hslot
        | succ k => simp [hk] at hslot
      refine ⟨⟨enc.totalEntries.toUInt32, o.bytes ++ 0 :: (unit.bytes ++ [0]), lastValue⟩, ?_,
        by dsimp only; omega, rfl⟩
      have hself := Chained.find_push_self Channel.hashFunction Channel.key enc.cache
        ⟨enc.totalEntries.toUInt32, o.bytes ++ 0 :: (unit.bytes ++ [0]), lastValue⟩
      rw [hkey] at hself
      unfold lookup
      dsimp only
      rw [h.insert_eq_push hfew]
      exact hself

/-- **A changed value** of a known sensor changes its slot alone. -/
theorem Registered.setLastValue (h : enc.Registered slots) {i : Nat} {slot : Slot}
    (hslot : slots[i]? = some slot) {o : CStr} (ho : slot.name = o.bytes) (lastValue : Oval)
    (count : UInt64) :
    Encoder.Registered
      { enc with
        cache := Channel.setLastValue enc.cache o lastValue
        rowCounter := count }
      (slots.set i ⟨slot.name, lastValue⟩) := by
  have hi : i < slots.length := (List.getElem?_eq_some_iff.mp hslot).1
  have hnames : (slots.set i ⟨slot.name, lastValue⟩).map Slot.name = slots.map Slot.name :=
    map_set_of_eq hslot rfl
  have hkept : ∀ entry : Entry, Channel.key { entry with lastValue := lastValue } =
      Channel.key entry := fun _ => rfl
  have hother : ∀ name, name ≠ o.bytes → Chained.find Channel.hashFunction Channel.key
      (Channel.setLastValue enc.cache o lastValue) name = enc.lookup name :=
    fun name hname => Chained.find_modify_of_ne _ _ _ _ hname hkept
  have hself : Chained.find Channel.hashFunction Channel.key
      (Channel.setLastValue enc.cache o lastValue) o.bytes =
        (enc.lookup o.bytes).map fun entry => { entry with lastValue := lastValue } :=
    Chained.find_modify_self _ _ _ _ hkept
  refine ⟨⟨?_, ?_⟩, ?_, ?_, ?_, ?_⟩
  · simpa using h.counted.total
  · rw [List.length_set]
    exact @Channel.all_setLastValue (fun j => j.toNat < slots.length) _ h.counted.index _ _
  · rw [List.length_set]
    exact h.few
  · rw [hnames]
    exact h.nodup
  · intro name hname
    rw [hnames] at hname
    have hne : name ≠ o.bytes := fun heq => hname
      (List.mem_map.mpr ⟨slot, List.mem_of_getElem? hslot, by rw [heq, ho]⟩)
    exact (hother name hne).trans (h.absent name hname)
  · intro j slot' hslot'
    by_cases hij : i = j
    · subst hij
      rw [List.getElem?_set_self hi, Option.some_inj] at hslot'
      subst hslot'
      obtain ⟨entry, hentry, hentryIndex, -⟩ := h.found i slot hslot
      refine ⟨{ entry with lastValue := lastValue }, ?_, hentryIndex, rfl⟩
      unfold lookup
      dsimp only
      rw [ho] at hentry ⊢
      rw [hself, hentry]
      rfl
    · rw [List.getElem?_set_ne hij] at hslot'
      obtain ⟨entry, hentry, hrest⟩ := h.found j slot' hslot'
      refine ⟨entry, (hother slot'.name fun heq => hij ?_).trans hentry, hrest⟩
      -- two positions with one name are the same
      have hnamei : (slots.map Slot.name)[i]? = some o.bytes := by simp [hslot, ho]
      have hnamej : (slots.map Slot.name)[j]? = some o.bytes := by simp [hslot', heq]
      exact (List.getElem?_inj (by simpa using hi) h.nodup).mp (hnamei.trans hnamej.symm)

end Encoder

end Otic.Pack
