import Otic.Unpack.Channel

/-!
# The dictionary of the reader grows (`unpack.c`)

`otic_unpack_insert_entry` with its three counters and its scan for the zero byte between
a name and its unit.  Memory is there for every block that is asked for; as every entry
is a block of its own, `totalEntries` and `cache_allocated` stay far below 2^61, where the
size of the block of slots would pass 2^64.
-/

namespace Otic.Unpack

/-- The members of `cache` that a name record changes; `cache` is the block of slots. -/
structure Dictionary where
  cache : List (Option Entry)
  totalEntries : ℕ
  allocationLeft : UInt8
  cacheAllocated : ℕ

namespace Dictionary

/-- `otic_unpack_channel_init`. -/
def empty : Dictionary := ⟨[], 0, 0, 0⟩

/-- The loop that sets so many slots to null, from `counter` on. -/
def setNull : (slots counter : ℕ) → List (Option Entry) → List (Option Entry)
  | 0, _, cache => cache
  | slots + 1, counter, cache => setNull slots (counter + 1) (cache.set counter none)

/-- The reallocation at the head of `otic_unpack_insert_entry`; `stale` is what the memory
behind so many slots held. -/
def grow (d : Dictionary) (stale : ℕ → Fin 8 → Option Entry) : Dictionary :=
  if d.allocationLeft = 0 then
    { d with
      cache := setNull OTIC_UNPACK_CACHE_ALLOCATION_RESERVE_SIZE d.cacheAllocated
        (d.cache ++ List.ofFn (stale d.cacheAllocated))
      allocationLeft := UInt8.ofNat OTIC_UNPACK_CACHE_ALLOCATION_RESERVE_SIZE
      cacheAllocated := d.cacheAllocated + OTIC_UNPACK_CACHE_ALLOCATION_RESERVE_SIZE }
  else d

/-- `while (ptr <= end)`, with so many bytes up to `end`: how far `ptr` gets. -/
def scan : (left : ℕ) → List UInt8 → Exec ℕ
  | 0, _ => .ok 0
  | _ + 1, [] => .error .overread
  | left + 1, b :: bytes =>
      if b = 0 then .ok 1
      else do
        let ptr ← scan left bytes
        .ok (ptr + 1)

/-- `cache[totalEntries] = entry`, and one slot less is left. -/
def store (d : Dictionary) (entry : Entry) : Exec Dictionary :=
  if d.totalEntries < d.cache.length then
    .ok { d with
      cache := d.cache.set d.totalEntries (some entry)
      allocationLeft := d.allocationLeft - 1 }
  else .error .badIndex

/-- The entry of a name and a unit at `index`, each with its terminator. -/
def entry (toFetch : List UInt64) (index : ℕ) (name unit : List UInt8) : Entry where
  index := UInt32.ofNat index
  name := name ++ [0]
  unit := unit ++ [0]
  value := .eof
  ignore := !toFetch.contains (hashBytes (Bytes.untilZero (name ++ [0])))

/-- `otic_unpack_insert_entry` on the bytes from `value`, with `end = value + length`. -/
def insertEntry (d : Dictionary) (stale : ℕ → Fin 8 → Option Entry) (toFetch : List UInt64)
    (value : List UInt8) (length : ℕ) : Exec Dictionary := do
  let d := d.grow stale
  let lengthValue ← scan (length + 1) value
  if length < lengthValue then .error .negativeUnit
  else if value.length < length then .error .overread
  else
    d.store (entry toFetch d.totalEntries (value.take lengthValue)
      ((value.take length).drop lengthValue))

/-- `otic_unpack_read_nameAssign`, and where `base.top` is then. -/
def readNameAssign (d : Dictionary) (stale : ℕ → Fin 8 → Option Entry) (toFetch : List UInt64)
    (top : List UInt8) : Exec (Dictionary × List UInt8) := do
  let (length, top) ← Channel.takeByte top
  let d ← d.insertEntry stale toFetch top length.toNat
  .ok ({ d with totalEntries := d.totalEntries + 1 }, top.drop length.toNat)

end Dictionary

/-- The payload of a name record and what follows it. -/
structure NameRecord where
  name : List UInt8
  unit : List UInt8
  rest : List UInt8
  name_zero : (0 : UInt8) ∉ name
  unit_zero : (0 : UInt8) ∉ unit
  fits : name.length + unit.length + 1 ≤ UINT8_MAX

/-- The bytes from the length byte on. -/
def NameRecord.bytes (record : NameRecord) : List UInt8 :=
  UInt8.ofNat (record.name.length + record.unit.length + 1) ::
    (record.name ++ 0 :: (record.unit ++ record.rest))

namespace Dictionary

/-- The name records that the reader comes upon, one after the other; the places of
`base.top` behind them are listed. -/
def readNames (toFetch : List UInt64) (stale : ℕ → Fin 8 → Option Entry) :
    Dictionary → List NameRecord → Exec (Dictionary × List (List UInt8))
  | d, [] => .ok (d, [])
  | d, record :: records => do
      let (d, top) ← d.readNameAssign stale toFetch record.bytes
      let (d, tops) ← readNames toFetch stale d records
      .ok (d, top :: tops)

/-! ### One record -/

theorem setNull_append (stale : List (Option Entry)) : ∀ cache : List (Option Entry),
    setNull stale.length cache.length (cache ++ stale) =
      cache ++ List.replicate stale.length none := by
  induction stale with
  | nil => exact fun cache => rfl
  | cons slot stale ih =>
    intro cache
    have hset : (cache ++ slot :: stale).set cache.length none = (cache ++ [none]) ++ stale := by
      rw [List.set_append_right _ _ (le_refl _), Nat.sub_self, List.append_assoc]
      rfl
    have hlength : cache.length + 1 = (cache ++ [none]).length := by simp
    rw [List.length_cons, setNull, hset, hlength, ih, List.append_assoc, List.replicate_succ]
    rfl

/-- The scan stops behind the zero byte that ends the name. -/
theorem scan_name {name : List UInt8} (hname : (0 : UInt8) ∉ name) (rest : List UInt8) :
    ∀ left, name.length < left → scan left (name ++ 0 :: rest) = .ok (name.length + 1) := by
  induction name with
  | nil =>
    intro left hleft
    obtain ⟨left, rfl⟩ : ∃ k, left = k + 1 := ⟨left - 1, by simp at hleft; omega⟩
    rfl
  | cons b name ih =>
    intro left hleft
    rw [List.length_cons] at hleft
    obtain ⟨left, rfl⟩ : ∃ k, left = k + 1 := ⟨left - 1, by omega⟩
    rw [List.mem_cons, not_or] at hname
    rw [List.cons_append, scan, if_neg (Ne.symm hname.1), ih hname.2 left (by omega)]
    rfl

/-- The entry of a record. -/
def entryOf (toFetch : List UInt64) (index : ℕ) (record : NameRecord) : Entry :=
  entry toFetch index (record.name ++ [0]) record.unit

/-- The dictionary after the records: an entry for each, and null in the other slots. -/
structure Grown (toFetch : List UInt64) (records : List NameRecord) (d : Dictionary) : Prop where
  totalEntries : d.totalEntries = records.length
  allocated : d.cacheAllocated = d.totalEntries + d.allocationLeft.toNat
  multiple : 8 ∣ d.cacheAllocated
  left : d.allocationLeft.toNat ≤ 8
  cache : d.cache = records.mapIdx (fun i record => some (entryOf toFetch i record)) ++
    List.replicate d.allocationLeft.toNat none

theorem grown_empty (toFetch : List UInt64) : Grown toFetch [] empty :=
  ⟨rfl, rfl, dvd_zero 8, by decide, rfl⟩

/-- After the reallocation there is a slot left. -/
theorem Grown.grow {toFetch : List UInt64} {records : List NameRecord} {d : Dictionary}
    (h : Grown toFetch records d) (stale : ℕ → Fin 8 → Option Entry) :
    Grown toFetch records (d.grow stale) ∧ 0 < (d.grow stale).allocationLeft.toNat := by
  unfold Dictionary.grow
  by_cases hleft : d.allocationLeft = 0
  · rw [if_pos hleft]
    have hnone : d.allocationLeft.toNat = 0 := by rw [hleft]; rfl
    have hallocated := h.allocated
    rw [hnone, Nat.add_zero] at hallocated
    have hcache := h.cache
    rw [hnone, List.replicate_zero, List.append_nil] at hcache
    have hlength : d.cacheAllocated = d.cache.length := by
      rw [hallocated, h.totalEntries, hcache, List.length_mapIdx]
    have height : (UInt8.ofNat OTIC_UNPACK_CACHE_ALLOCATION_RESERVE_SIZE).toNat = 8 := rfl
    refine ⟨⟨h.totalEntries, ?_, ?_, height.le, ?_⟩, Nat.lt_of_sub_eq_succ height⟩
    · rw [hallocated]
      rfl
    · exact Nat.dvd_add h.multiple (dvd_refl 8)
    · have hnull := setNull_append (List.ofFn (stale d.cache.length)) d.cache
      rw [List.length_ofFn] at hnull
      rw [hlength, ← hcache]
      exact hnull
  · rw [if_neg hleft]
    refine ⟨h, Nat.pos_of_ne_zero fun hzero => hleft ?_⟩
    exact UInt8.toNat_inj.mp hzero

theorem Grown.store {toFetch : List UInt64} {records : List NameRecord} {d : Dictionary}
    (h : Grown toFetch records d) (hleft : 0 < d.allocationLeft.toNat) (record : NameRecord) :
    ∃ d', d.store (entryOf toFetch d.totalEntries record) = .ok d' ∧
      d'.totalEntries = d.totalEntries ∧
      Grown toFetch (records ++ [record]) { d' with totalEntries := d'.totalEntries + 1 } := by
  have hlength : d.cache.length = records.length + d.allocationLeft.toNat := by
    rw [h.cache, List.length_append, List.length_mapIdx, List.length_replicate]
  have htotal := h.totalEntries
  unfold Dictionary.store
  rw [if_pos (by omega)]
  have hone : (1 : UInt8).toNat = 1 := rfl
  have hsub : (d.allocationLeft - 1).toNat = d.allocationLeft.toNat - 1 := by
    rw [UInt8.toNat_sub_of_le, hone]
    rw [UInt8.le_iff_toNat_le, hone]
    omega
  refine ⟨_, rfl, rfl, ?_, ?_, h.multiple, ?_, ?_⟩
  · simp only [List.length_append, List.length_singleton, htotal]
  · have hallocated := h.allocated
    simp only [hsub]
    omega
  · simp only [hsub]
    exact le_trans (Nat.sub_le _ _) h.left
  · obtain ⟨k, hk⟩ : ∃ k, d.allocationLeft.toNat = k + 1 := ⟨d.allocationLeft.toNat - 1, by omega⟩
    have hcache := h.cache
    simp only [hsub]
    rw [hk, List.replicate_succ] at hcache
    rw [hk, hcache, htotal, List.mapIdx_append, List.set_append_right _ _ (by simp)]
    simp

/-- One record more: the dictionary has grown by its entry, and `base.top` is behind it. -/
theorem Grown.readNameAssign {toFetch : List UInt64} {records : List NameRecord} {d : Dictionary}
    (h : Grown toFetch records d) (stale : ℕ → Fin 8 → Option Entry) (record : NameRecord) :
    ∃ d', d.readNameAssign stale toFetch record.bytes = .ok (d', record.rest) ∧
      Grown toFetch (records ++ [record]) d' := by
  obtain ⟨hgrown, hleft⟩ := h.grow stale
  obtain ⟨d', hstore, htotal, hgrown'⟩ := hgrown.store hleft record
  have hfits := record.fits
  rw [UINT8_MAX] at hfits
  have hlength : (UInt8.ofNat (record.name.length + record.unit.length + 1)).toNat =
      record.name.length + record.unit.length + 1 := by
    rw [UInt8.toNat_ofNat', Nat.mod_eq_of_lt (by omega)]
  have hvalue : record.name ++ 0 :: (record.unit ++ record.rest) =
      (record.name ++ [0] ++ record.unit) ++ record.rest := by simp
  have hscan := scan_name record.name_zero (record.unit ++ record.rest)
    (record.name.length + record.unit.length + 1 + 1) (by omega)
  have htakeName : (record.name ++ 0 :: (record.unit ++ record.rest)).take
      (record.name.length + 1) = record.name ++ [0] := by
    rw [hvalue, List.append_assoc, List.take_left' (by simp)]
  have htakeUnit : ((record.name ++ 0 :: (record.unit ++ record.rest)).take
      (record.name.length + record.unit.length + 1)).drop (record.name.length + 1) =
      record.unit := by
    rw [hvalue, List.take_left' (by simp; omega), List.drop_left' (by simp)]
  have hdrop : (record.name ++ 0 :: (record.unit ++ record.rest)).drop
      (record.name.length + record.unit.length + 1) = record.rest := by
    rw [hvalue, List.drop_left' (by simp; omega)]
  have hinsert : d.insertEntry stale toFetch (record.name ++ 0 :: (record.unit ++ record.rest))
      (record.name.length + record.unit.length + 1) = .ok d' := by
    unfold insertEntry
    simp only [hscan, Exec.ok_bind]
    rw [if_neg (by omega), if_neg (by simp only [List.length_append, List.length_cons]; omega),
      htakeName, htakeUnit]
    exact hstore
  refine ⟨_, ?_, hgrown'⟩
  unfold Dictionary.readNameAssign NameRecord.bytes
  simp only [Channel.takeByte, Exec.ok_bind, hlength, hinsert, hdrop]

/-- The records of a run: the dictionary has grown by all of them. -/
theorem Grown.readNames {toFetch : List UInt64} (stale : ℕ → Fin 8 → Option Entry)
    (more : List NameRecord) : ∀ {records : List NameRecord} {d : Dictionary},
      Grown toFetch records d →
      ∃ d', readNames toFetch stale d more = .ok (d', more.map (·.rest)) ∧
        Grown toFetch (records ++ more) d' := by
  induction more with
  | nil =>
    intro records d h
    exact ⟨d, rfl, by rwa [List.append_nil]⟩
  | cons record more ih =>
    intro records d h
    obtain ⟨d₁, hread, h₁⟩ := h.readNameAssign stale record
    obtain ⟨d', hmore, h'⟩ := ih h₁
    refine ⟨d', ?_, ?_⟩
    · simp only [Dictionary.readNames, hread, Exec.ok_bind, hmore]
      rfl
    · rwa [List.append_assoc] at h'

/-! ### The slots -/

/-- An entry that holds its record: name and unit as C strings, and whether it is to be
ignored. -/
structure HoldsRecord (toFetch : List UInt64) (record : NameRecord) (entry : Entry) : Prop where
  name : ∃ behind, entry.name = record.name ++ 0 :: behind
  unit : ∃ behind, entry.unit = record.unit ++ 0 :: behind
  ignore : entry.ignore = true ↔ hashBytes record.name ∉ toFetch

theorem holdsRecord_entryOf (toFetch : List UInt64) (index : ℕ) (record : NameRecord) :
    HoldsRecord toFetch record (entryOf toFetch index record) := by
  have hname : Bytes.untilZero (record.name ++ [0] ++ [0]) = record.name := by
    rw [List.append_assoc]
    exact Bytes.untilZero_append_zero record.name_zero [0]
  refine ⟨⟨[0], List.append_assoc _ _ _⟩, ⟨[], rfl⟩, ?_⟩
  simp only [entryOf, entry, hname, Bool.not_eq_true']
  rw [← Bool.not_eq_true, List.contains_iff_mem]

theorem Grown.slot {toFetch : List UInt64} {records : List NameRecord} {d : Dictionary}
    (h : Grown toFetch records d) {i : ℕ} {record : NameRecord} (hi : records[i]? = some record) :
    d.cache[i]? = some (some (entryOf toFetch i record)) := by
  have hlt : i < records.length := (List.getElem?_eq_some_iff.mp hi).1
  rw [h.cache, List.getElem?_append_left (by rwa [List.length_mapIdx]), List.getElem?_mapIdx, hi]
  rfl

theorem Grown.length {toFetch : List UInt64} {records : List NameRecord} {d : Dictionary}
    (h : Grown toFetch records d) : d.cache.length = d.cacheAllocated := by
  rw [h.cache, h.allocated, h.totalEntries, List.length_append, List.length_mapIdx,
    List.length_replicate]

theorem Grown.free {toFetch : List UInt64} {records : List NameRecord} {d : Dictionary}
    (h : Grown toFetch records d) {i : ℕ} (hle : records.length ≤ i) (hi : i < d.cacheAllocated) :
    d.cache[i]? = some none := by
  have hallocated := h.allocated
  rw [h.totalEntries] at hallocated
  rw [h.cache, List.getElem?_append_right (by rwa [List.length_mapIdx]), List.length_mapIdx,
    List.getElem?_replicate, if_pos (by omega)]

/-- **Growth of the dictionary.**  After the records the counters are in step, every slot
below `totalEntries` holds its record under its number (of 32 bits), the others are null,
`base.top` was behind every record, and later records leave the slots as they are. -/
theorem readNames_grows (toFetch : List UInt64) (stale : ℕ → Fin 8 → Option Entry)
    (records : List NameRecord) :
    ∃ d, readNames toFetch stale empty records = .ok (d, records.map (·.rest)) ∧
      d.totalEntries = records.length ∧
      d.cacheAllocated = d.totalEntries + d.allocationLeft.toNat ∧ 8 ∣ d.cacheAllocated ∧
      d.cache.length = d.cacheAllocated ∧
      (∀ i record, records[i]? = some record → ∃ entry, d.cache[i]? = some (some entry) ∧
        entry.index.toNat = i % 2 ^ 32 ∧ HoldsRecord toFetch record entry) ∧
      (∀ i, records.length ≤ i → i < d.cacheAllocated → d.cache[i]? = some none) ∧
      ∀ more, ∃ d', readNames toFetch stale d more = .ok (d', more.map (·.rest)) ∧
        ∀ i < records.length, d'.cache[i]? = d.cache[i]? := by
  obtain ⟨d, hread, hgrown⟩ := (grown_empty toFetch).readNames stale records
  rw [List.nil_append] at hgrown
  refine ⟨d, hread, hgrown.totalEntries, hgrown.allocated, hgrown.multiple, hgrown.length, ?_,
    fun i hle hi => hgrown.free hle hi, fun more => ?_⟩
  · intro i record hi
    exact ⟨_, hgrown.slot hi, UInt32.toNat_ofNat', holdsRecord_entryOf toFetch i record⟩
  · obtain ⟨d', hmore, hgrown'⟩ := hgrown.readNames stale more
    refine ⟨d', hmore, fun i hi => ?_⟩
    obtain ⟨record, hrecord⟩ : ∃ record, records[i]? = some record :=
      ⟨records[i], List.getElem?_eq_getElem hi⟩
    rw [hgrown.slot hrecord, hgrown'.slot (by rw [List.getElem?_append_left hi, hrecord])]

/-- The entry behind 2^32 others gets the number 0: `index` has 32 bits. -/
theorem not_index_always :
    ¬ ∀ (toFetch : List UInt64) (stale : ℕ → Fin 8 → Option Entry) (records : List NameRecord),
      ∃ d tops, readNames toFetch stale empty records = .ok (d, tops) ∧
        ∀ i < records.length, ∃ entry, d.cache[i]? = some (some entry) ∧ entry.index.toNat = i := by
  intro h
  let record : NameRecord := ⟨[97], [], [], by decide, by decide, by decide⟩
  let records := List.replicate (2 ^ 32 + 1) record
  have hlast : records[2 ^ 32]? = some record := by
    rw [List.getElem?_replicate, if_pos (Nat.lt_succ_self _)]
  obtain ⟨d, tops, hread, hindex⟩ := h [] (fun _ _ => none) records
  obtain ⟨d', hread', hgrown⟩ := (grown_empty []).readNames (fun _ _ => none) records
  rw [hread] at hread'
  cases hread'
  obtain ⟨entry, hslot, hnumber⟩ := hindex (2 ^ 32)
    (by rw [List.length_replicate]; exact Nat.lt_succ_self _)
  rw [hgrown.slot hlast] at hslot
  cases hslot
  exact absurd hnumber (by decide)

/-! ### The dictionary of a channel -/

/-- The scan in terms of where the first zero byte splits what it may look at. -/
theorem scan_eq : ∀ (left : ℕ) (value : List UInt8),
    scan left value =
      if (0 : UInt8) ∉ (Bytes.splitZero (value.take left)).1 ∧ value.length < left then
        .error .overread
      else .ok (Bytes.splitZero (value.take left)).1.length := by
  intro left
  induction left with
  | zero =>
    intro value
    rw [if_neg (fun h => Nat.not_lt_zero _ h.2)]
    rfl
  | succ left ih =>
    intro value
    cases value with
    | nil => rw [if_pos ⟨List.not_mem_nil, Nat.succ_pos left⟩, scan]
    | cons b value =>
      rw [scan, List.take_succ_cons, Bytes.splitZero]
      by_cases hb : b = 0
      · rw [if_pos hb, if_pos hb, if_neg (fun h => h.1 (by rw [hb]; exact List.mem_cons_self))]
        rfl
      · rw [if_neg hb, if_neg hb, ih]
        simp only [List.mem_cons, not_or, List.length_cons, Nat.add_lt_add_iff_right]
        by_cases hover : (0 : UInt8) ∉ (Bytes.splitZero (value.take left)).1 ∧ value.length < left
        · rw [if_pos hover, if_pos ⟨⟨Ne.symm hb, hover.1⟩, hover.2⟩]
          rfl
        · rw [if_neg hover, if_neg (fun h => hover ⟨h.1.2, h.2⟩)]
          rfl

end Dictionary

/-- The members of `cache` in a channel. -/
def Channel.dictionary (ch : Channel) : Dictionary :=
  ⟨ch.cache, ch.totalEntries, UInt8.ofNat ch.allocationLeft, ch.cache.length⟩

namespace Dictionary

theorem grow_dictionary (stale : ℕ → Fin 8 → Option Entry) {ch : Channel}
    (hleft : ch.allocationLeft ≤ 8) : ch.dictionary.grow stale = ch.reserve.dictionary := by
  have hzero : UInt8.ofNat ch.allocationLeft = 0 ↔ ch.allocationLeft = 0 := by
    rw [← UInt8.toNat_inj, UInt8.toNat_ofNat', Nat.mod_eq_of_lt (by omega)]
    exact Iff.rfl
  unfold grow Channel.reserve Channel.dictionary
  by_cases h : ch.allocationLeft = 0
  · have hnull := setNull_append (List.ofFn (stale ch.cache.length)) ch.cache
    rw [List.length_ofFn] at hnull
    simp only [if_pos h, if_pos (hzero.mpr h), List.length_append, List.length_replicate]
    congr 1
  · simp only [if_neg h, if_neg (mt hzero.mp h)]

theorem store_dictionary {ch : Channel} (hroom : ch.totalEntries < ch.cache.length)
    (hleft : 0 < ch.allocationLeft) (entry : Entry) :
    ch.dictionary.store entry = .ok (ch.pushEntry entry).dictionary := by
  have hpred : UInt8.ofNat ch.allocationLeft - 1 = UInt8.ofNat (ch.allocationLeft - 1) := by
    obtain ⟨k, hk⟩ : ∃ k, ch.allocationLeft = k + 1 := ⟨ch.allocationLeft - 1, by omega⟩
    rw [hk, UInt8.ofNat_add, Nat.add_sub_cancel]
    exact UInt8.add_sub_cancel _ _
  unfold Dictionary.store Channel.dictionary Channel.pushEntry
  rw [if_pos hroom, hpred]
  simp only [List.length_set]

/-- The insertion into a channel is the insertion into its dictionary. -/
theorem insertEntry_dictionary (stale : ℕ → Fin 8 → Option Entry) {ch : Channel}
    (hlength : ch.cache.length = ch.totalEntries + ch.allocationLeft)
    (hleft : ch.allocationLeft ≤ 8) (value : List UInt8) (length : ℕ) :
    ch.dictionary.insertEntry stale ch.toFetch value length =
      (ch.insertEntry value length).map Channel.dictionary := by
  have hreserve : ch.reserve.totalEntries < ch.reserve.cache.length ∧
      0 < ch.reserve.allocationLeft := by
    unfold Channel.reserve
    split
    · simp only [List.length_append, List.length_replicate,
        OTIC_UNPACK_CACHE_ALLOCATION_RESERVE_SIZE]
      omega
    · omega
  have hfetch : ch.reserve.toFetch = ch.toFetch := by
    unfold Channel.reserve
    split <;> rfl
  have hscanned := Bytes.splitZero_append (value.take (length + 1))
  unfold insertEntry Channel.insertEntry
  simp only [grow_dictionary stale hleft, scan_eq]
  generalize hs : (Bytes.splitZero (value.take (length + 1))).1 = scanned at hscanned ⊢
  by_cases hover : (0 : UInt8) ∉ scanned ∧ value.length < length + 1
  · rw [if_pos hover, if_pos hover]
    rfl
  · rw [if_neg hover, if_neg hover, Exec.ok_bind]
    by_cases hnegative : length < scanned.length
    · rw [if_pos hnegative, if_pos hnegative]
      rfl
    · rw [if_neg hnegative, if_neg hnegative]
      by_cases hshort : value.length < length
      · rw [if_pos hshort, if_pos hshort]
        rfl
      · rw [if_neg hshort, if_neg hshort]
        have hname : value.take scanned.length = scanned := by
          have h := congrArg (List.take scanned.length) hscanned
          rw [List.take_left, List.take_take, Nat.min_eq_left (by omega)] at h
          exact h.symm
        rw [hname, store_dictionary hreserve.1 hreserve.2, ← hfetch]
        rfl

/-- A name record in a channel is a name record in its dictionary. -/
theorem readNameAssign_dictionary (stale : ℕ → Fin 8 → Option Entry) {ch : Channel}
    (hlength : ch.cache.length = ch.totalEntries + ch.allocationLeft)
    (hleft : ch.allocationLeft ≤ 8) :
    ch.dictionary.readNameAssign stale ch.toFetch ch.top =
      ch.readNameAssign.map fun ch' => (ch'.dictionary, ch'.top) := by
  unfold Dictionary.readNameAssign Channel.readNameAssign
  cases htop : Channel.takeByte ch.top with
  | error e => rfl
  | ok result =>
    obtain ⟨length, top⟩ := result
    have hinsert := @insertEntry_dictionary stale { ch with top := top } hlength hleft top
      length.toNat
    have hsame : Channel.dictionary { ch with top := top } = ch.dictionary := rfl
    rw [hsame] at hinsert
    simp only [Exec.ok_bind]
    rw [hinsert]
    cases Channel.insertEntry { ch with top := top } top length.toNat with
    | error e => rfl
    | ok ch' => rfl

end Dictionary

end Otic.Unpack
