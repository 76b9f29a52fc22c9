import Otic.Pack.Rejections

/-!
# No memory for an entry

The first call for a sensor makes an entry, and `otic_pack_entry_insert_routine` asks
`malloc` for it.  Where that returns null so does the insertion: five of the injects look
at the result and fail, while `inject_d`, `inject_s` and `inject_array` write the row of a
sensor that the dictionary does not get.  `injectGiven` is a call together with what
`malloc` answers, and with memory it is the call (`injectGiven_true`).
-/

namespace Otic.Pack

variable {zstd : Zstd} {h : Handle}

namespace Channel

/-- The loop of `otic_pack_entry_insert_routine` finds an entry that has the index. -/
def hasIndex (cache : Chained.Table Entry) (o : CStr) (index : UInt16) : Bool :=
  (cache (hashFunction o.bytes)).any fun entry => entry.index == index.toUInt32

/-- An insertion, where `memory` says whether `malloc` has room for an `otic_entry_t`;
`none` if it returns 0. -/
def Injection.enter (inj : Injection) (memory : Bool) (cache : Chained.Table Entry)
    (o unit : CStr) (index : UInt16) : Option (Chained.Table Entry) :=
  if memory || hasIndex cache o index then some (inj.insert cache o unit index) else none

/-- The part of an inject after the timestamp; `checked` says whether it looks at what the
insertion returned. -/
def writeRowGiven (memory checked : Bool) (inj : Injection) (ch : Channel) (entry : Option Entry)
    (sensorName : CStr) (unit : Option CStr) : Except OticError Channel :=
  match entry with
  | none =>
      let unit := unit.getD CStr.empty
      if UINT8_MAX < sensorName.size + unit.size + 1 then .error .bufferOverflow
      else
        let entered := inj.enter memory ch.cache sensorName unit ch.totalEntries
        if checked && entered.isNone then .error .entryInsertionFailure
        else
          let ch := { ch with cache := entered.getD ch.cache }
          let ch := ch.idAssign sensorName unit.bytes
          let ch := inj.write ch.totalEntries.toUInt64 ch
          .ok { ch with totalEntries := ch.totalEntries + 1 }
  | some entry =>
      if inj.same entry.lastValue then
        .ok ((ch.writeByte OticType.unmodified.toByte).writeLong entry.index.toUInt64)
      else
        .ok (inj.write entry.index.toUInt64
          { ch with cache := setLastValue ch.cache sensorName inj.changed })

end Channel

namespace AnyCall

/-- Whether the inject looks at what the insertion returned. -/
def checked (c : AnyCall) : Bool :=
  match c.value with
  | .scalar (.double _) | .scalar (.string _) | .array _ => false
  | _ => true

/-- A call of an inject, and whether `malloc` has room for an entry.  The injects differ in
the state they fail with, in the text there must be room for, in the row, in whether they
look at the insertion, and in whether they flush. -/
def injectGiven (zstd : Zstd) (memory : Bool) (c : AnyCall) (h : Handle) : Bool × Handle :=
  match h.tsHandler zstd c.tick with
  | (false, h) => (false, h.setState c.failState)
  | (true, h) =>
      let entry := Channel.entryFind h.channel.cache c.sensorName
      if h.channel.threshold < c.textSize then
        (false, (h.setError .bufferOverflow).setState c.failState)
      else
        let (ok, h) := h.makeRoom zstd c.textSize
        if !ok then (false, h.setState c.failState)
        else
          match h.channel.writeRowGiven memory c.checked c.injection entry c.sensorName c.unit with
          | .error error => (false, (h.setError error).setState c.failState)
          | .ok ch => (true, c.settle zstd { h with channel := ch.countRow })

/-- The sensor needs an entry, and there is no memory for one. -/
def Lacks (memory : Bool) (c : AnyCall) (enc : Encoder) : Prop :=
  memory = false ∧ Channel.entryFind enc.cache c.sensorName = none ∧
    Channel.hasIndex enc.cache c.sensorName enc.totalEntries = false

instance (memory : Bool) (c : AnyCall) (enc : Encoder) : Decidable (c.Lacks memory enc) := by
  unfold Lacks
  infer_instance

/-! ### The row -/

theorem not_fits_iff (c : AnyCall) :
    ¬ c.Fits ↔ UINT8_MAX < c.sensorName.size + (c.unit.getD CStr.empty).size + 1 := by
  simp [Fits, unitStr, CStr.size]

/-- Where an entry is there or can be made, the row is that of the inject. -/
theorem writeRowGiven_entered {memory checked : Bool} {inj : Channel.Injection} {ch : Channel}
    {entry : Option Entry} {sensorName : CStr} {unit : Option CStr}
    (hentered : entry = none →
      (memory || Channel.hasIndex ch.cache sensorName ch.totalEntries) = true) :
    ch.writeRowGiven memory checked inj entry sensorName unit =
      match ch.writeRow inj entry sensorName unit with
      | none => .error .bufferOverflow
      | some ch => .ok ch := by
  unfold Channel.writeRowGiven Channel.writeRow
  cases entry with
  | none =>
    simp only [Channel.Injection.enter, if_pos (hentered rfl), Option.isNone_some, Bool.and_false,
      Bool.false_eq_true, if_false, Option.getD_some]
    split <;> rfl
  | some entry =>
    dsimp only
    split <;> rfl

/-- Without an entry the bytes are the same, and the dictionary is left as it was. -/
theorem writeRowGiven_unregistered {memory : Bool} {c : AnyCall} {ch : Channel} (hfits : c.Fits)
    (hlacks : c.Lacks memory ch.encoder) (hchecked : c.checked = false) :
    (ch.writeRowGiven memory c.checked c.injection none c.sensorName c.unit).map
        Channel.countRow =
      .ok ((ch.put ((Record.nameAssign ⟨c.sensorName, c.unitStr.bytes, hfits⟩).encode ++
        c.payload ch.totalEntries.toUInt32)).install
          { ch.encoder with
            totalEntries := ch.totalEntries + 1
            rowCounter := ch.base.rowCounter + 1 }) := by
  obtain ⟨rfl, -, hindex⟩ := hlacks
  have hindex' : Channel.hasIndex ch.cache c.sensorName ch.totalEntries = false := hindex
  have hnames := mt c.not_fits_iff.mpr (not_not_intro hfits)
  have hname : ch.idAssign c.sensorName (c.unit.getD CStr.empty).bytes =
      ch.put (Record.nameAssign ⟨c.sensorName, c.unitStr.bytes, hfits⟩).encode :=
    ch.writeRecord_eq_put (.nameAssign ⟨c.sensorName, c.unitStr.bytes, hfits⟩)
  have hrow : ∀ (ch : Channel) (index : UInt16), c.injection.write index.toUInt64 ch =
      ch.put (c.payload index.toUInt32) := by
    intro ch index
    rw [← write_injection]
    simp
  unfold Channel.writeRowGiven
  simp only [if_neg hnames, Channel.Injection.enter, hindex', hchecked, Bool.or_self,
    Bool.false_eq_true, if_false, Bool.false_and, Option.getD_none, hname, hrow,
    Channel.put_put]
  rfl

theorem writeRowGiven_starved {memory : Bool} {c : AnyCall} {ch : Channel} (hfits : c.Fits)
    (hlacks : c.Lacks memory ch.encoder) :
    ch.writeRowGiven memory true c.injection none c.sensorName c.unit =
      .error .entryInsertionFailure := by
  obtain ⟨rfl, -, hindex⟩ := hlacks
  have hindex' : Channel.hasIndex ch.cache c.sensorName ch.totalEntries = false := hindex
  have hnames := mt c.not_fits_iff.mpr (not_not_intro hfits)
  unfold Channel.writeRowGiven
  simp only [if_neg hnames, Channel.Injection.enter, hindex', Bool.or_self, Bool.false_eq_true,
    if_false, Option.isNone_none, Bool.and_self, if_true]

/-- **The row without memory**: its bytes are the same, or the insertion's failure is seen. -/
theorem writeRowGiven_map_countRow (memory : Bool) (c : AnyCall) (ch : Channel) :
    (ch.writeRowGiven memory c.checked c.injection (Channel.entryFind ch.cache c.sensorName)
        c.sensorName c.unit).map Channel.countRow =
      match c.row ch.encoder with
      | none => .error .bufferOverflow
      | some (enc, bytes) =>
          if c.Lacks memory ch.encoder then
            if c.checked then .error .entryInsertionFailure
            else .ok ((ch.put bytes).install { enc with cache := ch.cache })
          else .ok ((ch.put bytes).install enc) := by
  have hwrite := c.writeRow_map_countRow ch
  by_cases hlacks : c.Lacks memory ch.encoder
  · have hnew : Channel.entryFind ch.cache c.sensorName = none := hlacks.2.1
    have hrow : c.row ch.encoder = c.newRow ch.encoder := by
      unfold row
      rw [hlacks.2.1]
    simp only [if_pos hlacks]
    rw [hnew, hrow]
    unfold newRow
    by_cases hfits : c.Fits
    · rw [dif_pos hfits]
      cases hchecked : c.checked with
      | true =>
        rw [writeRowGiven_starved hfits hlacks]
        rfl
      | false =>
        rw [← hchecked, writeRowGiven_unregistered hfits hlacks hchecked, hchecked]
        rfl
    · rw [dif_neg hfits]
      unfold Channel.writeRowGiven
      dsimp only
      rw [if_pos (c.not_fits_iff.mp hfits)]
      rfl
  · have hentered : Channel.entryFind ch.cache c.sensorName = none →
        (memory || Channel.hasIndex ch.cache c.sensorName ch.totalEntries) = true := by
      intro hnew
      by_contra hnone
      rw [Bool.not_eq_true, Bool.or_eq_false_iff] at hnone
      exact hlacks ⟨hnone.1, hnew, hnone.2⟩
    rw [writeRowGiven_entered hentered]
    simp only [if_neg hlacks]
    cases hrow : c.row ch.encoder with
    | none =>
      rw [hrow, Option.map_none, Option.map_eq_none_iff] at hwrite
      rw [hwrite]
      rfl
    | some out =>
      rw [hrow, Option.map_some, Option.map_eq_some_iff] at hwrite
      obtain ⟨ch', hch', hcount⟩ := hwrite
      rw [hch']
      exact congrArg Except.ok hcount

/-! ### The call -/

/-- What an inject can do, whatever `malloc` answers. -/
inductive CourseGiven (zstd : Zstd) (memory : Bool) (c : AnyCall) (h : Handle) :
    Bool × Handle → Prop
  | failed {out : Handle} (hcourse : Course zstd c h (false, out)) :
      CourseGiven zstd memory c h (false, out)
  | starved {h₁ h₂ : Handle} (hclock : h.channel.encoder.clock c.tick ≠ none)
      (hstamp : h.stamped zstd c.tick = h₁) (hshort : c.textSize ≤ h₁.channel.threshold)
      (hroom : h₁.makeRoom zstd c.textSize = (true, h₂)) (hrow : c.row h₂.channel.encoder ≠ none)
      (hlacks : c.Lacks memory h₂.channel.encoder) (hchecked : c.checked = true) :
      CourseGiven zstd memory c h
        (false, (h₂.setError .entryInsertionFailure).setState c.failState)
  | written {h₁ h₂ : Handle} {enc entered : Encoder} {bytes : List UInt8}
      (hclock : h.channel.encoder.clock c.tick ≠ none)
      (hstamp : h.stamped zstd c.tick = h₁) (hshort : c.textSize ≤ h₁.channel.threshold)
      (hroom : h₁.makeRoom zstd c.textSize = (true, h₂))
      (hrow : c.row h₂.channel.encoder = some (enc, bytes))
      (hlacks : c.Lacks memory h₂.channel.encoder → c.checked = false)
      (hentered : ¬ c.Lacks memory h₂.channel.encoder → entered = enc) :
      CourseGiven zstd memory c h
        (true, c.settle zstd ⟨h₂.parent, (h₂.channel.put bytes).install entered⟩)

/-- **Every inject** takes one of these courses. -/
theorem courseGiven (memory : Bool) (c : AnyCall) (h : Handle) :
    CourseGiven zstd memory c h (c.injectGiven zstd memory h) := by
  unfold injectGiven
  rw [Handle.tsHandler_eq]
  cases hclock : h.channel.encoder.clock c.tick with
  | none => exact .failed (.late hclock)
  | some records =>
    have hset : h.channel.encoder.clock c.tick ≠ none := by simp [hclock]
    dsimp only
    by_cases hlong : (h.stamped zstd c.tick).channel.threshold < c.textSize
    · rw [if_pos hlong]
      exact .failed (.long hset rfl hlong)
    rw [if_neg hlong]
    have hshort : c.textSize ≤ (h.stamped zstd c.tick).channel.threshold := by omega
    rcases hroom : (h.stamped zstd c.tick).makeRoom zstd c.textSize with ⟨_ | _, h₂⟩
    · exact .failed (.crowded hset rfl hshort hroom)
    -- the entry was looked up before the flush, which leaves the dictionary alone
    have hcache : h₂.channel.cache = (h.stamped zstd c.tick).channel.cache :=
      congrArg Encoder.cache (Handle.kept_makeRoom hroom).2
    have hwrite := writeRowGiven_map_countRow memory c h₂.channel
    rw [← hcache]
    cases hgiven : h₂.channel.writeRowGiven memory c.checked c.injection
        (Channel.entryFind h₂.channel.cache c.sensorName) c.sensorName c.unit with
    | error error =>
      rw [hgiven] at hwrite
      dsimp only
      cases hrow : c.row h₂.channel.encoder with
      | none =>
        rw [hrow] at hwrite
        cases hwrite
        exact .failed (.unfit hset rfl hshort hroom hrow)
      | some out =>
        rw [hrow] at hwrite
        dsimp only at hwrite
        split at hwrite
        · rename_i hlacks
          split at hwrite
          · rename_i hchecked
            cases hwrite
            exact .starved hset rfl hshort hroom (by simp [hrow]) hlacks hchecked
          · cases hwrite
        · cases hwrite
    | ok ch =>
      rw [hgiven] at hwrite
      dsimp only
      cases hrow : c.row h₂.channel.encoder with
      | none =>
        rw [hrow] at hwrite
        cases hwrite
      | some out =>
        rw [hrow] at hwrite
        dsimp only at hwrite
        split at hwrite
        · rename_i hlacks
          split at hwrite
          · cases hwrite
          · rename_i hunchecked
            rw [Except.ok.inj hwrite]
            exact .written hset rfl hshort hroom hrow (fun _ => by simpa using hunchecked)
              fun hsome => absurd hlacks hsome
        · rename_i hsome
          rw [Except.ok.inj hwrite]
          exact .written hset rfl hshort hroom hrow (fun hlacks => absurd hlacks hsome)
            fun _ => rfl

/-- **With memory** it is the call of the inject. -/
theorem injectGiven_true (c : AnyCall) (h : Handle) :
    c.injectGiven zstd true h = c.inject zstd h := by
  have hcourse := @courseGiven zstd true c h
  rw [inject_eq]
  revert hcourse
  generalize c.injectGiven zstd true h = out
  intro hcourse
  cases hcourse with
  | failed hcourse => exact hcourse.eq_outcome
  | starved _ _ _ _ _ hlacks => cases hlacks.1
  | written hclock hstamp hshort hroom hrow _ hentered =>
    rw [hentered fun hlacks => by cases hlacks.1]
    exact (Course.written hclock hstamp hshort hroom hrow).eq_outcome

end AnyCall

end Otic.Pack
