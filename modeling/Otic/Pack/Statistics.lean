import Otic.Pack.FlushPoints
import Otic.Pack.Frame
import Otic.Pack.Pieces

/-!
# Statistics

A channel counts what it writes (`otic_stats`).  The injects are given here once more,
with the counters they bump; a counter decides nothing, so the rest of a channel is as in
the model without them (`inject_eq`).  What a call adds to the counters follows from the
records it writes and from its result, and after any run they show how many records of
each kind were written.
-/

namespace Otic.Pack

/-! ### The counters -/

/-- `otic_stats`, as far as scalar injects count; `blocksWritten` is with the channel. -/
structure Stats where
  typeUnmodified : UInt64
  typeInteger : UInt64
  typeString : UInt64
  typeBool : UInt64
  typeDouble : UInt64
  typeNull : UInt64
  timeSets : UInt64
  timeShifts : UInt64
  colsAssigned : UInt64

/-- `otic_pack_channel_init` clears them all. -/
def Stats.init : Stats := ⟨0, 0, 0, 0, 0, 0, 0, 0, 0⟩

/-- A handle, and the `stats` of its channel. -/
structure Metered where
  handle : Handle
  stats : Stats

namespace Metered

/-- `otic_pack_channel_init`. -/
def init (parent : Parent) (id channelType : UInt8) (bucketSize : UInt32) : Metered :=
  ⟨⟨parent, Channel.init id channelType bucketSize⟩, Stats.init⟩

/-! ### The injects with their counters -/

/-- `otic_pack_id_assign`. -/
def idAssign (ch : Channel) (stats : Stats) (sensorName : CStr) (unit : List UInt8) :
    Channel × Stats :=
  (ch.idAssign sensorName unit, { stats with colsAssigned := stats.colsAssigned + 1 })

/-- The part of an inject after the timestamp, as `Channel.writeRow`. -/
def writeRow (inj : Channel.Injection) (ch : Channel) (stats : Stats) (entry : Option Entry)
    (sensorName : CStr) (unit : Option CStr) : Option (Channel × Stats) :=
  match entry with
  | none =>
      let unit := unit.getD CStr.empty
      if UINT8_MAX < sensorName.size + unit.size + 1 then none
      else
        let ch := { ch with cache := inj.insert ch.cache sensorName unit ch.totalEntries }
        let (ch, stats) := idAssign ch stats sensorName unit.bytes
        let ch := inj.write ch.totalEntries.toUInt64 ch
        some ({ ch with totalEntries := ch.totalEntries + 1 }, stats)
  | some entry =>
      if inj.same entry.lastValue then
        some ((ch.writeByte OticType.unmodified.toByte).writeLong entry.index.toUInt64,
          { stats with typeUnmodified := stats.typeUnmodified + 1 })
      else
        some (inj.write entry.index.toUInt64
          { ch with cache := Channel.setLastValue ch.cache sensorName inj.changed }, stats)

variable (zstd : Zstd)

/-- `otic_ts_handler`. -/
def tsHandler (m : Metered) (intTs : UInt64) : Bool × Metered :=
  let ch := m.handle.channel
  if ch.base.timestampCurrent = intTs then (true, m)
  else if ch.base.timestampCurrent = TS_NULL then
    let base := { ch.base with timestampStart := intTs, timestampCurrent := intTs }
    let ch := ({ ch with base := base }.writeByte OticType.setTimestamp.toByte).writeLong intTs
    let stats := { m.stats with timeSets := m.stats.timeSets + 1 }
    (true, ⟨{ m.handle with channel := ch }.flushIfFlushable zstd, stats⟩)
  else if intTs < ch.base.timestampCurrent then
    (false, { m with handle := m.handle.setError .invalidTimestamp })
  else
    let shift := intTs - ch.base.timestampCurrent
    let base := { ch.base with timestampCurrent := intTs }
    let ch := ({ ch with base := base }.writeByte OticType.shiftTimestamp.toByte).writeLong shift
    let stats := { m.stats with timeShifts := m.stats.timeShifts + 1 }
    (true, ⟨{ m.handle with channel := ch }.flushIfFlushable zstd, stats⟩)

/-- From the row on; `count` bumps the counter of the type. -/
def finishRow (failState : OticState) (inj : Channel.Injection) (count : Stats → Stats)
    (m : Metered) (entry : Option Entry) (sensorName : CStr) (unit : Option CStr) :
    Bool × Metered :=
  match writeRow inj m.handle.channel m.stats entry sensorName unit with
  | none => (false, { m with handle := (m.handle.setError .bufferOverflow).setState failState })
  | some (ch, stats) =>
      (true, ⟨{ m.handle with channel := ch.countRow }.flushIfFlushable zstd, count stats⟩)

/-- The injects but `inject_s`. -/
def injectRow (failState : OticState) (inj : Channel.Injection) (count : Stats → Stats)
    (m : Metered) (timestamp : UInt64) (sensorName : CStr) (unit : Option CStr) :
    Bool × Metered :=
  match m.tsHandler zstd timestamp with
  | (false, m) => (false, { m with handle := m.handle.setState failState })
  | (true, m) =>
      finishRow zstd failState inj count m
        (Channel.entryFind m.handle.channel.cache sensorName) sensorName unit

/-- `otic_pack_channel_inject_bool`. -/
def injectBool (m : Metered) (timestamp : UInt64) (sensorName : CStr) (unit : Option CStr)
    (value : Bool) : Bool × Metered :=
  injectRow zstd .closed (Channel.boolInjection value)
    (fun stats => { stats with typeBool := stats.typeBool + 1 }) m timestamp sensorName unit

/-- `otic_pack_channel_inject_i_neg`. -/
def injectINeg (m : Metered) (timestamp : UInt64) (sensorName : CStr) (unit : Option CStr)
    (value : UInt64) : Bool × Metered :=
  injectRow zstd .closed (Channel.iNegInjection value)
    (fun stats => { stats with typeInteger := stats.typeInteger + 1 }) m timestamp sensorName unit

/-- `otic_pack_channel_inject_i`. -/
def injectI (m : Metered) (timestamp : UInt64) (sensorName : CStr) (unit : Option CStr)
    (value : UInt64) : Bool × Metered :=
  injectRow zstd .onError (Channel.iInjection value)
    (fun stats => { stats with typeInteger := stats.typeInteger + 1 }) m timestamp sensorName unit

/-- `otic_pack_channel_inject_d`. -/
def injectD (m : Metered) (timestamp : UInt64) (sensorName : CStr) (unit : Option CStr)
    (value : UInt64) : Bool × Metered :=
  injectRow zstd .onError (Channel.dInjection value)
    (fun stats => { stats with typeDouble := stats.typeDouble + 1 }) m timestamp sensorName unit

/-- `otic_pack_channel_inject_n`. -/
def injectN (m : Metered) (timestamp : UInt64) (sensorName : CStr) (unit : Option CStr) :
    Bool × Metered :=
  injectRow zstd .closed Channel.nInjection
    (fun stats => { stats with typeNull := stats.typeNull + 1 }) m timestamp sensorName unit

/-- `otic_pack_channel_inject_s`. -/
def injectS (m : Metered) (timestamp : UInt64) (sensorName : CStr) (unit : Option CStr)
    (value : CStr) (heap : List UInt8) : Bool × Metered :=
  match m.tsHandler zstd timestamp with
  | (false, m) => (false, { m with handle := m.handle.setState .onError })
  | (true, m) =>
      let entry := Channel.entryFind m.handle.channel.cache sensorName
      if m.handle.channel.threshold < value.size then
        (false, { m with handle := (m.handle.setError .bufferOverflow).setState .onError })
      else
        let (ok, h) :=
          if m.handle.channel.pending.length ≤ m.handle.channel.threshold ∧
              m.handle.channel.threshold - m.handle.channel.pending.length < value.size then
            m.handle.channelFlush zstd
          else (true, m.handle)
        if !ok then (false, { m with handle := h.setState .onError })
        else
          finishRow zstd .onError (Channel.sInjection value heap)
            (fun stats => { stats with typeString := stats.typeString + 1 }) { m with handle := h }
            entry sensorName unit

/-- The call of a scalar inject. -/
def inject (m : Metered) (c : Call) : Bool × Metered :=
  match c.value with
  | .bool value => m.injectBool zstd c.tick c.sensorName c.unit value
  | .intNeg value => m.injectINeg zstd c.tick c.sensorName c.unit value
  | .intPos value => m.injectI zstd c.tick c.sensorName c.unit value
  | .double value => m.injectD zstd c.tick c.sensorName c.unit value
  | .string value => m.injectS zstd c.tick c.sensorName c.unit value c.heap
  | .null => m.injectN zstd c.tick c.sensorName c.unit

/-- Calls one after the other, with the results of the injects. -/
def moves : Metered → List Move → List Bool × Metered
  | m, [] => ([], m)
  | m, .inject c :: rest =>
      let (ok, m) := m.inject zstd c
      let (oks, m) := moves m rest
      (ok :: oks, m)
  | m, .flush :: rest => moves { m with handle := (m.handle.channelFlush zstd).2 } rest

end Metered

/-! ### Counters and records -/

/-- What a record adds to the counters, whoever writes it. -/
def Stats.record (s : Stats) : Record → Stats
  | .unmodified _ => { s with typeUnmodified := s.typeUnmodified + 1 }
  | .setTimestamp _ => { s with timeSets := s.timeSets + 1 }
  | .shiftTimestamp _ => { s with timeShifts := s.timeShifts + 1 }
  | .nameAssign _ => { s with colsAssigned := s.colsAssigned + 1 }
  | _ => s

def Stats.records (s : Stats) (rs : List Record) : Stats := rs.foldl Stats.record s

/-- The counter that an inject bumps when it has written its row. -/
def Value.count (value : Value) (s : Stats) : Stats :=
  match value with
  | .bool _ => { s with typeBool := s.typeBool + 1 }
  | .intNeg _ | .intPos _ => { s with typeInteger := s.typeInteger + 1 }
  | .double _ => { s with typeDouble := s.typeDouble + 1 }
  | .string _ => { s with typeString := s.typeString + 1 }
  | .null => { s with typeNull := s.typeNull + 1 }

/-- The rows by the type of the inject, whether it wrote a value or UNMODIFIED. -/
def Stats.rows (s : Stats) : UInt64 :=
  s.typeBool + s.typeInteger + s.typeDouble + s.typeString + s.typeNull

theorem Stats.record_value (s : Stats) (value : Value) (index : UInt32) :
    s.record (value.record index) = s := by
  cases value with
  | bool b => cases b <;> rfl
  | intPos v => simp only [Value.record]; split <;> rfl
  | intNeg v | double v | string v | null => rfl

theorem Stats.records_append (s : Stats) (rs rs' : List Record) :
    s.records (rs ++ rs') = (s.records rs).records rs' := List.foldl_append

@[simp] theorem Stats.rows_records (rs : List Record) :
    ∀ s : Stats, (s.records rs).rows = s.rows := by
  induction rs with
  | nil => exact fun _ => rfl
  | cons r rs ih =>
    intro s
    have hrecord : (s.record r).rows = s.rows := by cases r <;> rfl
    exact (ih (s.record r)).trans hrecord

theorem Value.rows_count (value : Value) (s : Stats) : (value.count s).rows = s.rows + 1 := by
  cases value <;> simp only [Value.count, Stats.rows] <;> grind

/-- The counters that records bump show how many of them there are. -/
structure Stats.Adds (s : Stats) (rs : List Record) (s' : Stats) : Prop where
  unmodified : s'.typeUnmodified = s.typeUnmodified + UInt64.ofNat (countOf .unmodified rs)
  sets : s'.timeSets = s.timeSets + UInt64.ofNat (countOf .setTimestamp rs)
  shifts : s'.timeShifts = s.timeShifts + UInt64.ofNat (countOf .shiftTimestamp rs)
  names : s'.colsAssigned = s.colsAssigned + UInt64.ofNat (countOf .nameAssign rs)

theorem Stats.Adds.trans {s s₁ s' : Stats} {rs rs' : List Record} (h : s.Adds rs s₁)
    (h' : s₁.Adds rs' s') : s.Adds (rs ++ rs') s' := by
  constructor
  · rw [h'.unmodified, h.unmodified, countOf_append, UInt64.ofNat_add, UInt64.add_assoc]
  · rw [h'.sets, h.sets, countOf_append, UInt64.ofNat_add, UInt64.add_assoc]
  · rw [h'.shifts, h.shifts, countOf_append, UInt64.ofNat_add, UInt64.add_assoc]
  · rw [h'.names, h.names, countOf_append, UInt64.ofNat_add, UInt64.add_assoc]

theorem Stats.adds_record (s : Stats) (r : Record) : s.Adds [r] (s.record r) := by
  have hzero : ∀ n : UInt64, n = n + UInt64.ofNat 0 := fun n => (UInt64.add_zero n).symm
  cases r with
  | unmodified => exact ⟨rfl, hzero _, hzero _, hzero _⟩
  | setTimestamp => exact ⟨hzero _, rfl, hzero _, hzero _⟩
  | shiftTimestamp => exact ⟨hzero _, hzero _, rfl, hzero _⟩
  | nameAssign => exact ⟨hzero _, hzero _, hzero _, rfl⟩
  | smallInt | intPos | intNeg | double | string | null | true | false | eof =>
    exact ⟨hzero _, hzero _, hzero _, hzero _⟩

theorem Stats.adds_records (rs : List Record) : ∀ s : Stats, s.Adds rs (s.records rs) := by
  induction rs with
  | nil =>
    intro s
    have hzero : ∀ n : UInt64, n = n + UInt64.ofNat 0 := fun n => (UInt64.add_zero n).symm
    exact ⟨hzero _, hzero _, hzero _, hzero _⟩
  | cons r rs ih => exact fun s => (s.adds_record r).trans (ih _)

/-! ### What a call counts -/

/-- The records of a call: those of its timestamp and, if it is accepted, those of its row. -/
def Encoder.recordsOf (enc : Encoder) (c : Call) (ok : Bool) : List Record :=
  (enc.clock c.tick).getD [] ++
    if ok then ((Encoder.row { enc with timestampCurrent := c.tick } c).map Prod.snd).getD []
    else []

/-- The counters after a call. -/
def Call.counted (c : Call) (enc : Encoder) (ok : Bool) (s : Stats) : Stats :=
  if ok then c.value.count (s.records (enc.recordsOf c ok)) else s.records (enc.recordsOf c ok)

theorem Call.rows_counted (c : Call) (enc : Encoder) (ok : Bool) (s : Stats) :
    (c.counted enc ok s).rows = s.rows + UInt64.ofNat ok.toNat := by
  unfold counted
  cases ok with
  | false =>
    rw [if_neg Bool.false_ne_true, Stats.rows_records]
    exact (UInt64.add_zero _).symm
  | true =>
    rw [if_pos rfl, Value.rows_count, Stats.rows_records]
    rfl

/-- The counter of a type is none of those that records bump. -/
theorem Call.adds_counted (c : Call) (enc : Encoder) (ok : Bool) (s : Stats) :
    s.Adds (enc.recordsOf c ok) (c.counted enc ok s) := by
  have h := Stats.adds_records (enc.recordsOf c ok) s
  unfold counted
  split
  · cases c.value <;> exact ⟨h.unmodified, h.sets, h.shifts, h.names⟩
  · exact h

namespace Metered

variable {zstd : Zstd}

theorem tsHandler_eq (m : Metered) (tick : UInt64) :
    m.tsHandler zstd tick = ((m.handle.tsHandler zstd tick).1,
      ⟨(m.handle.tsHandler zstd tick).2,
        m.stats.records ((m.handle.channel.encoder.clock tick).getD [])⟩) := by
  have htick : m.handle.channel.encoder.timestampCurrent =
      m.handle.channel.base.timestampCurrent := rfl
  unfold tsHandler Handle.tsHandler Encoder.clock
  rw [htick]
  dsimp only
  split_ifs <;> rfl

theorem writeRow_eq (c : Call) (ch : Channel) (stats : Stats) :
    let entry := Channel.entryFind ch.cache c.sensorName
    writeRow c.injection ch stats entry c.sensorName c.unit =
      (ch.writeRow c.injection entry c.sensorName c.unit).map fun ch' =>
        (ch', stats.records (((ch.encoder.row c).map Prod.snd).getD [])) := by
  have hcache : ch.encoder.cache = ch.cache := rfl
  unfold writeRow Channel.writeRow Encoder.row
  rw [hcache]
  dsimp only
  cases hentry : Channel.entryFind ch.cache c.sensorName with
  | none =>
    have hsize : c.Fits ↔ ¬ UINT8_MAX < c.sensorName.size + (c.unit.getD CStr.empty).size + 1 := by
      simp [Call.Fits, Call.unitStr, CStr.size]
    dsimp only [Encoder.newRow]
    by_cases hfits : c.Fits
    · rw [if_neg (hsize.mp hfits), if_neg (hsize.mp hfits), dif_pos hfits]
      -- the name is counted, the row is not
      have hvalue :=
        (stats.record (.nameAssign ⟨c.sensorName, c.unitStr.bytes, hfits⟩)).record_value
          c.value ch.totalEntries.toUInt32
      exact congrArg (fun s => some (_, s)) hvalue.symm
    · have hlong := not_not.mp (fun hnot => hfits (hsize.mpr hnot))
      rw [if_pos hlong, if_pos hlong]
      rfl
  | some entry =>
    dsimp only [Encoder.knownRow]
    by_cases hsame : c.injection.same entry.lastValue = true
    · rw [if_pos hsame, if_pos hsame, if_pos hsame]
      rfl
    · rw [if_neg hsame, if_neg hsame, if_neg hsame]
      have hvalue := stats.record_value c.value entry.index
      exact congrArg (fun s => some (_, s)) hvalue.symm

/-- A row is counted if it is written. -/
theorem finishRow_eq (m : Metered) (failState : OticState) (c : Call) :
    let entry := Channel.entryFind m.handle.channel.cache c.sensorName
    let out := m.handle.finishRow zstd failState c.injection entry c.sensorName c.unit
    let row := ((m.handle.channel.encoder.row c).map Prod.snd).getD []
    m.finishRow zstd failState c.injection c.value.count entry c.sensorName c.unit =
      (out.1, ⟨out.2, if out.1 then c.value.count (m.stats.records row) else m.stats⟩) := by
  intro entry out row
  have hwrite := writeRow_eq c m.handle.channel m.stats
  have hout : out = m.handle.finishRow zstd failState c.injection entry c.sensorName c.unit := rfl
  unfold finishRow
  unfold Handle.finishRow at hout
  rw [hwrite]
  cases hrow : m.handle.channel.writeRow c.injection entry c.sensorName c.unit with
  | none =>
    rw [hrow] at hout
    rw [hout]
    rfl
  | some ch =>
    rw [hrow] at hout
    rw [hout]
    rfl

/-- The row of a call whose timestamp was taken. -/
theorem finishRow_stamped {enc : Encoder} {c : Call} {records : List Record}
    (hclock : enc.clock c.tick = some records) {m : Metered} {s : Stats}
    (hencoder : m.handle.channel.encoder = { enc with timestampCurrent := c.tick })
    (hstats : m.stats = s.records records) (failState : OticState) :
    let entry := Channel.entryFind m.handle.channel.cache c.sensorName
    let out := m.handle.finishRow zstd failState c.injection entry c.sensorName c.unit
    m.finishRow zstd failState c.injection c.value.count entry c.sensorName c.unit =
      (out.1, ⟨out.2, c.counted enc out.1 s⟩) := by
  intro entry out
  rw [finishRow_eq, hencoder, hstats]
  congr 2
  change (if out.1 then _ else _) = _
  unfold Call.counted Encoder.recordsOf
  rw [hclock, Option.getD_some]
  cases hok : out.1 with
  | false =>
    rw [if_neg Bool.false_ne_true, if_neg Bool.false_ne_true, if_neg Bool.false_ne_true,
      List.append_nil]
  | true => rw [if_pos rfl, if_pos rfl, if_pos rfl, Stats.records_append]

theorem injectRow_eq (m : Metered) (failState : OticState) (c : Call) :
    let out := m.handle.injectRow zstd failState c.injection c.tick c.sensorName c.unit
    m.injectRow zstd failState c.injection c.value.count c.tick c.sensorName c.unit =
      (out.1, ⟨out.2, c.counted m.handle.channel.encoder out.1 m.stats⟩) := by
  have hts := @onwards_tsHandler zstd m.handle c.tick
  unfold injectRow Handle.injectRow
  rw [tsHandler_eq]
  rcases hcase : m.handle.tsHandler zstd c.tick with ⟨ok, h₁⟩
  rw [hcase] at hts
  cases hclock : m.handle.channel.encoder.clock c.tick with
  | none =>
    rw [hclock] at hts
    obtain ⟨rfl, -, -⟩ := hts
    simp only [Call.counted, Encoder.recordsOf, hclock]
    rfl
  | some records =>
    rw [hclock] at hts
    obtain ⟨rfl, -, hencoder⟩ := hts
    exact finishRow_stamped hclock hencoder rfl failState

theorem injectS_eq (m : Metered) (c : Call) {value : CStr} (hvalue : c.value = .string value) :
    let out := m.handle.injectS zstd c.tick c.sensorName c.unit value c.heap
    m.injectS zstd c.tick c.sensorName c.unit value c.heap =
      (out.1, ⟨out.2, c.counted m.handle.channel.encoder out.1 m.stats⟩) := by
  have hinjection : Channel.sInjection value c.heap = c.injection := by
    simp only [Call.injection, hvalue]
  have hcount : (fun stats : Stats => { stats with typeString := stats.typeString + 1 }) =
      c.value.count := by
    rw [hvalue]
    rfl
  have hts := @onwards_tsHandler zstd m.handle c.tick
  unfold injectS Handle.injectS
  rw [tsHandler_eq, hinjection, hcount]
  rcases hcase : m.handle.tsHandler zstd c.tick with ⟨ok, h₁⟩
  rw [hcase] at hts
  cases hclock : m.handle.channel.encoder.clock c.tick with
  | none =>
    rw [hclock] at hts
    obtain ⟨rfl, -, -⟩ := hts
    simp only [Call.counted, Encoder.recordsOf, hclock]
    rfl
  | some records =>
    rw [hclock] at hts
    obtain ⟨rfl, -, hencoder⟩ := hts
    have hrefused : c.counted m.handle.channel.encoder false m.stats = m.stats.records records := by
      simp [Call.counted, Encoder.recordsOf, hclock]
    dsimp only at hencoder ⊢
    rw [Option.getD_some]
    by_cases hlong : h₁.channel.threshold < value.size
    · rw [if_pos hlong, if_pos hlong, ← hrefused]
    rw [if_neg hlong, if_neg hlong]
    -- the flush that makes room counts nothing
    have hroom : ∀ (ok : Bool) (h₂ : Handle), h₂.channel.encoder = h₁.channel.encoder →
        (if !ok then (false, ⟨h₂.setState .onError, m.stats.records records⟩)
          else finishRow zstd .onError c.injection c.value.count ⟨h₂, m.stats.records records⟩
            (Channel.entryFind h₁.channel.cache c.sensorName) c.sensorName c.unit) =
        (let out := if !ok then (false, h₂.setState .onError)
          else h₂.finishRow zstd .onError c.injection
            (Channel.entryFind h₁.channel.cache c.sensorName) c.sensorName c.unit
        (out.1, ⟨out.2, c.counted m.handle.channel.encoder out.1 m.stats⟩)) := by
      intro ok h₂ hsame
      cases ok with
      | false => exact congrArg (fun s => (false, Metered.mk _ s)) hrefused.symm
      | true =>
        have hcache : h₂.channel.cache = h₁.channel.cache := congrArg Encoder.cache hsame
        rw [← hcache]
        exact finishRow_stamped hclock (hsame.trans hencoder) rfl .onError
    split
    · exact hroom _ _ (onwards_channelFlush h₁).2
    · exact hroom true h₁ rfl

/-- **A call with its counters**: they decide nothing, and are bumped by the records of the
call and by its result. -/
theorem inject_eq (m : Metered) (c : Call) :
    m.inject zstd c = ((c.inject zstd m.handle).1,
      ⟨(c.inject zstd m.handle).2,
        c.counted m.handle.channel.encoder (c.inject zstd m.handle).1 m.stats⟩) := by
  have hrow := fun failState => @injectRow_eq zstd m failState c
  unfold inject Call.inject
  cases hvalue : c.value with
  | string value => exact injectS_eq m c hvalue
  | bool value | intNeg value | intPos value | double value | null =>
    simp only [Call.injection, hvalue] at hrow
    exact hrow _

end Metered

/-! ### What a call writes -/

namespace Encoder

variable {enc enc' : Encoder} {limit : Nat} {c : Call} {out : Outcome} {rs : List Record}

/-- **What can come of a call**: it is refused for its tick, or after its timestamp, or it
writes its row. -/
theorem possible_cases (h : enc.Possible limit c out) :
    (enc.clock c.tick = none ∧ out = ⟨false, enc, []⟩) ∨
    (∃ clock, enc.clock c.tick = some clock ∧
      out = ⟨false, { enc with timestampCurrent := c.tick }, clock⟩) ∨
    (∃ clock enc' row, enc.clock c.tick = some clock ∧
      Encoder.row { enc with timestampCurrent := c.tick } c = some (enc', row) ∧
        out = ⟨true, enc', clock ++ row⟩) := by
  rcases h with rfl | ⟨-, records, hclock, rfl⟩
  · unfold inject
    cases hclock : enc.clock c.tick with
    | none => exact Or.inl ⟨rfl, rfl⟩
    | some clock =>
      dsimp only
      split
      · exact Or.inr (Or.inl ⟨clock, rfl, rfl⟩)
      · cases hrow : Encoder.row { enc with timestampCurrent := c.tick } c with
        | none => exact Or.inr (Or.inl ⟨clock, rfl, rfl⟩)
        | some row => exact Or.inr (Or.inr ⟨clock, row.1, row.2, rfl, rfl, rfl⟩)
  · exact Or.inr (Or.inl ⟨records, hclock, rfl⟩)

/-- The result of a call decides what it writes, and it writes a row if it is accepted. -/
theorem possible_records (h : enc.Possible limit c out) :
    out.records = enc.recordsOf c out.ok ∧ rowsIn out.records = out.ok.toNat ∧
      out.encoder.rowCounter = enc.rowCounter + UInt64.ofNat (rowsIn out.records) := by
  have hnothing : enc.rowCounter = enc.rowCounter + UInt64.ofNat 0 := (UInt64.add_zero _).symm
  rcases possible_cases h with ⟨hclock, rfl⟩ | ⟨clock, hclock, rfl⟩ |
    ⟨clock, enc', row, hclock, hrow, rfl⟩
  · refine ⟨?_, rfl, hnothing⟩
    simp [recordsOf, hclock]
  · have hzero := (rowsIn_clock hclock).1
    refine ⟨?_, hzero, ?_⟩
    · simp [recordsOf, hclock]
    · rw [hzero]
      exact hnothing
  · obtain ⟨hcount, hone, -⟩ := rowsIn_row hrow
    have hrows : rowsIn (clock ++ row) = 1 := by
      rw [rowsIn_append, (rowsIn_clock hclock).1, hone]
    refine ⟨?_, hrows, ?_⟩
    · simp [recordsOf, hclock, hrow]
    · rw [hrows]
      exact hcount

/-- The clock is not set, and nothing is written; or the first record of all has set it,
and no other has. -/
def Starts (enc : Encoder) (rs : List Record) : Prop :=
  (enc.timestampCurrent = TS_NULL ∧ rs = []) ∨
    (enc.timestampCurrent ≠ TS_NULL ∧
      ∃ tick later, rs = .setTimestamp tick :: later ∧ countOf .setTimestamp later = 0)

theorem row_sets (hrow : enc.row c = some (enc', rs)) :
    enc'.timestampCurrent = enc.timestampCurrent ∧ countOf .setTimestamp rs = 0 := by
  have hvalue : ∀ index, countOf .setTimestamp [c.value.record index] = 0 := by
    intro index
    have hnone : (c.value.record index).type? ≠ some .setTimestamp := by
      cases c.value with
      | bool b => cases b <;> simp [Value.record, Record.type?]
      | intPos v => simp only [Value.record]; split <;> simp [Record.type?]
      | intNeg v | double v | string v | null => simp [Value.record, Record.type?]
    simp [countOf, hnone]
  unfold Encoder.row at hrow
  split at hrow
  · unfold Encoder.newRow at hrow
    split at hrow
    · cases hrow
      refine ⟨rfl, ?_⟩
      change countOf .setTimestamp ([Record.nameAssign _] ++ [_]) = 0
      rw [countOf_append, hvalue]
      rfl
    · cases hrow
  · unfold Encoder.knownRow at hrow
    split at hrow <;> cases hrow
    · exact ⟨rfl, rfl⟩
    · exact ⟨rfl, hvalue _⟩

theorem clock_sets {tick : UInt64} (hclock : enc.clock tick = some rs) :
    (enc.timestampCurrent = TS_NULL ∧ (tick = TS_NULL ∨ rs = [.setTimestamp tick])) ∨
      (enc.timestampCurrent ≠ TS_NULL ∧ countOf .setTimestamp rs = 0) := by
  unfold Encoder.clock at hclock
  by_cases hnull : enc.timestampCurrent = TS_NULL
  · refine Or.inl ⟨hnull, ?_⟩
    split_ifs at hclock with hsame <;> cases hclock
    · exact Or.inl (hsame.symm.trans hnull)
    · exact Or.inr rfl
  · refine Or.inr ⟨hnull, ?_⟩
    split_ifs at hclock <;> cases hclock <;> rfl

/-- The result of a call decides everything that comes of it. -/
theorem Possible.unique {out' : Outcome} (h : enc.Possible limit c out)
    (h' : enc.Possible limit c out') (hok : out.ok = out'.ok) : out = out' := by
  rcases possible_cases h with ⟨hclock, rfl⟩ | ⟨clock, hclock, rfl⟩ |
    ⟨clock, enc₁, row, hclock, hrow, rfl⟩
  · rcases possible_cases h' with ⟨-, rfl⟩ | ⟨clock', hclock', rfl⟩ | ⟨_, _, _, -, -, rfl⟩
    · rfl
    · cases hclock.symm.trans hclock'
    · cases hok
  · rcases possible_cases h' with ⟨hclock', rfl⟩ | ⟨clock', hclock', rfl⟩ | ⟨_, _, _, -, -, rfl⟩
    · cases hclock.symm.trans hclock'
    · cases hclock.symm.trans hclock'
      rfl
    · cases hok
  · rcases possible_cases h' with ⟨-, rfl⟩ | ⟨_, -, rfl⟩ | ⟨clock', enc₂, row', hclock', hrow', rfl⟩
    · cases hok
    · cases hok
    · cases hclock.symm.trans hclock'
      cases hrow.symm.trans hrow'
      rfl

/-- A call sets the clock if it is the first. -/
theorem Starts.possible (hstarts : enc.Starts rs) (h : enc.Possible limit c out) :
    out.encoder.Starts (rs ++ out.records) := by
  have htick : c.tick.val ≠ TS_NULL := fun heq => absurd c.tick.property (by rw [heq]; decide)
  -- behind a timestamp that was taken, the clock is set
  have hstamped : ∀ {clock row : List Record}, enc.clock c.tick = some clock →
      countOf .setTimestamp row = 0 → ∃ tick later,
        rs ++ (clock ++ row) = .setTimestamp tick :: later ∧ countOf .setTimestamp later = 0 := by
    intro clock row hclock hrow
    rcases clock_sets hclock with ⟨hnull, hfirst⟩ | ⟨hset, hnone⟩
    · obtain rfl : rs = [] := by
        rcases hstarts with ⟨-, hempty⟩ | ⟨hset, -⟩
        · exact hempty
        · exact absurd hnull hset
      obtain rfl := hfirst.resolve_left htick
      exact ⟨_, row, rfl, hrow⟩
    · rcases hstarts with ⟨hnull, -⟩ | ⟨-, tick, later, rfl, hlater⟩
      · exact absurd hnull hset
      · refine ⟨tick, later ++ (clock ++ row), rfl, ?_⟩
        rw [countOf_append, countOf_append, hlater, hnone, hrow]
  rcases possible_cases h with ⟨hclock, rfl⟩ | ⟨clock, hclock, rfl⟩ |
    ⟨clock, enc', row, hclock, hrow, rfl⟩
  · rw [List.append_nil]
    exact hstarts
  · have hall := @hstamped clock [] hclock rfl
    rw [List.append_nil] at hall
    exact Or.inr ⟨htick, hall⟩
  · obtain ⟨hsame, hnone⟩ := row_sets hrow
    refine Or.inr ⟨?_, hstamped hclock hnone⟩
    change enc'.timestampCurrent ≠ TS_NULL
    rw [hsame]
    exact htick

end Encoder

/-! ### The bytes written -/

section Written

variable {zstd : Zstd}

/-- Calls with the results of the encoder write what it writes. -/
theorem written_moves (moves : List Move) : ∀ {h : Handle},
    (h.moves zstd moves).1 =
        (h.channel.encoder.run h.channel.threshold (injectsOf moves)).oks →
      (h.moves zstd moves).2.channel.written = h.channel.written ++
        encodeAll (h.channel.encoder.run h.channel.threshold (injectsOf moves)).records := by
  induction moves with
  | nil => exact fun _ => (List.append_nil _).symm
  | cons move moves ih =>
    intro h hoks
    cases move with
    | flush =>
      obtain ⟨hon, hencoder⟩ := @onwards_channelFlush zstd h
      have hthreshold : (h.channelFlush zstd).2.channel.threshold = h.channel.threshold :=
        congrArg Shape.threshold hon.shape
      have hwritten := hon.written
      rw [encodeAll_nil, List.append_nil] at hwritten
      have hlater := @ih (h.channelFlush zstd).2
      rw [hencoder, hthreshold, hwritten] at hlater
      exact hlater hoks
    | inject c =>
      obtain ⟨out, hpossible, hok, hencoder, hon⟩ := @onwards_inject zstd c h
      obtain ⟨hfirst, hrest⟩ := List.cons.inj hoks
      obtain rfl := hpossible.unique (Or.inl rfl) (hok.symm.trans hfirst)
      have hthreshold : (c.inject zstd h).2.channel.threshold = h.channel.threshold :=
        congrArg Shape.threshold hon.shape
      have hlater := @ih (c.inject zstd h).2
      rw [hencoder, hthreshold, hon.written] at hlater
      refine (hlater hrest).trans ?_
      rw [List.append_assoc, ← encodeAll_append]
      rfl

/-- **All bytes written** are those of the blocks that were sent and of the bucket, while
compressor and flusher succeed. -/
theorem written_eq (hlossless : zstd.Lossless) (parent : Parent)
    (hwilling : Willing parent.answers) (id channelType : UInt8) (bucketSize : UInt32)
    (moves : List Move)
    (hpacked : Handle.Packed zstd ⟨parent, Channel.init id channelType bucketSize⟩
      (Handle.moves zstd ⟨parent, Channel.init id channelType bucketSize⟩ moves).2) :
    let ch := (Handle.moves zstd ⟨parent, Channel.init id channelType bucketSize⟩ moves).2.channel
    ch.written = ch.cCtx.flatten ++ ch.pending := by
  intro ch
  let h : Handle := ⟨parent, Channel.init id channelType bucketSize⟩
  obtain ⟨hoks, -, sent, held, hsends⟩ := moves_spec hlossless moves
    (show h.channel.pending = encodeAll [] from rfl) (Channel.sound_init id channelType bucketSize)
    hwilling hpacked
  obtain ⟨-, hcctx⟩ := (hsends.willing hwilling).2 hpacked
  have hwritten : ch.written = _ := written_moves moves hoks
  have hcontent := hsends.content
  rw [List.nil_append] at hcontent
  have hblocks : encodeAll (sent.flatMap Sent.block) =
      (sent.map fun s => encodeAll s.block).flatten := by
    rw [encodeAll, List.flatMap_assoc, List.flatMap_def]
    rfl
  rw [hwritten, hcontent, encodeAll_append, hsends.pending, hcctx, hblocks]
  rfl

end Written

/-! ### Runs -/

namespace Metered

variable {zstd : Zstd} {m : Metered} {rs : List Record}

/-- These records were written, and the counters were bumped for them. -/
structure Tallied (m : Metered) (rs : List Record) : Prop where
  written : m.handle.channel.written = encodeAll rs
  rows : m.handle.channel.base.rowCounter = UInt64.ofNat (rowsIn rs)
  types : m.stats.rows = UInt64.ofNat (rowsIn rs)
  adds : Stats.init.Adds rs m.stats
  starts : m.handle.channel.encoder.Starts rs

theorem tallied_init (parent : Parent) (id channelType : UInt8) (bucketSize : UInt32) :
    (init parent id channelType bucketSize).Tallied [] :=
  ⟨rfl, rfl, rfl, ⟨rfl, rfl, rfl, rfl⟩, Or.inl ⟨rfl, rfl⟩⟩

/-- **A call** is counted, accepted or not. -/
theorem Tallied.inject (h : m.Tallied rs) (c : Call) :
    ∃ rs', (m.inject zstd c).2.Tallied (rs ++ rs') ∧
      rowsIn rs' = (m.inject zstd c).1.toNat := by
  obtain ⟨out, hpossible, hok, hencoder, hon⟩ := @onwards_inject zstd c m.handle
  obtain ⟨hrecords, hrows, hcounter⟩ := Encoder.possible_records hpossible
  rw [inject_eq]
  refine ⟨out.records, ?_, by rw [hrows, hok]⟩
  constructor
  · rw [hon.written, h.written, encodeAll_append]
  · have hbase : (c.inject zstd m.handle).2.channel.base.rowCounter = out.encoder.rowCounter :=
      congrArg Encoder.rowCounter hencoder
    have hbefore : m.handle.channel.encoder.rowCounter = UInt64.ofNat (rowsIn rs) := h.rows
    rw [hbase, hcounter, hbefore, rowsIn_append, UInt64.ofNat_add]
  · rw [rowsIn_append, UInt64.ofNat_add, ← h.types, hrows, hok]
    exact c.rows_counted _ _ _
  · rw [hok, hrecords]
    exact h.adds.trans (c.adds_counted _ _ _)
  · have hstarts := h.starts.possible hpossible
    rwa [← hencoder] at hstarts

/-- A flush writes nothing and counts nothing here. -/
theorem Tallied.flush (h : m.Tallied rs) :
    Tallied { m with handle := (m.handle.channelFlush zstd).2 } rs := by
  obtain ⟨hon, hencoder⟩ := @onwards_channelFlush zstd m.handle
  constructor
  · have hwritten := hon.written
    rw [encodeAll_nil, List.append_nil] at hwritten
    exact hwritten.trans h.written
  · exact (congrArg Encoder.rowCounter hencoder).trans h.rows
  · exact h.types
  · exact h.adds
  · have hstarts := h.starts
    rwa [← hencoder] at hstarts

/-- **Any calls**, by induction: as many rows are written as calls are accepted. -/
theorem Tallied.moves (moves : List Move) : ∀ {m : Metered} {rs : List Record}, m.Tallied rs →
    ∃ rs', (m.moves zstd moves).2.Tallied rs' ∧
      rowsIn rs' = rowsIn rs + (m.moves zstd moves).1.count true := by
  induction moves with
  | nil => exact fun h => ⟨_, h, rfl⟩
  | cons move moves ih =>
    intro m rs h
    cases move with
    | flush => exact ih h.flush
    | inject c =>
      obtain ⟨rs₁, h₁, hone⟩ := @Tallied.inject zstd m rs h c
      obtain ⟨rs', h', hlater⟩ := ih h₁
      refine ⟨rs', h', ?_⟩
      change rowsIn rs' = rowsIn rs +
        ((m.inject zstd c).1 :: ((m.inject zstd c).2.moves zstd moves).1).count true
      rw [hlater, rowsIn_append, hone, List.count_cons]
      cases (m.inject zstd c).1 with
      | false => simp
      | true =>
        simp only [Bool.toNat_true, beq_self_eq_true, if_true]
        omega

/-- The counters match a sequence of records, where `shows` says how a counter of 64 bits
shows a number. -/
structure Matches (shows : UInt64 → Nat → Prop) (m : Metered) (rs : List Record) : Prop where
  types : m.handle.channel.base.rowCounter = m.stats.rows
  rows : shows m.handle.channel.base.rowCounter (rowsIn rs)
  unmodified : shows m.stats.typeUnmodified (countOf .unmodified rs)
  sets : shows m.stats.timeSets (countOf .setTimestamp rs)
  shifts : shows m.stats.timeShifts (countOf .shiftTimestamp rs)
  names : shows m.stats.colsAssigned (countOf .nameAssign rs)
  once : countOf .setTimestamp rs ≤ 1
  first : ∀ before r after, rs = before ++ r :: after → r.index?.isSome = true →
    ∃ tick, .setTimestamp tick ∈ before

/-- The counters match all bytes that were written, which are records in one way only. -/
def MatchesStream (shows : UInt64 → Nat → Prop) (m : Metered) : Prop :=
  ∃ rs, m.handle.channel.written = encodeAll rs ∧
    (∀ rs', m.handle.channel.written = encodeAll rs' → rs' = rs) ∧ m.Matches shows rs

/-- Up to the width of the counter. -/
def Modulo (counter : UInt64) (n : Nat) : Prop := counter.toNat = n % 2 ^ 64

def Exactly (counter : UInt64) (n : Nat) : Prop := counter.toNat = n

theorem modulo_of_add {counter : UInt64} {n : Nat} (h : counter = 0 + UInt64.ofNat n) :
    Modulo counter n := by
  rw [Modulo, h, UInt64.zero_add, UInt64.toNat_ofNat']

theorem Tallied.matches (h : m.Tallied rs) : m.Matches Modulo rs where
  types := h.rows.trans h.types.symm
  rows := by rw [Modulo, h.rows, UInt64.toNat_ofNat']
  unmodified := modulo_of_add h.adds.unmodified
  sets := modulo_of_add h.adds.sets
  shifts := modulo_of_add h.adds.shifts
  names := modulo_of_add h.adds.names
  once := by
    rcases h.starts with ⟨-, rfl⟩ | ⟨-, tick, later, rfl, hlater⟩
    · exact Nat.zero_le _
    · change countOf .setTimestamp ([Record.setTimestamp tick] ++ later) ≤ 1
      rw [countOf_append, hlater]
      exact le_rfl
  first := by
    intro before r after hrs hrow
    rcases h.starts with ⟨-, rfl⟩ | ⟨-, tick, later, rfl, -⟩
    · exact absurd hrs.symm (by simp)
    · cases before with
      | nil =>
        -- the first record of all is no row
        cases (List.cons.inj hrs).1
        cases hrow
      | cons r' before =>
        cases (List.cons.inj hrs).1
        exact ⟨tick, List.mem_cons_self⟩

/-- **Statistics match the stream**: after any injects, accepted or not, and any flushes,
whatever the compressor and the flusher do.  The stream is what `written_eq` says. -/
theorem stats_match (zstd : Zstd) (parent : Parent) (id channelType : UInt8)
    (bucketSize : UInt32) (moves : List Move) :
    ((init parent id channelType bucketSize).moves zstd moves).2.MatchesStream Modulo := by
  obtain ⟨rs, htallied, -⟩ :=
    @Tallied.moves zstd moves _ _ (tallied_init parent id channelType bucketSize)
  refine ⟨rs, htallied.written, ?_, htallied.matches⟩
  intro rs' hwritten
  exact encodeAll_injective (hwritten.symm.trans htallied.written)

/-! ### More rows than a counter has numbers -/

theorem moves_eq (moves : List Move) : ∀ m : Metered,
    (m.moves zstd moves).1 = (m.handle.moves zstd moves).1 ∧
      (m.moves zstd moves).2.handle = (m.handle.moves zstd moves).2 := by
  induction moves with
  | nil => exact fun _ => ⟨rfl, rfl⟩
  | cons move moves ih =>
    intro m
    cases move with
    | flush => exact ih _
    | inject c =>
      obtain ⟨hoks, hhandle⟩ := ih (m.inject zstd c).2
      have hcall : (m.inject zstd c).1 = (c.inject zstd m.handle).1 ∧
          (m.inject zstd c).2.handle = (c.inject zstd m.handle).2 := by
        rw [inject_eq]
        exact ⟨rfl, rfl⟩
      rw [hcall.2] at hoks hhandle
      refine ⟨?_, hhandle⟩
      change (m.inject zstd c).1 :: ((m.inject zstd c).2.moves zstd moves).1 =
        (c.inject zstd m.handle).1 :: ((c.inject zstd m.handle).2.moves zstd moves).1
      rw [hcall.1, hoks]

/-- The call of one tick is accepted as often as it is made. -/
theorem oks_replicate {limit : Nat} {c : Call} (hfits : c.Fits) (htext : c.value.textSize ≤ limit)
    (n : Nat) : ∀ {enc : Encoder},
      enc.timestampCurrent = TS_NULL ∨ enc.timestampCurrent = c.tick.val →
        (enc.run limit (List.replicate n c)).oks = List.replicate n true := by
  induction n with
  | zero => exact fun _ => rfl
  | succ n ih =>
    intro enc htick
    obtain ⟨clock, hclock⟩ : ∃ clock, enc.clock c.tick = some clock := by
      unfold Encoder.clock
      by_cases hsame : enc.timestampCurrent = c.tick.val
      · exact ⟨_, if_pos hsame⟩
      · rw [if_neg hsame, if_pos (htick.resolve_right hsame)]
        exact ⟨_, rfl⟩
    obtain ⟨enc', row, hrow⟩ : ∃ enc' row,
        Encoder.row { enc with timestampCurrent := c.tick } c = some (enc', row) := by
      unfold Encoder.row
      split
      · rw [Encoder.newRow, dif_pos hfits]
        exact ⟨_, _, rfl⟩
      · exact ⟨_, _, rfl⟩
    have hinject : enc.inject limit c = ⟨true, enc', clock ++ row⟩ := by
      simp only [Encoder.inject, hclock, if_neg (Nat.not_lt.mpr htext), hrow]
    have hlater := ih (Or.inr (Encoder.row_sets hrow).1)
    rw [List.replicate_succ, List.replicate_succ]
    simp only [Encoder.run, hinject, hlater]

/-- A channel of 512 bytes, and a null value for a sensor without a name. -/
def small : Metered := init ⟨[], [], [], .none, .opened⟩ 1 0 512

def blank : Call := ⟨⟨7, seven_lt_TS_NULL⟩, CStr.empty, none, .null, []⟩

theorem rows_small (n : Nat) :
    ∃ rs, (small.moves Zstd.stored (List.replicate n (.inject blank))).2.Tallied rs ∧
      rowsIn rs = n := by
  have hinjects : injectsOf (List.replicate n (.inject blank)) = List.replicate n blank := by
    simp [injectsOf]
  have hoks := @oks_textless Zstd.stored (List.replicate n (.inject blank)) small.handle
    fun c hc => by
      rw [hinjects] at hc
      rw [List.eq_of_mem_replicate hc]
      rfl
  rw [hinjects, oks_replicate (by decide) (Nat.zero_le _) n (Or.inl rfl)] at hoks
  obtain ⟨rs, htallied, hrows⟩ :=
    @Tallied.moves Zstd.stored (List.replicate n (.inject blank)) _ _ (tallied_init _ 1 0 512)
  refine ⟨rs, htallied, ?_⟩
  have hall := (@moves_eq Zstd.stored (List.replicate n (.inject blank)) small).1.trans hoks
  change (small.moves Zstd.stored (List.replicate n (.inject blank))).1 = _ at hall
  rw [hrows]
  change rowsIn [] + (small.moves Zstd.stored (List.replicate n (.inject blank))).1.count true = n
  rw [hall, List.count_replicate_self]
  exact Nat.zero_add n

/-- 2^64 rows, and the row counter is back at zero. -/
theorem not_matchesStream_wrapped :
    ¬ (small.moves Zstd.stored (List.replicate (2 ^ 64) (.inject blank))).2.MatchesStream
      Exactly := by
  rintro ⟨rs, -, hunique, hmatches⟩
  obtain ⟨rs', htallied, hrows⟩ := rows_small (2 ^ 64)
  have hcount := hmatches.rows
  rw [← hunique rs' htallied.written, Exactly, hrows] at hcount
  have hlt := (small.moves Zstd.stored
    (List.replicate (2 ^ 64) (.inject blank))).2.handle.channel.base.rowCounter.toNat_lt
  omega

end Metered

end Otic.Pack
