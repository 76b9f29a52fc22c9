import Otic.Pack.Sends

/-!
# The channel refines its encoder

`writeRow_eq` compares the rows of `pack.c` with those of the encoder, `inject_spec`
whole calls.  The one way a call can part from the encoder is the flush inside
`inject_s`, whose failure makes the call fail (`Stalls`).
-/

namespace Otic.Pack

/-! ### Rows -/

/-- A channel with the encoder exchanged. -/
def Channel.install (ch : Channel) (enc : Encoder) : Channel :=
  { ch with
    base := { ch.base with
      timestampCurrent := enc.timestampCurrent
      rowCounter := enc.rowCounter }
    cache := enc.cache
    totalEntries := enc.totalEntries }

@[simp] theorem Channel.encoder_install (ch : Channel) (enc : Encoder) :
    (ch.install enc).encoder = enc := rfl

@[simp] theorem Channel.shape_install (ch : Channel) (enc : Encoder) :
    (ch.install enc).shape = ch.shape := rfl

@[simp] theorem Channel.encoder_put (ch : Channel) (bytes : List UInt8) :
    (ch.put bytes).encoder = ch.encoder := rfl

@[simp] theorem Channel.shape_put (ch : Channel) (bytes : List UInt8) :
    (ch.put bytes).shape = ch.shape := rfl

/-- **The row part** of every inject writes the encoder's records. -/
theorem writeRow_eq (ch : Channel) (c : Call) :
    (ch.writeRow c.injection (Channel.entryFind ch.cache c.sensorName) c.sensorName c.unit).map
        Channel.countRow =
      (ch.encoder.row c).map fun out => (ch.put (encodeAll out.2)).install out.1 := by
  have hcache : ch.encoder.cache = ch.cache := rfl
  unfold Channel.writeRow Encoder.row
  rw [hcache]
  cases hentry : Channel.entryFind ch.cache c.sensorName with
  | none =>
    have hsize : c.unitStr.size = c.unitStr.bytes.length := rfl
    by_cases hfits : c.Fits
    · have hfits' : ¬ UINT8_MAX < c.sensorName.size + (c.unit.getD CStr.empty).size + 1 := by
        simpa [Call.Fits, Call.unitStr, CStr.size] using hfits
      simp only [Encoder.newRow, dif_pos hfits, if_neg hfits', Option.map_some, encodeAll_cons,
        encodeAll_nil, List.append_nil]
      congr 1
      -- naming the sensor and writing the row put one record each
      have hname : ∀ ch : Channel, ch.idAssign c.sensorName c.unitStr.bytes =
          ch.put (Record.nameAssign ⟨c.sensorName, c.unitStr.bytes, hfits⟩).encode :=
        fun ch => ch.writeRecord_eq_put (.nameAssign ⟨c.sensorName, c.unitStr.bytes, hfits⟩)
      have hrow : ∀ (ch : Channel) (index : UInt16), c.injection.write index.toUInt64 ch =
          ch.put (c.value.record index.toUInt32).encode := by
        intro ch index
        rw [← Channel.writeRecord_eq_put, ← Channel.write_injection]
        simp
      have hboth : ∀ (ch : Channel) (index : UInt16),
          c.injection.write index.toUInt64
              (ch.idAssign c.sensorName (c.unit.getD CStr.empty).bytes) =
            ch.put ((Record.nameAssign ⟨c.sensorName, c.unitStr.bytes, hfits⟩).encode ++
              (c.value.record index.toUInt32).encode) := by
        intro ch index
        change c.injection.write index.toUInt64 (ch.idAssign c.sensorName c.unitStr.bytes) = _
        rw [hname, hrow, Channel.put_put]
      simp only [hboth]
      rfl
    · have hfits' : UINT8_MAX < c.sensorName.size + (c.unit.getD CStr.empty).size + 1 := by
        simpa [Call.Fits, Call.unitStr, CStr.size] using hfits
      simp only [Encoder.newRow, dif_neg hfits, if_pos hfits', Option.map_none]
  | some entry =>
    simp only [Encoder.knownRow]
    by_cases hsame : c.injection.same entry.lastValue = true
    · have hrecord : (ch.writeByte OticType.unmodified.toByte).writeLong entry.index.toUInt64 =
          ch.put (Record.unmodified entry.index).encode :=
        ch.writeRecord_eq_put (.unmodified entry.index)
      simp only [if_pos hsame, hrecord, Option.map_some, encodeAll_cons, encodeAll_nil,
        List.append_nil]
      rfl
    · simp only [if_neg hsame, Channel.write_injection, Channel.writeRecord_eq_put,
        Option.map_some, encodeAll_cons, encodeAll_nil, List.append_nil]
      rfl

/-- A row takes little more than the text of a string. -/
theorem Value.length_record_le (value : Value) (index : UInt32) :
    (value.record index).encode.length ≤ 16 + value.textSize := by
  have hle := length_encode_le (value.record index)
  cases value with
  | bool b => cases b <;> simpa [Value.record, Value.textSize] using hle
  | intPos v =>
    by_cases hsmall : v < SMALL_INT_LIMIT.toUInt64
    · simpa [Value.record, Value.textSize, hsmall] using hle
    · simpa [Value.record, Value.textSize, hsmall] using hle
  | string s => simpa [Value.record, Value.textSize, CStr.size] using hle
  | intNeg v => simpa [Value.record, Value.textSize] using hle
  | double v => simpa [Value.record, Value.textSize] using hle
  | null => simpa [Value.record, Value.textSize] using hle

theorem Encoder.length_row_le {enc enc' : Encoder} {c : Call} {records : List Record}
    (h : enc.row c = some (enc', records)) :
    (encodeAll records).length ≤ 273 + c.value.textSize := by
  have hrecord := c.value.length_record_le
  have hencode := length_encode_le
  unfold Encoder.row at h
  split at h
  · simp only [Encoder.newRow] at h
    split at h
    · rename_i hfits
      simp only [Option.some.injEq, Prod.mk.injEq] at h
      obtain ⟨-, rfl⟩ := h
      have hname := hencode (.nameAssign ⟨c.sensorName, c.unitStr.bytes, hfits⟩)
      have hrow := hrecord enc.totalEntries.toUInt32
      simp only [encodeAll_cons, encodeAll_nil, List.append_nil, List.length_append]
      dsimp only at hname
      omega
    · cases h
  · rename_i entry hentry
    simp only [Encoder.knownRow, Option.some.injEq] at h
    split at h
    · obtain ⟨-, rfl⟩ := Prod.mk.inj h
      have hrow := hencode (.unmodified entry.index)
      simp only [encodeAll_cons, encodeAll_nil, List.append_nil]
      dsimp only at hrow
      omega
    · obtain ⟨-, rfl⟩ := Prod.mk.inj h
      have hrow := hrecord entry.index
      simp only [encodeAll_cons, encodeAll_nil, List.append_nil]
      omega

/-! ### Calls -/

variable {zstd : Zstd} {h : Handle} {held : List Record}

/-- Everything from the row on. -/
theorem finishRow_spec (hlossless : zstd.Lossless) (hheld : h.channel.pending = encodeAll held)
    (hsound : h.channel.Sound) (hanswers : NeverTorn h.parent.answers) (c : Call)
    (failState : OticState) :
    ∃ ok h', h.finishRow zstd failState c.injection
        (Channel.entryFind h.channel.cache c.sensorName) c.sensorName c.unit = (ok, h') ∧
      match h.channel.encoder.row c with
      | none => ok = false ∧ h'.channel.encoder = h.channel.encoder ∧
          Sends zstd h held [] [] h' held
      | some out => ok = true ∧ h'.channel.encoder = out.1 ∧
          ∃ sent held', Sends zstd h held out.2 sent h' held' := by
  have hwrite := writeRow_eq h.channel c
  unfold Handle.finishRow
  cases hrow : h.channel.encoder.row c with
  | none =>
    rw [hrow, Option.map_none, Option.map_eq_none_iff] at hwrite
    rw [hwrite]
    exact ⟨false, _, rfl, rfl, rfl, Sends.idle hheld hsound hanswers rfl rfl rfl rfl⟩
  | some out =>
    rw [hrow, Option.map_some, Option.map_eq_some_iff] at hwrite
    obtain ⟨ch, hch, hcount⟩ := hwrite
    rw [hch]
    dsimp only
    rw [hcount]
    have hinstalled : (h.channel.put (encodeAll out.2)).install out.1 =
        (h.channel.install out.1).put (encodeAll out.2) := rfl
    have hrecords : Sends zstd h held out.2 []
        { h with channel := (h.channel.put (encodeAll out.2)).install out.1 } (held ++ out.2) :=
      Sends.put hheld hanswers (h.channel.install out.1) rfl rfl rfl rfl hinstalled
    obtain ⟨sent, held', hsends, hencoder⟩ :=
      flushIfFlushable_spec hlossless hrecords.pending hrecords.sound hanswers
    exact ⟨true, _, rfl, rfl, hencoder, sent, held', by simpa using hrecords.trans hsends⟩

/-- What a call of a channel comes to, next to what it is for the encoder. -/
def Follows (zstd : Zstd) (h : Handle) (held : List Record) (out : Encoder.Outcome) (ok : Bool)
    (h' : Handle) : Prop :=
  ok = out.ok ∧ h'.channel.encoder = out.encoder ∧
    ∃ sent held', Sends zstd h held out.records sent h' held'

/-- What a call of `inject_s` comes to when the flush that makes room for its text fails:
its timestamp is written, and no row. -/
structure Stalls (zstd : Zstd) (h : Handle) (held : List Record) (c : Call) (ok : Bool)
    (h' : Handle) : Prop where
  refused : ok = false
  encoder : h'.channel.encoder = { h.channel.encoder with timestampCurrent := c.tick }
  stamp : ∃ records, h.channel.encoder.clock c.tick = some records ∧
    ∃ sent held', Sends zstd h held records sent h' held'
  unable : ¬ (Willing h.parent.answers ∧ h.Packed zstd h')

/-- A row behind what was written before it. -/
theorem follows_finishRow (hlossless : zstd.Lossless) {h₁ : Handle} {enc : Encoder}
    {records : List Record} {sent : List Sent} {held₁ : List Record}
    (hsends : Sends zstd h held records sent h₁ held₁) (hencoder : h₁.channel.encoder = enc)
    (c : Call) (failState : OticState) :
    ∃ ok h', h₁.finishRow zstd failState c.injection
        (Channel.entryFind h₁.channel.cache c.sensorName) c.sensorName c.unit = (ok, h') ∧
      Follows zstd h held
        (match enc.row c with
          | none => ⟨false, enc, records⟩
          | some (enc', row) => ⟨true, enc', records ++ row⟩) ok h' := by
  obtain ⟨ok, h', hfinish, hrow⟩ :=
    finishRow_spec hlossless hsends.pending hsends.sound hsends.neverTorn c failState
  refine ⟨ok, h', hfinish, ?_⟩
  rw [hencoder] at hrow
  cases hout : enc.row c with
  | none =>
    rw [hout] at hrow
    obtain ⟨rfl, hencoder', hsends'⟩ := hrow
    exact ⟨rfl, hencoder', _, _, by simpa using hsends.trans hsends'⟩
  | some out =>
    rw [hout] at hrow
    obtain ⟨rfl, hencoder', sent', held', hsends'⟩ := hrow
    exact ⟨rfl, hencoder', _, _, hsends.trans hsends'⟩

/-- The calls but those of `inject_s`. -/
theorem injectRow_spec (hlossless : zstd.Lossless) (hheld : h.channel.pending = encodeAll held)
    (hsound : h.channel.Sound) (hanswers : NeverTorn h.parent.answers) (c : Call)
    (htext : c.value.textSize = 0) (failState : OticState) :
    ∃ ok h', h.injectRow zstd failState c.injection c.tick c.sensorName c.unit = (ok, h') ∧
      Follows zstd h held (h.channel.encoder.inject h.channel.threshold c) ok h' := by
  obtain ⟨ok, h₁, hts, hclock⟩ := tsHandler_spec hlossless hheld hsound hanswers c.tick
  unfold Handle.injectRow Encoder.inject
  rw [hts]
  cases htick : h.channel.encoder.clock c.tick with
  | none =>
    rw [htick] at hclock
    obtain ⟨rfl, hencoder, hsends⟩ := hclock
    exact ⟨false, _, rfl, rfl, hencoder, [], held, hsends.setState failState⟩
  | some records =>
    rw [htick] at hclock
    obtain ⟨rfl, hencoder, sent, held₁, hsends⟩ := hclock
    dsimp only
    rw [if_neg (by rw [htext]; exact Nat.not_lt_zero _)]
    exact follows_finishRow hlossless hsends hencoder c failState

/-- The calls of `inject_s`.  They too follow the encoder, unless the flush that makes
room for the string fails. -/
theorem injectS_spec (hlossless : zstd.Lossless) (hheld : h.channel.pending = encodeAll held)
    (hsound : h.channel.Sound) (hanswers : NeverTorn h.parent.answers) (c : Call) {value : CStr}
    (hvalue : c.value = .string value) :
    ∃ ok h', h.injectS zstd c.tick c.sensorName c.unit value c.heap = (ok, h') ∧
      (Follows zstd h held (h.channel.encoder.inject h.channel.threshold c) ok h' ∨
        Stalls zstd h held c ok h') := by
  have htext : c.value.textSize = value.size := by rw [hvalue]; rfl
  have hinjection : c.injection = Channel.sInjection value c.heap := by
    simp only [Call.injection, hvalue]
  obtain ⟨ok, h₁, hts, hclock⟩ := tsHandler_spec hlossless hheld hsound hanswers c.tick
  unfold Handle.injectS Encoder.inject
  rw [hts]
  cases htick : h.channel.encoder.clock c.tick with
  | none =>
    rw [htick] at hclock
    obtain ⟨rfl, hencoder, hsends⟩ := hclock
    exact ⟨false, _, rfl, Or.inl ⟨rfl, hencoder, [], held, hsends.setState .onError⟩⟩
  | some records =>
    rw [htick] at hclock
    obtain ⟨rfl, hencoder, sent, held₁, hsends⟩ := hclock
    have hthreshold : h₁.channel.threshold = h.channel.threshold :=
      congrArg Shape.threshold hsends.shape
    dsimp only
    rw [← hinjection, htext, hthreshold]
    by_cases hlong : h.channel.threshold < value.size
    · rw [if_pos hlong, if_pos hlong]
      exact ⟨false, _, rfl, Or.inl ⟨rfl, hencoder, sent, held₁,
        (hsends.setError .bufferOverflow).setState .onError⟩⟩
    rw [if_neg hlong, if_neg hlong]
    by_cases hfull : h₁.channel.pending.length ≤ h.channel.threshold ∧
        h.channel.threshold - h₁.channel.pending.length < value.size
    · rw [if_pos hfull]
      obtain ⟨ok, h₂, hflush, hencoder₂, hok, hsent⟩ :=
        channelFlush_spec hlossless hsends.pending hsends.sound hsends.neverTorn
      rw [hflush]
      rcases hsent with ⟨rfl, frame, hsends₂⟩ | ⟨rfl, hsends₂⟩
      · have hboth := hsends.trans hsends₂
        rw [List.append_nil] at hboth
        -- the entries are those from before the flush
        have hcache : h₂.channel.cache = h₁.channel.cache := congrArg Encoder.cache hencoder₂
        obtain ⟨ok, h', hfinish, hfollows⟩ := follows_finishRow hlossless hboth
          (hencoder₂.trans hencoder) c .onError
        rw [hcache] at hfinish
        exact ⟨ok, h', hfinish, Or.inl hfollows⟩
      · have hboth := hsends.trans hsends₂
        rw [List.append_nil] at hboth
        refine ⟨false, _, rfl, Or.inr ⟨rfl, hencoder₂.trans hencoder, ?_, ?_⟩⟩
        · exact ⟨records, htick, _, _, hboth.setState .onError⟩
        · rintro ⟨hwilling, hpacked⟩
          have hsplit := hpacked.split (congrArg Shape.cacheSize hsends.shape) hsends.given
            hsends₂.given
          exact absurd (hok (hsends.willing hwilling).1.headD hsplit.2) (by decide)
    · rw [if_neg hfull]
      obtain ⟨ok, h', hfinish, hfollows⟩ :=
        follows_finishRow hlossless hsends hencoder c .onError
      exact ⟨ok, h', hfinish, Or.inl hfollows⟩

/-- **A call follows the encoder.**  Its result, the channel's encoder and the records
written are the encoder's, whatever was flushed on the way; only the failure of the
flush inside `inject_s` makes a call fail that the encoder accepts. -/
theorem inject_spec (hlossless : zstd.Lossless) (hheld : h.channel.pending = encodeAll held)
    (hsound : h.channel.Sound) (hanswers : NeverTorn h.parent.answers) (c : Call) :
    ∃ ok h', c.inject zstd h = (ok, h') ∧
      (Follows zstd h held (h.channel.encoder.inject h.channel.threshold c) ok h' ∨
        Stalls zstd h held c ok h') := by
  have hrow : ∀ failState, c.value.textSize = 0 →
      ∃ ok h', h.injectRow zstd failState c.injection c.tick c.sensorName c.unit = (ok, h') ∧
        (Follows zstd h held (h.channel.encoder.inject h.channel.threshold c) ok h' ∨
          Stalls zstd h held c ok h') := by
    intro failState htext
    obtain ⟨ok, h', hinject, hfollows⟩ :=
      injectRow_spec hlossless hheld hsound hanswers c htext failState
    exact ⟨ok, h', hinject, Or.inl hfollows⟩
  unfold Call.inject
  cases hvalue : c.value with
  | string value => exact injectS_spec hlossless hheld hsound hanswers c hvalue
  | bool value =>
    have hcall := hrow .closed (by rw [hvalue]; rfl)
    rwa [Call.injection, hvalue] at hcall
  | intNeg value =>
    have hcall := hrow .closed (by rw [hvalue]; rfl)
    rwa [Call.injection, hvalue] at hcall
  | intPos value =>
    have hcall := hrow .onError (by rw [hvalue]; rfl)
    rwa [Call.injection, hvalue] at hcall
  | double value =>
    have hcall := hrow .onError (by rw [hvalue]; rfl)
    rwa [Call.injection, hvalue] at hcall
  | null =>
    have hcall := hrow .closed (by rw [hvalue]; rfl)
    rwa [Call.injection, hvalue] at hcall

/-- With a flusher that takes everything, and blocks that are compressed, there is no
exception. -/
theorem inject_spec_willing (hlossless : zstd.Lossless)
    (hheld : h.channel.pending = encodeAll held) (hsound : h.channel.Sound)
    (hwilling : Willing h.parent.answers) (c : Call)
    (hpacked : h.Packed zstd (c.inject zstd h).2) :
    ∃ ok h', c.inject zstd h = (ok, h') ∧
      Follows zstd h held (h.channel.encoder.inject h.channel.threshold c) ok h' := by
  obtain ⟨ok, h', hinject, hfollows | hstalls⟩ :=
    inject_spec hlossless hheld hsound hwilling.neverTorn c
  · exact ⟨ok, h', hinject, hfollows⟩
  · rw [hinject] at hpacked
    exact absurd ⟨hwilling, hpacked⟩ hstalls.unable

/-! ### The end of a channel -/

/-- The bucket with the end mark. -/
def Channel.lastBlock (ch : Channel) : List UInt8 :=
  ch.pending ++ (Record.eof ch.base.rowCounter).encode

/-- The compressor compresses the block of the close. -/
def Channel.Closable (zstd : Zstd) (ch : Channel) : Prop :=
  (zstd.compress ch.base.cacheSize.toNat ch.lastBlock).isSome

instance (zstd : Zstd) (ch : Channel) : Decidable (ch.Closable zstd) := by
  unfold Channel.Closable
  infer_instance

theorem finish_eq (h : Handle) :
    h.finish zstd = (Handle.channelFlush zstd
      ⟨h.parent, h.channel.put (Record.eof h.channel.base.rowCounter).encode⟩).2 := by
  rw [← Channel.writeRecord_eq_put]
  rfl

/-- The one block that a close gives the compressor is the last. -/
theorem packed_finish (h : Handle) :
    h.Packed zstd (h.finish zstd) ↔ h.channel.Closable zstd := by
  rw [finish_eq]
  exact @packed_channelFlush zstd
    ⟨h.parent, h.channel.put (Record.eof h.channel.base.rowCounter).encode⟩

/-- **The end of a channel** sends what is left, with the end mark. -/
theorem finish_spec (hlossless : zstd.Lossless) (hheld : h.channel.pending = encodeAll held)
    (hwilling : Willing h.parent.answers) (hclosable : h.channel.Closable zstd) :
    ∃ frame, Sends zstd h held [.eof h.channel.base.rowCounter]
      [⟨held ++ [.eof h.channel.base.rowCounter], frame⟩] (h.finish zstd) [] := by
  let mark : Record := .eof h.channel.base.rowCounter
  have hwrite : Sends zstd h held [mark] [] ⟨h.parent, h.channel.put mark.encode⟩
      (held ++ [mark]) :=
    Sends.put hheld hwilling.neverTorn h.channel rfl rfl rfl rfl (by simp)
  obtain ⟨ok, h', hflush, -, hok, hsent⟩ :=
    channelFlush_spec hlossless hwrite.pending hwrite.sound hwilling.neverTorn
  have hpacked : Handle.Packed zstd ⟨h.parent, h.channel.put mark.encode⟩ h' := by
    have hiff := @packed_channelFlush zstd ⟨h.parent, h.channel.put mark.encode⟩
    rw [hflush] at hiff
    exact hiff.mpr hclosable
  rw [finish_eq, hflush]
  rcases hsent with ⟨-, frame, hsends⟩ | ⟨rfl, -⟩
  · exact ⟨frame, by simpa using hwrite.trans hsends⟩
  · exact absurd (hok hwilling.headD hpacked) (by decide)

end Otic.Pack
