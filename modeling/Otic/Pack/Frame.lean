import Otic.Pack.Flush
import Otic.Pack.Pack

/-!
# What calls do whatever the flusher answers

Whatever the flusher answers and whatever the compressor does, a call on a channel
leaves its id and sizes alone, does not undo an overrun, and writes what its encoder
writes (`onwards_inject`); and which channels are open after a call depends on its
result only (`step_ids`).
-/

namespace Otic.Pack

variable {zstd : Zstd} {h : Handle}

/-- From one state of a channel to a later one; `records` were put into the bucket, and
the compressor may have been given blocks. -/
structure Onwards (ch : Channel) (records : List Record) (ch' : Channel) : Prop where
  shape : ch'.shape = ch.shape
  overrun : ch.overrun = true → ch'.overrun = true
  written : ch'.written = ch.written ++ encodeAll records
  given : ∃ blocks, ch'.cCtx = ch.cCtx ++ blocks

/-- Nothing was written or given to the compressor. -/
theorem Onwards.still {ch ch' : Channel} (hshape : ch'.shape = ch.shape)
    (hover : ch'.overrun = ch.overrun) (hwritten : ch'.written = ch.written)
    (hcctx : ch'.cCtx = ch.cCtx) : Onwards ch [] ch' :=
  ⟨hshape, fun hpast => hover.trans hpast, by simp [hwritten], [], by simp [hcctx]⟩

theorem Onwards.refl (ch : Channel) : Onwards ch [] ch := .still rfl rfl rfl rfl

/-- Nor does it matter what else of the channel changes. -/
theorem Onwards.change {ch ch₁ ch' : Channel} {records : List Record}
    (h : Onwards ch records ch₁) (hshape : ch'.shape = ch₁.shape)
    (hover : ch'.overrun = ch₁.overrun) (hwritten : ch'.written = ch₁.written)
    (hcctx : ch'.cCtx = ch₁.cCtx) : Onwards ch records ch' :=
  ⟨hshape.trans h.shape, fun hpast => hover.trans (h.overrun hpast), by rw [hwritten, h.written],
    by rw [hcctx]; exact h.given⟩

theorem Onwards.trans {ch ch₁ ch' : Channel} {records records' : List Record}
    (h : Onwards ch records ch₁) (h' : Onwards ch₁ records' ch') :
    Onwards ch (records ++ records') ch' := by
  obtain ⟨blocks, hblocks⟩ := h.given
  obtain ⟨blocks', hblocks'⟩ := h'.given
  refine ⟨h'.shape.trans h.shape, fun hover => h'.overrun (h.overrun hover), ?_,
    blocks ++ blocks', ?_⟩
  · rw [h'.written, h.written, encodeAll_append, List.append_assoc]
  · rw [hblocks', hblocks, List.append_assoc]

/-- If every block was compressed on the way, then on both parts of it. -/
theorem Onwards.packed {h h₁ h₂ : Handle} {records records' : List Record}
    (h₀₁ : Onwards h.channel records h₁.channel) (h₁₂ : Onwards h₁.channel records' h₂.channel)
    (hpacked : h.Packed zstd h₂) : h.Packed zstd h₁ ∧ h₁.Packed zstd h₂ :=
  hpacked.split (congrArg Shape.cacheSize h₀₁.shape) h₀₁.given h₁₂.given

theorem onwards_put (ch : Channel) (records : List Record) :
    Onwards ch records (ch.put (encodeAll records)) := by
  refine ⟨rfl, fun hover => ?_, rfl, [], (List.append_nil _).symm⟩
  simp [Channel.put, hover]

/-- A flush touches neither what was written nor the encoder. -/
theorem onwards_channelFlush (h : Handle) :
    Onwards h.channel [] (h.channelFlush zstd).2.channel ∧
      (h.channelFlush zstd).2.channel.encoder = h.channel.encoder := by
  obtain ⟨hshape, hencoder⟩ := @Handle.kept_channelFlush zstd h
  have hflush := @Handle.flush_channelFlush zstd h
  rcases hout : h.channelFlush zstd with ⟨ok, h'⟩
  rw [hout] at hflush hshape hencoder
  refine ⟨⟨hshape, ?_, ?_, [h.channel.pending], ?_⟩, hencoder⟩
  · cases hflush with
    | sent | failed => exact id
  · rw [encodeAll_nil, List.append_nil]
    cases hflush with
    | sent | failed => rfl
  · have hgiven := @channelFlush_given zstd h
    rwa [hout] at hgiven

theorem onwards_flushIfFlushable (h : Handle) :
    Onwards h.channel [] (h.flushIfFlushable zstd).channel ∧
      (h.flushIfFlushable zstd).channel.encoder = h.channel.encoder := by
  unfold Handle.flushIfFlushable
  split
  · exact onwards_channelFlush h
  · exact ⟨.refl _, rfl⟩

/-- A timestamp record is written after the base has been set. -/
theorem onwards_stamp (h : Handle) (ch : Channel) (hshape : ch.shape = h.channel.shape)
    (hover : ch.overrun = h.channel.overrun) (hwritten : ch.written = h.channel.written)
    (hcctx : ch.cCtx = h.channel.cCtx) (r : Record) :
    let h' := Handle.flushIfFlushable zstd ⟨h.parent, ch.writeRecord r⟩
    Onwards h.channel [r] h'.channel ∧ h'.channel.encoder = ch.encoder := by
  intro h'
  have hbase : Onwards h.channel [] ch := .still hshape hover hwritten hcctx
  obtain ⟨hflush, hencoder⟩ := @onwards_flushIfFlushable zstd ⟨h.parent, ch.writeRecord r⟩
  have hwrite := onwards_put ch [r]
  rw [encodeAll_cons, encodeAll_nil, List.append_nil, ← ch.writeRecord_eq_put] at hwrite
  refine ⟨by simpa using (hbase.trans hwrite).trans hflush, hencoder.trans ?_⟩
  rw [ch.writeRecord_eq_put]
  rfl

/-- **The timestamp handler** writes the records that bring the clock to the tick. -/
theorem onwards_tsHandler (h : Handle) (tick : UInt64) :
    match h.channel.encoder.clock tick with
    | none => (h.tsHandler zstd tick).1 = false ∧
        Onwards h.channel [] (h.tsHandler zstd tick).2.channel ∧
        (h.tsHandler zstd tick).2.channel.encoder = h.channel.encoder
    | some records => (h.tsHandler zstd tick).1 = true ∧
        Onwards h.channel records (h.tsHandler zstd tick).2.channel ∧
        (h.tsHandler zstd tick).2.channel.encoder =
          { h.channel.encoder with timestampCurrent := tick } := by
  have hsets := @onwards_stamp zstd h
  unfold Handle.tsHandler Encoder.clock
  by_cases hsame : h.channel.base.timestampCurrent = tick
  · have hsame' : h.channel.encoder.timestampCurrent = tick := hsame
    rw [if_pos hsame, if_pos hsame']
    refine ⟨rfl, .refl _, ?_⟩
    rw [← hsame]
    rfl
  have hsame' : ¬ h.channel.encoder.timestampCurrent = tick := hsame
  rw [if_neg hsame, if_neg hsame']
  by_cases hnull : h.channel.base.timestampCurrent = TS_NULL
  · have hnull' : h.channel.encoder.timestampCurrent = TS_NULL := hnull
    rw [if_pos hnull, if_pos hnull']
    obtain ⟨hon, hencoder⟩ := hsets { h.channel with base := { h.channel.base with
      timestampStart := tick, timestampCurrent := tick } } rfl rfl rfl rfl (.setTimestamp tick)
    exact ⟨rfl, hon, hencoder⟩
  have hnull' : ¬ h.channel.encoder.timestampCurrent = TS_NULL := hnull
  rw [if_neg hnull, if_neg hnull']
  by_cases hpast : tick < h.channel.base.timestampCurrent
  · have hpast' : tick < h.channel.encoder.timestampCurrent := hpast
    rw [if_pos hpast, if_pos hpast']
    exact ⟨rfl, .still rfl rfl rfl rfl, rfl⟩
  · have hpast' : ¬ tick < h.channel.encoder.timestampCurrent := hpast
    rw [if_neg hpast, if_neg hpast']
    obtain ⟨hon, hencoder⟩ := hsets { h.channel with base := { h.channel.base with
      timestampCurrent := tick } } rfl rfl rfl rfl
      (.shiftTimestamp (tick - h.channel.base.timestampCurrent))
    exact ⟨rfl, hon, hencoder⟩

/-- **The row** is that of the encoder. -/
theorem onwards_finishRow (h : Handle) (failState : OticState) (c : Call) :
    let out := h.finishRow zstd failState c.injection
      (Channel.entryFind h.channel.cache c.sensorName) c.sensorName c.unit
    match h.channel.encoder.row c with
    | none => out.1 = false ∧ Onwards h.channel [] out.2.channel ∧
        out.2.channel.encoder = h.channel.encoder
    | some (enc, row) => out.1 = true ∧ Onwards h.channel row out.2.channel ∧
        out.2.channel.encoder = enc := by
  intro out
  have hwrite := writeRow_eq h.channel c
  have hout : out = h.finishRow zstd failState c.injection
      (Channel.entryFind h.channel.cache c.sensorName) c.sensorName c.unit := rfl
  unfold Handle.finishRow at hout
  cases hrow : h.channel.encoder.row c with
  | none =>
    rw [hrow, Option.map_none, Option.map_eq_none_iff] at hwrite
    rw [hwrite] at hout
    rw [hout]
    exact ⟨rfl, .still rfl rfl rfl rfl, rfl⟩
  | some row =>
    rw [hrow, Option.map_some, Option.map_eq_some_iff] at hwrite
    obtain ⟨ch, hch, hcount⟩ := hwrite
    rw [hch] at hout
    dsimp only at hout
    rw [hcount] at hout
    have hput := onwards_put h.channel row.2
    have hinstall : Onwards h.channel row.2 ((h.channel.put (encodeAll row.2)).install row.1) :=
      hput.change rfl rfl rfl rfl
    obtain ⟨hflush, hencoder⟩ := @onwards_flushIfFlushable zstd
      ⟨h.parent, (h.channel.put (encodeAll row.2)).install row.1⟩
    rw [hout]
    exact ⟨rfl, by simpa using hinstall.trans hflush, hencoder⟩

/-- An outcome of a call: that of the encoder, or for a text a refusal after the clock was
set. -/
def Encoder.Possible (limit : Nat) (enc : Encoder) (c : Call) (out : Encoder.Outcome) : Prop :=
  out = enc.inject limit c ∨ 0 < c.value.textSize ∧ ∃ records, enc.clock c.tick = some records ∧
    out = ⟨false, { enc with timestampCurrent := c.tick }, records⟩

/-- What a call did to its channel. -/
def CarriesOut (h : Handle) (c : Call) (result : Bool × Handle) : Prop :=
  ∃ out, h.channel.encoder.Possible h.channel.threshold c out ∧ result.1 = out.ok ∧
    result.2.channel.encoder = out.encoder ∧ Onwards h.channel out.records result.2.channel

/-- A row behind what was written before it. -/
theorem carriesOut_finishRow {h h₁ : Handle} {enc : Encoder} {records : List Record}
    (hon : Onwards h.channel records h₁.channel) (hencoder : h₁.channel.encoder = enc)
    (failState : OticState) (c : Call) :
    let result := h₁.finishRow zstd failState c.injection
      (Channel.entryFind h₁.channel.cache c.sensorName) c.sensorName c.unit
    let out : Encoder.Outcome := match enc.row c with
      | none => ⟨false, enc, records⟩
      | some (enc', row) => ⟨true, enc', records ++ row⟩
    result.1 = out.ok ∧ result.2.channel.encoder = out.encoder ∧
      Onwards h.channel out.records result.2.channel := by
  have hrow := @onwards_finishRow zstd h₁ failState c
  rw [hencoder] at hrow
  dsimp only
  cases hout : enc.row c with
  | none =>
    rw [hout] at hrow
    obtain ⟨hok, hon', hencoder'⟩ := hrow
    exact ⟨hok, hencoder', by simpa using hon.trans hon'⟩
  | some row =>
    rw [hout] at hrow
    obtain ⟨hok, hon', hencoder'⟩ := hrow
    exact ⟨hok, hencoder', hon.trans hon'⟩

theorem onwards_injectRow (h : Handle) (failState : OticState) (c : Call)
    (htext : c.value.textSize = 0) :
    CarriesOut h c (h.injectRow zstd failState c.injection c.tick c.sensorName c.unit) := by
  have hts := @onwards_tsHandler zstd h c.tick
  refine ⟨_, Or.inl rfl, ?_⟩
  unfold Handle.injectRow Encoder.inject
  rcases hcase : h.tsHandler zstd c.tick with ⟨ok, h₁⟩
  rw [hcase] at hts
  cases hclock : h.channel.encoder.clock c.tick with
  | none =>
    rw [hclock] at hts
    obtain ⟨rfl, hon, hencoder⟩ := hts
    exact ⟨rfl, hencoder, hon.change rfl rfl rfl rfl⟩
  | some records =>
    rw [hclock] at hts
    obtain ⟨rfl, hon, hencoder⟩ := hts
    dsimp only at hon hencoder ⊢
    rw [if_neg (by omega)]
    exact carriesOut_finishRow hon hencoder failState c

theorem onwards_injectS (h : Handle) (c : Call) {value : CStr} (hvalue : c.value = .string value) :
    CarriesOut h c (h.injectS zstd c.tick c.sensorName c.unit value c.heap) := by
  have htext : c.value.textSize = value.size := by
    rw [hvalue]
    rfl
  have hinjection : Channel.sInjection value c.heap = c.injection := by
    simp only [Call.injection, hvalue]
  have hts := @onwards_tsHandler zstd h c.tick
  unfold Handle.injectS
  rcases hcase : h.tsHandler zstd c.tick with ⟨ok, h₁⟩
  rw [hcase] at hts
  cases hclock : h.channel.encoder.clock c.tick with
  | none =>
    rw [hclock] at hts
    obtain ⟨rfl, hon, hencoder⟩ := hts
    refine ⟨⟨false, h.channel.encoder, []⟩, Or.inl ?_, rfl, hencoder,
      hon.change rfl rfl rfl rfl⟩
    simp only [Encoder.inject, hclock]
  | some records =>
    rw [hclock] at hts
    obtain ⟨rfl, hon, hencoder⟩ := hts
    dsimp only at hon hencoder ⊢
    have hthreshold : h₁.channel.threshold = h.channel.threshold :=
      congrArg Shape.threshold hon.shape
    rw [hinjection]
    by_cases hlong : h.channel.threshold < value.size
    · rw [if_pos (by rw [hthreshold]; exact hlong)]
      refine ⟨⟨false, { h.channel.encoder with timestampCurrent := c.tick }, records⟩, Or.inr
        ⟨by omega, records, hclock, rfl⟩, rfl, hencoder, hon.change rfl rfl rfl rfl⟩
    rw [if_neg (by rw [hthreshold]; exact hlong)]
    -- the bucket may be flushed to make room, and that may be refused
    have hroom : ∀ (ok : Bool) (h₂ : Handle), Onwards h₁.channel [] h₂.channel →
        h₂.channel.encoder = h₁.channel.encoder → (ok = false → 0 < value.size) →
        CarriesOut h c (if !ok then (false, h₂.setState .onError)
          else h₂.finishRow zstd .onError c.injection
            (Channel.entryFind h₁.channel.cache c.sensorName) c.sensorName c.unit) := by
      intro ok h₂ hflush hsame hneeded
      have hon₂ : Onwards h.channel records h₂.channel := by simpa using hon.trans hflush
      cases ok with
      | false =>
        have htext' : 0 < c.value.textSize := by rw [htext]; exact hneeded rfl
        refine ⟨_, Or.inr ⟨htext', records, hclock, rfl⟩, rfl, hsame.trans hencoder, ?_⟩
        exact hon₂.change rfl rfl rfl rfl
      | true =>
        have hcache : h₂.channel.cache = h₁.channel.cache := congrArg Encoder.cache hsame
        have hrow :=
          @carriesOut_finishRow zstd h h₂ _ records hon₂ (hsame.trans hencoder) .onError c
        rw [hcache] at hrow
        refine ⟨_, Or.inl rfl, ?_⟩
        simp only [Encoder.inject, hclock, if_neg (htext.symm ▸ hlong)]
        exact hrow
    split
    · rename_i hfull
      obtain ⟨hflush, hsame⟩ := @onwards_channelFlush zstd h₁
      exact hroom _ _ hflush hsame fun _ => by omega
    · exact hroom true h₁ (.refl _) rfl fun hfalse => by cases hfalse

/-- **Every inject** does what its encoder does, or is refused after its timestamp. -/
theorem onwards_inject (c : Call) (h : Handle) : CarriesOut h c (c.inject zstd h) := by
  have hrow := fun failState htext => @onwards_injectRow zstd h failState c htext
  unfold Call.inject
  cases hvalue : c.value with
  | string value => exact onwards_injectS h c hvalue
  | bool value | intNeg value | intPos value | double value | null =>
    simp only [Call.injection, hvalue, Value.textSize, forall_const] at hrow
    exact hrow _

/-- **The end of a channel** writes the end mark. -/
theorem onwards_finish (h : Handle) :
    Onwards h.channel [.eof h.channel.base.rowCounter] (h.finish zstd).channel := by
  have hmark := onwards_put h.channel [.eof h.channel.base.rowCounter]
  rw [encodeAll_cons, encodeAll_nil, List.append_nil, ← h.channel.writeRecord_eq_put] at hmark
  have hflush := (@onwards_channelFlush zstd
    ⟨h.parent, h.channel.writeRecord (.eof h.channel.base.rowCounter)⟩).1
  exact hmark.trans hflush

/-! ### Open channels -/

/-- The ids of the open channels, the one defined last first. -/
def OticPack.ids (pack : OticPack) : List UInt8 := pack.channels.map Channel.channelId

variable {pack : OticPack}

/-- The handle of an id is an open channel of that id, next to the pack's parent. -/
theorem handle_eq_some {id : UInt8} {h : Handle} (hh : pack.handle id = some h) :
    h.parent = pack.parent ∧ h.channel ∈ pack.channels ∧ h.channel.channelId = id := by
  simp only [OticPack.handle, Option.map_eq_some_iff] at hh
  obtain ⟨ch, hfind, rfl⟩ := hh
  exact ⟨rfl, List.mem_of_find?_eq_some hfind, by simpa using List.find?_some hfind⟩

theorem update_ids (pack : OticPack) (h : Handle) :
    (pack.update h).channels.map Channel.channelId = pack.channels.map Channel.channelId := by
  rw [OticPack.update, List.map_map]
  refine List.map_congr_left fun ch _ => ?_
  simp only [Function.comp_apply]
  split
  · rename_i heq
    exact heq.symm
  · rfl

theorem ids_eraseP (channels : List Channel) (id : UInt8) :
    (channels.eraseP fun current => current.channelId == id).map Channel.channelId =
      (channels.map Channel.channelId).erase id := by
  induction channels with
  | nil => rfl
  | cons ch channels ih =>
    by_cases h : ch.channelId = id
    · simp [h]
    · simp [h, ih]

theorem channelClose_ids (pack : OticPack) (ch : Channel) :
    (pack.channelClose zstd ch).channels.map Channel.channelId =
      (pack.channels.map Channel.channelId).erase ch.channelId :=
  ids_eraseP pack.channels ch.channelId

/-- The ids that are open after a call. -/
def idsAfter (ids : List UInt8) (call : Op × Bool) : List UInt8 :=
  match call.1 with
  | .define _ id _ => if call.2 then id :: ids else ids
  | .close id => ids.erase id
  | .inject _ _ | .flush _ => ids

/-- The channel a call needs to be open. -/
def Op.target : Op → Option UInt8
  | .define _ _ _ => none
  | .inject id _ | .flush id | .close id => some id

theorem handle_isSome {id : UInt8} : (pack.handle id).isSome ↔ id ∈ pack.ids := by
  rw [OticPack.handle, Option.isSome_map, List.find?_isSome, OticPack.ids, List.mem_map]
  constructor
  · rintro ⟨ch, hch, hid⟩
    exact ⟨ch, hch, by simpa using hid⟩
  · rintro ⟨ch, hch, hid⟩
    exact ⟨ch, hch, by simpa using hid⟩

theorem step_isSome (s : Step) :
    (pack.step zstd s).isSome ↔ ∀ id ∈ s.op.target, id ∈ pack.ids := by
  have hhandle : ∀ id, ((pack.hear s.answers).handle id).isSome ↔ id ∈ pack.ids :=
    fun id => handle_isSome
  obtain ⟨op, answers⟩ := s
  unfold OticPack.step
  cases op with
  | define channelType id bufferSize => simp [Op.target]
  | inject id c | flush id | close id =>
    dsimp only
    rw [Option.isSome_map, hhandle]
    simp [Op.target]

/-- When a definition is accepted; the state of the pack stays. -/
theorem defineChannel_ok (channelType id : UInt8) (bufferSize : UInt32) :
    ((pack.defineChannel channelType id bufferSize).1 = true ↔
      pack.parent.state = .opened ∧ id ≠ 0 ∧ id ∉ pack.ids) ∧
    ((pack.defineChannel channelType id bufferSize).1 = true →
      (pack.defineChannel channelType id bufferSize).2.parent.state = pack.parent.state) := by
  have htaken : (pack.channels.any fun current => current.channelId == id) = true ↔
      id ∈ pack.ids := by
    simp [OticPack.ids]
  unfold OticPack.defineChannel
  by_cases hstate : pack.parent.state = .opened
  · rw [if_neg (not_not.mpr hstate)]
    by_cases hzero : id = 0
    · rw [if_pos hzero]
      simp [hzero]
    · rw [if_neg hzero]
      by_cases hid : id ∈ pack.ids
      · rw [if_pos (htaken.mpr hid)]
        simp [hid]
      · rw [if_neg (mt htaken.mp hid)]
        exact ⟨⟨fun _ => ⟨hstate, hzero, hid⟩, fun _ => rfl⟩, fun _ => rfl⟩
  · rw [if_pos hstate]
    simp [hstate]

/-- The channels after a definition. -/
theorem channels_defineChannel (pack : OticPack) (channelType id : UInt8) (bufferSize : UInt32) :
    let out := pack.defineChannel channelType id bufferSize
    (out.1 = false ∧ out.2.channels = pack.channels) ∨
      (out.1 = true ∧ id ∉ pack.ids ∧ out.2.channels =
        Channel.init id channelType (OticPack.effectiveSize bufferSize) :: pack.channels) := by
  have hok := (@defineChannel_ok pack channelType id bufferSize).1
  dsimp only
  cases hdefined : (pack.defineChannel channelType id bufferSize).1 with
  | true =>
    refine Or.inr ⟨rfl, (hok.mp hdefined).2.2, ?_⟩
    unfold OticPack.defineChannel at hdefined ⊢
    split_ifs at hdefined ⊢
    rfl
  | false =>
    refine Or.inl ⟨rfl, ?_⟩
    unfold OticPack.defineChannel at hdefined ⊢
    split_ifs at hdefined ⊢ <;> rfl

/-- **Which channels are open** after a call. -/
theorem step_ids {s : Step} {ok : Bool} {pack' : OticPack}
    (hstep : pack.step zstd s = some (ok, pack')) : pack'.ids = idsAfter pack.ids (s.op, ok) := by
  obtain ⟨op, answers⟩ := s
  cases op with
  | define channelType id bufferSize =>
    simp only [OticPack.step, Option.some.injEq] at hstep
    unfold OticPack.defineChannel at hstep
    split at hstep
    · cases hstep
      rfl
    · split at hstep
      · cases hstep
        rfl
      · split at hstep <;>
        · cases hstep
          rfl
  | inject id c =>
    simp only [OticPack.step, Option.map_eq_some_iff] at hstep
    obtain ⟨h, hh, hcall⟩ := hstep
    cases hcall
    exact update_ids _ _
  | flush id =>
    simp only [OticPack.step, Option.map_eq_some_iff] at hstep
    obtain ⟨h, hh, hcall⟩ := hstep
    cases hcall
    exact update_ids _ _
  | close id =>
    simp only [OticPack.step, Option.map_eq_some_iff] at hstep
    obtain ⟨h, hh, hcall⟩ := hstep
    cases hcall
    obtain ⟨-, -, hid⟩ := handle_eq_some hh
    exact (channelClose_ids _ h.channel).trans (by rw [hid]; rfl)

/-! ### Buckets that were not overrun -/

theorem distinct_step {s : Step} {ok : Bool} {pack' : OticPack} (hdistinct : pack.ids.Nodup)
    (hstep : pack.step zstd s = some (ok, pack')) : pack'.ids.Nodup := by
  rw [step_ids hstep]
  obtain ⟨op, answers⟩ := s
  cases op with
  | define channelType id bufferSize =>
    simp only [OticPack.step, Option.some.injEq] at hstep
    simp only [idsAfter]
    split
    · rename_i hok
      have hdefined := (@defineChannel_ok (pack.hear answers) channelType id bufferSize).1
      rw [hstep] at hdefined
      exact List.nodup_cons.mpr ⟨(hdefined.mp hok).2.2, hdistinct⟩
    · exact hdistinct
  | inject id c | flush id => exact hdistinct
  | close id => exact hdistinct.erase id

/-- No channel of the pack, open or closed, has overrun its bucket. -/
structure OticPack.Inside (pack : OticPack) : Prop where
  closed : pack.overran = false
  opened : ∀ ch ∈ pack.channels, ch.overrun = false

theorem channel_unique (hdistinct : pack.ids.Nodup) {ch ch' : Channel} (hch : ch ∈ pack.channels)
    (hch' : ch' ∈ pack.channels) (hid : ch.channelId = ch'.channelId) : ch = ch' :=
  List.inj_on_of_nodup_map hdistinct hch hch' hid

theorem overrun_of_onwards {ch ch' : Channel} {records : List Record}
    (hon : Onwards ch records ch') (hinside : ch'.overrun = false) : ch.overrun = false := by
  by_contra hover
  rw [Bool.not_eq_false] at hover
  rw [hon.overrun hover] at hinside
  cases hinside

/-- After a call on a channel that one is inside too. -/
theorem inside_update {h h' : Handle} (hmem : h.channel ∈ pack.channels)
    (hid : h'.channel.channelId = h.channel.channelId) (hinside : (pack.update h').Inside) :
    h'.channel.overrun = false := by
  have hafter := hinside.opened _ (List.mem_map_of_mem hmem)
  rwa [if_pos hid.symm] at hafter

theorem inside_of_update (hdistinct : pack.ids.Nodup) {h h' : Handle} {records : List Record}
    (hmem : h.channel ∈ pack.channels) (hon : Onwards h.channel records h'.channel)
    (hinside : (pack.update h').Inside) : pack.Inside := by
  have hid : h'.channel.channelId = h.channel.channelId := congrArg Shape.channelId hon.shape
  refine ⟨hinside.closed, fun ch hch => ?_⟩
  have hafter := hinside.opened _ (List.mem_map_of_mem hch)
  split at hafter
  · rename_i hsame
    rw [channel_unique hdistinct hch hmem (hsame.trans hid)]
    exact overrun_of_onwards hon hafter
  · exact hafter

theorem inside_of_channelClose (hdistinct : pack.ids.Nodup) {ch : Channel}
    (hmem : ch ∈ pack.channels) (hinside : (pack.channelClose zstd ch).Inside) :
    pack.Inside ∧ (Handle.finish zstd ⟨pack.parent, ch⟩).channel.overrun = false := by
  obtain ⟨hpack, hfinish⟩ := Bool.or_eq_false_iff.mp hinside.closed
  refine ⟨⟨hpack, fun ch' hch' => ?_⟩, hfinish⟩
  by_cases hid : ch'.channelId = ch.channelId
  · rw [channel_unique hdistinct hch' hmem hid]
    exact overrun_of_onwards (@onwards_finish zstd ⟨pack.parent, ch⟩) hfinish
  · exact hinside.opened ch' ((List.mem_eraseP_of_neg (by simpa using hid)).mpr hch')

/-- An overrun is not undone by later calls. -/
theorem inside_of_step (hdistinct : pack.ids.Nodup) {s : Step} {ok : Bool} {pack' : OticPack}
    (hstep : pack.step zstd s = some (ok, pack')) (hinside : pack'.Inside) : pack.Inside := by
  obtain ⟨op, answers⟩ := s
  cases op with
  | define channelType id bufferSize =>
    simp only [OticPack.step, Option.some.injEq] at hstep
    unfold OticPack.defineChannel at hstep
    split at hstep
    · cases hstep
      exact ⟨hinside.closed, hinside.opened⟩
    split at hstep
    · cases hstep
      exact ⟨hinside.closed, hinside.opened⟩
    split at hstep
    · cases hstep
      exact ⟨hinside.closed, hinside.opened⟩
    · cases hstep
      exact ⟨hinside.closed, fun ch hch => hinside.opened ch (List.mem_cons_of_mem _ hch)⟩
  | inject id c =>
    simp only [OticPack.step, Option.map_eq_some_iff] at hstep
    obtain ⟨h, hh, hcall⟩ := hstep
    cases hcall
    obtain ⟨-, hmem, -⟩ := handle_eq_some hh
    obtain ⟨out, -, -, -, hon⟩ := @onwards_inject zstd c h
    have hbefore := @inside_of_update (pack.hear answers) hdistinct h _ _ hmem hon hinside
    exact ⟨hbefore.closed, hbefore.opened⟩
  | flush id =>
    simp only [OticPack.step, Option.map_eq_some_iff] at hstep
    obtain ⟨h, hh, hcall⟩ := hstep
    cases hcall
    obtain ⟨-, hmem, -⟩ := handle_eq_some hh
    have hbefore := @inside_of_update (pack.hear answers) hdistinct h _ _ hmem
      (onwards_channelFlush h).1 hinside
    exact ⟨hbefore.closed, hbefore.opened⟩
  | close id =>
    simp only [OticPack.step, Option.map_eq_some_iff] at hstep
    obtain ⟨h, hh, hcall⟩ := hstep
    cases hcall
    obtain ⟨-, hmem, -⟩ := handle_eq_some hh
    obtain ⟨hbefore, -⟩ :=
      @inside_of_channelClose zstd (pack.hear answers) hdistinct _ hmem hinside
    exact ⟨hbefore.closed, hbefore.opened⟩

theorem inside_of_run {steps : List Step} : ∀ {pack pack' : OticPack} {oks : List Bool},
    pack.ids.Nodup → pack.run zstd steps = some (oks, pack') → pack'.Inside → pack.Inside := by
  induction steps with
  | nil =>
    intro pack pack' oks _ hrun hinside
    simp only [OticPack.run, Option.some.injEq, Prod.mk.injEq] at hrun
    obtain ⟨-, rfl⟩ := hrun
    exact hinside
  | cons s steps ih =>
    intro pack pack' oks hdistinct hrun hinside
    simp only [OticPack.run, Option.bind_eq_bind, Option.bind_eq_some_iff, Option.some.injEq,
      Prod.mk.injEq, Prod.exists] at hrun
    obtain ⟨ok, pack₁, hstep, oks', pack₂, hrest, -, rfl⟩ := hrun
    exact inside_of_step hdistinct hstep (ih (distinct_step hdistinct hstep) hrest hinside)

/-- Nor does closing the channels undo one. -/
theorem inside_of_closeChannels {channels : List Channel} : ∀ {pack : OticPack},
    (OticPack.closeChannels zstd channels pack).overran = false →
      pack.overran = false ∧ ∀ ch ∈ channels, ch.overrun = false := by
  induction channels with
  | nil => exact fun hinside => ⟨hinside, fun ch hch => by cases hch⟩
  | cons current previous ih =>
    intro pack hinside
    obtain ⟨hclosed, hprevious⟩ := ih hinside
    obtain ⟨hpack, hfinish⟩ := Bool.or_eq_false_iff.mp hclosed
    refine ⟨hpack, fun ch hch => ?_⟩
    rcases List.mem_cons.mp hch with rfl | hch
    · exact overrun_of_onwards (@onwards_finish zstd ⟨pack.parent, ch⟩) hfinish
    · exact hprevious ch hch

end Otic.Pack
