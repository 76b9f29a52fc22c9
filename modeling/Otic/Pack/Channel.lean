import Otic.Leb128
import Otic.Library.Chained

/-!
# A channel of the writer (`pack.c`)

`otic_pack_channel_t` and the functions that append records to its bucket.
`pending` is the list of the bytes from `base.cache` to `base.top`; `threshold`
is the offset of the pointer of that name.  The six scalar injects share one
body; what they differ in is an `Injection`, and `inject_s` has a body of its own
because it may flush before it writes.
-/

namespace Otic.Pack

/-- `otic_entry_t`; `name` is the block that holds the name, a terminator, the unit
and another terminator. -/
structure Entry where
  index : UInt32
  name : List UInt8
  lastValue : Oval

/-- What the channels of a pack share.  `handed` lists the buffers the flusher was
called with and `accepted` the bytes of those it returned nonzero for; `answers`
is what it is going to return, where a call past the end of the list succeeds. -/
structure Parent where
  handed : List (List UInt8)
  accepted : List UInt8
  answers : List Bool
  error : OticError
  state : OticState

/-- One call of the flusher. -/
def Parent.flusher (p : Parent) (buffer : List UInt8) : Bool × Parent :=
  let answer := p.answers.headD true
  (answer,
    { p with
      handed := p.handed ++ [buffer]
      accepted := if answer then p.accepted ++ buffer else p.accepted
      answers := p.answers.tail })

/-- `otic_pack_channel_t`.  `written` lists all bytes that were ever put into the bucket
and `cCtx` the blocks the compression context was given; `overrun` says whether bytes
were put past the end of `base.cache`. -/
structure Channel where
  base : Base
  pending : List UInt8
  written : List UInt8
  overrun : Bool
  cCtx : List (List UInt8)
  cache : Chained.Table Entry
  totalEntries : UInt16
  threshold : Nat
  channelType : UInt8
  channelId : UInt8
  blocksWritten : UInt64

/-- `otic_pack_channel_init`: the offset of the threshold is computed in 32 bits. -/
def Channel.init (id channelType : UInt8) (bucketSize : UInt32) : Channel where
  base := Base.init bucketSize
  pending := []
  written := []
  overrun := false
  cCtx := []
  cache := fun _ => []
  totalEntries := 0
  threshold := (bucketSize - OTIC_PACK_CACHE_TOP_LIMIT).toNat
  channelType := channelType
  channelId := id
  blocksWritten := 0

namespace Channel

/-! ### Writing bytes -/

/-- The bytes land at `base.top`, which moves past them. -/
def put (ch : Channel) (bytes : List UInt8) : Channel :=
  { ch with
    pending := ch.pending ++ bytes
    written := ch.written ++ bytes
    overrun := ch.overrun || decide (ch.base.cacheSize.toNat < (ch.pending ++ bytes).length) }

/-- `otic_pack_write_byte`. -/
def writeByte (ch : Channel) (value : UInt8) : Channel := ch.put [value]

/-- `write_long`. -/
def writeLong (ch : Channel) (value : UInt64) : Channel := ch.put (leb128EncodeUnsigned value)

/-- `write_double`. -/
def writeDouble (ch : Channel) (value : UInt64) : Channel := ch.put (Bytes.ofUInt64 value)

/-- `write_string2`. -/
def writeString2 (ch : Channel) (value : List UInt8) : Channel :=
  (ch.put (leb128EncodeUnsigned (UInt64.ofNat value.length))).put value

/-- `otic_pack_id_assign`. -/
def idAssign (ch : Channel) (sensorName : CStr) (unit : List UInt8) : Channel :=
  let ch := ch.writeByte OticType.nameAssign.toByte
  let ch := ch.writeByte (UInt8.ofNat (sensorName.size + unit.length + 1))
  let ch := ch.put sensorName.bytes
  let ch := ch.writeByte 0
  ch.put unit

/-! ### The dictionary -/

/-- `otic_pack_hashFunction`. -/
def hashFunction (bytes : List UInt8) : Nat := (hashBytes bytes).toNat % OTIC_PACK_CACHE_SIZE

/-- What `strcmp` compares of an entry. -/
def key (entry : Entry) : List UInt8 := Bytes.untilZero entry.name

/-- `otic_pack_entry_find`. -/
def entryFind (cache : Chained.Table Entry) (o : CStr) : Option Entry :=
  Chained.find hashFunction key cache o.bytes

/-- `otic_pack_entry_insert_routine`, after which the caller stores `lastValue`.  The
chain is searched for the index: an entry that has it already is taken as it is,
under whatever name. -/
def entryInsertRoutine (cache : Chained.Table Entry) (o unit : CStr) (index : UInt16)
    (lastValue : Oval) : Chained.Table Entry :=
  let hashAddress := hashFunction o.bytes
  let hasIndex (entry : Entry) : Bool := entry.index == index.toUInt32
  if (cache hashAddress).any hasIndex then
    Chained.modify cache hashAddress hasIndex fun entry => { entry with lastValue := lastValue }
  else
    Chained.push cache hashAddress
      { index := index.toUInt32
        name := o.bytes ++ 0 :: (unit.bytes ++ [0])
        lastValue := lastValue }

/-- `otic_pack_entry_insert_bool`. -/
def entryInsertBool (value : Bool) (cache : Chained.Table Entry) (o unit : CStr) (index : UInt16) :
    Chained.Table Entry :=
  entryInsertRoutine cache o unit index (if value then .true else .false)

/-- `otic_pack_entry_insert_u`: the value is a `uint32_t`. -/
def entryInsertU (value : UInt32) (cache : Chained.Table Entry) (o unit : CStr) (index : UInt16) :
    Chained.Table Entry :=
  entryInsertRoutine cache o unit index (.intPos value.toUInt64)

/-- `otic_pack_entry_insert_un`: the value is a `uint32_t`. -/
def entryInsertUn (value : UInt32) (cache : Chained.Table Entry) (o unit : CStr) (index : UInt16) :
    Chained.Table Entry :=
  entryInsertRoutine cache o unit index (.intNeg value.toUInt64)

/-- `otic_pack_entry_insert_d`. -/
def entryInsertD (value : UInt64) (cache : Chained.Table Entry) (o unit : CStr) (index : UInt16) :
    Chained.Table Entry :=
  entryInsertRoutine cache o unit index (.double value)

/-- `otic_pack_entry_insert_s`: the copy has no terminator. -/
def entryInsertS (value : CStr) (cache : Chained.Table Entry) (o unit : CStr) (index : UInt16) :
    Chained.Table Entry :=
  entryInsertRoutine cache o unit index (.string value.bytes value.size)

/-- `otic_pack_entry_insert_n`. -/
def entryInsertN (cache : Chained.Table Entry) (o unit : CStr) (index : UInt16) :
    Chained.Table Entry :=
  entryInsertRoutine cache o unit index .null

/-- Store the last value of the entry that `otic_pack_entry_find` returned for a name. -/
def setLastValue (cache : Chained.Table Entry) (o : CStr) (lastValue : Oval) :
    Chained.Table Entry :=
  Chained.modify cache (hashFunction o.bytes) (fun entry => decide (key entry = o.bytes))
    fun entry => { entry with lastValue := lastValue }

/-! ### Rows -/

/-- What the injects differ in: how a new sensor is entered, when a value counts as
unmodified, what an entry holds after a change, and how the row is written. -/
structure Injection where
  insert : Chained.Table Entry → CStr → CStr → UInt16 → Chained.Table Entry
  same : Oval → Bool
  changed : Oval
  write : UInt64 → Channel → Channel

/-- The part of an inject after the timestamp, given the entry of the sensor: a new
sensor is entered and named first.  `none` if name and unit do not fit a record. -/
def writeRow (inj : Injection) (ch : Channel) (entry : Option Entry) (sensorName : CStr)
    (unit : Option CStr) : Option Channel :=
  match entry with
  | none =>
      let unit := unit.getD CStr.empty
      if UINT8_MAX < sensorName.size + unit.size + 1 then none
      else
        let ch := { ch with cache := inj.insert ch.cache sensorName unit ch.totalEntries }
        let ch := ch.idAssign sensorName unit.bytes
        let ch := inj.write ch.totalEntries.toUInt64 ch
        some { ch with totalEntries := ch.totalEntries + 1 }
  | some entry =>
      if inj.same entry.lastValue then
        some ((ch.writeByte OticType.unmodified.toByte).writeLong entry.index.toUInt64)
      else
        some (inj.write entry.index.toUInt64
          { ch with cache := setLastValue ch.cache sensorName inj.changed })

/-- `++channel->base.rowCounter`. -/
def countRow (ch : Channel) : Channel :=
  { ch with base := { ch.base with rowCounter := ch.base.rowCounter + 1 } }

def boolInjection (value : Bool) : Injection where
  insert := entryInsertBool value
  same lastValue := lastValue.type = if value then .true else .false
  changed := if value then .true else .false
  write index ch :=
    (ch.writeByte (if value then OticType.true else OticType.false).toByte).writeLong index

def iNegInjection (value : UInt64) : Injection where
  insert := entryInsertUn value.toUInt32
  same
    | .intNeg lval => lval == value
    | _ => false
  changed := .intNeg value
  write index ch := ((ch.writeByte OticType.intNeg.toByte).writeLong index).writeLong value

def iInjection (value : UInt64) : Injection where
  insert := entryInsertU value.toUInt32
  same
    | .intPos lval => lval == value
    | _ => false
  changed := .intPos value
  write index ch :=
    if value < SMALL_INT_LIMIT.toUInt64 then (ch.writeByte value.toUInt8).writeLong index
    else ((ch.writeByte OticType.intPos.toByte).writeLong index).writeLong value

def dInjection (value : UInt64) : Injection where
  insert := entryInsertD value
  same
    | .double dval => doubleEq dval value
    | _ => false
  changed := .double value
  write index ch := ((ch.writeByte OticType.double.toByte).writeLong index).writeDouble value

/-- `heap` is what lies behind the block of the last value up to the next zero:
`strcmp` reads on there if the block has no terminator. -/
def sInjection (value : CStr) (heap : List UInt8) : Injection where
  insert := entryInsertS value
  same
    | .string block _ => Bytes.untilZero (block ++ heap) = value.bytes
    | _ => false
  changed := .string (value.bytes ++ [0]) value.size
  write index ch :=
    ((ch.writeByte OticType.string.toByte).writeLong index).writeString2 value.bytes

/-- `inject_n` enters a new sensor twice. -/
def nInjection : Injection where
  insert cache o unit index := entryInsertN (entryInsertN cache o unit index) o unit index
  same lastValue := lastValue.type = .null
  changed := .null
  write index ch := (ch.writeByte OticType.null.toByte).writeLong index

end Channel

/-! ### Flushing -/

/-- A channel together with its `info.parent`. -/
structure Handle where
  parent : Parent
  channel : Channel

namespace Handle

def setError (h : Handle) (error : OticError) : Handle :=
  { h with channel := { h.channel with base := { h.channel.base with error := error } } }

def setState (h : Handle) (state : OticState) : Handle :=
  { h with channel := { h.channel with base := { h.channel.base with state := state } } }

/-- The states set at the label `fail` of `otic_pack_channel_flush`. -/
def flushFailed (h : Handle) : Handle :=
  { h.setState .onError with parent := { h.parent with state := .onError } }

/-- `otic_meta_data_size_t` of a data frame. -/
def dataHeader (id : UInt8) (size : Nat) : List UInt8 :=
  MetaType.data.toByte :: id :: Bytes.ofUInt32 (UInt32.ofNat size)

variable (zstd : Zstd)

/-- `otic_pack_channel_flush`. -/
def channelFlush (h : Handle) : Bool × Handle :=
  let block := h.channel.pending
  let h := { h with channel := { h.channel with cCtx := h.channel.cCtx ++ [block] } }
  match zstd.compress h.channel.base.cacheSize.toNat block with
  | none => (false, (h.setError .zstd).flushFailed)
  | some frame =>
      if UInt32.size ≤ frame.length then
        (false, { h with parent := { h.parent with error := .bufferOverflow } }.flushFailed)
      else
        let (ok, parent) := h.parent.flusher (dataHeader h.channel.channelId frame.length)
        let h := { h with parent := parent }
        if !ok then (false, (h.setError .flushFailed).flushFailed)
        else
          let (ok, parent) := h.parent.flusher frame
          let h := { h with parent := parent }
          if !ok then (false, (h.setError .flushFailed).flushFailed)
          else
            (true,
              { h with
                channel :=
                  { h.channel with
                    pending := []
                    blocksWritten := h.channel.blocksWritten + 1 } })

/-- What `otic_pack_channel_close` does before it frees the channel: the result of the
flush is dropped. -/
def finish (h : Handle) : Handle :=
  let marked := (h.channel.writeByte OticType.eof.toByte).writeLong h.channel.base.rowCounter
  (channelFlush zstd ⟨h.parent, marked⟩).2

/-- `otic_pack_flush_if_flushable`: the result of the flush is dropped. -/
def flushIfFlushable (h : Handle) : Handle :=
  if h.channel.threshold < h.channel.pending.length then (h.channelFlush zstd).2 else h

/-! ### Injects -/

/-- `otic_ts_handler`, on the tick a timestamp was converted to. -/
def tsHandler (h : Handle) (intTs : UInt64) : Bool × Handle :=
  let ch := h.channel
  if ch.base.timestampCurrent = intTs then (true, h)
  else if ch.base.timestampCurrent = TS_NULL then
    let base := { ch.base with timestampStart := intTs, timestampCurrent := intTs }
    let ch := ({ ch with base := base }.writeByte OticType.setTimestamp.toByte).writeLong intTs
    (true, { h with channel := ch }.flushIfFlushable zstd)
  else if intTs < ch.base.timestampCurrent then (false, h.setError .invalidTimestamp)
  else
    let shift := intTs - ch.base.timestampCurrent
    let base := { ch.base with timestampCurrent := intTs }
    let ch := ({ ch with base := base }.writeByte OticType.shiftTimestamp.toByte).writeLong shift
    (true, { h with channel := ch }.flushIfFlushable zstd)

/-- From the row on, all injects do the same: they count it and flush if need be. -/
def finishRow (failState : OticState) (inj : Channel.Injection) (h : Handle)
    (entry : Option Entry) (sensorName : CStr) (unit : Option CStr) : Bool × Handle :=
  match h.channel.writeRow inj entry sensorName unit with
  | none => (false, (h.setError .bufferOverflow).setState failState)
  | some ch => (true, { h with channel := ch.countRow }.flushIfFlushable zstd)

/-- The injects but `inject_s`; `failState` is the state set at their label `fail`. -/
def injectRow (failState : OticState) (inj : Channel.Injection) (h : Handle) (timestamp : UInt64)
    (sensorName : CStr) (unit : Option CStr) : Bool × Handle :=
  match h.tsHandler zstd timestamp with
  | (false, h) => (false, h.setState failState)
  | (true, h) =>
      finishRow zstd failState inj h (Channel.entryFind h.channel.cache sensorName) sensorName unit

/-- `otic_pack_channel_inject_bool`. -/
def injectBool (h : Handle) (timestamp : UInt64) (sensorName : CStr) (unit : Option CStr)
    (value : Bool) : Bool × Handle :=
  injectRow zstd .closed (Channel.boolInjection value) h timestamp sensorName unit

/-- `otic_pack_channel_inject_i_neg`. -/
def injectINeg (h : Handle) (timestamp : UInt64) (sensorName : CStr) (unit : Option CStr)
    (value : UInt64) : Bool × Handle :=
  injectRow zstd .closed (Channel.iNegInjection value) h timestamp sensorName unit

/-- `otic_pack_channel_inject_i`. -/
def injectI (h : Handle) (timestamp : UInt64) (sensorName : CStr) (unit : Option CStr)
    (value : UInt64) : Bool × Handle :=
  injectRow zstd .onError (Channel.iInjection value) h timestamp sensorName unit

/-- `otic_pack_channel_inject_d`. -/
def injectD (h : Handle) (timestamp : UInt64) (sensorName : CStr) (unit : Option CStr)
    (value : UInt64) : Bool × Handle :=
  injectRow zstd .onError (Channel.dInjection value) h timestamp sensorName unit

/-- `otic_pack_channel_inject_n`. -/
def injectN (h : Handle) (timestamp : UInt64) (sensorName : CStr) (unit : Option CStr) :
    Bool × Handle :=
  injectRow zstd .closed Channel.nInjection h timestamp sensorName unit

/-- `otic_pack_channel_inject_s`.  The string must fit below the threshold, and if it
does not fit there any more the bucket is flushed first.  With `top` past the
threshold the difference is negative, hence huge as a `size_t`: no flush. -/
def injectS (h : Handle) (timestamp : UInt64) (sensorName : CStr) (unit : Option CStr)
    (value : CStr) (heap : List UInt8) : Bool × Handle :=
  match h.tsHandler zstd timestamp with
  | (false, h) => (false, h.setState .onError)
  | (true, h) =>
      let entry := Channel.entryFind h.channel.cache sensorName
      if h.channel.threshold < value.size then
        (false, (h.setError .bufferOverflow).setState .onError)
      else
        let (ok, h) :=
          if h.channel.pending.length ≤ h.channel.threshold ∧
              h.channel.threshold - h.channel.pending.length < value.size then
            h.channelFlush zstd
          else (true, h)
        if !ok then (false, h.setState .onError)
        else finishRow zstd .onError (Channel.sInjection value heap) h entry sensorName unit

end Handle

end Otic.Pack
