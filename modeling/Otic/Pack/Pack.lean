import Otic.Format.Event
import Otic.Pack.Encoder

/-!
# The writer (`otic_pack_t`)

A pack is its parent part and the list of its open channels, the one defined last
first.  A `Step` is one call of the public interface together with what the flusher
answers to the calls it causes; channels are named by their id, which is theirs
alone while they are open.  A `Session` is everything from `otic_pack_init` to
`otic_pack_close`.
-/

namespace Otic.Pack

/-- `otic_pack_t`; `overran` says whether a channel that is closed by now had overrun
its bucket. -/
structure OticPack where
  parent : Parent
  channels : List Channel
  overran : Bool

/-- The calls of the interface on an open pack. -/
inductive Op where
  | define (channelType id : UInt8) (bufferSize : UInt32)
  | inject (id : UInt8) (call : Call)
  | flush (id : UInt8)
  | close (id : UInt8)

/-- A call and what the flusher answers on the way. -/
structure Step where
  op : Op
  answers : List Bool

namespace OticPack

/-- From here on the flusher answers like this. -/
def hear (pack : OticPack) (answers : List Bool) : OticPack :=
  { pack with parent := { pack.parent with answers := answers } }

/-- `otic_pack_init`: the result of the flusher is dropped. -/
def init (features : UInt8) (answers : List Bool) : OticPack :=
  let (_, parent) := Parent.flusher ⟨[], [], answers, .none, .opened⟩ (fileHeader features)
  ⟨{ parent with error := .none, state := .opened }, [], false⟩

/-- The label `fail` of `otic_pack_defineChannel`. -/
def defineFailed (pack : OticPack) (error : OticError) : OticPack :=
  { pack with parent := { pack.parent with error := error, state := .onError } }

/-- `bufferSize` with its default. -/
def effectiveSize (bufferSize : UInt32) : UInt32 :=
  if bufferSize = 0 then OTIC_BASE_CACHE_SIZE else bufferSize

/-- `otic_pack_defineChannel`: the result of the flusher is dropped. -/
def defineChannel (pack : OticPack) (channelType id : UInt8) (bufferSize : UInt32) :
    Bool × OticPack :=
  if pack.parent.state ≠ .opened then (false, pack.defineFailed .atInvalidState)
  else if id = 0 then (false, pack.defineFailed .invalidArgument)
  else if pack.channels.any fun current => current.channelId == id then
    (false, pack.defineFailed .invalidArgument)
  else
    let bufferSize := effectiveSize bufferSize
    let temp := Channel.init id channelType bufferSize
    let (_, parent) := pack.parent.flusher (Event.defineBytes id channelType bufferSize)
    (true, { pack with parent := parent, channels := temp :: pack.channels })

/-- The open channel of an id, with its parent. -/
def handle (pack : OticPack) (id : UInt8) : Option Handle :=
  (pack.channels.find? fun ch => ch.channelId == id).map fun ch => ⟨pack.parent, ch⟩

/-- The pack after a call on one of its channels. -/
def update (pack : OticPack) (h : Handle) : OticPack :=
  { pack with
    parent := h.parent
    channels := pack.channels.map fun ch =>
      if ch.channelId = h.channel.channelId then h.channel else ch }

variable (zstd : Zstd)

/-- `otic_payload_t`. -/
def payload (id : UInt8) (size : Nat) : List UInt8 := Bytes.ofUInt32 (UInt32.ofNat size) ++ [id]

/-- The loop of `otic_pack_flush`. -/
def flushChannels : Parent → List Channel → Bool × Parent × List Channel
  | p, [] => (true, p, [])
  | p, current :: previous =>
      let block := current.pending
      let current := { current with cCtx := current.cCtx ++ [block] }
      let failed (error : OticError) :=
        { current with base := { current.base with error := error } }
      match zstd.compress current.base.cacheSize.toNat block with
      | none => (false, p, failed .zstd :: previous)
      | some frame =>
          let (ok, p) := p.flusher (payload current.channelId frame.length)
          if !ok then (false, p, failed .flushFailed :: previous)
          else
            let (ok, p) := p.flusher frame
            if !ok then (false, p, failed .flushFailed :: previous)
            else
              let (ok, p, previous) := flushChannels p previous
              (ok, p,
                { current with pending := [], blocksWritten := current.blocksWritten + 1 } ::
                  previous)

/-- `otic_pack_flush`. -/
def flush (pack : OticPack) : Bool × OticPack :=
  let (ok, parent, channels) := flushChannels zstd pack.parent pack.channels
  if ok then (true, { pack with parent := parent, channels := channels })
  else (false, { pack with parent := { parent with state := .onError }, channels := channels })

/-- `otic_pack_channel_close`: the channel leaves the list. -/
def channelClose (pack : OticPack) (ch : Channel) : OticPack :=
  let h := Handle.finish zstd ⟨pack.parent, ch⟩
  { parent := h.parent
    channels := pack.channels.eraseP fun current => current.channelId == ch.channelId
    overran := pack.overran || h.channel.overrun }

/-- The loop of `otic_pack_close`; closing a channel succeeds. -/
def closeChannels : List Channel → OticPack → OticPack
  | [], pack => pack
  | current :: previous, pack => closeChannels previous (pack.channelClose zstd current)

/-- `otic_pack_close`. -/
def close (pack : OticPack) : Bool × OticPack :=
  let pack := closeChannels zstd pack.channels pack
  (true, { pack with parent := { pack.parent with state := .closed } })

/-- One call; `none` if its channel is not open, so that there is no pointer to call
with. -/
def step (pack : OticPack) (s : Step) : Option (Bool × OticPack) :=
  let pack := pack.hear s.answers
  match s.op with
  | .define channelType id bufferSize => some (pack.defineChannel channelType id bufferSize)
  | .inject id call =>
      (pack.handle id).map fun h => let (ok, h) := call.inject zstd h; (ok, pack.update h)
  | .flush id =>
      (pack.handle id).map fun h => let (ok, h) := h.channelFlush zstd; (ok, pack.update h)
  | .close id => (pack.handle id).map fun h => (true, pack.channelClose zstd h.channel)

/-- Any number of calls, with their results. -/
def run : OticPack → List Step → Option (List Bool × OticPack)
  | pack, [] => some ([], pack)
  | pack, s :: steps => do
      let (ok, pack) ← pack.step zstd s
      let (oks, pack) ← run pack steps
      some (ok :: oks, pack)

end OticPack

/-- The life of a pack: what the flusher answers to `otic_pack_init`, the calls, and
what it answers during `otic_pack_close`. -/
structure Session where
  features : UInt8
  opening : List Bool
  steps : List Step
  closing : List Bool

/-- The results of the calls, the result of `otic_pack_close`, the bytes the flusher
took, and whether a channel had overrun its bucket. -/
structure Written where
  oks : List Bool
  closed : Bool
  accepted : List UInt8
  overran : Bool

def Session.write (zstd : Zstd) (s : Session) : Option Written := do
  let (oks, pack) ← (OticPack.init s.features s.opening).run zstd s.steps
  let (closed, pack) := (pack.hear s.closing).close zstd
  some ⟨oks, closed, pack.parent.accepted, pack.overran⟩

end Otic.Pack
