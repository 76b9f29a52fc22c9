import Otic.Unpack.Channel

/-!
# The reader (`otic_unpack_t`)

The reader takes its input through a fetcher, which delivers a number of bytes or,
if there are not so many left, returns 0 and takes none.  `parse` reads one frame and
hands whole blocks to `parseBlock`; `generate` reads one record at a time.  Three faults
are added to those of a channel: more is fetched into `base.cache` than it was
allocated with, more is decompressed into `out`, and bytes are used to which nothing was
written since they were allocated.
-/

namespace Otic.Unpack

/-- `otic_unpack_t`.  `current` is the id of the channel pointed to, `seeker` says
whether there is one, and `calls` lists the calls of the callbacks of all channels. -/
structure OticUnpack where
  channels : List Channel
  state : OticState
  error : OticError
  current : Option UInt8
  input : List UInt8
  seeker : Bool
  version : UInt8
  calls : List (UInt8 × Row)

namespace OticUnpack

/-- The fetcher. -/
def fetch (n : Nat) (u : OticUnpack) : Option (List UInt8 × OticUnpack) :=
  if n ≤ u.input.length then some (u.input.take n, { u with input := u.input.drop n }) else none

/-- `otic_unpack_init`; nothing says what is in a header that was not fetched. -/
def init (seeker : Bool) (input : List UInt8) : Exec (Bool × OticUnpack) :=
  let u : OticUnpack := ⟨[], .opened, .none, none, input, seeker, 0, []⟩
  match u.fetch 6 with
  | none => .error .stale
  | some (header, u) =>
      if header.take 4 ≠ OTIC_MAGIC then
        .ok (false, { u with error := .invalidOticFile, state := .onError })
      else if OTIC_VERSION_MAJOR < header.getD 5 0 then
        .ok (false, { u with error := .versionUnsupported, state := .onError })
      else .ok (true, { u with version := header.getD 5 0 })

/-- The label `fail`. -/
def fail (u : OticUnpack) (error : OticError) : OticUnpack :=
  { u with error := error, state := .onError }

/-- `findChannel`. -/
def findChannel (u : OticUnpack) (channelId : UInt8) : Option Channel :=
  u.channels.find? fun current => current.channelId == channelId

/-- `otic_unpack_defineChannel`. -/
def defineChannel (u : OticUnpack) (id : UInt8) : Bool × OticUnpack :=
  if u.state ≠ .opened then (false, u.fail .atInvalidState)
  else if (u.findChannel id).isSome then (false, u.fail .invalidArgument)
  else (true, { u with channels := Channel.init id :: u.channels })

/-- A change of the channel of an id, if there is one. -/
def modify (u : OticUnpack) (id : UInt8) (f : Channel → Channel) : OticUnpack :=
  { u with channels := u.channels.map fun ch => if ch.channelId = id then f ch else ch }

/-- A channel after its callback may have been called. -/
def store (u : OticUnpack) (before after : Channel) : OticUnpack :=
  { u.modify before.channelId fun _ => after with
    calls := u.calls ++
      (after.flushed.drop before.flushed.length).map fun row => (before.channelId, row) }

/-- The payload of a channel that was not selected is passed over. -/
def skip (u : OticUnpack) (size : Nat) : OticUnpack :=
  if u.seeker then { u with input := u.input.drop size }
  else
    match u.fetch size with
    | none => u
    | some (_, u) => u

variable (zstd : Zstd)

/-- `ZSTD_decompressDCtx` from a channel's cache into its `out`. -/
def decompress (channel : Channel) (frame : List UInt8) : Exec (Bool × Channel) :=
  let capacity := channel.base.cacheSize.toNat
  match zstd.decompress capacity frame with
  | none =>
      let out := zstd.remains capacity frame channel.out
      if channel.outAlloc < out.length then .error .outOverrun else .ok (false, channel.spoil out)
  | some block =>
      if channel.outAlloc < block.length then .error .outOverrun else .ok (true, channel.load block)

/-- `otic_unpack_read_data`.  `blockSize` is set before the fetch, and again behind it. -/
def readData (u : OticUnpack) (channel : Channel) (size : Nat) : Exec (Bool × OticUnpack) :=
  if channel.cacheAlloc < size then .error .cacheOverrun
  else
    match u.fetch size with
    | none => .ok (false, u.store channel (channel.setBlockSize size))
    | some (frame, u) => do
        let (ok, channel') ← decompress zstd (channel.receive frame) frame
        if ok then
          let channel' ← Channel.parseBlock u.version channel'
          .ok (true, u.store channel channel')
        else .ok (false, (u.store channel channel').fail .zstd)

/-- `otic_unpack_parse`. -/
def parse (u : OticUnpack) : Exec (Bool × OticUnpack) :=
  match u.fetch 2 with
  | some ([metaType, channelId], u) =>
      match MetaType.ofByte? metaType with
      | some .channelDefine =>
          .ok (true, u.modify channelId fun ch =>
            { ch with base := { ch.base with state := .opened } })
      | some .data =>
          match u.fetch 4 with
          | none => .ok (false, u.fail .eof)
          | some (size, u) =>
              let size := (Bytes.toUInt32 size).toNat
              match u.findChannel channelId with
              | some channel => u.readData zstd channel size
              | none => .ok (true, u.skip size)
      | some .compressionMethod =>
          match u.fetch 1 with
          | none => .ok (false, u.fail .eof)
          | some (_, u) => .ok (true, u)
      | some .channelType =>
          match u.fetch 1 with
          | none => .ok (false, u.fail .eof)
          | some (read, u) =>
              .ok (true, u.modify channelId fun ch => { ch with channelType := read.getD 0 0 })
      | some .chunkSize =>
          match u.fetch 4 with
          | none => .ok (false, u.fail .eof)
          | some (size, u) =>
              let size := Bytes.toUInt32 size
              .ok (true, u.modify channelId fun ch => ch.reallocate size)
      | none => .ok (false, u.fail .dataCorrupted)
  | _ => .ok (false, u)

/-- `otic_unpack_parse` until it returns 0; every call before took at least two bytes. -/
def parseAll (u : OticUnpack) : Exec OticUnpack := do
  let (_, u) ← Loop.run (parse zstd) (u.input.length + 1) u
  .ok u

/-- A reader of a file that selected some channels, before it parses. -/
def start (seeker : Bool) (select : List UInt8) (input : List UInt8) : Exec OticUnpack := do
  let (_, u) ← init seeker input
  .ok (select.foldl (fun u id => (u.defineChannel id).2) u)

/-! ### The incremental reader -/

/-- `otic_unpack_getLine` on the channel `current` points to. -/
def getLine (u : OticUnpack) (channel : Channel) : Exec (Bool × OticUnpack) := do
  let (result, used, channel') ← Channel.getLine u.version channel
  let u := u.store channel channel'
  .ok (result, if used then { u with current := none } else u)

/-- A `return` that clears `current`. -/
def failNext (u : OticUnpack) (error : OticError) : Option Bool × OticUnpack :=
  (some false, { u with error := error, current := none })

/-- The fetch of a payload whose result `otic_unpack_getNext` does not look at.  When it
fails, the payload is what lies in `base.cache`; nothing says what that is where nothing was
fetched before. -/
def fetchInto (u : OticUnpack) (channel : Channel) (size : Nat) :
    Exec (List UInt8 × Channel × OticUnpack) :=
  match u.fetch size with
  | some (frame, u) => .ok (frame, channel.receive frame, u)
  | none =>
      if channel.cached.length < size then .error .stale
      else .ok (channel.cached.take size, channel, u)

/-- One iteration of the loop of `otic_unpack_getNext`: what it returns, if it does. -/
def nextFrame (u : OticUnpack) : Exec (Option Bool × OticUnpack) :=
  match u.fetch 2 with
  | some ([metaType, channelId], u) =>
      match MetaType.ofByte? metaType with
      | some .channelDefine =>
          .ok (none, u.modify channelId fun ch =>
            { ch with base := { ch.base with state := .opened } })
      | some .data =>
          match u.fetch 4 with
          | none => .ok (u.failNext .eof)
          | some (size, u) =>
              let size := (Bytes.toUInt32 size).toNat
              match u.findChannel channelId with
              | none => .ok (none, u.skip size)
              | some channel =>
                  if channel.cacheAlloc < size then .error .cacheOverrun
                  else do
                    let (frame, channel, u) ← u.fetchInto channel size
                    let (ok, channel') ← decompress zstd channel frame
                    if ok then
                      let (result, u) ← { u with current := some channelId }.getLine channel'
                      .ok (some result, u)
                    else .ok (((u.store channel channel').fail .zstd).failNext .zstd)
      | some .compressionMethod =>
          match u.fetch 1 with
          | none => .ok (u.failNext .eof)
          | some (_, u) => .ok (none, u)
      | some .channelType =>
          match u.fetch 1 with
          | none => .ok (u.failNext .eof)
          | some (read, u) =>
              .ok (some true,
                u.modify channelId fun ch => { ch with channelType := read.getD 0 0 })
      | some .chunkSize =>
          match u.fetch 4 with
          | none => .ok (u.failNext .eof)
          | some (size, u) =>
              if (u.findChannel channelId).isNone then .ok (some true, u)
              else
                .ok (none, u.modify channelId fun ch =>
                  { ch with cacheAlloc := (Bytes.toUInt32 size).toNat, cached := [] })
      | none => .ok (u.failNext .dataCorrupted)
  | _ => .ok (some false, { u with current := none })

/-- `otic_unpack_getNext`. -/
def getNext (u : OticUnpack) : Exec (Bool × OticUnpack) := do
  let body (s : Bool × OticUnpack) : Exec (Bool × Bool × OticUnpack) := do
    let (result, u) ← s.2.nextFrame zstd
    .ok (result.isNone, result.getD false, u)
  let (_, result, u) ← Loop.run body (u.input.length + 1) (false, u)
  .ok (result, u)

/-- `otic_unpack_generate`. -/
def generate (u : OticUnpack) : Exec (Bool × OticUnpack) :=
  match u.current.bind u.findChannel with
  | some channel => u.getLine channel
  | none => u.getNext zstd

end OticUnpack

end Otic.Unpack
