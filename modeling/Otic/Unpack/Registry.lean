import Mathlib.Data.Fintype.Card
import Otic.Library.Linked
import Otic.Unpack.Buffers

/-!
# The channels of a reader in memory

`otic_unpack_t` keeps its channels in a list that is linked through `previous`, and
`otic_unpack_generate` leaves a pointer to one of them behind, the cursor `current`.
Here the list lies in a heap and the cursor is an address.  What the readers do to the
channels is what they do on their list, and it is put back where it was found.
`registered_iff` says in which runs the cursor stays in the list and the channels can be
counted: nothing sets the cursor back when its channel is closed, and there are 256 ids
but eight bits to count them in.
-/

namespace Otic.Unpack

/-! ### What reading does to the channels -/

namespace OticUnpack

/-- The same ids, and the same cursor. -/
def Stays (u u' : OticUnpack) : Prop :=
  u'.channels.map Channel.channelId = u.channels.map Channel.channelId ∧ u'.current = u.current

/-- Reading leaves the ids of the channels alone, and sets the cursor, if at all, to one
of them. -/
def Steers (u u' : OticUnpack) : Prop :=
  u'.channels.map Channel.channelId = u.channels.map Channel.channelId ∧
    (u'.current = u.current ∨ u'.current = none ∨
      ∃ id ∈ u.channels.map Channel.channelId, u'.current = some id)

variable {zstd : Zstd} {u u' w : OticUnpack}

theorem Stays.refl (u : OticUnpack) : Stays u u := ⟨rfl, rfl⟩

theorem Stays.steers (h : Stays u u') : Steers u u' := ⟨h.1, Or.inl h.2⟩

theorem Steers.trans (h : Steers u w) (h' : Steers w u') : Steers u u' := by
  refine ⟨h'.1.trans h.1, ?_⟩
  rcases h'.2 with hsame | hnone | ⟨id, hid, hset⟩
  · rw [hsame]
    exact h.2
  · exact Or.inr (Or.inl hnone)
  · exact Or.inr (Or.inr ⟨id, h.1 ▸ hid, hset⟩)

/-- A return that clears the cursor. -/
theorem Stays.cleared (h : Stays u w) (hchannels : u'.channels = w.channels)
    (hcurrent : u'.current = none) : Steers u u' :=
  ⟨by rw [hchannels, h.1], Or.inr (Or.inl hcurrent)⟩

theorem stays_modify (u : OticUnpack) (id : UInt8) {f : Channel → Channel}
    (hf : ∀ ch : Channel, ch.channelId = id → (f ch).channelId = id) : Stays u (u.modify id f) := by
  refine ⟨?_, rfl⟩
  rw [modify, List.map_map]
  refine List.map_congr_left fun ch _ => ?_
  rw [Function.comp_apply]
  split
  · rename_i hid
    rw [hf ch hid, hid]
  · rfl

theorem stays_store (u : OticUnpack) {before after : Channel}
    (hframe : after.frame = before.frame) : Stays u (u.store before after) := by
  have hmodify := u.stays_modify before.channelId (f := fun _ => after) fun _ _ =>
    congrArg Frame.channelId hframe
  exact hmodify

theorem stays_skip (u : OticUnpack) (n : Nat) : Stays u (u.skip n) := by
  obtain ⟨input, -, hskip⟩ := u.skip_eq n
  rw [hskip]
  exact .refl u

theorem stays_readData {ch : Channel} {size : Nat} {go : Bool}
    (hread : u.readData zstd ch size = .ok (go, u')) : Stays u u' := by
  cases (readData_eq_ok.mp hread).2 with
  | short => exact u.stays_store (ch.setBlockSize_frame size)
  | @broken frame out _ hpayload =>
    obtain ⟨input, -, rfl⟩ := fetch_eq_some hpayload
    have hstore := stays_store { u with input := input } ((ch.receive frame).spoil_frame out)
    exact hstore
  | read hpayload _ hparse =>
    obtain ⟨input, -, rfl⟩ := fetch_eq_some hpayload
    have hframe := Channel.parseBlock_frame hparse
    have hstore := @stays_store { u with input := input } ch _ hframe
    exact hstore

/-- What a definition of the channel does. -/
theorem stays_open (u : OticUnpack) (id : UInt8) :
    Stays u (u.modify id fun ch => { ch with base := { ch.base with state := .opened } }) :=
  stays_modify u id fun _ hid => hid

theorem stays_channelType (u : OticUnpack) (id channelType : UInt8) :
    Stays u (u.modify id fun ch => { ch with channelType := channelType }) :=
  stays_modify u id fun _ hid => hid

/-- **`otic_unpack_parse`** on any input. -/
theorem stays_parse {go : Bool} (hparse : u.parse zstd = .ok (go, u')) : Stays u u' := by
  cases parse_eq_ok.mp hparse with
  | eof => exact .refl u
  | unknown hhead | cut hhead =>
    obtain ⟨input, -, rfl⟩ := fetch_eq_some hhead
    exact .refl u
  | @define _ id _ hhead =>
    obtain ⟨input, -, rfl⟩ := fetch_eq_some hhead
    have hopen := stays_open { u with input := input } id
    exact hopen
  | data hhead _ hsize _ hread =>
    obtain ⟨input, -, rfl⟩ := fetch_eq_some hhead
    obtain ⟨input', -, rfl⟩ := fetch_eq_some hsize
    have hstays := stays_readData hread
    exact hstays
  | @skip _ _ size _ _ hhead _ hsize =>
    obtain ⟨input, -, rfl⟩ := fetch_eq_some hhead
    obtain ⟨input', -, rfl⟩ := fetch_eq_some hsize
    have hskip := stays_skip { u with input := input' } (Bytes.toUInt32 size).toNat
    exact hskip
  | compressionMethod hhead _ hread =>
    obtain ⟨input, -, rfl⟩ := fetch_eq_some hhead
    obtain ⟨input', -, rfl⟩ := fetch_eq_some hread
    exact .refl u
  | @channelType _ id read _ _ hhead _ hread =>
    obtain ⟨input, -, rfl⟩ := fetch_eq_some hhead
    obtain ⟨input', -, rfl⟩ := fetch_eq_some hread
    have htype := stays_channelType { u with input := input' } id (read.getD 0 0)
    exact htype
  | @chunkSize _ id size _ _ hhead _ hread =>
    obtain ⟨input, -, rfl⟩ := fetch_eq_some hhead
    obtain ⟨input', -, rfl⟩ := fetch_eq_some hread
    have hmodify := stays_modify { u with input := input' } id
      (f := fun ch => ch.reallocate (Bytes.toUInt32 size)) fun _ hid => hid
    exact hmodify

/-- **`otic_unpack_getLine`** on any block. -/
theorem getLine_cursor {ch : Channel} {result : Bool} (hline : u.getLine ch = .ok (result, u')) :
    u'.channels.map Channel.channelId = u.channels.map Channel.channelId ∧
      (u'.current = u.current ∨ u'.current = none) := by
  obtain ⟨⟨result', used, ch'⟩, hread, hline⟩ := Exec.bind_eq_ok.mp hline
  have hstore := u.stays_store (Channel.getLine_frame hread)
  dsimp only at hline
  split at hline
  · cases hline
    exact ⟨hstore.1, Or.inr rfl⟩
  · cases hline
    exact ⟨hstore.1, Or.inl hstore.2⟩

theorem steers_getLine {ch : Channel} {result : Bool} (hline : u.getLine ch = .ok (result, u')) :
    Steers u u' := by
  obtain ⟨hids, hcursor⟩ := getLine_cursor hline
  exact ⟨hids, hcursor.imp_right Or.inl⟩

/-- **One frame** in the loop of `otic_unpack_getNext`. -/
theorem steers_nextFrame {result : Option Bool} (hnext : u.nextFrame zstd = .ok (result, u')) :
    Steers u u' := by
  cases passed_of_nextFrame hnext with
  | eof => exact (Stays.refl u).cleared rfl rfl
  | unknown hhead | cut hhead =>
    obtain ⟨input, -, rfl⟩ := fetch_eq_some hhead
    exact (Stays.refl u).cleared rfl rfl
  | @define _ id _ hhead =>
    obtain ⟨input, -, rfl⟩ := fetch_eq_some hhead
    have hopen := stays_open { u with input := input } id
    exact hopen.steers
  | @skip _ _ size _ _ hhead _ hsize =>
    obtain ⟨input, -, rfl⟩ := fetch_eq_some hhead
    obtain ⟨input', -, rfl⟩ := fetch_eq_some hsize
    have hskip := stays_skip { u with input := input' } (Bytes.toUInt32 size).toNat
    exact hskip.steers
  | @broken _ _ _ _ out _ _ _ _ ch' hhead _ hsize _ hpayload =>
    obtain ⟨input, -, rfl⟩ := fetch_eq_some hhead
    obtain ⟨input', -, rfl⟩ := fetch_eq_some hsize
    obtain ⟨input'', -, -, rfl, -⟩ := fetchInto_eq_ok hpayload
    have hstore := stays_store { u with input := input'' } (ch'.spoil_frame out)
    exact hstore.cleared rfl rfl
  | @line _ id _ _ _ _ _ _ _ ch _ _ hhead _ hsize hfind hpayload _ hline =>
    obtain ⟨input, -, rfl⟩ := fetch_eq_some hhead
    obtain ⟨input', -, rfl⟩ := fetch_eq_some hsize
    obtain ⟨hmem, hid⟩ := mem_of_findChannel hfind
    obtain ⟨input'', -, -, rfl, -⟩ := fetchInto_eq_ok hpayload
    -- the cursor is set to the channel that was found
    have hset : Steers u { u with input := input'', current := some id } :=
      ⟨rfl, Or.inr (Or.inr ⟨id, List.mem_map.mpr ⟨ch, hmem, hid⟩, rfl⟩)⟩
    exact hset.trans (steers_getLine hline)
  | compressionMethod hhead _ hread | strayChunkSize hhead _ hread =>
    obtain ⟨input, -, rfl⟩ := fetch_eq_some hhead
    obtain ⟨input', -, rfl⟩ := fetch_eq_some hread
    exact (Stays.refl u).steers
  | @channelType _ id read _ _ hhead _ hread =>
    obtain ⟨input, -, rfl⟩ := fetch_eq_some hhead
    obtain ⟨input', -, rfl⟩ := fetch_eq_some hread
    have htype := stays_channelType { u with input := input' } id (read.getD 0 0)
    exact htype.steers
  | @chunkSize _ id size _ _ _ hhead _ hread =>
    obtain ⟨input, -, rfl⟩ := fetch_eq_some hhead
    obtain ⟨input', -, rfl⟩ := fetch_eq_some hread
    have hmodify := stays_modify { u with input := input' } id
      (f := fun ch => { ch with cacheAlloc := (Bytes.toUInt32 size).toNat, cached := [] })
      fun _ hid => hid
    exact hmodify.steers

/-- **`otic_unpack_getNext`** on any input. -/
theorem steers_getNext {result : Bool} (hnext : u.getNext zstd = .ok (result, u')) :
    Steers u u' := by
  obtain ⟨w, hframes, hlast⟩ := getNext_eq_ok hnext
  have hpassed : Steers u w := by
    clear hlast
    induction hframes with
    | here => exact (Stays.refl u).steers
    | next _ hframe ih => exact ih.trans (steers_nextFrame hframe)
  exact hpassed.trans (steers_nextFrame hlast)

end OticUnpack

/-! ### The channels in memory -/

/-- `otic_unpack_t` with its channels in memory; `calls` lists the calls of the callbacks. -/
structure Registry where
  heap : Linked.Heap Channel
  channels : Option Nat
  current : Option Nat
  state : OticState
  error : OticError
  input : List UInt8
  seeker : Bool
  version : UInt8
  calls : List (UInt8 × Row)

namespace Registry

/-- The calls of the interface.  `answer` is what the allocator answers to
`otic_unpack_defineChannel`, and `address` a pointer to a channel. -/
inductive Op where
  | define (answer : Option Nat) (id : UInt8)
  | close (address : Nat)
  | closeChannel (id : UInt8)
  | parse
  | generate

/-- `otic_unpack_init`, when it returns 1. -/
def init (seeker : Bool) (input : List UInt8) : Option Registry :=
  match OticUnpack.init seeker input with
  | .ok (true, u) =>
      some ⟨Linked.Heap.empty, none, none, u.state, u.error, u.input, seeker, u.version, []⟩
  | _ => none

/-- The label `fail`. -/
def fail (r : Registry) (error : OticError) : Registry :=
  { r with error := error, state := .onError }

/-- `otic_unpack_defineChannel`: the channel is allocated and put in front of the others. -/
def defineChannel (r : Registry) (answer : Option Nat) (id : UInt8) : Option (Bool × Registry) :=
  if r.state ≠ .opened then some (false, r.fail .atInvalidState)
  else do
    match ← r.heap.seek (fun _ current => current.channelId == id) r.channels with
    | some _ => some (false, r.fail .invalidArgument)
    | none =>
        match answer with
        | none => some (false, r.fail .allocationFailure)
        | some address => do
            let heap ← r.heap.malloc address ⟨Channel.init id, r.channels⟩
            some (true, { r with heap := heap, channels := some address })

/-- `otic_unpack_channel_close`: the channel is read before it is looked for in the list. -/
def channelClose (r : Registry) (address : Nat) : Option (Bool × Registry) := do
  let _ ← r.heap.content address
  match ← r.heap.remove (fun current _ => current == address) r.channels with
  | none => some (false, r)
  | some (heap, channels) => some (true, { r with heap := heap, channels := channels })

/-- `otic_unpack_closeChannel`. -/
def closeChannel (r : Registry) (id : UInt8) : Option (Bool × Registry) := do
  match ← r.heap.remove (fun _ current => current.channelId == id) r.channels with
  | none => some (false, r.fail .invalidArgument)
  | some (heap, channels) => some (true, { r with heap := heap, channels := channels })

/-- `otic_unpack_getTotalAmountOfChannel`: the counter has eight bits. -/
def getTotalAmountOfChannel (r : Registry) : Option UInt8 :=
  (r.heap.count r.channels).map UInt8.ofNat

/-- The addresses and ids of a list of channels. -/
def labels (nodes : List (Nat × Channel)) : List (Nat × UInt8) :=
  nodes.map fun n => (n.1, n.2.channelId)

/-- The id of the channel at an address. -/
def idAt (nodes : List (Nat × Channel)) (p : Nat) : Option UInt8 :=
  ((labels nodes).find? fun channel => channel.1 == p).map Prod.snd

/-- `findChannel`. -/
def findChannel (nodes : List (Nat × Channel)) (id : UInt8) : Option Nat :=
  ((labels nodes).find? fun channel => channel.2 == id).map Prod.fst

/-- The reader without its memory. -/
def view (r : Registry) (nodes : List (Nat × Channel)) : OticUnpack :=
  ⟨nodes.map Prod.snd, r.state, r.error, r.current.bind (idAt nodes), r.input, r.seeker, r.version,
    r.calls⟩

/-- The channels are put back where they were found. -/
def settle (r : Registry) (nodes : List (Nat × Channel)) (u : OticUnpack) (current : Option Nat) :
    Option Registry := do
  let heap ← r.heap.refill ((nodes.map Prod.fst).zip u.channels)
  some ⟨heap, r.channels, current, u.state, u.error, u.input, u.seeker, u.version, u.calls⟩

variable (zstd : Zstd)

/-- `otic_unpack_parse`; it does not touch the cursor. -/
def parse (r : Registry) : Option (Bool × Registry) := do
  let nodes ← r.heap.toList r.channels
  let (ok, u) ← ((r.view nodes).parse zstd).toOption
  let r ← r.settle nodes u r.current
  some (ok, r)

/-- `otic_unpack_generate`: the channel the cursor points to is read, if there is one. -/
def generate (r : Registry) : Option (Bool × Registry) := do
  let nodes ← r.heap.toList r.channels
  match r.current with
  | some p => do
      let channel ← r.heap.content p
      let (ok, u) ← ((r.view nodes).getLine channel).toOption
      let r ← r.settle nodes u (if u.current.isNone then none else some p)
      some (ok, r)
  | none => do
      let (ok, u) ← ((r.view nodes).getNext zstd).toOption
      let r ← r.settle nodes u (u.current.bind (findChannel nodes))
      some (ok, r)

/-- One call. -/
def step (r : Registry) : Op → Option (Bool × Registry)
  | .define answer id => r.defineChannel answer id
  | .close address => r.channelClose address
  | .closeChannel id => r.closeChannel id
  | .parse => r.parse zstd
  | .generate => r.generate zstd

/-- The states that calls lead through, up to the first fault. -/
def states : Registry → List Op → List Registry
  | r, [] => [r]
  | r, op :: ops =>
      r :: match r.step zstd op with
        | some (_, r') => states r' ops
        | none => []

/-! ### What is kept -/

/-- The list holds these channels, by address, and no other channel is allocated. -/
structure Holds (r : Registry) (nodes : List (Nat × Channel)) : Prop where
  owns : Linked.Owns r.heap r.channels nodes
  ids : (nodes.map fun n => n.2.channelId).Nodup

/-- The ids in the list are distinct, the cursor is null or a channel in the list, and the
channels can be counted. -/
def Registered (r : Registry) : Prop :=
  ∃ nodes, Linked.IsList r.heap r.channels nodes ∧ (nodes.map fun n => n.2.channelId).Nodup ∧
    (∀ p, r.current = some p → p ∈ nodes.map Prod.fst) ∧
    ∃ total, r.getTotalAmountOfChannel = some total ∧ total.toNat = nodes.length

/-- No channel is closed that the cursor points to, and no 256th channel is defined. -/
def Safe (r : Registry) (nodes : List (Nat × Channel)) : Op → Prop
  | .define answer id => r.state = .opened → (∀ n ∈ nodes, n.2.channelId ≠ id) → answer ≠ none →
      nodes.length ≠ 255
  | .close address => r.current ≠ some address
  | .closeChannel id => ∀ n ∈ nodes, n.2.channelId = id → r.current ≠ some n.1
  | .parse | .generate => True

/-- Every call is safe in the state it finds. -/
def Careful : Registry → List Op → Prop
  | _, [] => True
  | r, op :: ops => ∀ ok r', r.step zstd op = some (ok, r') →
      (∀ nodes, r.heap.toList r.channels = some nodes → r.Safe nodes op) ∧ Careful r' ops

variable {zstd : Zstd} {r r' : Registry} {nodes : List (Nat × Channel)}

theorem Holds.isList (h : r.Holds nodes) : Linked.IsList r.heap r.channels nodes := h.owns.toIsList

/-- There are 256 ids to choose from. -/
theorem Holds.length_le (h : r.Holds nodes) : nodes.length ≤ 256 := by
  have hfin := (h.ids.map (f := UInt8.toFin) fun a b hab => UInt8.toFin_inj.mp hab).length_le_card
  simpa only [List.length_map, Fintype.card_fin, UInt8.size] using hfin

theorem Holds.registered (h : r.Holds nodes) :
    r.Registered ↔ (∀ p, r.current = some p → p ∈ nodes.map Prod.fst) ∧ nodes.length ≠ 256 := by
  have hlength := h.length_le
  have htotal : r.getTotalAmountOfChannel = some (UInt8.ofNat nodes.length) := by
    rw [getTotalAmountOfChannel, h.isList.count, Option.map_some]
  have hcount : (UInt8.ofNat nodes.length).toNat = nodes.length ↔ nodes.length ≠ 256 := by
    rw [UInt8.toNat_ofNat']
    omega
  constructor
  · rintro ⟨nodes', hlist, -, hcursor, total, hsome, hnat⟩
    obtain rfl : nodes = nodes' :=
      Option.some.inj (h.isList.toList.symm.trans hlist.toList)
    rw [htotal, Option.some.injEq] at hsome
    exact ⟨hcursor, hcount.mp (hsome ▸ hnat)⟩
  · rintro ⟨hcursor, hfew⟩
    exact ⟨nodes, h.isList, h.ids, hcursor, _, htotal, hcount.mpr hfew⟩

theorem Holds.fail (h : r.Holds nodes) (error : OticError) : (r.fail error).Holds nodes :=
  ⟨h.owns, h.ids⟩

/-- What a definition can do. -/
theorem Holds.defineChannel (h : r.Holds nodes) {answer : Option Nat} {id : UInt8} {ok : Bool}
    (hdefine : r.defineChannel answer id = some (ok, r')) :
    ((r.state ≠ .opened ∨ (∃ n ∈ nodes, n.2.channelId = id) ∨ answer = none) ∧
      ∃ error, r' = r.fail error) ∨
    (r.state = .opened ∧ (∀ n ∈ nodes, n.2.channelId ≠ id) ∧ ∃ address, answer = some address ∧
      r'.current = r.current ∧ r'.Holds ((address, Channel.init id) :: nodes)) := by
  unfold Registry.defineChannel at hdefine
  split at hdefine
  · rename_i hstate
    cases hdefine
    exact Or.inl ⟨Or.inl hstate, _, rfl⟩
  rename_i hstate
  obtain ⟨found, hseek, hfound⟩ :=
    h.isList.seek fun _ (current : Channel) => current.channelId == id
  simp only [hseek, Option.bind_eq_bind, Option.bind_some] at hdefine
  cases found with
  | some _ =>
    cases hdefine
    have hused : (nodes.any fun n => n.2.channelId == id) = true := hfound.symm
    exact Or.inl ⟨Or.inr (Or.inl (by simpa using hused)), _, rfl⟩
  | none =>
    have hunused : ∀ n ∈ nodes, n.2.channelId ≠ id := by
      have hnone : (nodes.any fun n => n.2.channelId == id) = false := hfound.symm
      simpa using hnone
    cases answer with
    | none =>
      cases hdefine
      exact Or.inl ⟨Or.inr (Or.inr rfl), _, rfl⟩
    | some address =>
      obtain ⟨heap, hmalloc, hsame⟩ := Option.bind_eq_some_iff.mp hdefine
      cases hsame
      refine Or.inr ⟨not_not.mp hstate, hunused, address, rfl, rfl, h.owns.malloc hmalloc,
        List.nodup_cons.mpr ⟨fun hmem => ?_, h.ids⟩⟩
      obtain ⟨n, hn, hid⟩ := List.mem_map.mp hmem
      exact hunused n hn hid

/-- Addresses tell channels apart as ids do. -/
theorem Holds.same_iff (h : r.Holds nodes) {m n : Nat × Channel} (hm : m ∈ nodes) (hn : n ∈ nodes) :
    m.1 = n.1 ↔ m.2.channelId = n.2.channelId := by
  constructor
  · intro hsame
    rw [List.inj_on_of_nodup_map h.isList.nodup hm hn hsame]
  · intro hsame
    rw [List.inj_on_of_nodup_map h.ids hm hn hsame]

/-- The list without the channel at an address. -/
theorem Holds.remove (h : r.Holds nodes) {p : Nat} (hp : p ∈ nodes.map Prod.fst)
    {stop : Nat → Channel → Bool} (hstop : ∀ n ∈ nodes, stop n.1 n.2 = true ↔ n.1 = p) :
    ∃ heap channels, r.heap.remove stop r.channels = some (some (heap, channels)) ∧
      Holds { r with heap := heap, channels := channels } (nodes.filter fun n => n.1 ≠ p) := by
  obtain ⟨heap, channels, hremove, howns⟩ := h.owns.remove hp hstop
  exact ⟨heap, channels, hremove, howns, h.ids.sublist (List.filter_sublist.map _)⟩

theorem addresses_labels (nodes : List (Nat × Channel)) :
    (labels nodes).map Prod.fst = nodes.map Prod.fst := List.map_map

theorem ids_labels (nodes : List (Nat × Channel)) :
    (labels nodes).map Prod.snd = nodes.map fun n => n.2.channelId := List.map_map

theorem ids_view (r : Registry) (nodes : List (Nat × Channel)) :
    (r.view nodes).channels.map Channel.channelId = nodes.map fun n => n.2.channelId :=
  List.map_map

/-- The address of an id is that of the channel with the id. -/
theorem Holds.idAt_findChannel (h : r.Holds nodes) {id : UInt8}
    (hid : id ∈ nodes.map fun n => n.2.channelId) :
    ∃ p, findChannel nodes id = some p ∧ idAt nodes p = some id := by
  rw [← ids_labels] at hid
  obtain ⟨channel, hchannel, rfl⟩ := List.mem_map.mp hid
  obtain ⟨found, hfind⟩ : ∃ found, (labels nodes).find? (fun c => c.2 == channel.2) = some found :=
    Option.isSome_iff_exists.mp (List.find?_isSome.mpr ⟨channel, hchannel, by simp⟩)
  refine ⟨found.1, by rw [findChannel, hfind]; rfl, ?_⟩
  obtain ⟨other, hother⟩ : ∃ other, (labels nodes).find? (fun c => c.1 == found.1) = some other :=
    Option.isSome_iff_exists.mp (List.find?_isSome.mpr ⟨found, List.mem_of_find?_eq_some hfind,
      by simp⟩)
  have hsame : other = found := by
    refine List.inj_on_of_nodup_map (f := Prod.fst) (by rw [addresses_labels]; exact h.isList.nodup)
      (List.mem_of_find?_eq_some hother) (List.mem_of_find?_eq_some hfind) ?_
    simpa using List.find?_some hother
  rw [idAt, hother, hsame, Option.map_some]
  congr 1
  simpa using List.find?_some hfind

/-- The id at an address is that of the channel there, and it is found by it. -/
theorem Holds.idAt_mem (h : r.Holds nodes) {p : Nat} {ch : Channel} (hmem : (p, ch) ∈ nodes) :
    idAt nodes p = some ch.channelId ∧ (r.view nodes).findChannel ch.channelId = some ch := by
  constructor
  · have hlabel : (p, ch.channelId) ∈ labels nodes := List.mem_map_of_mem hmem
    obtain ⟨found, hfind⟩ : ∃ found, (labels nodes).find? (fun c => c.1 == p) = some found :=
      Option.isSome_iff_exists.mp (List.find?_isSome.mpr ⟨_, hlabel, by simp⟩)
    have hsame : found = (p, ch.channelId) := by
      refine List.inj_on_of_nodup_map (f := Prod.fst)
        (by rw [addresses_labels]; exact h.isList.nodup) (List.mem_of_find?_eq_some hfind) hlabel ?_
      simpa using List.find?_some hfind
    rw [idAt, hfind, hsame, Option.map_some]
  · have hchannel : ch ∈ (r.view nodes).channels := List.mem_map_of_mem hmem
    obtain ⟨found, hfind⟩ : ∃ found, (r.view nodes).findChannel ch.channelId = some found :=
      Option.isSome_iff_exists.mp (List.find?_isSome.mpr ⟨ch, hchannel, by simp⟩)
    obtain ⟨hin, hid⟩ := OticUnpack.mem_of_findChannel hfind
    have hsame : found = ch :=
      List.inj_on_of_nodup_map (by rw [ids_view]; exact h.ids) hin hchannel hid
    rw [hfind, hsame]

theorem mem_of_findChannel {id : UInt8} {p : Nat} (hfind : findChannel nodes id = some p) :
    p ∈ nodes.map Prod.fst := by
  obtain ⟨channel, hfound, rfl⟩ := Option.map_eq_some_iff.mp hfind
  rw [← addresses_labels]
  exact List.mem_map_of_mem (List.mem_of_find?_eq_some hfound)

/-- **Putting the channels back** leaves the list as it was, but for what the channels hold. -/
theorem Holds.settle (h : r.Holds nodes) {u : OticUnpack} {current : Option Nat}
    (hids : u.channels.map Channel.channelId = nodes.map fun n => n.2.channelId)
    (hcurrent : current.bind (idAt nodes) = u.current) :
    ∃ r' nodes', r.settle nodes u current = some r' ∧ r'.Holds nodes' ∧
      labels nodes' = labels nodes ∧ r'.current = current ∧ r'.view nodes' = u := by
  have hlength : u.channels.length = nodes.length := by simpa using congrArg List.length hids
  have hfst : ((nodes.map Prod.fst).zip u.channels).map Prod.fst = nodes.map Prod.fst :=
    List.map_fst_zip (by simp [hlength])
  have hsnd : ((nodes.map Prod.fst).zip u.channels).map Prod.snd = u.channels :=
    List.map_snd_zip (by simp [hlength])
  have hlabels : labels ((nodes.map Prod.fst).zip u.channels) = labels nodes := by
    have hzip : (nodes.map Prod.fst).zip (u.channels.map Channel.channelId) =
        ((nodes.map Prod.fst).zip u.channels).map (Prod.map id Channel.channelId) :=
      List.zip_map_right
    rw [hids, List.zip_map'] at hzip
    exact hzip.symm
  obtain ⟨heap, hrefill, hlist, hsome⟩ := @h.isList.refill _ _ _ [] _ _ hfst
  refine ⟨⟨heap, r.channels, current, u.state, u.error, u.input, u.seeker, u.version, u.calls⟩, _,
    ?_, ⟨h.owns.of_addresses hlist hsome hfst, ?_⟩, hlabels, rfl, ?_⟩
  · simp only [Registry.settle, hrefill, Option.bind_eq_bind, Option.bind_some]
  · rw [List.nil_append, ← ids_labels, hlabels, ids_labels]
    exact h.ids
  · have hidAt : idAt ((nodes.map Prod.fst).zip u.channels) = idAt nodes := by
      funext p
      rw [idAt, hlabels, idAt]
    simp only [view, List.nil_append, hsnd, hidAt, hcurrent]

/-- **`otic_unpack_parse`** does what it does on the list of the channels. -/
theorem Holds.parse (h : r.Holds nodes) {ok : Bool} (hparse : r.parse zstd = some (ok, r')) :
    ∃ nodes', r'.Holds nodes' ∧ labels nodes' = labels nodes ∧ r'.current = r.current ∧
      (r.view nodes).parse zstd = .ok (ok, r'.view nodes') := by
  simp only [Registry.parse, h.isList.toList, Option.bind_eq_bind, Option.bind_some] at hparse
  cases hcall : (r.view nodes).parse zstd with
  | error fault =>
    rw [hcall] at hparse
    cases hparse
  | ok out =>
    obtain ⟨ok', u⟩ := out
    obtain ⟨hids, hcursor⟩ := OticUnpack.stays_parse hcall
    rw [ids_view] at hids
    obtain ⟨r₁, nodes', hsettle, hholds, hlabels, hcurrent, hview⟩ := h.settle hids hcursor.symm
    simp only [hcall, Except.toOption, Option.bind_some, hsettle] at hparse
    cases hparse
    exact ⟨nodes', hholds, hlabels, hcurrent, by rw [hview]⟩

/-- **`otic_unpack_generate`** does what it does on the list of the channels; the cursor
it leaves is null or in the list. -/
theorem Holds.generate (h : r.Holds nodes) {ok : Bool}
    (hgenerate : r.generate zstd = some (ok, r')) :
    ∃ nodes', r'.Holds nodes' ∧ labels nodes' = labels nodes ∧
      (∀ p, r'.current = some p → p ∈ nodes.map Prod.fst) ∧
      (r.view nodes).generate zstd = .ok (ok, r'.view nodes') := by
  simp only [Registry.generate, h.isList.toList, Option.bind_eq_bind, Option.bind_some]
    at hgenerate
  cases hcursor : r.current with
  | some p =>
    simp only [hcursor] at hgenerate
    obtain ⟨channel, hcontent, hread⟩ := Option.bind_eq_some_iff.mp hgenerate
    have hmem := h.owns.mem hcontent
    obtain ⟨hidAt, hfind⟩ := h.idAt_mem hmem
    have hview : (r.view nodes).current = some channel.channelId := by
      rw [view, hcursor, Option.bind_some, hidAt]
    have heq : (r.view nodes).generate zstd = (r.view nodes).getLine channel := by
      rw [OticUnpack.generate, hview, Option.bind_some, hfind]
    rw [heq]
    cases hcall : (r.view nodes).getLine channel with
    | error fault =>
      rw [hcall] at hread
      cases hread
    | ok out =>
      obtain ⟨ok', u⟩ := out
      obtain ⟨hids, hset⟩ := OticUnpack.getLine_cursor hcall
      rw [ids_view] at hids
      have hcurrent : (if u.current.isNone then none else some p).bind (idAt nodes) =
          u.current := by
        rcases hset with hsame | hnone
        · rw [hsame, hview]
          exact hidAt
        · rw [hnone]
          rfl
      obtain ⟨r₁, nodes', hsettle, hholds, hlabels, hcurrent', hview'⟩ := h.settle hids hcurrent
      simp only [hcall, Except.toOption, Option.bind_some, hsettle] at hread
      cases hread
      refine ⟨nodes', hholds, hlabels, fun q hq => ?_, by rw [hview']⟩
      rw [hcurrent'] at hq
      split at hq
      · cases hq
      · cases hq
        exact List.mem_map_of_mem hmem
  | none =>
    simp only [hcursor] at hgenerate
    have hview : (r.view nodes).current = none := by
      rw [view, hcursor]
      rfl
    have heq : (r.view nodes).generate zstd = (r.view nodes).getNext zstd := by
      rw [OticUnpack.generate, hview]
      rfl
    rw [heq]
    cases hcall : (r.view nodes).getNext zstd with
    | error fault =>
      rw [hcall] at hgenerate
      cases hgenerate
    | ok out =>
      obtain ⟨ok', u⟩ := out
      obtain ⟨hids, hset⟩ := OticUnpack.steers_getNext hcall
      rw [ids_view] at hids hset
      have hcurrent : (u.current.bind (findChannel nodes)).bind (idAt nodes) = u.current := by
        rcases hset with hsame | hnone | ⟨id, hid, hsome⟩
        · rw [hsame, hview]
          rfl
        · rw [hnone]
          rfl
        · obtain ⟨p, hfind, hidAt⟩ := h.idAt_findChannel hid
          rw [hsome, Option.bind_some, hfind, Option.bind_some, hidAt]
      obtain ⟨r₁, nodes', hsettle, hholds, hlabels, hcurrent', hview'⟩ := h.settle hids hcurrent
      simp only [hcall, Except.toOption, Option.bind_some, hsettle] at hgenerate
      cases hgenerate
      refine ⟨nodes', hholds, hlabels, fun q hq => ?_, by rw [hview']⟩
      rw [hcurrent', Option.bind_eq_some_iff] at hq
      obtain ⟨id, -, hfind⟩ := hq
      exact mem_of_findChannel hfind

/-! ### Runs -/

theorem holds_init {seeker : Bool} {input : List UInt8} (hinit : init seeker input = some r) :
    r.Holds [] ∧ r.current = none := by
  unfold init at hinit
  split at hinit
  · cases hinit
    exact ⟨⟨Linked.owns_empty, List.nodup_nil⟩, rfl⟩
  · cases hinit

theorem Holds.registered_of_labels (h : r.Holds nodes) {nodes' : List (Nat × Channel)}
    (h' : r'.Holds nodes') (hlabels : labels nodes' = labels nodes) (hregistered : r.Registered)
    (hcursor : ∀ p, r'.current = some p → p ∈ nodes.map Prod.fst) : r'.Registered := by
  have haddresses : nodes'.map Prod.fst = nodes.map Prod.fst := by
    rw [← addresses_labels, hlabels, addresses_labels]
  have hlength : nodes'.length = nodes.length := by simpa using congrArg List.length haddresses
  refine h'.registered.mpr ⟨?_, ?_⟩
  · rw [haddresses]
    exact hcursor
  · rw [hlength]
    exact (h.registered.mp hregistered).2

/-- Without one of its channels a reader is registered unless the cursor points to it. -/
theorem Holds.registered_removed (h : r.Holds nodes) (hregistered : r.Registered) {p : Nat}
    {heap : Linked.Heap Channel} {channels : Option Nat}
    (hholds : Holds { r with heap := heap, channels := channels }
      (nodes.filter fun n => n.1 ≠ p)) :
    Registered { r with heap := heap, channels := channels } ↔ r.current ≠ some p := by
  obtain ⟨hcursor, hfew⟩ := h.registered.mp hregistered
  have hshort : (nodes.filter fun n => n.1 ≠ p).length ≠ 256 := by
    have hlength := List.length_filter_le (fun n : Nat × Channel => decide (n.1 ≠ p)) nodes
    have hmax := h.length_le
    omega
  rw [hholds.registered, and_iff_left hshort]
  constructor
  · intro hall hcurrent
    obtain ⟨n, hn, hp⟩ := List.mem_map.mp (hall p hcurrent)
    rw [List.mem_filter, decide_eq_true_eq] at hn
    exact hn.2 hp
  · intro hother q hq
    obtain ⟨n, hn, rfl⟩ := List.mem_map.mp (hcursor q hq)
    refine List.mem_map_of_mem (List.mem_filter.mpr ⟨hn, decide_eq_true ?_⟩)
    rintro rfl
    exact hother hq

/-- **One call** keeps the list and the cursor exactly if it is safe. -/
theorem Holds.step (h : r.Holds nodes) (hregistered : r.Registered) {op : Op} {ok : Bool}
    (hstep : r.step zstd op = some (ok, r')) :
    ∃ nodes', r'.Holds nodes' ∧ (r'.Registered ↔ r.Safe nodes op) := by
  obtain ⟨hcursor, hfew⟩ := h.registered.mp hregistered
  have hfail : ∀ error, (r.fail error).Registered :=
    fun error => (h.fail error).registered.mpr ⟨hcursor, hfew⟩
  cases op with
  | define answer id =>
    rcases h.defineChannel hstep with ⟨hcause, error, rfl⟩ |
      ⟨hstate, hunused, address, rfl, hcurrent, hholds⟩
    · refine ⟨nodes, h.fail error, iff_of_true (hfail error) ?_⟩
      intro hstate hunused hanswer
      rcases hcause with hclosed | ⟨n, hn, hid⟩ | hnone
      · exact absurd hstate hclosed
      · exact absurd hid (hunused n hn)
      · exact absurd hnone hanswer
    · refine ⟨_, hholds, ?_⟩
      have hstays : ∀ p, r'.current = some p →
          p ∈ ((address, Channel.init id) :: nodes).map Prod.fst := by
        intro p hp
        rw [hcurrent] at hp
        exact List.mem_cons_of_mem _ (hcursor p hp)
      rw [hholds.registered, and_iff_right hstays, List.length_cons]
      constructor
      · intro hcount _ _ _ hfull
        exact hcount (by omega)
      · intro hsafe
        have hroom := hsafe hstate hunused (by simp)
        omega
  | close address =>
    obtain ⟨channel, hcontent, hclose⟩ := Option.bind_eq_some_iff.mp hstep
    have hmem : address ∈ nodes.map Prod.fst := List.mem_map_of_mem (h.owns.mem hcontent)
    obtain ⟨heap, channels, hremove, hholds⟩ :=
      @h.remove _ _ _ hmem (fun current _ => current == address) fun n _ => beq_iff_eq
    simp only [hremove, Option.bind_eq_bind, Option.bind_some] at hclose
    cases hclose
    exact ⟨_, hholds, h.registered_removed hregistered hholds⟩
  | closeChannel id =>
    by_cases hopen : ∃ n ∈ nodes, n.2.channelId = id
    · obtain ⟨n, hn, rfl⟩ := hopen
      obtain ⟨heap, channels, hremove, hholds⟩ :=
        @h.remove _ _ _ (List.mem_map_of_mem hn)
          (fun _ current => current.channelId == n.2.channelId)
          fun m hm => beq_iff_eq.trans (h.same_iff hm hn).symm
      simp only [Registry.step, Registry.closeChannel, hremove, Option.bind_eq_bind,
        Option.bind_some] at hstep
      cases hstep
      refine ⟨_, hholds, (h.registered_removed hregistered hholds).trans ?_⟩
      constructor
      · intro hother m hm hid
        rwa [(h.same_iff hm hn).mpr hid]
      · intro hsafe
        exact hsafe n hn rfl
    · have habsent : ∀ n ∈ nodes, n.2.channelId ≠ id := fun n hn hid => hopen ⟨n, hn, hid⟩
      have hremove := @h.isList.remove_none _ _ _ _ (fun _ current => current.channelId == id)
        fun n hn => beq_eq_false_iff_ne.mpr (habsent n hn)
      simp only [Registry.step, Registry.closeChannel, hremove, Option.bind_eq_bind,
        Option.bind_some] at hstep
      cases hstep
      exact ⟨nodes, h.fail _, iff_of_true (hfail _) fun n hn hid => absurd hid (habsent n hn)⟩
  | parse =>
    obtain ⟨nodes', hholds, hlabels, hcurrent, -⟩ := h.parse hstep
    refine ⟨nodes', hholds, iff_of_true ?_ trivial⟩
    exact h.registered_of_labels hholds hlabels hregistered (by rw [hcurrent]; exact hcursor)
  | generate =>
    obtain ⟨nodes', hholds, hlabels, hcursor', -⟩ := h.generate hstep
    refine ⟨nodes', hholds, iff_of_true ?_ trivial⟩
    exact h.registered_of_labels hholds hlabels hregistered hcursor'

theorem Holds.careful_iff (h : r.Holds nodes) (hregistered : r.Registered) (ops : List Op) :
    (∀ r' ∈ r.states zstd ops, r'.Registered) ↔ r.Careful zstd ops := by
  induction ops generalizing r nodes with
  | nil => simpa [states, Careful] using hregistered
  | cons op ops ih =>
    have hfirst : ∀ m, r.heap.toList r.channels = some m → m = nodes := fun m hm =>
      Option.some.inj (hm.symm.trans h.isList.toList)
    cases hstep : r.step zstd op with
    | none => simpa [states, Careful, hstep] using hregistered
    | some out =>
      obtain ⟨ok, r'⟩ := out
      obtain ⟨nodes', hholds, hiff⟩ := h.step hregistered hstep
      have hself : r' ∈ r'.states zstd ops := by
        cases ops <;> exact List.mem_cons_self
      simp only [states, Careful, hstep, List.mem_cons, forall_eq_or_imp, hregistered, true_and,
        Option.some.injEq, Prod.mk.injEq, and_imp]
      constructor
      · rintro hall _ _ rfl rfl
        have hregistered' := hall r' hself
        refine ⟨fun m hm => ?_, (ih hholds hregistered').mp hall⟩
        rw [hfirst m hm]
        exact hiff.mp hregistered'
      · intro hcareful
        obtain ⟨hsafe, hrest⟩ := hcareful ok r' rfl rfl
        exact (ih hholds (hiff.mpr (hsafe nodes h.isList.toList))).mpr hrest

/-- **The list and the cursor** are right in every state that calls lead through exactly if
no call closes the channel the cursor points to, and none defines a 256th channel. -/
theorem registered_iff {seeker : Bool} {input : List UInt8} (hinit : init seeker input = some r)
    (ops : List Op) :
    (∀ r' ∈ r.states zstd ops, r'.Registered) ↔ r.Careful zstd ops := by
  obtain ⟨hholds, hcurrent⟩ := holds_init hinit
  refine hholds.careful_iff (hholds.registered.mpr ⟨?_, by simp⟩) ops
  intro p hp
  rw [hcurrent] at hp
  cases hp

theorem not_registered_of_dangling {p : Nat} (hchannels : r.channels = none)
    (hcurrent : r.current = some p) : ¬ r.Registered := by
  rintro ⟨nodes, hlist, -, hcursor, -⟩
  have hempty := hlist.chain.head_eq
  obtain ⟨n, hn, -⟩ := List.mem_map.mp (hcursor p hcurrent)
  cases nodes with
  | nil => cases hn
  | cons m nodes =>
    rw [hchannels] at hempty
    cases hempty

/-- A file with a frame of channel 1, of a timestamp. -/
def oneTimestamp : List UInt8 :=
  fileHeader 0 ++ Event.dataHeader 1 11 ++ Zstd.storedFrame (Record.setTimestamp 5).encode

/-- The channel is selected, read, and closed while the cursor points to it. -/
def closedUnderCursor : List Op := [.define (some 0) 1, .generate, .closeChannel 1]

theorem registered_iff_oneTimestamp :
    ∃ r, init false oneTimestamp = some r ∧
      ((∀ r' ∈ r.states Zstd.stored [.define (some 0) 1, .generate], r'.Registered) ↔
        r.Careful Zstd.stored [.define (some 0) 1, .generate]) :=
  ⟨_, rfl, @registered_iff Zstd.stored _ false oneTimestamp rfl _⟩

theorem not_registered_closedUnderCursor :
    ∃ r, init false oneTimestamp = some r ∧
      ¬ ∀ r' ∈ r.states Zstd.stored closedUnderCursor, r'.Registered := by
  refine ⟨_, rfl, fun hall => ?_⟩
  have hlast := hall _ (List.mem_cons_of_mem _ (List.mem_cons_of_mem _
    (List.mem_cons_of_mem _ List.mem_cons_self)))
  exact not_registered_of_dangling (p := 0) rfl rfl hlast

end Registry

end Otic.Unpack
