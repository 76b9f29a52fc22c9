import Mathlib.Data.Fintype.Card
import Otic.Library.Linked
import Otic.Pack.Course
import Otic.Pack.Frame
import Otic.Stored

/-!
# The channels of a writer in memory

`otic_pack_t` keeps its channels in a list that is linked through `previous`.  Here the
list lies in a heap, a channel is named by its address, and a read of a channel that was
freed is an error (`none`).  Which channels are open can be told from the calls
(`Registry.correct_run`), and every call does what it does on the list of the
channels (`Registry.Holds.step`).  `otic_pack_closeChannel` works exactly if there is
nothing to close (`Registry.closesById_iff`).
-/

namespace Otic.Pack

/-- `otic_pack_t` with its channels in memory. -/
structure Registry where
  parent : Parent
  heap : Linked.Heap Channel
  channels : Option Nat
  overran : Bool

namespace Registry

/-- The calls of the interface.  `address` is a pointer to a channel; with `define` it is
what the allocator answers. -/
inductive Op where
  | define (address : Nat) (channelType id : UInt8) (bufferSize : UInt32)
  | inject (address : Nat) (call : AnyCall)
  | flush (address : Nat)
  | close (address : Nat)
  | closeChannel (id : UInt8)
  | clearErrorFlag

/-- A call and what the flusher answers on the way. -/
structure Step where
  op : Op
  answers : List Bool

/-- From here on the flusher answers like this. -/
def hear (r : Registry) (answers : List Bool) : Registry :=
  { r with parent := { r.parent with answers := answers } }

/-- `otic_pack_init`. -/
def init (features : UInt8) (answers : List Bool) : Registry :=
  ⟨(OticPack.init features answers).parent, Linked.Heap.empty, none, false⟩

/-- The error and the state set at a label `fail`. -/
def failed (r : Registry) (error : OticError) : Registry :=
  { r with parent := { r.parent with error := error, state := .onError } }

/-- `otic_pack_defineChannel`: the channel is allocated and put in front of the others. -/
def defineChannel (r : Registry) (address : Nat) (channelType id : UInt8) (bufferSize : UInt32) :
    Option (Bool × Registry) :=
  if r.parent.state ≠ .opened then some (false, r.failed .atInvalidState)
  else if id = 0 then some (false, r.failed .invalidArgument)
  else do
    match ← r.heap.seek (fun _ current => current.channelId == id) r.channels with
    | some _ => some (false, r.failed .invalidArgument)
    | none =>
        let bufferSize := OticPack.effectiveSize bufferSize
        let temp := Channel.init id channelType bufferSize
        let heap ← r.heap.malloc address ⟨temp, r.channels⟩
        let (_, parent) := r.parent.flusher (Event.defineBytes id channelType bufferSize)
        some (true, { r with parent := parent, heap := heap, channels := some address })

/-- A call on the channel at an address. -/
def onChannel (r : Registry) (address : Nat) (f : Handle → Bool × Handle) :
    Option (Bool × Registry) := do
  let channel ← r.heap.content address
  let (ok, h) := f ⟨r.parent, channel⟩
  let heap ← r.heap.modify address fun _ => h.channel
  some (ok, { r with parent := h.parent, heap := heap })

variable (zstd : Zstd)

/-- `otic_pack_channel_close`: the channel is looked for in the list of its parent. -/
def channelClose (r : Registry) (address : Nat) : Option (Bool × Registry) := do
  let (_, r) ← r.onChannel address fun h => (true, h.finish zstd)
  let channel ← r.heap.content address
  match ← r.heap.remove (fun current _ => current == address) r.channels with
  | none => some (false, r)
  | some (heap, channels) =>
      some (true,
        { r with heap := heap, channels := channels, overran := r.overran || channel.overrun })

/-- The loop of `otic_pack_closeChannel`: `before` is `previous` itself, and the pointer
to the next channel is read when the channel is freed already. -/
def closeChannelLoop (id : UInt8) :
    (fuel : Nat) → (previous : Option Nat) → Linked.Heap Channel → (channels : Option Nat) →
      Option (Linked.Heap Channel × Option Nat)
  | _, none, heap, channels => some (heap, channels)
  | 0, some _, _, _ => none
  | fuel + 1, some p, heap, channels => do
      let previous ← heap.node p
      let before := some p
      let (heap, channels) ←
        if previous.content.channelId = id then do
          let (heap, channels) ← heap.unlink channels before p
          let heap ← heap.free p
          some (heap, channels)
        else some (heap, channels)
      let previous ← heap.node p
      closeChannelLoop id fuel previous.next heap channels

/-- `otic_pack_closeChannel`. -/
def closeChannel (r : Registry) (id : UInt8) : Option (Bool × Registry) := do
  let (heap, channels) ← closeChannelLoop id (r.heap.mallocs + 1) r.channels r.heap r.channels
  some (false, { r with heap := heap, channels := channels }.failed .invalidArgument)

/-- `otic_pack_getTotalAmountOfChannel`: the counter has eight bits. -/
def getTotalAmountOfChannel (r : Registry) : Option UInt8 :=
  (r.heap.count r.channels).map UInt8.ofNat

/-- `otic_pack_clearErrorFlag`. -/
def clearErrorFlag (r : Registry) : Registry :=
  { r with parent := { r.parent with error := .none, state := .opened } }

/-- The loop of `otic_pack_close`: the next channel is looked up before one is closed. -/
def closeLoop : (fuel : Nat) → (current : Option Nat) → Registry → Option (Bool × Registry)
  | _, none, r => some (true, r)
  | 0, some _, _ => none
  | fuel + 1, some p, r => do
      let temp ← r.heap.node p
      let (ok, r) ← r.channelClose zstd p
      if ok then closeLoop fuel temp.next r else some (false, r)

/-- `otic_pack_close`. -/
def close (r : Registry) : Option (Bool × Registry) := do
  let (ok, r) ← closeLoop zstd (r.heap.mallocs + 1) r.channels r
  some (ok, { r with parent := { r.parent with state := if ok then .closed else .onError } })

/-- One call. -/
def step (r : Registry) (s : Step) : Option (Bool × Registry) :=
  let r := r.hear s.answers
  match s.op with
  | .define address channelType id bufferSize => r.defineChannel address channelType id bufferSize
  | .inject address call => r.onChannel address (call.inject zstd)
  | .flush address => r.onChannel address (Handle.channelFlush zstd)
  | .close address => r.channelClose zstd address
  | .closeChannel id => r.closeChannel id
  | .clearErrorFlag => some (true, r.clearErrorFlag)

/-- Any number of calls, with their results. -/
def run : Registry → List Step → Option (List Bool × Registry)
  | r, [] => some ([], r)
  | r, s :: steps => do
      let (ok, r) ← r.step zstd s
      let (oks, r) ← run r steps
      some (ok :: oks, r)

/-! ### Open channels -/

/-- The list holds these channels, by address, and no other channel is allocated. -/
structure Holds (r : Registry) (nodes : List (Nat × Channel)) : Prop where
  owns : Linked.Owns r.heap r.channels nodes
  ids : (nodes.map fun n => n.2.channelId).Nodup
  nonzero : ∀ n ∈ nodes, n.2.channelId ≠ 0

/-- The channels open after a call, by address and id, the newest first. -/
def openAfter (opened : List (Nat × UInt8)) (call : Op × Bool) : List (Nat × UInt8) :=
  match call.1 with
  | .define address _ id _ => if call.2 then (address, id) :: opened else opened
  | .close address => opened.filter fun channel => channel.1 ≠ address
  | .inject _ _ | .flush _ | .closeChannel _ | .clearErrorFlag => opened

/-- The channels that were defined and are not yet closed. -/
def opened (calls : List (Op × Bool)) : List (Nat × UInt8) := calls.foldl openAfter []

/-- The addresses and ids of a list of channels. -/
def labels (nodes : List (Nat × Channel)) : List (Nat × UInt8) :=
  nodes.map fun n => (n.1, n.2.channelId)

/-- The pack without its memory. -/
def view (r : Registry) (nodes : List (Nat × Channel)) : OticPack :=
  ⟨r.parent, nodes.map Prod.snd, r.overran⟩

variable {zstd : Zstd} {r : Registry} {nodes : List (Nat × Channel)}

theorem ids_view (r : Registry) (nodes : List (Nat × Channel)) :
    (r.view nodes).ids = nodes.map fun n => n.2.channelId := List.map_map

theorem addresses_labels (nodes : List (Nat × Channel)) :
    (labels nodes).map Prod.fst = nodes.map Prod.fst := List.map_map

theorem ids_labels (nodes : List (Nat × Channel)) :
    (labels nodes).map Prod.snd = nodes.map fun n => n.2.channelId := List.map_map

theorem holds_init (features : UInt8) (answers : List Bool) : (init features answers).Holds [] where
  owns := Linked.owns_empty
  ids := List.nodup_nil
  nonzero := fun _ hn => absurd hn List.not_mem_nil

/-- The parent is no part of the list. -/
theorem Holds.parent (h : r.Holds nodes) (parent : Parent) :
    Holds { r with parent := parent } nodes := ⟨h.owns, h.ids, h.nonzero⟩

theorem Holds.isList (h : r.Holds nodes) : Linked.IsList r.heap r.channels nodes := h.owns.toIsList

theorem Holds.content (h : r.Holds nodes) {n : Nat × Channel} (hn : n ∈ nodes) :
    r.heap.content n.1 = some n.2 := h.isList.chain.content hn

/-- There are 255 ids to choose from. -/
theorem Holds.length_le (h : r.Holds nodes) : nodes.length ≤ 255 := by
  have hcons : (0 :: nodes.map fun n => n.2.channelId).Nodup := by
    refine List.nodup_cons.mpr ⟨fun hmem => ?_, h.ids⟩
    obtain ⟨n, hn, hzero⟩ := List.mem_map.mp hmem
    exact h.nonzero n hn hzero
  have hfin := (hcons.map (f := UInt8.toFin) fun a b hab => UInt8.toFin_inj.mp hab).length_le_card
  simp only [List.length_map, List.length_cons, Fintype.card_fin, UInt8.size] at hfin
  omega

theorem Holds.total (h : r.Holds nodes) :
    r.getTotalAmountOfChannel = some (UInt8.ofNat nodes.length) := by
  rw [getTotalAmountOfChannel, h.isList.count, Option.map_some]

/-! ### Calls -/

/-- A definition sets an error, or puts a new channel in front of the others. -/
theorem defineChannel_cases (pack : OticPack) (channelType id : UInt8) (bufferSize : UInt32) :
    (∃ error, pack.defineChannel channelType id bufferSize = (false, pack.defineFailed error)) ∨
      ∃ parent, pack.defineChannel channelType id bufferSize =
        (true, ⟨parent, Channel.init id channelType (OticPack.effectiveSize bufferSize) ::
          pack.channels, pack.overran⟩) := by
  unfold OticPack.defineChannel
  split
  · exact Or.inl ⟨_, rfl⟩
  · split
    · exact Or.inl ⟨_, rfl⟩
    · split
      · exact Or.inl ⟨_, rfl⟩
      · exact Or.inr ⟨_, rfl⟩

/-- **A definition** is one on the list of the channels, with an allocation. -/
theorem Holds.defineChannel_eq (h : r.Holds nodes) (address : Nat) (channelType id : UInt8)
    (bufferSize : UInt32) :
    r.defineChannel address channelType id bufferSize =
      match (r.view nodes).defineChannel channelType id bufferSize with
      | (false, pack) => some (false, { r with parent := pack.parent })
      | (true, pack) =>
          let temp := Channel.init id channelType (OticPack.effectiveSize bufferSize)
          (r.heap.malloc address ⟨temp, r.channels⟩).map fun heap =>
            (true, ⟨pack.parent, heap, some address, r.overran⟩) := by
  have hstate : (r.view nodes).parent.state = r.parent.state := rfl
  unfold Registry.defineChannel OticPack.defineChannel
  rw [hstate]
  by_cases hopened : r.parent.state = .opened
  · rw [if_neg (not_not.mpr hopened), if_neg (not_not.mpr hopened)]
    by_cases hzero : id = 0
    · rw [if_pos hzero, if_pos hzero]
      rfl
    · rw [if_neg hzero, if_neg hzero]
      have hany : ((r.view nodes).channels.any fun current => current.channelId == id) =
          nodes.any fun n => n.2.channelId == id := List.any_map
      obtain ⟨found, hseek, hfound⟩ :=
        h.isList.seek fun _ (current : Channel) => current.channelId == id
      rw [hany, ← hfound, hseek]
      cases found with
      | some _ => rfl
      | none =>
        simp only [Option.bind_eq_bind, Option.bind_some, Option.isSome_none]
        cases r.heap.malloc address
          ⟨Channel.init id channelType (OticPack.effectiveSize bufferSize), r.channels⟩ <;> rfl
  · rw [if_pos hopened, if_pos hopened]
    rfl

theorem Holds.defineChannel_false (h : r.Holds nodes) {address : Nat} {channelType id : UInt8}
    {bufferSize : UInt32} {r' : Registry}
    (hdefine : r.defineChannel address channelType id bufferSize = some (false, r')) :
    (r.view nodes).defineChannel channelType id bufferSize = (false, r'.view nodes) ∧
      r'.Holds nodes ∧ r'.parent.state = .onError := by
  rw [h.defineChannel_eq] at hdefine
  rcases defineChannel_cases (r.view nodes) channelType id bufferSize with
    ⟨error, hcase⟩ | ⟨parent, hcase⟩
  · rw [hcase] at hdefine
    cases hdefine
    exact ⟨hcase, h.parent _, rfl⟩
  · rw [hcase] at hdefine
    obtain ⟨heap, -, hsame⟩ := Option.map_eq_some_iff.mp hdefine
    cases hsame

/-- The new channel is where the allocator put it. -/
theorem Holds.defineChannel_true (h : r.Holds nodes) {address : Nat} {channelType id : UInt8}
    {bufferSize : UInt32} {r' : Registry}
    (hdefine : r.defineChannel address channelType id bufferSize = some (true, r')) :
    let nodes' := (address, Channel.init id channelType (OticPack.effectiveSize bufferSize)) ::
      nodes
    (r.view nodes).defineChannel channelType id bufferSize = (true, r'.view nodes') ∧
      r'.Holds nodes' := by
  have hallowed := (@defineChannel_ok (r.view nodes) channelType id bufferSize).1
  rw [h.defineChannel_eq] at hdefine
  rcases defineChannel_cases (r.view nodes) channelType id bufferSize with
    ⟨error, hcase⟩ | ⟨parent, hcase⟩
  · rw [hcase] at hdefine
    cases hdefine
  · rw [hcase] at hdefine hallowed
    obtain ⟨heap, hmalloc, hsame⟩ := Option.map_eq_some_iff.mp hdefine
    cases hsame
    obtain ⟨-, hzero, hunused⟩ := hallowed.mp rfl
    rw [ids_view] at hunused
    refine ⟨hcase, h.owns.malloc hmalloc, List.nodup_cons.mpr ⟨hunused, h.ids⟩, fun n hn => ?_⟩
    rcases List.mem_cons.mp hn with rfl | hn
    · exact hzero
    · exact h.nonzero n hn

/-- With an address to put it at, a definition goes through. -/
theorem Holds.defineChannel (h : r.Holds nodes) {address : Nat}
    (hfree : address ∉ nodes.map Prod.fst) (channelType id : UInt8) (bufferSize : UInt32) :
    ∃ r', r.defineChannel address channelType id bufferSize =
      some (((r.view nodes).defineChannel channelType id bufferSize).1, r') := by
  rw [h.defineChannel_eq]
  rcases defineChannel_cases (r.view nodes) channelType id bufferSize with
    ⟨error, hcase⟩ | ⟨parent, hcase⟩
  · rw [hcase]
    exact ⟨_, rfl⟩
  · obtain ⟨heap', hmalloc⟩ := h.owns.can_malloc hfree
      (Channel.init id channelType (OticPack.effectiveSize bufferSize))
    simp only [hcase, hmalloc, Option.map_some]
    exact ⟨_, rfl⟩

/-- A call that leaves the id of the channel alone. -/
def KeepsId (f : Handle → Bool × Handle) : Prop :=
  ∀ h, (f h).2.channel.channelId = h.channel.channelId

theorem keepsId_of_shape {f : Handle → Bool × Handle}
    (hshape : ∀ h, (f h).2.channel.shape = h.channel.shape) : KeepsId f :=
  fun h => congrArg Shape.channelId (hshape h)

theorem keepsId_channelFlush : KeepsId (Handle.channelFlush zstd) :=
  keepsId_of_shape fun h => (Handle.kept_channelFlush h).1

theorem keepsId_finish : KeepsId fun h => (true, h.finish zstd) :=
  keepsId_of_shape fun h => (onwards_finish h).shape

theorem keepsId_inject (c : AnyCall) : KeepsId (c.inject zstd) := by
  refine keepsId_of_shape fun h => ?_
  have hcourse := @AnyCall.course zstd c h
  generalize c.inject zstd h = out at hcourse
  have hstamped := (@Handle.kept_stamped zstd h c.tick).1
  cases hcourse with
  | late => rfl
  | long _ hstamp =>
    subst hstamp
    exact hstamped
  | crowded _ hstamp _ hroom | unfit _ hstamp _ hroom =>
    subst hstamp
    exact (Handle.kept_makeRoom hroom).1.trans hstamped
  | written _ hstamp _ hroom _ =>
    subst hstamp
    refine Eq.trans ?_ ((Handle.kept_makeRoom hroom).1.trans hstamped)
    unfold AnyCall.settle
    split
    · exact (Handle.kept_flushIfFlushable _).1
    · rfl

/-- Addresses tell channels apart as ids do. -/
theorem Holds.same_iff (h : r.Holds nodes) {m n : Nat × Channel} (hm : m ∈ nodes) (hn : n ∈ nodes) :
    m.1 = n.1 ↔ m.2.channelId = n.2.channelId := by
  constructor
  · intro hsame
    rw [List.inj_on_of_nodup_map h.isList.nodup hm hn hsame]
  · intro hsame
    rw [List.inj_on_of_nodup_map h.ids hm hn hsame]

/-- Labels are all that matters about the channels of a list. -/
theorem Holds.of_labels (h : r.Holds nodes) {r' : Registry} {nodes' : List (Nat × Channel)}
    (hlist : Linked.IsList r'.heap r'.channels nodes')
    (hsome : ∀ p, (r'.heap.node p).isSome = (r.heap.node p).isSome)
    (hlabels : labels nodes' = labels nodes) : r'.Holds nodes' := by
  have haddresses : nodes'.map Prod.fst = nodes.map Prod.fst := by
    rw [← addresses_labels, hlabels, addresses_labels]
  have hids : (nodes'.map fun n => n.2.channelId) = nodes.map fun n => n.2.channelId := by
    rw [← ids_labels, hlabels, ids_labels]
  refine ⟨h.owns.of_addresses hlist hsome haddresses, ?_, fun n hn => ?_⟩
  · rw [hids]
    exact h.ids
  · have hmem : n.2.channelId ∈ nodes.map fun n => n.2.channelId :=
      hids ▸ List.mem_map_of_mem hn
    obtain ⟨m, hm, hid⟩ := List.mem_map.mp hmem
    exact hid ▸ h.nonzero m hm

/-- **A call on an open channel** does what it does on the list of the channels. -/
theorem Holds.onChannel (h : r.Holds nodes) {n : Nat × Channel} (hn : n ∈ nodes)
    {f : Handle → Bool × Handle} (hf : KeepsId f) :
    ∃ r', r.onChannel n.1 f = some ((f ⟨r.parent, n.2⟩).1, r') ∧
      let nodes' := nodes.map fun m =>
        if m.1 = n.1 then (m.1, (f ⟨r.parent, n.2⟩).2.channel) else m
      labels nodes' = labels nodes ∧ r'.Holds nodes' ∧
        r'.view nodes' = (r.view nodes).update (f ⟨r.parent, n.2⟩).2 := by
  obtain ⟨heap', hmodify, hlist, hsome⟩ :=
    h.isList.modify hn fun _ => (f ⟨r.parent, n.2⟩).2.channel
  have hid : (f ⟨r.parent, n.2⟩).2.channel.channelId = n.2.channelId := hf ⟨r.parent, n.2⟩
  have hlabels : labels (nodes.map fun m =>
      if m.1 = n.1 then (m.1, (f ⟨r.parent, n.2⟩).2.channel) else m) = labels nodes := by
    rw [labels, labels, List.map_map]
    refine List.map_congr_left fun m hm => ?_
    simp only [Function.comp_apply]
    split
    · rename_i hsame
      rw [hid, (h.same_iff hm hn).mp hsame]
    · rfl
  refine ⟨{ r with parent := (f ⟨r.parent, n.2⟩).2.parent, heap := heap' }, ?_, hlabels,
    h.of_labels hlist hsome hlabels, ?_⟩
  · simp only [Registry.onChannel, h.content hn, hmodify, Option.bind_eq_bind, Option.bind_some]
  · simp only [view, OticPack.update, OticPack.mk.injEq, List.map_map, true_and, and_true]
    refine List.map_congr_left fun m hm => ?_
    simp only [Function.comp_apply, hid, ← h.same_iff hm hn]
    split <;> rfl

/-- Erasing a channel by its id or by its address is the same. -/
theorem Holds.erase (h : r.Holds nodes) {n : Nat × Channel} (hn : n ∈ nodes) :
    (nodes.filter fun m => m.1 ≠ n.1).map Prod.snd =
      (nodes.map Prod.snd).eraseP fun current => current.channelId == n.2.channelId := by
  obtain ⟨front, back, rfl⟩ := List.append_of_mem hn
  obtain ⟨hother, hfilter⟩ := Linked.filter_ne_eq h.isList.nodup
  have hfront : ∀ ch ∈ front.map Prod.snd, ¬ (ch.channelId == n.2.channelId) = true := by
    intro ch hch
    obtain ⟨m, hm, rfl⟩ := List.mem_map.mp hch
    rw [beq_iff_eq, ← h.same_iff (List.mem_append_left _ hm) hn]
    exact hother m (List.mem_append_left _ hm)
  rw [hfilter, List.map_append, List.map_append, List.map_cons,
    List.eraseP_append_right _ hfront,
    List.eraseP_cons_of_pos (p := fun current : Channel => current.channelId == n.2.channelId)
      (beq_self_eq_true _)]

theorem filter_map_channel (nodes : List (Nat × Channel)) (p : Nat) (ch : Channel) :
    (nodes.map fun m => if m.1 = p then (m.1, ch) else m).filter (fun m => m.1 ≠ p) =
      nodes.filter fun m => m.1 ≠ p := by
  induction nodes with
  | nil => rfl
  | cons m nodes ih =>
    by_cases hm : m.1 = p
    · simpa [hm] using ih
    · simpa [hm] using ih

/-- **The end of a channel** is what it is on the list of the channels: only this channel
leaves the list. -/
theorem Holds.channelClose (h : r.Holds nodes) {n : Nat × Channel} (hn : n ∈ nodes) :
    ∃ r', r.channelClose zstd n.1 = some (true, r') ∧
      r'.Holds (nodes.filter fun m => m.1 ≠ n.1) ∧
      r'.view (nodes.filter fun m => m.1 ≠ n.1) = (r.view nodes).channelClose zstd n.2 := by
  obtain ⟨r₁, hcall, hlabels, hholds, hview⟩ := h.onChannel hn (@keepsId_finish zstd)
  have hmem : n.1 ∈ (labels nodes).map Prod.fst := by
    rw [addresses_labels]
    exact List.mem_map_of_mem hn
  rw [← hlabels, addresses_labels] at hmem
  obtain ⟨heap', head', hremove, howns⟩ :=
    @hholds.owns.remove _ _ _ _ (fun current _ => current == n.1) _ hmem fun m _ => beq_iff_eq
  rw [filter_map_channel] at howns
  have hcontent : r₁.heap.content n.1 = some (Handle.finish zstd ⟨r.parent, n.2⟩).channel := by
    have hin := List.mem_map_of_mem (f := fun m : Nat × Channel =>
      if m.1 = n.1 then (m.1, (Handle.finish zstd ⟨r.parent, n.2⟩).channel) else m) hn
    rw [if_pos rfl] at hin
    exact hholds.content hin
  simp only [view, OticPack.update, OticPack.mk.injEq] at hview
  obtain ⟨hparent, -, hoverran⟩ := hview
  refine ⟨⟨r₁.parent, heap', head',
      r₁.overran || (Handle.finish zstd ⟨r.parent, n.2⟩).channel.overrun⟩, ?_,
    ⟨howns, ?_, ?_⟩, ?_⟩
  · simp only [Registry.channelClose, hcall, hcontent, hremove, Option.bind_eq_bind,
      Option.bind_some]
  · exact h.ids.sublist (List.filter_sublist.map _)
  · exact fun m hm => h.nonzero m (List.mem_of_mem_filter hm)
  · simp only [view, OticPack.channelClose, h.erase hn, hparent, hoverran]

/-- What `otic_pack_close` does to the parent: each channel is finished once, in list
order. -/
def finishAll (zstd : Zstd) (parent : Parent) (nodes : List (Nat × Channel)) : Parent :=
  nodes.foldl (fun parent n => (Handle.finish zstd ⟨parent, n.2⟩).parent) parent

theorem Holds.closeLoop (h : r.Holds nodes) (fuel : Nat) (hfuel : nodes.length ≤ fuel) :
    ∃ r', r.closeLoop zstd fuel r.channels = some (true, r') ∧ r'.Holds [] ∧
      r'.parent = finishAll zstd r.parent nodes := by
  induction nodes generalizing r fuel with
  | nil =>
    have hend : r.channels = none := h.isList.chain
    refine ⟨r, ?_, h, rfl⟩
    rw [hend]
    cases fuel <;> rfl
  | cons n nodes ih =>
    obtain ⟨fuel, rfl⟩ : ∃ k, fuel = k + 1 := ⟨fuel - 1, by simp at hfuel; omega⟩
    obtain ⟨hhead, next, hnode, hrest⟩ := h.isList.chain
    obtain ⟨r', hclose, hholds, hview⟩ := @h.channelClose zstd _ _ _ List.mem_cons_self
    have hfilter : (n :: nodes).filter (fun m => m.1 ≠ n.1) = nodes :=
      (@Linked.filter_ne_eq _ [] _ _ _ h.isList.nodup).2
    rw [hfilter] at hholds hview
    -- the pointer read before the channel was freed is where the list starts now
    have hnext : next = r'.channels := hrest.head_eq.trans hholds.isList.chain.head_eq.symm
    obtain ⟨r'', hloop, hempty, hparent⟩ := ih hholds fuel (by simpa using hfuel)
    refine ⟨r'', ?_, hempty, ?_⟩
    · simp only [hhead, Registry.closeLoop, hnode, hclose, Option.bind_eq_bind, Option.bind_some,
        if_true, hnext, hloop]
    · have hfirst : r'.parent = (Handle.finish zstd ⟨r.parent, n.2⟩).parent :=
        congrArg OticPack.parent hview
      rw [hparent, hfirst]
      rfl

/-- **The end of a pack** closes each open channel once. -/
theorem Holds.close (h : r.Holds nodes) :
    ∃ r', r.close zstd = some (true, r') ∧ r'.Holds [] ∧
      r'.parent = { finishAll zstd r.parent nodes with state := .closed } := by
  obtain ⟨r', hloop, hempty, hparent⟩ := @h.closeLoop zstd _ _ (r.heap.mallocs + 1) (by
    have hbounded := h.isList.bounded
    omega)
  refine ⟨{ r' with parent := { r'.parent with state := .closed } }, ?_, hempty.parent _,
    by rw [hparent]⟩
  simp only [Registry.close, hloop, Option.bind_eq_bind, Option.bind_some, if_true]

/-! ### Closing by id -/

section CloseChannel

variable {heap : Linked.Heap Channel} {previous channels : Option Nat} {id : UInt8}

/-- Without a channel of this id the list is walked to its end. -/
theorem closeChannelLoop_absent (h : Linked.Chain heap previous nodes)
    (habsent : ∀ n ∈ nodes, n.2.channelId ≠ id) (fuel : Nat) (hfuel : nodes.length ≤ fuel) :
    closeChannelLoop id fuel previous heap channels = some (heap, channels) := by
  induction nodes generalizing previous fuel with
  | nil =>
    obtain rfl : previous = none := h
    cases fuel <;> rfl
  | cons n nodes ih =>
    obtain ⟨rfl, next, hnode, hrest⟩ := h
    obtain ⟨fuel, rfl⟩ : ∃ k, fuel = k + 1 := ⟨fuel - 1, by simp at hfuel; omega⟩
    have hn := habsent n List.mem_cons_self
    have hnext := ih hrest (fun m hm => habsent m (List.mem_cons_of_mem _ hm)) fuel
      (by simpa using hfuel)
    simp only [closeChannelLoop, hnode, hn, if_false, Option.bind_eq_bind, Option.bind_some, hnext]

/-- At a channel of this id the walk frees the channel it stands on, and cannot go on. -/
theorem closeChannelLoop_open (h : Linked.Chain heap previous nodes)
    (hopen : ∃ n ∈ nodes, n.2.channelId = id) (fuel : Nat) :
    closeChannelLoop id fuel previous heap channels = none := by
  induction nodes generalizing previous fuel with
  | nil => simp at hopen
  | cons n nodes ih =>
    obtain ⟨rfl, next, hnode, hrest⟩ := h
    cases fuel with
    | zero => rfl
    | succ fuel =>
      by_cases hn : n.2.channelId = id
      · simp only [closeChannelLoop, hnode, hn, if_true, Option.bind_eq_bind, Option.bind_some]
        cases hunlink : heap.unlink channels (some n.1) n.1 with
        | none => rfl
        | some out =>
          cases hfree : out.1.free n.1 with
          | none => simp only [Option.bind_some, hfree, Option.bind_none]
          | some heap' =>
            have hgone := Linked.Heap.free_node hfree
            simp only [Option.bind_some, hfree, hgone, Option.bind_none]
      · have hlater : ∃ m ∈ nodes, m.2.channelId = id := by
          obtain ⟨m, hm, hid⟩ := hopen
          rcases List.mem_cons.mp hm with rfl | hm
          · exact absurd hid hn
          · exact ⟨m, hm, hid⟩
        simp only [closeChannelLoop, hnode, hn, if_false, Option.bind_eq_bind, Option.bind_some,
          ih hrest hlater fuel]

end CloseChannel

theorem Holds.closeChannel_absent (h : r.Holds nodes) {id : UInt8}
    (habsent : ∀ n ∈ nodes, n.2.channelId ≠ id) :
    r.closeChannel id = some (false, r.failed .invalidArgument) := by
  have hbounded := h.isList.bounded
  simp only [closeChannel, closeChannelLoop_absent h.isList.chain habsent (r.heap.mallocs + 1)
    (by omega), Option.bind_eq_bind, Option.bind_some]

theorem Holds.closeChannel_open (h : r.Holds nodes) {id : UInt8}
    (hopen : ∃ n ∈ nodes, n.2.channelId = id) : r.closeChannel id = none := by
  simp only [closeChannel, closeChannelLoop_open h.isList.chain hopen, Option.bind_eq_bind,
    Option.bind_none]

/-! ### Runs -/

theorem filter_labels (nodes : List (Nat × Channel)) (address : Nat) :
    labels (nodes.filter fun m => m.1 ≠ address) =
      (labels nodes).filter fun channel => channel.1 ≠ address := by
  rw [labels, labels, List.filter_map]
  rfl

/-- **Which channels are open** after a call. -/
theorem Holds.step (h : r.Holds nodes) {s : Step} {ok : Bool} {r' : Registry}
    (hstep : r.step zstd s = some (ok, r')) :
    ∃ nodes', r'.Holds nodes' ∧ labels nodes' = openAfter (labels nodes) (s.op, ok) := by
  obtain ⟨op, answers⟩ := s
  have hheard : (r.hear answers).Holds nodes := h.parent _
  have hcall : ∀ address f, KeepsId f → (r.hear answers).onChannel address f = some (ok, r') →
      ∃ nodes', r'.Holds nodes' ∧ labels nodes' = labels nodes := by
    intro address f hf hcall
    obtain ⟨channel, hcontent, -⟩ := Option.bind_eq_some_iff.mp hcall
    obtain ⟨r₁, hsame, hlabels, hholds, -⟩ := hheard.onChannel (hheard.owns.mem hcontent) hf
    rw [hcall, Option.some.injEq, Prod.mk.injEq] at hsame
    exact ⟨_, hsame.2 ▸ hholds, hlabels⟩
  cases op with
  | define address channelType id bufferSize =>
    cases ok with
    | false => exact ⟨nodes, (hheard.defineChannel_false hstep).2.1, rfl⟩
    | true => exact ⟨_, (hheard.defineChannel_true hstep).2, rfl⟩
  | inject address call => exact hcall address _ (keepsId_inject call) hstep
  | flush address => exact hcall address _ keepsId_channelFlush hstep
  | close address =>
    obtain ⟨out, hfinish, -⟩ := Option.bind_eq_some_iff.mp hstep
    obtain ⟨channel, hcontent, -⟩ := Option.bind_eq_some_iff.mp hfinish
    obtain ⟨r₁, hsame, hholds, -⟩ := @hheard.channelClose zstd _ _ _ (hheard.owns.mem hcontent)
    have hstep' : (r.hear answers).channelClose zstd address = some (ok, r') := hstep
    rw [hstep', Option.some.injEq, Prod.mk.injEq] at hsame
    exact ⟨_, hsame.2 ▸ hholds, filter_labels nodes address⟩
  | closeChannel id =>
    by_cases hopen : ∃ n ∈ nodes, n.2.channelId = id
    · have hnone := hheard.closeChannel_open hopen
      exact absurd (hnone.symm.trans hstep) (by simp)
    · have hsame := hheard.closeChannel_absent fun n hn hid => hopen ⟨n, hn, hid⟩
      have hstep' : (r.hear answers).closeChannel id = some (ok, r') := hstep
      rw [hstep', Option.some.injEq, Prod.mk.injEq] at hsame
      exact ⟨nodes, hsame.2 ▸ hheard.parent _, rfl⟩
  | clearErrorFlag =>
    cases hstep
    exact ⟨nodes, hheard.parent _, rfl⟩

/-- **Which channels are open** after any number of calls. -/
theorem Holds.run (h : r.Holds nodes) {steps : List Step} {oks : List Bool} {r' : Registry}
    (hrun : r.run zstd steps = some (oks, r')) :
    ∃ nodes', r'.Holds nodes' ∧
      labels nodes' = ((steps.map Step.op).zip oks).foldl openAfter (labels nodes) := by
  induction steps generalizing r nodes oks with
  | nil =>
    cases hrun
    exact ⟨nodes, h, rfl⟩
  | cons s steps ih =>
    obtain ⟨⟨ok, r₁⟩, hstep, hrest⟩ := Option.bind_eq_some_iff.mp hrun
    obtain ⟨⟨oks', r₂⟩, hrun', hsame⟩ := Option.bind_eq_some_iff.mp hrest
    cases hsame
    obtain ⟨nodes₁, hholds, hlabels⟩ := h.step hstep
    obtain ⟨nodes', hholds', hlabels'⟩ := ih hholds hrun'
    exact ⟨nodes', hholds', by rw [hlabels', hlabels]; rfl⟩

/-- The list of a pack is right, and every call on it does what it should: a definition
goes through for an unused id, a channel that is closed leaves the list, and
`otic_pack_close` closes all of them. -/
structure Correct (zstd : Zstd) (r : Registry) (nodes : List (Nat × Channel)) : Prop where
  holds : r.Holds nodes
  total : ∃ total, r.getTotalAmountOfChannel = some total ∧ total.toNat = nodes.length
  define : ∀ answers address channelType id bufferSize, address ∉ nodes.map Prod.fst →
    ∃ ok r', (r.hear answers).defineChannel address channelType id bufferSize = some (ok, r') ∧
      (ok = true ↔ r.parent.state = .opened ∧ id ≠ 0 ∧ ∀ n ∈ nodes, n.2.channelId ≠ id) ∧
      (ok = true → r'.Holds ((address,
        Channel.init id channelType (OticPack.effectiveSize bufferSize)) :: nodes)) ∧
      (ok = false → r'.Holds nodes ∧ r'.parent.state = .onError)
  channelClose : ∀ answers, ∀ n ∈ nodes, ∃ r',
    (r.hear answers).channelClose zstd n.1 = some (true, r') ∧
      r'.Holds (nodes.filter fun m => m.1 ≠ n.1) ∧
      r'.parent = (Handle.finish zstd ⟨(r.hear answers).parent, n.2⟩).parent
  close : ∀ answers, ∃ r', (r.hear answers).close zstd = some (true, r') ∧ r'.Holds [] ∧
    r'.parent = { finishAll zstd (r.hear answers).parent nodes with state := .closed }

theorem Holds.correct (h : r.Holds nodes) : r.Correct zstd nodes where
  holds := h
  total := by
    refine ⟨_, h.total, ?_⟩
    have hlength := h.length_le
    rw [UInt8.toNat_ofNat', Nat.mod_eq_of_lt (by omega)]
  define := by
    intro answers address channelType id bufferSize hfree
    have hheard : (r.hear answers).Holds nodes := h.parent _
    obtain ⟨r', hdefine⟩ := hheard.defineChannel hfree channelType id bufferSize
    have hallowed := (@defineChannel_ok ((r.hear answers).view nodes) channelType id bufferSize).1
    rw [ids_view] at hallowed
    refine ⟨_, r', hdefine, hallowed.trans ?_, fun hok => ?_, fun hok => ?_⟩
    · simp [view, hear]
    · rw [hok] at hdefine
      exact (hheard.defineChannel_true hdefine).2
    · rw [hok] at hdefine
      exact (hheard.defineChannel_false hdefine).2
  channelClose := by
    intro answers n hn
    have hheard : (r.hear answers).Holds nodes := h.parent _
    obtain ⟨r', hclose, hholds, hview⟩ := @hheard.channelClose zstd _ _ _ hn
    exact ⟨r', hclose, hholds, congrArg OticPack.parent hview⟩
  close := by
    intro answers
    have hheard : (r.hear answers).Holds nodes := h.parent _
    exact hheard.close

/-- **The channels of a pack** are those that were defined and are not yet closed, the
newest first, whatever was called. -/
theorem correct_run {features : UInt8} {opening : List Bool} {steps : List Step} {oks : List Bool}
    (hrun : (init features opening).run zstd steps = some (oks, r)) :
    ∃ nodes, labels nodes = opened ((steps.map Step.op).zip oks) ∧ r.Correct zstd nodes := by
  obtain ⟨nodes, hholds, hlabels⟩ := (holds_init features opening).run hrun
  exact ⟨nodes, hlabels, hholds.correct⟩

/-- **Closing by id** closes a channel that is open, and says so if none is. -/
structure ClosesById (zstd : Zstd) (r : Registry) (nodes : List (Nat × Channel)) (id : UInt8) :
    Prop where
  found : ∀ n ∈ nodes, n.2.channelId = id → ∃ r', r.closeChannel id = some (true, r') ∧
    r'.Holds (nodes.filter fun m => m.1 ≠ n.1) ∧
    r'.parent.handed = (Handle.finish zstd ⟨r.parent, n.2⟩).parent.handed ∧
    r'.parent.accepted = (Handle.finish zstd ⟨r.parent, n.2⟩).parent.accepted ∧
    r'.parent.state = r.parent.state
  absent : (∀ n ∈ nodes, n.2.channelId ≠ id) → ∃ r', r.closeChannel id = some (false, r') ∧
    r'.Holds nodes ∧ r'.parent.state = .onError ∧ r'.parent.error = .invalidArgument

theorem Holds.closesById (h : r.Holds nodes) (id : UInt8) :
    r.ClosesById zstd nodes id ↔ ∀ n ∈ nodes, n.2.channelId ≠ id := by
  constructor
  · intro hcloses n hn hid
    obtain ⟨r', hclosed, -⟩ := hcloses.found n hn hid
    rw [h.closeChannel_open ⟨n, hn, hid⟩] at hclosed
    cases hclosed
  · intro habsent
    exact ⟨fun n hn hid => absurd hid (habsent n hn), fun _ =>
      ⟨_, h.closeChannel_absent habsent, h.parent _, rfl, rfl⟩⟩

/-- **Closing by id** works exactly if no open channel has the id. -/
theorem closesById_iff {features : UInt8} {opening : List Bool} {steps : List Step}
    {oks : List Bool} (hrun : (init features opening).run zstd steps = some (oks, r)) :
    ∃ nodes, labels nodes = opened ((steps.map Step.op).zip oks) ∧ r.Holds nodes ∧
      ∀ answers id, (r.hear answers).ClosesById zstd nodes id ↔
        ∀ n ∈ nodes, n.2.channelId ≠ id := by
  obtain ⟨nodes, hholds, hlabels⟩ := (holds_init features opening).run hrun
  exact ⟨nodes, hlabels, hholds, fun answers id => Holds.closesById (hholds.parent _) id⟩

/-- Two channels are defined, a third definition is refused, and the first is closed. -/
def definitions : List Step :=
  [⟨.define 0 OTIC_CHANNEL_TYPE_SENSOR 1 0, []⟩, ⟨.define 1 OTIC_CHANNEL_TYPE_SENSOR 2 512, []⟩,
    ⟨.define 2 OTIC_CHANNEL_TYPE_SENSOR 2 0, []⟩, ⟨.clearErrorFlag, []⟩, ⟨.close 0, []⟩]

theorem correct_run_definitions :
    ∃ r, (init 0 []).run Zstd.stored definitions = some ([true, true, false, true, true], r) ∧
      ∃ nodes, labels nodes = [(1, 2)] ∧ r.Correct Zstd.stored nodes :=
  ⟨_, rfl, @correct_run Zstd.stored _ 0 [] definitions _ rfl⟩

theorem closesById_iff_definitions :
    ∃ r, (init 0 []).run Zstd.stored definitions = some ([true, true, false, true, true], r) ∧
      ∃ nodes, labels nodes = [(1, 2)] ∧ r.Holds nodes ∧
        ∀ answers id, (r.hear answers).ClosesById Zstd.stored nodes id ↔
          ∀ n ∈ nodes, n.2.channelId ≠ id :=
  ⟨_, rfl, @closesById_iff Zstd.stored _ 0 [] definitions _ rfl⟩

/-- A channel is defined and closed by its id. -/
theorem not_closesById_one :
    ∃ r nodes, (init 0 []).run Zstd.stored [⟨.define 0 OTIC_CHANNEL_TYPE_SENSOR 1 0, []⟩] =
        some ([true], r) ∧
      labels nodes = [(0, 1)] ∧ r.Holds nodes ∧ ¬ r.ClosesById Zstd.stored nodes 1 := by
  obtain ⟨r, hrun⟩ : ∃ r, (init 0 []).run Zstd.stored
      [⟨.define 0 OTIC_CHANNEL_TYPE_SENSOR 1 0, []⟩] = some ([true], r) := ⟨_, rfl⟩
  obtain ⟨nodes, hholds, hlabels⟩ := (holds_init 0 []).run hrun
  refine ⟨r, nodes, hrun, hlabels, hholds, fun hcloses => ?_⟩
  have hmem : ((0 : Nat), (1 : UInt8)) ∈ labels nodes := hlabels ▸ List.mem_singleton.mpr rfl
  obtain ⟨n, hn, hlabel⟩ := List.mem_map.mp hmem
  exact hholds.closesById 1 |>.mp hcloses n hn (congrArg Prod.snd hlabel)

end Registry

end Otic.Pack
