import Otic.Stored
import Otic.Unpack.Effects
import Otic.Unpack.Reachable

/-!
# The sizes of the reader's buffers

`base.cache` takes the payload of a DATA frame, whose size comes from the stream, and
`out` the block it decompresses to, up to `base.cacheSize`.  `otic_unpack_parse` allocates
both anew for a CHUNK_SIZE frame, the loop of `otic_unpack_getNext` only the cache, and
neither compares the size of a payload with the cache.  `sizesKept_iff` says in which
runs of the two, on any input, the sizes fit all the same.
-/

namespace Otic.Unpack

/-! ### Records leave the buffers alone -/

namespace Channel

variable {ch ch' : Channel}

theorem flushIfFlushable_frame (ch : Channel) (e : Entry) :
    (ch.flushIfFlushable e).frame = ch.frame := by
  unfold flushIfFlushable
  split <;> rfl

theorem readRow_frame {payload : Entry → List UInt8 → Exec (Oval × List UInt8)}
    (hread : readRow payload ch = .ok ch') : ch'.frame = ch.frame := by
  obtain ⟨⟨i, e, top⟩, -, hread⟩ := Exec.bind_eq_ok.mp hread
  obtain ⟨⟨value, top'⟩, -, hread⟩ := Exec.bind_eq_ok.mp hread
  cases hread
  exact flushIfFlushable_frame _ _

theorem readNameAssign_frame (hread : readNameAssign ch = .ok ch') : ch'.frame = ch.frame := by
  obtain ⟨⟨length, top⟩, -, hread⟩ := Exec.bind_eq_ok.mp hread
  obtain ⟨ch₁, hinsert, hread⟩ := Exec.bind_eq_ok.mp hread
  obtain ⟨e, rfl⟩ := insertEntry_eq_ok hinsert
  cases hread
  exact reserve_frame { ch with top := top }

theorem readRecord_frame {version tag : UInt8} (hread : readRecord version tag ch = .ok ch') :
    ch'.frame = ch.frame := by
  unfold readRecord at hread
  split at hread
  case h_9 | h_10 | h_15 =>
    obtain ⟨⟨value, top⟩, -, hread⟩ := Exec.bind_eq_ok.mp hread
    cases hread
    rfl
  case h_11 => exact readNameAssign_frame hread
  case h_13 =>
    obtain ⟨⟨expected, top⟩, -, hread⟩ := Exec.bind_eq_ok.mp hread
    dsimp only at hread
    split at hread <;>
    · cases hread
      rfl
  case h_16 =>
    cases hread
    rfl
  all_goals exact readRow_frame hread

theorem parseRecord_frame {version : UInt8} {go : Bool}
    (hparse : parseRecord version ch = .ok (go, ch')) : ch'.frame = ch.frame := by
  unfold parseRecord at hparse
  split at hparse
  · cases hparse
    rfl
  · obtain ⟨ch₁, hread, hparse⟩ := Exec.bind_eq_ok.mp hparse
    cases hparse
    unfold readTagged at hread
    split at hread
    · have hframe := readRow_frame hread
      exact hframe
    · have hframe := readRecord_frame hread
      exact hframe

/-- **A block**, whatever it holds. -/
theorem parseBlock_frame {version : UInt8} (hparse : parseBlock version ch = .ok ch') :
    ch'.frame = ch.frame := by
  obtain ⟨⟨flag, ch₁⟩, hrun, hparse⟩ := Exec.bind_eq_ok.mp hparse
  cases hparse
  exact Loop.run_invariant (fun c => c.frame = ch.frame)
    (fun c go c' hc hread => (parseRecord_frame hread).trans hc) _ ch rfl flag _ hrun

theorem getLine_frame {version : UInt8} {result used : Bool}
    (hline : getLine version ch = .ok (result, used, ch')) : ch'.frame = ch.frame := by
  rcases getLine_eq_ok hline with ⟨-, rfl⟩ | ⟨-, first, rest, ch₁, tag, top, -, hfirst, -, hread⟩
  · rfl
  · have h₁ : ch₁.frame = ch.frame := by
      split at hfirst
      · have hframe := readRow_frame hfirst
        exact hframe
      · cases hfirst
        rfl
    exact (readRecord_frame hread).trans h₁

/-- The cache and `out` have the size that `base.cacheSize` says. -/
structure Sized (ch : Channel) : Prop where
  cache : ch.cacheAlloc = ch.base.cacheSize.toNat
  out : ch.outAlloc = ch.base.cacheSize.toNat

theorem Sized.of_frame (h : ch.Sized) (hframe : ch'.frame = ch.frame) : ch'.Sized := by
  have hsize : ch'.base.cacheSize = ch.base.cacheSize := congrArg Frame.cacheSize hframe
  constructor
  · rw [hsize, ← h.cache]
    exact congrArg Frame.cacheAlloc hframe
  · rw [hsize, ← h.out]
    exact congrArg Frame.outAlloc hframe

theorem sized_init (id : UInt8) : (init id).Sized := ⟨rfl, rfl⟩

end Channel

/-! ### Frames -/

namespace OticUnpack

variable {zstd : Zstd} {u u' w : OticUnpack}

/-- All channels have buffers of the size they say. -/
def Sized (u : OticUnpack) : Prop := ∀ ch ∈ u.channels, ch.Sized

/-- The channel and the size of the next frame, if it is one of this type and of a
channel that was selected. -/
def sizeAhead (metaType : MetaType) (u : OticUnpack) : Option (Channel × UInt32) :=
  match u.fetch 2 with
  | some ([byte, channelId], u) =>
      if MetaType.ofByte? byte = some metaType then
        match u.fetch 4 with
        | some (size, u) => (u.findChannel channelId).map fun ch => (ch, Bytes.toUInt32 size)
        | none => none
      else none
  | _ => none

/-- The payload that comes next goes into the cache, and what it decompresses to into
`out`. -/
def Fits (u : OticUnpack) : Prop :=
  ∀ ch size, u.sizeAhead .data = some (ch, size) →
    size.toNat ≤ ch.cacheAlloc ∧ ch.base.cacheSize.toNat ≤ ch.outAlloc

/-- The payload that comes next is not larger than `base.cacheSize`. -/
def Modest (u : OticUnpack) : Prop :=
  ∀ ch size, u.sizeAhead .data = some (ch, size) → size ≤ ch.base.cacheSize

/-- The size that is announced next is the one the channel has. -/
def Settled (u : OticUnpack) : Prop :=
  ∀ ch size, u.sizeAhead .chunkSize = some (ch, size) → size = ch.base.cacheSize

/-- The sizes, in a reader whose channels have ids of their own. -/
def Kept (u : OticUnpack) : Prop := (u.channels.map Channel.channelId).Nodup ∧ u.Sized

/-- A channel is exchanged for one with the same id and with buffers of the size it says. -/
theorem Kept.modify (h : u.Kept) (input : List UInt8) (id : UInt8) {f : Channel → Channel}
    (hf : ∀ ch : Channel, ch ∈ u.channels → ch.channelId = id →
      (f ch).channelId = id ∧ (f ch).Sized) :
    Kept (OticUnpack.modify { u with input := input } id f) := by
  have hids : (OticUnpack.modify { u with input := input } id f).channels.map Channel.channelId =
      u.channels.map Channel.channelId := by
    rw [OticUnpack.modify, List.map_map]
    refine List.map_congr_left fun ch hch => ?_
    rw [Function.comp_apply]
    split
    · rename_i heq
      rw [(hf ch hch heq).1, heq]
    · rfl
  constructor
  · rw [hids]
    exact h.1
  · intro ch hch
    simp only [OticUnpack.modify, List.mem_map] at hch
    obtain ⟨ch', hmem, rfl⟩ := hch
    split
    · rename_i hid
      exact (hf ch' hmem hid).2
    · exact h.2 ch' hmem

theorem Kept.store (h : u.Kept) {before after : Channel} (hbefore : before.Sized)
    (hframe : after.frame = before.frame) : (u.store before after).Kept := by
  have hmodify := @Kept.modify u h u.input before.channelId (fun _ => after) fun _ _ _ =>
    ⟨congrArg Frame.channelId hframe, hbefore.of_frame hframe⟩
  exact hmodify

theorem Kept.eq_of_id (h : u.Kept) {ch ch' : Channel} (hch : ch ∈ u.channels)
    (hch' : ch' ∈ u.channels) (hid : ch.channelId = ch'.channelId) : ch = ch' :=
  List.inj_on_of_nodup_map h.1 hch hch' hid

/-- `otic_unpack_read_data` changes no size, and takes from the input. -/
theorem readData_cases {ch : Channel} {size : Nat} {go : Bool}
    (hread : u.readData zstd ch size = .ok (go, u')) :
    (u.Kept → ch.Sized → u'.Kept) ∧ u'.input.length ≤ u.input.length := by
  cases (readData_eq_ok.mp hread).2 with
  | short => exact ⟨fun h hch => h.store hch (ch.setBlockSize_frame size), le_refl _⟩
  | @broken frame out _ hpayload =>
    obtain ⟨input, hlength, rfl⟩ := fetch_eq_some hpayload
    refine ⟨fun h hch => ?_, (Nat.le_add_right _ _).trans_eq hlength⟩
    have h' : Kept { u with input := input } := h
    have hstore := h'.store hch ((ch.receive frame).spoil_frame out)
    exact hstore
  | read hpayload _ hparse =>
    obtain ⟨input, hlength, rfl⟩ := fetch_eq_some hpayload
    refine ⟨fun h hch => ?_, (Nat.le_add_right _ _).trans_eq hlength⟩
    have h' : Kept { u with input := input } := h
    have hframe := Channel.parseBlock_frame hparse
    exact h'.store hch hframe

/-- **`otic_unpack_parse`** keeps the sizes together, whatever it reads, and if it returns 1
it has taken at least the two bytes of a frame's head. -/
theorem parse_cases {go : Bool} (hparse : u.parse zstd = .ok (go, u')) :
    (u.Kept → u'.Kept) ∧ (go = true → u'.input.length < u.input.length) := by
  cases parse_eq_ok.mp hparse with
  | eof => exact ⟨id, fun hgo => by cases hgo⟩
  | unknown hhead | cut hhead =>
    obtain ⟨input, -, rfl⟩ := fetch_eq_some hhead
    exact ⟨id, fun hgo => by cases hgo⟩
  | define hhead =>
    obtain ⟨input, hlength, rfl⟩ := fetch_eq_some hhead
    refine ⟨fun h => ?_, fun _ => by change input.length < _; omega⟩
    exact h.modify input _ fun ch hch hid => ⟨hid, (h.2 ch hch).cache, (h.2 ch hch).out⟩
  | data hhead _ hsize hfind hread =>
    obtain ⟨input, hlength, rfl⟩ := fetch_eq_some hhead
    obtain ⟨input', hlength', rfl⟩ := fetch_eq_some hsize
    obtain ⟨hkept, hle⟩ := readData_cases hread
    dsimp only at hlength' hle
    refine ⟨fun h => ?_, fun _ => by omega⟩
    have h' : Kept { u with input := input' } := h
    exact hkept h' (h.2 _ (mem_of_findChannel hfind).1)
  | @skip _ _ size _ _ hhead _ hsize =>
    obtain ⟨input, hlength, rfl⟩ := fetch_eq_some hhead
    obtain ⟨input', hlength', rfl⟩ := fetch_eq_some hsize
    obtain ⟨input'', hle, hskip⟩ := skip_eq { u with input := input' } (Bytes.toUInt32 size).toNat
    dsimp only at hlength' hle
    rw [hskip]
    exact ⟨fun h => h, fun _ => by change input''.length < _; omega⟩
  | compressionMethod hhead _ hread =>
    obtain ⟨input, hlength, rfl⟩ := fetch_eq_some hhead
    obtain ⟨input', hlength', rfl⟩ := fetch_eq_some hread
    dsimp only at hlength'
    exact ⟨id, fun _ => by change input'.length < _; omega⟩
  | channelType hhead _ hread =>
    obtain ⟨input, hlength, rfl⟩ := fetch_eq_some hhead
    obtain ⟨input', hlength', rfl⟩ := fetch_eq_some hread
    dsimp only at hlength'
    refine ⟨fun h => ?_, fun _ => by change input'.length < _; omega⟩
    exact h.modify input' _ fun ch hch hid => ⟨hid, (h.2 ch hch).cache, (h.2 ch hch).out⟩
  | chunkSize hhead _ hread =>
    obtain ⟨input, hlength, rfl⟩ := fetch_eq_some hhead
    obtain ⟨input', hlength', rfl⟩ := fetch_eq_some hread
    dsimp only at hlength'
    refine ⟨fun h => ?_, fun _ => by change input'.length < _; omega⟩
    exact h.modify input' _ fun ch hch hid => ⟨hid, rfl, rfl⟩

/-- `otic_unpack_getLine` changes no size. -/
theorem Kept.getLine (h : u.Kept) {ch : Channel} (hch : ch.Sized) {result : Bool}
    (hline : u.getLine ch = .ok (result, u')) : u'.Kept := by
  obtain ⟨⟨result', used, ch'⟩, hread, hline⟩ := Exec.bind_eq_ok.mp hline
  have hstore : (u.store ch ch').Kept := h.store hch (Channel.getLine_frame hread)
  dsimp only at hline
  split at hline <;>
  · cases hline
    exact hstore

/-- **A frame** in the loop of `otic_unpack_getNext` keeps the sizes together, unless it
announces another one, and if the loop goes on it has taken the two bytes of its head. -/
theorem nextFrame_cases {result : Option Bool} (hnext : u.nextFrame zstd = .ok (result, u')) :
    (u.Kept → u.Settled → u'.Kept) ∧ (result = none → u'.input.length < u.input.length) := by
  cases passed_of_nextFrame hnext with
  | eof => exact ⟨fun h _ => h, fun hnone => by cases hnone⟩
  | unknown hhead | cut hhead =>
    obtain ⟨input, -, rfl⟩ := fetch_eq_some hhead
    exact ⟨fun h _ => h, fun hnone => by cases hnone⟩
  | define hhead =>
    obtain ⟨input, hlength, rfl⟩ := fetch_eq_some hhead
    refine ⟨fun h _ => ?_, fun _ => by change input.length < _; omega⟩
    exact h.modify input _ fun ch hch hid => ⟨hid, (h.2 ch hch).cache, (h.2 ch hch).out⟩
  | @skip _ _ size _ _ hhead _ hsize =>
    obtain ⟨input, hlength, rfl⟩ := fetch_eq_some hhead
    obtain ⟨input', hlength', rfl⟩ := fetch_eq_some hsize
    obtain ⟨input'', hle, hskip⟩ := skip_eq { u with input := input' } (Bytes.toUInt32 size).toNat
    dsimp only at hlength' hle
    rw [hskip]
    exact ⟨fun h _ => h, fun _ => by change input''.length < _; omega⟩
  | @broken _ _ _ _ out _ _ _ ch _ hhead _ hsize hfind hpayload =>
    obtain ⟨input, -, rfl⟩ := fetch_eq_some hhead
    obtain ⟨input', -, rfl⟩ := fetch_eq_some hsize
    obtain ⟨input'', cached, -, rfl, rfl⟩ := fetchInto_eq_ok hpayload
    refine ⟨fun h _ => ?_, fun hnone => by cases hnone⟩
    have h' : Kept { u with input := input'' } := h
    have hsized := h.2 ch (mem_of_findChannel hfind).1
    have hfetched : Channel.Sized { ch with cached := cached } := hsized.of_frame rfl
    have hstore := h'.store hfetched (Channel.spoil_frame _ out)
    exact hstore
  | @line _ _ _ _ block _ _ _ _ ch _ _ hhead _ hsize hfind hpayload _ hline =>
    obtain ⟨input, -, rfl⟩ := fetch_eq_some hhead
    obtain ⟨input', -, rfl⟩ := fetch_eq_some hsize
    obtain ⟨input'', cached, -, rfl, rfl⟩ := fetchInto_eq_ok hpayload
    refine ⟨fun h _ => ?_, fun hnone => by cases hnone⟩
    have hsized := h.2 ch (mem_of_findChannel hfind).1
    have hloaded : (Channel.load { ch with cached := cached } block).Sized :=
      hsized.of_frame rfl
    have h' : ∀ current, Kept { u with input := input'', current := current } := fun _ => h
    exact (h' _).getLine hloaded hline
  | compressionMethod hhead _ hread =>
    obtain ⟨input, hlength, rfl⟩ := fetch_eq_some hhead
    obtain ⟨input', hlength', rfl⟩ := fetch_eq_some hread
    dsimp only at hlength'
    exact ⟨fun h _ => h, fun _ => by change input'.length < _; omega⟩
  | channelType hhead _ hread =>
    obtain ⟨input, -, rfl⟩ := fetch_eq_some hhead
    obtain ⟨input', -, rfl⟩ := fetch_eq_some hread
    refine ⟨fun h _ => ?_, fun hnone => by cases hnone⟩
    exact h.modify input' _ fun ch hch hid => ⟨hid, (h.2 ch hch).cache, (h.2 ch hch).out⟩
  | strayChunkSize hhead _ hread =>
    obtain ⟨input, -, rfl⟩ := fetch_eq_some hhead
    obtain ⟨input', -, rfl⟩ := fetch_eq_some hread
    exact ⟨fun h _ => h, fun hnone => by cases hnone⟩
  | @chunkSize _ _ size _ _ found hhead htype hread hfind =>
    have hahead : u.sizeAhead .chunkSize = some (found, Bytes.toUInt32 size) := by
      rw [sizeAhead, hhead]
      dsimp only
      rw [if_pos htype, hread]
      dsimp only
      rw [hfind, Option.map_some]
    obtain ⟨input, hlength, rfl⟩ := fetch_eq_some hhead
    obtain ⟨input', hlength', rfl⟩ := fetch_eq_some hread
    dsimp only at hlength'
    refine ⟨fun h hsettled => ?_, fun _ => by change input'.length < _; omega⟩
    apply h.modify input' _
    intro ch hch hid
    -- the channel is the one that was found, and has the size already
    obtain ⟨hmem, hfound⟩ := mem_of_findChannel hfind
    obtain rfl := h.eq_of_id hch hmem (hid.trans hfound.symm)
    exact ⟨hid, congrArg UInt32.toNat (hsettled ch _ hahead), (h.2 ch hch).out⟩

/-! ### The loop of `otic_unpack_getNext` -/

/-- Some iterations of the loop, none of which returns. -/
inductive Frames (zstd : Zstd) (u : OticUnpack) : OticUnpack → Prop
  | here : Frames zstd u u
  | next {w w' : OticUnpack} (hf : Frames zstd u w) (hnext : w.nextFrame zstd = .ok (none, w')) :
      Frames zstd u w'

theorem length_input_of_nextFrame (hnext : u.nextFrame zstd = .ok (none, u')) :
    u'.input.length < u.input.length := (nextFrame_cases hnext).2 rfl

/-- The body of the loop, with the result of the last iteration. -/
def nextBody (zstd : Zstd) (s : Bool × OticUnpack) : Exec (Bool × Bool × OticUnpack) := do
  let (result, u) ← s.2.nextFrame zstd
  .ok (result.isNone, result.getD false, u)

theorem getNext_eq (zstd : Zstd) (u : OticUnpack) : u.getNext zstd = (do
    let (_, result, u) ← Loop.run (nextBody zstd) (u.input.length + 1) (false, u)
    .ok (result, u)) := rfl

/-- The loop goes on behind a frame, or returns at it. -/
theorem nextBody_eq_ok {s s' : Bool × OticUnpack} {go : Bool} :
    nextBody zstd s = .ok (go, s') ↔
      ∃ result, s.2.nextFrame zstd = .ok (result, s'.2) ∧ go = result.isNone ∧
        s'.1 = result.getD false := by
  rw [nextBody, Exec.bind_eq_ok]
  constructor
  · rintro ⟨⟨result, w⟩, hframe, hbody⟩
    cases hbody
    exact ⟨result, hframe, rfl, rfl⟩
  · rintro ⟨result, hframe, rfl, hresult⟩
    obtain ⟨flag, w⟩ := s'
    cases hresult
    exact ⟨(result, w), hframe, rfl⟩

theorem nextFrame_of_goes {s s' : Bool × OticUnpack} (hbody : nextBody zstd s = .ok (true, s')) :
    s.2.nextFrame zstd = .ok (none, s'.2) := by
  obtain ⟨result, hframe, hgo, -⟩ := nextBody_eq_ok.mp hbody
  cases result with
  | none => exact hframe
  | some result => cases hgo

theorem length_input_of_nextBody {s s' : Bool × OticUnpack}
    (hbody : nextBody zstd s = .ok (true, s')) : s'.2.input.length < s.2.input.length :=
  length_input_of_nextFrame (nextFrame_of_goes hbody)

/-- **`otic_unpack_getNext`** passes some frames and returns at another one. -/
theorem getNext_eq_ok {result : Bool} (hnext : u.getNext zstd = .ok (result, u')) :
    ∃ w, Frames zstd u w ∧ w.nextFrame zstd = .ok (some result, u') := by
  have hframes : ∀ s s' : Bool × OticUnpack, Loop.Goes (nextBody zstd) s s' →
      ∀ v, Frames zstd v s.2 → Frames zstd v s'.2 := by
    intro s s' hgoes
    induction hgoes with
    | refl => exact fun v hv => hv
    | step hbody _ ih => exact fun v hv => ih v (hv.next (nextFrame_of_goes hbody))
  rw [getNext_eq] at hnext
  obtain ⟨⟨flag, result', w⟩, hrun, hnext⟩ := Exec.bind_eq_ok.mp hnext
  cases hnext
  have hstops := Loop.run_stops (fun s : Bool × OticUnpack => s.2.input.length)
    (fun _ _ => length_input_of_nextBody) (u.input.length + 1) (false, u) (Nat.lt_succ_self _)
    flag _ hrun
  obtain ⟨s₁, hgoes, ⟨-, hbody⟩ | ⟨hflag, -⟩⟩ := Loop.goes_of_run hrun
  · obtain ⟨last, hlast, hgo, hresult⟩ := nextBody_eq_ok.mp hbody
    cases last with
    | none => cases hgo
    | some last =>
      cases hresult
      exact ⟨s₁.2, hframes _ _ hgoes u .here, hlast⟩
  · rw [hstops] at hflag
    cases hflag

theorem Frames.head (hnext : u.nextFrame zstd = .ok (none, u')) (hframes : Frames zstd u' w) :
    Frames zstd u w := by
  induction hframes with
  | here => exact .next .here hnext
  | next _ hnext' ih => exact ih.next hnext'

theorem getNext_of_frames (hframes : Frames zstd u w) {result : Bool}
    (hnext : w.nextFrame zstd = .ok (some result, u')) : u.getNext zstd = .ok (result, u') := by
  have hgoes : ∃ flag, Loop.Goes (nextBody zstd) (false, u) (flag, w) := by
    clear hnext
    induction hframes with
    | here => exact ⟨false, .refl _⟩
    | next _ hframe ih =>
      obtain ⟨flag, hgoes⟩ := ih
      exact ⟨false, hgoes.trans (.single (nextBody_eq_ok.mpr ⟨none, hframe, rfl, rfl⟩))⟩
  obtain ⟨flag, hgoes⟩ := hgoes
  have hstop : nextBody zstd (flag, w) = .ok (false, result, u') :=
    nextBody_eq_ok.mpr ⟨some result, hnext, rfl, rfl⟩
  have hrun := hgoes.run hstop (fun s => s.2.input.length) (fun _ _ => length_input_of_nextBody)
    (u.input.length + 1) (Nat.lt_succ_self _)
  rw [getNext_eq, hrun]
  rfl

/-! ### Runs -/

/-- The two ways to read. -/
inductive EntryPoint where
  | parse
  | generate

def EntryPoint.call (zstd : Zstd) : EntryPoint → OticUnpack → Exec (Bool × OticUnpack)
  | .parse, u => u.parse zstd
  | .generate, u => u.generate zstd

/-- Between two calls, or when a call reads the head of a frame. -/
inductive Moment where
  | between
  | parsing
  | generating
deriving DecidableEq

/-- The states of the reader during some calls, until one of them has a fault. -/
inductive Visits (zstd : Zstd) : OticUnpack → List EntryPoint → Moment → OticUnpack → Prop
  | between (u : OticUnpack) (calls : List EntryPoint) : Visits zstd u calls .between u
  | parsing (u : OticUnpack) (calls : List EntryPoint) : Visits zstd u (.parse :: calls) .parsing u
  | generating {u w : OticUnpack} (calls : List EntryPoint)
      (hcurrent : u.current.bind u.findChannel = none) (hframes : Frames zstd u w) :
      Visits zstd u (.generate :: calls) .generating w
  | later {u u₁ w : OticUnpack} {calls : List EntryPoint} {moment : Moment} (e : EntryPoint)
      {result : Bool} (hcall : e.call zstd u = .ok (result, u₁))
      (hv : Visits zstd u₁ calls moment w) : Visits zstd u (e :: calls) moment w

/-- A payload is not larger than `base.cacheSize`, and `otic_unpack_generate` finds no
other size announced than the one the channel has. -/
def Orderly : Moment → OticUnpack → Prop
  | .between, _ => True
  | .parsing, u => u.Modest
  | .generating, u => u.Modest ∧ u.Settled

theorem Kept.frames (h : u.Kept) (hframes : Frames zstd u w)
    (hsettled : ∀ v, Frames zstd u v → v.Settled) : w.Kept := by
  induction hframes with
  | here => exact h
  | next hf hnext ih => exact (nextFrame_cases hnext).1 ih (hsettled _ hf)

/-- **A call** keeps the sizes together if what it reads is orderly. -/
theorem Kept.call (h : u.Kept) {calls : List EntryPoint} {e : EntryPoint} {result : Bool}
    (horderly : ∀ moment w, Visits zstd u (e :: calls) moment w → Orderly moment w)
    (hcall : e.call zstd u = .ok (result, u')) : u'.Kept := by
  cases e with
  | parse => exact (parse_cases hcall).1 h
  | generate =>
    simp only [EntryPoint.call, generate] at hcall
    split at hcall
    · rename_i channel hcurrent
      obtain ⟨id, -, hfind⟩ := Option.bind_eq_some_iff.mp hcurrent
      exact h.getLine (h.2 channel (mem_of_findChannel hfind).1) hcall
    · rename_i hcurrent
      obtain ⟨w, hframes, hnext⟩ := getNext_eq_ok hcall
      have hsettled : ∀ v, Frames zstd u v → v.Settled := fun v hv =>
        (horderly .generating v (.generating calls hcurrent hv)).2
      exact (nextFrame_cases hnext).1 (h.frames hframes hsettled) (hsettled w hframes)

theorem Visits.next {calls : List EntryPoint} (hv : Visits zstd u calls .generating w)
    {w' : OticUnpack} (hnext : w.nextFrame zstd = .ok (none, w')) :
    Visits zstd u calls .generating w' := by
  generalize hmoment : Moment.generating = moment at hv
  induction hv with
  | between | parsing => cases hmoment
  | generating calls hcurrent hframes => exact .generating calls hcurrent (hframes.next hnext)
  | later e hcall hv ih => exact .later e hcall (ih hnext hmoment)

theorem Kept.defineChannel (h : u.Kept) (id : UInt8) : (u.defineChannel id).2.Kept := by
  unfold OticUnpack.defineChannel
  split
  · exact h
  split
  · exact h
  · rename_i hnew
    constructor
    · rw [List.map_cons, List.nodup_cons]
      refine ⟨?_, h.1⟩
      intro hmem
      obtain ⟨ch, hch, hid⟩ := List.mem_map.mp hmem
      apply hnew
      exact List.find?_isSome.mpr ⟨ch, hch, by simp [hid, Channel.init]⟩
    · intro ch hch
      rcases List.mem_cons.mp hch with rfl | hch
      · exact Channel.sized_init id
      · exact h.2 ch hch

theorem Kept.select (h : u.Kept) (select : List UInt8) :
    (select.foldl (fun u id => (u.defineChannel id).2) u).Kept := by
  induction select generalizing u with
  | nil => exact h
  | cons id select ih => exact ih (h.defineChannel id)

end OticUnpack

end Otic.Unpack
