import Otic.Format.Event
import Otic.Unpack.BlockCorrect
import Otic.Unpack.Unpack

/-!
# What a reader holds

`ReadsAs` relates a reader to the events it has read.  It has a parameter for what the
reader makes of the sizes announced, because `otic_unpack_parse` and
`otic_unpack_generate` differ in that.
-/

namespace Otic.Unpack

open OticUnpack

variable {u : OticUnpack} {select : List UInt8} {events : List Event} {rest : List UInt8}

/-! ### Fetching -/

theorem fetch_append {n : Nat} (bytes : List UInt8) (hinput : u.input = bytes ++ rest)
    (hlength : bytes.length = n) : u.fetch n = some (bytes, { u with input := rest }) := by
  subst hlength
  rw [fetch, if_pos (by simp [hinput])]
  simp [hinput]

theorem fetch_head {metaType channelId : UInt8} (hinput : u.input = metaType :: channelId :: rest) :
    u.fetch 2 = some ([metaType, channelId], { u with input := rest }) :=
  fetch_append [metaType, channelId] hinput rfl

theorem fetch_none {n : Nat} (hinput : u.input.length < n) : u.fetch n = none := by
  rw [fetch, if_neg (by omega)]

theorem length_of_fetch {w : OticUnpack} {n : Nat} {bytes : List UInt8}
    (h : u.fetch n = some (bytes, w)) : w.input.length + n = u.input.length := by
  unfold OticUnpack.fetch at h
  split at h
  · simp only [Option.some.injEq, Prod.mk.injEq] at h
    obtain ⟨-, rfl⟩ := h
    simp only [List.length_drop]
    omega
  · cases h

theorem length_skip_le (u : OticUnpack) (n : Nat) : (u.skip n).input.length ≤ u.input.length := by
  unfold skip
  split
  · simp
  · split
    · exact le_rfl
    · rename_i h
      have := length_of_fetch h
      omega

/-- The fetches at a data frame. -/
structure DataAhead (u : OticUnpack) (id : UInt8) (frame rest : List UInt8) : Prop where
  head : u.fetch 2 = some ([MetaType.data.toByte, id],
    { u with input := Bytes.ofUInt32 (UInt32.ofNat frame.length) ++ (frame ++ rest) })
  size : { u with input := Bytes.ofUInt32 (UInt32.ofNat frame.length) ++ (frame ++ rest) }.fetch 4 =
    some (Bytes.ofUInt32 (UInt32.ofNat frame.length), { u with input := frame ++ rest })
  count : (UInt32.ofNat frame.length).toNat = frame.length
  payload : { u with input := frame ++ rest }.fetch frame.length =
    some (frame, { u with input := rest })

theorem dataAhead {id : UInt8} {frame : List UInt8}
    (hinput : u.input = Event.dataHeader id frame.length ++ (frame ++ rest))
    (hshort : frame.length < UInt32.size) : DataAhead u id frame rest := by
  simp only [Event.dataHeader, List.cons_append] at hinput
  constructor
  · exact fetch_head hinput
  · exact fetch_append _ rfl (Bytes.length_ofUInt32 _)
  · exact UInt32.toNat_ofNat_of_lt' hshort
  · exact fetch_append frame rfl rfl

theorem DataAhead.skip {id : UInt8} {frame : List UInt8} (h : DataAhead u id frame rest) :
    { u with input := frame ++ rest }.skip frame.length = { u with input := rest } := by
  unfold OticUnpack.skip
  split
  · simp
  · rw [h.payload]

/-! ### Channels and readers -/

/-- The buffers have the size last announced. -/
def Channel.Allocated (size : Option UInt32) (ch : Channel) : Prop :=
  ∀ n, size = some n → ch.base.cacheSize = n ∧ ch.cacheAlloc = n.toNat ∧ ch.outAlloc = n.toNat

/-- What a reader makes of the size last announced. -/
abbrev Allocation := Option UInt32 → Channel → Prop

/-- A selected channel after some events. -/
def Channel.HoldsAs (alloc : Allocation) (events : List Event) (ch : Channel) : Prop :=
  (∃ fr top, ch.Stands fr (View.init.applyAll (recordsOf ch.channelId events)) top ∧
    fr.toFetch = []) ∧ alloc (sizeOf ch.channelId events) ch

abbrev Channel.Holds : List Event → Channel → Prop := Channel.HoldsAs Channel.Allocated

/-- A reader that selected some channels, after some events. -/
structure ReadsAs (alloc : Allocation) (select : List UInt8) (events : List Event)
    (rest : List UInt8) (u : OticUnpack) : Prop where
  input : u.input = rest
  state : u.state = .opened
  error : u.error = .none
  version : u.version = OTIC_VERSION_MAJOR
  current : u.current = none
  distinct : (u.channels.map Channel.channelId).Nodup
  ids : ∀ id, id ∈ u.channels.map Channel.channelId ↔ id ∈ select
  holds : ∀ ch ∈ u.channels, ch.HoldsAs alloc events
  calls : u.calls = (reading select events).calls

abbrev Reads : List UInt8 → List Event → List UInt8 → OticUnpack → Prop :=
  ReadsAs Channel.Allocated

variable {alloc : Allocation}

theorem ReadsAs.find (h : ReadsAs alloc select events rest u) {id : UInt8} (hid : id ∈ select) :
    ∃ ch : Channel, ch ∈ u.channels ∧ u.findChannel id = some ch ∧ ch.channelId = id := by
  obtain ⟨ch, hch, hsame⟩ := List.mem_map.mp ((h.ids id).mpr hid)
  have hsome : (u.channels.find? fun current => current.channelId == id).isSome :=
    List.find?_isSome.mpr ⟨ch, hch, by simp [hsame]⟩
  obtain ⟨found, hfound⟩ := Option.isSome_iff_exists.mp hsome
  exact ⟨found, List.mem_of_find?_eq_some hfound, hfound, by simpa using List.find?_some hfound⟩

theorem ReadsAs.find_none (h : ReadsAs alloc select events rest u) {id : UInt8}
    (hid : id ∉ select) :
    u.findChannel id = none := by
  refine List.find?_eq_none.mpr fun ch hch => ?_
  simp only [beq_iff_eq]
  intro hsame
  exact hid ((h.ids id).mp (hsame ▸ List.mem_map_of_mem hch))

/-- A change of one channel, and what it must do to go on to more events. -/
theorem ReadsAs.modify (h : ReadsAs alloc select events rest u) (rest' : List UInt8)
    (events' : List Event) {calls : List (UInt8 × Row)} (id : UInt8) (f : Channel → Channel)
    (hid : ∀ ch : Channel, ch.channelId = id → (f ch).channelId = id)
    (hself : ∀ ch : Channel, ch.channelId = id → ch.HoldsAs alloc events →
      (f ch).HoldsAs alloc events')
    (hother : ∀ ch : Channel, ch.channelId ≠ id → ch.HoldsAs alloc events →
      ch.HoldsAs alloc events')
    (hcalls : calls = (reading select events').calls) :
    ReadsAs alloc select events' rest'
      { OticUnpack.modify { u with input := rest' } id f with calls := calls } := by
  have hids : (OticUnpack.modify { u with input := rest' } id f).channels.map Channel.channelId =
      u.channels.map Channel.channelId := by
    rw [OticUnpack.modify, List.map_map]
    refine List.map_congr_left fun ch _ => ?_
    simp only [Function.comp_apply]
    split
    · rename_i heq
      rw [hid ch heq, heq]
    · rfl
  refine ⟨rfl, h.state, h.error, h.version, h.current, ?_, ?_, fun ch hch => ?_, hcalls⟩
  · rw [hids]
    exact h.distinct
  · rw [hids]
    exact h.ids
  · simp only [OticUnpack.modify, List.mem_map] at hch
    obtain ⟨ch', hmem, rfl⟩ := hch
    split
    · rename_i heq
      exact hself ch' heq (h.holds ch' hmem)
    · rename_i hne
      exact hother ch' hne (h.holds ch' hmem)

/-- A change that is of no concern for what a channel holds. -/
theorem Channel.HoldsAs.of_same {ch ch' : Channel} (h : ch.HoldsAs alloc events)
    (hid : ch'.channelId = ch.channelId) (hwf : ch.WellFormed → ch'.WellFormed)
    (hview : ch'.view = ch.view) (hfetch : ch'.toFetch = ch.toFetch)
    (halloc : ∀ size, alloc size ch → alloc size ch') : ch'.HoldsAs alloc events := by
  obtain ⟨⟨fr, top, hstands, hempty⟩, hallocated⟩ := h
  refine ⟨⟨ch'.frame, ch'.top, ⟨hwf hstands.wellFormed, ?_, rfl, rfl⟩, ?_⟩, ?_⟩
  · rw [hview, hid]
    exact hstands.view
  · rw [← hstands.frame] at hempty
    exact hfetch.trans hempty
  · rw [hid]
    exact halloc _ hallocated

/-- What a channel holds depends on its own records and its own size. -/
theorem Channel.HoldsAs.congr {ch : Channel} {events' : List Event} (h : ch.HoldsAs alloc events)
    (hrecords : recordsOf ch.channelId events' = recordsOf ch.channelId events)
    (hsize : sizeOf ch.channelId events' = sizeOf ch.channelId events) :
    ch.HoldsAs alloc events' := by
  rw [HoldsAs, hrecords, hsize]
  exact h

/-- The blocks of other channels are of no concern. -/
theorem Channel.HoldsAs.other {ch : Channel} (h : ch.HoldsAs alloc events) {id : UInt8}
    (hid : ch.channelId ≠ id) (block : List Record) (frame : List UInt8) :
    ch.HoldsAs alloc (events ++ [.data id block frame]) := by
  apply h.congr
  · simp [Event.blockOf, Ne.symm hid]
  · exact sizeOf_concat_data _ _ _ _ _

/-- Nor are their definitions. -/
theorem Channel.HoldsAs.otherDefine {ch : Channel} (h : ch.HoldsAs alloc events) {id : UInt8}
    (hid : ch.channelId ≠ id) (channelType : UInt8) (bucketSize : UInt32) :
    ch.HoldsAs alloc (events ++ [.define id channelType bucketSize]) := by
  apply h.congr
  · rw [recordsOf_append]
    exact List.append_nil _
  · rw [sizeOf_concat_define, if_neg (Ne.symm hid)]

/-- The same for a whole reader that has not selected the channel. -/
theorem ReadsAs.skip (h : ReadsAs alloc select events rest u) {id : UInt8} (hid : id ∉ select)
    (block : List Record) (frame rest' : List UInt8) :
    ReadsAs alloc select (events ++ [.data id block frame]) rest' { u with input := rest' } := by
  refine ⟨rfl, h.state, h.error, h.version, h.current, h.distinct, h.ids, ?_, ?_⟩
  · intro ch hch
    have hne : ch.channelId ≠ id := fun heq =>
      hid (heq ▸ (h.ids _).mp (List.mem_map_of_mem hch))
    exact (h.holds ch hch).other hne block frame
  · rw [reading_concat, Reading.event, if_neg hid]
    exact h.calls

/-- Frames that are of no concern for what the channels hold. -/
theorem ReadsAs.alter (h : ReadsAs alloc select events rest u) (rest' : List UInt8) (id : UInt8)
    {f : Channel → Channel} (hsame : ∀ ch : Channel, (f ch).channelId = ch.channelId ∧
      (ch.WellFormed → (f ch).WellFormed) ∧ (f ch).view = ch.view ∧ (f ch).toFetch = ch.toFetch)
    (halloc : ∀ ch size, alloc size ch → alloc size (f ch)) :
    ReadsAs alloc select events rest' (OticUnpack.modify { u with input := rest' } id f) := by
  have hmodify := h.modify rest' events id f (fun ch hch => (hsame ch).1.trans hch)
    (fun ch _ hch => hch.of_same (hsame ch).1 (hsame ch).2.1 (hsame ch).2.2.1 (hsame ch).2.2.2
      fun size => halloc ch size)
    (fun ch _ hch => hch) h.calls
  exact hmodify

/-! ### The start -/

/-- One more channel is selected before anything is read. -/
theorem ReadsAs.define (h : ReadsAs alloc select [] rest u) {id : UInt8} (hid : id ∉ select)
    (halloc : alloc none (Channel.init id)) :
    ReadsAs alloc (select ++ [id]) [] rest (u.defineChannel id).2 := by
  have hdefine : u.defineChannel id =
      (true, { u with channels := Channel.init id :: u.channels }) := by
    unfold defineChannel
    rw [if_neg (not_not.mpr h.state), h.find_none hid]
    rfl
  rw [hdefine]
  refine ⟨h.input, h.state, h.error, h.version, h.current, ?_, fun id' => ?_, fun ch hch => ?_,
    h.calls⟩
  · rw [List.map_cons, List.nodup_cons]
    exact ⟨fun hmem => hid ((h.ids id).mp hmem), h.distinct⟩
  · rw [List.map_cons, List.mem_cons, h.ids, List.mem_append, List.mem_singleton, or_comm]
    rfl
  · rcases List.mem_cons.mp hch with rfl | hch
    · refine ⟨⟨_, _, (Channel.wellFormed_init id).stands, rfl⟩, halloc⟩
    · exact h.holds ch hch

/-- The header is read and channels are selected. -/
theorem start_reads (alloc : Allocation) (seeker : Bool) {select : List UInt8}
    (hselect : select.Nodup) (features : UInt8) (input : List UInt8)
    (halloc : ∀ id, alloc none (Channel.init id)) :
    ∃ u, start seeker select (fileHeader features ++ input) = .ok u ∧
      ReadsAs alloc select [] input u := by
  let u₀ : OticUnpack := ⟨[], .opened, .none, none, input, seeker, OTIC_VERSION_MAJOR, []⟩
  have h₀ : ReadsAs alloc [] [] input u₀ :=
    ⟨rfl, rfl, rfl, rfl, rfl, List.nodup_nil, by simp [u₀], by simp [u₀], rfl⟩
  have hinit : init seeker (fileHeader features ++ input) = .ok (true, u₀) := by
    have hfetch : ∀ w : OticUnpack, w.input = fileHeader features ++ input →
        w.fetch 6 = some (fileHeader features, { w with input := input }) :=
      fun w hw => fetch_append _ hw rfl
    rw [init, hfetch _ rfl]
    simp [fileHeader, OTIC_MAGIC, u₀]
  have hfold : ∀ (ids before : List UInt8) (u : OticUnpack), (before ++ ids).Nodup →
      ReadsAs alloc before [] input u →
      ReadsAs alloc (before ++ ids) [] input
        (ids.foldl (fun u id => (u.defineChannel id).2) u) := by
    intro ids
    induction ids with
    | nil => intro before u _ h; simpa using h
    | cons id ids ih =>
      intro before u hnodup h
      have hid : id ∉ before := by
        intro hmem
        exact (List.nodup_append.mp hnodup).2.2 id hmem id List.mem_cons_self rfl
      have h' := ih (before ++ [id]) _ (by simpa using hnodup) (h.define hid (halloc id))
      simpa using h'
  refine ⟨_, ?_, hfold select [] u₀ (by simpa using hselect) h₀⟩
  simp only [start, hinit, Exec.ok_bind]

end Otic.Unpack
