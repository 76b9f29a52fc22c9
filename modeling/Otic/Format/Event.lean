import Mathlib.Logic.Function.Basic
import Otic.Format.Record

/-!
# Events: what a file is made of

After its header a file is a sequence of events: a channel is defined, which takes
four frames in one write, or a block of a channel follows, compressed.  `Stream`
says when a sequence of events makes sense: every block belongs to a channel that
was defined, fits the size announced for it, and refers to names the channel has
assigned by then.  `reading` is what a reader that selected some of the channels makes
of the events; both readers of `unpack.c` are compared with it.
-/

namespace Otic

/-- `otic_header_t`. -/
def fileHeader (features : UInt8) : List UInt8 := OTIC_MAGIC ++ [features, OTIC_VERSION_MAJOR]

/-- An event.  A block is the records it holds together with the frame they were
compressed to. -/
inductive Event where
  | define (id channelType : UInt8) (bucketSize : UInt32)
  | data (id : UInt8) (block : List Record) (frame : List UInt8)

namespace Event

/-- The buffer of `otic_pack_defineChannel`. -/
def defineBytes (id channelType : UInt8) (bucketSize : UInt32) : List UInt8 :=
  [MetaType.channelDefine.toByte, id,
    MetaType.channelType.toByte, id, channelType,
    MetaType.compressionMethod.toByte, id, OTIC_FEATURE_COMPRESSION_ZSTD,
    MetaType.chunkSize.toByte, id] ++ Bytes.ofUInt32 bucketSize

/-- The `otic_meta_data_size_t` in front of a compressed block. -/
def dataHeader (id : UInt8) (size : Nat) : List UInt8 :=
  MetaType.data.toByte :: id :: Bytes.ofUInt32 (UInt32.ofNat size)

def bytes : Event → List UInt8
  | .define id channelType bucketSize => defineBytes id channelType bucketSize
  | .data id _ frame => dataHeader id frame.length ++ frame

/-- The records of a channel in an event. -/
def blockOf (id : UInt8) : Event → List Record
  | .define _ _ _ => []
  | .data id' block _ => if id' = id then block else []

end Event

/-- The bytes of a sequence of events. -/
def bytesOf (events : List Event) : List UInt8 := events.flatMap Event.bytes

/-- The records of a channel, in all its blocks. -/
def recordsOf (id : UInt8) (events : List Event) : List Record := events.flatMap (Event.blockOf id)

/-- The size last announced for a channel. -/
def sizeOf (id : UInt8) (events : List Event) : Option UInt32 :=
  events.foldl (fun size event =>
    match event with
    | .define id' _ bucketSize => if id' = id then some bucketSize else size
    | .data _ _ _ => size) none

@[simp] theorem bytesOf_nil : bytesOf [] = [] := rfl

@[simp] theorem bytesOf_cons (e : Event) (es : List Event) :
    bytesOf (e :: es) = e.bytes ++ bytesOf es := by
  simp [bytesOf]

@[simp] theorem bytesOf_append (es es' : List Event) :
    bytesOf (es ++ es') = bytesOf es ++ bytesOf es' := by
  simp [bytesOf]

@[simp] theorem recordsOf_nil (id : UInt8) : recordsOf id [] = [] := rfl

@[simp] theorem recordsOf_cons (id : UInt8) (e : Event) (es : List Event) :
    recordsOf id (e :: es) = e.blockOf id ++ recordsOf id es := by
  simp [recordsOf]

@[simp] theorem recordsOf_append (id : UInt8) (es es' : List Event) :
    recordsOf id (es ++ es') = recordsOf id es ++ recordsOf id es' := by
  simp [recordsOf]

@[simp] theorem sizeOf_nil (id : UInt8) : sizeOf id [] = none := rfl

@[simp] theorem sizeOf_concat_define (id id' channelType : UInt8) (bucketSize : UInt32)
    (es : List Event) : sizeOf id (es ++ [.define id' channelType bucketSize]) =
      if id' = id then some bucketSize else sizeOf id es := by
  simp [sizeOf]

@[simp] theorem sizeOf_concat_data (id id' : UInt8) (block : List Record) (frame : List UInt8)
    (es : List Event) : sizeOf id (es ++ [.data id' block frame]) = sizeOf id es := by
  simp [sizeOf]

/-- A block that was compressed into a buffer of the size announced for its channel,
and whose records refer to names assigned before. -/
structure Event.Sound (zstd : Zstd) (before : List Event) (id : UInt8) (block : List Record)
    (frame : List UInt8) : Prop where
  announced : ∃ size, sizeOf id before = some size ∧
    zstd.compress size.toNat (encodeAll block) = some frame ∧
      (encodeAll block).length ≤ size.toNat
  valid : ValidFrom (namesAfter 0 (recordsOf id before)) block

/-- Sequences of events that make sense. -/
inductive Stream (zstd : Zstd) : List Event → Prop
  | nil : Stream zstd []
  | define {events : List Event} (id channelType : UInt8) (bucketSize : UInt32)
      (h : Stream zstd events) : Stream zstd (events ++ [.define id channelType bucketSize])
  | data {events : List Event} {id : UInt8} {block : List Record} {frame : List UInt8}
      (h : Stream zstd events) (hsound : Event.Sound zstd events id block frame) :
      Stream zstd (events ++ [.data id block frame])

/-! ### What a reader makes of them -/

/-- What has been read of the channels that were selected: a view of each, and the
rows of all of them in the order in which they were delivered. -/
structure Reading where
  views : UInt8 → View
  calls : List (UInt8 × Row)

/-- Nothing has been read. -/
def Reading.start : Reading := ⟨fun _ => View.init, []⟩

/-- The rows of a block are delivered when the block is read. -/
def Reading.event (select : List UInt8) (t : Reading) : Event → Reading
  | .define _ _ _ => t
  | .data id block _ =>
      if id ∈ select then
        let after := (t.views id).applyAll block
        { views := Function.update t.views id after
          calls := t.calls ++
            (after.rows.drop (t.views id).rows.length).map fun row => (id, row) }
      else t

/-- Events one after the other. -/
def reading (select : List UInt8) (events : List Event) : Reading :=
  events.foldl (Reading.event select) Reading.start

theorem reading_concat (select : List UInt8) (events : List Event) (e : Event) :
    reading select (events ++ [e]) = (reading select events).event select e := by
  simp [reading]

/-- The view of a channel depends on its own records only. -/
theorem reading_views {select : List UInt8} {id : UInt8} (hid : id ∈ select)
    (events : List Event) :
    (reading select events).views id = View.init.applyAll (recordsOf id events) := by
  induction events using List.reverseRecOn with
  | nil => rfl
  | append_singleton events e ih =>
    rw [reading_concat, recordsOf_append, View.applyAll_append, ← ih]
    cases e with
    | define id' channelType bucketSize => rfl
    | data id' block frame =>
      by_cases hsame : id' = id
      · subst hsame
        simp [Reading.event, hid, Event.blockOf]
      · by_cases hid' : id' ∈ select
        · simp [Reading.event, hid', Event.blockOf, hsame, Function.update_of_ne (Ne.symm hsame)]
        · simp [Reading.event, hid', Event.blockOf, hsame]

/-- Only selected channels deliver rows. -/
theorem mem_select_of_reading {select : List UInt8} {events : List Event} {call : UInt8 × Row}
    (h : call ∈ (reading select events).calls) : call.1 ∈ select := by
  induction events using List.reverseRecOn with
  | nil => simp [reading, Reading.start] at h
  | append_singleton events e ih =>
    rw [reading_concat] at h
    cases e with
    | define id channelType bucketSize => exact ih h
    | data id block frame =>
      simp only [Reading.event] at h
      split at h
      · rename_i hid
        rcases List.mem_append.mp h with h | h
        · exact ih h
        · obtain ⟨row, -, rfl⟩ := List.mem_map.mp h
          exact hid
      · exact ih h

/-- The rows of one channel, in the order of delivery. -/
def rowsOf (id : UInt8) (calls : List (UInt8 × Row)) : List Row :=
  (calls.filter fun call => call.1 == id).map Prod.snd

@[simp] theorem rowsOf_nil (id : UInt8) : rowsOf id [] = [] := rfl

@[simp] theorem rowsOf_append (id : UInt8) (calls calls' : List (UInt8 × Row)) :
    rowsOf id (calls ++ calls') = rowsOf id calls ++ rowsOf id calls' := by
  simp [rowsOf]

/-- If there is only one channel, all rows are its rows. -/
theorem rowsOf_of_forall {id : UInt8} {calls : List (UInt8 × Row)}
    (h : ∀ call ∈ calls, call.1 = id) : rowsOf id calls = calls.map Prod.snd := by
  rw [rowsOf, List.filter_eq_self.mpr fun call hcall => by simp [h call hcall]]

theorem rowsOf_map (id id' : UInt8) (rows : List Row) :
    rowsOf id (rows.map fun row => (id', row)) = if id' = id then rows else [] := by
  by_cases h : id' = id
  · simp [rowsOf, h, List.filter_map, Function.comp_def]
  · simp [rowsOf, h, List.filter_map, Function.comp_def]

/-- What is delivered for a selected channel is what its records amount to. -/
theorem rowsOf_reading {select : List UInt8} {id : UInt8} (hid : id ∈ select)
    (events : List Event) :
    rowsOf id (reading select events).calls = (View.init.applyAll (recordsOf id events)).rows := by
  induction events using List.reverseRecOn with
  | nil => rfl
  | append_singleton events e ih =>
    rw [← reading_views hid] at ih ⊢
    rw [reading_concat]
    cases e with
    | define id' channelType bucketSize => exact ih
    | data id' block frame =>
      by_cases hid' : id' ∈ select
      · simp only [Reading.event, if_pos hid', rowsOf_append, rowsOf_map, ih]
        by_cases hsame : id' = id
        · subst hsame
          obtain ⟨later, hlater⟩ :=
            ((reading select events).views id').rows_isPrefix_applyAll block
          rw [if_pos rfl, Function.update_self, ← hlater]
          simp
        · rw [if_neg hsame, Function.update_of_ne (Ne.symm hsame), List.append_nil]
      · simpa only [Reading.event, if_neg hid'] using ih

end Otic
