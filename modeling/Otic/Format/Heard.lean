import Otic.Format.Event

/-!
# Streams that are heard up to an end mark

`otic_unpack_generate` returns 0 at the end mark of a channel.  `heard` is what of a
stream has been read by then, and `unheard` the records of selected channels that are
left.  The rows of `heard` are the first rows of the stream (`calls_heard_isPrefix`),
and all of them exactly if no row is left (`calls_heard_iff`).
-/

namespace Otic

variable {select : List UInt8} {events : List Event}

/-! ### Blocks -/

def Record.isEof : Record → Bool
  | .eof _ => .true
  | _ => .false

/-- A block up to its first end mark. -/
def untilEof : List Record → List Record
  | [] => []
  | r :: rs => if r.isEof then [r] else r :: untilEof rs

/-- What is behind it. -/
def afterEof : List Record → List Record
  | [] => []
  | r :: rs => if r.isEof then rs else afterEof rs

theorem untilEof_append_afterEof (rs : List Record) : untilEof rs ++ afterEof rs = rs := by
  induction rs with
  | nil => rfl
  | cons r rs ih =>
    rw [untilEof, afterEof]
    split
    · rfl
    · rw [List.cons_append, ih]

theorem untilEof_append_of_none {rs : List Record} (hnone : rs.any Record.isEof = .false)
    (rs' : List Record) : untilEof (rs ++ rs') = rs ++ untilEof rs' := by
  induction rs with
  | nil => rfl
  | cons r rs ih =>
    rw [List.any_cons, Bool.or_eq_false_iff] at hnone
    rw [List.cons_append, untilEof, if_neg (by simp [hnone.1]), ih hnone.2, List.cons_append]

/-! ### Streams -/

/-- The records of the selected channels, in the order of the stream. -/
def Event.selected (select : List UInt8) : Event → List Record
  | .define _ _ _ => []
  | .data id block _ => if id ∈ select then block else []

/-- An event has an end mark of a selected channel. -/
def Event.ends (select : List UInt8) (e : Event) : Bool := (e.selected select).any Record.isEof

/-- An event up to its first end mark. -/
def Event.untilEof : Event → Event
  | .define id channelType bucketSize => .define id channelType bucketSize
  | .data id block frame => .data id (Otic.untilEof block) frame

/-- The events up to the first end mark of a selected channel. -/
def heard (select : List UInt8) : List Event → List Event
  | [] => []
  | e :: es => if e.ends select then [e.untilEof] else e :: heard select es

/-- The records of selected channels behind it. -/
def unheard (select : List UInt8) : List Event → List Record
  | [] => []
  | e :: es =>
      if e.ends select then afterEof (e.selected select) ++ es.flatMap (Event.selected select)
      else unheard select es

theorem heard_append (es es' : List Event) :
    heard select (es ++ es') =
      if es.any (Event.ends select) then heard select es else es ++ heard select es' := by
  induction es with
  | nil => rfl
  | cons e es ih =>
    rw [List.cons_append, heard, heard, List.any_cons]
    by_cases hend : e.ends select
    · simp [hend]
    · simp only [hend, ih, Bool.false_or, if_false, Bool.false_eq_true]
      split <;> rfl

theorem heard_of_none (hnone : events.any (Event.ends select) = .false) :
    heard select events = events := by
  have happend := @heard_append select events []
  rw [hnone, List.append_nil] at happend
  simpa [heard] using happend

theorem selected_untilEof {e : Event} (hend : e.ends select = .true) :
    e.untilEof.selected select = untilEof (e.selected select) := by
  cases e with
  | define id channelType bucketSize => cases hend
  | data id block frame =>
    simp only [Event.untilEof, Event.selected]
    split <;> rfl

theorem selected_heard (events : List Event) :
    (heard select events).flatMap (Event.selected select) ++ unheard select events =
      events.flatMap (Event.selected select) := by
  induction events with
  | nil => rfl
  | cons e es ih =>
    rw [heard, unheard]
    by_cases hend : e.ends select
    · rw [if_pos hend, if_pos hend, List.flatMap_singleton, selected_untilEof hend,
        ← List.append_assoc, untilEof_append_afterEof, List.flatMap_cons]
    · rw [if_neg hend, if_neg hend, List.flatMap_cons, List.flatMap_cons, List.append_assoc, ih]

/-! ### Rows -/

theorem calls_isPrefix_foldl (t : Reading) (es : List Event) :
    t.calls <+: (es.foldl (Reading.event select) t).calls := by
  induction es generalizing t with
  | nil => exact List.prefix_rfl
  | cons e es ih =>
    refine List.IsPrefix.trans ?_ (ih (t.event select e))
    cases e with
    | define id channelType bucketSize => exact List.prefix_rfl
    | data id block frame =>
      simp only [Reading.event]
      split
      · exact List.prefix_append _ _
      · exact List.prefix_rfl

theorem calls_untilEof_isPrefix (t : Reading) (e : Event) :
    (t.event select e.untilEof).calls <+: (t.event select e).calls := by
  cases e with
  | define id channelType bucketSize => exact List.prefix_rfl
  | data id block frame =>
    simp only [Event.untilEof, Reading.event]
    split
    · have hblock : (t.views id).applyAll block =
          ((t.views id).applyAll (untilEof block)).applyAll (afterEof block) := by
        rw [← View.applyAll_append, untilEof_append_afterEof]
      obtain ⟨later, hlater⟩ :=
        ((t.views id).applyAll (untilEof block)).rows_isPrefix_applyAll (afterEof block)
      obtain ⟨own, hown⟩ := (t.views id).rows_isPrefix_applyAll (untilEof block)
      rw [hblock, ← hlater, ← hown]
      simp
    · exact List.prefix_rfl

/-- **What is heard** is delivered first. -/
theorem calls_heard_isPrefix (events : List Event) :
    (reading select (heard select events)).calls <+: (reading select events).calls := by
  have hfold : ∀ (es : List Event) (t : Reading),
      ((heard select es).foldl (Reading.event select) t).calls <+:
        (es.foldl (Reading.event select) t).calls := by
    intro es
    induction es with
    | nil => exact fun t => List.prefix_rfl
    | cons e es ih =>
      intro t
      rw [heard]
      split
      · exact (calls_untilEof_isPrefix t e).trans (calls_isPrefix_foldl (t.event select e) es)
      · exact ih (t.event select e)
  exact hfold events Reading.start

theorem calls_concat_data {id : UInt8} (hid : id ∈ select) (events : List Event)
    (block block' : List Record) (frame : List UInt8) :
    (reading select (events ++ [.data id (block ++ block') frame])).calls =
      (reading select (events ++ [.data id block frame])).calls ++
        (((View.init.applyAll (recordsOf id events ++ (block ++ block'))).rows.drop
          (View.init.applyAll (recordsOf id events ++ block)).rows.length).map
            fun row => (id, row)) := by
  obtain ⟨own, hown⟩ := ((reading select events).views id).rows_isPrefix_applyAll block
  obtain ⟨later, hlater⟩ :=
    (((reading select events).views id).applyAll block).rows_isPrefix_applyAll block'
  rw [reading_concat, reading_concat, View.applyAll_append, View.applyAll_append,
    View.applyAll_append, ← reading_views hid]
  simp only [Reading.event, if_pos hid, View.applyAll_append]
  rw [← hlater, ← hown]
  simp

theorem View.length_rows_apply (v : View) {r : Record} (hvalid : r.Valid v.sensors.length) :
    (v.apply r).rows.length = v.rows.length + rowsIn [r] := by
  have hdeliver : ∀ index f, r.index? = some index →
      (v.deliver index f).rows.length = v.rows.length + rowsIn [r] := by
    intro index f hindex
    have hone : rowsIn [r] = 1 := by simp [rowsIn, hindex]
    unfold View.deliver
    rw [List.getElem?_eq_getElem (hvalid index hindex), hone]
    simp
  cases r with
  | setTimestamp tick | shiftTimestamp shift | nameAssign a => rfl
  | eof count =>
    simp only [View.apply]
    split <;> rfl
  | smallInt value index | intPos index value | intNeg index value | double index value
  | string index s | null index | true index | false index | unmodified index =>
    exact hdeliver _ _ rfl

theorem View.length_rows_applyAll (v : View) {rs : List Record}
    (hvalid : ValidFrom v.sensors.length rs) :
    (v.applyAll rs).rows.length = v.rows.length + rowsIn rs := by
  induction rs generalizing v with
  | nil => rfl
  | cons r rs ih =>
    have hrows : rowsIn (r :: rs) = rowsIn [r] + rowsIn rs := rowsIn_append [r] rs
    have hlater : ValidFrom (v.apply r).sensors.length rs := by
      rw [View.apply_sensors_length]
      exact hvalid.2
    rw [View.applyAll_cons, ih (v.apply r) hlater, v.length_rows_apply hvalid.1, hrows]
    omega

theorem View.deliver_rowCounter {v : View} {index : UInt32}
    (hindex : index.toNat < v.sensors.length)
    (f : Oval → Oval) : (v.deliver index f).rowCounter = v.rowCounter + 1 := by
  rw [View.deliver, List.getElem?_eq_getElem hindex]

theorem View.deliver_error (v : View) (index : UInt32) (f : Oval → Oval) :
    (v.deliver index f).error = v.error := by
  unfold View.deliver
  split <;> rfl

/-- A record is counted if it is a row, and only the end mark finds errors. -/
theorem View.counted_apply (v : View) {r : Record} (hvalid : r.Valid v.sensors.length)
    (hunmarked : ∀ count, r ≠ .eof count) :
    (v.apply r).rowCounter = v.rowCounter + UInt64.ofNat (rowsIn [r]) ∧
      (v.apply r).error = v.error := by
  have hrow : ∀ {index : UInt32} (f : Oval → Oval), r.index? = some index →
      (v.deliver index f).rowCounter = v.rowCounter + UInt64.ofNat (rowsIn [r]) ∧
        (v.deliver index f).error = v.error := by
    intro index f hindex
    have hone : rowsIn [r] = 1 := by simp [rowsIn, hindex]
    rw [hone]
    exact ⟨View.deliver_rowCounter (hvalid index hindex) f, v.deliver_error index f⟩
  cases r with
  | eof count => exact absurd rfl (hunmarked count)
  | setTimestamp tick | shiftTimestamp shift | nameAssign a =>
    exact ⟨(UInt64.add_zero _).symm, rfl⟩
  | smallInt value index | intPos index value | intNeg index value | double index value
  | string index s | null index | true index | false index | unmodified index =>
    exact hrow _ rfl

theorem View.counted_applyAll {rs : List Record} : ∀ {v : View}, ValidFrom v.sensors.length rs →
    (∀ count, Record.eof count ∉ rs) →
      (v.applyAll rs).rowCounter = v.rowCounter + UInt64.ofNat (rowsIn rs) ∧
        (v.applyAll rs).error = v.error := by
  induction rs with
  | nil => exact fun _ _ => ⟨(UInt64.add_zero _).symm, rfl⟩
  | cons r rs ih =>
    intro v hvalid hunmarked
    obtain ⟨hcounter, herror⟩ := v.counted_apply hvalid.1 fun count heq =>
      hunmarked count (heq ▸ List.mem_cons_self)
    obtain ⟨hcounter', herror'⟩ := @ih (v.apply r) (by
      rw [View.apply_sensors_length]
      exact hvalid.2) fun count hmem => hunmarked count (List.mem_cons_of_mem _ hmem)
    have hrows : rowsIn (r :: rs) = rowsIn [r] + rowsIn rs := rowsIn_append [r] rs
    rw [View.applyAll_cons, hcounter', hcounter, herror', herror, hrows, UInt64.ofNat_add,
      UInt64.add_assoc]
    exact ⟨rfl, rfl⟩

/-- The records of the selected channels refer to names assigned before. -/
def ValidFor (select : List UInt8) (events : List Event) : Prop :=
  ∀ id ∈ select, ValidFrom 0 (recordsOf id events)

theorem ValidFor.of_append {es es' : List Event} (h : ValidFor select (es ++ es')) :
    ValidFor select es := by
  intro id hid
  have hvalid := h id hid
  rw [recordsOf_append, validFrom_append] at hvalid
  exact hvalid.1

theorem validFor_of_stream {zstd : Zstd} (hstream : Stream zstd events) (select : List UInt8) :
    ValidFor select events := by
  intro id _
  induction hstream with
  | nil => trivial
  | define id' channelType bucketSize h ih =>
    rw [recordsOf_append]
    simpa [Event.blockOf] using ih
  | @data events id' block frame h hsound ih =>
    rw [recordsOf_append, validFrom_append]
    refine ⟨ih, ?_⟩
    by_cases hid : id' = id
    · subst hid
      simpa [Event.blockOf] using hsound.valid
    · simp [Event.blockOf, hid]

/-- The rows are counted by the row records. -/
theorem length_calls_reading (hvalid : ValidFor select events) :
    (reading select events).calls.length = rowsIn (events.flatMap (Event.selected select)) := by
  induction events using List.reverseRecOn with
  | nil => rfl
  | append_singleton events e ih =>
    rw [reading_concat, List.flatMap_append, rowsIn_append, ← ih hvalid.of_append,
      List.flatMap_singleton]
    cases e with
    | define id channelType bucketSize => rfl
    | data id block frame =>
      simp only [Reading.event, Event.selected]
      split
      · rename_i hid
        have hblock := hvalid id hid
        rw [recordsOf_append, validFrom_append, recordsOf_cons, recordsOf_nil, List.append_nil,
          Event.blockOf, if_pos rfl] at hblock
        have hlater : ValidFrom ((reading select events).views id).sensors.length block := by
          rw [reading_views hid, View.applyAll_sensors_length]
          exact hblock.2
        have hlength := View.length_rows_applyAll _ hlater
        rw [List.length_append, List.length_map, List.length_drop, hlength]
        omega
      · rfl

theorem recordsOf_heard_isPrefix (id : UInt8) (events : List Event) :
    recordsOf id (heard select events) <+: recordsOf id events := by
  induction events with
  | nil => exact List.prefix_rfl
  | cons e es ih =>
    rw [heard]
    split
    · rw [recordsOf_cons, recordsOf_cons, recordsOf_nil, List.append_nil]
      refine List.IsPrefix.trans ?_ (List.prefix_append _ _)
      cases e with
      | define id' channelType bucketSize => exact List.prefix_rfl
      | data id' block frame =>
        simp only [Event.untilEof, Event.blockOf]
        split
        · exact ⟨afterEof block, untilEof_append_afterEof block⟩
        · exact List.prefix_rfl
    · rw [recordsOf_cons, recordsOf_cons]
      exact List.prefix_append_right_inj _ |>.mpr ih

theorem ValidFor.heard (hvalid : ValidFor select events) :
    ValidFor select (heard select events) := by
  intro id hid
  obtain ⟨later, hlater⟩ := @recordsOf_heard_isPrefix select id events
  have h := hvalid id hid
  rw [← hlater, validFrom_append] at h
  exact h.1

/-- **All rows are heard** exactly if there is none behind the end mark. -/
theorem calls_heard_iff (hvalid : ValidFor select events) :
    (reading select (heard select events)).calls = (reading select events).calls ↔
      ∀ r ∈ unheard select events, r.index? = none := by
  have hcount : (reading select events).calls.length =
      (reading select (heard select events)).calls.length + rowsIn (unheard select events) := by
    rw [length_calls_reading hvalid, length_calls_reading hvalid.heard, ← rowsIn_append,
      selected_heard]
  have hnone : rowsIn (unheard select events) = 0 ↔
      ∀ r ∈ unheard select events, r.index? = none := by
    rw [rowsIn, List.countP_eq_zero]
    simp
  rw [← hnone]
  constructor
  · intro hsame
    rw [hsame] at hcount
    omega
  · intro hzero
    rw [hzero, Nat.add_zero] at hcount
    exact (calls_heard_isPrefix events).eq_of_length hcount.symm

end Otic
