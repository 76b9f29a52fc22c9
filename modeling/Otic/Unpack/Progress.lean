import Mathlib.Data.Prod.Lex
import Mathlib.Order.OrderIsoNat
import Otic.Unpack.Buffers

/-!
# The reader only moves on

Whatever is in a block, what a call leaves of it is its end (`readRecord_suffix`), and
whatever is in a file, every call that returns 1 has taken bytes of the input, or of the
block it is in, or has left that block.  So a loop that reads until it is told to stop
comes to an end (`reading_ends`).
-/

namespace Otic.Unpack

namespace Channel

variable {ch ch' : Channel} {top rest : List UInt8}

/-! ### Numbers and bytes -/

theorem leb128DecodeLoop_suffix {shift : Nat} {value result : UInt64}
    (hread : leb128DecodeLoop shift value top = .ok (result, rest)) : rest <:+ top := by
  induction top generalizing shift value with
  | nil => cases hread
  | cons b top ih =>
    unfold leb128DecodeLoop at hread
    split at hread
    · cases hread
    · split at hread
      · exact (ih hread).trans (List.suffix_cons b top)
      · cases hread
        exact List.suffix_cons b rest

theorem decode_suffix {value : UInt64} (hread : leb128DecodeUnsigned top = .ok (value, rest)) :
    rest <:+ top := leb128DecodeLoop_suffix hread

theorem takeByte_suffix {b : UInt8} (hread : takeByte top = .ok (b, rest)) : rest <:+ top := by
  cases top with
  | nil => cases hread
  | cons b' bytes =>
    cases hread
    exact List.suffix_cons b rest

theorem takeBytes_suffix {n : Nat} {bytes : List UInt8}
    (hread : takeBytes n top = .ok (bytes, rest)) : rest <:+ top := by
  unfold takeBytes at hread
  split at hread
  · cases hread
    exact List.drop_suffix n top
  · cases hread

/-! ### Arrays -/

/-- A reader of values leaves the end of what it was given. -/
def MovesOn (read : List UInt8 → Exec (Bool × Oval × List UInt8)) : Prop :=
  ∀ top done value rest, read top = .ok (done, value, rest) → rest <:+ top

theorem readElement_suffix {nested : List UInt8 → Exec (Bool × Oval × List UInt8)}
    (hnested : MovesOn nested) : MovesOn (readElement nested) := by
  intro top done value rest hread
  unfold readElement at hread
  obtain ⟨⟨tag, top₁⟩, htag, hread⟩ := Exec.bind_eq_ok.mp hread
  refine List.IsSuffix.trans ?_ (takeByte_suffix htag)
  dsimp only at hread
  split at hread
  · obtain ⟨⟨lval, top₂⟩, hlval, hread⟩ := Exec.bind_eq_ok.mp hread
    cases hread
    exact decode_suffix hlval
  · obtain ⟨⟨lval, top₂⟩, hlval, hread⟩ := Exec.bind_eq_ok.mp hread
    cases hread
    exact decode_suffix hlval
  · obtain ⟨⟨bytes, top₂⟩, hbytes, hread⟩ := Exec.bind_eq_ok.mp hread
    cases hread
    exact takeBytes_suffix hbytes
  · obtain ⟨⟨bytes, top₂⟩, -, hread⟩ := Exec.bind_eq_ok.mp hread
    cases hread
    exact List.drop_suffix 4 top₁
  · obtain ⟨⟨size, top₂⟩, hsize, hread⟩ := Exec.bind_eq_ok.mp hread
    obtain ⟨⟨bytes, top₃⟩, hbytes, hread⟩ := Exec.bind_eq_ok.mp hread
    cases hread
    exact (takeBytes_suffix hbytes).trans (takeByte_suffix hsize)
  · exact hnested top₁ done value rest hread
  all_goals
    cases hread
    exact List.suffix_rfl

theorem readElements_suffix {nested : List UInt8 → Exec (Bool × Oval × List UInt8)}
    (hnested : MovesOn nested) {count : Nat} {done : Bool} {elements : List Oval}
    (hread : readElements nested count top = .ok (done, elements, rest)) : rest <:+ top := by
  induction count generalizing top elements with
  | zero =>
    cases hread
    exact List.suffix_rfl
  | succ count ih =>
    obtain ⟨⟨go, element, top₁⟩, hfirst, hread⟩ := Exec.bind_eq_ok.mp hread
    have hsuffix := readElement_suffix hnested _ _ _ _ hfirst
    dsimp only at hread
    split at hread
    · obtain ⟨⟨done', later, top₂⟩, hlater, hread⟩ := Exec.bind_eq_ok.mp hread
      cases hread
      exact (ih hlater).trans hsuffix
    · cases hread
      exact hsuffix

theorem readArray_suffix (depth : Nat) : MovesOn (readArray depth) := by
  induction depth with
  | zero =>
    intro top done value rest hread
    cases hread
  | succ depth ih =>
    intro top done value rest hread
    obtain ⟨⟨size, top₁⟩, hsize, hread⟩ := Exec.bind_eq_ok.mp hread
    dsimp only at hread
    split at hread
    · cases hread
    · obtain ⟨⟨done', elements, top₂⟩, helements, hread⟩ := Exec.bind_eq_ok.mp hread
      cases hread
      exact (readElements_suffix ih helements).trans (decode_suffix hsize)

/-! ### Records -/

/-- **A row** is read forwards if its value is. -/
theorem readRow_suffix {payload : Entry → List UInt8 → Exec (Oval × List UInt8)}
    (hpayload : ∀ e top value rest, payload e top = .ok (value, rest) → rest <:+ top)
    (hread : readRow payload ch = .ok ch') : ch'.top <:+ ch.top := by
  obtain ⟨⟨i, e, top₁⟩, hselect, hread⟩ := Exec.bind_eq_ok.mp hread
  obtain ⟨⟨value, top₂⟩, hvalue, hread⟩ := Exec.bind_eq_ok.mp hread
  have hfirst : top₁ <:+ ch.top := by
    obtain ⟨⟨number, top'⟩, hnumber, hselect⟩ := Exec.bind_eq_ok.mp hselect
    dsimp only at hselect
    split at hselect
    · cases hselect
      exact decode_suffix hnumber
    · cases hselect
  cases hread
  have htop : ∀ (c : Channel) (e : Entry), (c.flushIfFlushable e).top = c.top := by
    intro c e
    unfold flushIfFlushable
    split <;> rfl
  dsimp only
  rw [htop]
  exact (hpayload e top₁ value top₂ hvalue).trans hfirst

/-- **Whatever a record is**, what is left behind it is the end of what there was. -/
theorem readRecord_suffix {version tag : UInt8} (hread : readRecord version tag ch = .ok ch') :
    ch'.top <:+ ch.top := by
  have hconstant : ∀ v : Oval, ∀ (_ : Entry) top value rest,
      (Except.ok (v, top) : Exec (Oval × List UInt8)) = .ok (value, rest) → rest <:+ top := by
    intro v _ top value rest h
    cases h
    exact List.suffix_rfl
  have hnumber : ∀ wrap : UInt64 → Oval, ∀ (_ : Entry) top value rest,
      (leb128DecodeUnsigned top >>= fun r => (Except.ok (wrap r.1, r.2) : Exec (Oval × List UInt8)))
        = .ok (value, rest) → rest <:+ top := by
    intro wrap _ top value rest h
    obtain ⟨⟨lval, top₁⟩, hlval, h⟩ := Exec.bind_eq_ok.mp h
    cases h
    exact decode_suffix hlval
  have hfixed : ∀ (n : Nat) (wrap : List UInt8 → Oval), ∀ (_ : Entry) top value rest,
      (takeBytes n top >>= fun r => (Except.ok (wrap r.1, r.2) : Exec (Oval × List UInt8)))
        = .ok (value, rest) → rest <:+ top := by
    intro n wrap _ top value rest h
    obtain ⟨⟨bytes, top₁⟩, hbytes, h⟩ := Exec.bind_eq_ok.mp h
    cases h
    exact takeBytes_suffix hbytes
  unfold readRecord at hread
  split at hread
  case h_1 =>
    refine readRow_suffix (fun e top value rest h => ?_) hread
    exact hconstant e.value e top value rest h
  case h_2 => exact readRow_suffix (hnumber .intPos) hread
  case h_3 => exact readRow_suffix (hnumber .intNeg) hread
  case h_4 => exact readRow_suffix (hfixed 8 fun bytes => .double (Bytes.toUInt64 bytes)) hread
  case h_5 => exact readRow_suffix (hfixed 4 fun bytes => .float (Bytes.toUInt32 bytes) none) hread
  case h_6 | h_7 | h_8 => exact readRow_suffix (hconstant _) hread
  case h_9 | h_10 | h_15 =>
    obtain ⟨⟨value, top⟩, hvalue, hread⟩ := Exec.bind_eq_ok.mp hread
    cases hread
    first
    | exact decode_suffix hvalue
    | exact (List.drop_suffix _ _).trans (decode_suffix hvalue)
  case h_11 =>
    obtain ⟨⟨length, top⟩, hlength, hread⟩ := Exec.bind_eq_ok.mp hread
    obtain ⟨ch₁, -, hread⟩ := Exec.bind_eq_ok.mp hread
    cases hread
    exact (List.drop_suffix _ _).trans (takeByte_suffix hlength)
  case h_12 =>
    refine readRow_suffix (fun e top value rest h => ?_) hread
    obtain ⟨⟨done, array, top₁⟩, harray, h⟩ := Exec.bind_eq_ok.mp h
    cases h
    exact readArray_suffix _ _ _ _ _ harray
  case h_13 =>
    obtain ⟨⟨expected, top⟩, hexpected, hread⟩ := Exec.bind_eq_ok.mp hread
    dsimp only at hread
    split at hread <;>
    · cases hread
      exact decode_suffix hexpected
  case h_14 =>
    refine readRow_suffix (fun e top value rest h => ?_) hread
    dsimp only at h
    split at h
    · obtain ⟨⟨b, top₁⟩, hb, h⟩ := Exec.bind_eq_ok.mp h
      rw [Exec.ok_bind] at h
      obtain ⟨⟨bytes, top₂⟩, hbytes, h⟩ := Exec.bind_eq_ok.mp h
      cases h
      exact (takeBytes_suffix hbytes).trans (takeByte_suffix hb)
    · obtain ⟨⟨total, top₁⟩, htotal, h⟩ := Exec.bind_eq_ok.mp h
      obtain ⟨⟨bytes, top₂⟩, hbytes, h⟩ := Exec.bind_eq_ok.mp h
      cases h
      exact (takeBytes_suffix hbytes).trans (decode_suffix htotal)
  case h_16 =>
    cases hread
    exact List.suffix_rfl

/-- A small integer, too. -/
theorem readSmallint_suffix {val : UInt8} (hread : readSmallint val ch = .ok ch') :
    ch'.top <:+ ch.top := by
  refine readRow_suffix (fun _ top value rest h => ?_) hread
  cases h
  exact List.suffix_rfl

/-- A call of `otic_unpack_getLine` takes something of the block or is done with it. -/
theorem getLine_takes {version : UInt8} {result used : Bool}
    (hline : getLine version ch = .ok (result, used, ch')) :
    used = true ∨ ch'.top.length < ch.top.length := by
  rcases getLine_eq_ok hline with
    ⟨hused, -⟩ | ⟨-, first, rest, ch₁, tag, top, htop, hfirst, htag, hread⟩
  · exact Or.inl hused
  · right
    have hle : ch₁.top.length ≤ ch.top.length := by
      split at hfirst
      · have hsmall := (readSmallint_suffix hfirst).length_le
        rw [htop, List.length_cons]
        exact hsmall.trans (Nat.le_succ _)
      · cases hfirst
        exact le_rfl
    have htaken : top.length < ch₁.top.length := by
      rw [htag]
      exact Nat.lt_succ_self _
    have hrest := (readRecord_suffix hread).length_le
    exact lt_of_le_of_lt hrest (htaken.trans_le hle)

end Channel

/-! ### Calls that return 1 -/

namespace OticUnpack

variable {zstd : Zstd} {u u' : OticUnpack}

/-- What is left of the block the cursor is in, and one more. -/
def ahead (u : OticUnpack) : Nat :=
  match u.current.bind u.findChannel with
  | none => 0
  | some ch => ch.top.length + 1

/-- What is left to be read. -/
def left (u : OticUnpack) : ℕ ×ₗ ℕ := toLex (u.input.length, u.ahead)

theorem findChannel_modify {id : UInt8} {ch : Channel} (hfind : u.findChannel id = some ch)
    {f : Channel → Channel} (hf : ∀ ch : Channel, ch.channelId = id → (f ch).channelId = id) :
    (u.modify id f).findChannel id = some (f ch) := by
  have hsame : ((fun current : Channel => current.channelId == id) ∘
      fun ch => if ch.channelId = id then f ch else ch) =
        fun current : Channel => current.channelId == id := by
    funext current
    dsimp only [Function.comp_apply]
    split
    · rename_i hid
      rw [hid, hf current hid]
    · rfl
  unfold modify findChannel
  rw [List.find?_map, hsame]
  have hmem := mem_of_findChannel hfind
  unfold findChannel at hfind
  rw [hfind, Option.map_some, if_pos hmem.2]

/-- A line leaves less of its block, or leaves the block. -/
theorem left_getLine {ch : Channel} {result : Bool}
    (hcurrent : u.current.bind u.findChannel = some ch)
    (hline : u.getLine ch = .ok (result, u')) : u'.left < u.left := by
  obtain ⟨⟨result', used, ch'⟩, hread, hline⟩ := Exec.bind_eq_ok.mp hline
  obtain ⟨id, hid, hfind⟩ := Option.bind_eq_some_iff.mp hcurrent
  have hframe : ch'.channelId = ch.channelId :=
    congrArg Frame.channelId (Channel.getLine_frame hread)
  have hch := (mem_of_findChannel hfind).2
  have hahead : u.ahead = ch.top.length + 1 := by
    unfold ahead
    rw [hcurrent]
  cases hline
  rcases Channel.getLine_takes hread with rfl | htakes
  · refine Prod.Lex.right _ ?_
    rw [hahead]
    exact Nat.succ_pos _
  · cases used with
    | true =>
      refine Prod.Lex.right _ ?_
      rw [hahead]
      exact Nat.succ_pos _
    | false =>
      refine Prod.Lex.right _ ?_
      have hstored : (u.store ch ch').current.bind (u.store ch ch').findChannel = some ch' := by
        have hmodify := findChannel_modify hfind (f := fun _ => ch') fun _ _ => hframe.trans hch
        rw [← hch] at hmodify hid
        change (u.current.bind (u.modify ch.channelId fun _ => ch').findChannel) = _
        rw [hid]
        exact hmodify
      have hleft : (u.store ch ch').ahead = ch'.top.length + 1 := by
        unfold ahead
        rw [hstored]
      rw [hahead]
      change (u.store ch ch').ahead < _
      rw [hleft]
      exact Nat.succ_lt_succ htakes

/-- A frame at which `otic_unpack_getNext` returns 1 has taken bytes of the input. -/
theorem length_input_of_returned (hnext : u.nextFrame zstd = .ok (some true, u')) :
    u'.input.length < u.input.length := by
  generalize hout : (some true, u') = out at hnext
  cases passed_of_nextFrame hnext with
  | eof | unknown | cut | define | skip | broken | compressionMethod | chunkSize => cases hout
  | line hhead _ hsize _ hpayload _ hline =>
    obtain ⟨⟨result, used, ch'⟩, -, hline⟩ := Exec.bind_eq_ok.mp hline
    have hhead := length_of_fetch hhead
    have hsize := length_of_fetch hsize
    obtain ⟨input, -, hle, rfl, -⟩ := fetchInto_eq_ok hpayload
    have htaken : input.length < u.input.length := by omega
    cases hline
    cases hout
    split <;> exact htaken
  | @channelType _ _ _ _ w hhead _ hread | @strayChunkSize _ _ _ _ w hhead _ hread =>
    have hhead := length_of_fetch hhead
    have hread := length_of_fetch hread
    have htaken : w.input.length < u.input.length := by omega
    cases hout
    exact htaken

/-- **A call that returns 1** leaves less to be read. -/
theorem left_call {e : EntryPoint} (hcall : e.call zstd u = .ok (true, u')) :
    u'.left < u.left := by
  cases e with
  | parse => exact Prod.Lex.left _ _ ((parse_cases hcall).2 rfl)
  | generate =>
    have hgenerate : u.generate zstd = .ok (true, u') := hcall
    unfold generate at hgenerate
    split at hgenerate
    · exact left_getLine ‹_› hgenerate
    · obtain ⟨w, hframes, hnext⟩ := getNext_eq_ok hgenerate
      refine Prod.Lex.left _ _ (lt_of_lt_of_le (length_input_of_returned hnext) ?_)
      clear hnext
      induction hframes with
      | here => exact le_rfl
      | next _ hframe ih => exact (Nat.le_of_lt (length_input_of_nextFrame hframe)).trans ih

/-- **Reading ends.**  In no order of calls of `otic_unpack_parse` and
`otic_unpack_generate` do all of them return 1, whatever the input and whatever the
frames decompress to. -/
theorem reading_ends (zstd : Zstd) (calls : ℕ → EntryPoint) (readers : ℕ → OticUnpack) :
    ∃ n, (calls n).call zstd (readers n) ≠ .ok (true, readers (n + 1)) := by
  by_contra hall
  have hdecreases : StrictAnti fun n => (readers n).left := by
    apply strictAnti_nat_of_succ_lt
    intro n
    apply left_call
    exact not_not.mp (not_exists.mp hall n)
  exact not_strictAnti_of_wellFoundedLT _ hdecreases

end OticUnpack

end Otic.Unpack
