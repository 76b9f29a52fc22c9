import Otic.Format.Heard
import Otic.Pack.Pieces
import Otic.Stored
import Otic.System.SingleChannel

/-!
# Scalar rows of one channel

A channel is defined, any number of scalar injects is called on it, and the pack is
closed.  A reader that selected the channel gets one row for every inject that
returned 1 exactly if no row is lost at the close and the calls are faithful
(`roundTrips_iff`).  If the compressor compresses every block, no row is lost, and
which calls return 1 can be told from the calls.
-/

namespace Otic

open Pack Unpack

/-- A reader that selected the channel gets exactly the rows of the calls that returned 1. -/
def RoundTrips (zstd : Zstd) (seeker : Bool) (id : UInt8) (s : Session) (calls : List Call) :
    Prop :=
  ∃ w u, s.write zstd = some w ∧ w.closed = true ∧
    readFile zstd seeker [id] w.accepted = .ok u ∧
      RowsMatch (u.calls.map Prod.snd) (acceptedCalls calls w.oks.tail)

/-- No row is lost when the pack is closed. -/
def Pack.Session.Saved (zstd : Zstd) (s : Session) : Prop :=
  ∀ out ∈ (OticPack.init s.features s.opening).run zstd s.steps,
    ∀ ch ∈ out.2.channels, ch.Saved zstd

variable {zstd : Zstd} {seeker : Bool} {features channelType id : UInt8} {bufferSize : UInt32}
  {calls : List Call} {w : Written} {limit : Nat}

/-! ### How many rows are written -/

/-- A call that is accepted writes one row, and any other none. -/
theorem Pack.Encoder.rowsIn_inject (limit : Nat) (enc : Encoder) (c : Call) :
    rowsIn (enc.inject limit c).records = if (enc.inject limit c).ok then 1 else 0 := by
  unfold Encoder.inject
  cases hclock : enc.clock c.tick with
  | none => rfl
  | some clock =>
    obtain ⟨hzero, -⟩ := rowsIn_clock hclock
    dsimp only
    split
    · exact hzero
    · cases hrow : Encoder.row { enc with timestampCurrent := c.tick } c with
      | none => exact hzero
      | some out =>
        obtain ⟨-, hone, -⟩ := rowsIn_row hrow
        dsimp only
        rw [rowsIn_append, hzero, hone]
        rfl

theorem Pack.Encoder.rowsIn_run (limit : Nat) (cs : List Call) : ∀ enc : Encoder,
    rowsIn (enc.run limit cs).records = (enc.accepted limit cs).length := by
  induction cs with
  | nil => exact fun _ => rfl
  | cons c cs ih =>
    intro enc
    have hfirst := rowsIn_inject limit enc c
    have hlater := ih (enc.inject limit c).encoder
    simp only [Encoder.run, Encoder.accepted]
    rw [rowsIn_append, hfirst, hlater]
    split
    · rw [List.length_cons, Nat.add_comm]
    · exact Nat.zero_add _

theorem Pack.Encoder.rowsIn_closed (limit : Nat) (cs : List Call) :
    rowsIn (Encoder.init.run limit cs).closed = (Encoder.init.accepted limit cs).length := by
  rw [Encoder.Outcomes.closed, rowsIn_append, Encoder.rowsIn_run]
  rfl

theorem Pack.Encoder.valid_closed (limit : Nat) (cs : List Call) :
    ValidFrom 0 (Encoder.init.run limit cs).closed := by
  rw [Encoder.Outcomes.closed, validFrom_append]
  exact ⟨(Encoder.Counted.run limit cs Encoder.counted_init).2, fun i hi => (by cases hi), trivial⟩

/-- **The first of the records** come out right exactly if the others hold no row and the
accepted calls are faithful. -/
theorem rowsMatch_left_iff {left lost : List Record}
    (hcontent : (Encoder.init.run limit calls).closed = left ++ lost) :
    RowsMatch (View.init.applyAll left).rows (Encoder.init.accepted limit calls) ↔
      rowsIn lost = 0 ∧ Faithful (Encoder.init.accepted limit calls) := by
  have hvalid := Encoder.valid_closed limit calls
  have hcount := Encoder.rowsIn_closed limit calls
  rw [hcontent, validFrom_append] at hvalid
  rw [hcontent, rowsIn_append] at hcount
  have hlength : (View.init.applyAll left).rows.length = rowsIn left := by
    rw [View.length_rows_applyAll View.init hvalid.1]
    exact Nat.zero_add _
  have hall := @rowsMatch_run_iff _ limit calls blank_init
  rw [hcontent, View.applyAll_append] at hall
  -- rows that are not there cannot match
  have hsame : rowsIn lost = 0 →
      ((View.init.applyAll left).applyAll lost).rows = (View.init.applyAll left).rows := by
    intro hzero
    have hvalid' : ValidFrom (View.init.applyAll left).sensors.length lost := by
      rw [View.applyAll_sensors_length]
      exact hvalid.2
    have hmore := View.length_rows_applyAll _ hvalid'
    rw [hzero] at hmore
    exact ((View.rows_isPrefix_applyAll _ lost).eq_of_length hmore.symm).symm
  constructor
  · intro hrows
    have hzero : rowsIn lost = 0 := by
      have := hrows.length_eq
      omega
    rw [← hsame hzero] at hrows
    exact ⟨hzero, hall.mp hrows⟩
  · rintro ⟨hzero, hfaithful⟩
    rw [← hsame hzero]
    exact hall.mpr hfaithful

/-! ### What is read -/

theorem saved_singleChannel (hlossless : zstd.Lossless) (hid : id ≠ 0) (calls : List Call) :
    (singleChannel features channelType id bufferSize calls).Saved zstd ↔
      ((firstChannel features channelType id bufferSize []).moves zstd
        (calls.map Move.inject)).2.channel.Saved zstd := by
  obtain ⟨-, pack, hrun, hchannels⟩ :=
    @write_eq_moves zstd features channelType id bufferSize hlossless hid calls
  constructor
  · intro h
    exact h _ hrun _ (by rw [hchannels]; exact List.mem_cons_self)
  · intro h out hout ch hch
    have heq := hrun.symm.trans hout
    rw [Option.some.injEq] at heq
    subst heq
    rw [hchannels, List.mem_singleton] at hch
    rw [hch]
    exact h

/-- **Any compressor**: the round trip in terms of the calls that returned 1. -/
theorem roundTrips_iff_saved (hlossless : zstd.Lossless) (hid : id ≠ 0)
    (hw : (singleChannel features channelType id bufferSize calls).write zstd = some w)
    (hinside : w.overran = false) :
    RoundTrips zstd seeker id (singleChannel features channelType id bufferSize calls) calls ↔
      (singleChannel features channelType id bufferSize calls).Saved zstd ∧
        Faithful (acceptedCalls calls w.oks.tail) := by
  obtain ⟨hwrite, -⟩ := @write_eq_moves zstd features channelType id bufferSize hlossless hid calls
  obtain ⟨told, sent, lost, hoks, haccepted, hhanded, -, hsaved⟩ :=
    @handed_closedAfter zstd features channelType id bufferSize [] hlossless hid
      (fun _ h => by cases h) (calls.map Move.inject) _ rfl
  have hinjects : injectsOf (calls.map Move.inject) = calls := by
    simp [injectsOf, List.filterMap_map]
  rw [acceptedCalls_oks, hinjects, ← hoks] at haccepted
  rw [saved_singleChannel hlossless hid, hsaved]
  rw [hw, Option.some.injEq] at hwrite
  subst hwrite
  obtain ⟨u, hread, hrows⟩ :=
    hhanded.read hlossless hinside (Encoder.valid_closed _ told) seeker
  dsimp only [List.tail_cons]
  rw [← haccepted, ← rowsMatch_left_iff hhanded.content, haccepted]
  constructor
  · rintro ⟨w', u', hw', -, hread', hmatch⟩
    -- it is the same session and the same reading
    rw [hw, Option.some.injEq] at hw'
    subst hw'
    rw [hread, Except.ok.injEq] at hread'
    subst hread'
    rw [hrows] at hmatch
    exact hmatch
  · intro hmatch
    refine ⟨_, u, hw, rfl, hread, ?_⟩
    rw [hrows]
    exact hmatch

/-- **A compressor that compresses every block**: the round trip in terms of the calls. -/
theorem roundTrips_iff_admitted (hlossless : zstd.Lossless) (hid : id ≠ 0)
    (hpacked : (singleChannel features channelType id bufferSize calls).Packed zstd)
    (hw : (singleChannel features channelType id bufferSize calls).write zstd = some w)
    (hinside : w.overran = false) :
    RoundTrips zstd seeker id (singleChannel features channelType id bufferSize calls) calls ↔
      Faithful
        (admitted (OticPack.effectiveSize bufferSize - OTIC_PACK_CACHE_TOP_LIMIT).toNat calls) := by
  obtain ⟨-, -, haccepted, -⟩ := reads_singleChannel hlossless hid hpacked hw hinside seeker rfl
  have hsaved : (singleChannel features channelType id bufferSize calls).Saved zstd :=
    fun out hout ch hch => Or.inl (hpacked.closing out hout ch hch)
  rw [roundTrips_iff_saved hlossless hid hw hinside, haccepted, faithful_accepted_iff]
  exact and_iff_right hsaved

/-- **The round trip of scalar rows.** -/
theorem roundTrips_iff (hlossless : zstd.Lossless) (hid : id ≠ 0) (seeker : Bool)
    (features channelType : UInt8) (bufferSize : UInt32) (calls : List Call) :
    let s := singleChannel features channelType id bufferSize calls
    let limit := OticPack.effectiveSize bufferSize - OTIC_PACK_CACHE_TOP_LIMIT
    ∃ w, s.write zstd = some w ∧
      (w.overran = false → (RoundTrips zstd seeker id s calls ↔
        s.Saved zstd ∧ Faithful (acceptedCalls calls w.oks.tail))) ∧
      (s.Packed zstd →
        (OTIC_PACK_CACHE_TOP_LIMIT ≤ OticPack.effectiveSize bufferSize → w.overran = false) ∧
        (w.overran = false →
          (RoundTrips zstd seeker id s calls ↔ Faithful (admitted limit.toNat calls)))) := by
  intro s limit
  obtain ⟨oks, pack', -, -, hw⟩ :=
    @write_singleChannel zstd features channelType id bufferSize hid calls
  refine ⟨_, hw, fun hinside => roundTrips_iff_saved hlossless hid hw hinside, fun hpacked =>
    ⟨fun hsize => inside_singleChannel hlossless hpacked hsize hw, fun hinside => ?_⟩⟩
  exact roundTrips_iff_admitted hlossless hid hpacked hw hinside

/-! ### A value that is cut off -/

/-- The sensor name `"a"`. -/
def sampleName : CStr := ⟨[0x61], notMem_a, sized_a⟩

/-- A positive integer for that sensor. -/
def sampleCall (tick : Tick) (value : UInt64) : Call := ⟨tick, sampleName, none, .intPos value, []⟩

/-- The second value is the first one modulo 2^32. -/
def cutOffCalls : List Call := [sampleCall ⟨1, by decide⟩ 0x100000005, sampleCall ⟨2, by decide⟩ 5]

/-- Two calls that do not agree in the lower half come back. -/
theorem roundTrips_iff_sample :
    RoundTrips Zstd.stored false 1
      (singleChannel 0 0 1 0 [sampleCall ⟨1, by decide⟩ 0x100000005, sampleCall ⟨2, by decide⟩ 6])
      [sampleCall ⟨1, by decide⟩ 0x100000005, sampleCall ⟨2, by decide⟩ 6] := by
  obtain ⟨w, -, -, hpacked⟩ := roundTrips_iff Zstd.stored_lossless (show (1 : UInt8) ≠ 0 by decide)
    false 0 0 0 [sampleCall ⟨1, by decide⟩ 0x100000005, sampleCall ⟨2, by decide⟩ 6]
  obtain ⟨hinside, hiff⟩ := hpacked ⟨by decide +kernel, by decide +kernel⟩
  apply (hiff (hinside (by decide))).mpr
  exact (faithfulFrom_cons _ _ _).mpr ⟨by change 0 < 65536; decide,
    (faithfulFrom_cons _ _ _).mpr ⟨fun _ h => absurd h (by decide), faithfulFrom_nil _⟩⟩

/-- The second value agrees with the copy of the first one, and comes back as it. -/
theorem not_roundTrips_cutOffCalls :
    ¬ RoundTrips Zstd.stored false 1 (singleChannel 0 0 1 512 cutOffCalls) cutOffCalls := by
  intro h
  obtain ⟨w, hw, hinside⟩ : ∃ w, (singleChannel 0 0 1 512 cutOffCalls).write Zstd.stored = some w ∧
      w.overran = false := ⟨_, rfl, rfl⟩
  have hfaithful := (roundTrips_iff_admitted Zstd.stored_lossless (by decide)
    ⟨by decide +kernel, by decide +kernel⟩ hw hinside).mp h
  have hadmitted : admitted (OticPack.effectiveSize 512 - OTIC_PACK_CACHE_TOP_LIMIT).toNat
      cutOffCalls = cutOffCalls := rfl
  rw [hadmitted] at hfaithful
  -- the entry of the first call has 5, which the second call takes for its own value
  have hsecond := hfaithful [sampleCall ⟨1, by decide⟩ 0x100000005] (sampleCall ⟨2, by decide⟩ 5)
    [] rfl
  have hdelivered : (Value.intPos 5).Delivered (Value.intPos 0x100000005).oval :=
    hsecond (fun d hd => by cases hd) (by decide)
  cases hdelivered

end Otic
