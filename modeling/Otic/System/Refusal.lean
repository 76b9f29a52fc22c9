import Otic.System.Isolation
import Otic.System.Reuse

/-!
# Flushers that refuse

A flush that is refused keeps its block, and the block goes out with the next flush.
Rows are lost where the result of a flush is dropped and no other follows: when a
channel or the pack is closed.  The result for a definition is dropped as well.  A run
whose refusals stay away from these delivers every row whose inject returned 1
(`noRowLost_of_tolerable`).
-/

namespace Otic

open Pack Unpack

/-- If all injects and the close of the pack returned 1, then every row is delivered
once, in order. -/
def NoRowLost (zstd : Zstd) (seeker : Bool) (select : List UInt8) (s : Session) : Prop :=
  ∃ w, s.write zstd = some w ∧
    ((∀ call ∈ s.history w, Acknowledged call) → w.closed = true →
      ∃ u, readFile zstd seeker select w.accepted = .ok u ∧
        ∀ id ∈ select, Delivers (rowsOf id u.calls) (incarnations id (s.history w)))

namespace Pack

/-- Refusals that do no harm to a call: the flusher takes what a definition or a close
sends, and the payload of every header it took, and the last block of a channel is
compressed. -/
def Step.Tolerable (zstd : Zstd) (pack : OticPack) (s : Step) : Prop :=
  match s.op with
  | .define _ _ _ => Willing s.answers
  | .inject _ _ | .flush _ => NeverTorn s.answers
  | .close _ => Willing s.answers ∧ s.Packed zstd pack

/-- The refusals of a run do no harm. -/
def TolerableRun (zstd : Zstd) : OticPack → List Step → Prop
  | _, [] => True
  | pack, s :: steps => s.Tolerable zstd pack ∧
      ∀ ok pack', pack.step zstd s = some (ok, pack') → TolerableRun zstd pack' steps

variable {zstd : Zstd} {pack : OticPack}

theorem Step.Tolerable.careful {s : Step} (h : s.Tolerable zstd pack) {ok : Bool}
    (hinject : Acknowledged (s.op, ok)) : s.Careful zstd pack ok := by
  obtain ⟨op, answers⟩ := s
  cases op with
  | define channelType id bufferSize => exact h
  | inject id c => exact ⟨h, Or.inr (hinject id c rfl)⟩
  | flush id => exact h
  | close id => exact h

theorem TolerableRun.careful {steps : List Step} (h : TolerableRun zstd pack steps)
    {oks : List Bool} {pack' : OticPack} (hrun : pack.run zstd steps = some (oks, pack'))
    (hinjects : ∀ call ∈ withResults steps oks, Acknowledged call) :
    CarefulRun zstd pack steps := by
  induction steps generalizing pack oks with
  | nil => trivial
  | cons s steps ih =>
    obtain ⟨hs, hlater⟩ := h
    simp only [OticPack.run, Option.bind_eq_bind, Option.bind_eq_some_iff, Option.some.injEq,
      Prod.mk.injEq, Prod.exists] at hrun
    obtain ⟨ok, pack₁, hstep, oks', pack₂, hrest, rfl, rfl⟩ := hrun
    intro ok' pack₁' hstep'
    -- there is only one result of the step
    rw [hstep, Option.some.injEq, Prod.mk.injEq] at hstep'
    obtain ⟨rfl, rfl⟩ := hstep'
    constructor
    · exact hs.careful (hinjects _ (by simp [withResults]))
    · apply ih (hlater ok pack₁ hstep) hrest
      intro call hcall
      exact hinjects call (by simpa [withResults] using Or.inr hcall)

end Pack

variable {zstd : Zstd} {s : Session} {w : Written} {select : List UInt8}

/-- **No acknowledged row is lost** in a run whose refusals do no harm. -/
theorem noRowLost_of_tolerable (hlossless : zstd.Lossless) (hopening : Willing s.opening)
    (hclosing : Willing s.closing)
    (htolerable : TolerableRun zstd (OticPack.init s.features s.opening) s.steps)
    (hclosable : s.Closable zstd) (hw : s.write zstd = some w) (hinside : w.overran = false)
    (hselect : select.Nodup) (seeker : Bool)
    (hclean : ∀ id ∈ select, Clean (incarnations id (s.history w))) :
    NoRowLost zstd seeker select s := by
  refine ⟨w, hw, fun hinjects _ => ?_⟩
  obtain ⟨pack, hrun⟩ := Session.write_iff.mp ⟨w, hw, rfl⟩
  have hcareful := htolerable.careful hrun hinjects
  obtain ⟨events, hleaves⟩ :=
    Session.leaves hlossless hopening hclosing hcareful hclosable hw hinside
  obtain ⟨u, hread, hrows, -⟩ := hleaves.delivered hlossless hselect seeker hclean
  exact ⟨u, hread, hrows⟩

/-- Two rows with a flush between them; the flusher answers to it, and to the close of
the pack, as given. -/
def flushedOnce (answers closing : List Bool) : Session where
  features := 0
  opening := []
  steps :=
    [⟨.define OTIC_CHANNEL_TYPE_SENSOR 1 0, []⟩, ⟨.inject 1 (reading7 .null), []⟩,
      ⟨.flush 1, answers⟩, ⟨.inject 1 (reading7 (.intPos 300)), []⟩]
  closing := closing

/-- A flush that is refused does no harm. -/
theorem noRowLost_of_tolerable_flushedOnce :
    NoRowLost Zstd.stored false [1] (flushedOnce [false] []) := by
  obtain ⟨w, hw, hoks, hinside⟩ : ∃ w, (flushedOnce [false] []).write Zstd.stored = some w ∧
      w.oks = [true, true, false, true] ∧ w.overran = false := ⟨_, rfl, rfl, rfl⟩
  apply noRowLost_of_tolerable Zstd.stored_lossless (by decide) (by decide) _ (by decide +kernel)
    hw hinside (by decide)
  · intro id hid
    rw [List.mem_singleton.mp hid, Session.history, hoks]
    refine ⟨?_, fun j hj => by cases hj⟩
    exact (faithfulFrom_cons _ _ _).mpr ⟨by change 0 < 65536; decide,
      (faithfulFrom_cons _ _ _).mpr ⟨fun _ h => absurd h (by decide), faithfulFrom_nil _⟩⟩
  · refine ⟨by change Willing []; decide, fun ok pack h => ?_⟩
    cases h
    refine ⟨trivial, fun ok pack h => ?_⟩
    cases h
    refine ⟨trivial, fun ok pack h => ?_⟩
    cases h
    exact ⟨trivial, fun ok pack h => trivial⟩

/-- A refusal when the pack is closed is not told. -/
theorem not_noRowLost_flushedOnce : ¬ NoRowLost Zstd.stored false [1] (flushedOnce [] [false]) := by
  rintro ⟨w, hw, h⟩
  cases hw
  have hinjects : ∀ ok ∈ [true, true, true, true], ok = true := by decide
  obtain ⟨u, hread, hrows⟩ := h
    (fun call hcall id c _ => hinjects _ (List.of_mem_zip hcall).2) rfl
  cases hread
  obtain ⟨before, own, happend, hnothing, hmatch⟩ := hrows 1 (by decide)
  -- one row was delivered, two were accepted
  have hlength := hmatch.length_eq
  have htotal := congrArg List.length happend
  change 1 = _ at htotal
  change own.length = 2 at hlength
  rw [List.length_append] at htotal
  omega

end Otic
