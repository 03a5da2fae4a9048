/-
# LiandanluNative.Brain — a brain that follows the event log, and its snapshots.

A consumer keeps two marks, the greatest sequence number it has received and the greatest it has
processed, so it does not matter in which order or how often events come (`marks_of_perm`).  The
state it shows is computed when an event is processed and left alone when one is received:
`shown_right_iff` says of every run when the state tells whether the consumer has caught up.  A
snapshot is usable for a window of sequence numbers, so one that has become unusable stays so.
-/
import LiandanluNative.Lib.Runs
import Mathlib.Algebra.Order.Group.Int
import Mathlib.Data.List.Perm.Basic

namespace LiandanluNative

open Lib.Runs

/-! ## Snapshots -/

/-- What decides whether a snapshot is used. -/
structure BrainSnapshot where
  processedEventSeq : Int
  validUntilSeq : Option Int := none

/-- `usable`; a caller that gives no `max_lag` allows 32. -/
def BrainSnapshot.usable (snapshot : BrainSnapshot) (engineEventSeq maxLag : Int) : Bool :=
  let lag := engineEventSeq - snapshot.processedEventSeq
  if lag < 0 ∨ maxLag < lag then false
  else
    match snapshot.validUntilSeq with
    | some validUntil => !decide (validUntil < engineEventSeq)
    | none => true

namespace BrainSnapshot

variable {snapshot : BrainSnapshot} {maxLag : Int}

theorem usable_iff {engineEventSeq : Int} :
    snapshot.usable engineEventSeq maxLag = true ↔
      snapshot.processedEventSeq ≤ engineEventSeq ∧
      engineEventSeq ≤ snapshot.processedEventSeq + maxLag ∧
      ∀ validUntil ∈ snapshot.validUntilSeq, engineEventSeq ≤ validUntil := by
  unfold usable
  cases snapshot.validUntilSeq with
  | none =>
      simp only [Bool.if_false_left, Bool.and_true, Bool.not_eq_true', decide_eq_false_iff_not,
        Option.not_mem_none, false_implies, implies_true, and_true]
      omega
  | some validUntil =>
      simp only [Bool.if_false_left, Bool.and_eq_true, Bool.not_eq_true', decide_eq_false_iff_not,
        Option.mem_some_iff, forall_eq']
      omega

/-- **A snapshot that the log has left behind** is never used again. -/
theorem unusable_later {now later : Int} (hseen : snapshot.processedEventSeq ≤ now)
    (hlater : now ≤ later) (hunusable : snapshot.usable now maxLag = false) :
    snapshot.usable later maxLag = false := by
  refine Bool.eq_false_iff.mpr (fun husable => Bool.eq_false_iff.mp hunusable ?_)
  obtain ⟨_, hlag, hvalid⟩ := usable_iff.mp husable
  exact usable_iff.mpr
    ⟨hseen, hlater.trans hlag, fun validUntil h => hlater.trans (hvalid validUntil h)⟩

end BrainSnapshot

/-! ## The consumer -/

structure FlyConsumerState where
  lastReceivedSequence : Int := 0
  lastProcessedSequence : Int := 0
  state : String := "OFFLINE"

namespace FlyConsumerState

/-- `lag` -/
def lag (fly : FlyConsumerState) (latestAllowedSequence : Int) : Int :=
  max 0 (latestAllowedSequence - fly.lastProcessedSequence)

/-- `receive` -/
def receive (fly : FlyConsumerState) (sequence : Int) : FlyConsumerState :=
  { fly with lastReceivedSequence := max fly.lastReceivedSequence sequence }

/-- `processed` -/
def processed (fly : FlyConsumerState) (sequence : Int) : FlyConsumerState :=
  let lastProcessed := max fly.lastProcessedSequence sequence
  { fly with
    lastProcessedSequence := lastProcessed
    state := if fly.lastReceivedSequence ≤ lastProcessed then "LIVE" else "LAGGING" }

/-- Everything that was received is processed. -/
def CaughtUp (fly : FlyConsumerState) : Prop := fly.lag fly.lastReceivedSequence = 0

theorem caughtUp_iff {fly : FlyConsumerState} :
    fly.CaughtUp ↔ fly.lastReceivedSequence ≤ fly.lastProcessedSequence := by
  unfold CaughtUp lag
  omega

/-- What is shown is right when it is computed. -/
theorem processed_live (fly : FlyConsumerState) (sequence : Int) :
    (fly.processed sequence).state = "LIVE" ↔ (fly.processed sequence).CaughtUp := by
  rw [caughtUp_iff]
  unfold processed
  dsimp only
  split
  · rename_i hle
    exact ⟨fun _ => hle, fun _ => rfl⟩
  · rename_i hlt
    exact ⟨fun h => absurd h (by decide), fun h => absurd h hlt⟩

/-- A snapshot of what the consumer has processed is usable as long as its lag is allowed. -/
theorem usable_snapshot (fly : FlyConsumerState) {sequence maxLag : Int}
    (hseen : fly.lastProcessedSequence ≤ sequence) :
    BrainSnapshot.usable { processedEventSeq := fly.lastProcessedSequence } sequence maxLag = true ↔
      fly.lag sequence ≤ maxLag := by
  rw [BrainSnapshot.usable_iff]
  simp only [Option.not_mem_none, false_implies, implies_true, and_true, lag]
  omega

/-! ## Runs -/

/-- A call of a consumer. -/
inductive FlyCall where
  | receive (sequence : Int)
  | processed (sequence : Int)

def FlyCall.exec (fly : FlyConsumerState) : FlyCall → FlyConsumerState
  | .receive sequence => fly.receive sequence
  | .processed sequence => fly.processed sequence

def FlyCall.received : FlyCall → Option Int
  | .receive sequence => some sequence
  | .processed _ => none

def FlyCall.finished : FlyCall → Option Int
  | .receive _ => none
  | .processed sequence => some sequence

/-- **The marks** are the greatest numbers that came. -/
theorem marks_run (calls : List FlyCall) (fly : FlyConsumerState) :
    (run FlyCall.exec fly calls).lastReceivedSequence
        = (calls.filterMap FlyCall.received).foldl max fly.lastReceivedSequence ∧
      (run FlyCall.exec fly calls).lastProcessedSequence
        = (calls.filterMap FlyCall.finished).foldl max fly.lastProcessedSequence := by
  induction calls generalizing fly with
  | nil => exact ⟨rfl, rfl⟩
  | cons call calls ih =>
      cases call with
      | receive sequence => exact ih (fly.receive sequence)
      | processed sequence => exact ih (fly.processed sequence)

/-- Events may come in any order. -/
theorem marks_of_perm {calls calls' : List FlyCall} (h : calls.Perm calls')
    (fly : FlyConsumerState) (sequence : Int) :
    (run FlyCall.exec fly calls).lag sequence = (run FlyCall.exec fly calls').lag sequence ∧
      ((run FlyCall.exec fly calls).CaughtUp ↔ (run FlyCall.exec fly calls').CaughtUp) := by
  obtain ⟨hreceived, hprocessed⟩ := marks_run calls fly
  obtain ⟨hreceived', hprocessed'⟩ := marks_run calls' fly
  rw [(h.filterMap _).foldl_eq] at hreceived hprocessed
  rw [← hreceived'] at hreceived
  rw [← hprocessed'] at hprocessed
  rw [caughtUp_iff, caughtUp_iff, hreceived, hprocessed, lag, lag, hprocessed]
  exact ⟨rfl, Iff.rfl⟩

/-- Receiving changes neither what was processed nor the state that is shown. -/
theorem run_receives {calls : List FlyCall} (hcalls : ∀ call ∈ calls, call.finished = none)
    (fly : FlyConsumerState) :
    (run FlyCall.exec fly calls).state = fly.state ∧
      (run FlyCall.exec fly calls).lastProcessedSequence = fly.lastProcessedSequence ∧
      fly.lastReceivedSequence ≤ (run FlyCall.exec fly calls).lastReceivedSequence := by
  induction calls generalizing fly with
  | nil => exact ⟨rfl, rfl, le_rfl⟩
  | cons call calls ih =>
      have hlater := fun c hc => hcalls c (List.mem_cons_of_mem call hc)
      cases call with
      | receive sequence =>
          obtain ⟨hstate, hprocessed, hreceived⟩ := ih hlater (fly.receive sequence)
          exact ⟨hstate, hprocessed, (le_max_left _ _).trans hreceived⟩
      | processed sequence => cases hcalls _ List.mem_cons_self

/-- **The state that is shown** is that of the last event that was processed.  It tells whether the
consumer has caught up, except where the consumer had and has received more since. -/
theorem shown_right_iff (fly : FlyConsumerState) (before later : List FlyCall) (sequence : Int)
    (hlater : ∀ call ∈ later, call.finished = none) :
    let then_ := run FlyCall.exec fly (before ++ [.processed sequence])
    let last := run FlyCall.exec fly (before ++ .processed sequence :: later)
    (last.state = "LIVE" ↔ then_.CaughtUp) ∧
      ((last.state = "LIVE" ↔ last.CaughtUp) ↔ (then_.CaughtUp → last.CaughtUp)) := by
  intro then_ last
  have hrun : last = run FlyCall.exec then_ later := by
    show run FlyCall.exec fly (before ++ ([.processed sequence] ++ later)) = _
    rw [← List.append_assoc, run_append]
  obtain ⟨hstate, hprocessed, hreceived⟩ := run_receives hlater then_
  rw [← hrun] at hstate hprocessed hreceived
  have hshown : then_.state = "LIVE" ↔ then_.CaughtUp := by
    have hlast : then_ = (run FlyCall.exec fly before).processed sequence := by
      show run FlyCall.exec fly (before ++ [.processed sequence]) = _
      rw [run_append]
      rfl
    rw [hlast]
    exact (run FlyCall.exec fly before).processed_live sequence
  have hkept : last.CaughtUp → then_.CaughtUp := by
    rw [caughtUp_iff, caughtUp_iff, hprocessed]
    exact hreceived.trans
  rw [hstate, hshown]
  exact ⟨Iff.rfl, ⟨Iff.mp, fun h => ⟨h, hkept⟩⟩⟩

end FlyConsumerState

end LiandanluNative
