/-
# LiandanluNative.Safety.LeaseFencing — what a task lease fences off.

`prepare` and `execute` ask the store whether the lease of a step still stands; the methods of the
task runtime do not.  A step with a lease that was superseded or has run out therefore cannot start
or carry out an operation, but it goes through the motions of a step on its task, and stores them
over the row of a newer holder (`fencing_fails`).  `stale_step_fenced` bounds that: nothing is
executed, no operation and no other task is written, and of the task itself only the runtime state
is.
-/
import LiandanluNative.Safety.WriteAhead

namespace LiandanluNative

open Lib (Table)
open Lib.Proc Lib.WriteThrough

/-- The store holds no row for the lease any more, or one that has run out by the next reading of
the clock: the lease was superseded, released, or has expired. -/
def StaleLease (env : Env) (s : Sys) (lease : TaskLease) : Prop :=
  ∀ row, s.db.taskLeases.get? lease.taskId = some row →
    row.ownerId = lease.ownerId ∧ row.generation = lease.generation →
    row.leaseUntil ≤ env.clock s.clockReads

/-- The tasks agree but for the state, the phase, the reason to wait, and the revision. -/
def Task.RuntimeOnly (old new : Task) : Prop :=
  new = { old with
    state := new.state
    phase := new.phase
    waitReason := new.waitReason
    revision := new.revision }

theorem Task.RuntimeOnly.trans {a b c : Task} (h₁ : a.RuntimeOnly b) (h₂ : b.RuntimeOnly c) :
    a.RuntimeOnly c := by
  unfold RuntimeOnly at *
  rw [h₂, h₁]

/-- The runtime state of one task may change, the world and the resources with it, and nothing else.
-/
def Allowance.fenced (taskId : String) : Allowance where
  task := fun id m t => id = taskId ∧ ∃ old, m = some old ∧ old.RuntimeOnly t
  operation := fun _ _ _ => False
  world := fun _ _ => True
  resources := True
  leases := False
  invoke := fun _ => False

theorem Allowance.fenced_closed (taskId : String) : (Allowance.fenced taskId).Closed where
  task := by
    rintro id m v w ⟨hid, old, hm, hv⟩ ⟨_, v', hsome, hw⟩
    cases hsome
    exact ⟨hid, old, hm, hv.trans hw⟩
  operation := fun _ _ _ _ h _ => h
  world := fun _ _ _ _ _ => trivial

theorem stepWithin_fenced (env : Env) (taskId : String) :
    StepWithin (Moves (.fenced taskId)) env taskId := by
  have htask : ∀ old new : Task, old.RuntimeOnly new →
      (Allowance.fenced taskId).task taskId (some old) new :=
    fun old new h => ⟨rfl, old, rfl, h⟩
  refine stepWithin_moves (Allowance.fenced_closed taskId) env ⟨?_, ?_, fun _ => trivial⟩ ?_ ?_ ?_
    trivial
  · exact fun t => htask _ _ rfl
  · exact fun t => htask _ _ rfl
  · exact fun t reason => htask _ _ rfl
  · exact fun t state phase _ => htask _ _ rfl
  · intro t
    refine htask _ _ ?_
    unfold Task.RuntimeOnly Task.settled
    split
    · rfl
    · split <;> rfl

section

variable {env : Env} {s : Sys} {taskId : String} {lease : TaskLease}

/-- The store's answer about a stale lease is no, at any later reading of the clock. -/
theorem StaleLease.not_checked (hclock : Monotone env.clock) (hstale : StaleLease env s lease)
    {v w : Sys} (hleases : v.db.taskLeases = s.db.taskLeases)
    (hlater : s.clockReads ≤ v.clockReads) :
    ¬ CheckedBetween env v w
      (v.db.validateTaskLeaseIdentity lease.taskId lease.ownerId lease.generation) := by
  rintro ⟨n, hn, _, hvalid⟩
  obtain ⟨row, hrow, hheld, hlive⟩ := Database.validateTaskLeaseIdentity_iff.mp hvalid
  rw [hleases] at hrow
  have hexpired := hstale row hrow hheld
  have hpassed : env.clock s.clockReads ≤ env.clock n := hclock (hlater.trans hn)
  exact absurd (hexpired.trans hpassed) (not_le.mpr hlive)

/-- A step with a stale lease never gets past the lease check of `prepare`. -/
theorem stale_step_moves (hstore : s.persistent = true) (hclock : Monotone env.clock)
    (hstale : StaleLease env s lease) (runner : Runner) (manifest : ContextManifest) :
    Moves (.fenced taskId) s (after (step env runner taskId manifest (some lease)) s) := by
  have hA := Allowance.fenced_closed taskId
  have hF := Moves.frame hA
  have hstep := stepWithin_fenced env taskId
  refine step_within hF hF (fun _ _ h => h) hstep
    (fun v proposal spec expectedRevisions resourceLease hauth => ?_)
  have hpersistent : v.persistent = true := hauth.reached.persistent.trans hstore
  have hleases : v.db.taskLeases = s.db.taskLeases := hauth.reached.taskLeases.resolve_left id
  have hrefused : ∀ w, ¬ (lease.taskId = taskId ∧ (v.persistent = true →
      CheckedBetween env v w
        (v.db.validateTaskLeaseIdentity taskId lease.ownerId lease.generation))) := by
    rintro w ⟨rfl, hchecked⟩
    exact hstale.not_checked hclock hleases hauth.reached.clockReads (hchecked hpersistent)
  refine stepAct_within hF hstep ?_ (fun operationId t u hprepare _ => ?_)
  · cases prepare_cases env taskId proposal expectedRevisions (some lease) resourceLease v with
    | refused hmoves => exact hmoves _
    | opened task spec w hfound hreads htaken hleased hstarted =>
        exact absurd (hleased lease rfl) (hrefused w)
  · obtain ⟨task, spec, hp⟩ := prepare_eq_ok hprepare
    exact absurd (hp.lease lease rfl) (hrefused t)

end

/-- **A stale lease fences execution.**  A step in an engine on a store, with a task lease that is
superseded or expired when the step begins, calls no capability and writes no operation, no task
lease and no other task.  The row of its task stays, or becomes the runner's own copy of the task as
it was, with another state, phase, reason to wait and revision. -/
theorem stale_step_fenced (env : Env) (hclock : Monotone env.clock) (runner : Runner)
    (taskId : String) (manifest : ContextManifest) (lease : TaskLease) (s : Sys)
    (hstore : s.persistent = true) (hstale : StaleLease env s lease) :
    let t := after (step env runner taskId manifest (some lease)) s
    t.invocations = s.invocations ∧
    (∀ id, t.db.operations.get? id = s.db.operations.get? id) ∧
    t.db.taskLeases = s.db.taskLeases ∧
    (∀ id, id ≠ taskId → t.db.tasks.get? id = s.db.tasks.get? id) ∧
    (t.db.tasks.get? taskId = s.db.tasks.get? taskId ∨
      ∃ old new, s.tasks.get? taskId = some old ∧ t.db.tasks.get? taskId = some new ∧
        old.RuntimeOnly new) := by
  intro t
  have hmoves : Moves (.fenced taskId) s t := stale_step_moves hstore hclock hstale runner manifest
  refine ⟨hmoves.invocations_eq (fun _ hi => hi), ?_, hmoves.taskLeases.resolve_left id, ?_, ?_⟩
  · exact fun id => ((hmoves.operations id).still (fun _ h => h)).2
  · intro id hid
    exact ((hmoves.tasks id).still (fun _ h => hid h.1)).2
  · rcases (hmoves.tasks taskId).durable with hsame | ⟨v, row, hrow, ⟨_, old, hold, hv⟩, rfl⟩
    · exact Or.inl hsame
    · exact Or.inr ⟨old, v, hold, hrow, hv⟩

/-- The task has been claimed, released, and claimed again by another worker. -/
def reclaimed : Sys :=
  runCalls Small.env Small.start
    [.claimNext "worker" 60, .releaseLease Small.lease, .claimNext "other" 60]

theorem stale_reclaimed : StaleLease Small.env reclaimed Small.lease := by
  intro row hrow hheld
  have howner : (reclaimed.db.taskLeases.get? "t").map TaskLease.ownerId = some "other" := by
    decide +kernel
  change reclaimed.db.taskLeases.get? "t" = some row at hrow
  rw [hrow, Option.map_some, hheld.1] at howner
  exact absurd howner (by decide)

/-- The row of the task does not stay as it was: the first worker moves the task of the other. -/
theorem fencing_fails :
    ¬ ∀ (env : Env) (runner : Runner) (taskId : String) (manifest : ContextManifest)
        (lease : TaskLease) (s : Sys), Monotone env.clock → s.persistent = true →
      StaleLease env s lease →
      (after (step env runner taskId manifest (some lease)) s).db.tasks.get? taskId
        = s.db.tasks.get? taskId := by
  intro h
  have hsame := h Small.env Small.runner "t" Small.manifest Small.lease reclaimed
    (fun _ _ _ => le_rfl) (by decide +kernel) stale_reclaimed
  have hbefore : (reclaimed.db.tasks.get? "t").map Task.state = some .queued := by
    decide +kernel
  have hafter : ((after (step Small.env Small.runner "t" Small.manifest (some Small.lease))
      reclaimed).db.tasks.get? "t").map Task.state = some .waiting := by
    decide +kernel
  rw [hsame, hbefore] at hafter
  exact absurd hafter (by decide)

theorem stale_step_fenced_reclaimed :
    (after (step Small.env Small.runner "t" Small.manifest (some Small.lease))
      reclaimed).invocations = reclaimed.invocations ∧
    (after (step Small.env Small.runner "t" Small.manifest (some Small.lease))
      reclaimed).db.taskLeases = reclaimed.db.taskLeases := by
  have hfenced := stale_step_fenced Small.env (fun _ _ _ => le_rfl) Small.runner "t" Small.manifest
    Small.lease reclaimed (by decide +kernel) stale_reclaimed
  exact ⟨hfenced.1, hfenced.2.2.1⟩

end LiandanluNative
