/-
# LiandanluNative.Safety.HaltedTasks — a task that was stopped acts no more.

A task is halted once the store has that it should pause or be cancelled.  Whatever is called after
that, in whatever order, with the process ending anywhere: as long as nobody asks the task to go on,
and none of its operations is handed to `execute` by itself, `capability.execute` is not called on
its behalf (`halted_acts_no_more`).  A single call keeps the task halted and adds nothing
(`Call.quiet`).

Operations the task had begun are still settled: a recovery calls `reconcile` and `verify` for them,
which ask about the effect and make none.
-/
import LiandanluNative.Runtime.Upkeep
import LiandanluNative.Safety.WaitReasons

namespace LiandanluNative

open Lib (Table)
open Lib.Proc Lib.WriteThrough

/-! ## Halted tasks -/

/-- The task should pause or be cancelled. -/
def Task.Halted (t : Task) : Prop := t.desiredState ∈ [.paused, .cancelled]

/-- The task is halted, if it is this one. -/
def Task.HaltedAs (taskId : String) (t : Task) : Prop := t.taskId = taskId → t.Halted

/-- The task is halted in memory and in the store, and its id is not given out again. -/
structure Sys.Halted (env : Env) (s : Sys) (taskId : String) : Prop where
  memory : ∀ t ∈ s.tasks.rows, t.HaltedAs taskId
  rows : ∀ t ∈ s.db.tasks.rows, t.HaltedAs taskId
  taken : ∀ n, s.ids ≤ n → taskId ≠ env.newId "task" n

/-- The call does not ask the task to go on, and executes none of its operations. -/
def Call.LeavesHalted (taskId : String) (s : Sys) : Call → Prop
  | .queue id => id ≠ taskId
  | .submit id => id ≠ taskId
  | .control id desired => id ≠ taskId ∨ desired ∈ [.paused, .cancelled]
  | .execute operationId => ∀ op, s.operations.get? operationId = some op → op.taskId ≠ taskId
  | _ => True

/-- From a state where the task is halted it stays so, and nothing is called on its behalf. -/
def Quiet (env : Env) (taskId : String) (s t : Sys) : Prop :=
  s.Halted env taskId → t.Halted env taskId ∧
    ∃ made, t.invocations = s.invocations ++ made ∧ ∀ i ∈ made, i.op.taskId ≠ taskId

theorem Quiet.frame (env : Env) (taskId : String) : Frame (Quiet env taskId) where
  refl s hs := ⟨hs, [], (List.append_nil _).symm, fun _ hi => absurd hi List.not_mem_nil⟩
  trans := by
    intro s t u hst htu hs
    obtain ⟨ht, made, hmade, hothers⟩ := hst hs
    obtain ⟨hu, made', hmade', hothers'⟩ := htu ht
    refine ⟨hu, made ++ made', ?_, fun i hi => ?_⟩
    · rw [hmade', hmade, List.append_assoc]
    · rcases List.mem_append.mp hi with hi | hi
      · exact hothers i hi
      · exact hothers' i hi

/-! ## What the methods do to it -/

/-- A halted task stays halted, and `capability.execute` is called on behalf of others only. -/
def Allowance.quiet (taskId : String) : Allowance :=
  { Allowance.upholding (Task.HaltedAs taskId) with invoke := fun i => i.op.taskId ≠ taskId }

theorem Allowance.quiet_closed (taskId : String) : (Allowance.quiet taskId).Closed :=
  { (Allowance.upholding_closed (Task.HaltedAs taskId)) with }

section

variable {env : Env} {taskId : String} {s t : Sys}

theorem Moves.quiet (h : Moves (.quiet taskId) s t) : Quiet env taskId s t := by
  intro hs
  have hupholding : Moves (.upholding (Task.HaltedAs taskId)) s t :=
    h.mono ⟨fun _ _ _ ht => ht, fun _ _ _ _ => trivial, fun _ _ _ => trivial, fun _ => trivial,
      fun _ => trivial, fun _ _ => trivial⟩
  obtain ⟨hmemory, hrows⟩ := hupholding.upholds (fun _ ht => ht) hs.memory hs.rows
  exact ⟨⟨hmemory, hrows, fun n hn => hs.taken n (h.ids.trans hn)⟩, h.invocations⟩

/-- An assignment that leaves the desired state as it is. -/
theorem quiet_of_same {id : String} {t new : Task} (hid : new.taskId = t.taskId)
    (hdesired : new.desiredState = t.desiredState) :
    (Allowance.quiet taskId).task id (some t) new := by
  intro hold htask
  show new.desiredState ∈ _
  rw [hdesired]
  exact hold t rfl (hid.symm.trans htask)

/-- An assignment to another task. -/
theorem quiet_of_other {id : String} {t new : Task} (hget : s.tasks.get? id = some t)
    (hother : id ≠ taskId) (hid : new.taskId = t.taskId := by rfl) :
    (Allowance.quiet taskId).task id (some t) new := by
  intro _ htask
  refine absurd ?_ hother
  rw [← Table.key_of_get? hget, ← hid, htask]

theorem settled_desiredState (t : Task) (safeBoundary externalCancelConfirmed : Bool) :
    (t.settled safeBoundary externalCancelConfirmed).taskId = t.taskId ∧
      (t.settled safeBoundary externalCancelConfirmed).desiredState = t.desiredState := by
  rw [settled_eq]
  exact ⟨rfl, rfl⟩

theorem evaluated_desiredState (t : Task) (claims : List (String × GoalClaim)) :
    (t.evaluated claims).taskId = t.taskId ∧
      (t.evaluated claims).desiredState = t.desiredState := by
  unfold Task.evaluated
  split <;> exact ⟨rfl, rfl⟩

theorem Allowance.quiet_works (taskId id : String) : (Allowance.quiet taskId).Works id where
  keep _ := quiet_of_same rfl rfl
  bump _ := quiet_of_same rfl rfl
  world _ := trivial
  wait _ _ := quiet_of_same rfl rfl
  update _ _ _ _ := quiet_of_same rfl rfl
  settle t := quiet_of_same (settled_desiredState t true false).1 (settled_desiredState t true false).2
  start _ := quiet_of_same rfl rfl

/-- A step on a halted task settles it, or does not get so far. -/
theorem quiet_step_halted (runner : Runner) (manifest : ContextManifest)
    (taskLease : Option TaskLease) (hs : s.Halted env taskId) :
    Moves (.quiet taskId) s (after (step env runner taskId manifest taskLease) s) := by
  have hA := Allowance.quiet_closed taskId
  have hF := Moves.frame hA
  have hworks := Allowance.quiet_works taskId taskId
  unfold step
  refine hF.bind_at (within_getTask hF taskId s) (fun task u hu => ?_)
  obtain ⟨htask, rfl⟩ := getTask_eq_ok.mp hu
  refine hF.bind_at (hF.get u) (fun v w hv => ?_)
  cases hv
  split
  · exact within_raise hF _ u
  split
  · exact within_raise hF _ u
  split
  · exact moves_waitTask hA env hworks.toTouches _ _ (fun t _ => hworks.wait t _)
  have hdesired : task.desiredState ∈ [.paused, .cancelled] :=
    hs.memory task (Table.mem_of_get? htask) (Table.key_of_get? htask)
  rw [if_pos hdesired]
  exact moves_settleControl hA env hworks.toTouches true false (fun t _ _ => hworks.settle t)

/-- What a step on another task executes is an operation of that task. -/
theorem quiet_step_other {id : String} (hother : id ≠ taskId) (runner : Runner)
    (manifest : ContextManifest) (taskLease : Option TaskLease) :
    Moves (.quiet taskId) s (after (step env runner id manifest taskLease) s) := by
  have hA := Allowance.quiet_closed taskId
  have hF := Moves.frame hA
  have hworks := Allowance.quiet_works taskId id
  have hstep := stepWithin_moves hA env hworks.toTouches hworks.wait hworks.update hworks.settle
    trivial
  refine step_within hF hF (fun _ _ h => h) hstep
    (fun v proposal spec expectedRevisions resourceLease _ => ?_)
  refine stepAct_within hF hstep (moves_prepare hA env hworks (fun _ _ _ => trivial) _ _ _ _ v) ?_
  intro operationId t u hprepare hupdate
  obtain ⟨task, spec', hp⟩ := prepare_eq_ok hprepare
  have htu := ((stepWithin_taskwork env id).update _ _ _ _ (by decide)).of_ok hupdate
  have hkept : u.operations.get? operationId = t.operations.get? operationId :=
    ((htu.operations operationId).still (fun _ hno => hno)).1
  refine moves_executeOperation hA env (fun _ _ _ => trivial) (fun op locators w x hop _ _ => ?_)
  rw [hkept, hp.operation] at hop
  cases hop
  show task.taskId ≠ taskId
  rw [Table.key_of_get? hp.found]
  exact hother

/-- **Every call leaves a halted task halted, and quiet.** -/
theorem Call.quiet {call : Call} (hcall : call.LeavesHalted taskId s) :
    Quiet env taskId s (call.exec env s) := by
  have hA := Allowance.quiet_closed taskId
  have hworks := Allowance.quiet_works taskId
  intro hs
  -- a call that makes no effect is quiet if what it assigns is
  have hsupporting : ∀ call : Call, call.supporting → (Allowance.quiet taskId).Permits call →
      (call.exec env s).Halted env taskId ∧ ∃ made,
        (call.exec env s).invocations = s.invocations ++ made ∧ ∀ i ∈ made, i.op.taskId ≠ taskId := by
    intro call hsupporting hpermits
    exact Moves.quiet (moves_call hA env (fun id => (hworks id).toTouches) (fun _ _ => trivial)
      trivial (fun _ => moves_recoverOperation hA env (fun _ _ _ => trivial) (fun _ _ => trivial)) s
      hsupporting hpermits) hs
  cases call with
  | createTask goal successCriteria workspaceId constraints lane priority budget =>
      refine Moves.quiet (moves_createTask_at hA env goal successCriteria workspaceId constraints lane
        priority budget (fun _ => trivial) (fun m t hid _ _ _ htask => ?_)
        (fun id => (hworks id).keep)) hs
      exact absurd (htask.symm.trans hid) (hs.taken s.ids le_rfl)
  | prepare id proposal expectedRevisions taskLease resourceLease =>
      exact Moves.quiet (moves_prepare hA env (hworks id) (fun _ _ _ => trivial) proposal
        expectedRevisions taskLease resourceLease s) hs
  | execute operationId =>
      exact Moves.quiet (moves_executeOperation hA env (fun _ _ _ => trivial)
        (fun op locators v u hop _ _ => hcall op hop)) hs
  | step runner id manifest taskLease =>
      -- a step of the halted task stops before its effect, and one of another task is about that
      by_cases hid : id = taskId
      · subst hid
        exact Moves.quiet (quiet_step_halted runner manifest taskLease hs) hs
      · exact Moves.quiet (quiet_step_other hid runner manifest taskLease) hs
  -- a restart loads the task as its row has it
  | restart registry capabilities broker =>
      exact ⟨⟨hs.rows, hs.rows, hs.taken⟩, [], (List.append_nil _).symm,
        fun _ hi => absurd hi List.not_mem_nil⟩
  | queue id =>
      exact Moves.quiet (moves_queueTask hA env (hworks id).toTouches
        (fun t at_ hget _ => quiet_of_other hget hcall)) hs
  | submit id =>
      exact Moves.quiet (moves_submitTask hA env (hworks id).toTouches
        (fun t at_ hget _ => quiet_of_other hget hcall)) hs
  | control id desired =>
      refine Moves.quiet (moves_controlTask hA env (hworks id).toTouches desired
        (fun t hget _ => ?_)) hs
      rcases hcall with hother | hdesired
      · exact quiet_of_other hget hother
      · exact fun _ _ => hdesired
  | settleControl id safeBoundary externalCancelConfirmed =>
      refine hsupporting _ trivial (fun t => ?_)
      exact quiet_of_same (settled_desiredState t safeBoundary externalCancelConfirmed).1
        (settled_desiredState t safeBoundary externalCancelConfirmed).2
  | evaluateGoal id claims =>
      refine hsupporting _ trivial (fun t => ?_)
      exact quiet_of_same (evaluated_desiredState t claims).1 (evaluated_desiredState t claims).2
  | recover => exact hsupporting _ trivial (fun id t => (hworks id).settle t)
  | wait id reason eventType => exact hsupporting _ trivial (fun t => quiet_of_same rfl rfl)
  | updateRuntimeState id state phase eventType actor =>
      exact hsupporting _ trivial (fun t => quiet_of_same rfl rfl)
  | _ => exact hsupporting _ trivial trivial

end

/-! ## Runs -/

namespace Sys.Halted

variable {env : Env} {taskId : String}

/-- A whole run leaves the task halted, and quiet. -/
theorem run {calls : List Call} : ∀ {s : Sys},
    Along env (fun s call => call.LeavesHalted taskId s) s calls →
    Quiet env taskId s (runCalls env s calls) := by
  induction calls with
  | nil => exact fun _ => (Quiet.frame env taskId).refl _
  | cons call calls ih =>
      rintro s ⟨hcall, hcalls⟩
      exact (Quiet.frame env taskId).trans (Call.quiet hcall) (ih hcalls)

/-- **A request to pause or to cancel** a live task halts it, once it returns. -/
theorem of_control {s : Sys} {task : Task} {desired : TaskState} (hpersistent : s.persistent = true)
    (hget : s.tasks.get? taskId = some task) (hlive : task.state.terminal = false)
    (hdesired : desired ∈ [.paused, .cancelled])
    (htaken : ∀ n, s.ids ≤ n → taskId ≠ env.newId "task" n) :
    Ends (fun _ t => t.Halted env taskId) (fun _ _ => True) (controlTask env taskId desired) s := by
  let new := task.controlled desired
  have hid : task.taskId = taskId := Table.key_of_get? hget
  have hput : ∀ (table : Table Task.taskId), ∀ t ∈ (table.put new.touched).rows,
      t.HaltedAs taskId := by
    intro table t ht htask
    rcases Table.mem_put.mp ht with rfl | ⟨_, hother⟩
    · exact hdesired
    · exact absurd (htask.trans hid.symm) hother
  unfold controlTask
  refine Ends.bind (ends_getTask (fun found hfound => ?_) (fun hnone => trivial))
  cases hget.symm.trans hfound
  rw [if_neg (by rw [hlive]; exact Bool.false_ne_true)]
  refine ends_change hpersistent new hid (PyVal.jsonDumpsItems_payload (by simp [PyVal.jsonDumps]))
    trivial (fun column hcolumn => ⟨?_, trivial⟩)
  exact ⟨hput _, hput _, fun n hn => htaken n ((Nat.le_succ _).trans hn)⟩

end Sys.Halted

/-- **A halted task acts no more.**  Take any engine on a store, and a task of it that is not at its
end.  Once a request to pause or to cancel the task has returned, take any run of calls and
restarts, the process ending anywhere, in which nobody asks the task to go on and none of its
operations is handed to `execute` by itself; steps on the task may well be called.  Then
`capability.execute` is not called on behalf of the task. -/
theorem halted_acts_no_more (env : Env) (s t : Sys) (taskId : String) (task : Task)
    (desired : TaskState) (hpersistent : s.persistent = true)
    (hget : s.tasks.get? taskId = some task) (hlive : task.state.terminal = false)
    (hdesired : desired ∈ [.paused, .cancelled])
    (htaken : ∀ n, s.ids ≤ n → taskId ≠ env.newId "task" n)
    (hasked : controlTask env taskId desired s = .ok () t) (calls : List Call)
    (hcalls : Along env (fun s call => call.LeavesHalted taskId s) t calls) :
    (runCalls env t calls).Halted env taskId ∧
      ∃ made, (runCalls env t calls).invocations = t.invocations ++ made ∧
        ∀ i ∈ made, i.op.taskId ≠ taskId :=
  Sys.Halted.run hcalls
    ((Sys.Halted.of_control hpersistent hget hlive hdesired htaken).returned hasked)

/-- The task is claimed and paused; a step is called, and another one after a restart. -/
def pausedThenStepped : List Call :=
  [.step Small.runner "t" Small.manifest (some Small.lease),
    .restart Small.start.registry ["editor"] none, .recover,
    .step Small.runner "t" Small.manifest (some Small.lease)]

/-- Without the request, both steps would have read the document. -/
theorem halted_acts_no_more_paused :
    let claimed := (Call.claimNext "worker" 60).exec Small.env Small.start
    let paused := after (controlTask Small.env "t" .paused) claimed
    (∃ made, (runCalls Small.env paused pausedThenStepped).invocations = paused.invocations ++ made ∧
        ∀ i ∈ made, i.op.taskId ≠ "t") ∧
      (runCalls Small.env paused pausedThenStepped).invocations.length = 0 ∧
      (runCalls Small.env claimed pausedThenStepped).invocations.length = 2 := by
  refine ⟨?_, by decide +kernel, by decide +kernel⟩
  refine (halted_acts_no_more Small.env ((Call.claimNext "worker" 60).exec Small.env Small.start) _ "t"
    Small.task .paused rfl rfl rfl (by decide) (fun n _ heq => ?_) rfl pausedThenStepped
    ⟨trivial, trivial, trivial, trivial, trivial⟩).2
  have hlength : "t".length = "task_".length + (Small.env.uuid n).length := by
    simpa [Env.newId] using congrArg String.length heq
  have hshort : "t".length < "task_".length := by decide
  omega

end LiandanluNative
