/-
# LiandanluNative.Runtime.Standing — what a task does, and what it is asked to do.

The two fields of a task that its control is about.  A method assigns them at most once, before
anything of it can fail, and what comes after leaves them alone; so where a method leaves them can
be told from the task it found (`control_stands`, …), whether it returns, raises, or ends with the
process.
-/
import LiandanluNative.Runtime.ExecutionMoves

namespace LiandanluNative

open Lib (Table)
open Lib.Proc Lib.WriteThrough

/-- The state a task is in and the state it is asked to be in. -/
def Task.standing (t : Task) : TaskState × TaskState := (t.state, t.desiredState)

/-- The runtime holds the task with that standing. -/
def Stands (s : Sys) (taskId : String) (standing : TaskState × TaskState) : Prop :=
  ∃ t, s.tasks.get? taskId = some t ∧ t.standing = standing

/-- The state of the task as the runtime holds it. -/
def taskState (taskId : String) (s : Sys) : Option TaskState :=
  (s.tasks.get? taskId).map Task.state

/-- Whoever knows both knows the state. -/
theorem Stands.taskState {s : Sys} {taskId : String} {standing : TaskState × TaskState}
    (h : Stands s taskId standing) : taskState taskId s = some standing.1 := by
  obtain ⟨t, hget, rfl⟩ := h
  rw [LiandanluNative.taskState, hget]
  rfl

/-- Anything may happen, but the task keeps its standing. -/
def Allowance.standing (taskId : String) : Allowance :=
  { Allowance.free with
    task := fun id m t => id = taskId → ∀ old, m = some old → t.standing = old.standing }

/-- The allowance to leave both as they are composes, and any task may be left alone. -/
theorem Allowance.standing_closed (taskId : String) : (Allowance.standing taskId).Closed where
  task := fun _ _ v _ hv hw hid old hm => (hw hid v rfl).trans (hv hid old hm)
  operation := fun _ _ _ _ _ _ => trivial
  world := fun _ _ _ _ _ => trivial

/-- Raising the revision is within it. -/
theorem Allowance.standing_touches (taskId id : String) :
    (Allowance.standing taskId).Touches id where
  keep := by
    rintro t _ _ ⟨⟩
    rfl
  bump := by
    rintro t _ _ ⟨⟩
    rfl
  world := fun _ => trivial

/-- **What moves within it** leaves the task standing as it did. -/
theorem Moves.stands {s t : Sys} {taskId : String} {standing : TaskState × TaskState}
    (h : Moves (.standing taskId) s t) (hs : Stands s taskId standing) :
    Stands t taskId standing := by
  refine (h.tasks taskId).keeps_memory (K := fun t => t.standing = standing) ?_ hs
  intro v w hv hw
  exact (hw rfl v rfl).trans hv

section

variable (env : Env) {s : Sys} {taskId : String}

/-- What is assigned to a task stands, whatever becomes of the transaction that stores it. -/
theorem change_stands (new : Task) {task : Task} (hget : s.tasks.get? taskId = some task)
    (hid : new.taskId = task.taskId) (eventType actor : String)
    (payload : List (PyKey × PyVal)) :
    Stands (after (setTask new >>= fun _ => touchTask env taskId >>= fun _ =>
      recordTask env taskId eventType actor payload) s) taskId new.standing := by
  have hA := Allowance.standing_closed taskId
  have htouch := Allowance.standing_touches taskId taskId
  have hrest : Within (Moves (.standing taskId)) (touchTask env taskId >>= fun _ =>
      recordTask env taskId eventType actor payload) :=
    (Moves.frame hA).bind (moves_touchTask hA env htouch)
      (fun _ => moves_recordTask hA env htouch.keep _ _ _)
  have hput : Stands { s with tasks := s.tasks.put new } taskId new.standing := by
    refine ⟨new, ?_, rfl⟩
    rw [Table.get?_put, if_pos (hid.trans (Table.key_of_get? hget))]
  exact (hrest _).stands hput

/-- **A control request**: CANCELLED and PAUSED make a live task CANCELLING or PAUSING, and a
terminal one is not asked. -/
theorem control_stands {task : Task} (hget : s.tasks.get? taskId = some task) (desired : TaskState) :
    Stands (after (controlTask env taskId desired) s) taskId
      (if task.state.terminal then task.standing else (task.controlled desired).standing) := by
  unfold controlTask
  rw [after_found hget]
  by_cases hdone : task.state.terminal = true
  · rw [if_pos hdone, if_pos hdone]
    exact ⟨task, hget, rfl⟩
  · rw [if_neg hdone, if_neg hdone]
    exact change_stands env (task.controlled desired) hget rfl _ _ _

/-- **Queueing** forgets a request to pause, as the task is asked to run. -/
theorem queue_stands {task : Task} (hget : s.tasks.get? taskId = some task) :
    Stands (after (queueTask env taskId) s) taskId
      (if task.state.terminal then task.standing else (.queued, .running)) := by
  unfold queueTask
  rw [after_found hget]
  by_cases hdone : task.state.terminal = true
  · rw [if_pos hdone, if_pos hdone]
    exact ⟨task, hget, rfl⟩
  · have hread : readClock env s
        = .ok (env.clock s.clockReads) { s with clockReads := s.clockReads + 1 } := rfl
    have hnow : ({ s with clockReads := s.clockReads + 1 } : Sys).tasks.get? taskId = some task :=
      hget
    rw [if_neg hdone, if_neg hdone, after_bind_ok hread]
    exact change_stands env (task.queued _) hnow rfl _ _ _

/-- **Settling** goes by the state in which it finds the task, the boundary and the confirmation. -/
theorem settle_stands {task : Task} (hget : s.tasks.get? taskId = some task)
    (safeBoundary externalCancelConfirmed : Bool) :
    Stands (after (settleControl env taskId safeBoundary externalCancelConfirmed) s) taskId
      (task.settled safeBoundary externalCancelConfirmed).standing := by
  unfold settleControl
  rw [after_found hget]
  dsimp only
  split
  · exact change_stands env _ hget (settled_taskId _ _ _) _ _ _
  · rename_i hsame
    refine ⟨task, hget, ?_⟩
    rw [settled_eq, not_ne_iff.mp hsame]

/-- Submitting is queueing, as far as the task goes. -/
theorem submit_stands {task : Task} (hget : s.tasks.get? taskId = some task) :
    Stands (after (submitTask env taskId) s) taskId
      (if task.state.terminal then task.standing else (.queued, .running)) := by
  have hqueue := queue_stands env hget
  unfold submitTask
  refine after_bind (P := (Stands · taskId _)) (fun e t ht => ?_) (fun _ t ht => ?_)
  · rwa [after_of_error ht] at hqueue
  · rw [after_of_ok ht] at hqueue
    exact (moves_pushTask (Allowance.standing_closed taskId) env t).stands hqueue

/-- **Waiting** takes the task out of PAUSING and CANCELLING and leaves it asked. -/
theorem wait_stands {task : Task} (hget : s.tasks.get? taskId = some task)
    (reason eventType : String) :
    Stands (after (waitTask env taskId reason eventType) s) taskId
      (.waiting, task.desiredState) := by
  unfold waitTask
  rw [after_found hget]
  exact change_stands env (task.waiting reason) hget rfl _ _ _

/-- **Updating** does the same with whatever state it is given, or only sets a phase. -/
theorem update_stands {task : Task} (hget : s.tasks.get? taskId = some task)
    (state : Option TaskState) (phase : Option TaskPhase) (eventType actor : String) :
    Stands (after (updateRuntimeState env taskId state phase eventType actor) s) taskId
      (state.getD task.state, task.desiredState) := by
  unfold updateRuntimeState
  rw [after_found hget]
  dsimp only
  split
  · exact change_stands env (task.updated state phase) hget rfl _ _ _
  · rename_i hsame
    refine ⟨task, hget, ?_⟩
    have hstate : state.getD task.state = task.state := by
      by_contra hne
      exact hsame (Or.inl hne)
    rw [hstate]
    rfl

/-- **Evaluating** assigns by the criteria, as `Task.evaluated` has it. -/
theorem evaluate_stands {task : Task} (hget : s.tasks.get? taskId = some task)
    (claims : List (String × GoalClaim)) :
    Stands (after (evaluateGoal env taskId claims) s) taskId (task.evaluated claims).standing := by
  unfold evaluateGoal
  rw [after_found hget]
  exact change_stands env _ hget (evaluated_taskId _ _) _ _ _

end

end LiandanluNative
