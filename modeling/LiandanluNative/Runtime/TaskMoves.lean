/-
# LiandanluNative.Runtime.TaskMoves — how the methods of `TaskRuntime` move a task.

Every one of them assigns to the task, touches its revision and records the event; `moves_change`
says so once.  A method is then within an allowance as soon as its assignment is, from the task as
the method finds it.

Each lemma therefore has one hypothesis on the assignment, with all that the method has checked by
then (that the task is not terminal, that its state changes), and the theorems about tasks (which
states are final, which are reached from which, who may wait) prove that hypothesis for their own
allowance and nothing else.
-/
import LiandanluNative.Runtime.Moves

namespace LiandanluNative

open Lib (Table)
open Lib.Proc Lib.WriteThrough

/-- The revision of the task may be bumped, and the task stored. -/
structure Allowance.Touches (A : Allowance) (taskId : String) : Prop where
  keep : ∀ t, A.task taskId (some t) t
  bump : ∀ t : Task, A.task taskId (some t) { t with revision := t.revision + 1 }
  world : ∀ w : WorldModel, A.world w { w with revisions := w.revisions.bumpTasks }

/-- Settling a control changes the state of a task at most. -/
theorem settled_eq (task : Task) (safeBoundary externalCancelConfirmed : Bool) :
    task.settled safeBoundary externalCancelConfirmed
      = { task with state := (task.settled safeBoundary externalCancelConfirmed).state } := by
  unfold Task.settled
  split
  · rfl
  · split <;> rfl

/-- No assignment of `TaskRuntime` changes which task it is. -/
theorem settled_taskId (task : Task) (safeBoundary externalCancelConfirmed : Bool) :
    (task.settled safeBoundary externalCancelConfirmed).taskId = task.taskId := by
  rw [settled_eq]

theorem evaluated_taskId (task : Task) (claims : List (String × GoalClaim)) :
    (task.evaluated claims).taskId = task.taskId := by
  unfold Task.evaluated
  split <;> rfl

section

variable {A : Allowance} (hA : A.Closed) (env : Env) {s : Sys} {taskId : String}

/-- A task is assigned as a whole, so the allowance is asked once about the old one and the new. -/
theorem moves_setTask {task : Task}
    (h : A.task task.taskId (s.tasks.get? task.taskId) task) : Moves A s (after (setTask task) s) :=
  { Moves.refl with tasks := TablesMoved.put h }

include hA

/-- **Recording** writes the task as memory has it to its row: it moves nothing if keeping a task is
allowed. -/
theorem moves_recordTask (hkeep : ∀ t, A.task taskId (some t) t) (eventType actor : String)
    (payload : List (PyKey × PyVal)) :
    Within (Moves A) (recordTask env taskId eventType actor payload) := by
  intro s
  have hF := Moves.frame hA
  unfold recordTask
  refine hF.bind_at (within_getTask hF taskId s) (fun task u htask => ?_)
  obtain ⟨hget, rfl⟩ := getTask_eq_ok.mp htask
  refine hF.bind_at (hF.get u) (fun v w hv => ?_)
  cases hv
  split
  · refine hF.bind_at (within_newId _ _) (fun eventId v hv => ?_)
    cases hv
    refine hF.bind_at (within_readClock _) (fun occurredAt w hw => ?_)
    cases hw
    refine hF.bind_at (moves_store (fun a db n hrun => ?_)) (fun _ w _ => hF.pure _ w)
    have hrecords := saveTaskWithOutboxEvent_eq_ok hrun
    simp only [Database.records, Prod.mk.injEq] at hrecords
    obtain ⟨htasks, hoperations, hleases, hresources⟩ := hrecords
    have hid : task.taskId = taskId := Table.key_of_get? hget
    refine Moves.of_db ?_ ?_ (Or.inr hleases) (Or.inr hresources)
    · rw [htasks]
      refine TablesMoved.save (v := task) ?_ ?_ rfl rfl
      · rw [hid]
        exact hget
      · rw [hid]
        exact hkeep task
    · rw [hoperations]
      exact .refl
  · exact hF.bind (moves_enqueueOutbox hA env _) (fun _ => hF.pure _) u

/-- **Touching** raises the revision and the counter of tasks in the world. -/
theorem moves_touchTask (h : A.Touches taskId) : Within (Moves A) (touchTask env taskId) := by
  intro s
  have hF := Moves.frame hA
  unfold touchTask
  refine hF.bind_at (within_getTask hF taskId s) (fun task u htask => ?_)
  obtain ⟨hget, rfl⟩ := getTask_eq_ok.mp htask
  refine hF.bind_at (moves_setTask ?_) (fun _ v _ => moves_bumpTasks hA env h.world v)
  have hid : task.taskId = taskId := Table.key_of_get? hget
  subst hid
  show A.task task.taskId (u.tasks.get? task.taskId) _
  rw [hget]
  exact h.bump task

/-- Assign to a task, touch it, and record the event. -/
theorem moves_change (h : A.Touches taskId) (new : Task) {task : Task}
    (hget : s.tasks.get? taskId = some task) (hid : new.taskId = task.taskId)
    (hnew : A.task taskId (some task) new) (eventType actor : String)
    (payload : List (PyKey × PyVal)) :
    Moves A s (after (setTask new >>= fun _ => touchTask env taskId >>= fun _ =>
      recordTask env taskId eventType actor payload) s) := by
  have hF := Moves.frame hA
  refine hF.bind_at (moves_setTask ?_) (fun _ u _ => ?_)
  · rw [hid, Table.key_of_get? hget, hget]
    exact hnew
  · refine hF.bind (moves_touchTask hA env h) (fun _ => ?_) u
    exact moves_recordTask hA env h.keep eventType actor payload

/-! ## The methods -/

/-- A new task takes the next id. -/
theorem moves_createTask_at (goal : String) (successCriteria : List String) (workspaceId : String)
    (constraints : List String) (lane : String) (priority : Int) (budget : TaskBudget)
    (hworld : ∀ w : WorldModel, A.world w { w with revisions := w.revisions.bumpTasks })
    (hcreate : ∀ m (t : Task), t.taskId = env.newId "task" s.ids → t.state = .created →
      t.waitReason = none → A.task t.taskId m t)
    (hkeep : ∀ id t, A.task id (some t) t) :
    Moves A s
      (after (createTask env goal successCriteria workspaceId constraints lane priority budget) s)
    := by
  have hF := Moves.frame hA
  unfold createTask
  refine hF.bind_at (within_newId _ s) (fun id u hid => ?_)
  cases hid
  refine hF.bind_at (moves_setTask (hcreate _ _ rfl rfl rfl)) (fun _ v _ => ?_)
  refine hF.bind (moves_bumpTasks hA env hworld) (fun _ => ?_) v
  refine hF.bind (moves_recordTask hA env (hkeep _) _ _ _) (fun _ => ?_)
  exact hF.pure _

/-- **A task is created** under an id that was drawn for it. The allowance is asked about a task
where there was none, and about the counter. -/
theorem moves_createTask (goal : String) (successCriteria : List String) (workspaceId : String)
    (constraints : List String) (lane : String) (priority : Int) (budget : TaskBudget)
    (hworld : ∀ w : WorldModel, A.world w { w with revisions := w.revisions.bumpTasks })
    (hcreate : ∀ m (t : Task), t.state = .created → t.waitReason = none → A.task t.taskId m t)
    (hkeep : ∀ id t, A.task id (some t) t) :
    Within (Moves A)
      (createTask env goal successCriteria workspaceId constraints lane priority budget) := fun _ =>
  moves_createTask_at hA env goal successCriteria workspaceId constraints lane priority budget hworld
    (fun m t _ => hcreate m t) hkeep

/-- **`queue`** assigns QUEUED and RUNNING with the time of the clock, to a task that is not
terminal. -/
theorem moves_queueTask (h : A.Touches taskId)
    (hqueue : ∀ task at_, s.tasks.get? taskId = some task → task.state.terminal = false →
      A.task taskId (some task) (task.queued at_)) :
    Moves A s (after (queueTask env taskId) s) := by
  have hF := Moves.frame hA
  unfold queueTask
  refine hF.bind_at (within_getTask hF taskId s) (fun task u htask => ?_)
  obtain ⟨hget, rfl⟩ := getTask_eq_ok.mp htask
  split
  · exact within_raise hF _ u
  · rename_i hlive
    refine hF.bind_at (within_readClock u) (fun at_ v hv => ?_)
    cases hv
    have hnew := hqueue task (env.clock u.clockReads) hget (Bool.not_eq_true _ ▸ hlive)
    have hnow : ({ u with clockReads := u.clockReads + 1 } : Sys).tasks.get? taskId = some task :=
      hget
    exact moves_change hA env h (task.queued _) hnow rfl hnew _ _ _

/-- **`wait`** assigns WAITING and the reason, terminal or not: the source does not look. -/
theorem moves_waitTask (h : A.Touches taskId) (reason eventType : String)
    (hwait : ∀ task, s.tasks.get? taskId = some task →
      A.task taskId (some task) (task.waiting reason)) :
    Moves A s (after (waitTask env taskId reason eventType) s) := by
  have hF := Moves.frame hA
  unfold waitTask
  refine hF.bind_at (within_getTask hF taskId s) (fun task u htask => ?_)
  obtain ⟨hget, rfl⟩ := getTask_eq_ok.mp htask
  exact moves_change hA env h (task.waiting reason) hget rfl (hwait task hget) _ _ _

/-- **`update_runtime_state`** assigns what it is given, and nothing where that is what the task
has. -/
theorem moves_updateRuntimeState (h : A.Touches taskId) (state : Option TaskState)
    (phase : Option TaskPhase) (eventType actor : String)
    (hupdate : ∀ task, s.tasks.get? taskId = some task →
      A.task taskId (some task) (task.updated state phase)) :
    Moves A s (after (updateRuntimeState env taskId state phase eventType actor) s) := by
  have hF := Moves.frame hA
  unfold updateRuntimeState
  refine hF.bind_at (within_getTask hF taskId s) (fun task u htask => ?_)
  obtain ⟨hget, rfl⟩ := getTask_eq_ok.mp htask
  dsimp only
  split
  · exact moves_change hA env h (task.updated state phase) hget rfl (hupdate task hget) _ _ _
  · exact hF.pure _ u

/-- **`control`** leaves a terminal task alone. -/
theorem moves_controlTask (h : A.Touches taskId) (desired : TaskState)
    (hcontrol : ∀ task, s.tasks.get? taskId = some task → task.state.terminal = false →
      A.task taskId (some task) (task.controlled desired)) :
    Moves A s (after (controlTask env taskId desired) s) := by
  have hF := Moves.frame hA
  unfold controlTask
  refine hF.bind_at (within_getTask hF taskId s) (fun task u htask => ?_)
  obtain ⟨hget, rfl⟩ := getTask_eq_ok.mp htask
  split
  · exact hF.pure _ u
  · rename_i hlive
    have hnew := hcontrol task hget (Bool.not_eq_true _ ▸ hlive)
    exact moves_change hA env h (task.controlled desired) hget rfl hnew _ _ _

/-- **`settle_control`** is asked about only where it changes the state. -/
theorem moves_settleControl (h : A.Touches taskId) (safeBoundary externalCancelConfirmed : Bool)
    (hsettle : ∀ task, s.tasks.get? taskId = some task →
      (task.settled safeBoundary externalCancelConfirmed).state ≠ task.state →
      A.task taskId (some task) (task.settled safeBoundary externalCancelConfirmed)) :
    Moves A s (after (settleControl env taskId safeBoundary externalCancelConfirmed) s) := by
  have hF := Moves.frame hA
  unfold settleControl
  refine hF.bind_at (within_getTask hF taskId s) (fun task u htask => ?_)
  obtain ⟨hget, rfl⟩ := getTask_eq_ok.mp htask
  dsimp only
  split
  · rename_i hchanged
    exact moves_change hA env h _ hget (settled_taskId _ _ _) (hsettle task hget hchanged) _ _ _
  · exact hF.pure _ u

/-- **`evaluate_goal`** completes the task, or has it run on and plan again. -/
theorem moves_evaluateGoal (h : A.Touches taskId) (claims : List (String × GoalClaim))
    (hevaluate : ∀ task, s.tasks.get? taskId = some task →
      A.task taskId (some task) (task.evaluated claims)) :
    Moves A s (after (evaluateGoal env taskId claims) s) := by
  have hF := Moves.frame hA
  unfold evaluateGoal
  refine hF.bind_at (within_getTask hF taskId s) (fun task u htask => ?_)
  obtain ⟨hget, rfl⟩ := getTask_eq_ok.mp htask
  exact moves_change hA env h _ hget (evaluated_taskId _ _) (hevaluate task hget) _ _ _

/-- The scheduler's heaps hold ids of tasks, no tasks. -/
theorem moves_pushTask : Within (Moves A) (pushTask env taskId) := by
  have hF := Moves.frame hA
  unfold pushTask
  refine hF.bind (within_getTask hF taskId) (fun task => ?_)
  have hpush : ∀ item, Within (Moves A)
      (if task.lane = "interactive" then
        modify fun s => { s with interactive := s.interactive.orderedInsert heapLe item }
      else
        modify fun s => { s with background := s.background.orderedInsert heapLe item } : M Unit) := by
    intro item
    split
    · exact within_modify (fun s => { Moves.refl with })
    · exact within_modify (fun s => { Moves.refl with })
  cases task.queuedAt with
  | some at_ => exact hF.bind (hF.pure at_) (fun queuedAt => hpush _)
  | none => exact hF.bind within_readClock (fun queuedAt => hpush _)

/-- `submit` queues, and then pushes what it queued. -/
theorem moves_submitTask (h : A.Touches taskId)
    (hqueue : ∀ task at_, s.tasks.get? taskId = some task → task.state.terminal = false →
      A.task taskId (some task) (task.queued at_)) :
    Moves A s (after (submitTask env taskId) s) :=
  (Moves.frame hA).bind_at (moves_queueTask hA env h hqueue) (fun _ u _ => moves_pushTask hA env u)

end

end LiandanluNative
