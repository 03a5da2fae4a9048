/-
# LiandanluNative.Runtime.Tasks — `TaskRuntime` and `TaskScheduler.submit` of `runtime.py`.

What a method does to the task itself is a function of the task (`Task.controlled`, `Task.settled`,
…); the method assigns its result and then touches the task's revision and records the event, which
is where the store is written.
-/
import LiandanluNative.Runtime.Events
import LiandanluNative.Runtime.World

namespace LiandanluNative

open Lib (Table)

/-! ## What happens to a task -/

namespace Task

/-- `queue`: the task is to run, and the time at which it was queued is noted. -/
def queued (t : Task) (at_ : ℚ) : Task :=
  { t with state := .queued, desiredState := .running, queuedAt := some at_ }

/-- `wait`; what is desired of the task stays as it was. -/
def waiting (t : Task) (reason : String) : Task :=
  { t with state := .waiting, waitReason := some reason }

/-- `update_runtime_state`, which assigns the state, the phase, or both. -/
def updated (t : Task) (state : Option TaskState) (phase : Option TaskPhase) : Task :=
  { t with state := state.getD t.state, phase := phase.getD t.phase }

/-- The state after `control` asked for `desired`.  A pause of a task that runs is only begun, and
so is its cancellation; `settle_control` carries them out. -/
def controlState (t : Task) (desired : TaskState) : TaskState :=
  match desired with
  | .paused =>
      if t.state = .running then .pausing
      else if t.state ∉ [.cancelling, .cancelled] then .paused
      else t.state
  | .cancelled => if t.state ∈ [.running, .pausing] then .cancelling else .cancelled
  | .running =>
      if t.state ∈ [.paused, .pausing, .waiting, .queued, .created] then .running else t.state
  | _ => t.state

/-- `control` of a task that is not terminal -/
def controlled (t : Task) (desired : TaskState) : Task :=
  { t with
    desiredState := desired
    state := t.controlState desired
    waitReason := if desired = .running then none else t.waitReason }

/-- `settle_control`; what nobody asked for, or what it is not yet safe to do, leaves the task
alone. -/
def settled (t : Task) (safeBoundary externalCancelConfirmed : Bool) : Task :=
  if t.desiredState = .paused ∧ safeBoundary then
    { t with state := .paused }
  else if t.desiredState = .cancelled ∧ (safeBoundary ∨ externalCancelConfirmed) then
    { t with state := .cancelled }
  else
    t

/-- The claim backs its criterion: it passed, and names some evidence. -/
def claimPasses (claims : List (String × GoalClaim)) (criterion : String) : Bool :=
  match claims.find? (fun entry => decide (entry.1 = criterion)) with
  | none => false
  | some entry => entry.2.passed && !entry.2.evidenceRefs.isEmpty

/-- The criteria `evaluate_goal` finds missing: those without a claim that backs them. -/
def missing (t : Task) (claims : List (String × GoalClaim)) : List String :=
  t.successCriteria.filter (fun criterion => !claimPasses claims criterion)

/-- `evaluate_goal` -/
def evaluated (t : Task) (claims : List (String × GoalClaim)) : Task :=
  if t.missing claims = [] then { t with state := .completed }
  else { t with state := .running, phase := .replanning }

end Task

/-! ## The methods -/

section

variable (env : Env)

/-- `_record`: with a store the task is written with the event, in one transaction; without one the
event is queued. -/
def recordTask (taskId eventType actor : String) (payload : List (PyKey × PyVal)) : M Unit := do
  let task ← getTask taskId
  let s ← get
  if s.persistent then
    let eventId ← newId env "evt"
    let occurredAt ← readClock env
    let _ ← store env (saveTaskWithOutboxEvent task
      { eventType := eventType
        actor := actor
        workspaceId := task.workspaceId
        payload := payload } eventId occurredAt)
    pure ()
  else
    let _ ← enqueueOutbox env
      { eventType := eventType
        actor := actor
        workspaceId := task.workspaceId
        taskId := some task.taskId
        payload := payload }
    pure ()

/-- `world.revisions.bump("tasks")`, written through -/
def bumpTasks : M Unit := do
  modifyWorld fun world => { world with revisions := world.revisions.bumpTasks }
  persistRevisions env

/-- `_touch`: the task counts on, and so does the domain of tasks. -/
def touchTask (taskId : String) : M Unit := do
  let task ← getTask taskId
  setTask { task with revision := task.revision + 1 }
  bumpTasks env

/-- `create` -/
def createTask (goal : String) (successCriteria : List String) (workspaceId : String)
    (constraints : List String) (lane : String) (priority : Int) (budget : TaskBudget) :
    M String := do
  let taskId ← newId env "task"
  setTask
    { taskId := taskId
      workspaceId := workspaceId
      goal := goal
      successCriteria := successCriteria
      constraints := constraints
      lane := lane
      priority := priority
      budget := budget }
  bumpTasks env
  recordTask env taskId "task.created" "engine"
    (PyVal.payload [("goal", .str goal), ("workspace_id", .str workspaceId)])
  return taskId

/-- `queue` -/
def queueTask (taskId : String) : M Unit := do
  let task ← getTask taskId
  if task.state.terminal then
    raise ⟨.valueError, "terminal task cannot be queued"⟩
  else
    let at_ ← readClock env
    setTask (task.queued at_)
    touchTask env taskId
    recordTask env taskId "task.queued" "engine"
      (PyVal.payload
        [("lane", .str task.lane), ("priority", .int task.priority),
          ("queued_at", .float (some at_))])

/-- `wait` -/
def waitTask (taskId reason eventType : String) : M Unit := do
  let task ← getTask taskId
  setTask (task.waiting reason)
  touchTask env taskId
  recordTask env taskId eventType "engine"
    (PyVal.payload [("reason", .str reason), ("state", .str TaskState.waiting.value)])

/-- `update_runtime_state` -/
def updateRuntimeState (taskId : String) (state : Option TaskState) (phase : Option TaskPhase)
    (eventType actor : String) : M Unit := do
  let task ← getTask taskId
  let updated := task.updated state phase
  if updated.state ≠ task.state ∨ updated.phase ≠ task.phase then
    setTask updated
    touchTask env taskId
    recordTask env taskId eventType actor
      (PyVal.payload [("state", .str updated.state.value), ("phase", .str updated.phase.value)])
  else
    pure ()

/-- `control` -/
def controlTask (taskId : String) (desired : TaskState) : M Unit := do
  let task ← getTask taskId
  if task.state.terminal then
    pure ()
  else
    setTask (task.controlled desired)
    touchTask env taskId
    recordTask env taskId "task.control_requested" "user"
      (PyVal.payload
        [("desired", .str desired.value), ("actual", .str (task.controlState desired).value)])

/-- `settle_control` -/
def settleControl (taskId : String) (safeBoundary externalCancelConfirmed : Bool) : M Unit := do
  let task ← getTask taskId
  let settled := task.settled safeBoundary externalCancelConfirmed
  if settled.state ≠ task.state then
    setTask settled
    touchTask env taskId
    recordTask env taskId "task.control_settled" "engine"
      (PyVal.payload
        [("desired", .str task.desiredState.value), ("actual", .str settled.state.value)])
  else
    pure ()

/-- `evaluate_goal` -/
def evaluateGoal (taskId : String) (claims : List (String × GoalClaim)) : M Unit := do
  let task ← getTask taskId
  let evaluated := task.evaluated claims
  setTask evaluated
  touchTask env taskId
  recordTask env taskId "task.goal_evaluated" "verifier"
    (PyVal.payload
      [("missing", PyVal.strings (task.missing claims)), ("state", .str evaluated.state.value)])

/-! ## Submitting

The two heaps have one order, by priority, time and id.
-/

/-- The order of heap items. -/
def heapLe (a b : Int × ℚ × String) : Prop :=
  a.1 < b.1 ∨ (a.1 = b.1 ∧ (a.2.1 < b.2.1 ∨ (a.2.1 = b.2.1 ∧ a.2.2 ≤ b.2.2)))

instance : DecidableRel heapLe := fun a b => by unfold heapLe; infer_instance

/-- `_push` -/
def pushTask (taskId : String) : M Unit := do
  let task ← getTask taskId
  -- `submit` has just set it
  let queuedAt ← match task.queuedAt with
    | some at_ => pure at_
    | none => readClock env
  let item := (-task.priority, queuedAt, task.taskId)
  if task.lane = "interactive" then
    modify fun s => { s with interactive := s.interactive.orderedInsert heapLe item }
  else
    modify fun s => { s with background := s.background.orderedInsert heapLe item }

/-- `TaskScheduler.submit` -/
def submitTask (taskId : String) : M Unit := do
  queueTask env taskId
  pushTask env taskId

end

end LiandanluNative
