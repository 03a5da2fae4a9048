/-
# LiandanluNative.Runtime.Commits — what a persistent engine has committed when a method ends.

`Runtime.Moves` says what a method may do to tasks and operations, wherever it stops.  Here is what
it has done, by how it stops: every store call is one transaction and then a boundary, so a block of
assignments and stores has only as many ends as it has boundaries.  The states are written out
(`Sys.bumped`, `Sys.recordedTask`, …), and each block has one rule that names them.

The rules have a premise for each end: the state in which the block returns, and the state of a
process that died at a boundary of it, which is what a restart begins from.  A store that refuses a
row is a third: SQLite rolls the transaction back, and what was assigned in memory before stays
assigned.
-/
import LiandanluNative.Lib.Ends
import LiandanluNative.Json
import LiandanluNative.Runtime.OperationMoves

namespace LiandanluNative

open Lib (Table)
open Lib.Proc

/-! ## Primitives

A statement is about one engine and one call of a primitive, and says what is left where it returns
and where it raises.  The end of the process is one of the faults.
-/

/-- What an exception or a crash leaves of an invariant: all of it, or what a crash spares. -/
abbrev Left (I D : Sys → Prop) : Fault → Sys → Prop := Spared Fault.isCrash I D

/-- The method keeps `I`, except that a crash in it may leave only `D`. -/
abbrev Upheld {α : Type} (I D : Sys → Prop) (m : M α) : Prop := Upholds Fault.isCrash I D m

section

variable {env : Env} {α β : Type} {s : Sys} {Q : α → Sys → Prop} {E : Fault → Sys → Prop}
  {I D : Sys → Prop}

/-- A task that is looked up is there, or a `KeyError` leaves the state as it was. -/
theorem ends_getTask {taskId : String} {Q : Task → Sys → Prop}
    (hfound : ∀ task, s.tasks.get? taskId = some task → Q task s)
    (hmissing : s.tasks.get? taskId = none → E (.raised (keyError taskId)) s) :
    Ends Q E (getTask taskId) s := by
  cases hget : s.tasks.get? taskId with
  | some task => exact Ends.of_ok (getTask_eq_ok.mpr ⟨hget, rfl⟩) (hfound task hget)
  | none => exact Ends.of_error (by simp only [getTask, hget]) (hmissing hget)

/-- The same of an operation. -/
theorem ends_getOperation {operationId : String} {Q : Operation → Sys → Prop}
    (hfound : ∀ op, s.operations.get? operationId = some op → Q op s)
    (hmissing : s.operations.get? operationId = none → E (.raised (keyError operationId)) s) :
    Ends Q E (getOperation operationId) s := by
  cases hget : s.operations.get? operationId with
  | some op => exact Ends.of_ok (getOperation_eq_ok.mpr ⟨hget, rfl⟩) (hfound op hget)
  | none => exact Ends.of_error (by simp only [getOperation, hget]) (hmissing hget)

/-- What can be decided without the state leaves it as it is, either way. -/
theorem ends_liftExcept {x : Except Exc α} (hok : ∀ a, x = .ok a → Q a s)
    (herror : ∀ e, x = .error e → E (.raised e) s) : Ends Q E (liftExcept x) s := by
  cases x with
  | ok a => exact Ends.pure (hok a rfl)
  | error e => exact Ends.throw (herror e rfl)

/-- **A call of the outside** uses up an answer, whether that is a value or an exception: the next
call gets the next one. -/
theorem ends_callOut {answer : ℕ → Except Exc α}
    (hok : ∀ a, answer s.calls = .ok a → Q a { s with calls := s.calls + 1 })
    (herror : ∀ e, answer s.calls = .error e → E (.raised e) { s with calls := s.calls + 1 }) :
    Ends Q E (callOut answer) s := by
  cases hanswer : answer s.calls with
  | ok a => exact Ends.of_ok (by simp only [callOut, hanswer]) (hok a hanswer)
  | error e => exact Ends.of_error (by simp only [callOut, hanswer]) (herror e hanswer)

/-- **At a boundary** the process lives on or ends, and the state is the same but for the count. -/
theorem ends_boundary {Q : Unit → Sys → Prop}
    (hok : Q () { s with boundaries := s.boundaries + 1 })
    (hcrash : E .crash { s with boundaries := s.boundaries + 1 }) : Ends Q E (boundary env) s := by
  by_cases hdies : env.dies s.boundaries
  · exact Ends.of_error (by simp only [boundary, hdies, if_true]) hcrash
  · exact Ends.of_ok (by simp only [boundary, hdies, Bool.false_eq_true, if_false]) hok

/-- A store call raises and changes nothing, or commits and comes to its boundary.  Where the
process ends there, the commit stands. -/
theorem ends_store {txn : Txn α}
    (hraised : ∀ e db, txn s.db = .error e db → E (.raised e) s)
    (hcommitted : ∀ a db, txn s.db = .ok a db →
      Q a { s with db := db, boundaries := s.boundaries + 1 } ∧
        E .crash { s with db := db, boundaries := s.boundaries + 1 }) :
    Ends Q E (store env txn) s := by
  cases hrun : txn s.db with
  | error e db =>
      have hrollback : transaction txn s.db = .error e s.db := by simp only [transaction, hrun]
      exact Ends.of_error (by simp only [store, hrollback]) (hraised e db hrun)
  | ok a db =>
      have hcommit : transaction txn s.db = .ok a db := by simp only [transaction, hrun]
      obtain ⟨hok, hcrash⟩ := hcommitted a db hrun
      by_cases hdies : env.dies s.boundaries
      · refine Ends.of_error ?_ hcrash
        simp [store, hcommit, boundary, hdies, bind, EStateM.bind]
      · refine Ends.of_ok ?_ hok
        simp [store, hcommit, boundary, hdies, bind, EStateM.bind, pure, EStateM.pure]

/-- What the handler does not catch goes on as it was raised, and the end of the process is no
exception. -/
theorem ends_catching {catches : Exc → Bool} {body : M α} {handler : Exc → M α}
    (h : Ends Q (fun fault t =>
      (∀ e, fault = .raised e → catches e = true → Ends Q E (handler e) t) ∧
        ((∀ e, fault = .raised e → catches e = false) → E fault t)) body s) :
    Ends Q E (catching catches body handler) s := by
  refine Ends.handling (h.mono (fun _ _ hQ => hQ) (fun fault t ht => ?_))
  obtain ⟨hcaught, hpassed⟩ := ht
  cases fault with
  | crash => exact Ends.throw (hpassed (fun _ h => by cases h))
  | raised e =>
      show Ends Q E (if catches e then handler e else raise e) t
      cases hcatches : catches e with
      | true =>
          rw [if_pos rfl]
          exact hcaught e rfl hcatches
      | false =>
          rw [if_neg Bool.false_ne_true]
          refine Ends.throw (hpassed (fun e' he' => ?_))
          cases he'
          exact hcatches

/-- The invariant of a method is upheld by what only looks and raises. -/
theorem upheld_raise (e : Exc) : Upheld I D (raise e : M α) := Upholds.throw rfl

/-- Looking a task up, … -/
theorem upheld_getTask (taskId : String) : Upheld I D (getTask taskId) :=
  fun _ hs => ends_getTask (fun _ _ => hs) (fun _ => hs)

/-- … looking an operation up, … -/
theorem upheld_getOperation (operationId : String) : Upheld I D (getOperation operationId) :=
  fun _ hs => ends_getOperation (fun _ _ => hs) (fun _ => hs)

/-- … and deciding without the state change nothing. -/
theorem upheld_liftExcept (x : Except Exc α) : Upheld I D (liftExcept x) :=
  fun _ hs => ends_liftExcept (fun _ _ => hs) (fun _ _ => hs)

/-- Whatever stays within a relation that keeps the invariant upholds it. -/
theorem upheld_of_within {R : Sys → Sys → Prop} {m : M α} (h : Within R m)
    (hI : ∀ s t, R s t → I s → I t) (hID : ∀ s, I s → D s) : Upheld I D m := by
  intro s hs
  refine ⟨fun hrun => hI _ _ (h.of_ok hrun) hs, fun hrun => ?_⟩
  have ht := hI _ _ (h.of_error hrun) hs
  exact spared_of (fun _ => ht) (fun _ => hID _ ht)

end

/-! ## Tasks

A task is written in one transaction with the event that tells of it; what that transaction commits
is computed once and named.
-/

/-- An event as it is inserted. -/
def Database.withEvent (db : Database) (fields : EventFields) (eventId : String) (occurredAt : ℚ)
    (payload : List (PyKey × PyVal)) : Database :=
  { db with
    outboxSequence := db.outboxSequence + 1
    eventOutbox := db.eventOutbox.put (fields.row (db.outboxSequence + 1) eventId occurredAt payload) }

/-- **An event is inserted** under the next number, if its payload is JSON. -/
theorem insertOutbox_eq (fields : EventFields) (eventId : String) (occurredAt : ℚ) (db : Database)
    {payload : List (PyKey × PyVal)} (h : PyVal.jsonDumpsItems fields.payload = some payload) :
    insertOutbox fields eventId occurredAt db
      = .ok eventId (db.withEvent fields eventId occurredAt payload) := by
  have hdumps : dumpsItems fields.payload db = .ok payload db := by simp only [dumpsItems, h]
  unfold insertOutbox
  simp only [bind, EStateM.bind, hdumps]
  rfl

/-- With a payload that is no JSON, the transaction does not return. -/
theorem insertOutbox_of_none {fields : EventFields} {eventId a : String} {occurredAt : ℚ}
    (db db' : Database) (h : PyVal.jsonDumpsItems fields.payload = none) :
    insertOutbox fields eventId occurredAt db ≠ .ok a db' := by
  have hdumps : dumpsItems fields.payload db
      = .error ⟨.typeError, "Object is not JSON serializable"⟩ db := by simp only [dumpsItems, h]
  unfold insertOutbox
  simp only [bind, EStateM.bind, hdumps, ne_eq, reduceCtorEq, not_false_eq_true]

/-- A transaction whose body returns is committed. -/
theorem transaction_of_ok {α : Type} {body : Txn α} {a : α} {db db' : Database}
    (h : body db = .ok a db') : transaction body db = .ok a db' := by
  simp only [transaction, h]

/-- **A task and its event** are written in one transaction, whose state is named here once. -/
theorem saveTaskWithOutboxEvent_eq (task : Task) (fields : EventFields) (eventId : String)
    (occurredAt : ℚ) (db : Database) {payload : List (PyKey × PyVal)}
    (h : PyVal.jsonDumpsItems fields.payload = some payload) :
    saveTaskWithOutboxEvent task fields eventId occurredAt db
      = .ok eventId (Database.withEvent { db with tasks := db.tasks.put task }
          { fields with taskId := some task.taskId } eventId occurredAt payload) := by
  have hinsert := insertOutbox_eq { fields with taskId := some task.taskId } eventId occurredAt
    { db with tasks := db.tasks.put task } h
  have hput : upsertTask task db = .ok () { db with tasks := db.tasks.put task } := rfl
  exact transaction_of_ok (bind_eq_ok.mpr ⟨_, _, hput, hinsert⟩)

/-- The engine once the revision of the tasks was bumped and stored, in memory and in the one row of
the revisions. -/
def Sys.bumped (s : Sys) : Sys :=
  { s with
    world := { s.world with revisions := s.world.revisions.bumpTasks }
    db := { s.db with worldRevisions := some s.world.revisions.bumpTasks }
    boundaries := s.boundaries + 1 }

/-- The arguments `_record` makes of a task and an event. -/
def Task.eventFields (task : Task) (eventType actor : String) (payload : List (PyKey × PyVal)) :
    EventFields where
  eventType := eventType
  actor := actor
  workspaceId := task.workspaceId
  payload := payload

/-- The engine once a task was stored with an event. -/
def Sys.recordedTask (s : Sys) (env : Env) (task : Task) (fields : EventFields)
    (payload : List (PyKey × PyVal)) : Sys :=
  { s with
    db := Database.withEvent { s.db with tasks := s.db.tasks.put task }
      { fields with taskId := some task.taskId } (env.newId "evt" s.ids) (env.clock s.clockReads)
      payload
    ids := s.ids + 1
    clockReads := s.clockReads + 1
    boundaries := s.boundaries + 1 }

section

variable {env : Env} {α : Type} {s : Sys} {Q : Unit → Sys → Prop} {E : Fault → Sys → Prop}

/-- **The bump** has one boundary, after the revisions were saved, so the state is the same for a
process that goes on and one that ends. -/
theorem ends_bumpTasks (hpersistent : s.persistent = true) (hok : Q () s.bumped)
    (hcrash : E .crash s.bumped) : Ends Q E (bumpTasks env) s := by
  unfold bumpTasks modifyWorld persistRevisions persisting
  refine Ends.bind (Ends.modifying (Ends.bind (Ends.get ?_)))
  rw [if_pos hpersistent]
  refine Ends.bind (ends_store (fun e db h => by cases h) (fun a db h => ?_))
  cases h
  exact ⟨Ends.pure hok, hcrash⟩

/-- **The record** has one as well, after its transaction. -/
theorem ends_recordTask (hpersistent : s.persistent = true) {taskId : String} {task : Task}
    (hget : s.tasks.get? taskId = some task) {eventType actor : String}
    {payload column : List (PyKey × PyVal)} (hjson : PyVal.jsonDumpsItems payload = some column)
    (h : Q () (s.recordedTask env task (task.eventFields eventType actor payload) column) ∧
      E .crash (s.recordedTask env task (task.eventFields eventType actor payload) column)) :
    Ends Q E (recordTask env taskId eventType actor payload) s := by
  obtain ⟨hok, hcrash⟩ := h
  unfold recordTask
  refine Ends.bind (Ends.of_ok (getTask_eq_ok.mpr ⟨hget, rfl⟩) (Ends.bind (Ends.get ?_)))
  rw [if_pos hpersistent]
  refine Ends.bind (Ends.of_ok (rfl : newId env "evt" s = _) ?_)
  refine Ends.bind (Ends.of_ok (rfl : readClock env _ = _) ?_)
  have hrun := saveTaskWithOutboxEvent_eq task (task.eventFields eventType actor payload)
    (env.newId "evt" s.ids) (env.clock s.clockReads) s.db hjson
  refine Ends.bind (ends_store (fun e db h => ?_) (fun a db h => ?_))
  · cases hrun.symm.trans h
  · cases hrun.symm.trans h
    exact ⟨Ends.pure hok, hcrash⟩

/-- The task once its revision was touched. -/
def Task.touched (task : Task) : Task := { task with revision := task.revision + 1 }

/-- The engine once a task was assigned to and touched. -/
def Sys.touchedTask (s : Sys) (task : Task) : Sys :=
  Sys.bumped { s with tasks := s.tasks.put task.touched }

/-- **Assign, touch, record.** The process may end with the assignment in memory alone; otherwise
the task and its event are stored together.  In the former case the stored revisions are one ahead
of the stored task. -/
theorem ends_change (hpersistent : s.persistent = true) {taskId : String} (new : Task)
    (hid : new.taskId = taskId) {eventType actor : String} {payload : List (PyKey × PyVal)}
    (hjson : ∃ column, PyVal.jsonDumpsItems payload = some column)
    (hdied : E .crash (s.touchedTask new))
    (hrecorded : ∀ column, PyVal.jsonDumpsItems payload = some column →
      Q () ((s.touchedTask new).recordedTask env new.touched
          (new.eventFields eventType actor payload) column) ∧
        E .crash ((s.touchedTask new).recordedTask env new.touched
          (new.eventFields eventType actor payload) column)) :
    Ends Q E (setTask new >>= fun _ => touchTask env taskId >>= fun _ =>
      recordTask env taskId eventType actor payload) s := by
  subst hid
  obtain ⟨column, hcolumn⟩ := hjson
  refine Ends.bind (Ends.modifying (Ends.bind ?_))
  unfold touchTask
  have hnew : (s.tasks.put new).get? new.taskId = some new := s.tasks.get?_put_self new
  refine Ends.bind (Ends.of_ok (getTask_eq_ok.mpr ⟨hnew, rfl⟩) ?_)
  refine Ends.bind (Ends.modifying ?_)
  show Ends (fun _ t => Ends Q E (recordTask env new.taskId eventType actor payload) t) E
    (bumpTasks env) { s with tasks := (s.tasks.put new).put new.touched }
  have hput : (s.tasks.put new).put new.touched = s.tasks.put new.touched := Table.put_put rfl
  rw [hput]
  refine ends_bumpTasks hpersistent ?_ hdied
  have hget : (s.touchedTask new).tasks.get? new.taskId = some new.touched :=
    s.tasks.get?_put_self new.touched
  have hstill : (s.touchedTask new).persistent = true := hpersistent
  exact ends_recordTask hstill hget hcolumn (hrecorded column hcolumn)

/-! ## The methods of `TaskRuntime`

All but `create` assign once to their task, touch it and record it.  So there is one description of
a change (`Task.Change`), with a line for each method, and one lemma about what a change leaves.
-/

/-- What an assignment to a task may not change: who it is, what it has spent, and how often it was
touched. -/
structure Task.Assigned (task new : Task) : Prop where
  taskId : new.taskId = task.taskId
  budget : new.budget = task.budget
  revision : new.revision = task.revision

namespace Task.Assigned

variable (task : Task)

/-- Each method of `TaskRuntime` makes an assignment that leaves the identity, the budget and the
revision of the task. -/
theorem queued (at_ : ℚ) : task.Assigned (task.queued at_) := ⟨rfl, rfl, rfl⟩

theorem waiting (reason : String) : task.Assigned (task.waiting reason) := ⟨rfl, rfl, rfl⟩

theorem updated (state : Option TaskState) (phase : Option TaskPhase) :
    task.Assigned (task.updated state phase) := ⟨rfl, rfl, rfl⟩

theorem controlled (desired : TaskState) : task.Assigned (task.controlled desired) :=
  ⟨rfl, rfl, rfl⟩

/-- Settling has branches, none of which touches them. -/
theorem settled (safeBoundary externalCancelConfirmed : Bool) :
    task.Assigned (task.settled safeBoundary externalCancelConfirmed) := by
  rw [settled_eq]
  exact ⟨rfl, rfl, rfl⟩

theorem evaluated (claims : List (String × GoalClaim)) : task.Assigned (task.evaluated claims) := by
  unfold Task.evaluated
  split <;> exact ⟨rfl, rfl, rfl⟩

end Task.Assigned

/-- **The changes of a task**, with the event each is recorded with: one line for each method of
`TaskRuntime`. -/
inductive Task.Change (task : Task) : Task → EventFields → Prop
  | queued (at_ : ℚ) :
      Change task (task.queued at_) ((task.queued at_).eventFields "task.queued" "engine"
        (PyVal.payload
          [("lane", .str task.lane), ("priority", .int task.priority),
            ("queued_at", .float (some at_))]))
  | waiting (reason eventType : String) :
      Change task (task.waiting reason) ((task.waiting reason).eventFields eventType "engine"
        (PyVal.payload [("reason", .str reason), ("state", .str TaskState.waiting.value)]))
  | updated (state : Option TaskState) (phase : Option TaskPhase) (eventType actor : String) :
      Change task (task.updated state phase) ((task.updated state phase).eventFields eventType actor
        (PyVal.payload
          [("state", .str (task.updated state phase).state.value),
            ("phase", .str (task.updated state phase).phase.value)]))
  | controlled (desired : TaskState) :
      Change task (task.controlled desired) ((task.controlled desired).eventFields
        "task.control_requested" "user"
        (PyVal.payload
          [("desired", .str desired.value), ("actual", .str (task.controlState desired).value)]))
  | settled (safeBoundary externalCancelConfirmed : Bool)
      (moved : (task.settled safeBoundary externalCancelConfirmed).state ≠ task.state) :
      Change task (task.settled safeBoundary externalCancelConfirmed)
        ((task.settled safeBoundary externalCancelConfirmed).eventFields "task.control_settled"
          "engine"
          (PyVal.payload
            [("desired", .str task.desiredState.value),
              ("actual", .str (task.settled safeBoundary externalCancelConfirmed).state.value)]))
  | evaluated (claims : List (String × GoalClaim)) :
      Change task (task.evaluated claims) ((task.evaluated claims).eventFields "task.goal_evaluated"
        "verifier"
        (PyVal.payload
          [("missing", PyVal.strings (task.missing claims)),
            ("state", .str (task.evaluated claims).state.value)]))

/-- Both ends of a change of a task from `s`: what it returns with, and what it leaves when it is
ended or refused in between. -/
structure Changes (env : Env) (s : Sys) (taskId : String) (Q : Unit → Sys → Prop)
    (E : Fault → Sys → Prop) : Prop where
  persistent : s.persistent = true
  unchanged : Q () s
  raised : s.tasks.get? taskId = none → ∀ e, E (.raised e) s
  died : ∀ task new, s.tasks.get? taskId = some task → task.Assigned new →
    E .crash (s.touchedTask new)
  recorded : ∀ task new fields column, s.tasks.get? taskId = some task → task.Assigned new →
    fields.operationId = none → task.Change new fields →
    PyVal.jsonDumpsItems fields.payload = some column →
    Q () ((s.touchedTask new).recordedTask env new.touched fields column) ∧
      E .crash ((s.touchedTask new).recordedTask env new.touched fields column)

namespace Changes

variable {taskId : String} (h : Changes env s taskId Q E)
include h

/-- **The block of a change**, with a rule for it: assign, touch, record. -/
theorem change {task new : Task} (hget : s.tasks.get? taskId = some task)
    (hnew : task.Assigned new) {eventType actor : String} {payload : List (PyKey × PyVal)}
    (hchange : task.Change new (new.eventFields eventType actor payload))
    (hjson : ∃ column, PyVal.jsonDumpsItems payload = some column) :
    Ends Q E (setTask new >>= fun _ => touchTask env taskId >>= fun _ =>
      recordTask env taskId eventType actor payload) s := by
  have hid : new.taskId = taskId := hnew.taskId.trans (Table.key_of_get? hget)
  exact ends_change h.persistent new hid hjson (h.died task new hget hnew)
    (fun column hcolumn => h.recorded task new _ column hget hnew rfl hchange hcolumn)

/-- The methods are that block, each behind its own checks. -/
theorem wait (reason eventType : String) : Ends Q E (waitTask env taskId reason eventType) s := by
  unfold waitTask
  refine Ends.bind (ends_getTask (fun task hget => ?_) (fun hnone => h.raised hnone _))
  refine h.change hget (.waiting task reason) (.waiting reason eventType) (PyVal.jsonDumpsItems_payload ?_)
  simp [PyVal.jsonDumps]

/-- An update that changes nothing ends where it began. -/
theorem updateRuntimeState (state : Option TaskState) (phase : Option TaskPhase)
    (eventType actor : String) :
    Ends Q E (updateRuntimeState env taskId state phase eventType actor) s := by
  unfold LiandanluNative.updateRuntimeState
  refine Ends.bind (ends_getTask (fun task hget => ?_) (fun hnone => h.raised hnone _))
  dsimp only
  split
  · refine h.change hget (.updated task state phase) (.updated state phase eventType actor)
      (PyVal.jsonDumpsItems_payload ?_)
    simp [PyVal.jsonDumps]
  · exact Ends.pure h.unchanged

theorem control (desired : TaskState) : Ends Q E (controlTask env taskId desired) s := by
  unfold controlTask
  refine Ends.bind (ends_getTask (fun task hget => ?_) (fun hnone => h.raised hnone _))
  split
  · exact Ends.pure h.unchanged
  · refine h.change hget (.controlled task desired) (.controlled desired) (PyVal.jsonDumpsItems_payload ?_)
    simp [PyVal.jsonDumps]

/-- So does a control that is not settled. -/
theorem settleControl (safeBoundary externalCancelConfirmed : Bool) :
    Ends Q E (settleControl env taskId safeBoundary externalCancelConfirmed) s := by
  unfold LiandanluNative.settleControl
  refine Ends.bind (ends_getTask (fun task hget => ?_) (fun hnone => h.raised hnone _))
  dsimp only
  split
  · refine h.change hget (.settled task _ _) (.settled _ _ ‹_›) (PyVal.jsonDumpsItems_payload ?_)
    simp [PyVal.jsonDumps]
  · exact Ends.pure h.unchanged

theorem evaluateGoal (claims : List (String × GoalClaim)) :
    Ends Q E (evaluateGoal env taskId claims) s := by
  unfold LiandanluNative.evaluateGoal
  refine Ends.bind (ends_getTask (fun task hget => ?_) (fun hnone => h.raised hnone _))
  refine h.change hget (.evaluated task claims) (.evaluated claims) (PyVal.jsonDumpsItems_payload ?_)
  simp [PyVal.jsonDumps, PyVal.jsonDumps_strings]

end Changes

/-- The engine once a new task is in memory. -/
def Sys.createdTask (s : Sys) (task : Task) : Sys :=
  Sys.bumped { s with tasks := s.tasks.put task, ids := s.ids + 1 }

/-- The task `create` makes. -/
def newTask (env : Env) (s : Sys) (goal : String) (successCriteria : List String)
    (workspaceId : String) (constraints : List String) (lane : String) (priority : Int)
    (budget : TaskBudget) : Task where
  taskId := env.newId "task" s.ids
  workspaceId := workspaceId
  goal := goal
  successCriteria := successCriteria
  constraints := constraints
  lane := lane
  priority := priority
  budget := budget

/-- **Creating a task.** The task is in memory before anything is stored; then the bump and the
record follow, as with any change. -/
theorem ends_createTask {Q : String → Sys → Prop} (hpersistent : s.persistent = true)
    (goal : String) (successCriteria : List String) (workspaceId : String)
    (constraints : List String) (lane : String) (priority : Int) (budget : TaskBudget)
    {task : Task}
    (htask : task = newTask env s goal successCriteria workspaceId constraints lane priority budget)
    (hdied : E .crash (s.createdTask task))
    (hrecorded : ∀ fields column, fields.operationId = none →
      fields = task.eventFields "task.created" "engine"
        (PyVal.payload [("goal", .str goal), ("workspace_id", .str workspaceId)]) →
      PyVal.jsonDumpsItems fields.payload = some column →
      Q task.taskId ((s.createdTask task).recordedTask env task fields column) ∧
        E .crash ((s.createdTask task).recordedTask env task fields column)) :
    Ends Q E
      (createTask env goal successCriteria workspaceId constraints lane priority budget) s := by
  -- the event has texts only, which are JSON
  obtain ⟨column, hcolumn⟩ : ∃ column, PyVal.jsonDumpsItems
      (PyVal.payload [("goal", .str goal), ("workspace_id", .str workspaceId)]) = some column :=
    PyVal.jsonDumpsItems_payload (by simp [PyVal.jsonDumps])
  unfold createTask
  refine Ends.bind (Ends.of_ok (rfl : newId env "task" s = _) ?_)
  show Ends Q E (setTask (newTask env s goal successCriteria workspaceId constraints lane priority
      budget) >>= fun _ => bumpTasks env >>= fun _ =>
    recordTask env (newTask env s goal successCriteria workspaceId constraints lane priority
        budget).taskId "task.created" "engine"
      (PyVal.payload [("goal", .str goal), ("workspace_id", .str workspaceId)]) >>= fun _ =>
    pure (newTask env s goal successCriteria workspaceId constraints lane priority
      budget).taskId) { s with ids := s.ids + 1 }
  -- the task is in memory, and the revisions are written before the task and its event
  rw [← htask]
  refine Ends.bind (Ends.modifying (Ends.bind (ends_bumpTasks hpersistent ?_ hdied)))
  have hstill : (s.createdTask task).persistent = true := hpersistent
  have hget : (s.createdTask task).tasks.get? task.taskId = some task := s.tasks.get?_put_self task
  obtain ⟨hok, hcrash⟩ := hrecorded
    (task.eventFields "task.created" "engine"
      (PyVal.payload [("goal", .str goal), ("workspace_id", .str workspaceId)])) column rfl rfl
    hcolumn
  exact Ends.bind (ends_recordTask hstill hget hcolumn ⟨Ends.pure hok, hcrash⟩)

/-! ## Operations

An operation is encoded when it is written, and its row may overwrite another.  Opening an operation
writes a task and an operation with one event; all other writes are of one operation.
-/

/-- The row of an operation, where its arguments, its evidence and its result are JSON; the other
columns take what they are given. -/
def Operation.encoded (op : Operation) : Option Operation :=
  match PyVal.jsonDumpsItems op.arguments, PyVal.jsonDumpsList op.evidence, op.result.jsonDumps with
  | some arguments, some evidence, some result =>
      some { op with arguments := arguments, evidence := evidence, result := result }
  | _, _, _ => none

/-- **The row of an operation** has its arguments, evidence and result as JSON writes them, and all
else as it is. -/
theorem Operation.encoded_eq {op row : Operation} (h : op.encoded = some row) :
    ∃ arguments evidence result, PyVal.jsonDumpsItems op.arguments = some arguments ∧
      PyVal.jsonDumpsList op.evidence = some evidence ∧ op.result.jsonDumps = some result ∧
      row = { op with arguments := arguments, evidence := evidence, result := result } := by
  unfold Operation.encoded at h
  split at h
  · rename_i arguments evidence result harguments hevidence hresult
    cases h
    exact ⟨arguments, evidence, result, harguments, hevidence, hresult, rfl⟩
  · cases h

/-- A row is encoded as it is. -/
theorem Operation.encoded_idem {op row : Operation} (h : op.encoded = some row) :
    row.encoded = some row := by
  obtain ⟨arguments, evidence, result, harguments, hevidence, hresult, rfl⟩ :=
    Operation.encoded_eq h
  have harguments' := (PyVal.jsonDumpsItems_decoded harguments).self
  have hevidence' := PyVal.jsonDumpsList_self (PyVal.jsonDumpsList_idem hevidence)
  have hresult' := PyVal.jsonDumps_idem hresult
  simp only [Operation.encoded, harguments', hevidence', hresult']

/-- So is a row that was overwritten with another. -/
theorem Operation.encoded_overwrite {old row : Operation} (hold : old.encoded = some old)
    (hrow : row.encoded = some row) : (old.overwrite row).encoded = some (old.overwrite row) := by
  obtain ⟨arguments, _, _, harguments, _, _, holdeq⟩ := Operation.encoded_eq hold
  obtain ⟨_, evidence, result, _, hevidence, hresult, hroweq⟩ := Operation.encoded_eq hrow
  have harguments' : arguments = old.arguments := by rw [holdeq]
  have hevidence' : evidence = row.evidence := by rw [hroweq]
  have hresult' : result = row.result := by rw [hroweq]
  rw [harguments'] at harguments
  rw [hevidence'] at hevidence
  rw [hresult'] at hresult
  simp only [Operation.encoded, Operation.overwrite, harguments, hevidence, hresult]

/-- An operation that has a row is put into the table. -/
theorem upsertOperation_of_some {op row : Operation} (db : Database) (h : op.encoded = some row) :
    upsertOperation op db
      = .ok () { db with operations := db.operations.put (db.operationRow row) } := by
  unfold Operation.encoded at h
  split at h
  · rename_i arguments evidence result harguments hevidence hresult
    cases h
    unfold upsertOperation
    simp only [bind, EStateM.bind, dumpsItems, dumpsList, dumps, harguments, hevidence, hresult]
    rfl
  · cases h

/-- An operation that has no row is refused before the table is touched. -/
theorem upsertOperation_of_none {op : Operation} (db : Database) (h : op.encoded = none) :
    ∃ e, upsertOperation op db = .error e db := by
  unfold upsertOperation
  simp only [bind, EStateM.bind, dumpsItems, dumpsList, dumps]
  unfold Operation.encoded at h
  cases harguments : PyVal.jsonDumpsItems op.arguments with
  | none => exact ⟨_, rfl⟩
  | some arguments =>
      cases hevidence : PyVal.jsonDumpsList op.evidence with
      | none => exact ⟨_, rfl⟩
      | some evidence =>
          cases hresult : op.result.jsonDumps with
          | none => exact ⟨_, rfl⟩
          | some result =>
              rw [harguments, hevidence, hresult] at h
              cases h

/-- The engine once the row of an operation was stored. -/
def Sys.savedOp (s : Sys) (row : Operation) : Sys :=
  { s with
    db := { s.db with operations := s.db.operations.put (s.db.operationRow row) }
    boundaries := s.boundaries + 1 }

/-- The database once the row of an operation was stored with an event. -/
def Database.withOperation (db : Database) (row : Operation) (fields : EventFields)
    (eventId : String) (occurredAt : ℚ) (payload : List (PyKey × PyVal)) : Database :=
  Database.withEvent { db with operations := db.operations.put (db.operationRow row) }
    { fields with
      taskId := some row.taskId
      operationId := some row.operationId
      objectRefs := row.objectRefs } eventId occurredAt payload

/-- **An operation and its event** are written in one transaction. -/
theorem saveOperationWithOutboxEvent_eq {op row : Operation} (fields : EventFields)
    (eventId : String) (occurredAt : ℚ) (db : Database) (hencoded : op.encoded = some row)
    {payload : List (PyKey × PyVal)} (h : PyVal.jsonDumpsItems fields.payload = some payload) :
    saveOperationWithOutboxEvent op fields eventId occurredAt db
      = .ok eventId (db.withOperation row fields eventId occurredAt payload) := by
  have hop := upsertOperation_of_some db hencoded
  have hinsert := insertOutbox_eq
    { fields with
      taskId := some op.taskId
      operationId := some op.operationId
      objectRefs := op.objectRefs } eventId occurredAt
    { db with operations := db.operations.put (db.operationRow row) } h
  obtain ⟨_, _, _, _, _, _, hrow⟩ := Operation.encoded_eq hencoded
  refine transaction_of_ok (bind_eq_ok.mpr ⟨_, _, hop, ?_⟩)
  unfold Database.withOperation
  rw [hrow] at hinsert ⊢
  exact hinsert

/-- Where one of the two is no JSON, neither is written. -/
theorem saveOperationWithOutboxEvent_of_none {op : Operation} {fields : EventFields}
    {eventId a : String} {occurredAt : ℚ} {db : Database} (db' : Database)
    (hencoded : op.encoded = none ∨ PyVal.jsonDumpsItems fields.payload = none) :
    saveOperationWithOutboxEvent op fields eventId occurredAt db ≠ .ok a db' := by
  intro hrun
  obtain ⟨_, db₁, hop, hinsert⟩ := bind_eq_ok.mp (transaction_eq_ok hrun)
  rcases hencoded with hnone | hnone
  · obtain ⟨e, herror⟩ := upsertOperation_of_none db hnone
    cases herror.symm.trans hop
  · exact insertOutbox_of_none _ db' (by exact hnone) hinsert

/-- **The transaction of `prepare`** writes a task, an operation and an event. -/
theorem saveTaskAndOperationWithOutboxEvent_eq (task : Task) {op row : Operation}
    (fields : EventFields) (eventId : String) (occurredAt : ℚ) (db : Database)
    (hencoded : op.encoded = some row) (howner : op.taskId = task.taskId)
    {payload : List (PyKey × PyVal)} (h : PyVal.jsonDumpsItems fields.payload = some payload) :
    saveTaskAndOperationWithOutboxEvent task op fields eventId occurredAt db
      = .ok eventId (Database.withOperation { db with tasks := db.tasks.put task } row fields eventId
          occurredAt payload) := by
  have htask : upsertTask task db = .ok () { db with tasks := db.tasks.put task } := rfl
  have hop := upsertOperation_of_some { db with tasks := db.tasks.put task } hencoded
  have hinsert := insertOutbox_eq
    { fields with
      taskId := some op.taskId
      operationId := some op.operationId
      objectRefs := op.objectRefs } eventId occurredAt
    { db with
      tasks := db.tasks.put task
      operations := db.operations.put (db.operationRow row) } h
  obtain ⟨_, _, _, _, _, _, hrow⟩ := Operation.encoded_eq hencoded
  unfold saveTaskAndOperationWithOutboxEvent
  rw [← howner]
  refine transaction_of_ok (bind_eq_ok.mpr ⟨_, _, htask, bind_eq_ok.mpr ⟨_, _, hop, ?_⟩⟩)
  unfold Database.withOperation
  rw [hrow] at hinsert ⊢
  exact hinsert

/-- An operation that is no JSON keeps all three from being written. -/
theorem saveTaskAndOperationWithOutboxEvent_of_none {task : Task} {op : Operation}
    {fields : EventFields} {eventId a : String} {occurredAt : ℚ} {db : Database} (db' : Database)
    (hencoded : op.encoded = none) :
    saveTaskAndOperationWithOutboxEvent task op fields eventId occurredAt db ≠ .ok a db' := by
  intro hrun
  obtain ⟨_, db₁, htask, hrest⟩ := bind_eq_ok.mp (transaction_eq_ok hrun)
  obtain ⟨_, db₂, hop, _⟩ := bind_eq_ok.mp hrest
  obtain ⟨e, herror⟩ := upsertOperation_of_none db₁ hencoded
  cases herror.symm.trans hop

/-- The engine once the row of an operation was stored with an event. -/
def Sys.recordedOp (s : Sys) (env : Env) (row : Operation) (fields : EventFields)
    (payload : List (PyKey × PyVal)) : Sys :=
  { s with
    db := s.db.withOperation row fields (env.newId "evt" s.ids) (env.clock s.clockReads) payload
    ids := s.ids + 1
    clockReads := s.clockReads + 1
    boundaries := s.boundaries + 1 }

/-- The engine after the readings for an event that was not stored. -/
def Sys.unrecorded (s : Sys) : Sys := { s with ids := s.ids + 1, clockReads := s.clockReads + 1 }

/-- Assigning to an operation is done in memory and cannot end the process. -/
theorem ends_updateOperation {operationId : String} {op : Operation}
    (hget : s.operations.get? operationId = some op) {set : Operation → Operation}
    (h : Q () { s with operations := s.operations.put (set op) }) :
    Ends Q E (updateOperation operationId set) s := by
  unfold updateOperation
  exact Ends.bind (Ends.of_ok (getOperation_eq_ok.mpr ⟨hget, rfl⟩) (Ends.modifying h))

/-- **Saving an operation** raises with nothing written, or writes its row and passes a boundary. -/
theorem ends_saveOp (hpersistent : s.persistent = true) {operationId : String} {op : Operation}
    (hget : s.operations.get? operationId = some op)
    (hraised : op.encoded = none → ∀ e, E (.raised e) s)
    (hsaved : ∀ row, op.encoded = some row → Q () (s.savedOp row) ∧ E .crash (s.savedOp row)) :
    Ends Q E (saveOp env operationId) s := by
  unfold saveOp persisting
  refine Ends.bind (Ends.of_ok (getOperation_eq_ok.mpr ⟨hget, rfl⟩) (Ends.bind (Ends.get ?_)))
  rw [if_pos hpersistent]
  cases hencoded : op.encoded with
  | none =>
      obtain ⟨e, herror⟩ := upsertOperation_of_none s.db hencoded
      refine Ends.bind (ends_store (fun e _ _ => hraised hencoded e) (fun a db hrun => ?_))
      cases herror.symm.trans (transaction_eq_ok hrun)
  | some row =>
      have hwritten := transaction_of_ok (upsertOperation_of_some s.db hencoded)
      refine Ends.bind (ends_store (fun e db hrun => ?_) (fun a db hrun => ?_))
      · cases hwritten.symm.trans hrun
      · cases hwritten.symm.trans hrun
        obtain ⟨hok, hcrash⟩ := hsaved row hencoded
        exact ⟨Ends.pure hok, hcrash⟩

/-- **Recording it** draws the id of the event and reads the clock before, which an exception does
not take back.  What was assigned to the operation before is not taken back either. -/
theorem ends_recordOp (hpersistent : s.persistent = true) {operationId : String} {op : Operation}
    (hget : s.operations.get? operationId = some op) {eventType actor : String}
    {payload : List (PyKey × PyVal)}
    (hraised : op.encoded = none ∨ PyVal.jsonDumpsItems payload = none →
      ∀ e, E (.raised e) s.unrecorded)
    (hrecorded : ∀ row fields column, op.encoded = some row → fields.eventType = eventType →
      PyVal.jsonDumpsItems payload = some column →
      Q () (s.recordedOp env row fields column) ∧ E .crash (s.recordedOp env row fields column)) :
    Ends Q E (recordOp env operationId eventType actor payload) s := by
  unfold recordOp
  refine Ends.bind (Ends.of_ok (getOperation_eq_ok.mpr ⟨hget, rfl⟩) (Ends.bind (Ends.get ?_)))
  rw [if_pos hpersistent]
  refine Ends.bind (Ends.of_ok (rfl : newId env "evt" s = _) ?_)
  refine Ends.bind (Ends.of_ok (rfl : readClock env _ = _) ?_)
  by_cases hunsaved : op.encoded = none ∨ PyVal.jsonDumpsItems payload = none
  · refine Ends.bind (ends_store (fun e _ _ => hraised hunsaved e) (fun a db hrun => ?_))
    exact absurd hrun (saveOperationWithOutboxEvent_of_none _ hunsaved)
  rw [not_or] at hunsaved
  obtain ⟨row, hencoded⟩ := Option.ne_none_iff_exists'.mp hunsaved.1
  obtain ⟨column, hpayload⟩ := Option.ne_none_iff_exists'.mp hunsaved.2
  let fields : EventFields :=
    { eventType := eventType
      actor := actor
      workspaceId := op.workspaceId
      payload := payload }
  have hwritten := saveOperationWithOutboxEvent_eq fields (env.newId "evt" s.ids)
    (env.clock s.clockReads) s.db hencoded hpayload
  obtain ⟨hok, hcrash⟩ := hrecorded row fields column hencoded rfl hpayload
  refine Ends.bind (ends_store (fun e db hrun => ?_) (fun a db hrun => ?_))
  · cases hwritten.symm.trans hrun
  · cases hwritten.symm.trans hrun
    exact ⟨Ends.pure hok, hcrash⟩

/-- The engine once the task of a new operation was counted up and touched. -/
def Sys.startedTask (s : Sys) (task : Task) : Sys :=
  Sys.bumped { s with tasks := s.tasks.put task.started }

/-- The engine once the new operation is in memory too. -/
def Sys.opened (s : Sys) (task : Task) (op : Operation) : Sys :=
  { s.startedTask task with operations := s.operations.put op }

/-- The engine once the task and the row of its operation were stored with an event. -/
def Sys.recordedStart (s : Sys) (env : Env) (task : Task) (row : Operation) (fields : EventFields)
    (payload : List (PyKey × PyVal)) : Sys :=
  { s with
    db := Database.withOperation { s.db with tasks := s.db.tasks.put task } row fields
      (env.newId "evt" s.ids) (env.clock s.clockReads) payload
    ids := s.ids + 1
    clockReads := s.clockReads + 1
    boundaries := s.boundaries + 1 }

/-- **Starting an operation.** The task, the operation and the event are stored together, unless the
arguments of the operation are not JSON: then the task stays counted up in memory alone. -/
theorem ends_startOperation (hpersistent : s.persistent = true) {task : Task} {op : Operation}
    (howner : op.taskId = task.taskId) (hdied : E .crash (s.startedTask task))
    (hraised : op.encoded = none → ∀ e, E (.raised e) (s.opened task op).unrecorded)
    (hrecorded : ∀ row fields column, op.encoded = some row →
      fields.eventType = "operation.prepared" →
      Q () ((s.opened task op).recordedStart env task.started row fields column) ∧
        E .crash ((s.opened task op).recordedStart env task.started row fields column)) :
    Ends Q E (startOperation env task op) s := by
  unfold startOperation
  refine Ends.bind (Ends.modifying (Ends.bind (ends_bumpTasks hpersistent ?_ hdied)))
  refine Ends.bind (Ends.modifying (Ends.bind (Ends.get ?_)))
  show Ends Q E (ite ((s.opened task op).persistent = true) _ _) (s.opened task op)
  have hstill : (s.opened task op).persistent = true := hpersistent
  rw [if_pos hstill]
  refine Ends.bind (Ends.of_ok (rfl : newId env "evt" _ = _) ?_)
  refine Ends.bind (Ends.of_ok (rfl : readClock env _ = _) ?_)
  obtain ⟨column, hcolumn⟩ : ∃ column, PyVal.jsonDumpsItems (PyVal.payload
      [("budget_operations_started", .int task.started.budget.operationsStarted),
        ("budget_max_operations", .int task.budget.maxOperations)]) = some column :=
    PyVal.jsonDumpsItems_payload (by simp [PyVal.jsonDumps])
  let fields : EventFields :=
    { eventType := "operation.prepared"
      actor := "engine"
      workspaceId := op.workspaceId
      payload := PyVal.payload
        [("budget_operations_started", .int task.started.budget.operationsStarted),
          ("budget_max_operations", .int task.budget.maxOperations)] }
  -- only the row of the operation may fail to be JSON
  cases hencoded : op.encoded with
  | none =>
      refine Ends.bind (ends_store (fun e _ _ => hraised hencoded e) (fun a db hrun => ?_))
      exact absurd hrun (saveTaskAndOperationWithOutboxEvent_of_none _ hencoded)
  | some row =>
      have hwritten := saveTaskAndOperationWithOutboxEvent_eq task.started fields
        (env.newId "evt" s.ids) (env.clock s.clockReads) (s.startedTask task).db hencoded howner
        hcolumn
      refine Ends.bind (ends_store (fun e db hrun => ?_) (fun a db hrun => ?_))
      · cases hwritten.symm.trans hrun
      · cases hwritten.symm.trans hrun
        obtain ⟨hok, hcrash⟩ := hrecorded row fields column hencoded rfl
        exact ⟨Ends.pure hok, hcrash⟩

end

end LiandanluNative
