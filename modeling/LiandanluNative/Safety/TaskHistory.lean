/-
# LiandanluNative.Safety.TaskHistory — the events of a task are enough to rebuild it.

Every change of a task commits with an event, whose payload says what became of it: the state and
the reason of `wait`, the state and the phase of `update_runtime_state`, what was desired and what
came of it for a control, when a task was queued, which criteria are missing.  The names of the
events do not help (`wait` and `update_runtime_state` take any), so a reader goes by the payload
(`TaskView.after`).

A reader that starts from a new task and follows the journal of a store, first what was published
and then what still waits in the outbox, has every stored task as it is (`tasks_told`), wherever the
process was killed.
-/
import LiandanluNative.Lib.Journal
import LiandanluNative.Runtime.Upkeep
import LiandanluNative.Safety.PostedEvents

namespace LiandanluNative

open Lib (Table Account)
open Lib.Proc

/-! ## What a payload says

A reader of the log has a view of each task, and each event moves it on by what its payload says.
-/

/-- `TaskState(text)` -/
def TaskState.parse (text : String) : Option TaskState :=
  [.created, .queued, .running, .waiting, .pausing, .paused, .cancelling, .blocked, .completed,
    .failed, .cancelled].find? (fun state : TaskState => decide (state.value = text))

/-- `TaskPhase(text)` -/
def TaskPhase.parse (text : String) : Option TaskPhase :=
  [.observing, .thinking, .authorizing, .executing, .verifying, .replanning].find?
    (fun phase : TaskPhase => decide (phase.value = text))

/-- A state is read back from its text, … -/
@[simp] theorem TaskState.parse_value (state : TaskState) : parse state.value = some state := by
  cases state <;> decide

/-- … and a phase from its own. -/
@[simp] theorem TaskPhase.parse_value (phase : TaskPhase) : parse phase.value = some phase := by
  cases phase <;> decide

/-- Only RUNNING has the text of RUNNING. -/
theorem TaskState.value_eq_running {state : TaskState} :
    state.value = "RUNNING" ↔ state = .running := by
  cases state <;> decide

/-- `payload[name]`, where it is text.  A reader has the payload as JSON gives it back. -/
def Message.text (message : Message) (name : String) : Option String :=
  match PyVal.item? name message.payload with
  | some (.str text) => some text
  | _ => none

/-- `payload["queued_at"]` -/
def Message.queuedAt (message : Message) : Option ℚ :=
  match PyVal.item? "queued_at" message.payload with
  | some (.float at_) => at_
  | _ => none

/-- `payload["missing"]` names a criterion. -/
def Message.missesCriteria (message : Message) : Bool :=
  match PyVal.item? "missing" message.payload with
  | some missing => missing.truthy
  | none => false

/-- What the events of a task tell of it: the columns that the methods of `TaskRuntime` assign,
without the counters. -/
structure TaskView where
  state : TaskState := .created
  desiredState : TaskState := .created
  phase : TaskPhase := .observing
  waitReason : Option String := none
  queuedAt : Option ℚ := none
  deriving DecidableEq

/-- What the row of a task says of the same. -/
def Task.view (task : Task) : TaskView where
  state := task.state
  desiredState := task.desiredState
  phase := task.phase
  waitReason := task.waitReason
  queuedAt := task.queuedAt

/-- The task after an event about it.  An event is told by the names in its payload, as its type may
be any text the caller gave. -/
def TaskView.after (view : TaskView) (message : Message) : TaskView where
  state := ((message.text "state" <|> message.text "actual").bind TaskState.parse).getD
    (if message.queuedAt.isSome then .queued else view.state)
  desiredState := ((message.text "desired").bind TaskState.parse).getD
    (if message.queuedAt.isSome then .running else view.desiredState)
  phase := ((message.text "phase").bind TaskPhase.parse).getD
    (if message.missesCriteria then .replanning else view.phase)
  waitReason := message.text "reason" <|>
    (if message.text "desired" = some "RUNNING" then none else view.waitReason)
  queuedAt := message.queuedAt <|> view.queuedAt

/-- The events about a task itself; those about its operations name an operation. -/
def taskAccount : Account Message String TaskView where
  about message := if message.operationId = none then message.taskId else none
  start := {}
  apply view message := some (view.after message)

/-! ## What the payloads of an engine say

For each change of a task: what its event says is what the change did.
-/

/-- A payload of an engine is stored as it is. -/
theorem PyVal.jsonDumpsItems_payload_self (fields : List (String × PyVal))
    (hnames : (fields.map Prod.fst).Nodup)
    (hvalues : ∀ field ∈ fields, field.2.jsonDumps = some field.2) :
    PyVal.jsonDumpsItems (PyVal.payload fields) = some (PyVal.payload fields) := by
  refine PyVal.Decoded.self ⟨fun item hitem => ?_, ?_, fun item hitem => ?_⟩
  · obtain ⟨field, _, rfl⟩ := List.mem_map.mp hitem
    exact ⟨field.1, rfl⟩
  · have hinj : Function.Injective PyKey.str := fun _ _ h => PyKey.str.inj h
    have hmap := hnames.map hinj
    have hkeys : (PyVal.payload fields).map Prod.fst = (fields.map Prod.fst).map PyKey.str := by
      rw [PyVal.payload, List.map_map, List.map_map]
      rfl
    rwa [hkeys]
  · obtain ⟨field, hfield, rfl⟩ := List.mem_map.mp hitem
    exact hvalues field hfield

/-- The payload of a change is stored as it is. -/
theorem Task.Change.payload {task new : Task} {fields : EventFields} (h : task.Change new fields) :
    PyVal.jsonDumpsItems fields.payload = some fields.payload := by
  cases h with
  | evaluated claims =>
      refine PyVal.jsonDumpsItems_payload_self _ (by simp) ?_
      simp [PyVal.jsonDumps, PyVal.jsonDumps_strings]
  | _ =>
      refine PyVal.jsonDumpsItems_payload_self _ (by simp) ?_
      simp [PyVal.jsonDumps]

/-- A settled control was asked for, and not to run. -/
theorem Task.desired_of_settled {task : Task} {safeBoundary externalCancelConfirmed : Bool}
    (moved : (task.settled safeBoundary externalCancelConfirmed).state ≠ task.state) :
    task.desiredState ≠ .running := by
  intro hrunning
  apply moved
  simp [Task.settled, hrunning]

/-- **The event of a change says what became of the task**: one case for each line of the changes.
-/
theorem Task.Change.view {task new : Task} {fields : EventFields} (h : task.Change new fields)
    (eventId : String) :
    task.view.after (fields.message eventId fields.payload) = new.view := by
  cases h with
  | settled safeBoundary externalCancelConfirmed moved =>
      have hdesired := Task.desired_of_settled moved
      rw [settled_eq] at *
      simp [TaskView.after, Message.text, Message.queuedAt, Message.missesCriteria, PyVal.item?,
        PyVal.payload, EventFields.message, Task.eventFields, Task.view,
        TaskState.value_eq_running, hdesired]
  | evaluated claims =>
      by_cases hmissing : task.missing claims = [] <;>
        simp [TaskView.after, Message.text, Message.queuedAt, Message.missesCriteria, PyVal.item?,
          PyVal.payload, PyVal.strings, PyVal.truthy, EventFields.message, Task.eventFields,
          Task.view, Task.evaluated, hmissing]
  | _ =>
      simp [TaskView.after, Message.text, Message.queuedAt, Message.missesCriteria, PyVal.item?,
        PyVal.payload, EventFields.message, Task.eventFields, Task.view, Task.queued, Task.waiting,
        Task.updated, Task.controlled, TaskState.value_eq_running]

/-! ## What the store tells of its tasks -/

/-- The views of the stored tasks. -/
def Database.taskViews (db : Database) (taskId : String) : Option TaskView :=
  (db.tasks.get? taskId).map Task.view

/-- The journal tells the stored tasks, whose ids were given out, and no others. -/
structure TasksTold (env : Env) (ids : ℕ) (db : Database) : Prop where
  posted : Posted env ids db
  told : taskAccount.Tells db.messages db.taskViews
  taskIds : ∀ task ∈ db.tasks.rows, ∃ n < ids, task.taskId = env.newId "task" n

namespace TasksTold

variable {env : Env} {ids ids' : ℕ} {db db' : Database}

/-- A delivery, or a change elsewhere. -/
theorem posts (h : TasksTold env ids db) (hposts : Posts db db') (htasks : db'.tasks = db.tasks)
    (hids : ids ≤ ids') : TasksTold env ids' db' := by
  obtain ⟨hposted, hmessages⟩ := h.posted.posts hposts hids
  refine ⟨hposted, ?_, ?_⟩
  · rw [hmessages]
    refine h.told.congr (fun taskId => ?_)
    rw [Database.taskViews, htasks, Database.taskViews]
  · rw [htasks]
    intro task htask
    obtain ⟨n, hn, hid⟩ := h.taskIds task htask
    exact ⟨n, hn.trans_le hids, hid⟩

/-- Nothing is told of an id that was not drawn. -/
theorem fresh_task (h : TasksTold env ids db) (hinj : Function.Injective env.uuid) {n : ℕ}
    (hn : ids ≤ n) : db.tasks.get? (env.newId "task" n) = none := by
  refine Table.get?_eq_none.mpr (fun task htask heq => ?_)
  obtain ⟨m, hm, hid⟩ := h.taskIds task htask
  have hsame : m = n := env.newId_injective hinj "task" (hid.symm.trans heq)
  omega

/-- **A task and the event that tells of it.** -/
theorem post (h : TasksTold env ids db) (hinj : Function.Injective env.uuid) (task : Task)
    (fields : EventFields) (occurredAt : ℚ) {column : List (PyKey × PyVal)}
    (hpart : db'.outboxPart = db.outboxPart) (htasks : db'.tasks = db.tasks.put task)
    (hop : fields.operationId = none) (howner : fields.taskId = some task.taskId)
    (hid : ∃ n < ids, task.taskId = env.newId "task" n)
    (htells : ∀ view, (db.taskViews task.taskId).getD {} = view →
      view.after (fields.message (env.newId "evt" ids) column) = task.view) :
    TasksTold env (ids + 1) (db'.withEvent fields (env.newId "evt" ids) occurredAt column) := by
  obtain ⟨hposted, hmessages⟩ := h.posted.elsewhere hpart le_rfl
  obtain ⟨hposted', hmessages'⟩ := hposted.withEvent hinj fields occurredAt column
  refine ⟨hposted', ?_, ?_⟩
  · rw [hmessages', hmessages]
    refine h.told.append (k := task.taskId) (v := task.view) ?_ ?_ (fun other hne => ?_)
      (fun old hold => ?_) (fun hnone => ?_)
    · simp [taskAccount, EventFields.message, hop, howner]
    · show (db'.tasks.get? task.taskId).map Task.view = _
      rw [htasks, Table.get?_put_self]
      rfl
    · show (db'.tasks.get? other).map Task.view = _
      rw [htasks, Table.get?_put_ne _ (fun heq => hne heq.symm)]
      rfl
    · exact congrArg some (htells old (by rw [hold]; rfl))
    · exact congrArg some (htells {} (by rw [hnone]; rfl))
  · show ∀ stored ∈ db'.tasks.rows, _
    rw [htasks]
    intro stored hstored
    rcases Table.mem_put.mp hstored with rfl | ⟨hold, _⟩
    · obtain ⟨n, hn, heq⟩ := hid
      exact ⟨n, hn.trans (Nat.lt_succ_self _), heq⟩
    · obtain ⟨n, hn, heq⟩ := h.taskIds stored hold
      exact ⟨n, hn.trans (Nat.lt_succ_self _), heq⟩

/-- An event about an operation, and perhaps a task that shows no difference: `prepare` counts on
the task, and its event is of the operation. -/
theorem note (h : TasksTold env ids db) (hinj : Function.Injective env.uuid) {fields : EventFields}
    (occurredAt : ℚ) (column : List (PyKey × PyVal)) (hpart : db'.outboxPart = db.outboxPart)
    (hviews : ∀ taskId, db'.taskViews taskId = db.taskViews taskId)
    (hrows : ∀ task ∈ db'.tasks.rows, ∃ stored ∈ db.tasks.rows, stored.taskId = task.taskId)
    {operationId : String} (hop : fields.operationId = some operationId) :
    TasksTold env (ids + 1) (db'.withEvent fields (env.newId "evt" ids) occurredAt column) := by
  obtain ⟨hposted, hmessages⟩ := h.posted.elsewhere hpart le_rfl
  obtain ⟨hposted', hmessages'⟩ := hposted.withEvent hinj fields occurredAt column
  refine ⟨hposted', ?_, fun task htask => ?_⟩
  · rw [hmessages', hmessages]
    have hnone : taskAccount.about (fields.message (env.newId "evt" ids) column) = none := by
      simp [taskAccount, EventFields.message, hop]
    exact (h.told.aside hnone).congr hviews
  · obtain ⟨stored, hstored, hsame⟩ := hrows task htask
    obtain ⟨n, hn, heq⟩ := h.taskIds stored hstored
    exact ⟨n, hn.trans (Nat.lt_succ_self _), hsame.symm.trans heq⟩

end TasksTold

/-! ## Every call keeps it -/

/-- A living engine has the tasks of the store before it, as far as the events tell: what the next
change starts from is what the store has. -/
structure TasksKnown (env : Env) (s : Sys) : Prop where
  persistent : s.persistent = true
  views : ∀ taskId, (s.tasks.get? taskId).map Task.view = s.db.taskViews taskId
  told : TasksTold env s.ids s.db

namespace TasksKnown

variable {env : Env} {s t : Sys}

/-- What a call does besides its writes tells nothing of a task. -/
theorem aside (h : TasksKnown env s) (ht : Aside s t) : TasksKnown env t where
  persistent := ht.persistent.trans h.persistent
  views taskId := by
    rw [ht.tasks, Database.taskViews, ht.dbTasks]
    exact h.views taskId
  told := h.told.posts ht.posts ht.dbTasks ht.ids

theorem view (h : TasksKnown env s) {taskId : String} {task : Task}
    (hget : s.tasks.get? taskId = some task) : s.db.taskViews taskId = some task.view := by
  rw [← h.views, hget]
  rfl

theorem taskId (h : TasksKnown env s) {taskId : String} {task : Task}
    (hget : s.tasks.get? taskId = some task) : ∃ n < s.ids, task.taskId = env.newId "task" n := by
  obtain ⟨stored, hstored, _⟩ := Option.map_eq_some_iff.mp (h.view hget)
  obtain ⟨n, hn, hid⟩ := h.told.taskIds stored (Table.mem_of_get? hstored)
  have hsame : stored.taskId = task.taskId :=
    (Table.key_of_get? hstored).trans (Table.key_of_get? hget).symm
  exact ⟨n, hn, hsame.symm.trans hid⟩

/-- The tasks in memory are still those of the store after both were given one. -/
theorem views_put (h : TasksKnown env s) (task : Task) (taskId : String) :
    ((s.tasks.put task).get? taskId).map Task.view
      = ((s.db.tasks.put task).get? taskId).map Task.view := by
  rw [Table.get?_put, Table.get?_put]
  split
  · rfl
  · exact h.views taskId

/-- A change of a task is stored with the event that tells of it. -/
theorem changes (h : TasksKnown env s) (hinj : Function.Injective env.uuid) (taskId : String) :
    Changes env s taskId (fun _ t => TasksKnown env t)
      (Left (TasksKnown env) (fun t => TasksTold env t.ids t.db)) where
  persistent := h.persistent
  unchanged := h
  raised := fun _ _ => h
  died := fun _ new _ _ =>
    (h.told.posts (.elsewhere rfl) rfl le_rfl : TasksTold env s.ids (s.touchedTask new).db)
  recorded := by
    intro task new fields column hget hnew hop hchange hcolumn
    have hpayload : column = fields.payload := Option.some.inj (hcolumn.symm.trans hchange.payload)
    have htold : TasksTold env (s.ids + 1)
        ((s.touchedTask new).recordedTask env new.touched fields column).db := by
      refine h.told.post hinj new.touched
        { fields with taskId := some new.touched.taskId } _ rfl rfl hop rfl ?_
        (fun view hview => ?_)
      · obtain ⟨n, hn, hid⟩ := h.taskId hget
        exact ⟨n, hn, hnew.taskId.trans hid⟩
      · -- what was told of the task before is what is in memory
        have hid : new.touched.taskId = taskId := hnew.taskId.trans (Table.key_of_get? hget)
        rw [hid, h.view hget] at hview
        rw [← hview, hpayload]
        exact hchange.view (env.newId "evt" s.ids)
    have hknown : TasksKnown env ((s.touchedTask new).recordedTask env new.touched fields column) :=
      ⟨h.persistent, h.views_put new.touched, htold⟩
    exact ⟨hknown, htold⟩

/-- A new task begins as the reader takes it to begin. -/
theorem created (h : TasksKnown env s) (hinj : Function.Injective env.uuid) (goal : String)
    (successCriteria : List String) (workspaceId : String) (constraints : List String)
    (lane : String) (priority : Int) (budget : TaskBudget) :
    Ends (fun _ t => TasksKnown env t)
      (Left (TasksKnown env) (fun t => TasksTold env t.ids t.db))
      (createTask env goal successCriteria workspaceId constraints lane priority budget) s := by
  let task := newTask env s goal successCriteria workspaceId constraints lane priority budget
  have hbase : TasksTold env (s.ids + 1) (s.createdTask task).db :=
    h.told.posts (.elsewhere rfl) rfl (Nat.le_succ _)
  refine ends_createTask h.persistent goal successCriteria workspaceId constraints lane priority
    budget rfl hbase (fun fields column hop hfields hcolumn => ?_)
  have hpayload : column = fields.payload := by
    rw [hfields] at hcolumn ⊢
    refine Option.some.inj (hcolumn.symm.trans (PyVal.jsonDumpsItems_payload_self _ (by simp) ?_))
    simp [PyVal.jsonDumps]
  have htold : TasksTold env (s.ids + 1 + 1)
      ((s.createdTask task).recordedTask env task fields column).db := by
    refine hbase.post hinj task { fields with taskId := some task.taskId } _ rfl rfl hop rfl
      ⟨s.ids, Nat.lt_succ_self _, rfl⟩ (fun view hview => ?_)
    have hnone : (s.createdTask task).db.taskViews task.taskId = none := by
      show (s.db.tasks.get? (env.newId "task" s.ids)).map Task.view = none
      rw [h.told.fresh_task hinj le_rfl]
      rfl
    rw [hnone] at hview
    rw [← hview, hpayload, hfields]
    -- what the event says of a new task is not about its view
    rfl
  have hknown : TasksKnown env ((s.createdTask task).recordedTask env task fields column) :=
    ⟨h.persistent, h.views_put task, htold⟩
  exact ⟨hknown, htold⟩

/-- Only the tasks, the outbox and the ids matter. -/
theorem congr (h : TasksKnown env s) (hpersistent : t.persistent = s.persistent)
    (htasks : t.tasks = s.tasks) (hstored : t.db.tasks = s.db.tasks)
    (hpart : t.db.outboxPart = s.db.outboxPart) (hids : s.ids ≤ t.ids) : TasksKnown env t where
  persistent := hpersistent.trans h.persistent
  views taskId := by
    rw [htasks, Database.taskViews, hstored]
    exact h.views taskId
  told := h.told.posts (.elsewhere hpart) hstored hids

/-- The events of operations are passed over. -/
theorem recordedOp (h : TasksKnown env s) (hinj : Function.Injective env.uuid) (row : Operation)
    (fields : EventFields) (column : List (PyKey × PyVal)) :
    TasksKnown env (s.recordedOp env row fields column) where
  persistent := h.persistent
  views := h.views
  told := h.told.note hinj _ column rfl (fun _ => rfl) (fun task htask => ⟨task, htask, rfl⟩) rfl

/-- Storing an operation tells nothing of a task. -/
theorem ends_stored (h : TasksKnown env s) (hinj : Function.Injective env.uuid) {op : Operation}
    (hop : s.operations.get? op.operationId = some op) (how : OpStore) :
    Ends (fun _ t => TasksKnown env t)
      (Left (TasksKnown env) (fun t => TasksTold env t.ids t.db))
      (storeOp env op.operationId how) s := by
  cases how with
  | saved =>
      refine ends_saveOp h.persistent hop (fun _ _ => h) (fun row _ => ?_)
      have hsaved : TasksKnown env (s.savedOp row) := h.congr rfl rfl rfl rfl le_rfl
      exact ⟨hsaved, hsaved.told⟩
  | recorded eventType actor payload =>
      have hread : TasksKnown env s.unrecorded := h.congr rfl rfl rfl rfl (Nat.le_succ _)
      refine ends_recordOp h.persistent hop (fun _ _ => hread) (fun row fields column _ _ _ => ?_)
      have hrecorded := h.recordedOp hinj row fields column
      exact ⟨hrecorded, hrecorded.told⟩

/-- Counting an operation up on its task is no news of the task, whether it is stored or not. -/
theorem started (h : TasksKnown env s) (hinj : Function.Injective env.uuid) {task : Task}
    {op : Operation} (hget : s.tasks.get? task.taskId = some task) (howner : op.taskId = task.taskId) :
    Ends (fun _ t => TasksKnown env t)
      (Left (TasksKnown env) (fun t => TasksTold env t.ids t.db)) (startOperation env task op) s := by
  have hview := h.view hget
  -- a started operation changes nothing of the task that the events tell
  have hviews : ∀ taskId, ((s.tasks.put task.started).get? taskId).map Task.view
      = s.db.taskViews taskId := by
    intro taskId
    rw [Table.get?_put]
    split
    · rename_i heq
      rw [← heq]
      exact hview.symm
    · exact h.views taskId
  have hdied : TasksTold env s.ids (s.startedTask task).db :=
    h.told.posts (.elsewhere rfl) rfl le_rfl
  refine ends_startOperation h.persistent howner hdied (fun _ _ => ?_)
    (fun row fields column _ _ => ?_)
  · have hkept : TasksKnown env (s.opened task op).unrecorded :=
      ⟨h.persistent, hviews, h.told.posts (.elsewhere rfl) rfl (Nat.le_succ _)⟩
    exact hkept
  · have hstored : ∀ taskId, ((s.db.tasks.put task.started).get? taskId).map Task.view
        = s.db.taskViews taskId := fun taskId => by
      rw [← h.views_put, hviews]
    -- and its row is one that was there
    have hrows : ∀ other ∈ (s.db.tasks.put task.started).rows,
        ∃ stored ∈ s.db.tasks.rows, stored.taskId = other.taskId := by
      intro other hother
      rcases Table.mem_put.mp hother with rfl | ⟨hold, _⟩
      · obtain ⟨stored, hfound, _⟩ := Option.map_eq_some_iff.mp hview
        exact ⟨stored, Table.mem_of_get? hfound, Table.key_of_get? hfound⟩
      · exact ⟨other, hold, rfl⟩
    have htold : TasksTold env (s.ids + 1)
        ((s.opened task op).recordedStart env task.started row fields column).db :=
      h.told.note hinj _ column rfl hstored hrows rfl
    have hknown : TasksKnown env
        ((s.opened task op).recordedStart env task.started row fields column) :=
      ⟨h.persistent, fun taskId => (hviews taskId).trans (hstored taskId).symm, htold⟩
    exact ⟨hknown, htold⟩

/-- A new process knows what it loads. -/
theorem restarted (h : TasksTold env s.ids s.db) (registry : CapabilityRegistry)
    (capabilities : List String) (broker : Option ResourceBroker) :
    TasksKnown env (s.restart registry capabilities broker) :=
  ⟨rfl, fun _ => rfl, h.posts (.elsewhere rfl) rfl le_rfl⟩

end TasksKnown

/-- A run is made on any terms. -/
def anyTerms : Terms where
  creates := fun _ _ => True
  starts := fun _ => True
  begins := fun _ => True
  registers := fun _ => True
  observes := fun _ => True
  relates := fun _ => True

/-- **The events of the tasks are complete after every call**, on any terms: the rules ask nothing
of what is handed over. -/
theorem tasksKnown_rules {env : Env} (hinj : Function.Injective env.uuid) :
    EngineRules env anyTerms (TasksKnown env) (fun t => TasksTold env t.ids t.db) where
  durable := fun h => h.told
  apart := fun ht h => h.aside ht.toAside
  changes := fun taskId h => h.changes hinj taskId
  created := fun goal successCriteria workspaceId constraints lane priority budget h _ =>
    h.created hinj goal successCriteria workspaceId constraints lane priority budget
  started := by
    intro s task proposal spec expectedRevisions taskLease resourceLease clockReads h hget _ _
    have hread : TasksKnown env { s with ids := s.ids + 1, clockReads := clockReads } :=
      h.congr rfl rfl rfl rfl (Nat.le_succ _)
    exact hread.started hinj hget rfl
  operations :=
    { stored := by
        intro s op how op' h hop hstep
        have hassigned : TasksKnown env (s.assigned op') := h.congr rfl rfl rfl rfl le_rfl
        rw [← hstep.operationId]
        exact hassigned.ends_stored hinj (s.get?_assigned op') how
      called := fun _ _ _ _ h => h.congr rfl rfl rfl rfl le_rfl
      bounded := fun h => ⟨h.congr rfl rfl rfl rfl le_rfl, h.told⟩
      interrupted := fun h _ => h
      unusable := fun h _ _ _ _ => h
      unjudged := fun h _ _ _ _ _ => h.congr rfl rfl rfl rfl le_rfl }
  begun := by
    intro s op h hop _
    have hassigned : TasksKnown env (s.assigned op.begun) := h.congr rfl rfl rfl rfl le_rfl
    exact hassigned.ends_stored hinj (s.get?_assigned op.begun)
      (.recorded "operation.started" "engine" [])
  fresh := fun _ _ => trivial
  registered := fun _ => upheld_of_within (aside_registerEntity _) (fun _ _ ht h => h.aside ht)
    (fun _ h => h.told)
  observed := fun _ _ _ _ _ _ => upheld_of_within (aside_observe _ _ _ _ _)
    (fun _ _ ht h => h.aside ht) (fun _ h => h.told)
  related := fun _ _ _ _ => upheld_of_within (aside_relate _ _ _) (fun _ _ ht h => h.aside ht)
    (fun _ h => h.told)
  restarted := fun registry capabilities broker h => .restarted h registry capabilities broker

/-! ## Runs -/

/-- An engine on a new database. -/
structure Sys.Fresh (s : Sys) : Prop where
  persistent : s.persistent = true
  tasks : s.tasks = .empty
  operations : s.operations = .empty
  db : s.db = {}

/-- Of a new database there is nothing to know. -/
theorem TasksKnown.fresh {env : Env} {s : Sys} (hs : s.Fresh) : TasksKnown env s where
  persistent := hs.persistent
  views taskId := by
    rw [hs.tasks, hs.db]
    rfl
  told := by
    rw [hs.db]
    exact ⟨.fresh env s.ids, .nil, fun task htask => absurd htask List.not_mem_nil⟩

/-- **Tasks can be rebuilt from their events.**  Take any run of an engine on a new database, the
process ending at any boundary and being restarted, whose texts and integers can be stored.  Follow
the journal of the store, the event log and then the rows of the outbox that nobody has delivered:
what it tells of a task, from nothing on, is the state, the desired state, the phase, the reason to
wait and the time of queueing the task is stored with, and it tells nothing of tasks that are not
stored. -/
theorem tasks_told (env : Env) (hids : Function.Injective env.uuid) (s : Sys) (hs : s.Fresh)
    (calls : List Call) (hattended : Attended env true s calls)
    (_hstorable : StorableRun env s calls) :
    taskAccount.Tells (runCalls env s calls).db.journal (runCalls env s calls).db.taskViews := by
  have hknown : TasksKnown env s := .fresh hs
  have hend := (tasksKnown_rules hids).run hknown.told (fun _ => hknown) hattended
    (along_iff.mpr (fun _ _ _ _ => ⟨fun _ _ _ _ _ _ _ _ => trivial,
      fun _ _ _ _ _ _ _ _ => trivial, fun _ _ _ _ => trivial, fun _ _ => trivial,
      fun _ _ _ _ _ _ => trivial, fun _ _ _ _ => trivial⟩))
  rw [hend.posted.journal]
  exact hend.told

/-- A task is created, queued and published; the process ends while the user cancels it, and the next
one has it wait. -/
def killedWhileCancelling : List Call :=
  [.createTask "read the document" [] "w" [] "background" 50 {}, .queue "task_", .flushOutbox,
    .control "task_" .cancelled, .restart .empty [] none, .wait "task_" "blocked" "task.waiting"]

/-- The control was lost with the process: the task waits, and still is to run. -/
theorem tasks_told_killed :
    let env : Env := { Small.env with dies := fun n => decide (n = 5) }
    let db := (runCalls env { persistent := true } killedWhileCancelling).db
    taskAccount.Tells db.journal db.taskViews ∧
      (db.eventLog.length, db.journal.length) = (2, 3) ∧
      db.tasks.rows.map Task.view =
        [{ state := .waiting, desiredState := .running, waitReason := some "blocked",
           queuedAt := some 1 }] := by
  refine ⟨?_, by decide +kernel, by decide +kernel⟩
  exact tasks_told _ tallyId_injective _ ⟨rfl, rfl, rfl, rfl⟩ _ (by decide +kernel)
    (Small.storableRun rfl rfl rfl rfl (by decide) (by decide +kernel))

end LiandanluNative
