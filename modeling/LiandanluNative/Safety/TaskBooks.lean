/-
# LiandanluNative.Safety.TaskBooks — what the store says of a task, counted against what happened.

The revision of a stored task is the number of its changes, and each change commits with its event;
the operations a stored task has started are its rows in `operations`.  Both equalities are kept by
every call of a persistent engine and by every restart (`books_rules`), with one exception:
`prepare` counts the task up in memory before the transaction, and arguments that are not JSON make
the transaction raise.  The next save of the task then stores the count without the operation and
the revision without the event.

Texts that cannot be encoded and integers beyond 64 bits make other transactions raise in the same
way.  The writers of tasks and operations take them here (`Storage.Database`), so what is said of a
run is said of one that hands over none (`StorableRun`).

The books are kept of memory and store together (`Kept`): a task in memory is the stored one, so that
the next change starts from what the store has counted, and every operation in memory has a row.
-/
import LiandanluNative.Runtime.Upkeep

namespace LiandanluNative

open Lib (Table)
open Lib.Proc

/-! ## The books

What the outbox says of a task, counted by kind, beside what the task counts of itself.
-/

/-- What an outbox row says of whom: id, task, operation and event type.  All counts are made of
these. -/
abbrev Notice : Type := Int × Option String × Option String × String

/-- The event is about a change of the task: it has no operation, or prepares one. -/
def Notice.counts (taskId : String) (notice : Notice) : Bool :=
  decide (notice.2.1 = some taskId) &&
    (notice.2.2.1.isNone || decide (notice.2.2.2 = "operation.prepared"))

/-- What the outbox says of each row it ever had. -/
def Database.notices (db : Database) : List Notice := db.eventOutbox.rows.map OutboxRow.notice

/-- `SELECT COUNT(*) FROM event_outbox WHERE task_id=? AND (operation_id IS NULL OR
event_type='operation.prepared')` -/
def Database.taskEvents (db : Database) (taskId : String) : ℕ :=
  db.notices.countP (Notice.counts taskId)

/-- `SELECT COUNT(*) FROM operations WHERE task_id=?` -/
def Database.taskOperations (db : Database) (taskId : String) : ℕ :=
  db.operations.rows.countP (fun op => decide (op.taskId = taskId))

/-- The budget of a task that was created with `opening` and has started `n` operations: so many
more are counted, and not more than it allowed, where it allowed a number. -/
structure TaskBudget.Spent (opening budget : TaskBudget) (n : ℕ) : Prop where
  maximum : budget.maxOperations = opening.maxOperations
  started : budget.operationsStarted = opening.operationsStarted + n
  within : 0 ≤ opening.maxOperations → opening.operationsStarted ≤ opening.maxOperations →
    budget.operationsStarted ≤ opening.maxOperations

/-- One more operation of a task whose budget has room for it. -/
theorem TaskBudget.Spent.another {opening budget : TaskBudget} {n : ℕ} (h : opening.Spent budget n)
    (hbudget : ∃ at_, budget.blockReason at_ = none) :
    opening.Spent { budget with operationsStarted := budget.operationsStarted + 1 } (n + 1) := by
  refine ⟨h.maximum, ?_, fun hmax hle => ?_⟩
  · show budget.operationsStarted + 1 = _
    rw [h.started]
    omega
  · show budget.operationsStarted + 1 ≤ opening.maxOperations
    obtain ⟨at_, hfree⟩ := hbudget
    unfold TaskBudget.blockReason at hfree
    split at hfree
    · cases hfree
    · rename_i hroom
      rw [h.maximum] at hroom
      omega

/-- The books of a store whose next id is the `ids`-th.  `opening` gives the budget of the task that
takes an id, where it is looked at.  Ids that are still to be drawn have no books yet. -/
structure Booked (env : Env) (opening : ℕ → Option TaskBudget) (ids : ℕ) (db : Database) :
    Prop where
  sequence : ∀ row ∈ db.eventOutbox.rows, row.outboxId ≤ db.outboxSequence
  audited : ∀ task ∈ db.tasks.rows, task.revision = db.taskEvents task.taskId
  funded : ∀ task ∈ db.tasks.rows, ∀ n budget, task.taskId = env.newId "task" n →
    opening n = some budget → budget.Spent task.budget (db.taskOperations task.taskId)
  eventTasks : ∀ notice ∈ db.notices, ∀ taskId, notice.counts taskId = true →
    ∃ task ∈ db.tasks.rows, task.taskId = taskId
  operationTasks : ∀ op ∈ db.operations.rows, ∃ task ∈ db.tasks.rows, task.taskId = op.taskId
  taskIds : ∀ task ∈ db.tasks.rows, ∃ n < ids, task.taskId = env.newId "task" n
  operationIds : ∀ op ∈ db.operations.rows, ∃ n < ids, op.operationId = env.newId "op" n

/-- A living engine: its tasks are those of the store, and its operations have rows, so the next
change in memory is counted from where the store is. -/
structure Kept (env : Env) (opening : ℕ → Option TaskBudget) (s : Sys) : Prop where
  persistent : s.persistent = true
  tasks : ∀ taskId, s.tasks.get? taskId = s.db.tasks.get? taskId
  operations : ∀ op ∈ s.operations.rows, ∃ row,
    s.db.operations.get? op.operationId = some row ∧ row.taskId = op.taskId
  booked : Booked env opening s.ids s.db

section Events

variable {db : Database} (fields : EventFields) (eventId : String) (occurredAt : ℚ)
  (payload : List (PyKey × PyVal))

/-- What an event that is inserted adds to the notices. -/
theorem withEvent_notices (hseq : ∀ row ∈ db.eventOutbox.rows, row.outboxId ≤ db.outboxSequence) :
    (db.withEvent fields eventId occurredAt payload).notices
      = db.notices ++ [(db.outboxSequence + 1, fields.taskId, fields.operationId,
          fields.eventType)] := by
  have hnew : db.eventOutbox.get?
      (fields.row (db.outboxSequence + 1) eventId occurredAt payload).outboxId = none := by
    refine Table.get?_eq_none.mpr (fun row hrow heq => ?_)
    have hle := hseq row hrow
    have hid : row.outboxId = db.outboxSequence + 1 := heq
    omega
  unfold Database.notices Database.withEvent
  rw [Table.put_rows_of_get?_none hnew, List.map_append]
  rfl

/-- A new row has the highest number, so the numbers stay below the counter. -/
theorem withEvent_sequence
    (hseq : ∀ row ∈ db.eventOutbox.rows, row.outboxId ≤ db.outboxSequence) :
    ∀ row ∈ (db.withEvent fields eventId occurredAt payload).eventOutbox.rows,
      row.outboxId ≤ (db.withEvent fields eventId occurredAt payload).outboxSequence := by
  intro row hrow
  show row.outboxId ≤ db.outboxSequence + 1
  rcases Table.mem_put.mp hrow with rfl | ⟨hold, _⟩
  · exact le_rfl
  · have hle := hseq row hold
    omega

/-- The events of a task after one more event. -/
theorem withEvent_taskEvents
    (hseq : ∀ row ∈ db.eventOutbox.rows, row.outboxId ≤ db.outboxSequence) (taskId : String) :
    (db.withEvent fields eventId occurredAt payload).taskEvents taskId
      = db.taskEvents taskId +
        if Notice.counts taskId (db.outboxSequence + 1, fields.taskId, fields.operationId,
          fields.eventType) then 1 else 0 := by
  unfold Database.taskEvents
  rw [withEvent_notices fields eventId occurredAt payload hseq, List.countP_append,
    List.countP_singleton]

end Events

namespace Booked

variable {env : Env} {opening : ℕ → Option TaskBudget} {ids : ℕ} {db : Database}

/-- The books are about the ledger, and about ids that were given out. -/
theorem congr (h : Booked env opening ids db) {ids' : ℕ} {db' : Database} (hids : ids ≤ ids')
    (hledger : db'.ledger = db.ledger) : Booked env opening ids' db' := by
  simp only [Database.ledger, Prod.mk.injEq] at hledger
  obtain ⟨htasks, hoperations, hsequence, hnotices⟩ := hledger
  -- what is counted is counted from what is the same
  have hevents : ∀ taskId, db'.taskEvents taskId = db.taskEvents taskId := by
    intro taskId
    unfold Database.taskEvents Database.notices
    rw [hnotices]
  have hcounts : ∀ taskId, db'.taskOperations taskId = db.taskOperations taskId := by
    intro taskId
    unfold Database.taskOperations
    rw [hoperations]
  refine ⟨fun row hrow => ?_, ?_, ?_, ?_, ?_, ?_, ?_⟩
  · have hmem : row.notice ∈ db.eventOutbox.rows.map OutboxRow.notice := by
      rw [← hnotices]
      exact List.mem_map_of_mem hrow
    obtain ⟨row', hrow', heq⟩ := List.mem_map.mp hmem
    have hid : row'.outboxId = row.outboxId := congrArg Prod.fst heq
    rw [hsequence, ← hid]
    exact h.sequence row' hrow'
  · rw [htasks]
    intro task htask
    rw [hevents]
    exact h.audited task htask
  · rw [htasks]
    intro task htask
    rw [hcounts]
    exact h.funded task htask
  · rw [htasks]
    unfold Database.notices
    rw [hnotices]
    exact h.eventTasks
  · rw [htasks, hoperations]
    exact h.operationTasks
  · rw [htasks]
    intro task htask
    obtain ⟨n, hn, hid⟩ := h.taskIds task htask
    exact ⟨n, hn.trans_le hids, hid⟩
  · rw [hoperations]
    intro op hop
    obtain ⟨n, hn, hid⟩ := h.operationIds op hop
    exact ⟨n, hn.trans_le hids, hid⟩

/-- An id that is still to be drawn is that of no stored task. -/
theorem fresh_task (h : Booked env opening ids db) (hids : Function.Injective (env.newId "task"))
    {n : ℕ} (hn : ids ≤ n) : db.tasks.get? (env.newId "task" n) = none := by
  refine Table.get?_eq_none.mpr (fun task htask heq => ?_)
  obtain ⟨m, hm, hid⟩ := h.taskIds task htask
  have hsame : m = n := hids (hid.symm.trans heq)
  omega

/-- An id that is still to be drawn is that of no stored operation. -/
theorem fresh_operation (h : Booked env opening ids db)
    (hids : Function.Injective (env.newId "op")) {n : ℕ} (hn : ids ≤ n) :
    db.operations.get? (env.newId "op" n) = none := by
  refine Table.get?_eq_none.mpr (fun op hop heq => ?_)
  obtain ⟨m, hm, hid⟩ := h.operationIds op hop
  have hsame : m = n := hids (hid.symm.trans heq)
  omega

/-- Nothing was ever noted of a task that is not stored. -/
theorem taskEvents_of_none (h : Booked env opening ids db) {taskId : String}
    (hnone : db.tasks.get? taskId = none) : db.taskEvents taskId = 0 := by
  refine List.countP_eq_zero.mpr (fun notice hnotice hcounts => ?_)
  obtain ⟨task, htask, hid⟩ := h.eventTasks notice hnotice taskId hcounts
  exact Table.get?_eq_none.mp hnone task htask hid

/-- A task that is not stored has no operations. -/
theorem taskOperations_of_none (h : Booked env opening ids db) {taskId : String}
    (hnone : db.tasks.get? taskId = none) : db.taskOperations taskId = 0 := by
  refine List.countP_eq_zero.mpr (fun op hop howner => ?_)
  obtain ⟨task, htask, hid⟩ := h.operationTasks op hop
  exact Table.get?_eq_none.mp hnone task htask (hid.trans (of_decide_eq_true howner))

/-- **A task and its event are stored together**, with whatever operation is started on it.  All
changes of tasks come to this one lemma. -/
theorem post (h : Booked env opening ids db) (task : Task) (operations : Table Operation.operationId)
    (fields : EventFields) (eventId : String) (occurredAt : ℚ) (payload : List (PyKey × PyVal))
    (hcounts : fields.operationId = none ∨ fields.eventType = "operation.prepared")
    (howner : fields.taskId = some task.taskId)
    (hid : ∃ n < ids, task.taskId = env.newId "task" n)
    (hrevision : task.revision = db.taskEvents task.taskId + 1)
    (hops : ∀ op ∈ operations.rows, (∃ n < ids, op.operationId = env.newId "op" n) ∧
      (op.taskId = task.taskId ∨ ∃ t ∈ db.tasks.rows, t.taskId = op.taskId))
    (hothers : ∀ taskId, taskId ≠ task.taskId →
      operations.rows.countP (fun op => decide (op.taskId = taskId)) = db.taskOperations taskId)
    (hfunded : ∀ n budget, task.taskId = env.newId "task" n → opening n = some budget →
      budget.Spent task.budget
        (operations.rows.countP (fun op => decide (op.taskId = task.taskId)))) :
    Booked env opening ids (Database.withEvent
      { db with tasks := db.tasks.put task, operations := operations } fields eventId occurredAt
      payload) := by
  have hevents := @withEvent_taskEvents
    { db with tasks := db.tasks.put task, operations := operations } fields eventId occurredAt
    payload h.sequence
  have hnotices := @withEvent_notices
    { db with tasks := db.tasks.put task, operations := operations } fields eventId occurredAt
    payload h.sequence
  -- the new notice is about the task, and counts for no other
  have hself : ∀ taskId, Notice.counts taskId
      (db.outboxSequence + 1, fields.taskId, fields.operationId, fields.eventType) = true ↔
      taskId = task.taskId := by
    intro taskId
    unfold Notice.counts
    rw [howner]
    rcases hcounts with hnone | hprepared
    · simp [hnone, eq_comm]
    · simp [hprepared, eq_comm]
  have hstored : ∃ t ∈ (db.tasks.put task).rows, t.taskId = task.taskId :=
    ⟨task, Table.mem_put.mpr (Or.inl rfl), rfl⟩
  refine ⟨withEvent_sequence fields eventId occurredAt payload h.sequence, ?_, ?_, ?_, ?_, ?_, ?_⟩
  · intro t ht
    rw [hevents t.taskId]
    rcases Table.mem_put.mp ht with rfl | ⟨hold, hne⟩
    · rw [if_pos ((hself _).mpr rfl), hrevision]
      push_cast
      rfl
    · rw [if_neg (fun hcounted => hne ((hself _).mp hcounted))]
      exact h.audited t hold
  -- the budget of another task is spent as before
  · intro t ht n budget hn hopening
    rcases Table.mem_put.mp ht with rfl | ⟨hold, hne⟩
    · exact hfunded n budget hn hopening
    · have hcount := hothers t.taskId hne
      show budget.Spent t.budget (operations.rows.countP _)
      rw [hcount]
      exact h.funded t hold n budget hn hopening
  -- every notice is about a task that is stored
  · intro notice hnotice taskId hcounted
    rw [hnotices] at hnotice
    rcases List.mem_append.mp hnotice with hold | hnew
    · obtain ⟨t, ht, rfl⟩ := h.eventTasks notice hold taskId hcounted
      exact Table.exists_mem_put ht
    · rw [List.mem_singleton.mp hnew] at hcounted
      rw [(hself taskId).mp hcounted]
      exact hstored
  · intro op hop
    rcases (hops op hop).2 with heq | ⟨t, ht, heq⟩
    · rw [heq]
      exact hstored
    · rw [← heq]
      exact Table.exists_mem_put ht
  · intro t ht
    rcases Table.mem_put.mp ht with rfl | ⟨hold, _⟩
    · exact hid
    · exact h.taskIds t hold
  · exact fun op hop => (hops op hop).1

/-- **A started operation is stored with the count of its task and its event.** -/
theorem start (h : Booked env opening ids db) {task : Task} {row : Operation} {fields : EventFields}
    (eventId : String) (occurredAt : ℚ) (payload : List (PyKey × PyVal)) (hmem : task ∈ db.tasks.rows)
    (hid : ∃ n < ids, row.operationId = env.newId "op" n)
    (hnew : db.operations.get? row.operationId = none) (howner : row.taskId = task.taskId)
    (htype : fields.eventType = "operation.prepared")
    (hbudget : ∃ at_, task.budget.blockReason at_ = none) :
    Booked env opening ids (Database.withOperation { db with tasks := db.tasks.put task.started } row
      fields eventId occurredAt payload) := by
  have hfirst : Database.operationRow { db with tasks := db.tasks.put task.started } row = row := by
    unfold Database.operationRow
    rw [hnew]
  have hcount : ∀ taskId,
      (db.operations.put row).rows.countP (fun op => decide (op.taskId = taskId))
        = db.taskOperations taskId + if decide (task.taskId = taskId) then 1 else 0 := by
    intro taskId
    rw [Table.countP_put_of_get?_none _ hnew, howner]
    rfl
  unfold Database.withOperation
  rw [hfirst]
  refine h.post task.started (db.operations.put row) _ eventId occurredAt payload (Or.inr htype)
    (congrArg some howner) (h.taskIds task hmem) ?_ ?_ ?_ ?_
  · show task.revision + 1 = (db.taskEvents task.taskId : Int) + 1
    rw [h.audited task hmem]
  · intro op hop
    rcases Table.mem_put.mp hop with rfl | ⟨hop, _⟩
    · exact ⟨hid, Or.inl howner⟩
    · exact ⟨h.operationIds op hop, Or.inr (h.operationTasks op hop)⟩
  · intro taskId hne
    have hno : ¬ decide (task.taskId = taskId) = true := fun heq => hne (of_decide_eq_true heq).symm
    rw [hcount, if_neg hno, Nat.add_zero]
  · intro n budget hn hopening
    have hself : decide (task.taskId = task.started.taskId) = true := decide_eq_true rfl
    rw [hcount, if_pos hself]
    exact (h.funded task hmem n budget hn hopening).another hbudget

/-- The row of an operation that has one is replaced. -/
theorem saveOperation (h : Booked env opening ids db) {row old : Operation}
    (hold : db.operations.get? row.operationId = some old) (howner : row.taskId = old.taskId) :
    Booked env opening ids { db with operations := db.operations.put row } := by
  have hcounts : ∀ taskId,
      (db.operations.put row).rows.countP (fun op => decide (op.taskId = taskId))
        = db.taskOperations taskId :=
    fun taskId => Table.countP_put_of_get?_some hold (by rw [howner])
  refine ⟨h.sequence, h.audited, fun task htask n budget hn hopening => ?_, h.eventTasks, ?_,
    h.taskIds, ?_⟩
  · show budget.Spent task.budget ((db.operations.put row).rows.countP _)
    rw [hcounts]
    exact h.funded task htask n budget hn hopening
  · intro op hop
    rcases Table.mem_put.mp hop with rfl | ⟨hop, _⟩
    · rw [howner]
      exact h.operationTasks old (Table.mem_of_get? hold)
    · exact h.operationTasks op hop
  · intro op hop
    rcases Table.mem_put.mp hop with rfl | ⟨hop, _⟩
    · rw [← Table.key_of_get? hold]
      exact h.operationIds old (Table.mem_of_get? hold)
    · exact h.operationIds op hop

/-- An event about an operation that is not its preparation does not count: it is about no change of
the task. -/
theorem note (h : Booked env opening ids db) {fields : EventFields} (eventId : String)
    (occurredAt : ℚ) (payload : List (PyKey × PyVal)) {operationId : String}
    (hop : fields.operationId = some operationId) (htype : fields.eventType ≠ "operation.prepared") :
    Booked env opening ids (db.withEvent fields eventId occurredAt payload) := by
  have hself : ∀ taskId, Notice.counts taskId
      (db.outboxSequence + 1, fields.taskId, fields.operationId, fields.eventType) = false := by
    intro taskId
    simp [Notice.counts, hop, htype]
  refine ⟨withEvent_sequence fields eventId occurredAt payload h.sequence, ?_, h.funded, ?_,
    h.operationTasks, h.taskIds, h.operationIds⟩
  · intro task htask
    rw [withEvent_taskEvents fields eventId occurredAt payload h.sequence, hself]
    exact h.audited task htask
  · intro notice hnotice taskId hcounted
    rw [withEvent_notices fields eventId occurredAt payload h.sequence] at hnotice
    rcases List.mem_append.mp hnotice with hold | hnew
    · exact h.eventTasks notice hold taskId hcounted
    · rw [List.mem_singleton.mp hnew, hself] at hcounted
      cases hcounted

end Booked

/-! ## What keeps the books

Each write of a task or an operation is stored with its event in one transaction, so both sides of
the books change together or not at all.
-/

/-- New tasks are funded as `opening` says, and the arguments of started proposals are JSON. -/
def bookTerms (opening : ℕ → Option TaskBudget) : Terms where
  creates := fun s budget => ∀ opened, opening s.ids = some opened → opened = budget
  starts := fun arguments => (PyVal.jsonDumpsItems arguments).isSome = true
  begins := fun _ => True
  registers := fun _ => True
  observes := fun _ => True
  relates := fun _ => True

/-- What a process leaves to the next: the books of the store, whatever became of memory. -/
def BookedStore (env : Env) (opening : ℕ → Option TaskBudget) (s : Sys) : Prop :=
  Booked env opening s.ids s.db

namespace Kept

variable {env : Env} {opening : ℕ → Option TaskBudget} {s t : Sys}

/-- What a call does besides its writes of tasks and operations keeps the books. -/
theorem aside (h : Kept env opening s) (ht : Aside s t) : Kept env opening t where
  persistent := ht.persistent.trans h.persistent
  tasks := fun taskId => by rw [ht.tasks, ht.dbTasks, h.tasks]
  operations := by
    rw [ht.operations, ht.dbOperations]
    exact h.operations
  booked := h.booked.congr ht.ids ht.ledger

/-- A task as memory and store have it. -/
theorem stored (h : Kept env opening s) {taskId : String} {task : Task}
    (hget : s.tasks.get? taskId = some task) : task ∈ s.db.tasks.rows :=
  Table.mem_of_get? ((h.tasks taskId).symm.trans hget)

/-- A change of a task counts it up in memory, and then stores it with its event in one transaction;
where that does not come through, the call raises or the process ends. -/
theorem changes (h : Kept env opening s) (taskId : String) :
    Changes env s taskId (fun _ t => Kept env opening t)
      (Left (Kept env opening) (BookedStore env opening)) where
  persistent := h.persistent
  unchanged := h
  raised := fun _ _ => h
  died := fun task new hget hnew =>
    (h.booked.congr le_rfl rfl : Booked env opening s.ids (s.touchedTask new).db)
  recorded := by
    intro task new fields column hget hnew hop _ _
    have hmem := h.stored hget
    have hbase : Booked env opening s.ids (s.touchedTask new).db := h.booked.congr le_rfl rfl
    have hbooked : Booked env opening (s.ids + 1)
        ((s.touchedTask new).recordedTask env new.touched fields column).db := by
      refine Booked.congr (hbase.post new.touched (s.touchedTask new).db.operations
        { fields with taskId := some new.touched.taskId } _ _ _ (Or.inl hop) rfl ?_ ?_ ?_
        (fun _ _ => rfl) ?_) (Nat.le_succ _) rfl
      · show ∃ n < s.ids, new.taskId = env.newId "task" n
        rw [hnew.taskId]
        exact h.booked.taskIds task hmem
      · show new.revision + 1 = _
        rw [hnew.revision, h.booked.audited task hmem]
        show _ = (s.db.taskEvents new.taskId : Int) + 1
        rw [hnew.taskId]
      · exact fun op hop => ⟨h.booked.operationIds op hop, Or.inr (h.booked.operationTasks op hop)⟩
      · intro n budget hn hopening
        have hfunded := h.booked.funded task hmem n budget (hnew.taskId.symm.trans hn) hopening
        show budget.Spent new.budget (s.db.taskOperations new.taskId)
        rw [hnew.budget, hnew.taskId]
        exact hfunded
    refine ⟨⟨h.persistent, fun id => ?_, h.operations, hbooked⟩, hbooked⟩
    show (s.tasks.put new.touched).get? id = (s.db.tasks.put new.touched).get? id
    rw [Table.get?_put, Table.get?_put, h.tasks]

/-- A new task is stored with its first revision and its first event. -/
theorem created (h : Kept env opening s) (hids : Function.Injective env.uuid) (goal : String)
    (successCriteria : List String) (workspaceId : String) (constraints : List String)
    (lane : String) (priority : Int) (budget : TaskBudget)
    (hbudget : ∀ opened, opening s.ids = some opened → opened = budget) :
    Ends (fun _ t => Kept env opening t) (Left (Kept env opening) (BookedStore env opening))
      (createTask env goal successCriteria workspaceId constraints lane priority budget) s := by
  have hinj := Env.newId_injective hids "task"
  have hnone := h.booked.fresh_task hinj le_rfl
  refine ends_createTask h.persistent goal successCriteria workspaceId constraints lane priority
    budget rfl (h.booked.congr (Nat.le_succ _) rfl) (fun fields column hop _ _ => ?_)
  let task := newTask env s goal successCriteria workspaceId constraints lane priority budget
  have hbase : Booked env opening (s.ids + 1) (s.createdTask task).db :=
    h.booked.congr (Nat.le_succ _) rfl
  have hbooked : Booked env opening (s.ids + 1 + 1)
      ((s.createdTask task).recordedTask env task fields column).db := by
    refine Booked.congr (hbase.post task (s.createdTask task).db.operations
      { fields with taskId := some task.taskId } _ _ _ (Or.inl hop) rfl
      ⟨s.ids, Nat.lt_succ_self _, rfl⟩ ?_ ?_ (fun _ _ => rfl) ?_) (Nat.le_succ _) rfl
    · have hzero : s.db.taskEvents task.taskId = 0 := h.booked.taskEvents_of_none hnone
      show (1 : Int) = (s.db.taskEvents task.taskId : Int) + 1
      rw [hzero]
      rfl
    · exact fun op hop => ⟨hbase.operationIds op hop, Or.inr (h.booked.operationTasks op hop)⟩
    · intro n opened hn hopening
      have hsame : s.ids = n := hinj hn
      subst hsame
      have hzero : s.db.taskOperations task.taskId = 0 := h.booked.taskOperations_of_none hnone
      show opened.Spent budget (s.db.taskOperations task.taskId)
      rw [hbudget opened hopening, hzero]
      exact ⟨rfl, by simp, fun _ hle => hle⟩
  refine ⟨⟨h.persistent, fun id => ?_, h.operations, hbooked⟩, hbooked⟩
  show (s.tasks.put task).get? id = (s.db.tasks.put task).get? id
  rw [Table.get?_put, Table.get?_put, h.tasks]

/-- **Prepare.** The task counts one more operation and one more revision, and the row of the
operation and the event come with it; so the arguments have to be JSON, or memory is left ahead of
the books. -/
theorem started (h : Kept env opening s) (hids : Function.Injective env.uuid) {task : Task}
    (proposal : ActionProposal) (spec : ActionSpec) (expectedRevisions : List (String × Int))
    (taskLease : Option TaskLease) (resourceLease : Option ResourceLease) (clockReads : ℕ)
    (hget : s.tasks.get? task.taskId = some task)
    (hjson : (PyVal.jsonDumpsItems proposal.arguments).isSome = true)
    (hbudget : ∃ at_, task.budget.blockReason at_ = none) :
    Ends (fun _ t => Kept env opening t) (Left (Kept env opening) (BookedStore env opening))
      (startOperation env task (proposal.operation (env.newId "op" s.ids) task spec
        expectedRevisions taskLease resourceLease))
      { s with ids := s.ids + 1, clockReads := clockReads } := by
  have hinj := Env.newId_injective hids "op"
  have hmem := h.stored hget
  have hnone := h.booked.fresh_operation hinj le_rfl
  let base : Sys := { s with ids := s.ids + 1, clockReads := clockReads }
  let op := proposal.operation (env.newId "op" s.ids) task spec expectedRevisions taskLease
    resourceLease
  have hdied : BookedStore env opening (base.startedTask task) :=
    h.booked.congr (Nat.le_succ _) rfl
  have hstill : base.persistent = true := h.persistent
  have howns : op.taskId = task.taskId := rfl
  refine ends_startOperation (E := Left (Kept env opening) (BookedStore env opening)) hstill howns
    hdied (fun hencoded => ?_) (fun row fields column hencoded htype => ?_)
  · -- the row of a new operation is JSON when its arguments are
    obtain ⟨arguments, harguments⟩ := Option.isSome_iff_exists.mp hjson
    simp [Operation.encoded, ActionProposal.operation, harguments, PyVal.jsonDumpsList,
      PyVal.jsonDumps] at hencoded
  obtain ⟨_, _, _, _, _, _, hrow⟩ := Operation.encoded_eq hencoded
  have hid : row.operationId = env.newId "op" s.ids := by
    rw [hrow]
    rfl
  have howner : row.taskId = task.taskId := by
    rw [hrow]
    rfl
  -- the id was never given out, so the row is a new one
  have hput : s.db.operations.get? row.operationId = none := by
    rw [hid]
    exact hnone
  let done := (base.opened task op).recordedStart env task.started row fields column
  -- the books count one operation and one event more for the task
  have hbooked : Booked env opening done.ids done.db :=
    (hdied.start (env.newId "evt" base.ids) (env.clock base.clockReads) column hmem
      ⟨s.ids, Nat.lt_succ_self _, hid⟩ hput howner htype hbudget).congr (Nat.le_succ _) rfl
  refine ⟨⟨h.persistent, fun id => ?_, ?_, hbooked⟩, hbooked⟩
  · show (s.tasks.put task.started).get? id = (s.db.tasks.put task.started).get? id
    rw [Table.get?_put, Table.get?_put, h.tasks]
  · intro op' hop'
    have hrows : done.db.operations = s.db.operations.put row := by
      show s.db.operations.put (s.db.operationRow row) = _
      unfold Database.operationRow
      rw [hput]
    rw [hrows]
    rcases Table.mem_put.mp hop' with rfl | ⟨hop', hne⟩
    · have hself : row.operationId = op.operationId := hid
      refine ⟨row, ?_, howner⟩
      rw [← hself]
      exact Table.get?_put_self _ row
    · obtain ⟨row', hrow', howner'⟩ := h.operations op' hop'
      refine ⟨row', ?_, howner'⟩
      rw [Table.get?_put, if_neg]
      · exact hrow'
      · rw [hid]
        exact fun heq => hne heq.symm

/-- An assignment that leaves the ids of an operation alone keeps the books. -/
theorem assigned (h : Kept env opening s) {op op' : Operation}
    (hop : s.operations.get? op.operationId = some op) (hid : op'.operationId = op.operationId)
    (howner : op'.taskId = op.taskId) : Kept env opening (s.assigned op') where
  persistent := h.persistent
  tasks := h.tasks
  operations := by
    intro other hother
    rcases Table.mem_put.mp hother with rfl | ⟨hother, _⟩
    · rw [hid, howner]
      exact h.operations op (Table.mem_of_get? hop)
    · exact h.operations other hother
  booked := h.booked

/-- The row of an operation in memory may be replaced by what the operation is encoded as. -/
theorem saved (h : Kept env opening s) {op row : Operation}
    (hop : s.operations.get? op.operationId = some op) (hencoded : op.encoded = some row) :
    Kept env opening (s.savedOp row) := by
  obtain ⟨_, _, _, _, _, _, hrow⟩ := Operation.encoded_eq hencoded
  have hid : row.operationId = op.operationId := by rw [hrow]
  obtain ⟨old, hold, howner⟩ := h.operations op (Table.mem_of_get? hop)
  rw [← hid] at hold
  have hnew : s.db.operationRow row = old.overwrite row := by
    unfold Database.operationRow
    rw [hold]
  have hkey : (old.overwrite row).operationId = row.operationId := by
    have hsame : old.operationId = row.operationId := Table.key_of_get? hold
    exact hsame
  have hrows : (s.savedOp row).db.operations = s.db.operations.put (old.overwrite row) := by
    rw [← hnew]
    rfl
  refine ⟨h.persistent, h.tasks, fun other hother => ?_, ?_⟩
  · obtain ⟨row', hrow', howner'⟩ := h.operations other hother
    rw [hrows, Table.get?_put]
    split
    · rename_i heq
      refine ⟨_, rfl, ?_⟩
      rw [← hkey.symm.trans heq] at hrow'
      cases hold.symm.trans hrow'
      exact howner'
    · exact ⟨row', hrow', howner'⟩
  · have hold' : s.db.operations.get? (old.overwrite row).operationId = some old := by
      rw [hkey]
      exact hold
    have hbooked := @Booked.saveOperation env opening s.ids s.db h.booked (old.overwrite row) old
      hold' rfl
    rw [← hnew] at hbooked
    exact hbooked

/-- An assignment to an operation writes its own row and an event that is not of the task. -/
theorem recorded (h : Kept env opening s) {op row : Operation} {fields : EventFields}
    {column : List (PyKey × PyVal)} (hop : s.operations.get? op.operationId = some op)
    (hencoded : op.encoded = some row) (htype : fields.eventType ≠ "operation.prepared") :
    Kept env opening (s.recordedOp env row fields column) := by
  have hsaved := h.saved hop hencoded
  have hbooked : Booked env opening s.ids (s.recordedOp env row fields column).db :=
    hsaved.booked.note _ _ _ rfl htype
  exact
    { persistent := h.persistent
      tasks := h.tasks
      operations := hsaved.operations
      booked := hbooked.congr (Nat.le_succ _) rfl }

/-- So the books stay as they are, whichever way an operation is stored. -/
theorem ends_stored (h : Kept env opening s) {op : Operation}
    (hop : s.operations.get? op.operationId = some op) {how : OpStore}
    (htype : ∀ eventType actor payload, how = .recorded eventType actor payload →
      eventType ≠ "operation.prepared") :
    Ends (fun _ t => Kept env opening t) (Left (Kept env opening) (BookedStore env opening))
      (storeOp env op.operationId how) s := by
  cases how with
  | saved =>
      refine ends_saveOp h.persistent hop (fun _ _ => h) (fun row hencoded => ?_)
      exact ⟨h.saved hop hencoded, (h.saved hop hencoded).booked⟩
  | recorded eventType actor payload =>
      have hread : Kept env opening s.unrecorded := h.aside { Aside.refl with ids := Nat.le_succ _ }
      refine ends_recordOp h.persistent hop (fun _ _ => hread)
        (fun row fields column hencoded hevent _ => ?_)
      have hdone := @recorded env opening s h op row fields column hop hencoded
        (hevent ▸ htype eventType actor payload rfl)
      exact ⟨hdone, hdone.booked⟩

end Kept

/-- **The books are kept by every call**, on their terms: one field for each kind of block a call is
made of. -/
theorem books_rules (env : Env) (hids : Function.Injective env.uuid)
    (opening : ℕ → Option TaskBudget) :
    EngineRules env (bookTerms opening) (Kept env opening) (BookedStore env opening) where
  durable := fun h => h.booked
  apart := fun ht h => h.aside ht.toAside
  changes := fun taskId h => h.changes taskId
  created := fun goal successCriteria workspaceId constraints lane priority budget h hbudget =>
    h.created hids goal successCriteria workspaceId constraints lane priority budget hbudget
  started := fun proposal spec expectedRevisions taskLease resourceLease clockReads h hget hjson
      hbudget =>
    h.started hids proposal spec expectedRevisions taskLease resourceLease clockReads hget hjson
      hbudget
  operations :=
    -- an operation that is stored again brings an event, but never operation.prepared
    { stored := by
        intro s op how op' h hop hstep
        have hassigned := h.assigned hop hstep.operationId hstep.taskId
        have hget := s.get?_assigned op'
        rw [← hstep.operationId]
        refine hassigned.ends_stored hget (fun eventType actor payload hhow => ?_)
        subst hhow
        exact hstep.eventType
      called := fun calls findings invocations _ h =>
        { persistent := h.persistent
          tasks := h.tasks
          operations := h.operations
          booked := h.booked }
      bounded := fun h => ⟨h.aside { Aside.refl with }, h.booked⟩
      interrupted := fun h _ => h
      unusable := fun h _ _ _ _ => h
      unjudged := fun h hop _ _ _ _ => h.assigned hop rfl rfl }
  -- neither does one whose execution begins
  begun := by
    intro s op h hop _
    have hassigned := @Kept.assigned env opening s h op op.begun hop rfl rfl
    refine @Kept.ends_stored env opening _ hassigned op.begun (s.get?_assigned op.begun)
      (.recorded "operation.started" "engine" []) ?_
    rintro _ _ _ ⟨⟩
    decide
  fresh := fun _ _ => trivial
  registered := fun _ => upheld_of_within (aside_registerEntity _) (fun _ _ ht h => h.aside ht)
    (fun _ h => h.booked)
  observed := fun _ _ _ _ _ _ => upheld_of_within (aside_observe _ _ _ _ _)
    (fun _ _ ht h => h.aside ht) (fun _ h => h.booked)
  related := fun _ _ _ _ => upheld_of_within (aside_relate _ _ _) (fun _ _ ht h => h.aside ht)
    (fun _ h => h.booked)
  restarted := fun registry capabilities broker h =>
    { persistent := rfl
      tasks := fun _ => rfl
      operations := fun op hop => ⟨op, Table.get?_of_mem hop, rfl⟩
      booked := h.congr le_rfl rfl }

/-! ## Runs -/

/-- An engine on a store that has no task, operation or event yet. -/
structure Sys.Unused (s : Sys) : Prop where
  persistent : s.persistent = true
  tasks : s.tasks = .empty
  operations : s.operations = .empty
  dbTasks : s.db.tasks = .empty
  dbOperations : s.db.operations = .empty
  events : s.db.eventOutbox = .empty

/-- A proposal that gets as far as starting an operation has arguments that are JSON. -/
def Call.StartsJson (env : Env) (s : Sys) (call : Call) : Prop :=
  ∀ u taskId proposal expectedRevisions taskLease resourceLease,
    call.Prepares env s u taskId proposal expectedRevisions taskLease resourceLease →
    Starts env u taskId proposal expectedRevisions taskLease resourceLease →
    (PyVal.jsonDumpsItems proposal.arguments).isSome = true

/-- A task that the call creates is funded as `opening` says, which takes the id the call is about
to draw. -/
def Call.OpensBy (opening : ℕ → Option TaskBudget) (s : Sys) (call : Call) : Prop :=
  ∀ goal successCriteria workspaceId constraints lane priority budget,
    call = .createTask goal successCriteria workspaceId constraints lane priority budget →
    ∀ opened, opening s.ids = some opened → opened = budget

/-- The books of an unused store are empty. -/
theorem Kept.unused {env : Env} {s : Sys} (hs : s.Unused) (opening : ℕ → Option TaskBudget) :
    Kept env opening s where
  persistent := hs.persistent
  tasks := fun taskId => by rw [hs.tasks, hs.dbTasks]
  operations := by
    rw [hs.operations]
    exact fun op hop => absurd hop List.not_mem_nil
  booked := by
    have hnotices : s.db.notices = [] := by
      unfold Database.notices
      rw [hs.events]
      rfl
    refine ⟨?_, ?_, ?_, ?_, ?_, ?_, ?_⟩
    · rw [hs.events]
      exact fun row hrow => absurd hrow List.not_mem_nil
    · rw [hs.dbTasks]
      exact fun task htask => absurd htask List.not_mem_nil
    · rw [hs.dbTasks]
      exact fun task htask => absurd htask List.not_mem_nil
    · rw [hnotices]
      exact fun notice hnotice => absurd hnotice List.not_mem_nil
    · rw [hs.dbOperations]
      exact fun op hop => absurd hop List.not_mem_nil
    · rw [hs.dbTasks]
      exact fun task htask => absurd htask List.not_mem_nil
    · rw [hs.dbOperations]
      exact fun op hop => absurd hop List.not_mem_nil

/-- The books after a run whose new tasks are funded as `opening` says, over restarts and wherever a
process has ended. -/
theorem booked_run {env : Env} (hids : Function.Injective env.uuid) {s : Sys} (hs : s.Unused)
    {opening : ℕ → Option TaskBudget} {calls : List Call} (hattended : Attended env true s calls)
    (hjson : Along env (Call.StartsJson env) s calls)
    (hopening : Along env (Call.OpensBy opening) s calls) :
    BookedStore env opening (runCalls env s calls) := by
  have hkept : Kept env opening s := .unused hs opening
  refine (books_rules env hids opening).run hkept.booked (fun _ => hkept) hattended ?_
  refine (hjson.and hopening).mono (fun s call hcall => ?_)
  exact ⟨hcall.2, hcall.1, fun _ _ _ _ => trivial, fun _ _ => trivial,
    fun _ _ _ _ _ _ => trivial, fun _ _ _ _ => trivial⟩

/-- **Every task change is audited, where arguments are JSON.**  Take any run of an engine on a
fresh store, the process ending at any boundary and being restarted, whose texts and integers can be
stored.  If every proposal that starts an operation has arguments that are JSON, the revision of each
stored task is the number of its events. -/
theorem changes_audited (env : Env) (hids : Function.Injective env.uuid) (s : Sys) (hs : s.Unused)
    (calls : List Call) (hattended : Attended env true s calls)
    (_hstorable : StorableRun env s calls) (hjson : Along env (Call.StartsJson env) s calls) :
    ∀ task ∈ (runCalls env s calls).db.tasks.rows,
      task.revision = (runCalls env s calls).db.taskEvents task.taskId := by
  have hbooked : BookedStore env (fun _ => none) (runCalls env s calls) := by
    refine booked_run hids hs hattended hjson (hjson.mono (fun _ _ _ => ?_))
    exact fun _ _ _ _ _ _ _ _ opened hnone => by cases hnone
  exact hbooked.audited

/-- An engine on a fresh store, with one action that takes options. -/
def unusedEngine : Sys where
  persistent := true
  registry := Table.empty.put { Small.spec with allowedArguments := {"options"} }
  capabilities := ["editor"]

/-- The engine of the examples starts on an unused store. -/
theorem unusedEngine_unused : unusedEngine.Unused := ⟨rfl, rfl, rfl, rfl, rfl, rfl⟩

/-- A proposal with an argument `json.dumps` refuses. -/
def unencodable : ActionProposal :=
  { Small.proposal with objectRefs := [], arguments := [(.str "options", .other 0)] }

/-- A task is created, the proposal prepared on it, and the task has to wait. -/
def preparedThenWaiting (proposal : ActionProposal) : List Call :=
  [.createTask "read the document" [] "w" [] "background" 50 { maxOperations := 1 },
    .prepare "task_" proposal [] none none, .wait "task_" "blocked" "task.waiting"]

/-- All that the run of the examples hands over can be stored. -/
theorem preparedThenWaiting_storable (proposal : ActionProposal) :
    StorableRun Small.env unusedEngine (preparedThenWaiting proposal) := by
  refine Small.storableRun rfl rfl rfl rfl (by decide +kernel) (fun call hcall => ?_)
  simp only [preparedThenWaiting, List.mem_cons, List.not_mem_nil, or_false] at hcall
  rcases hcall with rfl | rfl | rfl
  all_goals exact of_decide_eq_true rfl

/-- Its one operation starts with JSON if the proposal has it. -/
theorem preparedThenWaiting_startsJson {proposal : ActionProposal}
    (hjson : (PyVal.jsonDumpsItems proposal.arguments).isSome = true) :
    Along Small.env (Call.StartsJson Small.env) unusedEngine (preparedThenWaiting proposal) := by
  refine ⟨?_, ?_, ?_, trivial⟩
  · rintro u taskId proposal' expectedRevisions taskLease resourceLease ⟨⟩
  · rintro u taskId proposal' expectedRevisions taskLease resourceLease ⟨⟩ _
    exact hjson
  · rintro u taskId proposal' expectedRevisions taskLease resourceLease ⟨⟩

/-- The revision that `prepare` counted up before its transaction failed is stored by `wait`, and no
event stands for it. -/
theorem changes_audited_fails :
    ¬ ∀ (env : Env) (s : Sys) (calls : List Call), Function.Injective env.uuid → s.Unused →
      Attended env true s calls →
      ∀ task ∈ (runCalls env s calls).db.tasks.rows,
        task.revision = (runCalls env s calls).db.taskEvents task.taskId := by
  intro h
  have hall := h Small.env unusedEngine (preparedThenWaiting unencodable) tallyId_injective
    unusedEngine_unused (by decide +kernel)
  revert hall
  decide +kernel

/-- Created, prepared and waiting: three revisions and three events. -/
theorem changes_audited_waiting :
    (runCalls Small.env unusedEngine
      (preparedThenWaiting { Small.proposal with objectRefs := [] })).db.tasks.rows.length = 1 ∧
    ∀ task ∈ (runCalls Small.env unusedEngine
        (preparedThenWaiting { Small.proposal with objectRefs := [] })).db.tasks.rows,
      task.revision = (runCalls Small.env unusedEngine
        (preparedThenWaiting { Small.proposal with objectRefs := [] })).db.taskEvents
          task.taskId := by
  refine ⟨by decide +kernel, ?_⟩
  exact changes_audited Small.env tallyId_injective unusedEngine unusedEngine_unused _
    (by decide +kernel) (preparedThenWaiting_storable _) (preparedThenWaiting_startsJson rfl)

/-! ## Budgets -/

/-- Creating a task draws an id. -/
theorem createTask_ids_lt (env : Env) (s : Sys) (goal : String) (successCriteria : List String)
    (workspaceId : String) (constraints : List String) (lane : String) (priority : Int)
    (budget : TaskBudget) :
    s.ids < ((Call.createTask goal successCriteria workspaceId constraints lane priority
      budget).exec env s).ids := by
  have hF := Moves.frame Allowance.free_closed
  have hmoves : Moves .free { s with ids := s.ids + 1 } (after (do
      setTask (newTask env s goal successCriteria workspaceId constraints lane priority budget)
      bumpTasks env
      recordTask env (env.newId "task" s.ids) "task.created" "engine"
        (PyVal.payload [("goal", .str goal), ("workspace_id", .str workspaceId)])
      pure (env.newId "task" s.ids) : M String) { s with ids := s.ids + 1 }) := by
    refine hF.bind (fun u => moves_setTask trivial) (fun _ => ?_) _
    refine hF.bind (moves_bumpTasks Allowance.free_closed env (fun _ => trivial)) (fun _ => ?_)
    refine hF.bind (moves_recordTask Allowance.free_closed env (fun _ => trivial) _ _ _)
      (fun _ => hF.pure _)
  exact hmoves.ids

section Opening

variable {env : Env}

/-- The budget of the task that takes the `k`-th id, and no word about the others. -/
def openingAt (k : ℕ) (budget : TaskBudget) (n : ℕ) : Option TaskBudget :=
  if n = k then some budget else none

/-- No run gives ids back. -/
theorem runCalls_ids_le : ∀ {calls : List Call} {s : Sys}, s.ids ≤ (runCalls env s calls).ids
  | [], _ => le_rfl
  | call :: _, s => (call.ids_le env s).trans runCalls_ids_le

/-- Tasks that were created before took other ids, … -/
theorem along_before {k : ℕ} {budget : TaskBudget} :
    ∀ {calls : List Call} {s : Sys}, (runCalls env s calls).ids ≤ k →
      Along env (Call.OpensBy (openingAt k budget)) s calls
  | [], _, _ => trivial
  | call :: calls, s, hk => by
      refine ⟨?_, along_before hk⟩
      rintro goal successCriteria workspaceId constraints lane priority other rfl opened hopened
      have htaken := createTask_ids_lt env s goal successCriteria workspaceId constraints lane
        priority other
      have hlt : s.ids < k := htaken.trans_le (runCalls_ids_le.trans hk)
      rw [openingAt, if_neg hlt.ne] at hopened
      cases hopened

/-- … and those that are created later take others again. -/
theorem along_later {k : ℕ} {budget : TaskBudget} :
    ∀ {calls : List Call} {s : Sys}, k < s.ids →
      Along env (Call.OpensBy (openingAt k budget)) s calls
  | [], _, _ => trivial
  | call :: calls, s, hk => by
      refine ⟨?_, along_later (hk.trans_le (call.ids_le env s))⟩
      intro _ _ _ _ _ _ _ _ opened hopened
      rw [openingAt, if_neg hk.ne'] at hopened
      cases hopened

/-- **Budgets are accounted for exactly, where arguments are JSON.**  Take any run of an engine on a
fresh store, the process ending at any boundary and being restarted, whose texts and integers can be
stored, and any task created in it.  If every proposal that starts an operation has arguments that
are JSON, then the task's stored count of started operations is what its budget was opened with and
the number of its rows in `operations`, and a maximum that is not negative and not exceeded at first
is never exceeded. -/
theorem budgets_exact (env : Env) (hids : Function.Injective env.uuid) (s : Sys) (hs : s.Unused)
    (before later : List Call) (goal : String) (successCriteria : List String)
    (workspaceId : String) (constraints : List String) (lane : String) (priority : Int)
    (budget : TaskBudget) (calls : List Call)
    (hcalls : calls = before ++ .createTask goal successCriteria workspaceId constraints lane priority
      budget :: later)
    (hattended : Attended env true s calls) (_hstorable : StorableRun env s calls)
    (hjson : Along env (Call.StartsJson env) s calls) :
    ∀ task, (runCalls env s calls).db.tasks.get?
        (env.newId "task" (runCalls env s before).ids) = some task →
      budget.Spent task.budget ((runCalls env s calls).db.taskOperations task.taskId) := by
  let k := (runCalls env s before).ids
  have hbooked : BookedStore env (openingAt k budget) (runCalls env s calls) := by
    refine booked_run hids hs hattended hjson ?_
    rw [hcalls]
    refine along_append.mpr ⟨along_before le_rfl, ?_, ?_⟩
    · rintro _ _ _ _ _ _ _ ⟨⟩ opened hopened
      rw [openingAt, if_pos rfl] at hopened
      exact (Option.some.inj hopened).symm
    · exact along_later (createTask_ids_lt env _ _ _ _ _ _ _ _)
  intro task hget
  exact hbooked.funded task (Table.mem_of_get? hget) k budget (Table.key_of_get? hget) (if_pos rfl)

end Opening

/-- The operation that `prepare` counted before its transaction failed is charged, and the only one
the budget allows was never stored. -/
theorem budgets_exact_fails :
    ¬ ∀ (env : Env) (s : Sys) (before later : List Call) (goal : String)
      (successCriteria : List String) (workspaceId : String) (constraints : List String)
      (lane : String) (priority : Int) (budget : TaskBudget) (calls : List Call),
      Function.Injective env.uuid → s.Unused →
      calls = before ++ .createTask goal successCriteria workspaceId constraints lane priority
        budget :: later →
      Attended env true s calls →
      ∀ task, (runCalls env s calls).db.tasks.get?
          (env.newId "task" (runCalls env s before).ids) = some task →
        budget.Spent task.budget ((runCalls env s calls).db.taskOperations task.taskId) := by
  intro h
  have hspent := h Small.env unusedEngine [] _ _ _ _ _ _ _ _ (preparedThenWaiting unencodable)
    tallyId_injective unusedEngine_unused rfl (by decide +kernel)
  have hstarted : ∀ task, (runCalls Small.env unusedEngine
      (preparedThenWaiting unencodable)).db.tasks.get? "task_" = some task →
      task.budget.operationsStarted = 0 := by
    intro task hget
    have hrows : (runCalls Small.env unusedEngine
        (preparedThenWaiting unencodable)).db.operations.rows.length = 0 := by
      decide +kernel
    have hcount := (hspent task hget).started
    rw [Database.taskOperations, List.eq_nil_of_length_eq_zero hrows] at hcount
    exact hcount
  have hone : ((runCalls Small.env unusedEngine (preparedThenWaiting unencodable)).db.tasks.get?
      "task_").map (fun task => task.budget.operationsStarted) = some 1 := by
    decide +kernel
  obtain ⟨task, hget, hcharged⟩ := Option.map_eq_some_iff.mp hone
  rw [hstarted task hget] at hcharged
  exact absurd hcharged (by decide)

/-- The budget of the prepared task is spent: one row, one operation started of one. -/
theorem budgets_exact_spent :
    (runCalls Small.env unusedEngine
      (preparedThenWaiting { Small.proposal with objectRefs := [] })).db.taskOperations "task_" = 1 ∧
    ∀ task, (runCalls Small.env unusedEngine
        (preparedThenWaiting { Small.proposal with objectRefs := [] })).db.tasks.get? "task_"
          = some task →
      TaskBudget.Spent { maxOperations := 1 } task.budget
        ((runCalls Small.env unusedEngine (preparedThenWaiting
          { Small.proposal with objectRefs := [] })).db.taskOperations task.taskId) := by
  refine ⟨by decide +kernel, ?_⟩
  exact budgets_exact Small.env tallyId_injective unusedEngine unusedEngine_unused [] _ _ _ _ _ _ _ _
    (preparedThenWaiting { Small.proposal with objectRefs := [] }) rfl (by decide +kernel)
    (preparedThenWaiting_storable _) (preparedThenWaiting_startsJson rfl)

end LiandanluNative
