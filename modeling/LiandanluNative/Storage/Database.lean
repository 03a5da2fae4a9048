/-
# LiandanluNative.Storage.Database — the tables of `storage.py` and its row writers.

One field per table.  A JSON column holds the value its text decodes to (`Value.lean`), so the rows
of `tasks`, `operations` and `memory_records` are the records they are loaded back as.
Autoincrement columns have their own counter, as SQLite keeps them in `sqlite_sequence`.

SQLite refuses a text that cannot be encoded and an integer beyond 64 bits (`Column.refusal`).  The
writers of the world refuse so too, as those of the resource leases and of memory events do.  The
writers of tasks, operations and events take every text and integer: a result that rests on what
they do says that theirs can be stored.  The counters of the world only ever go up by one, and are not
bounded.

A method that runs inside one transaction is a `Txn`: a function of the database that returns or
raises.  `transaction` is `with self.conn`: it commits what a returning body did and rolls back what
a raising body did.
-/
import LiandanluNative.Models
import LiandanluNative.Lib.Table
import LiandanluNative.Lib.Proc

namespace LiandanluNative

open Lib (Table)

/-! ## Rows that are not records of their own -/

/-- A row of `event_outbox`. The event id of a row written before that column existed is null. -/
structure OutboxRow where
  outboxId : Int
  eventId : Option String
  workspaceId : String
  eventType : String
  actor : String
  taskId : Option String
  operationId : Option String
  objectRefs : List String
  payload : List (PyKey × PyVal)
  causationId : Option String
  correlationId : Option String
  occurredAt : ℚ
  learningAllowed : Bool
  dispatched : Bool

/-- A row of `consumer_receipts`. -/
structure ConsumerReceipt where
  consumerId : String
  eventId : String
  sequence : Int
  status : String
  resultRef : Option String
  deriving DecidableEq, Repr

/-- The primary key of `consumer_receipts`. -/
def ConsumerReceipt.key (r : ConsumerReceipt) : String × String := (r.consumerId, r.eventId)

/-- The database. -/
structure Database where
  tasks : Table Task.taskId := .empty
  operations : Table Operation.operationId := .empty
  worldEntities : Table Entity.entityId := .empty
  worldRelations : Table (id : String × String × String → String × String × String) := .empty
  worldRevisions : Option WorldRevisions := none
  workspaceRevisions : Table (Prod.fst : String × Int → String) := .empty
  taskLeases : Table TaskLease.taskId := .empty
  resourceLeases : Table ResourceLease.taskId := .empty
  eventOutbox : Table OutboxRow.outboxId := .empty
  outboxSequence : Int := 0
  events : Table Event.sequence := .empty
  eventSequence : Int := 0
  consumerCursors : Table (Prod.fst : String × Int → String) := .empty
  consumerReceipts : Table ConsumerReceipt.key := .empty
  memoryRecords : Table MemoryRecord.memoryId := .empty

/-! ## Transactions

A transaction that raises is rolled back: its state is the one before it.
-/

/-- A computation inside one transaction. -/
abbrev Txn (α : Type) := EStateM Exc Database α

/-- `with self.conn: body` -/
def transaction {α : Type} (body : Txn α) : Txn α := fun db =>
  match body db with
  | .ok a db' => .ok a db'
  | .error e _ => .error e db

/-- `json.dumps(value)`, as the column it fills. -/
def dumps (value : PyVal) : Txn PyVal := fun db =>
  match value.jsonDumps with
  | some column => .ok column db
  | none => .error ⟨.typeError, "Object is not JSON serializable"⟩ db

/-- `json.dumps` of a list of objects. -/
def dumpsList (values : List PyVal) : Txn (List PyVal) := fun db =>
  match PyVal.jsonDumpsList values with
  | some column => .ok column db
  | none => .error ⟨.typeError, "Object is not JSON serializable"⟩ db

/-- `json.dumps` of a dictionary. -/
def dumpsItems (items : List (PyKey × PyVal)) : Txn (List (PyKey × PyVal)) := fun db =>
  match PyVal.jsonDumpsItems items with
  | some column => .ok column db
  | none => .error ⟨.typeError, "Object is not JSON serializable"⟩ db

/-! ## Columns

What SQLite binds: an integer of 64 bits, and a text that can be encoded.  Anything else raises,
before the statement is run.
-/

/-- A value that is bound to a parameter of a statement. -/
inductive Column where
  | text (s : String)
  | int (n : Int)

/-- What `sqlite3` raises instead of binding the value; of the text of the exception only the end.
-/
def Column.refusal : Column → Option Exc
  | .text s => if encodable s then none else some ⟨.unicodeEncodeError, "surrogates not allowed"⟩
  | .int n =>
      if -2 ^ 63 ≤ n ∧ n < 2 ^ 63 then none
      else some ⟨.overflowError, "Python int too large to convert to SQLite INTEGER"⟩

/-- Every value can be bound. -/
def Bindable (columns : List Column) : Prop := columns.findSome? Column.refusal = none

instance (columns : List Column) : Decidable (Bindable columns) := by
  unfold Bindable
  infer_instance

theorem bindable_iff {columns : List Column} :
    Bindable columns ↔ ∀ column ∈ columns, column.refusal = none := List.findSome?_eq_none_iff

/-- What a statement binds can be bound by one that binds no more. -/
theorem Bindable.mono {columns fewer : List Column} (h : Bindable columns)
    (hsub : fewer ⊆ columns) : Bindable fewer :=
  bindable_iff.mpr (fun column hcolumn => bindable_iff.mp h column (hsub hcolumn))

/-- The parameters of a statement are bound in order, and the first refusal is raised. -/
def binds (columns : List Column) : Txn Unit := fun db =>
  match columns.findSome? Column.refusal with
  | some e => .error e db
  | none => .ok () db

theorem binds_of_bindable {columns : List Column} (h : Bindable columns) (db : Database) :
    binds columns db = .ok () db := by
  rw [Bindable] at h
  simp only [binds, h]

theorem binds_of_refused {columns : List Column} (h : ¬ Bindable columns) (db : Database) :
    ∃ e, binds columns db = .error e db := by
  obtain ⟨e, he⟩ := Option.ne_none_iff_exists'.mp h
  exact ⟨e, by simp only [binds, he]⟩

/-! ## Tasks, operations and the world -/

/-- `_upsert_task`: every column but the key is overwritten. -/
def upsertTask (task : Task) : Txn Unit :=
  modify fun db => { db with tasks := db.tasks.put task }

/-- The columns `_upsert_operation` overwrites when the row exists. -/
def Operation.overwrite (old new : Operation) : Operation :=
  { old with
    workspaceId := new.workspaceId
    state := new.state
    requiredPermission := new.requiredPermission
    idempotencyMode := new.idempotencyMode
    expectedRevisions := new.expectedRevisions
    evidence := new.evidence
    result := new.result
    error := new.error
    taskLeaseOwnerId := new.taskLeaseOwnerId
    taskLeaseGeneration := new.taskLeaseGeneration
    resourceLeaseOwnerId := new.resourceLeaseOwnerId
    resourceLeaseGeneration := new.resourceLeaseGeneration }

/-- The row after an upsert of `row`. -/
def Database.operationRow (db : Database) (row : Operation) : Operation :=
  match db.operations.get? row.operationId with
  | some old => old.overwrite row
  | none => row

theorem Database.operationRow_operationId (db : Database) (row : Operation) :
    (db.operationRow row).operationId = row.operationId := by
  unfold operationRow
  split
  · rename_i old hold
    have hkey : old.operationId = row.operationId := Table.key_of_get? hold
    exact hkey
  · rfl

theorem Database.operationRow_state (db : Database) (row : Operation) :
    (db.operationRow row).state = row.state := by
  unfold operationRow
  split <;> rfl

/-- `_upsert_operation` -/
def upsertOperation (op : Operation) : Txn Unit := do
  let arguments ← dumpsItems op.arguments
  let evidence ← dumpsList op.evidence
  let result ← dumps op.result
  let row := { op with arguments := arguments, evidence := evidence, result := result }
  modify fun db => { db with operations := db.operations.put (db.operationRow row) }

/-- The parameters of `save_world_entity` that are not JSON texts. -/
def Entity.columns (entity : Entity) : List Column :=
  [.text entity.entityId, .text entity.entityType, .text entity.workspaceId, .text entity.locator,
    .int entity.version, .text entity.status]

/-- `save_world_entity` -/
def saveWorldEntity (entity : Entity) : Txn Unit := transaction do
  let metadata ← dumpsItems entity.metadata
  binds entity.columns
  modify fun db =>
    { db with worldEntities := db.worldEntities.put { entity with metadata := metadata } }

/-- The metadata of the row that is written, unless the store refuses the entity. -/
def Entity.storedMetadata (entity : Entity) : Option (List (PyKey × PyVal)) :=
  if Bindable entity.columns then PyVal.jsonDumpsItems entity.metadata else none

theorem Entity.storedMetadata_eq_some {entity : Entity} {metadata : List (PyKey × PyVal)} :
    entity.storedMetadata = some metadata ↔
      Bindable entity.columns ∧ PyVal.jsonDumpsItems entity.metadata = some metadata := by
  unfold storedMetadata
  split <;> simp_all

theorem saveWorldEntity_of_stored {entity : Entity} {metadata : List (PyKey × PyVal)}
    (h : entity.storedMetadata = some metadata) (db : Database) :
    saveWorldEntity entity db = .ok ()
      { db with worldEntities := db.worldEntities.put { entity with metadata := metadata } } := by
  obtain ⟨hcolumns, hjson⟩ := Entity.storedMetadata_eq_some.mp h
  simp only [saveWorldEntity, transaction, bind, EStateM.bind, dumpsItems, hjson,
    binds_of_bindable hcolumns]
  rfl

theorem saveWorldEntity_of_refused {entity : Entity} (h : entity.storedMetadata = none)
    (db : Database) : ∃ e, saveWorldEntity entity db = .error e db := by
  cases hjson : PyVal.jsonDumpsItems entity.metadata with
  | none =>
      refine ⟨⟨.typeError, "Object is not JSON serializable"⟩, ?_⟩
      simp only [saveWorldEntity, transaction, bind, EStateM.bind, dumpsItems, hjson]
  | some metadata =>
      have hcolumns : ¬ Bindable entity.columns := by
        intro hcolumns
        rw [Entity.storedMetadata_eq_some.mpr ⟨hcolumns, hjson⟩] at h
        cases h
      obtain ⟨e, he⟩ := binds_of_refused hcolumns db
      exact ⟨e, by simp only [saveWorldEntity, transaction, bind, EStateM.bind, dumpsItems, hjson, he]⟩

/-- `save_world_revisions` -/
def saveWorldRevisions (revisions : WorldRevisions) : Txn Unit := transaction do
  modify fun db => { db with worldRevisions := some revisions }

/-- `save_workspace_revision` -/
def saveWorkspaceRevision (workspaceId : String) (revision : Int) : Txn Unit := transaction do
  binds [.text workspaceId]
  modify fun db =>
    { db with workspaceRevisions := db.workspaceRevisions.put (workspaceId, revision) }

/-- `save_world_relation` -/
def saveWorldRelation (source relation target : String) : Txn Unit := transaction do
  binds [.text source, .text relation, .text target]
  modify fun db =>
    { db with worldRelations := db.worldRelations.putNew (source, relation, target) }

/-! ## The outbox

An event is put in the outbox in one transaction with the record it tells of, or for itself.
-/

/-- The keyword arguments of `_insert_outbox`. -/
structure EventFields where
  eventType : String
  actor : String
  workspaceId : String := "system"
  taskId : Option String := none
  operationId : Option String := none
  objectRefs : List String := []
  payload : List (PyKey × PyVal) := []
  causationId : Option String := none
  correlationId : Option String := none
  learningAllowed : Bool := true

/-- The row `_insert_outbox` inserts, once its payload column is known. -/
def EventFields.row (fields : EventFields) (outboxId : Int) (eventId : String) (occurredAt : ℚ)
    (payload : List (PyKey × PyVal)) : OutboxRow where
  outboxId := outboxId
  eventId := some eventId
  workspaceId := fields.workspaceId
  eventType := fields.eventType
  actor := fields.actor
  taskId := fields.taskId
  operationId := fields.operationId
  objectRefs := fields.objectRefs
  payload := payload
  causationId := fields.causationId
  correlationId := fields.correlationId
  occurredAt := occurredAt
  learningAllowed := fields.learningAllowed
  dispatched := false

/-- `_insert_outbox`, where `new_id` gave `eventId` and `now` gave `occurredAt`. -/
def insertOutbox (fields : EventFields) (eventId : String) (occurredAt : ℚ) : Txn String := do
  let payload ← dumpsItems fields.payload
  modify fun db =>
    { db with
      outboxSequence := db.outboxSequence + 1
      eventOutbox := db.eventOutbox.put
        (fields.row (db.outboxSequence + 1) eventId occurredAt payload) }
  return eventId

/-- `enqueue_event_outbox` -/
def enqueueEventOutbox (fields : EventFields) (eventId : String) (occurredAt : ℚ) : Txn String :=
  transaction (insertOutbox fields eventId occurredAt)

/-- `save_task` -/
def saveTask (task : Task) : Txn Unit := transaction (upsertTask task)

/-- `save_task_with_outbox_event` -/
def saveTaskWithOutboxEvent (task : Task) (fields : EventFields) (eventId : String)
    (occurredAt : ℚ) : Txn String := transaction do
  upsertTask task
  insertOutbox { fields with taskId := some task.taskId } eventId occurredAt

/-- `save_operation` -/
def saveOperation (op : Operation) : Txn Unit := transaction (upsertOperation op)

/-- `save_operation_with_outbox_event` -/
def saveOperationWithOutboxEvent (op : Operation) (fields : EventFields) (eventId : String)
    (occurredAt : ℚ) : Txn String := transaction do
  upsertOperation op
  insertOutbox
    { fields with
      taskId := some op.taskId
      operationId := some op.operationId
      objectRefs := op.objectRefs }
    eventId occurredAt

/-- `save_task_and_operation_with_outbox_event` -/
def saveTaskAndOperationWithOutboxEvent (task : Task) (op : Operation) (fields : EventFields)
    (eventId : String) (occurredAt : ℚ) : Txn String := transaction do
  upsertTask task
  upsertOperation op
  insertOutbox
    { fields with
      taskId := some task.taskId
      operationId := some op.operationId
      objectRefs := op.objectRefs }
    eventId occurredAt

/-! ## What each writer may touch -/

section Frames

open Lib.Proc

variable {R : Database → Database → Prop}

theorem within_transaction {α : Type} {body : Txn α} (hR : Frame R) (h : Within R body) :
    Within R (transaction body) := by
  intro db
  cases hrun : body db with
  | ok a db' =>
      have hcommit : transaction body db = .ok a db' := by simp only [transaction, hrun]
      rw [after_of_ok hcommit]
      exact h.of_ok hrun
  | error e db' =>
      have hrollback : transaction body db = .error e db := by simp only [transaction, hrun]
      rw [after_of_error hrollback]
      exact hR.refl db

theorem within_dumps (hR : Frame R) (value : PyVal) : Within R (dumps value) := by
  intro db
  unfold dumps after
  cases value.jsonDumps <;> exact hR.refl db

theorem within_dumpsList (hR : Frame R) (values : List PyVal) : Within R (dumpsList values) := by
  intro db
  unfold dumpsList after
  cases PyVal.jsonDumpsList values <;> exact hR.refl db

theorem within_dumpsItems (hR : Frame R) (items : List (PyKey × PyVal)) :
    Within R (dumpsItems items) := by
  intro db
  unfold dumpsItems after
  cases PyVal.jsonDumpsItems items <;> exact hR.refl db

theorem within_binds (hR : Frame R) (columns : List Column) : Within R (binds columns) := by
  intro db
  unfold binds after
  cases columns.findSome? Column.refusal <;> exact hR.refl db

theorem within_upsertTask (task : Task) (h : ∀ db tasks, R db { db with tasks := tasks }) :
    Within R (upsertTask task) :=
  within_modify (fun db => h db _)

theorem within_upsertOperation (hR : Frame R) (op : Operation)
    (h : ∀ db operations, R db { db with operations := operations }) :
    Within R (upsertOperation op) := by
  refine hR.bind (within_dumpsItems hR _) (fun arguments => ?_)
  refine hR.bind (within_dumpsList hR _) (fun evidence => ?_)
  refine hR.bind (within_dumps hR _) (fun result => ?_)
  exact within_modify (fun db => h db _)

theorem within_insertOutbox (hR : Frame R) (fields : EventFields) (eventId : String)
    (occurredAt : ℚ)
    (h : ∀ db n rows, R db { db with outboxSequence := n, eventOutbox := rows }) :
    Within R (insertOutbox fields eventId occurredAt) := by
  refine hR.bind (within_dumpsItems hR _) (fun payload => ?_)
  exact hR.bind (within_modify (fun db => h db _ _)) (fun _ => hR.pure _)

end Frames

end LiandanluNative
