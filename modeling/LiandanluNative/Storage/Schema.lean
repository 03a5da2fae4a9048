/-
# LiandanluNative.Storage.Schema — tables and columns: `_ensure_column` and `_migrate` of `storage.py`.

A database of an earlier version may lack tables and columns.  `_migrate` creates the tables that
are missing, and adds to those that are there the columns that came later, with their default in the
rows there are.  Last it gives each workspace with entities a row of `workspace_revisions`, unless
there is one, with the count of the column `workspace` of `world_revisions`.  Each statement commits
by itself, so a process that dies leaves what the first ones did.

`memory_records` is not here: its migration, which comes before the last statement, is in
`Storage.Migration`.  Of a column there are the name, `NOT NULL` and `DEFAULT`; names are compared as
they are written.  Of the keys there is the one that the last statement goes by.
-/
import LiandanluNative.Lib.Table
import LiandanluNative.Lib.Settling
import Mathlib.Data.List.Forall2
import Mathlib.Data.Rat.Defs

namespace LiandanluNative

open Lib (Table)

/-! ## Tables

Tables as SQLite has them, with columns that may be missing and cells that may be null.
-/

/-- What a row has in a column. -/
inductive Cell where
  | null
  | integer (n : Int)
  | real (x : ℚ)
  | text (s : String)
  deriving DecidableEq

structure SqlColumn where
  name : String
  notNull : Bool := false
  default : Cell := .null
  deriving DecidableEq

/-- The cell may stand under the column. -/
def SqlColumn.Allows (column : SqlColumn) (cell : Cell) : Prop := column.notNull = true → cell ≠ .null

instance (column : SqlColumn) (cell : Cell) : Decidable (column.Allows cell) := by
  unfold SqlColumn.Allows
  infer_instance

/-- A table; each row has a cell for each column, which may stand there. -/
structure SqlTable where
  name : String
  columns : Table SqlColumn.name
  rows : List (List Cell)
  fits : ∀ row ∈ rows, List.Forall₂ SqlColumn.Allows columns.rows row

/-- The tables of a database. -/
abbrev Schema : Type := Table SqlTable.name

namespace SqlTable

/-- A table without rows. -/
def new (name : String) (columns : Table SqlColumn.name) : SqlTable where
  name := name
  columns := columns
  rows := []
  fits := fun _ hno => absurd hno List.not_mem_nil

/-- `_columns` of a table that exists. -/
def columnNames (table : SqlTable) : List String := table.columns.rows.map SqlColumn.name

/-- The table with one more column, and its default in the rows. -/
def addColumn (table : SqlTable) (column : SqlColumn) (h : column.name ∉ table.columnNames)
    (hdefault : column.Allows column.default) : SqlTable where
  name := table.name
  columns :=
    { rows := table.columns.rows ++ [column]
      nodup := by
        rw [List.map_append, List.map_singleton, List.nodup_append]
        refine ⟨table.columns.nodup, List.nodup_singleton _, fun name hname other hother heq => ?_⟩
        rw [List.mem_singleton.mp hother] at heq
        exact h (heq ▸ hname) }
  rows := table.rows.map (fun row => row ++ [column.default])
  fits := by
    intro row hrow
    obtain ⟨row', hrow', rfl⟩ := List.mem_map.mp hrow
    exact List.rel_append (table.fits row' hrow') (.cons hdefault .nil)

/-- What the rows have in a column, or `none` if there is no such column. -/
def cells (table : SqlTable) (name : String) : Option (List Cell) :=
  if name ∈ table.columnNames then
    some (table.rows.map (fun row => row.getD (table.columnNames.idxOf name) .null))
  else
    none

/-- The row of an `INSERT` that names some of the columns: the others have their defaults. -/
def rowOf (table : SqlTable) (named : List (String × Cell)) : List Cell :=
  table.columns.rows.map (fun column => (named.lookup column.name).getD column.default)

/-- `INSERT OR IGNORE`, of a row under a new key: it is left out where a cell may not stand in it. -/
def insertOrIgnore (table : SqlTable) (row : List Cell) : SqlTable :=
  if h : List.Forall₂ SqlColumn.Allows table.columns.rows row then
    { table with
      rows := table.rows ++ [row]
      fits := by
        intro other hother
        rcases List.mem_append.mp hother with hold | hnew
        · exact table.fits other hold
        · rwa [List.mem_singleton.mp hnew] }
  else
    table

end SqlTable

/-! ## Statements -/

/-- `COALESCE((SELECT workspace FROM world_revisions WHERE singleton=1), 0)` -/
def SqlTable.workspaceCount (revisions : SqlTable) : Option Cell := do
  let singletons ← revisions.cells "singleton"
  let counts ← revisions.cells "workspace"
  match (singletons.zip counts).find? (fun row => decide (row.1 = .integer 1)) with
  | some (_, .null) => some (.integer 0)
  | some (_, count) => some count
  | none => some (.integer 0)

/-- The rows that the last statement inserts, and the table it inserts them into: one for each
workspace of an entity, of which there is none.  Or `none`, where a table or a column is missing. -/
def Schema.workspaceInserts (schema : Schema) : Option (SqlTable × List (List Cell)) := do
  let entities ← schema.get? "world_entities"
  let revisions ← schema.get? "world_revisions"
  let counters ← schema.get? "workspace_revisions"
  let workspaces ← entities.cells "workspace_id"
  let count ← revisions.workspaceCount
  let counted ← counters.cells "workspace_id"
  if "revision" ∈ counters.columnNames then
    -- the key is `workspace_id`, and no `NULL` is another's equal
    let missing := workspaces.eraseDups.filter (fun id => decide (id = .null ∨ id ∉ counted))
    some (counters, missing.map (fun id =>
      counters.rowOf [("workspace_id", id), ("revision", count)]))
  else
    none

inductive SchemaStatement where
  /-- `CREATE TABLE IF NOT EXISTS …` -/
  | createIfMissing (name : String) (columns : Table SqlColumn.name)
  /-- `_ensure_column` -/
  | ensureColumn (table : String) (column : SqlColumn)
  /-- `INSERT OR IGNORE INTO workspace_revisions … SELECT DISTINCT … FROM world_entities` -/
  | countWorkspaces

/-- What a statement makes of the tables, or `none` where it fails. -/
def SchemaStatement.run (schema : Schema) : SchemaStatement → Option Schema
  | .createIfMissing name columns => some (schema.putNew (.new name columns))
  | .ensureColumn name column =>
      match schema.get? name with
      -- no columns are found, and there is no table to alter
      | none => none
      | some table =>
          if h : column.name ∈ table.columnNames then some schema
          -- `ALTER TABLE` refuses a default that it has no use for
          else if hdefault : column.Allows column.default then
            some (schema.put (table.addColumn column h hdefault))
          else none
  | .countWorkspaces => do
      let (counters, rows) ← schema.workspaceInserts
      some (schema.put (rows.foldl SqlTable.insertOrIgnore counters))

/-! ## The columns of each table -/

/-- A column with `NOT NULL`. -/
def required (name : String) : SqlColumn := { name := name, notNull := true }

/-- A column that may be null. -/
def nullable (name : String) : SqlColumn := { name := name }

/-- A column with `NOT NULL DEFAULT …`. -/
def defaulting (name : String) (default : Cell) : SqlColumn :=
  { name := name, notNull := true, default := default }

/-- `CREATE TABLE IF NOT EXISTS tasks` -/
def tasksColumns : Table SqlColumn.name where
  rows := [nullable "task_id", defaulting "workspace_id" (.text "default"), required "goal",
    required "success_criteria_json", required "constraints_json", required "state",
    required "desired_state", required "phase", required "priority", required "lane",
    nullable "queued_at", nullable "wait_reason", defaulting "budget_json" (.text "\x7b\x7d"),
    required "revision"]
  nodup := by decide

def operationsColumns : Table SqlColumn.name where
  rows := [nullable "operation_id", required "task_id",
    defaulting "workspace_id" (.text "default"), required "capability", required "action",
    required "object_refs_json", required "arguments_json", required "risk_class",
    defaulting "required_permission" (.text "read"),
    defaulting "idempotency_mode" (.text "RECONCILABLE"), required "state",
    required "expected_revisions_json", required "evidence_json", nullable "result_json",
    nullable "error", nullable "task_lease_owner_id", nullable "task_lease_generation",
    nullable "resource_lease_owner_id", nullable "resource_lease_generation"]
  nodup := by decide

def worldEntitiesColumns : Table SqlColumn.name where
  rows := [nullable "entity_id", required "entity_type", required "workspace_id",
    required "locator", required "version", required "status", required "metadata_json",
    required "permissions_json"]
  nodup := by decide

def worldRelationsColumns : Table SqlColumn.name where
  rows := [required "source_id", required "relation_type", required "target_id"]
  nodup := by decide

def worldRevisionsColumns : Table SqlColumn.name where
  rows := [nullable "singleton", required "global_revision", required "desktop",
    required "workspace", required "browser", required "media", required "tasks"]
  nodup := by decide

def workspaceRevisionsColumns : Table SqlColumn.name where
  rows := [nullable "workspace_id", required "revision"]
  nodup := by decide

def taskLeasesColumns : Table SqlColumn.name where
  rows := [nullable "task_id", required "owner_id", required "generation", required "claimed_at",
    required "lease_until"]
  nodup := by decide

def resourceLeasesColumns : Table SqlColumn.name where
  rows := [nullable "task_id", required "owner_id", required "generation", required "cpu_units",
    required "memory_mb", required "gpu_units", required "exclusive_labels_json",
    required "claimed_at", required "lease_until"]
  nodup := by decide

def eventOutboxColumns : Table SqlColumn.name where
  rows := [nullable "outbox_id", nullable "event_id", defaulting "workspace_id" (.text "system"),
    required "event_type", defaulting "actor" (.text "engine"), nullable "task_id",
    nullable "operation_id", defaulting "object_refs_json" (.text "[]"), required "payload_json",
    nullable "causation_id", nullable "correlation_id", defaulting "occurred_at" (.real 0),
    defaulting "learning_allowed" (.integer 1), defaulting "dispatched" (.integer 0)]
  nodup := by decide

def eventsColumns : Table SqlColumn.name where
  rows := [nullable "sequence", required "event_id", defaulting "workspace_id" (.text "system"),
    required "event_type", required "actor", nullable "task_id", nullable "operation_id",
    required "object_refs_json", required "payload_json", nullable "causation_id",
    nullable "correlation_id", required "occurred_at", required "observed_at",
    required "learning_allowed"]
  nodup := by decide

def consumerCursorsColumns : Table SqlColumn.name where
  rows := [nullable "consumer_id", required "sequence"]
  nodup := by decide

def consumerReceiptsColumns : Table SqlColumn.name where
  rows := [required "consumer_id", required "event_id", required "sequence", required "status",
    nullable "result_ref"]
  nodup := by decide

/-- The tables that `_migrate` creates, in its order. -/
def createdTables : List (String × Table SqlColumn.name) :=
  [("tasks", tasksColumns), ("operations", operationsColumns),
    ("world_entities", worldEntitiesColumns), ("world_relations", worldRelationsColumns),
    ("world_revisions", worldRevisionsColumns),
    ("workspace_revisions", workspaceRevisionsColumns), ("task_leases", taskLeasesColumns),
    ("resource_leases", resourceLeasesColumns), ("event_outbox", eventOutboxColumns),
    ("events", eventsColumns), ("consumer_cursors", consumerCursorsColumns),
    ("consumer_receipts", consumerReceiptsColumns)]

/-- The columns that came later, in the order of `_migrate`. -/
def ensuredColumns : List (String × SqlColumn) :=
  [("tasks", defaulting "workspace_id" (.text "default")), ("tasks", nullable "queued_at"),
    ("tasks", nullable "wait_reason"), ("tasks", defaulting "budget_json" (.text "\x7b\x7d")),
    ("operations", defaulting "workspace_id" (.text "default")),
    ("operations", defaulting "required_permission" (.text "read")),
    ("operations", defaulting "idempotency_mode" (.text "RECONCILABLE")),
    ("operations", nullable "task_lease_owner_id"),
    ("operations", nullable "task_lease_generation"),
    ("operations", nullable "resource_lease_owner_id"),
    ("operations", nullable "resource_lease_generation"),
    ("event_outbox", defaulting "workspace_id" (.text "system")),
    ("events", defaulting "workspace_id" (.text "system")), ("event_outbox", nullable "event_id"),
    ("event_outbox", defaulting "actor" (.text "engine")),
    ("event_outbox", defaulting "object_refs_json" (.text "[]")),
    ("event_outbox", nullable "causation_id"), ("event_outbox", nullable "correlation_id"),
    ("event_outbox", defaulting "occurred_at" (.real 0)),
    ("event_outbox", defaulting "learning_allowed" (.integer 1))]

/-- The statements of `_migrate`, without those of `_migrate_memory_schema`. -/
def schemaStatements : List SchemaStatement :=
  createdTables.map (fun created => .createIfMissing created.1 created.2)
    ++ ensuredColumns.map (fun ensured => .ensureColumn ensured.1 ensured.2)
    ++ [.countWorkspaces]

/-! ## Opening -/

/-- The tables after an open that died after some of the statements. -/
def interruptedTables (schema : Schema) (statements : ℕ) : Schema :=
  Lib.runSteps (fun statement schema => statement.run schema) (schemaStatements.take statements)
    schema

/-- The tables after all of them. -/
def migrateTables (schema : Schema) : Schema :=
  Lib.runSteps (fun statement schema => statement.run schema) schemaStatements schema

end LiandanluNative
