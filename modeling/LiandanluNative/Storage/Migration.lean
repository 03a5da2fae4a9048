/-
# LiandanluNative.Storage.Migration — `_migrate_memory_schema` of `storage.py`.

`executescript` commits what is pending and then runs each statement by itself, so a process that
dies between two of them leaves what the first ones did.  An open is therefore the list of the
statements it issues, and an interrupted open a prefix of that list.  Which statements it issues
depends on the tables it finds: `_migrate` creates `memory_records` if it is missing, and the
migration is taken for one without the column `workspace_id`.

Only the tables the migration touches are here.
-/
import LiandanluNative.Storage.Memory

namespace LiandanluNative

open Lib (Table)

/-! ## The tables -/

/-- A row of a memory table without workspaces: the columns the migration selects. -/
structure LegacyMemory where
  memoryId : String
  kind : MemoryKind
  key : String
  value : PyVal
  scope : String
  sourceEventIds : List String
  confidence : Option ℚ
  revision : Int
  supersedes : Option String := none
  strategyState : Option StrategyState := none
  supportCount : Int := 1

/-- The row as the migration copies it. -/
def LegacyMemory.scoped (row : LegacyMemory) : MemoryRecord where
  memoryId := row.memoryId
  workspaceId := "legacy"
  kind := row.kind
  key := row.key
  value := row.value
  scope := row.scope
  sourceEventIds := row.sourceEventIds
  confidence := row.confidence
  revision := row.revision
  supersedes := row.supersedes
  strategyState := row.strategyState
  supportCount := row.supportCount
  supportEventIds := []

/-- A memory table, without or with the column `workspace_id`. -/
inductive MemoryTable where
  | unscoped (rows : List LegacyMemory)
  | scoped (records : Table MemoryRecord.memoryId)

/-- What `SELECT memory_id,'legacy',…,'[]'` returns. -/
def MemoryTable.selected : MemoryTable → List MemoryRecord
  | .unscoped rows => rows.map LegacyMemory.scoped
  | .scoped records =>
      records.rows.map (fun r => { r with workspaceId := "legacy", supportEventIds := [] })

/-- The tables `memory_records` and `memory_records_legacy`, where they exist. -/
structure MemorySchema where
  memoryRecords : Option MemoryTable := none
  memoryRecordsLegacy : Option MemoryTable := none

/-- The records a store finds in the table. -/
def MemorySchema.stored (schema : MemorySchema) : Table MemoryRecord.memoryId :=
  match schema.memoryRecords with
  | some (.scoped records) => records
  | _ => .empty

/-! ## The statements

The migration of the memory table, statement by statement, as the process may end between any two.
-/

/-- One `INSERT` of several rows: none is inserted if one of them violates a constraint. -/
def insertAll (records : Table MemoryRecord.memoryId) :
    List MemoryRecord → Option (Table MemoryRecord.memoryId)
  | [] => some records
  | row :: rows =>
      if ({ memoryRecords := records } : Database).memoryTaken row then none
      else insertAll (records.put row) rows

inductive MigrationStatement where
  /-- `CREATE TABLE IF NOT EXISTS memory_records` -/
  | createIfMissing
  /-- `ALTER TABLE memory_records RENAME TO memory_records_legacy` -/
  | rename
  /-- `CREATE TABLE memory_records` -/
  | create
  /-- `INSERT INTO memory_records … SELECT … FROM memory_records_legacy` -/
  | copy
  /-- `DROP TABLE memory_records_legacy` -/
  | drop

/-- What a statement makes of the tables, or `none` where it fails. -/
def MigrationStatement.run (schema : MemorySchema) : MigrationStatement → Option MemorySchema
  | .createIfMissing =>
      match schema.memoryRecords with
      | none => some { schema with memoryRecords := some (.scoped .empty) }
      | some _ => some schema
  | .rename =>
      match schema.memoryRecords, schema.memoryRecordsLegacy with
      | some table, none => some { memoryRecords := none, memoryRecordsLegacy := some table }
      | _, _ => none
  | .create =>
      match schema.memoryRecords with
      | none => some { schema with memoryRecords := some (.scoped .empty) }
      | some _ => none
  | .copy =>
      match schema.memoryRecords, schema.memoryRecordsLegacy with
      | some (.scoped records), some table =>
          (insertAll records table.selected).map fun records =>
            { schema with memoryRecords := some (.scoped records) }
      | _, _ => none
  | .drop =>
      match schema.memoryRecordsLegacy with
      | some _ => some { schema with memoryRecordsLegacy := none }
      | none => none

/-- Statement after statement; one that fails raises, and the others are not run. -/
def runStatements : List MigrationStatement → MemorySchema → MemorySchema
  | [], schema => schema
  | statement :: statements, schema =>
      match statement.run schema with
      | none => schema
      | some schema' => runStatements statements schema'

/-- The statements of `_migrate_memory_schema`. -/
def migrateMemorySchema (schema : MemorySchema) : List MigrationStatement :=
  match schema.memoryRecords with
  | some (.unscoped _) => [.rename, .create, .copy, .drop]
  | _ => []

/-- The statements of `_migrate`: what the migration does depends on the tables after the first. -/
def migrate (schema : MemorySchema) : List MigrationStatement :=
  .createIfMissing :: migrateMemorySchema (runStatements [.createIfMissing] schema)

/-! ## Opening the database -/

/-- The tables after an open that ended after some of its statements. -/
def interruptedOpen (schema : MemorySchema) (statements : ℕ) : MemorySchema :=
  runStatements ((migrate schema).take statements) schema

/-- The tables after `SQLiteStore(path)`. -/
def openStore (schema : MemorySchema) : MemorySchema := runStatements (migrate schema) schema

/-- The tables after a last open that was not interrupted. -/
def reopen (schema : MemorySchema) (interrupted : List ℕ) : MemorySchema :=
  openStore (interrupted.foldl interruptedOpen schema)

/-! ## What is copied -/

/-- The columns of `UNIQUE(workspace_id, scope, key, kind, revision)`. -/
def MemoryRecord.revisionKey (r : MemoryRecord) : MemoryKey × Int := (r.memoryKey, r.revision)

theorem memoryTaken_eq_false {records : Table MemoryRecord.memoryId} {row : MemoryRecord} :
    ({ memoryRecords := records } : Database).memoryTaken row = false ↔
      row.memoryId ∉ records.rows.map MemoryRecord.memoryId ∧
        row.revisionKey ∉ records.rows.map MemoryRecord.revisionKey := by
  unfold Database.memoryTaken MemoryRecord.revisionKey
  rw [List.any_eq_false]
  simp only [Bool.or_eq_true, Bool.and_eq_true, decide_eq_true_iff, not_or, not_and, List.mem_map,
    not_exists, Prod.mk.injEq]
  exact ⟨fun h => ⟨fun r hr => (h r hr).1, fun r hr => (h r hr).2⟩,
    fun h r hr => ⟨h.1 r hr, h.2 r hr⟩⟩

/-- An insertion of several rows succeeds if and only if no two rows of the result share their
primary key, or their revision of a key; the rows then stand behind those of the table. -/
theorem insertAll_iff (rows : List MemoryRecord) :
    ∀ {records : Table MemoryRecord.memoryId},
      (records.rows.map MemoryRecord.revisionKey).Nodup →
      ((∃ records', insertAll records rows = some records') ↔
        ((records.rows ++ rows).map MemoryRecord.memoryId).Nodup ∧
          ((records.rows ++ rows).map MemoryRecord.revisionKey).Nodup) ∧
      ∀ records', insertAll records rows = some records' → records'.rows = records.rows ++ rows := by
  induction rows with
  | nil =>
      intro records hkeys
      rw [List.append_nil]
      refine ⟨⟨fun _ => ⟨records.nodup, hkeys⟩, fun _ => ⟨records, rfl⟩⟩, fun records' h => ?_⟩
      cases h
      rfl
  | cons row rows ih =>
      intro records hkeys
      unfold insertAll
      cases htaken : ({ memoryRecords := records } : Database).memoryTaken row with
      | true =>
          -- the row clashes with one that is there, so the ids or the revisions repeat
          have hnot : ¬ (row.memoryId ∉ records.rows.map MemoryRecord.memoryId ∧
              row.revisionKey ∉ records.rows.map MemoryRecord.revisionKey) := fun h => by
            rw [memoryTaken_eq_false.mpr h] at htaken
            cases htaken
          refine ⟨iff_of_false (fun ⟨_, h⟩ => by cases h) (fun ⟨hids, hrevisions⟩ => hnot ?_),
            fun _ h => by cases h⟩
          rw [List.map_append, List.map_cons] at hids hrevisions
          exact ⟨fun h => (List.nodup_append.mp hids).2.2 _ h _ List.mem_cons_self rfl,
            fun h => (List.nodup_append.mp hrevisions).2.2 _ h _ List.mem_cons_self rfl⟩
      | false =>
          obtain ⟨hid, hrevision⟩ := memoryTaken_eq_false.mp htaken
          -- the row comes last, and its key is new
          have hput : (records.put row).rows = records.rows ++ [row] :=
            Table.put_rows_of_get?_none (Table.get?_eq_none.mpr
              (fun r hr heq => hid (List.mem_map.mpr ⟨r, hr, heq⟩)))
          have hnodup : ((records.put row).rows.map MemoryRecord.revisionKey).Nodup := by
            rw [hput, List.map_append, List.nodup_append]
            refine ⟨hkeys, List.nodup_singleton _, fun a ha b hb heq => ?_⟩
            rw [List.map_singleton, List.mem_singleton] at hb
            exact hrevision (hb ▸ heq ▸ ha)
          have hrest := ih hnodup
          rw [hput, List.append_assoc, List.singleton_append] at hrest
          exact hrest

end LiandanluNative
