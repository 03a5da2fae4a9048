/-
# LiandanluNative.Safety.MemoryMigration — which crashes the memory migration survives.

Once `memory_records` has the column `workspace_id` no open touches the tables again, so the rows
that were copied when it got the column are the rows there are.  A process that dies after the
rename, or after the new table was created, leaves the copy undone: the next open finds no table and
creates an empty one, or finds the empty one, and the legacy rows stay in `memory_records_legacy`
for good.  `legacy_carried_iff` says that nothing else goes wrong.
-/
import LiandanluNative.Storage.Migration

namespace LiandanluNative

open Lib (Table)

/-! ## The condition -/

/-- A database with a memory table without workspaces. -/
def legacySchema (rows : List LegacyMemory) : MemorySchema where
  memoryRecords := some (.unscoped rows)

/-- The columns of `UNIQUE(scope, key, kind, revision)`. -/
def LegacyMemory.revisionKey (row : LegacyMemory) : String × String × MemoryKind × Int :=
  (row.scope, row.key, row.kind, row.revision)

/-- The rows satisfy the constraints the old table declares and the new one repeats. -/
def Copyable (rows : List LegacyMemory) : Prop :=
  (rows.map LegacyMemory.memoryId).Nodup ∧ (rows.map LegacyMemory.revisionKey).Nodup

/-- The first open that gets to the rename also gets past the copy. -/
def PastCopy (interrupted : List ℕ) : Prop :=
  ∀ statements, interrupted.find? (2 ≤ ·) = some statements → 4 ≤ statements

/-- Each row is in the table once, and nothing else is under its id. -/
def Carried (rows : List LegacyMemory) (schema : MemorySchema) : Prop :=
  ∀ row ∈ rows,
    schema.stored.rows.filter (fun r => decide (r.memoryId = row.memoryId)) = [row.scoped]

/-! ## One open -/

/-- What the copy leaves in the new table. -/
def copied (rows : List LegacyMemory) : Table MemoryRecord.memoryId :=
  (insertAll .empty (rows.map LegacyMemory.scoped)).getD .empty

/-- The table has the column: an open changes nothing, wherever it ends. -/
theorem interruptedOpen_scoped (records : Table MemoryRecord.memoryId) (legacy : Option MemoryTable)
    (statements : ℕ) :
    interruptedOpen ⟨some (.scoped records), legacy⟩ statements
      = ⟨some (.scoped records), legacy⟩ := by
  rcases statements with _ | _ | _ <;> rfl

/-- There is no table: an open creates an empty one first. -/
theorem interruptedOpen_none (legacy : Option MemoryTable) (statements : ℕ) :
    interruptedOpen ⟨none, legacy⟩ statements
      = if statements = 0 then ⟨none, legacy⟩ else ⟨some (.scoped .empty), legacy⟩ := by
  rcases statements with _ | _ | _ <;> rfl

/-- The statements of the migration, one after the other. -/
theorem interruptedOpen_legacy (rows : List LegacyMemory) (statements : ℕ) :
    (statements < 2 ∧ interruptedOpen (legacySchema rows) statements = legacySchema rows) ∨
      (statements = 2 ∧ interruptedOpen (legacySchema rows) statements
        = ⟨none, some (.unscoped rows)⟩) ∨
      (statements = 3 ∧ interruptedOpen (legacySchema rows) statements
        = ⟨some (.scoped .empty), some (.unscoped rows)⟩) ∨
      (4 ≤ statements ∧ ∃ legacy, interruptedOpen (legacySchema rows) statements
        = ⟨some (.scoped (copied rows)), legacy⟩) := by
  -- the copy either inserts all rows or none
  have hcopy : ∀ later : List MigrationStatement, later = [] ∨ later = [.drop] →
      ∃ legacy, runStatements (.copy :: later) ⟨some (.scoped .empty), some (.unscoped rows)⟩
        = ⟨some (.scoped (copied rows)), legacy⟩ := by
    intro later hlater
    unfold copied
    simp only [runStatements, MigrationStatement.run, MemoryTable.selected]
    cases insertAll .empty (rows.map LegacyMemory.scoped) with
    | none => exact ⟨_, rfl⟩
    | some records => rcases hlater with rfl | rfl <;> exact ⟨_, rfl⟩
  rcases statements with _ | _ | _ | _ | _ | n
  · exact Or.inl ⟨by omega, rfl⟩
  · exact Or.inl ⟨by omega, rfl⟩
  · exact Or.inr (Or.inl ⟨rfl, rfl⟩)
  · exact Or.inr (Or.inr (Or.inl ⟨rfl, rfl⟩))
  · exact Or.inr (Or.inr (Or.inr ⟨by omega, hcopy [] (Or.inl rfl)⟩))
  · refine Or.inr (Or.inr (Or.inr ⟨by omega, ?_⟩))
    have htake : (migrate (legacySchema rows)).take (n + 1 + 1 + 1 + 1 + 1)
        = migrate (legacySchema rows) := List.take_of_length_le (by simp [migrate, runStatements,
          migrateMemorySchema, MigrationStatement.run, legacySchema])
    unfold interruptedOpen
    rw [htake]
    exact hcopy [.drop] (Or.inr rfl)

/-! ## Any number of opens

What an interrupted open leaves is what the next one finds: the old table, none, or the new one.
-/

/-- An open that was not interrupted is one that got to its end. -/
theorem openStore_eq (schema : MemorySchema) : openStore schema = interruptedOpen schema 5 := by
  have hlength : (migrate schema).length ≤ 5 := by
    unfold migrate migrateMemorySchema
    split <;> simp
  unfold openStore interruptedOpen
  rw [List.take_of_length_le hlength]

theorem reopen_cons (schema : MemorySchema) (statements : ℕ) (interrupted : List ℕ) :
    reopen schema (statements :: interrupted)
      = reopen (interruptedOpen schema statements) interrupted := rfl

/-- With the column, the records stay. -/
theorem stored_reopen_scoped (records : Table MemoryRecord.memoryId) (legacy : Option MemoryTable)
    (interrupted : List ℕ) :
    (reopen ⟨some (.scoped records), legacy⟩ interrupted).stored = records := by
  induction interrupted with
  | nil =>
      unfold reopen
      rw [openStore_eq]
      exact congrArg MemorySchema.stored (interruptedOpen_scoped records legacy 5)
  | cons statements interrupted ih =>
      rw [reopen_cons, interruptedOpen_scoped]
      exact ih

/-- Without a table, the next one is empty for good. -/
theorem stored_reopen_none (legacy : Option MemoryTable) (interrupted : List ℕ) :
    (reopen ⟨none, legacy⟩ interrupted).stored = .empty := by
  induction interrupted with
  | nil =>
      unfold reopen
      rw [openStore_eq]
      exact congrArg MemorySchema.stored (interruptedOpen_none legacy 5)
  | cons statements interrupted ih =>
      rw [reopen_cons, interruptedOpen_none]
      split
      · exact ih
      · exact stored_reopen_scoped .empty legacy interrupted

/-- The records are those of the copy, if the first open to rename the table made it, and else
none. -/
theorem stored_reopen_legacy (rows : List LegacyMemory) (interrupted : List ℕ) :
    (PastCopy interrupted → (reopen (legacySchema rows) interrupted).stored = copied rows) ∧
      (¬ PastCopy interrupted → (reopen (legacySchema rows) interrupted).stored = .empty) := by
  induction interrupted with
  | nil =>
      refine ⟨fun _ => ?_, fun hnot => absurd (fun _ h => by cases h) hnot⟩
      unfold reopen
      rw [openStore_eq]
      -- five statements are all there are
      rcases interruptedOpen_legacy rows 5 with h | h | h | ⟨_, legacy, h⟩
      · omega
      · omega
      · omega
      · exact congrArg MemorySchema.stored h
  | cons statements interrupted ih =>
      rw [reopen_cons]
      -- the first open that gets to the rename decides
      have hfirst : ∀ m, 2 ≤ statements →
          ((statements :: interrupted).find? (2 ≤ ·) = some m ↔ statements = m) := by
        intro m h2
        rw [List.find?_cons_of_pos (p := fun n => decide (2 ≤ n)) (decide_eq_true h2),
          Option.some.injEq]
      rcases interruptedOpen_legacy rows statements with
        ⟨hlt, h⟩ | ⟨heq, h⟩ | ⟨heq, h⟩ | ⟨hle, legacy, h⟩
      · -- nothing has happened yet
        have hsame : PastCopy (statements :: interrupted) ↔ PastCopy interrupted := by
          unfold PastCopy
          rw [List.find?_cons_of_neg (by simpa using hlt)]
        rw [h, hsame]
        exact ih
      · have hnot : ¬ PastCopy (statements :: interrupted) := fun hpast => by
          have h4 := hpast statements ((hfirst statements (by omega)).mpr rfl)
          omega
        rw [h]
        exact ⟨fun hpast => absurd hpast hnot, fun _ => stored_reopen_none _ interrupted⟩
      · have hnot : ¬ PastCopy (statements :: interrupted) := fun hpast => by
          have h4 := hpast statements ((hfirst statements (by omega)).mpr rfl)
          omega
        rw [h]
        exact ⟨fun hpast => absurd hpast hnot, fun _ => stored_reopen_scoped _ _ interrupted⟩
      -- the rows were copied, and no later open copies again
      · have hpast : PastCopy (statements :: interrupted) := fun m hm => by
          rw [← (hfirst m (by omega)).mp hm]
          exact hle
        rw [h]
        exact ⟨fun _ => stored_reopen_scoped _ _ interrupted, fun hnot => absurd hpast hnot⟩

/-! ## What was carried over -/

/-- The copy succeeds exactly for rows that keep the constraints, and then copies them in order. -/
theorem copied_rows (rows : List LegacyMemory) :
    (Copyable rows → (copied rows).rows = rows.map LegacyMemory.scoped) ∧
      (¬ Copyable rows → (copied rows).rows = []) := by
  obtain ⟨hiff, hrows⟩ :=
    @insertAll_iff (rows.map LegacyMemory.scoped) .empty List.nodup_nil
  rw [Table.empty_rows, List.nil_append, List.map_map, List.map_map] at hiff
  -- the copied columns are those of the legacy row, beside the one workspace
  have hinjective : Function.Injective (fun key : String × String × MemoryKind × Int =>
      ((("legacy", key.1, key.2.1, key.2.2.1), key.2.2.2) : MemoryKey × Int)) := by
    rintro ⟨s, k, kind, n⟩ ⟨s', k', kind', n'⟩ h
    simp only [Prod.mk.injEq, true_and] at h
    obtain ⟨⟨rfl, rfl, rfl⟩, rfl⟩ := h
    rfl
  have hkeys : (rows.map (MemoryRecord.revisionKey ∘ LegacyMemory.scoped)).Nodup ↔
      (rows.map LegacyMemory.revisionKey).Nodup := by
    rw [← List.nodup_map_iff hinjective, List.map_map]
    rfl
  have hcopyable : (∃ records, insertAll .empty (rows.map LegacyMemory.scoped) = some records) ↔
      Copyable rows := hiff.trans (and_congr Iff.rfl hkeys)
  unfold copied
  constructor
  · intro h
    obtain ⟨records, hrun⟩ := hcopyable.mpr h
    rw [hrun]
    exact hrows records hrun
  · intro h
    cases hrun : insertAll .empty (rows.map LegacyMemory.scoped) with
    | none => rfl
    | some records => exact absurd (hcopyable.mp ⟨records, hrun⟩) h

/-- **Which crashes the migration survives.** Whatever the legacy table holds and wherever opens of
it were interrupted, each of its rows is in `memory_records` once, if and only if it had none, or
they keep the constraints and the first open that renamed the table also copied it. -/
theorem legacy_carried_iff (rows : List LegacyMemory) (interrupted : List ℕ) :
    Carried rows (reopen (legacySchema rows) interrupted) ↔
      rows = [] ∨ (Copyable rows ∧ PastCopy interrupted) := by
  obtain ⟨hpast, hlost⟩ := stored_reopen_legacy rows interrupted
  obtain ⟨hcopied, hrefused⟩ := copied_rows rows
  constructor
  · intro hcarried
    cases hrows : rows with
    | nil => exact Or.inl rfl
    | cons row later =>
        have hrow := hcarried row (hrows ▸ List.mem_cons_self)
        have hnonempty : (reopen (legacySchema rows) interrupted).stored.rows ≠ [] := fun h => by
          rw [h] at hrow
          cases hrow
        have hdone : PastCopy interrupted := by
          by_contra hnot
          exact hnonempty (by rw [hlost hnot, Table.empty_rows])
        refine Or.inr ⟨?_, hdone⟩
        rw [← hrows]
        by_contra hnot
        exact hnonempty (by rw [hpast hdone, hrefused hnot])
  · rintro (rfl | ⟨hcopyable, hdone⟩) row hrow
    · cases hrow
    · have hmem : row.scoped ∈ (copied rows).rows := by
        rw [hcopied hcopyable]
        exact List.mem_map_of_mem hrow
      rw [hpast hdone]
      exact Table.filter_key hmem

/-- A row of a legacy table. -/
def themeRow : LegacyMemory where
  memoryId := "mem-old"
  kind := .fact
  key := "theme"
  value := .str "dark"
  scope := "project:legacy"
  sourceEventIds := ["e1"]
  confidence := some 1
  revision := 1

/-- The process dies after the rename, and the next open finds no memory. -/
theorem legacy_carried_fails :
    ¬ ∀ (rows : List LegacyMemory) (interrupted : List ℕ),
      Carried rows (reopen (legacySchema rows) interrupted) := by
  intro h
  have hrow := congrArg List.length (h [themeRow] [2] themeRow List.mem_cons_self)
  revert hrow
  decide +kernel

end LiandanluNative
