/-
# LiandanluNative.Safety.SchemaUpgrade — a database of an earlier version is brought up to date.

Whatever tables and columns a database has, opening it keeps every row with the cells it has, gives
it the columns that came later with their defaults, and creates the tables that are missing.  Last
the workspaces of the entities are counted, those that were not.  Opens that died in between leave
no trace once one was whole, and a further one changes nothing (`schema_upgraded`).

The tables of the world have had their columns from the start, and none is added to them: the last
statement goes by these (`WorldTables`).
-/
import LiandanluNative.Storage.Schema

namespace LiandanluNative

open Lib (Table)
open Lib.Proc (Frame)

/-! ## What no statement takes away

A table is extended: it has its columns and its rows, and perhaps more of either.
-/

/-- The rows are those of the old table, with the defaults of the columns that were added.  Rows
come to `workspace_revisions` alone, and after those it has. -/
def SqlTable.Extended (old new : SqlTable) : Prop :=
  new.name = old.name ∧ ∃ (added : List SqlColumn) (more : List (List Cell)),
    new.columns.rows = old.columns.rows ++ added ∧
    new.rows = old.rows.map (fun row => row ++ added.map SqlColumn.default) ++ more ∧
    (∀ column ∈ added, (old.name, column) ∈ ensuredColumns) ∧
    (old.name ≠ "workspace_revisions" → more = [])

namespace SqlTable.Extended

/-- Rows alone, if it is the table that gets rows. -/
theorem of_rows {old new : SqlTable} {more : List (List Cell)} (hname : new.name = old.name)
    (hcolumns : new.columns = old.columns) (hrows : new.rows = old.rows ++ more)
    (hmore : old.name ≠ "workspace_revisions" → more = []) : old.Extended new := by
  refine ⟨hname, [], more, ?_, ?_, fun _ hno => absurd hno List.not_mem_nil, hmore⟩
  · rw [hcolumns, List.append_nil]
  · simp [hrows]

/-- A table extends itself. -/
theorem refl (table : SqlTable) : table.Extended table :=
  of_rows rfl rfl (List.append_nil _).symm (fun _ => rfl)

/-- Extensions one after the other are an extension. -/
theorem trans {t u v : SqlTable} (h : t.Extended u) (h' : u.Extended v) : t.Extended v := by
  obtain ⟨hname, added, more, hcolumns, hrows, hensured, hmore⟩ := h
  obtain ⟨hname', added', more', hcolumns', hrows', hensured', hmore'⟩ := h'
  refine ⟨hname'.trans hname, added ++ added',
    more.map (fun row => row ++ added'.map SqlColumn.default) ++ more', ?_, ?_, fun column hcolumn => ?_,
    fun hother => ?_⟩
  · rw [hcolumns', hcolumns, List.append_assoc]
  · rw [hrows', hrows, List.map_append, List.map_map, List.map_append, List.append_assoc]
    exact congrArg (· ++ _) (List.map_congr_left (fun row _ => List.append_assoc _ _ _))
  · rcases List.mem_append.mp hcolumn with hcolumn | hcolumn
    · exact hensured column hcolumn
    · rw [← hname]
      exact hensured' column hcolumn
  · rw [hmore hother, hmore' (hname ▸ hother)]
    rfl

/-- A column that the source adds extends the table by its default in every row. -/
theorem addColumn {table : SqlTable} {column : SqlColumn} (h : column.name ∉ table.columnNames)
    (hdefault : column.Allows column.default) (hensured : (table.name, column) ∈ ensuredColumns) :
    table.Extended (table.addColumn column h hdefault) := by
  refine ⟨rfl, [column], [], rfl, (List.append_nil _).symm, fun other hother => ?_, fun _ => rfl⟩
  rwa [List.mem_singleton.mp hother]

/-- No column is lost. -/
theorem mem_columnNames {t u : SqlTable} (h : t.Extended u) {name : String}
    (hname : name ∈ t.columnNames) : name ∈ u.columnNames := by
  obtain ⟨_, added, _, hcolumns, _⟩ := h
  rw [SqlTable.columnNames, hcolumns, List.map_append]
  exact List.mem_append_left _ hname

end SqlTable.Extended

namespace SqlTable

section

variable {table : SqlTable} {rows : List (List Cell)}

/-- An `INSERT OR IGNORE` changes rows alone. -/
theorem insertOrIgnore_eq (table : SqlTable) (row : List Cell) :
    (table.insertOrIgnore row).name = table.name ∧
      (table.insertOrIgnore row).columns = table.columns ∧
      ∃ more, (table.insertOrIgnore row).rows = table.rows ++ more := by
  unfold insertOrIgnore
  split
  · exact ⟨rfl, rfl, [row], rfl⟩
  · exact ⟨rfl, rfl, [], (List.append_nil _).symm⟩

/-- So do any number of them, … -/
theorem inserts_eq (table : SqlTable) (rows : List (List Cell)) :
    (rows.foldl insertOrIgnore table).name = table.name ∧
      (rows.foldl insertOrIgnore table).columns = table.columns ∧
      ∃ more, (rows.foldl insertOrIgnore table).rows = table.rows ++ more := by
  induction rows generalizing table with
  | nil => exact ⟨rfl, rfl, [], (List.append_nil _).symm⟩
  | cons row rows ih =>
      obtain ⟨hname, hcolumns, more, hrows⟩ := table.insertOrIgnore_eq row
      obtain ⟨hname', hcolumns', more', hrows'⟩ := ih (table.insertOrIgnore row)
      refine ⟨hname'.trans hname, hcolumns'.trans hcolumns, more ++ more', ?_⟩
      rw [List.foldl_cons, hrows', hrows, List.append_assoc]

/-- … and all of them come in where their cells may stand. -/
theorem inserts_rows (hfits : ∀ row ∈ rows, List.Forall₂ SqlColumn.Allows table.columns.rows row) :
    (rows.foldl insertOrIgnore table).rows = table.rows ++ rows := by
  induction rows generalizing table with
  | nil => exact (List.append_nil _).symm
  | cons row rows ih =>
      obtain ⟨hrow, hrest⟩ := List.forall_mem_cons.mp hfits
      have hnew : (table.insertOrIgnore row).rows = table.rows ++ [row] := by
        rw [insertOrIgnore, dif_pos hrow]
      have hcolumns := (table.insertOrIgnore_eq row).2.1
      rw [List.foldl_cons, ih (by rwa [hcolumns]), hnew, List.append_assoc]
      rfl

end

end SqlTable

/-- Every table is still there, with its rows: what holds from statement to statement, wherever an
open is broken off. -/
def TablesKept (old new : Schema) : Prop :=
  ∀ name table, old.get? name = some table →
    ∃ table', new.get? name = some table' ∧ table.Extended table'

/-- Keeping the tables of the earlier database, each extended, is a frame: what follows one another
keeps them. -/
theorem frame_tablesKept : Frame TablesKept where
  refl _ _ table h := ⟨table, h, .refl table⟩
  trans h₁ h₂ name table h := by
    obtain ⟨table', h', hextended⟩ := h₁ name table h
    obtain ⟨table'', h'', hextended'⟩ := h₂ name table' h'
    exact ⟨table'', h'', hextended.trans hextended'⟩

/-! ## One statement -/

/-- The tables that are created are the listed ones. -/
theorem createIfMissing_mem {name : String} {columns : Table SqlColumn.name} :
    .createIfMissing name columns ∈ schemaStatements ↔ (name, columns) ∈ createdTables := by
  simp [schemaStatements]

/-- The columns that are added are the listed ones. -/
theorem ensureColumn_mem {name : String} {column : SqlColumn} :
    .ensureColumn name column ∈ schemaStatements ↔ (name, column) ∈ ensuredColumns := by
  simp [schemaStatements]

/-- The table that a statement is about. -/
def SchemaStatement.table : SchemaStatement → String
  | .createIfMissing name _ => name
  | .ensureColumn name _ => name
  | .countWorkspaces => "workspace_revisions"

section

variable {schema schema' : Schema}

/-- A table that was given a column is found with it. -/
theorem get?_put_addColumn {name : String} {table : SqlTable} {column : SqlColumn}
    (htable : schema.get? name = some table) (hnew : column.name ∉ table.columnNames)
    (hdefault : column.Allows column.default) :
    (schema.put (table.addColumn column hnew hdefault)).get? name
      = some (table.addColumn column hnew hdefault) := by
  have hname : table.name = name := Table.key_of_get? htable
  rw [← hname]
  exact Table.get?_put_self schema (table.addColumn column hnew hdefault)

/-- A column is ensured where the table has it, or has it now. -/
theorem ensureColumn_cases {name : String} {column : SqlColumn}
    (h : (SchemaStatement.ensureColumn name column).run schema = some schema') :
    ∃ table, schema.get? name = some table ∧
      (column.name ∈ table.columnNames ∧ schema' = schema ∨
        ∃ (hnew : column.name ∉ table.columnNames) (hdefault : column.Allows column.default),
          schema' = schema.put (table.addColumn column hnew hdefault)) := by
  rw [SchemaStatement.run] at h
  split at h
  · cases h
  rename_i table htable
  refine ⟨table, htable, ?_⟩
  split at h
  · rename_i hhas
    cases h
    exact Or.inl ⟨hhas, rfl⟩
  split at h
  · rename_i hnew hdefault
    cases h
    exact Or.inr ⟨hnew, hdefault, rfl⟩
  · cases h

/-- Rows are inserted into the table of that name. -/
theorem counters_of_inserts {counters : SqlTable} {rows : List (List Cell)}
    (h : schema.workspaceInserts = some (counters, rows)) :
    schema.get? "workspace_revisions" = some counters := by
  simp only [Schema.workspaceInserts, Option.bind_eq_bind, Option.bind_eq_some_iff] at h
  obtain ⟨_, -, _, -, table, htable, _, -, _, -, _, -, h⟩ := h
  split at h
  · cases h
    exact htable
  · cases h

/-- Where its three tables can be read, the last statement inserts one row for each workspace. -/
theorem countWorkspaces_of_inserts {counters : SqlTable} {rows : List (List Cell)}
    (h : schema.workspaceInserts = some (counters, rows)) :
    SchemaStatement.countWorkspaces.run schema
      = some (schema.put (rows.foldl SqlTable.insertOrIgnore counters)) := by
  simp only [SchemaStatement.run, h, Option.bind_eq_bind, Option.bind_some]

/-- The workspaces are counted by the rows there are, and more. -/
theorem countWorkspaces_cases (h : SchemaStatement.countWorkspaces.run schema = some schema') :
    ∃ counters rows, schema.workspaceInserts = some (counters, rows) ∧
      schema' = schema.put (rows.foldl SqlTable.insertOrIgnore counters) := by
  simp only [SchemaStatement.run, Option.bind_eq_bind, Option.bind_eq_some_iff] at h
  obtain ⟨⟨counters, rows⟩, hinserts, h⟩ := h
  exact ⟨counters, rows, hinserts, (Option.some.inj h).symm⟩

/-- The other tables are not touched. -/
theorem SchemaStatement.get?_run_ne {statement : SchemaStatement} {name : String}
    (hne : statement.table ≠ name) (h : statement.run schema = some schema') :
    schema'.get? name = schema.get? name := by
  cases statement with
  | createIfMissing other columns =>
      cases h
      cases htable : schema.get? other with
      | some table => rw [Table.putNew_of_get?_some (v := SqlTable.new other columns) htable]
      | none =>
          rw [Table.putNew_of_get?_none (v := SqlTable.new other columns) htable]
          exact Table.get?_put_ne schema hne
  | ensureColumn other column =>
      obtain ⟨table, htable, ⟨_, rfl⟩ | ⟨hnew, hdefault, rfl⟩⟩ := ensureColumn_cases h
      · rfl
      · refine Table.get?_put_ne schema ?_
        show table.name ≠ name
        rw [Table.key_of_get? htable]
        exact hne
  | countWorkspaces =>
      obtain ⟨counters, rows, hinserts, rfl⟩ := countWorkspaces_cases h
      refine Table.get?_put_ne schema ?_
      rw [(counters.inserts_eq rows).1, Table.key_of_get? (counters_of_inserts hinserts)]
      exact hne

/-- **One statement** keeps every table: it creates one that was missing, adds a column, or inserts
rows, and each of these extends the table it is about. -/
theorem SchemaStatement.run_kept {statement : SchemaStatement} (hmem : statement ∈ schemaStatements)
    (h : statement.run schema = some schema') : TablesKept schema schema' := by
  intro name table htable
  by_cases hne : statement.table = name
  swap
  · exact ⟨table, (get?_run_ne hne h).trans htable, .refl table⟩
  subst hne
  cases statement with
  | createIfMissing name columns =>
      cases h
      exact ⟨table, Table.get?_putNew_of_some htable, .refl table⟩
  | ensureColumn name column =>
      obtain ⟨table', htable', hcases⟩ := ensureColumn_cases h
      cases htable.symm.trans htable'
      rcases hcases with ⟨_, rfl⟩ | ⟨hnew, hdefault, rfl⟩
      · exact ⟨table, htable, .refl table⟩
      · have hname : table.name = name := Table.key_of_get? htable
        have hensured : (table.name, column) ∈ ensuredColumns := by
          rw [hname]
          exact ensureColumn_mem.mp hmem
        exact ⟨_, get?_put_addColumn htable hnew hdefault, .addColumn hnew hdefault hensured⟩
  | countWorkspaces =>
      obtain ⟨counters, rows, hinserts, rfl⟩ := countWorkspaces_cases h
      cases htable.symm.trans (counters_of_inserts hinserts)
      have hname : table.name = "workspace_revisions" := Table.key_of_get? htable
      obtain ⟨hname', hcolumns, more, hrows⟩ := table.inserts_eq rows
      refine ⟨rows.foldl SqlTable.insertOrIgnore table, ?_,
        .of_rows hname' hcolumns hrows (fun hother => absurd hname hother)⟩
      have hself := Table.get?_put_self schema (rows.foldl SqlTable.insertOrIgnore table)
      rwa [hname', hname] at hself

end

/-! ## The tables of the world

The last statement reads three tables, and adds rows to one of them.
-/

/-- The tables that the last statement reads, by the columns they are created with. -/
def worldTables : List (String × Table SqlColumn.name) :=
  [("world_entities", worldEntitiesColumns), ("world_revisions", worldRevisionsColumns),
    ("workspace_revisions", workspaceRevisionsColumns)]

/-- The table of entities is one of the world. -/
theorem entities_world : ("world_entities", worldEntitiesColumns) ∈ worldTables := by
  simp [worldTables]

/-- So is the one of the revisions of the domains. -/
theorem revisions_world : ("world_revisions", worldRevisionsColumns) ∈ worldTables := by
  simp [worldTables]

/-- So is the one of the revisions of the workspaces. -/
theorem counters_world : ("workspace_revisions", workspaceRevisionsColumns) ∈ worldTables := by
  simp [worldTables]

/-- Those of them that are there have these columns, as they had in every version.  Tables that were
changed by other hands are outside of what an open promises. -/
def WorldTables (schema : Schema) : Prop :=
  ∀ name columns, (name, columns) ∈ worldTables →
    ∀ table, schema.get? name = some table → table.columns = columns

/-- The tables of the world are among those created. -/
theorem worldTables_created {name : String} {columns : Table SqlColumn.name}
    (h : (name, columns) ∈ worldTables) : (name, columns) ∈ createdTables := by
  simp only [worldTables, List.mem_cons, List.not_mem_nil, or_false] at h
  rcases h with h | h | h
  all_goals
    rw [h]
    simp [createdTables]

/-- No column is added to them. -/
theorem ensuredColumns_elsewhere : ∀ entry ∈ ensuredColumns,
    entry.1 ∉ ["world_entities", "world_revisions", "workspace_revisions"] := by
  decide

/-- There are three tables of the world. -/
theorem worldTables_name {name : String} {columns : Table SqlColumn.name}
    (h : (name, columns) ∈ worldTables) :
    name ∈ ["world_entities", "world_revisions", "workspace_revisions"] :=
  List.mem_map_of_mem (f := Prod.fst) h

/-- No table is created under two definitions. -/
theorem createdTables_nodup : (createdTables.map Prod.fst).Nodup := by decide

/-- The table, or the one that is created where there is none. -/
def Schema.orCreated (schema : Schema) (name : String) (columns : Table SqlColumn.name) : SqlTable :=
  (schema.get? name).getD (.new name columns)

section

variable {schema schema' : Schema} {name : String} {columns : Table SqlColumn.name}

/-- A table of the world has the columns of its CREATE, whether it was there or not. -/
theorem Schema.orCreated_columns (hworld : WorldTables schema)
    (hmem : (name, columns) ∈ worldTables) : (schema.orCreated name columns).columns = columns := by
  unfold Schema.orCreated
  cases htable : schema.get? name with
  | none => rfl
  | some table => exact hworld name columns hmem table htable

/-- Until the workspaces are counted, such a table is the one there was, or a new one.  So what the
last statement reads can be said of the database before the open. -/
theorem SchemaStatement.orCreated_run {statement : SchemaStatement}
    (hmem : statement ∈ schemaStatements) (hcount : statement ≠ .countWorkspaces)
    (hworld : (name, columns) ∈ worldTables) (h : statement.run schema = some schema') :
    schema'.orCreated name columns = schema.orCreated name columns := by
  unfold Schema.orCreated
  by_cases hne : statement.table = name
  swap
  · rw [get?_run_ne hne h]
  subst hne
  cases statement with
  | createIfMissing name columns' =>
      cases h
      obtain rfl : columns' = columns := congrArg Prod.snd (List.inj_on_of_nodup_map
        createdTables_nodup (createIfMissing_mem.mp hmem) (worldTables_created hworld) rfl)
      show ((schema.putNew (SqlTable.new name columns')).get? name).getD _ = (schema.get? name).getD _
      cases htable : schema.get? name with
      | none =>
          have hself := Table.get?_put_self schema (SqlTable.new name columns')
          rw [Table.putNew_of_get?_none (v := SqlTable.new name columns') htable]
          exact (congrArg (fun found : Option SqlTable => found.getD (.new name columns')) hself).trans
            rfl
      | some table => rw [Table.get?_putNew_of_some htable]
  | ensureColumn name column =>
      exact absurd (worldTables_name hworld)
        (ensuredColumns_elsewhere _ (ensureColumn_mem.mp hmem))
  | countWorkspaces => exact absurd rfl hcount

/-- The tables of the world keep their columns. -/
theorem WorldTables.run (hworld : WorldTables schema) {statement : SchemaStatement}
    (hmem : statement ∈ schemaStatements) (h : statement.run schema = some schema') :
    WorldTables schema' := by
  intro name columns hin table htable
  by_cases hcount : statement = .countWorkspaces
  · subst hcount
    obtain ⟨counters, rows, hinserts, rfl⟩ := countWorkspaces_cases h
    have hcounters := counters_of_inserts hinserts
    have hname : counters.name = "workspace_revisions" := Table.key_of_get? hcounters
    obtain ⟨hname', hcolumns, -⟩ := counters.inserts_eq rows
    rw [Table.get?_put] at htable
    split at htable
    · rename_i hkey
      cases htable
      rw [hcolumns]
      refine hworld name columns hin counters ?_
      rwa [← hkey, hname', hname]
    · exact hworld name columns hin table htable
  · have hsame := SchemaStatement.orCreated_run hmem hcount hin h
    have htable' : schema'.orCreated name columns = table := by rw [Schema.orCreated, htable]; rfl
    rw [← htable', hsame]
    exact Schema.orCreated_columns hworld hin

end

/-! ## Counting the workspaces -/

section

variable {table : SqlTable}

/-- The cells of a column of the table are those that its rows have at its place. -/
theorem SqlTable.cells_of_mem {name : String} (h : name ∈ table.columnNames) :
    table.cells name
      = some (table.rows.map (fun row => row.getD (table.columnNames.idxOf name) .null)) := by
  rw [SqlTable.cells, if_pos h]

/-- There is a count, and it is not null. -/
theorem SqlTable.workspaceCount_of_created (h : table.columns = worldRevisionsColumns) :
    ∃ count, table.workspaceCount = some count ∧ count ≠ .null := by
  have hsingleton : "singleton" ∈ table.columnNames := by
    rw [SqlTable.columnNames, h]
    decide
  have hworkspace : "workspace" ∈ table.columnNames := by
    rw [SqlTable.columnNames, h]
    decide
  simp only [workspaceCount, cells_of_mem hsingleton, cells_of_mem hworkspace,
    Option.bind_eq_bind, Option.bind_some]
  generalize List.find? _ _ = found
  rcases found with _ | ⟨singleton, cell⟩
  · exact ⟨.integer 0, rfl, nofun⟩
  · cases cell with
    | null => exact ⟨.integer 0, rfl, nofun⟩
    | integer n => exact ⟨.integer n, rfl, nofun⟩
    | real x => exact ⟨.real x, rfl, nofun⟩
    | text t => exact ⟨.text t, rfl, nofun⟩

/-- An entity has a workspace. -/
theorem SqlTable.workspace_ne_null (h : table.columns = worldEntitiesColumns) {ids : List Cell}
    (hids : table.cells "workspace_id" = some ids) : ∀ id ∈ ids, id ≠ .null := by
  have hname : "workspace_id" ∈ table.columnNames := by
    rw [SqlTable.columnNames, h]
    decide
  have hindex : table.columnNames.idxOf "workspace_id" = 2 := by
    rw [SqlTable.columnNames, h]
    decide
  rw [SqlTable.cells_of_mem hname, hindex] at hids
  cases hids
  intro id hid
  obtain ⟨row, hrow, rfl⟩ := List.mem_map.mp hid
  have hfits := table.fits row hrow
  rw [h] at hfits
  -- the third column
  obtain ⟨_, _, -, hrest, hrow'⟩ := List.forall₂_cons_left_iff.mp hfits
  obtain ⟨_, _, -, hrest', rfl⟩ := List.forall₂_cons_left_iff.mp hrest
  obtain ⟨_, _, hallows, -, rfl⟩ := List.forall₂_cons_left_iff.mp hrest'
  rw [hrow']
  exact hallows rfl

end

/-- The rows that come to `workspace_revisions`: one for each workspace that has none, in the order
in which the entities name them. -/
def newCounts (ids known : List Cell) (count : Cell) : List (List Cell) :=
  (ids.eraseDups.filter (fun id => decide (id ∉ known))).map (fun id => [id, count])

/-- What the last statement finds in the tables of the world, and makes of them. -/
structure CountsWorkspaces (entities revisions counters : SqlTable) (ids known : List Cell)
    (count : Cell) : Prop where
  found : entities.cells "workspace_id" = some ids
  counted : counters.cells "workspace_id" = some known
  starts : revisions.workspaceCount = some count
  present : ∀ id ∈ ids, id ≠ Cell.null
  notNull : count ≠ Cell.null

section

variable {schema : Schema} {entities revisions counters : SqlTable}

/-- The statement finds all it needs. -/
theorem WorldTables.counts (hworld : WorldTables schema)
    (hentities : schema.get? "world_entities" = some entities)
    (hrevisions : schema.get? "world_revisions" = some revisions)
    (hcounters : schema.get? "workspace_revisions" = some counters) :
    ∃ ids known count, CountsWorkspaces entities revisions counters ids known count ∧
      schema.workspaceInserts = some (counters, newCounts ids known count) := by
  -- the three tables have the columns of their CREATE
  have hcolumns : entities.columns = worldEntitiesColumns :=
    hworld _ _ entities_world _ hentities
  have hcolumns' : counters.columns = workspaceRevisionsColumns :=
    hworld _ _ counters_world _ hcounters
  obtain ⟨count, hcount, hnull⟩ := SqlTable.workspaceCount_of_created
    (hworld _ _ revisions_world _ hrevisions)
  have hid : "workspace_id" ∈ entities.columnNames := by
    rw [SqlTable.columnNames, hcolumns]
    decide
  have hnames : counters.columnNames = ["workspace_id", "revision"] := by
    rw [SqlTable.columnNames, hcolumns']
    rfl
  have hid' : "workspace_id" ∈ counters.columnNames := by
    rw [hnames]
    decide
  -- no entity has NULL as its workspace
  have hpresent := SqlTable.workspace_ne_null hcolumns (SqlTable.cells_of_mem hid)
  refine ⟨_, _, count,
    ⟨SqlTable.cells_of_mem hid, SqlTable.cells_of_mem hid', hcount, hpresent, hnull⟩, ?_⟩
  -- a new row has the two columns of the table, and nothing to fill in
  have hrow : ∀ id, counters.rowOf [("workspace_id", id), ("revision", count)] = [id, count] := by
    intro id
    rw [SqlTable.rowOf, hcolumns']
    rfl
  have hrevision : "revision" ∈ counters.columnNames := by
    rw [hnames]
    decide
  simp only [Schema.workspaceInserts, hentities, hrevisions, hcounters, SqlTable.cells_of_mem hid,
    SqlTable.cells_of_mem hid', hcount, Option.bind_eq_bind, Option.bind_some, if_pos hrevision, hrow]
  refine congrArg some (congrArg (Prod.mk counters) ?_)
  refine congrArg (List.map _) (List.filter_congr (fun id hmem => ?_))
  have hne := hpresent id (List.mem_eraseDups.mp hmem)
  simp [hne]

namespace CountsWorkspaces

variable {ids known : List Cell} {count : Cell}
  (h : CountsWorkspaces entities revisions counters ids known count)
  (hcolumns : counters.columns = workspaceRevisionsColumns)
include h hcolumns

/-- All the rows come in. -/
theorem inserts_rows : ((newCounts ids known count).foldl SqlTable.insertOrIgnore counters).rows
    = counters.rows ++ newCounts ids known count := by
  refine SqlTable.inserts_rows (fun row hrow => ?_)
  obtain ⟨id, -, rfl⟩ := List.mem_map.mp hrow
  rw [hcolumns]
  exact .cons nofun (.cons (fun _ => h.notNull) .nil)

/-- Then every workspace has a row, and no more are to come. -/
theorem inserts_done {known' : List Cell}
    (hknown : ((newCounts ids known count).foldl SqlTable.insertOrIgnore counters).cells "workspace_id"
      = some known') : newCounts ids known' count = [] := by
  obtain ⟨-, hsame, -⟩ := counters.inserts_eq (newCounts ids known count)
  have hnames : counters.columnNames = ["workspace_id", "revision"] := by
    rw [SqlTable.columnNames, hcolumns]
    rfl
  have hnames' : ((newCounts ids known count).foldl SqlTable.insertOrIgnore counters).columnNames
      = ["workspace_id", "revision"] := by
    rw [← hnames, SqlTable.columnNames, hsame, SqlTable.columnNames]
  have hmem : "workspace_id" ∈ ["workspace_id", "revision"] := by decide
  rw [SqlTable.cells_of_mem (hnames' ▸ hmem), hnames', h.inserts_rows hcolumns, List.map_append] at hknown
  have hcounted := h.counted
  rw [SqlTable.cells_of_mem (hnames ▸ hmem), hnames] at hcounted
  cases hcounted
  cases hknown
  refine List.map_eq_nil_iff.mpr (List.filter_eq_nil_iff.mpr (fun id hid => ?_))
  simp only [decide_eq_true_eq, not_not, List.mem_append]
  by_cases hold : id ∈ counters.rows.map
      (fun row => row.getD (["workspace_id", "revision"].idxOf "workspace_id") .null)
  · exact Or.inl hold
  · refine Or.inr (List.mem_map.mpr ⟨[id, count], List.mem_map.mpr ⟨id, ?_, rfl⟩, rfl⟩)
    exact List.mem_filter.mpr ⟨hid, by simpa using hold⟩

end CountsWorkspaces

end

/-! ## What a statement is for

Each statement has an effect that the later ones keep, so that running all of them again changes
nothing.
-/

/-- The table is there, with the column; and there is no workspace left to count.  A statement that
is done does nothing when it is run again. -/
def SchemaStatement.Done (schema : Schema) : SchemaStatement → Prop
  | .createIfMissing name _ => ∃ table, schema.get? name = some table
  | .ensureColumn name column =>
      ∃ table, schema.get? name = some table ∧ column.name ∈ table.columnNames
  | .countWorkspaces => ∃ counters, schema.workspaceInserts = some (counters, [])

section

variable {schema schema' : Schema}

/-- Nothing else is read to count the workspaces. -/
theorem workspaceInserts_congr
    (h : ∀ name ∈ ["world_entities", "world_revisions", "workspace_revisions"],
      schema'.get? name = schema.get? name) :
    schema'.workspaceInserts = schema.workspaceInserts := by
  unfold Schema.workspaceInserts
  rw [h "world_entities" (by simp), h "world_revisions" (by simp),
    h "workspace_revisions" (by simp)]

/-- Where the workspaces were counted, the tables of the world are there. -/
theorem tables_of_inserts {inserts : SqlTable × List (List Cell)}
    (h : schema.workspaceInserts = some inserts) :
    ∀ name ∈ ["world_entities", "world_revisions", "workspace_revisions"],
      ∃ table, schema.get? name = some table := by
  simp only [Schema.workspaceInserts, Option.bind_eq_bind, Option.bind_eq_some_iff] at h
  obtain ⟨entities, hentities, revisions, hrevisions, counters, hcounters, -⟩ := h
  intro name hname
  simp only [List.mem_cons, List.not_mem_nil, or_false] at hname
  rcases hname with rfl | rfl | rfl
  · exact ⟨entities, hentities⟩
  · exact ⟨revisions, hrevisions⟩
  · exact ⟨counters, hcounters⟩

/-- To count the workspaces again is no change. -/
theorem countWorkspaces_idle {counters : SqlTable}
    (h : schema.workspaceInserts = some (counters, [])) :
    SchemaStatement.countWorkspaces.run schema = some schema := by
  have hcounters := counters_of_inserts h
  have hname : counters.name = "workspace_revisions" := Table.key_of_get? hcounters
  rw [countWorkspaces_of_inserts h]
  refine congrArg some (Table.put_eq_self ?_)
  show schema.get? counters.name = some counters
  rw [hname]
  exact hcounters

/-- A statement undoes nothing that another has done.  The one case with something to show is a
table that is created or changed after the workspaces were counted: it is none of the three. -/
theorem SchemaStatement.Done.kept {ran statement : SchemaStatement} (hmem : ran ∈ schemaStatements)
    (hrun : ran.run schema = some schema') (h : statement.Done schema) : statement.Done schema' := by
  have hkept := SchemaStatement.run_kept hmem hrun
  cases statement with
  | createIfMissing name columns =>
      obtain ⟨table, htable⟩ := h
      obtain ⟨table', htable', _⟩ := hkept name table htable
      exact ⟨table', htable'⟩
  | ensureColumn name column =>
      obtain ⟨table, htable, hcolumn⟩ := h
      obtain ⟨table', htable', hextended⟩ := hkept name table htable
      exact ⟨table', htable', hextended.mem_columnNames hcolumn⟩
  | countWorkspaces =>
      obtain ⟨counters, hinserts⟩ := h
      refine ⟨counters, (workspaceInserts_congr (fun name hname => ?_)).trans hinserts⟩
      obtain ⟨table, htable⟩ := tables_of_inserts hinserts name hname
      cases ran with
      | createIfMissing other columns =>
          cases hrun
          rw [htable]
          exact Table.get?_putNew_of_some htable
      | ensureColumn other column =>
          refine SchemaStatement.get?_run_ne (fun hsame => ?_) hrun
          rw [← hsame] at hname
          exact ensuredColumns_elsewhere _ (ensureColumn_mem.mp hmem) hname
      | countWorkspaces =>
          cases (countWorkspaces_idle hinserts).symm.trans hrun
          rfl

/-- A column is ensured of a table that is created before, and has a default where it needs one. -/
theorem ensuredColumns_fit : ∀ entry ∈ ensuredColumns, entry.1 ∈ createdTables.map Prod.fst ∧
    entry.2.Allows entry.2.default := by
  decide

/-- The tables are created first. -/
theorem creates_before {before later : List SchemaStatement} {statement : SchemaStatement}
    (hsplit : schemaStatements = before ++ statement :: later)
    (hother : ∀ name columns, statement ≠ .createIfMissing name columns) {name : String}
    {columns : Table SqlColumn.name} (hcreated : (name, columns) ∈ createdTables) :
    .createIfMissing name columns ∈ before := by
  have hmem : .createIfMissing name columns ∈ createdTables.map
      (fun created => SchemaStatement.createIfMissing created.1 created.2) :=
    List.mem_map.mpr ⟨(name, columns), hcreated, rfl⟩
  rw [schemaStatements, List.append_assoc] at hsplit
  rcases List.append_eq_append_iff.mp hsplit with ⟨more, rfl, _⟩ | ⟨more, hcreates, hrest⟩
  · exact List.mem_append_left _ hmem
  · cases more with
    | nil =>
        rw [List.append_nil] at hcreates
        rwa [← hcreates]
    | cons first more =>
        -- the statement would be one of those
        obtain ⟨rfl, _⟩ := List.cons.inj hrest
        have hwrong : statement ∈ before ++ statement :: more :=
          List.mem_append_right _ List.mem_cons_self
        rw [← hcreates, List.mem_map] at hwrong
        obtain ⟨_, _, hno⟩ := hwrong
        exact absurd hno.symm (hother _ _)

/-- The workspaces can be counted where the tables of the world are there, and are then. -/
theorem countWorkspaces_enabled {entities revisions counters : SqlTable} (hworld : WorldTables schema)
    (hmem : .countWorkspaces ∈ schemaStatements)
    (hentities : schema.get? "world_entities" = some entities)
    (hrevisions : schema.get? "world_revisions" = some revisions)
    (hcounters : schema.get? "workspace_revisions" = some counters) :
    ∃ schema', SchemaStatement.countWorkspaces.run schema = some schema' ∧
      SchemaStatement.countWorkspaces.Done schema' := by
  obtain ⟨ids, known, count, hcounts, hinserts⟩ := hworld.counts hentities hrevisions hcounters
  have hrun := countWorkspaces_of_inserts hinserts
  refine ⟨_, hrun, ?_⟩
  -- the workspaces are counted once more, and none is new
  have hname : counters.name = "workspace_revisions" := Table.key_of_get? hcounters
  obtain ⟨hname', -, -⟩ := counters.inserts_eq (newCounts ids known count)
  have hself := Table.get?_put_self schema
    ((newCounts ids known count).foldl SqlTable.insertOrIgnore counters)
  rw [hname', hname] at hself
  have hothers : ∀ name, name ≠ "workspace_revisions" →
      (schema.put ((newCounts ids known count).foldl SqlTable.insertOrIgnore counters)).get? name
        = schema.get? name := by
    intro name hne
    refine Table.get?_put_ne schema ?_
    rw [hname', hname]
    exact hne.symm
  obtain ⟨ids', known', count', hcounts', hinserts'⟩ := (hworld.run hmem hrun).counts
    ((hothers _ (by decide)).trans hentities) ((hothers _ (by decide)).trans hrevisions) hself
  cases hcounts.found.symm.trans hcounts'.found
  cases hcounts.starts.symm.trans hcounts'.starts
  rw [hcounts.inserts_done (hworld _ _ counters_world _ hcounters) hcounts'.counted] at hinserts'
  exact ⟨_, hinserts'⟩

/-- Each statement does its own work, leaves the work of the others and, once done, does nothing:
such lists settle (`Lib.Settling`), however often they are broken off.  Statements that come later
may need those before, as a column needs its table. -/
theorem settling_schemaStatements :
    Lib.Settling (fun statement schema => statement.run schema) WorldTables
      (fun statement schema => statement.Done schema) schemaStatements where
  enabled := by
    intro before statement later schema hsplit hworld hbefore
    cases statement with
    | createIfMissing name columns =>
        refine ⟨_, rfl, Option.isSome_iff_exists.mp ?_⟩
        exact Table.get?_putNew_self schema (SqlTable.new name columns)
    | ensureColumn name column =>
        have hmem : .ensureColumn name column ∈ schemaStatements := by
          rw [hsplit]
          exact List.mem_append_right _ List.mem_cons_self
        -- the table was created by a statement before this one
        obtain ⟨hknown, hdefault⟩ := ensuredColumns_fit _ (ensureColumn_mem.mp hmem)
        obtain ⟨⟨other, columns⟩, hcreated, hname⟩ := List.mem_map.mp hknown
        obtain rfl : other = name := hname
        obtain ⟨table, htable⟩ := hbefore _ (creates_before hsplit (fun _ _ hsame => by cases hsame) hcreated)
        by_cases hcolumn : column.name ∈ table.columnNames
        · refine ⟨schema, ?_, table, htable, hcolumn⟩
          simp only [SchemaStatement.run, htable, dif_pos hcolumn]
        · refine ⟨schema.put (table.addColumn column hcolumn hdefault), ?_,
            table.addColumn column hcolumn hdefault, ?_,
            List.mem_map_of_mem (List.mem_append_right _ List.mem_cons_self)⟩
          · simp only [SchemaStatement.run, htable, dif_neg hcolumn]
            exact dif_pos hdefault
          · exact get?_put_addColumn htable hcolumn hdefault
    | countWorkspaces =>
        -- the three tables it reads were created before, too
        have hthere : ∀ name columns, (name, columns) ∈ worldTables →
            ∃ table, schema.get? name = some table := by
          intro name columns hin
          refine hbefore _ (creates_before hsplit (fun _ _ hsame => ?_) (worldTables_created hin))
          cases hsame
        have hmem : .countWorkspaces ∈ schemaStatements := by
          rw [hsplit]
          exact List.mem_append_right _ List.mem_cons_self
        obtain ⟨entities, hentities⟩ := hthere _ _ entities_world
        obtain ⟨revisions, hrevisions⟩ := hthere _ _ revisions_world
        obtain ⟨counters, hcounters⟩ := hthere _ _ counters_world
        exact countWorkspaces_enabled hworld hmem hentities hrevisions hcounters
  idle := by
    intro statement schema _ hdone
    cases statement with
    | createIfMissing name columns =>
        obtain ⟨table, htable⟩ := hdone
        exact congrArg some (Table.putNew_of_get?_some (v := SqlTable.new name columns) htable)
    | ensureColumn name column =>
        obtain ⟨table, htable, hcolumn⟩ := hdone
        simp only [SchemaStatement.run, htable, dif_pos hcolumn]
    | countWorkspaces =>
        obtain ⟨counters, hinserts⟩ := hdone
        exact countWorkspaces_idle hinserts
  kept hmem hrun hdone := hdone.kept hmem hrun
  closed hmem hworld hrun := hworld.run hmem hrun

/-! ## Tables that were not there -/

/-- The table is missing, or it is as `_migrate` creates it: what a table that was missing is at
every moment of an open. -/
def Untouched (name : String) (columns : Table SqlColumn.name) (schema : Schema) : Prop :=
  schema.get? name = none ∨ schema.get? name = some (.new name columns)

/-- What is added later is there from the start in a table that is new. -/
theorem ensuredColumns_created : ∀ entry ∈ ensuredColumns, ∀ created ∈ createdTables,
    entry.1 = created.1 → entry.2.name ∈ created.2.rows.map SqlColumn.name := by
  decide

/-- A statement leaves a table it does not name alone. -/
theorem SchemaStatement.run_untouched {statement : SchemaStatement}
    (hmem : statement ∈ schemaStatements) {name : String} {columns : Table SqlColumn.name}
    (hcreated : (name, columns) ∈ createdTables) (hcounters : name ≠ "workspace_revisions")
    (hold : Untouched name columns schema) (h : statement.run schema = some schema') :
    Untouched name columns schema' := by
  by_cases hne : statement.table = name
  swap
  · rwa [Untouched, get?_run_ne hne h]
  subst hne
  cases statement with
  | createIfMissing name columns' =>
      cases h
      obtain rfl : columns' = columns := congrArg Prod.snd
        (List.inj_on_of_nodup_map createdTables_nodup (createIfMissing_mem.mp hmem) hcreated rfl)
      refine Or.inr ?_
      rcases hold with hnone | hsome
      · rw [Table.putNew_of_get?_none (v := SqlTable.new name columns') hnone]
        exact Table.get?_put_self schema (SqlTable.new name columns')
      · exact Table.get?_putNew_of_some hsome
  | ensureColumn name column =>
      obtain ⟨table, htable, hcases⟩ := ensureColumn_cases h
      rcases hold with hnone | hsome
      · cases hnone.symm.trans htable
      cases hsome.symm.trans htable
      rcases hcases with ⟨_, rfl⟩ | ⟨hnew, _⟩
      · exact Or.inr hsome
      · exact absurd (ensuredColumns_created _ (ensureColumn_mem.mp hmem) _ hcreated rfl) hnew
  | countWorkspaces => exact absurd rfl hcounters

/-! ## Whole runs -/

/-- What opening makes of the tables of an earlier version. -/
structure Upgraded (old new : Schema) : Prop where
  kept : TablesKept old new
  /-- Every table is there, and has every column that came later; and every workspace is counted. -/
  complete : ∀ statement ∈ schemaStatements, statement.Done new
  /-- A table that was missing is empty, with the columns that it is created with, … -/
  created : ∀ name columns, (name, columns) ∈ createdTables → name ≠ "workspace_revisions" →
    old.get? name = none → new.get? name = some (.new name columns)
  /-- … but for the rows of the workspaces that had none: these come after the rows there are. -/
  counts : ∃ ids known count table,
    CountsWorkspaces (old.orCreated "world_entities" worldEntitiesColumns)
      (old.orCreated "world_revisions" worldRevisionsColumns)
      (old.orCreated "workspace_revisions" workspaceRevisionsColumns) ids known count ∧
    new.get? "workspace_revisions" = some table ∧ table.columns = workspaceRevisionsColumns ∧
    table.rows = (old.orCreated "workspace_revisions" workspaceRevisionsColumns).rows
      ++ newCounts ids known count
  /-- Tables of which `_migrate` does not know are left alone. -/
  others : ∀ name, name ∉ createdTables.map Prod.fst → new.get? name = old.get? name

/-- The last statement, and those before it. -/
theorem schemaStatements_split : ∃ before, schemaStatements = before ++ [.countWorkspaces] ∧
    ∀ statement ∈ before, statement ≠ .countWorkspaces := by
  refine ⟨_, rfl, fun statement hmem => ?_⟩
  rcases List.mem_append.mp hmem with hmem | hmem
  all_goals
    obtain ⟨_, -, rfl⟩ := List.mem_map.mp hmem
    nofun

/-- How the workspaces are counted, by the tables as they were before the open. -/
theorem counts_migrateTables {schema : Schema} (hworld : WorldTables schema) :
    ∃ ids known count table,
      CountsWorkspaces (schema.orCreated "world_entities" worldEntitiesColumns)
        (schema.orCreated "world_revisions" worldRevisionsColumns)
        (schema.orCreated "workspace_revisions" workspaceRevisionsColumns) ids known count ∧
      (migrateTables schema).get? "workspace_revisions" = some table ∧
      table.columns = workspaceRevisionsColumns ∧
      table.rows = (schema.orCreated "workspace_revisions" workspaceRevisionsColumns).rows
        ++ newCounts ids known count := by
  obtain ⟨before, hsplit, hearlier⟩ := schemaStatements_split
  have hmem : ∀ statement ∈ before, statement ∈ schemaStatements := by
    intro statement hin
    rw [hsplit]
    exact List.mem_append_left _ hin
  obtain ⟨hrun, hworld', hdone⟩ := @Lib.Settling.run_append _ _ _ _ _ _ settling_schemaStatements
    before [] [.countWorkspaces] schema hsplit hworld (fun _ hno => absurd hno List.not_mem_nil)
  let middle := Lib.runSteps (fun statement schema => statement.run schema) before schema
  -- up to the last statement the tables of the world are as they were, or new
  have hthere : ∀ name columns, (name, columns) ∈ worldTables →
      middle.get? name = some (schema.orCreated name columns) := by
    intro name columns hin
    have hfixed : middle.orCreated name columns = schema.orCreated name columns :=
      Lib.runSteps_within (Lib.Proc.frame_fixes (fun schema : Schema => schema.orCreated name columns))
        (fun statement hstatement _ _ h => SchemaStatement.orCreated_run (hmem _ hstatement)
          (hearlier _ hstatement) hin h) schema
    obtain ⟨table, htable⟩ := hdone _ (creates_before hsplit nofun (worldTables_created hin))
    have hsame : middle.orCreated name columns = table := by
      rw [Schema.orCreated, htable]
      rfl
    rw [htable, ← hsame, hfixed]
  obtain ⟨ids, known, count, hcounts, hinserts⟩ := WorldTables.counts hworld'
    (hthere _ _ entities_world) (hthere _ _ revisions_world) (hthere _ _ counters_world)
  have hcolumns := Schema.orCreated_columns hworld counters_world
  obtain ⟨hname, hcolumns', -⟩ := SqlTable.inserts_eq
    (schema.orCreated "workspace_revisions" workspaceRevisionsColumns) (newCounts ids known count)
  have hname' : (schema.orCreated "workspace_revisions" workspaceRevisionsColumns).name
      = "workspace_revisions" := Table.key_of_get? (hthere _ _ counters_world)
  have hlast : migrateTables schema = middle.put ((newCounts ids known count).foldl
      SqlTable.insertOrIgnore (schema.orCreated "workspace_revisions" workspaceRevisionsColumns)) := by
    have hcount : SchemaStatement.countWorkspaces.run middle = some _ :=
      countWorkspaces_of_inserts hinserts
    rw [migrateTables, hsplit, hrun]
    show Lib.runSteps _ [SchemaStatement.countWorkspaces] middle = _
    rw [Lib.runSteps, hcount]
    rfl
  refine ⟨ids, known, count, _, hcounts, ?_, hcolumns'.trans hcolumns,
    hcounts.inserts_rows hcolumns⟩
  rw [hlast]
  have hself := Table.get?_put_self middle ((newCounts ids known count).foldl
    SqlTable.insertOrIgnore (schema.orCreated "workspace_revisions" workspaceRevisionsColumns))
  rwa [hname, hname'] at hself

/-- The whole list, run once, brings the tables up to date. -/
theorem upgraded_migrateTables {schema : Schema} (hworld : WorldTables schema) :
    Upgraded schema (migrateTables schema) where
  kept := Lib.runSteps_within frame_tablesKept (fun _ hmem _ _ h => SchemaStatement.run_kept hmem h)
    schema
  complete := settling_schemaStatements.run_done hworld
  created := by
    intro name columns hcreated hcounters hnone
    have hframe := Lib.Proc.frame_keeps (Untouched name columns)
    have huntouched := Lib.runSteps_within hframe (fun _ hmem _ _ h hold =>
      SchemaStatement.run_untouched hmem hcreated hcounters hold h) schema (Or.inl hnone)
    obtain ⟨table, htable⟩ := settling_schemaStatements.run_done hworld _
      (createIfMissing_mem.mpr hcreated)
    rcases huntouched with hmissing | hnew
    · cases hmissing.symm.trans htable
    · exact hnew
  counts := counts_migrateTables hworld
  others := by
    intro name hname
    have hframe := Lib.Proc.frame_fixes (fun schema : Schema => schema.get? name)
    refine Lib.runSteps_within hframe (fun statement hmem _ _ h => ?_) schema
    refine SchemaStatement.get?_run_ne (fun heq => hname ?_) h
    rw [← heq]
    cases statement with
    | createIfMissing other columns =>
        exact List.mem_map_of_mem (createIfMissing_mem.mp hmem)
    | ensureColumn other column => exact (ensuredColumns_fit _ (ensureColumn_mem.mp hmem)).1
    | countWorkspaces => exact List.mem_map_of_mem (worldTables_created counters_world)

end

/-- **Schemas are upgraded**, whatever they are and however often an open died before: the tables of
the world have the columns they always had.  What each of the broken opens did is kept by the next,
and the whole one at the end does what is left. -/
theorem schema_upgraded (schema : Schema) (hworld : WorldTables schema) (interrupted : List ℕ) :
    let upgraded := migrateTables (interrupted.foldl interruptedTables schema)
    Upgraded schema upgraded ∧ upgraded = migrateTables schema ∧
      migrateTables upgraded = upgraded := by
  have hresumed : migrateTables (interrupted.foldl interruptedTables schema) = migrateTables schema :=
    (settling_schemaStatements.run_resumed interrupted hworld).2
  rw [hresumed]
  exact ⟨upgraded_migrateTables hworld, rfl, settling_schemaStatements.run_twice hworld⟩

/-- A database of two entities in one workspace, before workspaces were counted. -/
def Small.uncounted : Schema :=
  let entities : SqlTable :=
    { name := "world_entities"
      columns := worldEntitiesColumns
      rows := ["a", "b"].map (fun id => [.text id, .text "file", .text "w", .text "/srv", .integer 1,
        .text "active", .text "\x7b\x7d", .text "[]"])
      fits := by decide }
  Table.empty.put entities

/-- It was opened twice, and the first open died after three statements. -/
theorem schema_upgraded_uncounted :
    Upgraded Small.uncounted (migrateTables (interruptedTables Small.uncounted 3)) ∧
      ((migrateTables (interruptedTables Small.uncounted 3)).get? "workspace_revisions").map
        SqlTable.rows = some [[.text "w", .integer 0]] := by
  refine ⟨(schema_upgraded Small.uncounted (fun name columns hin table htable => ?_) [3]).1, ?_⟩
  · have hname : name = "world_entities" := by
      have hkey : table.name = name := Table.key_of_get? htable
      rw [← hkey, List.mem_singleton.mp (Table.mem_of_get? htable)]
    subst hname
    cases htable
    simp only [worldTables, List.mem_cons, Prod.mk.injEq, List.not_mem_nil, or_false] at hin
    rcases hin with ⟨-, rfl⟩ | ⟨hno, -⟩ | ⟨hno, -⟩
    · rfl
    · exact absurd hno (by decide)
    · exact absurd hno (by decide)
  · decide +kernel

end LiandanluNative
