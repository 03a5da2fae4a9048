/-
# LiandanluNative.Safety.StoreMirrors — a store that always holds what memory holds.

An engine writes every change through as it makes it.  So at the end of each call, whether it
returned or raised, loading the store would give back the tasks, the operations and the world that
are in memory, and opening it anew changes nothing (`written_through`).  The invariant is `Mirrors`;
a process that dies between a change and its transaction leaves `Decoded`, which is all that the
next process needs to begin with a mirror of its own.

What the store refuses is in memory already, and stays there (`written_through_fails`).  So does what
`prepare` counts in the budget of a task that was given the object of another.

`Mirrors` compares key by key what is looked up on both sides, and not the tables: a table in memory
has the order of assignment, one that was loaded the order of its rows.  Edges are compared as sets
for the same reason.  One call is one block of `EngineRules`, in which memory is ahead of the store
only until its transaction.
-/
import LiandanluNative.Runtime.Encoding
import LiandanluNative.Runtime.SharedBudgets
import LiandanluNative.Runtime.Upkeep
import LiandanluNative.Runtime.WorldEnds

namespace LiandanluNative

open Lib (Table)
open Lib.Proc

/-! ## What a store is loaded back as -/

/-- The two worlds agree, edges compared as sets. Observations are not stored. -/
structure WorldModel.Agrees (world loaded : WorldModel) : Prop where
  revisions : loaded.revisions = world.revisions
  entities : ∀ entityId, loaded.entities.get? entityId = world.entities.get? entityId
  edges : ∀ source edge, edge ∈ loaded.edgesOf source ↔ edge ∈ world.edgesOf source
  workspaceRevisions : ∀ workspaceId,
    loaded.workspaceRevisions.get? workspaceId = world.workspaceRevisions.get? workspaceId

/-- What is in memory is what the database is loaded back as. -/
structure Sys.LoadedFrom (s : Sys) (db : Database) : Prop where
  tasks : ∀ taskId, db.loadTasks.get? taskId = s.tasks.get? taskId
  operations : ∀ operationId, db.loadOperations.get? operationId = s.operations.get? operationId
  world : s.world.Agrees db.loadWorldModel

/-! ## Mirrors -/

/-- What a process leaves to the next: rows that JSON gives back, under ids that are not given out
again, and that were bound when they were written.  The last part is what lets a later bump of an
entity's workspace be stored. -/
structure Decoded (env : Env) (s : Sys) : Prop where
  exact : ∀ row ∈ s.db.operations.rows, row.encoded = some row
  unused : ∀ row ∈ s.db.operations.rows, ∀ n, s.ids ≤ n → row.operationId ≠ env.newId "op" n
  bound : ∀ entity ∈ s.db.worldEntities.rows, Bindable entity.columns

/-- The store holds what memory holds, and every workspace with entities has a revision.  Where one
had none, opening the store would give it one that memory does not have. -/
structure Mirrors (env : Env) (s : Sys) : Prop where
  persistent : s.persistent = true
  loaded : s.LoadedFrom s.db
  counted : ∀ entity ∈ s.db.worldEntities.rows,
    (s.db.workspaceRevisions.get? entity.workspaceId).isSome = true
  decoded : Decoded env s

/-- Rows and ids are all it is about. -/
theorem Decoded.congr {env : Env} {s t : Sys} (h : Decoded env s)
    (hrows : t.db.operations = s.db.operations) (hentities : t.db.worldEntities = s.db.worldEntities)
    (hids : s.ids ≤ t.ids) : Decoded env t where
  exact := by
    rw [hrows]
    exact h.exact
  unused := by
    rw [hrows]
    exact fun row hrow n hn => h.unused row hrow n (hids.trans hn)
  bound := by
    rw [hentities]
    exact h.bound

/-- An entity is put into the store. -/
theorem Decoded.put {env : Env} {s t : Sys} (h : Decoded env s) {entity : Entity}
    (hcolumns : Bindable entity.columns) (hrows : t.db.operations = s.db.operations)
    (hentities : t.db.worldEntities = s.db.worldEntities.put entity) (hids : s.ids ≤ t.ids) :
    Decoded env t where
  exact := by
    rw [hrows]
    exact h.exact
  unused := by
    rw [hrows]
    exact fun row hrow n hn => h.unused row hrow n (hids.trans hn)
  bound := by
    rw [hentities]
    intro other hother
    rcases Table.mem_put.mp hother with rfl | ⟨hold, _⟩
    · exact hcolumns
    · exact h.bound other hold

namespace Mirrors

variable {env : Env} {s t : Sys}

/-- What a mirror is about, and no more. -/
theorem congr (h : Mirrors env s) (hpersistent : t.persistent = s.persistent)
    (htasks : t.tasks = s.tasks) (hstored : t.db.tasks = s.db.tasks)
    (hoperations : t.operations = s.operations) (hrows : t.db.operations = s.db.operations)
    (hworld : t.world = s.world) (htables : t.db.worldTables = s.db.worldTables)
    (hids : s.ids ≤ t.ids) : Mirrors env t := by
  simp only [Database.worldTables, Prod.mk.injEq] at htables
  obtain ⟨hentities, hrelations, hrevisions, hworkspaces⟩ := htables
  refine ⟨hpersistent.trans h.persistent, ⟨?_, ?_, ?_⟩, ?_, h.decoded.congr hrows hentities hids⟩
  · rw [htasks, Database.loadTasks, hstored]
    exact h.loaded.tasks
  · rw [hoperations, Database.loadOperations, hrows]
    exact h.loaded.operations
  · have hsame : t.db.loadWorldModel = s.db.loadWorldModel := by
      simp only [Database.loadWorldModel, hentities, hrelations, hrevisions, hworkspaces]
    rw [hworld, hsame]
    exact h.loaded.world
  · rw [hentities, hworkspaces]
    exact h.counted

/-- So what is apart keeps it. -/
theorem apart (h : Mirrors env s) (ht : Apart s t) : Mirrors env t :=
  h.congr ht.persistent ht.tasks ht.dbTasks ht.operations ht.dbOperations ht.world ht.worldTables
    ht.ids

/-- A new process starts with a mirror. -/
theorem restarted (h : Decoded env s) (registry : CapabilityRegistry) (capabilities : List String)
    (broker : Option ResourceBroker) : Mirrors env (s.restart registry capabilities broker) where
  persistent := rfl
  loaded := ⟨fun _ => rfl, fun _ => rfl, ⟨rfl, fun _ => rfl, fun _ _ => Iff.rfl, fun _ => rfl⟩⟩
  counted := fun _ hentity => Table.get?_foldl_putNew hentity
  decoded := h.congr rfl rfl le_rfl

end Mirrors

/-! ## The world -/

/-- The engine once the revision of a workspace was bumped and stored: two rows, in two
transactions. -/
def Sys.bumpedWorkspace (s : Sys) (workspaceId : String) : Sys :=
  let revision := s.world.workspaceRevision workspaceId + 1
  let revisions :=
    { s.world.revisions with
      workspace := s.world.revisions.workspace + 1
      globalRevision := s.world.revisions.globalRevision + 1 }
  { s with
    world :=
      { s.world with
        workspaceRevisions := s.world.workspaceRevisions.put (workspaceId, revision)
        revisions := revisions }
    db :=
      { s.db with
        workspaceRevisions := s.db.workspaceRevisions.put (workspaceId, revision)
        worldRevisions := some revisions }
    boundaries := s.boundaries + 2 }

/-- With a store it is what a bump leaves in `Runtime.WorldEnds`. -/
theorem Sys.bumpedIn_eq {s : Sys} (hpersistent : s.persistent = true) (workspaceId : String) :
    s.bumpedIn workspaceId = s.bumpedWorkspace workspaceId := by
  simp only [Sys.bumpedIn, Sys.wrote, Sys.bumpedWorkspace, WorldModel.bumped, hpersistent, if_true]

namespace Mirrors

variable {env : Env} {s t : Sys}

/-- Bumping the revision of a workspace counts the workspace. -/
theorem bumpedWorkspace {workspaceId : String} (hpersistent : s.persistent = true)
    (hloaded : s.LoadedFrom s.db)
    (hcounted : ∀ entity ∈ s.db.worldEntities.rows, entity.workspaceId = workspaceId ∨
      (s.db.workspaceRevisions.get? entity.workspaceId).isSome = true)
    (hdecoded : Decoded env s) : Mirrors env (s.bumpedWorkspace workspaceId) where
  persistent := hpersistent
  loaded := by
    refine ⟨hloaded.tasks, hloaded.operations,
      ⟨rfl, hloaded.world.entities, hloaded.world.edges, ?_⟩⟩
    intro other
    show (s.db.workspaceRevisions.put _).get? other
      = (s.world.workspaceRevisions.put _).get? other
    rw [Table.get?_put, Table.get?_put]
    exact if_congr Iff.rfl rfl (hloaded.world.workspaceRevisions other)
  counted := by
    intro entity hentity
    show ((s.db.workspaceRevisions.put _).get? entity.workspaceId).isSome = true
    rw [Table.get?_put]
    split
    · rfl
    · rename_i hne
      exact (hcounted entity hentity).resolve_left (fun heq => hne heq.symm)
  decoded := hdecoded.congr rfl rfl le_rfl

/-- The same of the bump as the methods make it. -/
theorem bumpedIn {workspaceId : String} (hpersistent : s.persistent = true)
    (hloaded : s.LoadedFrom s.db)
    (hcounted : ∀ entity ∈ s.db.worldEntities.rows, entity.workspaceId = workspaceId ∨
      (s.db.workspaceRevisions.get? entity.workspaceId).isSome = true)
    (hdecoded : Decoded env s) : Mirrors env (s.bumpedIn workspaceId) := by
  rw [Sys.bumpedIn_eq hpersistent]
  exact bumpedWorkspace hpersistent hloaded hcounted hdecoded

/-- An entity that the store gives back is stored as it is.  One that it refuses would be in memory
alone, so the metadata has to be what JSON gives back. -/
theorem registerEntity {entity : Entity}
    (hstored : entity.storedMetadata = some entity.metadata) :
    Upheld (Mirrors env) (Decoded env) (registerEntity env entity) := by
  intro s h
  have hcolumns := (Entity.storedMetadata_eq_some.mp hstored).1
  have hentered : ∀ metadata, (s.persistent = true → entity.storedMetadata = some metadata) →
      s.entered entity metadata = { s with
        world := s.world.entered entity
        db := { s.db with worldEntities := s.db.worldEntities.put entity }
        boundaries := s.boundaries + 1 } := by
    intro metadata hgiven
    cases hstored.symm.trans (hgiven h.persistent)
    simp only [Sys.entered, Sys.wrote, h.persistent, if_true]
  refine ends_registerEntity (fun metadata hgiven => ?_) (fun _ hnone => ?_)
    (fun metadata t hgiven ht => ?_)
  · rw [hentered metadata hgiven]
    refine bumpedIn h.persistent ⟨h.loaded.tasks, h.loaded.operations, ?_⟩ ?_
      (h.decoded.put hcolumns rfl rfl le_rfl)
    · refine ⟨h.loaded.world.revisions, fun entityId => ?_, h.loaded.world.edges,
        h.loaded.world.workspaceRevisions⟩
      show (s.db.worldEntities.put entity).get? entityId
        = (s.world.entities.put entity).get? entityId
      rw [Table.get?_put, Table.get?_put]
      exact if_congr Iff.rfl rfl (h.loaded.world.entities entityId)
    · intro other hother
      rcases Table.mem_put.mp hother with rfl | ⟨hold, _⟩
      · exact Or.inl rfl
      · exact Or.inr (h.counted other hold)
  · cases hstored.symm.trans hnone
  · rw [hentered metadata hgiven] at ht
    exact h.decoded.put hcolumns ht.dbOperations ht.dbEntities ht.ids.ge

/-- An observation is only in memory; what it bumps is stored. -/
theorem observe (source observationType : String) (value : PyVal) (domain : String)
    (workspaceId : Option String) (hbindable : ∀ id, workspaceId = some id → Bindable [.text id]) :
    Upheld (Mirrors env) (Decoded env)
      (observe env source observationType value domain workspaceId) := by
  intro s h
  have hnoted : Mirrors env (s.noted ⟨source, observationType, value, workspaceId⟩) :=
    ⟨h.persistent, ⟨h.loaded.tasks, h.loaded.operations, ⟨h.loaded.world.revisions,
      h.loaded.world.entities, h.loaded.world.edges, h.loaded.world.workspaceRevisions⟩⟩,
      h.counted, h.decoded.congr rfl rfl le_rfl⟩
  refine ends_observe (fun e => hnoted) (fun id _ => ?_) (fun id _ hid _ hrefused => ?_)
    (fun revisions _ _ => ?_) (fun t ht => ?_)
  · exact bumpedIn h.persistent hnoted.loaded
      (fun entity hentity => Or.inr (h.counted entity hentity)) hnoted.decoded
  · exact absurd (hbindable id hid) hrefused
  · simp only [Sys.counted, Sys.wrote, hnoted.persistent, if_true]
    exact ⟨rfl, ⟨h.loaded.tasks, h.loaded.operations, ⟨rfl, h.loaded.world.entities,
      h.loaded.world.edges, h.loaded.world.workspaceRevisions⟩⟩, h.counted,
      h.decoded.congr rfl rfl le_rfl⟩
  · exact h.decoded.congr ht.dbOperations ht.dbEntities ht.ids.ge

/-- What memory has of an entity was bound when it was stored. -/
theorem bound (h : Mirrors env s) {ref : String} {entity : Entity}
    (hfound : s.world.get ref none = .ok entity) :
    entity.entityId = ref ∧ Bindable entity.columns := by
  have hget := (WorldModel.get_eq_ok hfound).1
  have hrow := (h.loaded.world.entities ref).trans hget
  exact ⟨Table.key_of_get? hget, h.decoded.bound entity (Table.mem_of_get? hrow)⟩

/-- An edge is added to both sides, or was on both.  Its ends are entities that were bound before,
so only the name of the relation is new to the store. -/
theorem relate (source relation target : String) (hbindable : Bindable [.text relation]) :
    Upheld (Mirrors env) (Decoded env) (relate env source relation target) := by
  intro s h
  -- the edge is put in memory and in the table
  have hrelated : s.related source relation target = { s with
      world := s.world.related source relation target
      db := { s.db with worldRelations := s.db.worldRelations.putNew (source, relation, target) }
      boundaries := s.boundaries + 1 } := by
    simp only [Sys.related, Sys.wrote, h.persistent, if_true]
  refine ends_relate (fun e => h) (fun _ => h) (fun sourceEntity targetEntity hadds => ?_)
  obtain ⟨hsource, hsourceBound⟩ := h.bound hadds.sourceFound
  obtain ⟨htarget, htargetBound⟩ := h.bound hadds.targetFound
  obtain ⟨hedge, hworkspace⟩ := bindable_edge hsourceBound htargetBound hbindable
  rw [hsource, htarget] at hedge
  refine ends_relate_adds hadds (fun _ => ?_) (fun _ hrefused => ?_) (fun _ _ hrefused => ?_)
    (fun t ht => ?_)
  · rw [hrelated]
    refine bumpedIn h.persistent ⟨h.loaded.tasks, h.loaded.operations, ?_⟩
      (fun entity hentity => Or.inr (h.counted entity hentity)) (h.decoded.congr rfl rfl le_rfl)
    refine ⟨h.loaded.world.revisions, h.loaded.world.entities, fun other edge => ?_,
      h.loaded.world.workspaceRevisions⟩
    rw [Database.mem_edgesOf_loadWorldModel]
    show (other, edge) ∈ (s.db.worldRelations.putNew (source, relation, target)).rows ↔ _
    rw [Table.mem_putNew, WorldModel.mem_edgesOf_related, eq_comm,
      ← s.db.mem_edgesOf_loadWorldModel other edge]
    exact or_congr_right (h.loaded.world.edges other edge)
  -- no text is refused, so neither write raises
  · exact absurd hedge hrefused
  · exact absurd hworkspace hrefused
  · rw [hrelated] at ht
    exact h.decoded.congr ht.dbOperations ht.dbEntities ht.ids.ge

end Mirrors

/-! ## Tasks -/

namespace Mirrors

variable {env : Env} {s t : Sys}

/-- A task and the bumped revisions are put on both sides: what every block of a method of the task
runtime comes to. -/
theorem putTask (h : Mirrors env s) (task : Task) (hpersistent : t.persistent = true)
    (htasks : t.tasks = s.tasks.put task) (hstored : t.db.tasks = s.db.tasks.put task)
    (hoperations : t.operations = s.operations) (hrows : t.db.operations = s.db.operations)
    (hworld : t.world = { s.world with revisions := s.world.revisions.bumpTasks })
    (htables : t.db.worldTables = { s.db with
      worldRevisions := some s.world.revisions.bumpTasks }.worldTables)
    (hids : s.ids ≤ t.ids) : Mirrors env t := by
  simp only [Database.worldTables, Prod.mk.injEq] at htables
  obtain ⟨hentities, hrelations, hrevisions, hworkspaces⟩ := htables
  refine ⟨hpersistent, ⟨fun taskId => ?_, ?_, ?_⟩, ?_, h.decoded.congr hrows hentities hids⟩
  · rw [htasks, Database.loadTasks, hstored, Table.get?_put, Table.get?_put]
    exact if_congr Iff.rfl rfl (h.loaded.tasks taskId)
  · rw [hoperations, Database.loadOperations, hrows]
    exact h.loaded.operations
  · have hsame : t.db.loadWorldModel
        = { s.db.loadWorldModel with revisions := s.world.revisions.bumpTasks } := by
      simp only [Database.loadWorldModel, hentities, hrelations, hrevisions, hworkspaces,
        Option.getD_some]
    rw [hworld, hsame]
    exact ⟨rfl, h.loaded.world.entities, h.loaded.world.edges, h.loaded.world.workspaceRevisions⟩
  · rw [hentities, hworkspaces]
    exact h.counted

/-- **A change of a task**, its bump and its record keep the mirror. -/
theorem changes (h : Mirrors env s) (taskId : String) :
    Changes env s taskId (fun _ t => Mirrors env t) (Left (Mirrors env) (Decoded env)) where
  persistent := h.persistent
  unchanged := h
  raised := fun _ _ => h
  died := fun task new _ _ => (h.decoded.congr rfl rfl le_rfl : Decoded env (s.touchedTask new))
  recorded := by
    intro task new fields column _ _ _ _ _
    have hdone : Mirrors env ((s.touchedTask new).recordedTask env new.touched fields column) :=
      h.putTask new.touched h.persistent rfl rfl rfl rfl rfl rfl (Nat.le_succ _)
    exact ⟨hdone, hdone.decoded⟩

/-- So does a new task. -/
theorem created (h : Mirrors env s) (goal : String) (successCriteria : List String)
    (workspaceId : String) (constraints : List String) (lane : String) (priority : Int)
    (budget : TaskBudget) :
    Ends (fun _ t => Mirrors env t) (Left (Mirrors env) (Decoded env))
      (createTask env goal successCriteria workspaceId constraints lane priority budget) s := by
  refine ends_createTask h.persistent goal successCriteria workspaceId constraints lane priority
    budget rfl (h.decoded.congr rfl rfl (Nat.le_succ _)) (fun fields column _ _ _ => ?_)
  let task := newTask env s goal successCriteria workspaceId constraints lane priority budget
  have hdone : Mirrors env ((s.createdTask task).recordedTask env task fields column) :=
    h.putTask task h.persistent rfl rfl rfl rfl rfl rfl (Nat.le_add_right _ 2)
  exact ⟨hdone, hdone.decoded⟩

end Mirrors

/-! ## Operations

An operation is stored as JSON, so its row is what memory has only where JSON gives its values back.
-/

namespace Mirrors

variable {env : Env} {s t : Sys}

/-- The row of an operation is the operation. -/
theorem row (h : Mirrors env s) {operationId : String} {op : Operation}
    (hop : s.operations.get? operationId = some op) : s.db.operations.get? operationId = some op :=
  (h.loaded.operations operationId).trans hop

/-- And what memory has of it is what JSON gives back. -/
theorem exact (h : Mirrors env s) {operationId : String} {op : Operation}
    (hop : s.operations.get? operationId = some op) : op.Exact :=
  .of_encoded (h.decoded.exact op (Table.mem_of_get? (h.row hop)))

/-- An operation is put on both sides. -/
theorem putOperation (h : Mirrors env s) {op : Operation} (hexact : op.encoded = some op)
    (hunused : ∀ n, t.ids ≤ n → op.operationId ≠ env.newId "op" n)
    (hoperations : t.operations = s.operations.put op)
    (hrows : t.db.operations = s.db.operations.put op) (hpersistent : t.persistent = s.persistent)
    (htasks : t.tasks = s.tasks) (hstored : t.db.tasks = s.db.tasks) (hworld : t.world = s.world)
    (htables : t.db.worldTables = s.db.worldTables) (hids : s.ids ≤ t.ids) : Mirrors env t := by
  let base : Sys :=
    { t with
      operations := s.operations
      db := { t.db with operations := s.db.operations } }
  have hbase : Mirrors env base :=
    h.congr hpersistent htasks hstored rfl rfl hworld htables hids
  refine ⟨hbase.persistent, ⟨hbase.loaded.tasks, fun operationId => ?_, ?_⟩, hbase.counted, ?_, ?_,
    hbase.decoded.bound⟩
  · rw [hoperations, Database.loadOperations, hrows, Table.get?_put, Table.get?_put]
    exact if_congr Iff.rfl rfl (h.loaded.operations operationId)
  · exact hbase.loaded.world
  · intro row hrow
    rw [hrows] at hrow
    rcases Table.mem_put.mp hrow with rfl | ⟨hold, _⟩
    · exact hexact
    · exact h.decoded.exact row hold
  · intro row hrow n hn
    rw [hrows] at hrow
    rcases Table.mem_put.mp hrow with rfl | ⟨hold, _⟩
    · exact hunused n hn
    · exact h.decoded.unused row hold n (hids.trans hn)

/-- An operation in memory was assigned to, and its row is stored.  The row keeps what a save leaves
alone, so the assignment must not have changed that. -/
theorem wrote (h : Mirrors env s) {op op' : Operation}
    (hop : s.operations.get? op.operationId = some op) (hid : op'.operationId = op.operationId)
    (hfields : op.overwrite op' = op') (hexact : op'.Exact)
    (hoperations : t.operations = s.operations.put op')
    (hrows : t.db.operations = s.db.operations.put (s.db.operationRow op'))
    (hpersistent : t.persistent = s.persistent) (htasks : t.tasks = s.tasks)
    (hstored : t.db.tasks = s.db.tasks) (hworld : t.world = s.world)
    (htables : t.db.worldTables = s.db.worldTables) (hids : s.ids ≤ t.ids) : Mirrors env t := by
  have hrow : s.db.operationRow op' = op' := by
    unfold Database.operationRow
    rw [hid, h.row hop]
    exact hfields
  rw [hrow] at hrows
  refine h.putOperation hexact.encoded ?_ hoperations hrows hpersistent htasks hstored hworld htables
    hids
  rw [hid]
  exact fun n hn => h.decoded.unused op (Table.mem_of_get? (h.row hop)) n (hids.trans hn)

/-- A transition of an operation is stored, saved or recorded. -/
theorem ends_stored (h : Mirrors env s) {op op' : Operation} {how : OpStore}
    (hop : s.operations.get? op.operationId = some op) (hid : op'.operationId = op.operationId)
    (hfields : op.overwrite op' = op') (hexact : op'.Exact)
    (hpayload : ∀ eventType actor payload, how = .recorded eventType actor payload →
      ∃ column, PyVal.jsonDumpsItems payload = some column) :
    Ends (fun _ t => Mirrors env t) (Left (Mirrors env) (Decoded env))
      (storeOp env op'.operationId how) (s.assigned op') := by
  have hget := s.get?_assigned op'
  have hstill : (s.assigned op').persistent = true := h.persistent
  cases how with
  | saved =>
      refine ends_saveOp hstill hget (fun hnone => ?_) (fun row hencoded => ?_)
      · cases hnone.symm.trans hexact.encoded
      · cases hexact.encoded.symm.trans hencoded
        have hdone : Mirrors env ((s.assigned op').savedOp op') :=
          h.wrote hop hid hfields hexact rfl rfl rfl rfl rfl rfl rfl le_rfl
        exact ⟨hdone, hdone.decoded⟩
  | recorded eventType actor payload =>
      obtain ⟨column, hcolumn⟩ := hpayload eventType actor payload rfl
      refine ends_recordOp hstill hget (fun hnone => ?_) (fun row fields column' hencoded _ _ => ?_)
      · rcases hnone with hnone | hnone
        · cases hnone.symm.trans hexact.encoded
        · cases hnone.symm.trans hcolumn
      · cases hexact.encoded.symm.trans hencoded
        have hdone : Mirrors env ((s.assigned op').recordedOp env op' fields column') :=
          h.wrote hop hid hfields hexact rfl rfl rfl rfl rfl rfl rfl (Nat.le_succ _)
        exact ⟨hdone, hdone.decoded⟩

/-- A new operation has an id that no row has, so that its row is the operation too. -/
theorem started (h : Mirrors env s) (hids : Function.Injective env.uuid) {task : Task}
    (proposal : ActionProposal) (spec : ActionSpec) (expectedRevisions : List (String × Int))
    (taskLease : Option TaskLease) (resourceLease : Option ResourceLease) (clockReads : ℕ)
    (hjson : PyVal.jsonDumpsItems proposal.arguments = some proposal.arguments) :
    Ends (fun _ t => Mirrors env t) (Left (Mirrors env) (Decoded env))
      (startOperation env task (proposal.operation (env.newId "op" s.ids) task spec
        expectedRevisions taskLease resourceLease))
      { s with ids := s.ids + 1, clockReads := clockReads } := by
  let base : Sys := { s with ids := s.ids + 1, clockReads := clockReads }
  let op := proposal.operation (env.newId "op" s.ids) task spec expectedRevisions taskLease
    resourceLease
  have hbase : Mirrors env base := h.congr rfl rfl rfl rfl rfl rfl rfl (Nat.le_succ _)
  have hexact : op.Exact := ⟨hjson, rfl, rfl⟩
  have hnone : s.db.operations.get? op.operationId = none := by
    refine Table.get?_eq_none.mpr (fun row hrow heq => ?_)
    exact h.decoded.unused row hrow s.ids le_rfl heq
  have hrow : s.db.operationRow op = op := by
    unfold Database.operationRow
    rw [hnone]
  have hstill : base.persistent = true := h.persistent
  have hdied : Decoded env (base.startedTask task) := hbase.decoded.congr rfl rfl le_rfl
  refine ends_startOperation hstill rfl hdied (fun hfailed => ?_)
    (fun row fields column hencoded _ => ?_)
  · cases hfailed.symm.trans hexact.encoded
  cases hexact.encoded.symm.trans hencoded
  -- the task goes first, then the operation
  let counted : Sys :=
    { base.startedTask task with db := { (base.startedTask task).db with
        tasks := s.db.tasks.put task.started } }
  have hcounted : Mirrors env counted :=
    hbase.putTask task.started h.persistent rfl rfl rfl rfl rfl rfl le_rfl
  have hdone : Mirrors env ((base.opened task op).recordedStart env task.started op fields column) := by
    refine hcounted.putOperation hexact.encoded (fun n hn heq => ?_) rfl ?_ rfl rfl rfl rfl rfl
      (Nat.le_succ _)
    · have hsame : s.ids = n := env.newId_injective hids "op" heq
      have hlater : s.ids + 1 + 1 ≤ n := hn
      omega
    · show s.db.operations.put (s.db.operationRow op) = _
      rw [hrow]
      rfl
  exact ⟨hdone, hdone.decoded⟩

end Mirrors

/-! ## Runs -/

/-- Arguments of operations and metadata of entities are what JSON gives back, and the store takes
what is registered, observed and related.  Tasks may be created with any budget, as each holds its
own. -/
def exactTerms : Terms where
  creates := fun _ _ => True
  starts := fun arguments => PyVal.jsonDumpsItems arguments = some arguments
  begins := fun _ => True
  registers := fun entity => entity.storedMetadata = some entity.metadata
  observes := fun workspaceId => ∀ id, workspaceId = some id → Bindable [.text id]
  relates := fun relation => Bindable [.text relation]

/-- **The mirror is kept by every call**, and a process leaves what the next one needs. -/
theorem mirrors_rules {env : Env} (hids : Function.Injective env.uuid)
    (hanswers : env.AnswersExactly) :
    EngineRules env exactTerms (Mirrors env) (Decoded env) where
  durable := fun h => h.decoded
  apart := fun ht h => h.apart ht
  changes := fun taskId h => h.changes taskId
  created := fun goal successCriteria workspaceId constraints lane priority budget h _ =>
    h.created goal successCriteria workspaceId constraints lane priority budget
  started := fun proposal spec expectedRevisions taskLease resourceLease clockReads h _ hjson _ =>
    h.started hids proposal spec expectedRevisions taskLease resourceLease clockReads hjson
  operations :=
    { stored := by
        intro s op how op' h hop hstep
        have hexact := (h.exact hop).step hanswers hstep
        have hpayload := ((h.exact hop).encodable.step hanswers.answersJson hstep).2
        rw [← hstep.operationId]
        refine h.ends_stored hop hstep.operationId ?_ hexact hpayload
        rw [hstep.fields]
        rfl
      called := fun _ _ _ _ h => h.congr rfl rfl rfl rfl rfl rfl rfl le_rfl
      bounded := fun h =>
        ⟨h.congr rfl rfl rfl rfl rfl rfl rfl le_rfl, h.decoded.congr rfl rfl le_rfl⟩
      interrupted := fun h _ => h
      -- answers that JSON gives back are lists of dictionaries, so the two rules for others are
      unusable := fun _ _ _ hanswer hnone => absurd hnone (hanswers.answersJson.iterable hanswer)
      unjudged := fun _ _ _ hanswer hitems hverdict =>
        absurd hverdict (hanswers.answersJson.judged hanswer hitems) }
  begun := by
    intro s op h hop _
    have hexact := (h.exact hop).begun
    refine @Mirrors.ends_stored env s h op op.begun
      (.recorded "operation.started" "engine" []) hop rfl rfl hexact ?_
    rintro _ _ _ ⟨⟩
    exact ⟨[], rfl⟩
  fresh := fun _ _ => trivial
  registered := fun hstored => Mirrors.registerEntity hstored
  observed := Mirrors.observe
  related := Mirrors.relate
  restarted := fun registry capabilities broker h => .restarted h registry capabilities broker

/-- The call hands over nothing that JSON would not give back: the arguments of a proposal it starts
an operation on, and the metadata of an entity it registers. -/
structure Call.HandsOverJson (env : Env) (s : Sys) (call : Call) : Prop where
  starts : ∀ u taskId proposal expectedRevisions taskLease resourceLease,
    call.Prepares env s u taskId proposal expectedRevisions taskLease resourceLease →
    PyVal.jsonDumpsItems proposal.arguments = some proposal.arguments
  registers : ∀ entity, call = .register entity →
    PyVal.jsonDumpsItems entity.metadata = some entity.metadata

/-- Such a call of a run that can be stored is made on exact terms. -/
theorem Call.HandsOverJson.meets {env : Env} {s : Sys} {call : Call}
    (h : call.HandsOverJson env s) (hcolumns : Bindable call.columns) :
    call.Meets exactTerms env s where
  creates := fun _ _ _ _ _ _ _ _ => trivial
  starts := fun u taskId proposal expectedRevisions taskLease resourceLease hprepares _ =>
    h.starts u taskId proposal expectedRevisions taskLease resourceLease hprepares
  begins := fun _ _ _ _ => trivial
  registers := by
    rintro entity rfl
    exact Entity.storedMetadata_eq_some.mpr ⟨hcolumns, h.registers entity rfl⟩
  observes := by
    rintro source observationType value domain workspaceId rfl id rfl
    exact hcolumns
  relates := by
    rintro source relation target rfl
    exact hcolumns

/-- **Write-through, of what can be stored.**  Take an engine started on any database, fresh or left
behind by another process, and any run of its calls in which the process lives.  If the texts and
integers that the run hands over can be stored, and JSON gives back what the calls hand over and what
the capabilities answer, then after each call the database is loaded back as the tasks, the
operations and the world in memory, also when it was opened anew. -/
theorem written_through (env : Env) (hids : Function.Injective env.uuid)
    (hanswers : env.AnswersExactly) (s : Sys) (hstored : Decoded env s)
    (registry : CapabilityRegistry) (capabilities : List String) (broker : Option ResourceBroker)
    (calls : List Call)
    (hstorable : StorableRun env (s.restart registry capabilities broker) calls)
    (hrun : Along env (fun s call => call.HandsOverJson env s ∧ call.died env s = false)
      (s.restart registry capabilities broker) calls) :
    (runCalls env (s.restart registry capabilities broker) calls).LoadedFrom
        (runCalls env (s.restart registry capabilities broker) calls).db ∧
      (runCalls env (s.restart registry capabilities broker) calls).LoadedFrom
        (runCalls env (s.restart registry capabilities broker) calls).db.reopened := by
  have hstart : Mirrors env (s.restart registry capabilities broker) :=
    .restarted hstored registry capabilities broker
  have hend := (mirrors_rules hids hanswers).lived hstart
    ((hrun.and (Along.of_forall hstorable.calls)).mono (fun t call hcall =>
      ⟨hcall.1.1.meets hcall.2, hcall.1.2⟩))
  rw [Database.reopened_of_counted hend.counted]
  exact ⟨hend.loaded, hend.loaded⟩

/-- The capabilities of the small engine answer with JSON. -/
theorem small_answersExactly : Small.env.AnswersExactly where
  executed := by
    rintro n op locators result ⟨⟩
    rfl
  verified := by
    rintro n op result evidence ⟨⟩
    exact ⟨_, rfl, by simp, rfl⟩
  reconciled := by
    rintro n op locators verified result ⟨⟩
    exact ⟨⟨_, rfl⟩, rfl⟩

/-- A document is registered, and read by a task. -/
def readDocument : List Call :=
  [.register Small.document,
    .createTask "read the document" ["document read"] "w" [] "background" 50 {},
    .prepare "task_" Small.proposal [] none none, .execute "op_ii"]

/-- The registry of the small engine can be stored, … -/
theorem small_specs (s : Sys) (capabilities : List String) (broker : Option ResourceBroker) :
    ∀ spec ∈ (s.restart Small.start.registry capabilities broker).registry.rows,
      Bindable spec.columns := by
  intro spec hspec
  rw [List.mem_singleton.mp hspec]
  decide +kernel

/-- … and so can the document and its task. -/
theorem readDocument_bindable : ∀ call ∈ readDocument, Bindable call.columns := by
  decide +kernel

/-- And what it is called with is JSON. -/
theorem readDocument_handsOver {env : Env} {s : Sys} {call : Call} (hcall : call ∈ readDocument) :
    call.HandsOverJson env s := by
  simp only [readDocument, List.mem_cons, List.not_mem_nil, or_false] at hcall
  rcases hcall with rfl | rfl | rfl | rfl
  all_goals exact ⟨by rintro _ _ _ _ _ _ ⟨⟩ <;> rfl, by rintro _ ⟨⟩ <;> rfl⟩

/-- Nothing is stored yet. -/
theorem Decoded.fresh {env : Env} {s : Sys} (hs : s.db = {}) : Decoded env s := by
  refine ⟨?_, ?_, ?_⟩ <;> rw [hs]
  all_goals exact fun row hrow => absurd hrow List.not_mem_nil

/-- An engine on a fresh database, whose one operation gets as far as VERIFIED. -/
theorem written_through_small :
    let start := ({ persistent := true } : Sys).restart Small.start.registry ["editor"] none
    let last := runCalls Small.env start readDocument
    (last.LoadedFrom last.db ∧ last.LoadedFrom last.db.reopened) ∧
      last.db.operations.rows.map Operation.state = [.verified] := by
  refine ⟨written_through Small.env tallyId_injective small_answersExactly _ (.fresh rfl) _ _ _ _
    (Small.storableRun rfl rfl rfl rfl (small_specs _ _ _) readDocument_bindable)
    ⟨⟨readDocument_handsOver (by simp [readDocument]), ?_⟩,
      ⟨readDocument_handsOver (by simp [readDocument]), ?_⟩,
      ⟨readDocument_handsOver (by simp [readDocument]), ?_⟩,
      ⟨readDocument_handsOver (by simp [readDocument]), ?_⟩, trivial⟩, ?_⟩
  all_goals decide +kernel

/-- The version of the document is no integer of 64 bits. -/
def misregistered : List Call :=
  [.register { Small.document with version := 2 ^ 63 }, .observe "user" "focus" .none "desktop" none]

/-- Two tasks, created with one budget. -/
def budgetedTogether : List Call :=
  [.register Small.document, .createTask "read it" [] "w" [] "background" 50 {},
    .createTask "read it again" [] "w" [] "background" 50 {}]

/-- Preparing an operation of the first task is counted in the second as well, and the row of the
second is not written. -/
theorem budget_unmirrored :
    ∃ operationId t,
      prepareSharing (fun _ => 0) Small.env "task_" Small.proposal [] none none
        (runCalls Small.env (({ persistent := true } : Sys).restart Small.start.registry ["editor"]
          none) budgetedTogether) = .ok operationId t ∧
      ¬ t.LoadedFrom t.db := by
  have hreturns : (returns (prepareSharing (fun _ => 0) Small.env "task_" Small.proposal [] none none)
      (runCalls Small.env (({ persistent := true } : Sys).restart Small.start.registry ["editor"]
        none) budgetedTogether)).isSome := by
    decide +kernel
  obtain ⟨operationId, hreturned⟩ := Option.isSome_iff_exists.mp hreturns
  obtain ⟨t, hrun⟩ := returns_eq_some.mp hreturned
  refine ⟨operationId, t, hrun, fun hloaded => ?_⟩
  rw [← after_of_ok hrun] at hloaded
  have hsecond := congrArg (Option.map fun task => task.budget.operationsStarted)
    (hloaded.tasks "task_ii")
  revert hsecond
  decide +kernel

/-- The registration raises once memory has the document.  The observation after it returns, and the
store does not have the document.  Nor does it have what is counted in a budget two tasks share. -/
theorem written_through_fails :
    let start := ({ persistent := true } : Sys).restart Small.start.registry ["editor"] none
    let refused := runCalls Small.env start (misregistered.take 1)
    let last := runCalls Small.env start misregistered
    Along Small.env (fun s call => call.HandsOverJson Small.env s ∧ call.died Small.env s = false)
        start misregistered ∧
      (∃ u, (Call.observe "user" "focus" .none "desktop" none).proc Small.env refused = .ok () u) ∧
      ¬ last.LoadedFrom last.db ∧
      ∃ operationId t,
        prepareSharing (fun _ => 0) Small.env "task_" Small.proposal [] none none
          (runCalls Small.env start budgetedTogether) = .ok operationId t ∧
        ¬ t.LoadedFrom t.db := by
  intro start refused last
  have hhanded : ∀ (s : Sys) (call : Call), call ∈ misregistered →
      call.HandsOverJson Small.env s := by
    intro s call hcall
    simp only [misregistered, List.mem_cons, List.not_mem_nil, or_false] at hcall
    rcases hcall with rfl | rfl
    all_goals exact ⟨by rintro _ _ _ _ _ _ ⟨⟩, by rintro _ ⟨⟩ <;> rfl⟩
  refine ⟨⟨⟨hhanded _ _ (by simp [misregistered]), ?_⟩, ⟨hhanded _ _ (by simp [misregistered]), ?_⟩,
    trivial⟩, returns_eq_some.mp ?_, fun hloaded => ?_, budget_unmirrored⟩
  iterate 3 decide +kernel
  have hdocument := congrArg Option.isSome (hloaded.world.entities "doc")
  revert hdocument
  decide +kernel

end LiandanluNative
