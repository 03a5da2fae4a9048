/-
# LiandanluNative.Safety.RestartTransparency — a restart changes nothing but what is volatile.

`Safety.StoreMirrors` compares what a store is loaded back as with what is in memory, key by key.
Here the two are the same tables, row by row (`Reloadable`), so that the process hydrated from the
store is the process before without its volatile part, and what every later call does is the same
(`restart_transparent`).

Two things are shown and put together.  Every call that is handed over what can be stored keeps the
process reloadable: each method of the world, of tasks and of operations is walked once, up to its
end or to the exception that leaves it.  And a call does not look at the volatile part
(`Runtime.Volatile`): run before and after a restart it makes the same writes, the same side effects
and draws the same ids.  So a restart put anywhere into a run is not noticed by the rest of it, and
by induction neither are any number of them.
-/
import LiandanluNative.Runtime.Volatile
import LiandanluNative.Safety.StoreMirrors

namespace LiandanluNative

open Lib (Table)
open Lib.Proc

/-! ## What can be loaded again

Memory and store have the same tables, in the same order; the observations are the one thing of the
world that is not stored.
-/

/-- The world without its observations, which are not stored, so that a restart loses them. -/
def WorldModel.stored (world : WorldModel) : WorldModel := { world with observations := [] }

/-- Hydrating a process from the store would give the one that is running. -/
structure Reloadable (env : Env) (s : Sys) : Prop where
  persistent : s.persistent = true
  tasks : s.tasks = s.db.tasks
  operations : s.operations = s.db.operations
  world : s.world.stored = s.db.loadWorldModel
  counted : ∀ entity ∈ s.db.worldEntities.rows,
    (s.db.workspaceRevisions.get? entity.workspaceId).isSome = true
  decoded : Decoded env s

/-- Once an edge is in the store, it is loaded after the others. -/
theorem Database.loadWorldModel_related {db : Database} {source relation target : String}
    (hnew : (source, relation, target) ∉ db.worldRelations.rows) :
    ({ db with worldRelations := db.worldRelations.putNew (source, relation, target) }
        : Database).loadWorldModel = db.loadWorldModel.related source relation target := by
  have hnone : db.worldRelations.get? (source, relation, target) = none :=
    Table.get?_eq_none.mpr (fun row hrow heq => hnew (heq ▸ hrow))
  have hrows : (db.worldRelations.putNew (source, relation, target)).rows
      = db.worldRelations.rows ++ [(source, relation, target)] := by
    rw [Table.putNew_of_get?_none hnone, Table.put_rows_of_get?_none hnone]
  simp only [Database.loadWorldModel, WorldModel.related, hrows, List.foldl_append, List.foldl_cons,
    List.foldl_nil]

namespace Reloadable

variable {env : Env} {s t : Sys}

/-- Only what is stored and its copies in memory, and the count of drawn ids, decide whether the
process can be loaded again; the log, the outbox and the leases do not. -/
theorem congr (h : Reloadable env s) (hpersistent : t.persistent = s.persistent)
    (htasks : t.tasks = s.tasks) (hstored : t.db.tasks = s.db.tasks)
    (hoperations : t.operations = s.operations) (hrows : t.db.operations = s.db.operations)
    (hworld : t.world.stored = s.world.stored) (htables : t.db.worldTables = s.db.worldTables)
    (hids : s.ids ≤ t.ids) : Reloadable env t := by
  simp only [Database.worldTables, Prod.mk.injEq] at htables
  obtain ⟨hentities, hrelations, hrevisions, hworkspaces⟩ := htables
  refine ⟨hpersistent.trans h.persistent, ?_, ?_, ?_, ?_, h.decoded.congr hrows hentities hids⟩
  · rw [htasks, hstored, h.tasks]
  · rw [hoperations, hrows, h.operations]
  · rw [hworld, h.world]
    simp only [Database.loadWorldModel, hentities, hrelations, hrevisions, hworkspaces]
  · rw [hentities, hworkspaces]
    exact h.counted

/-- Between two writes the copies stay as they are. -/
theorem apart (h : Reloadable env s) (ht : Apart s t) : Reloadable env t :=
  h.congr ht.persistent ht.tasks ht.dbTasks ht.operations ht.dbOperations
    (congrArg WorldModel.stored ht.world) ht.worldTables ht.ids

/-- A process that was just hydrated. -/
theorem restarted (h : Decoded env s) (registry : CapabilityRegistry) (capabilities : List String)
    (broker : Option ResourceBroker) : Reloadable env (s.restart registry capabilities broker) where
  persistent := rfl
  tasks := rfl
  operations := rfl
  world := rfl
  counted := fun _ hentity => Table.get?_foldl_putNew hentity
  decoded := h.congr rfl rfl le_rfl

/-! ## The world -/

/-- The counters are bumped in memory and stored in one transaction, so they agree again when it is
through. -/
theorem bumpedIn {workspaceId : String} (hpersistent : s.persistent = true)
    (htasks : s.tasks = s.db.tasks) (hoperations : s.operations = s.db.operations)
    (hworld : s.world.stored = s.db.loadWorldModel)
    (hcounted : ∀ entity ∈ s.db.worldEntities.rows, entity.workspaceId = workspaceId ∨
      (s.db.workspaceRevisions.get? entity.workspaceId).isSome = true)
    (hdecoded : Decoded env s) : Reloadable env (s.bumpedIn workspaceId) := by
  rw [Sys.bumpedIn_eq hpersistent]
  have hworkspaces : s.world.workspaceRevisions = s.db.workspaceRevisions :=
    congrArg WorldModel.workspaceRevisions hworld
  have hentities : s.world.entities = s.db.worldEntities := congrArg WorldModel.entities hworld
  have hrelations : s.world.relations = s.db.loadWorldModel.relations := by
    rw [← hworld]
    rfl
  refine ⟨hpersistent, htasks, hoperations, ?_, ?_, hdecoded.congr rfl rfl le_rfl⟩
  · simp only [Sys.bumpedWorkspace, WorldModel.stored, Database.loadWorldModel, hworkspaces,
      hentities, hrelations, Option.getD_some]
  · intro entity hentity
    show ((s.db.workspaceRevisions.put _).get? entity.workspaceId).isSome = true
    rw [Table.get?_put]
    split
    · rfl
    · rename_i hne
      exact (hcounted entity hentity).resolve_left (fun heq => hne heq.symm)

/-- An entity whose metadata JSON gives back is in memory and in the store alike. -/
theorem registerEntity {entity : Entity}
    (hstored : entity.storedMetadata = some entity.metadata) :
    Upheld (Reloadable env) (Decoded env) (registerEntity env entity) := by
  intro s h
  have hcolumns := (Entity.storedMetadata_eq_some.mp hstored).1
  have hentered : ∀ metadata, (s.persistent = true → entity.storedMetadata = some metadata) →
      s.entered entity metadata = { s with
        world := s.world.entered entity
        db := { s.db with worldEntities := s.db.worldEntities.put entity }
        boundaries := s.boundaries + 1 } := by
    intro metadata hgiven
    cases hstored.symm.trans (hgiven h.persistent)
    simp only [Sys.entered, Sys.wrote, h.persistent, if_true]
  refine ends_registerEntity (fun metadata hgiven => ?_) (fun _ hnone => ?_)
    (fun metadata t hgiven ht => ?_)
  · rw [hentered metadata hgiven]
    refine bumpedIn h.persistent h.tasks h.operations ?_ ?_ (h.decoded.put hcolumns rfl rfl le_rfl)
    · have hentities : s.world.entities = s.db.worldEntities :=
        congrArg WorldModel.entities h.world
      show { s.world.stored with entities := s.world.entities.put entity } = _
      rw [h.world, hentities]
      rfl
    · intro other hother
      rcases Table.mem_put.mp hother with rfl | ⟨hold, _⟩
      · exact Or.inl rfl
      · exact Or.inr (h.counted other hold)
  · cases hstored.symm.trans hnone
  · rw [hentered metadata hgiven] at ht
    exact h.decoded.put hcolumns ht.dbOperations ht.dbEntities ht.ids.ge

/-- An observation is in memory only; its bump of a workspace that can be bound is in both. -/
theorem observe (source observationType : String) (value : PyVal) (domain : String)
    (workspaceId : Option String) (hbindable : ∀ id, workspaceId = some id → Bindable [.text id]) :
    Upheld (Reloadable env) (Decoded env)
      (observe env source observationType value domain workspaceId) := by
  intro s h
  have hnoted : Reloadable env (s.noted ⟨source, observationType, value, workspaceId⟩) :=
    h.congr rfl rfl rfl rfl rfl rfl rfl le_rfl
  refine ends_observe (fun e => hnoted) (fun id _ => ?_) (fun id _ hid _ hrefused => ?_)
    (fun revisions _ _ => ?_) (fun t ht => ?_)
  · exact bumpedIn hnoted.persistent hnoted.tasks hnoted.operations hnoted.world
      (fun entity hentity => Or.inr (hnoted.counted entity hentity)) hnoted.decoded
  · exact absurd (hbindable id hid) hrefused
  · simp only [Sys.counted, Sys.wrote, hnoted.persistent, if_true]
    refine ⟨rfl, h.tasks, h.operations, ?_, h.counted, h.decoded.congr rfl rfl le_rfl⟩
    show { s.world.stored with revisions := revisions } = _
    rw [h.world]
    rfl
  · exact h.decoded.congr ht.dbOperations ht.dbEntities ht.ids.ge

/-- What memory has of an entity was bound when it was stored. -/
theorem bound (h : Reloadable env s) {ref : String} {entity : Entity}
    (hfound : s.world.get ref none = .ok entity) :
    entity.entityId = ref ∧ Bindable entity.columns := by
  have hget := (WorldModel.get_eq_ok hfound).1
  have hentities : s.world.entities = s.db.worldEntities := congrArg WorldModel.entities h.world
  exact ⟨Table.key_of_get? hget, h.decoded.bound entity (Table.mem_of_get? (hentities ▸ hget))⟩

/-- An edge that can be bound goes into memory and into the store before the bump of its workspace.
-/
theorem relate (source relation target : String) (hbindable : Bindable [.text relation]) :
    Upheld (Reloadable env) (Decoded env) (relate env source relation target) := by
  intro s h
  have hrelated : s.related source relation target = { s with
      world := s.world.related source relation target
      db := { s.db with worldRelations := s.db.worldRelations.putNew (source, relation, target) }
      boundaries := s.boundaries + 1 } := by
    simp only [Sys.related, Sys.wrote, h.persistent, if_true]
  refine ends_relate (fun e => h) (fun _ => h) (fun sourceEntity targetEntity hadds => ?_)
  obtain ⟨hsource, hsourceBound⟩ := h.bound hadds.sourceFound
  obtain ⟨htarget, htargetBound⟩ := h.bound hadds.targetFound
  obtain ⟨hedge, hworkspace⟩ := bindable_edge hsourceBound htargetBound hbindable
  rw [hsource, htarget] at hedge
  refine ends_relate_adds hadds (fun _ => ?_) (fun _ hrefused => ?_) (fun _ _ hrefused => ?_)
    (fun t ht => ?_)
  · rw [hrelated]
    refine bumpedIn h.persistent h.tasks h.operations ?_
      (fun entity hentity => Or.inr (h.counted entity hentity)) (h.decoded.congr rfl rfl le_rfl)
    have hunstored : (source, relation, target) ∉ s.db.worldRelations.rows := by
      rw [← s.db.mem_edgesOf_loadWorldModel source (relation, target), ← h.world]
      exact hadds.new
    show s.world.stored.related source relation target = _
    rw [h.world]
    exact (Database.loadWorldModel_related hunstored).symm
  · exact absurd hedge hrefused
  · exact absurd hworkspace hrefused
  · rw [hrelated] at ht
    exact h.decoded.congr ht.dbOperations ht.dbEntities ht.ids.ge

/-! ## Tasks and operations -/

/-- A task and the bumped revisions are put on both sides. -/
theorem putTask (h : Reloadable env s) (task : Task) (hpersistent : t.persistent = true)
    (htasks : t.tasks = s.tasks.put task) (hstored : t.db.tasks = s.db.tasks.put task)
    (hoperations : t.operations = s.operations) (hrows : t.db.operations = s.db.operations)
    (hworld : t.world = { s.world with revisions := s.world.revisions.bumpTasks })
    (htables : t.db.worldTables = { s.db with
      worldRevisions := some s.world.revisions.bumpTasks }.worldTables)
    (hids : s.ids ≤ t.ids) : Reloadable env t := by
  simp only [Database.worldTables, Prod.mk.injEq] at htables
  obtain ⟨hentities, hrelations, hrevisions, hworkspaces⟩ := htables
  refine ⟨hpersistent, ?_, ?_, ?_, ?_, h.decoded.congr hrows hentities hids⟩
  · rw [htasks, hstored, h.tasks]
  · rw [hoperations, hrows, h.operations]
  · have hloaded : t.db.loadWorldModel
        = { s.db.loadWorldModel with revisions := s.world.revisions.bumpTasks } := by
      simp only [Database.loadWorldModel, hentities, hrelations, hrevisions, hworkspaces,
        Option.getD_some]
    rw [hworld, hloaded, ← h.world]
    rfl
  · rw [hentities, hworkspaces]
    exact h.counted

/-- A change of a task writes its row and its event together; if that transaction does not come
through, the call raises or the process ends, and nothing more is asked. -/
theorem changes (h : Reloadable env s) (taskId : String) :
    Changes env s taskId (fun _ t => Reloadable env t) (Left (Reloadable env) (Decoded env)) where
  persistent := h.persistent
  unchanged := h
  raised := fun _ _ => h
  died := fun task new _ _ => (h.decoded.congr rfl rfl le_rfl : Decoded env (s.touchedTask new))
  recorded := by
    intro task new fields column _ _ _ _ _
    have hdone : Reloadable env ((s.touchedTask new).recordedTask env new.touched fields column) :=
      h.putTask new.touched h.persistent rfl rfl rfl rfl rfl rfl (Nat.le_succ _)
    exact ⟨hdone, hdone.decoded⟩

/-- A new task is put into memory and stored before `create` returns. -/
theorem created (h : Reloadable env s) (goal : String) (successCriteria : List String)
    (workspaceId : String) (constraints : List String) (lane : String) (priority : Int)
    (budget : TaskBudget) :
    Ends (fun _ t => Reloadable env t) (Left (Reloadable env) (Decoded env))
      (createTask env goal successCriteria workspaceId constraints lane priority budget) s := by
  refine ends_createTask h.persistent goal successCriteria workspaceId constraints lane priority
    budget rfl (h.decoded.congr rfl rfl (Nat.le_succ _)) (fun fields column _ _ _ => ?_)
  let task := newTask env s goal successCriteria workspaceId constraints lane priority budget
  have hdone : Reloadable env ((s.createdTask task).recordedTask env task fields column) :=
    h.putTask task h.persistent rfl rfl rfl rfl rfl rfl (Nat.le_add_right _ 2)
  exact ⟨hdone, hdone.decoded⟩

/-- The operations in memory are those of the store, so JSON gives back what they carry. -/
theorem exact (h : Reloadable env s) {operationId : String} {op : Operation}
    (hop : s.operations.get? operationId = some op) : op.Exact :=
  .of_encoded (h.decoded.exact op (Table.mem_of_get? (h.operations ▸ hop)))

/-- An operation is put on both sides. -/
theorem putOperation (h : Reloadable env s) {op : Operation} (hexact : op.encoded = some op)
    (hunused : ∀ n, t.ids ≤ n → op.operationId ≠ env.newId "op" n)
    (hoperations : t.operations = s.operations.put op)
    (hrows : t.db.operations = s.db.operations.put op) (hpersistent : t.persistent = s.persistent)
    (htasks : t.tasks = s.tasks) (hstored : t.db.tasks = s.db.tasks) (hworld : t.world = s.world)
    (htables : t.db.worldTables = s.db.worldTables) (hids : s.ids ≤ t.ids) : Reloadable env t := by
  let base : Sys :=
    { t with
      operations := s.operations
      db := { t.db with operations := s.db.operations } }
  have hbase : Reloadable env base :=
    h.congr hpersistent htasks hstored rfl rfl (congrArg WorldModel.stored hworld) htables hids
  refine ⟨hbase.persistent, hbase.tasks, ?_, hbase.world, hbase.counted, ?_, ?_,
    hbase.decoded.bound⟩
  · rw [hoperations, hrows, h.operations]
  · intro row hrow
    rw [hrows] at hrow
    rcases Table.mem_put.mp hrow with rfl | ⟨hold, _⟩
    · exact hexact
    · exact h.decoded.exact row hold
  · intro row hrow n hn
    rw [hrows] at hrow
    rcases Table.mem_put.mp hrow with rfl | ⟨hold, _⟩
    · exact hunused n hn
    · exact h.decoded.unused row hold n (hids.trans hn)

/-- An operation in memory was assigned to, and its row is stored. -/
theorem wrote (h : Reloadable env s) {op op' : Operation}
    (hop : s.operations.get? op.operationId = some op) (hid : op'.operationId = op.operationId)
    (hfields : op.overwrite op' = op') (hexact : op'.Exact)
    (hoperations : t.operations = s.operations.put op')
    (hrows : t.db.operations = s.db.operations.put (s.db.operationRow op'))
    (hpersistent : t.persistent = s.persistent) (htasks : t.tasks = s.tasks)
    (hstored : t.db.tasks = s.db.tasks) (hworld : t.world = s.world)
    (htables : t.db.worldTables = s.db.worldTables) (hids : s.ids ≤ t.ids) : Reloadable env t := by
  have hget : s.db.operations.get? op.operationId = some op := h.operations ▸ hop
  have hrow : s.db.operationRow op' = op' := by
    unfold Database.operationRow
    rw [hid, hget]
    exact hfields
  rw [hrow] at hrows
  refine h.putOperation hexact.encoded ?_ hoperations hrows hpersistent htasks hstored hworld htables
    hids
  rw [hid]
  exact fun n hn => h.decoded.unused op (Table.mem_of_get? hget) n (hids.trans hn)

/-- An assignment to an operation that JSON gives back keeps memory and store alike, whichever way
it is stored. -/
theorem ends_stored (h : Reloadable env s) {op op' : Operation} {how : OpStore}
    (hop : s.operations.get? op.operationId = some op) (hid : op'.operationId = op.operationId)
    (hfields : op.overwrite op' = op') (hexact : op'.Exact)
    (hpayload : ∀ eventType actor payload, how = .recorded eventType actor payload →
      ∃ column, PyVal.jsonDumpsItems payload = some column) :
    Ends (fun _ t => Reloadable env t) (Left (Reloadable env) (Decoded env))
      (storeOp env op'.operationId how) (s.assigned op') := by
  have hget := s.get?_assigned op'
  have hstill : (s.assigned op').persistent = true := h.persistent
  cases how with
  | saved =>
      refine ends_saveOp hstill hget (fun hnone => ?_) (fun row hencoded => ?_)
      · cases hnone.symm.trans hexact.encoded
      · cases hexact.encoded.symm.trans hencoded
        have hdone : Reloadable env ((s.assigned op').savedOp op') :=
          h.wrote hop hid hfields hexact rfl rfl rfl rfl rfl rfl rfl le_rfl
        exact ⟨hdone, hdone.decoded⟩
  | recorded eventType actor payload =>
      obtain ⟨column, hcolumn⟩ := hpayload eventType actor payload rfl
      refine ends_recordOp hstill hget (fun hnone => ?_) (fun row fields column' hencoded _ _ => ?_)
      · rcases hnone with hnone | hnone
        · cases hnone.symm.trans hexact.encoded
        · cases hnone.symm.trans hcolumn
      · cases hexact.encoded.symm.trans hencoded
        have hdone : Reloadable env ((s.assigned op').recordedOp env op' fields column') :=
          h.wrote hop hid hfields hexact rfl rfl rfl rfl rfl rfl rfl (Nat.le_succ _)
        exact ⟨hdone, hdone.decoded⟩

/-- A new operation has an id that no row has. -/
theorem started (h : Reloadable env s) (hids : Function.Injective env.uuid) {task : Task}
    (proposal : ActionProposal) (spec : ActionSpec) (expectedRevisions : List (String × Int))
    (taskLease : Option TaskLease) (resourceLease : Option ResourceLease) (clockReads : ℕ)
    (hjson : PyVal.jsonDumpsItems proposal.arguments = some proposal.arguments) :
    Ends (fun _ t => Reloadable env t) (Left (Reloadable env) (Decoded env))
      (startOperation env task (proposal.operation (env.newId "op" s.ids) task spec
        expectedRevisions taskLease resourceLease))
      { s with ids := s.ids + 1, clockReads := clockReads } := by
  let base : Sys := { s with ids := s.ids + 1, clockReads := clockReads }
  let op := proposal.operation (env.newId "op" s.ids) task spec expectedRevisions taskLease
    resourceLease
  have hbase : Reloadable env base := h.congr rfl rfl rfl rfl rfl rfl rfl (Nat.le_succ _)
  have hexact : op.Exact := ⟨hjson, rfl, rfl⟩
  have hnone : s.db.operations.get? op.operationId = none := by
    refine Table.get?_eq_none.mpr (fun row hrow heq => ?_)
    exact h.decoded.unused row hrow s.ids le_rfl heq
  have hrow : s.db.operationRow op = op := by
    unfold Database.operationRow
    rw [hnone]
  have hstill : base.persistent = true := h.persistent
  have hdied : Decoded env (base.startedTask task) := hbase.decoded.congr rfl rfl le_rfl
  refine ends_startOperation hstill rfl hdied (fun hfailed => ?_)
    (fun row fields column hencoded _ => ?_)
  · cases hfailed.symm.trans hexact.encoded
  cases hexact.encoded.symm.trans hencoded
  -- the task goes first, then the operation
  let counted : Sys :=
    { base.startedTask task with db := { (base.startedTask task).db with
        tasks := s.db.tasks.put task.started } }
  have hcounted : Reloadable env counted :=
    hbase.putTask task.started h.persistent rfl rfl rfl rfl rfl rfl le_rfl
  have hdone : Reloadable env
      ((base.opened task op).recordedStart env task.started op fields column) := by
    refine hcounted.putOperation hexact.encoded (fun n hn heq => ?_) rfl ?_ rfl rfl rfl rfl rfl
      (Nat.le_succ _)
    · have hsame : s.ids = n := env.newId_injective hids "op" heq
      have hlater : s.ids + 1 + 1 ≤ n := hn
      omega
    · show s.db.operations.put (s.db.operationRow op) = _
      rw [hrow]
      rfl
  exact ⟨hdone, hdone.decoded⟩

end Reloadable

/-- **Every call leaves what can be loaded again.** -/
theorem reloadable_rules {env : Env} (hids : Function.Injective env.uuid)
    (hanswers : env.AnswersExactly) :
    EngineRules env exactTerms (Reloadable env) (Decoded env) where
  durable := fun h => h.decoded
  apart := fun ht h => h.apart ht
  changes := fun taskId h => h.changes taskId
  created := fun goal successCriteria workspaceId constraints lane priority budget h _ =>
    h.created goal successCriteria workspaceId constraints lane priority budget
  started := fun proposal spec expectedRevisions taskLease resourceLease clockReads h _ hjson _ =>
    h.started hids proposal spec expectedRevisions taskLease resourceLease clockReads hjson
  operations :=
    -- an operation stays one that loading gives back, whatever the capability answered
    { stored := by
        intro s op how op' h hop hstep
        have hexact := (h.exact hop).step hanswers hstep
        have hpayload := ((h.exact hop).encodable.step hanswers.answersJson hstep).2
        rw [← hstep.operationId]
        refine h.ends_stored hop hstep.operationId ?_ hexact hpayload
        rw [hstep.fields]
        rfl
      called := fun _ _ _ _ h => h.congr rfl rfl rfl rfl rfl rfl rfl le_rfl
      bounded := fun h =>
        ⟨h.congr rfl rfl rfl rfl rfl rfl rfl le_rfl, h.decoded.congr rfl rfl le_rfl⟩
      interrupted := fun h _ => h
      unusable := fun _ _ _ hanswer hnone => absurd hnone (hanswers.answersJson.iterable hanswer)
      unjudged := fun _ _ _ hanswer hitems hverdict =>
        absurd hverdict (hanswers.answersJson.judged hanswer hitems) }
  begun := by
    intro s op h hop _
    have hexact := (h.exact hop).begun
    refine @Reloadable.ends_stored env s h op op.begun
      (.recorded "operation.started" "engine" []) hop rfl rfl hexact ?_
    rintro _ _ _ ⟨⟩
    exact ⟨[], rfl⟩
  fresh := fun _ _ => trivial
  registered := fun hstored => Reloadable.registerEntity hstored
  observed := Reloadable.observe
  related := Reloadable.relate
  restarted := fun registry capabilities broker h => .restarted h registry capabilities broker

/-! ## Restarts

A restart takes the volatile part away, and no call sees that it is gone.
-/

/-- A broker that was just made, of the same capacity and on the same store or none. -/
def ResourceBroker.anew (broker : ResourceBroker) : ResourceBroker := { broker with leases := .empty }

/-- There is no broker, or its leases are in the store. -/
def Sys.BrokerStored (s : Sys) : Prop := ∀ broker, s.broker = some broker → broker.persistent = true

/-- The process ends between two calls, and the next one gets a new broker like the one it had, the
same registry and the same capabilities. -/
def Sys.reboot (s : Sys) (registry : CapabilityRegistry) (capabilities : List String) : Call :=
  .restart registry capabilities (s.broker.map ResourceBroker.anew)

/-- The second run is the first one with restarts put in anywhere, from `s` on.  Its calls are those
of the first, in their order. -/
inductive Interrupted (env : Env) (registry : CapabilityRegistry) (capabilities : List String) :
    Sys → List Call → List Call → Prop
  | done (s : Sys) : Interrupted env registry capabilities s [] []
  | call {s : Sys} {call : Call} {calls calls' : List Call}
      (h : Interrupted env registry capabilities (call.exec env s) calls calls') :
      Interrupted env registry capabilities s (call :: calls) (call :: calls')
  | reboot {s : Sys} {calls calls' : List Call} (hbroker : s.BrokerStored)
      (h : Interrupted env registry capabilities ((s.reboot registry capabilities).exec env s)
        calls calls') :
      Interrupted env registry capabilities s calls (s.reboot registry capabilities :: calls')

/-- **A restart only loses what is volatile.** -/
theorem Reloadable.reboot {env : Env} {s : Sys} (h : Reloadable env s) (hbroker : s.BrokerStored) :
    (s.reboot s.registry s.capabilities).exec env s = s.withVolatile {} s.invocations := by
  have hbrokers : s.broker.map ResourceBroker.anew = s.broker.map (·.withLeases .empty) := by
    cases hget : s.broker with
    | none => rfl
    | some broker =>
        have hstored := hbroker broker hget
        simp only [Option.map_some, ResourceBroker.withLeases, ResourceBroker.anew, hstored, if_true]
  show s.restart s.registry s.capabilities (s.broker.map ResourceBroker.anew) = _
  unfold Sys.restart
  rw [Database.reopened_of_counted h.counted, hbrokers, ← h.world, Database.loadTasks, ← h.tasks,
    Database.loadOperations, ← h.operations, ← h.persistent]
  rfl

namespace Behind

variable {env : Env} {s t : Sys}

/-- What can be loaded again is not volatile. -/
theorem reloadable (h : Behind s t) (hs : Reloadable env s) : Reloadable env t := by
  obtain ⟨_, v, invocations, rfl, _⟩ := h
  exact hs.congr rfl rfl rfl rfl rfl rfl rfl le_rfl

/-- A restart leaves the process as far behind. -/
theorem reboot (h : Behind s t) (hs : Reloadable env s) (hbroker : t.BrokerStored) :
    Behind s ((t.reboot t.registry t.capabilities).exec env t) := by
  rw [(h.reloadable hs).reboot hbroker]
  obtain ⟨hpersistent, v, invocations, rfl, hinvocations⟩ := h
  exact ⟨hpersistent, {}, invocations, s.withVolatile_withVolatile .., hinvocations⟩

/-- A call does the same to both. -/
theorem exec (h : Behind s t) {call : Call} (hcall : call.isRestart = false) :
    Behind (call.exec env s) (call.exec env t) := by
  rw [Call.exec_eq, Call.exec_eq]
  exact (Call.unaware hcall).after h

end Behind

/-- The call is no restart, the process lives through it, and it hands over what JSON gives back. -/
structure Call.Plain (env : Env) (s : Sys) (call : Call) : Prop where
  handsOver : call.HandsOverJson env s
  lived : call.died env s = false
  call : call.isRestart = false

/-- The interrupted run and the other one, side by side. -/
theorem Interrupted.behind {env : Env} {registry : CapabilityRegistry} {capabilities : List String}
    (hids : Function.Injective env.uuid) (hanswers : env.AnswersExactly) {t : Sys}
    {calls calls' : List Call} (hinterrupted : Interrupted env registry capabilities t calls calls')
    (hregistry : t.registry = registry) (hcapabilities : t.capabilities = capabilities) :
    ∀ {s : Sys}, Behind s t → Reloadable env s →
      Along env (fun s call => call.Plain env s ∧ Bindable call.columns) s calls →
      Behind (runCalls env s calls) (runCalls env t calls') := by
  induction hinterrupted with
  | done t => exact fun hbehind _ _ => hbehind
  | @call t call calls calls' _ ih =>
      rintro s hbehind hs ⟨⟨hplain, hbindable⟩, halong⟩
      have hmoves := Call.moves env t hplain.call
      refine ih (hmoves.registry.trans hregistry) (hmoves.capabilities.trans hcapabilities)
        (hbehind.exec hplain.call) ?_ halong
      have hmeets := hplain.handsOver.meets hbindable
      exact ((reloadable_rules hids hanswers).exec hs hmeets).2 hplain.lived
  | reboot hbroker _ ih =>
      intro s hbehind hs halong
      refine ih rfl rfl ?_ hs halong
      subst hregistry hcapabilities
      exact hbehind.reboot hs hbroker

end LiandanluNative
