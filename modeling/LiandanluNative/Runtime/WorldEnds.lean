/-
# LiandanluNative.Runtime.WorldEnds — what the methods of the world end in.

A method of the world changes what is in memory and writes the change through where there is a
store.  Its ends are written out for an engine with and without one (`Sys.wrote`): a method raises
before it has bumped a revision, and a process that ends in one leaves the entities and the edges as
they were when the bump began (`Bumping`).

A bump of a workspace is two transactions, one for the workspace and one for the revisions of the
world.  A process that ends between them leaves a store in which the two disagree until the next
bump, which is why what is said of the counters in the store is said of runs and not of calls.
-/
import LiandanluNative.Runtime.Commits

namespace LiandanluNative

open Lib (Table)
open Lib.Proc

/-! ## The world once a method has run

The worlds that the methods of `world.py` leave, as functions of the world before.
-/

namespace WorldModel

/-- The revision of a workspace is bumped. -/
def bumped (world : WorldModel) (workspaceId : String) : WorldModel :=
  { world with
    workspaceRevisions :=
      world.workspaceRevisions.put (workspaceId, world.workspaceRevision workspaceId + 1)
    revisions :=
      { world.revisions with
        workspace := world.revisions.workspace + 1
        globalRevision := world.revisions.globalRevision + 1 } }

/-- Only the workspace that is bumped counts on. -/
theorem workspaceRevision_bumped (world : WorldModel) (workspaceId other : String) :
    (world.bumped workspaceId).workspaceRevision other
      = if workspaceId = other then world.workspaceRevision other + 1
        else world.workspaceRevision other := by
  by_cases heq : workspaceId = other
  · subst heq
    simp only [bumped, workspaceRevision, Table.get?_put_self, if_true]
  · simp only [bumped, workspaceRevision, Table.get?_put, if_neg heq]

/-- An entity is registered. -/
def entered (world : WorldModel) (entity : Entity) : WorldModel :=
  { world with entities := world.entities.put entity }

/-- An observation is noted. -/
def noted (world : WorldModel) (observation : Observation) : WorldModel :=
  { world with observations := world.observations ++ [observation] }

/-- An edge is added. -/
def related (world : WorldModel) (source relation target : String) : WorldModel :=
  { world with relations := addEdge world.relations source relation target }

/-- Adding an edge adds it to the edges of its source. -/
theorem mem_edgesOf_addEdge (world : WorldModel)
    (relations : Table (Prod.fst : String × List (String × String) → String))
    (source relation target other : String) (edge : String × String) :
    edge ∈ WorldModel.edgesOf
        { world with relations := addEdge relations source relation target } other ↔
      (source, relation, target) = (other, edge) ∨
        edge ∈ WorldModel.edgesOf { world with relations := relations } other := by
  unfold edgesOf addEdge
  dsimp only
  by_cases hsource : source = other
  · subst hsource
    cases hget : relations.get? source with
    | none => simp [eq_comm]
    | some entry => simp [or_comm, eq_comm]
  · cases hget : relations.get? source with
    | none => simp [hsource]
    | some entry => simp [hsource]

/-- Only the edge that is added is new. -/
theorem mem_edgesOf_related (world : WorldModel) (source relation target other : String)
    (edge : String × String) :
    edge ∈ (world.related source relation target).edgesOf other ↔
      (source, relation, target) = (other, edge) ∨ edge ∈ world.edgesOf other :=
  world.mem_edgesOf_addEdge world.relations source relation target other edge

end WorldModel

/-- `relate` adds the edge: it joins two active entities of one workspace, and is new.  It is a
condition on the world before the call. -/
structure WorldModel.AddsEdge (world : WorldModel) (source relation target : String)
    (sourceEntity targetEntity : Entity) : Prop where
  sourceFound : world.get source none = .ok sourceEntity
  targetFound : world.get target none = .ok targetEntity
  together : sourceEntity.workspaceId = targetEntity.workspaceId
  new : (relation, target) ∉ world.edgesOf source

/-- The store takes an edge between entities that it took, and the id of their workspace. -/
theorem bindable_edge {sourceEntity targetEntity : Entity} {relation : String}
    (hsource : Bindable sourceEntity.columns) (htarget : Bindable targetEntity.columns)
    (hrelation : Bindable [.text relation]) :
    Bindable [.text sourceEntity.entityId, .text relation, .text targetEntity.entityId] ∧
      Bindable [.text sourceEntity.workspaceId] := by
  have hid : Bindable [.text sourceEntity.entityId] := hsource.mono (by simp [Entity.columns])
  have hid' : Bindable [.text targetEntity.entityId] := htarget.mono (by simp [Entity.columns])
  refine ⟨?_, hsource.mono (by simp [Entity.columns])⟩
  simp only [bindable_iff, List.mem_cons, List.not_mem_nil, or_false, forall_eq_or_imp,
    forall_eq] at hid hid' hrelation ⊢
  exact ⟨hid, hrelation, hid'⟩

/-- The edges of a loaded world are the rows of the store. -/
theorem Database.mem_edgesOf_loadWorldModel (db : Database) (source : String)
    (edge : String × String) :
    edge ∈ db.loadWorldModel.edgesOf source ↔ (source, edge) ∈ db.worldRelations.rows := by
  have hloaded : ∀ (rows : List (String × String × String))
      (relations : Table (Prod.fst : String × List (String × String) → String)),
      edge ∈ WorldModel.edgesOf
          { db.loadWorldModel with
            relations := rows.foldl
              (fun relations row => WorldModel.addEdge relations row.1 row.2.1 row.2.2)
              relations } source ↔
        (source, edge) ∈ rows ∨
          edge ∈ WorldModel.edgesOf { db.loadWorldModel with relations := relations } source := by
    intro rows
    induction rows with
    | nil => simp
    | cons row rows ih =>
        intro relations
        rw [List.foldl_cons, ih, WorldModel.mem_edgesOf_addEdge, List.mem_cons, or_left_comm,
          or_assoc, eq_comm]
  exact (hloaded db.worldRelations.rows .empty).trans (or_iff_left List.not_mem_nil)

/-- Where every workspace with entities has a revision, opening the store changes nothing. -/
theorem Database.reopened_of_counted {db : Database} (h : ∀ entity ∈ db.worldEntities.rows,
    (db.workspaceRevisions.get? entity.workspaceId).isSome = true) : db.reopened = db := by
  unfold Database.reopened
  rw [Table.foldl_putNew_of_some h]

/-! ## The engine once a method has run -/

namespace Sys

/-- Written through, where there is a store. -/
def wrote (s : Sys) (write : Database → Database) : Sys :=
  if s.persistent then { s with db := write s.db, boundaries := s.boundaries + 1 } else s

section

variable (s : Sys) (write : Database → Database)

/-- Writing through changes the database, and nothing in memory but the count of boundaries. -/
@[simp] theorem wrote_persistent : (s.wrote write).persistent = s.persistent := by
  unfold wrote
  split <;> rfl

/-- The world is in memory. -/
@[simp] theorem wrote_world : (s.wrote write).world = s.world := by
  unfold wrote
  split <;> rfl

/-- Writing draws no id. -/
@[simp] theorem wrote_ids : (s.wrote write).ids = s.ids := by
  unfold wrote
  split <;> rfl

/-- Without a store there is nothing to write to. -/
theorem wrote_db : (s.wrote write).db = if s.persistent then write s.db else s.db := by
  unfold wrote
  split <;> rfl

/-- What the write leaves alone is as it was. -/
theorem wrote_fixes {α : Type} {f : Database → α} (h : f (write s.db) = f s.db) :
    f (s.wrote write).db = f s.db := by
  rw [wrote_db]
  split
  · exact h
  · rfl

end

/-- Once the revision of a workspace was bumped. -/
def bumpedIn (s : Sys) (workspaceId : String) : Sys :=
  let world := s.world.bumped workspaceId
  ({ s with world := world }.wrote fun db =>
    { db with
      workspaceRevisions :=
        db.workspaceRevisions.put
          (workspaceId, s.world.workspaceRevision workspaceId + 1) }).wrote fun db =>
    { db with worldRevisions := some world.revisions }

/-- Once the revision of a workspace was bumped whose id the store refuses. -/
def bumpedOnly (s : Sys) (workspaceId : String) : Sys :=
  { s with world := s.world.bumped workspaceId }

/-- Once an entity was registered, before the bump. -/
def entered (s : Sys) (entity : Entity) (metadata : List (PyKey × PyVal)) : Sys :=
  { s with world := s.world.entered entity }.wrote fun db =>
    { db with worldEntities := db.worldEntities.put { entity with metadata := metadata } }

/-- Once an observation was noted; it is only in memory. -/
def noted (s : Sys) (observation : Observation) : Sys :=
  { s with world := s.world.noted observation }

/-- Once the counter of a domain was bumped. -/
def counted (s : Sys) (revisions : WorldRevisions) : Sys :=
  { s with world := { s.world with revisions := revisions } }.wrote fun db =>
    { db with worldRevisions := some revisions }

/-- Once an edge was added, before the bump. -/
def related (s : Sys) (source relation target : String) : Sys :=
  { s with world := s.world.related source relation target }.wrote fun db =>
    { db with worldRelations := db.worldRelations.putNew (source, relation, target) }

section

variable (s : Sys)

/-- What each of the states written out above has for its world, as rules for `simp`. -/
@[simp] theorem bumpedIn_world (workspaceId : String) :
    (s.bumpedIn workspaceId).world = s.world.bumped workspaceId := by
  simp only [bumpedIn, wrote_world]

@[simp] theorem bumpedOnly_world (workspaceId : String) :
    (s.bumpedOnly workspaceId).world = s.world.bumped workspaceId := rfl

@[simp] theorem entered_world (entity : Entity) (metadata : List (PyKey × PyVal)) :
    (s.entered entity metadata).world = s.world.entered entity :=
  wrote_world _ _

@[simp] theorem noted_world (observation : Observation) :
    (s.noted observation).world = s.world.noted observation := rfl

@[simp] theorem counted_world (revisions : WorldRevisions) :
    (s.counted revisions).world = { s.world with revisions := revisions } :=
  wrote_world _ _

@[simp] theorem related_world (source relation target : String) :
    (s.related source relation target).world = s.world.related source relation target :=
  wrote_world _ _

end

end Sys

/-- Revisions were bumped at most. -/
structure Bumping (s t : Sys) : Prop where
  persistent : t.persistent = s.persistent
  ids : t.ids = s.ids
  entities : t.world.entities = s.world.entities
  relations : t.world.relations = s.world.relations
  dbEntities : t.db.worldEntities = s.db.worldEntities
  dbRelations : t.db.worldRelations = s.db.worldRelations
  dbOperations : t.db.operations = s.db.operations

namespace Bumping

variable {s t : Sys}

/-- A bump that has not begun is a bump so far. -/
protected theorem refl : Bumping s s := ⟨rfl, rfl, rfl, rfl, rfl, rfl, rfl⟩

/-- Bumps one after the other are bumping. -/
protected theorem trans {u : Sys} (h₁ : Bumping s t) (h₂ : Bumping t u) : Bumping s u where
  persistent := h₂.persistent.trans h₁.persistent
  ids := h₂.ids.trans h₁.ids
  entities := h₂.entities.trans h₁.entities
  relations := h₂.relations.trans h₁.relations
  dbEntities := h₂.dbEntities.trans h₁.dbEntities
  dbRelations := h₂.dbRelations.trans h₁.dbRelations
  dbOperations := h₂.dbOperations.trans h₁.dbOperations

/-- Writing revisions through. -/
theorem wrote {write : Database → Database}
    (hentities : (write s.db).worldEntities = s.db.worldEntities)
    (hrelations : (write s.db).worldRelations = s.db.worldRelations)
    (hoperations : (write s.db).operations = s.db.operations) : Bumping s (s.wrote write) where
  persistent := s.wrote_persistent write
  ids := s.wrote_ids write
  entities := congrArg WorldModel.entities (s.wrote_world write)
  relations := congrArg WorldModel.relations (s.wrote_world write)
  dbEntities := s.wrote_fixes write hentities
  dbRelations := s.wrote_fixes write hrelations
  dbOperations := s.wrote_fixes write hoperations

variable (s)

theorem bumpedOnly (workspaceId : String) : Bumping s (s.bumpedOnly workspaceId) :=
  ⟨rfl, rfl, rfl, rfl, rfl, rfl, rfl⟩

theorem bumpedIn (workspaceId : String) : Bumping s (s.bumpedIn workspaceId) := by
  unfold Sys.bumpedIn
  exact (bumpedOnly s workspaceId).trans ((wrote rfl rfl rfl).trans (wrote rfl rfl rfl))

theorem noted (observation : Observation) : Bumping s (s.noted observation) :=
  ⟨rfl, rfl, rfl, rfl, rfl, rfl, rfl⟩

theorem counted (revisions : WorldRevisions) : Bumping s (s.counted revisions) := by
  have hbumped : Bumping s { s with world := { s.world with revisions := revisions } } :=
    ⟨rfl, rfl, rfl, rfl, rfl, rfl, rfl⟩
  unfold Sys.counted
  exact hbumped.trans (wrote rfl rfl rfl)

end Bumping

/-! ## The rules -/

section

variable {env : Env} {s : Sys} {Q : Unit → Sys → Prop} {E : Fault → Sys → Prop}

/-- **Saving** returns into the state with the row, and a process that ends there has written it,
too. -/
theorem ends_persisting {txn : Sys → Txn Unit} (write : Database → Database)
    (hrun : txn s s.db = .ok () (write s.db)) (hok : Q () (s.wrote write))
    (hcrash : E .crash (s.wrote write)) : Ends Q E (persisting env txn) s := by
  unfold persisting
  unfold Sys.wrote at hok hcrash
  refine Ends.bind (Ends.get ?_)
  split
  · rename_i hpersistent
    rw [if_pos hpersistent] at hok hcrash
    refine Ends.bind (ends_store (fun e db h => ?_) (fun a db h => ?_))
    · cases hrun.symm.trans h
    · cases hrun.symm.trans h
      exact ⟨Ends.pure hok, hcrash⟩
  · rename_i hvolatile
    rw [if_neg hvolatile] at hok
    exact Ends.pure hok

/-- A write of the world that the store may refuse, whose parameters are `columns`. -/
theorem ends_persisting_bound {columns : List Column} (write : Database → Database)
    (hok : (s.persistent = true → Bindable columns) → Q () (s.wrote write))
    (hraised : s.persistent = true → ¬ Bindable columns → ∀ e, E (.raised e) s)
    (hcrash : (s.persistent = true → Bindable columns) → E .crash (s.wrote write)) :
    Ends Q E (persisting env fun _ => transaction do
      binds columns
      modify write) s := by
  by_cases hwritten : s.persistent = true → Bindable columns
  · by_cases hpersistent : s.persistent = true
    · refine ends_persisting write ?_ (hok hwritten) (hcrash hwritten)
      refine transaction_of_ok ?_
      simp only [bind, EStateM.bind, binds_of_bindable (hwritten hpersistent)]
      rfl
    · have hdone := hok hwritten
      unfold Sys.wrote at hdone
      rw [if_neg hpersistent] at hdone
      unfold persisting
      refine Ends.bind (Ends.get ?_)
      rw [if_neg hpersistent]
      exact Ends.pure hdone
  · obtain ⟨hpersistent, hcolumns⟩ := Classical.not_imp.mp hwritten
    obtain ⟨e, he⟩ := binds_of_refused hcolumns s.db
    unfold persisting
    refine Ends.bind (Ends.get ?_)
    rw [if_pos hpersistent]
    refine Ends.bind (ends_store (fun e db _ => hraised hpersistent hcolumns e) (fun a db h => ?_))
    simp only [transaction, bind, EStateM.bind, he] at h
    cases h

/-- **A bump of a workspace.** Where the store refuses its id, the bump is in memory only. -/
theorem ends_bumpWorkspace {workspaceId : String} (hok : Q () (s.bumpedIn workspaceId))
    (hraised : s.persistent = true → ¬ Bindable [.text workspaceId] →
      ∀ e, E (.raised e) (s.bumpedOnly workspaceId))
    (hcrash : ∀ t, Bumping s t → E .crash t) : Ends Q E (bumpWorkspace env workspaceId) s := by
  unfold bumpWorkspace modifyWorld
  refine Ends.bind (Ends.get (Ends.bind (Ends.modifying (Ends.bind ?_))))
  have hbumped := Bumping.bumpedOnly s workspaceId
  refine ends_persisting_bound (fun db => { db with
    workspaceRevisions := db.workspaceRevisions.put
      (workspaceId, s.world.workspaceRevision workspaceId + 1) }) (fun _ => ?_) hraised
    (fun _ => hcrash _ (hbumped.trans (.wrote rfl rfl rfl)))
  refine ends_persisting (fun db => { db with
    worldRevisions := some (s.world.bumped workspaceId).revisions }) ?_ hok ?_
  · rw [Sys.wrote_world]
    rfl
  · exact hcrash _ ((hbumped.trans (.wrote rfl rfl rfl)).trans (.wrote rfl rfl rfl))

/-- **Registering.** With a store it raises where the store refuses the entity, and then the entity
is in memory only. -/
theorem ends_registerEntity {entity : Entity}
    (hok : ∀ metadata, (s.persistent = true → entity.storedMetadata = some metadata) →
      Q () ((s.entered entity metadata).bumpedIn entity.workspaceId))
    (hraised : s.persistent = true → entity.storedMetadata = none →
      ∀ e, E (.raised e) { s with world := s.world.entered entity })
    (hcrash : ∀ metadata t, (s.persistent = true → entity.storedMetadata = some metadata) →
      Bumping (s.entered entity metadata) t → E .crash t) :
    Ends Q E (registerEntity env entity) s := by
  have hbump : ∀ metadata, (s.persistent = true → entity.storedMetadata = some metadata) →
      Ends Q E (bumpWorkspace env entity.workspaceId) (s.entered entity metadata) := by
    intro metadata hstored
    refine ends_bumpWorkspace (hok metadata hstored) (fun hpersistent hrefused => ?_)
      (fun t ht => hcrash metadata t hstored ht)
    -- the store has just taken the id as the workspace of the entity
    rw [Sys.entered, Sys.wrote_persistent] at hpersistent
    have hcolumns := (Entity.storedMetadata_eq_some.mp (hstored hpersistent)).1
    exact absurd (hcolumns.mono (by simp [Entity.columns])) hrefused
  unfold registerEntity modifyWorld
  refine Ends.bind (Ends.modifying (Ends.bind ?_))
  by_cases hpersistent : s.persistent = true
  · cases hstored : entity.storedMetadata with
    | none =>
        obtain ⟨e, he⟩ := saveWorldEntity_of_refused hstored s.db
        unfold persisting
        refine Ends.bind (Ends.get ?_)
        rw [if_pos hpersistent]
        refine Ends.bind (ends_store (fun e db _ => hraised hpersistent hstored e)
          (fun a db h => ?_))
        cases h.symm.trans he
    | some metadata =>
        refine ends_persisting (fun db => { db with
          worldEntities := db.worldEntities.put { entity with metadata := metadata } })
          (saveWorldEntity_of_stored hstored s.db) ?_ ?_
        · exact hbump metadata (fun _ => hstored)
        · exact hcrash metadata _ (fun _ => hstored) Bumping.refl
  · have hdone := hbump entity.metadata (fun h => absurd h hpersistent)
    unfold Sys.entered Sys.wrote at hdone
    rw [if_neg hpersistent] at hdone
    unfold persisting
    refine Ends.bind (Ends.get ?_)
    rw [if_neg hpersistent]
    exact Ends.pure hdone

/-- **Observing.** -/
theorem ends_observe {source observationType : String} {value : PyVal} {domain : String}
    {workspaceId : Option String}
    (hrefused : ∀ e, E (.raised e) (s.noted ⟨source, observationType, value, workspaceId⟩))
    (hworkspace : ∀ id, workspaceId = some id →
      Q () ((s.noted ⟨source, observationType, value, workspaceId⟩).bumpedIn id))
    (hunstored : ∀ id, domain = "workspace" → workspaceId = some id → s.persistent = true →
      ¬ Bindable [.text id] → ∀ e, E (.raised e)
        ((s.noted ⟨source, observationType, value, workspaceId⟩).bumpedOnly id))
    (hdomain : ∀ revisions, domain ≠ "workspace" → s.world.revisions.bump domain = .ok revisions →
      Q () ((s.noted ⟨source, observationType, value, workspaceId⟩).counted revisions))
    (hcrash : ∀ t, Bumping s t → E .crash t) :
    Ends Q E (observe env source observationType value domain workspaceId) s := by
  have hnoted := Bumping.noted s ⟨source, observationType, value, workspaceId⟩
  unfold observe modifyWorld
  refine Ends.bind (Ends.modifying ?_)
  split
  · rename_i heq
    cases workspaceId with
    | none => exact Ends.throw (hrefused _)
    | some id =>
        exact ends_bumpWorkspace (hworkspace id rfl) (hunstored id heq rfl)
          (fun t ht => hcrash t (hnoted.trans ht))
  · rename_i hother
    refine Ends.bind (Ends.get (Ends.bind (ends_liftExcept (fun revisions hbump => ?_)
      (fun e _ => hrefused e))))
    refine Ends.bind (Ends.modifying (ends_persisting (fun db => { db with
      worldRevisions := some revisions }) rfl (hdomain revisions hother hbump) ?_))
    exact hcrash _ (hnoted.trans (.counted _ revisions))

/-- **Relating.** The edge is added; where the store refuses it, it is in memory only. -/
theorem ends_relate_adds {source relation target : String} {sourceEntity targetEntity : Entity}
    (hadds : s.world.AddsEdge source relation target sourceEntity targetEntity)
    (hok : (s.persistent = true → Bindable [.text source, .text relation, .text target]) →
      Q () ((s.related source relation target).bumpedIn sourceEntity.workspaceId))
    (hunstored : s.persistent = true → ¬ Bindable [.text source, .text relation, .text target] →
      ∀ e, E (.raised e) { s with world := s.world.related source relation target })
    (hunbumped : s.persistent = true → Bindable [.text source, .text relation, .text target] →
      ¬ Bindable [.text sourceEntity.workspaceId] → ∀ e, E (.raised e)
        ((s.related source relation target).bumpedOnly sourceEntity.workspaceId))
    (hcrash : ∀ t, Bumping (s.related source relation target) t → E .crash t) :
    Ends Q E (relate env source relation target) s := by
  unfold relate modifyWorld
  refine Ends.bind (Ends.get ?_)
  rw [hadds.sourceFound, hadds.targetFound]
  refine Ends.bind (Ends.pure (Ends.bind (Ends.pure ?_)))
  rw [if_neg (not_not.mpr hadds.together), if_neg hadds.new]
  refine Ends.bind (Ends.modifying (Ends.bind (ends_persisting_bound (fun db => { db with
    worldRelations := db.worldRelations.putNew (source, relation, target) }) (fun hstored => ?_)
    hunstored (fun _ => hcrash _ Bumping.refl))))
  refine ends_bumpWorkspace (hok hstored) (fun hpersistent => ?_) hcrash
  have hstore : s.persistent = true := by
    rwa [Sys.wrote_persistent] at hpersistent
  exact hunbumped hstore (hstored hstore)

/-- **Relating**, in every case: it is refused, or the edge is known, or it is added. -/
theorem ends_relate {source relation target : String} (hrefused : ∀ e, E (.raised e) s)
    (hknown : (relation, target) ∈ s.world.edgesOf source → Q () s)
    (hadded : ∀ sourceEntity targetEntity,
      s.world.AddsEdge source relation target sourceEntity targetEntity →
      Ends Q E (relate env source relation target) s) :
    Ends Q E (relate env source relation target) s := by
  by_cases hadds : ∃ sourceEntity targetEntity,
      s.world.AddsEdge source relation target sourceEntity targetEntity
  · obtain ⟨sourceEntity, targetEntity, hadds⟩ := hadds
    exact hadded sourceEntity targetEntity hadds
  unfold relate
  refine Ends.bind (Ends.get (Ends.bind (ends_liftExcept (fun sourceEntity hsource => ?_)
    (fun e _ => hrefused e))))
  refine Ends.bind (ends_liftExcept (fun targetEntity htarget => ?_) (fun e _ => hrefused e))
  split
  · exact Ends.throw (hrefused _)
  rename_i hworkspace
  split
  · rename_i hedge
    exact Ends.pure (hknown hedge)
  rename_i hedge
  exact absurd ⟨sourceEntity, targetEntity, hsource, htarget, not_not.mp hworkspace, hedge⟩ hadds

end

end LiandanluNative
