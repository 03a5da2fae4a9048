/-
# LiandanluNative.Safety.WorldRelations — relations within a workspace.

`relate` refuses an edge between two workspaces, and nothing looks at the edges when `register` puts
an entity into another workspace than the one it was in.  Where every registration leaves an entity
with its neighbours, all edges stay within a workspace, in memory and in what a store is loaded back
as (`relations_confined`); the argument about places and edges is `Lib.Confined`.
-/
import LiandanluNative.Lib.Confined
import LiandanluNative.Safety.WorkspaceRevisions

namespace LiandanluNative

open Lib (Table NeighboursAt)
open Lib.Proc

/-! ## Places and edges

The place of an entity is its workspace; an edge joins two entities of one place.
-/

namespace WorldModel

/-- The workspace of a registered entity, active or not. -/
def place (world : WorldModel) (entityId : String) : Option String :=
  (world.entities.get? entityId).map Entity.workspaceId

/-- Some relation joins the two. -/
def Joins (world : WorldModel) (source target : String) : Prop :=
  ∃ relation, (relation, target) ∈ world.edgesOf source

/-- Every edge joins two registered entities of one workspace. -/
abbrev Confined (world : WorldModel) : Prop := Lib.Confined world.place world.Joins

/-- Places depend on the entities alone, … -/
theorem place_congr {v w : WorldModel} (h : w.entities = v.entities) : w.place = v.place := by
  unfold place
  rw [h]

/-- … and what is joined on the edges alone. -/
theorem joins_congr {v w : WorldModel} (h : w.relations = v.relations) : w.Joins = v.Joins := by
  unfold Joins edgesOf
  rw [h]

/-- An entity that is entered has a new place, and the others keep theirs. -/
theorem place_entered (world : WorldModel) (entity : Entity) :
    (world.entered entity).place
      = Function.update world.place entity.entityId (some entity.workspaceId) := by
  funext id
  show Option.map _ ((world.entities.put entity).get? id) = _
  rw [Table.get?_put, Function.update_apply]
  by_cases hid : entity.entityId = id
  · rw [if_pos hid, if_pos hid.symm]
    rfl
  · rw [if_neg hid, if_neg (Ne.symm hid)]
    rfl

/-- A new edge joins its two ends, and what was joined stays so. -/
theorem joins_related {world : WorldModel} {source relation target a b : String}
    (h : (world.related source relation target).Joins a b) :
    (a = source ∧ b = target) ∨ world.Joins a b := by
  obtain ⟨relation', hedge⟩ := h
  rcases (mem_edgesOf_related ..).mp hedge with hnew | hold
  · cases hnew
    exact Or.inl ⟨rfl, rfl⟩
  · exact Or.inr ⟨relation', hold⟩

end WorldModel

/-- The loaded world has the edges of the table. -/
theorem Database.joins_loadWorldModel {db : Database} {a b : String} :
    db.loadWorldModel.Joins a b ↔ ∃ relation, (a, relation, b) ∈ db.worldRelations.rows :=
  exists_congr fun _ => db.mem_edgesOf_loadWorldModel a _

/-! ## The invariant -/

/-- The world is confined, and so is what the store is loaded back as; where there is a store, it
has the places that memory has, and no other edges.  So a reload cannot bring an edge back that
memory has not. -/
structure Confining (s : Sys) : Prop where
  here : s.world.Confined
  loaded : s.db.loadWorldModel.Confined
  places : s.persistent = true →
    ∀ id p, s.world.place id = some p → s.db.loadWorldModel.place id = some p
  edges : s.persistent = true → ∀ a b, s.db.loadWorldModel.Joins a b → s.world.Joins a b

/-- The world is new, in memory and in the store. -/
structure Sys.NewWorld (s : Sys) : Prop where
  world : s.world = {}
  tables : s.db.worldTables = Database.worldTables {}

namespace Confining

variable {s t : Sys}

/-- It is about entities and edges, in memory and in the store. -/
theorem congr (h : Confining s) (hpersistent : t.persistent = s.persistent)
    (hplace : t.world.place = s.world.place) (hjoins : t.world.Joins = s.world.Joins)
    (hentities : t.db.worldEntities = s.db.worldEntities)
    (hrelations : t.db.worldRelations = s.db.worldRelations) : Confining t := by
  have hdbPlace : t.db.loadWorldModel.place = s.db.loadWorldModel.place :=
    WorldModel.place_congr hentities
  have hdbJoins : t.db.loadWorldModel.Joins = s.db.loadWorldModel.Joins := by
    refine WorldModel.joins_congr ?_
    simp only [Database.loadWorldModel, hrelations]
  refine ⟨?_, ?_, ?_, ?_⟩
  · rw [WorldModel.Confined, hplace, hjoins]
    exact h.here
  · rw [WorldModel.Confined, hdbPlace, hdbJoins]
    exact h.loaded
  · rw [hpersistent, hplace, hdbPlace]
    exact h.places
  · rw [hpersistent, hjoins, hdbJoins]
    exact h.edges

/-- Bumps leave places and edges alone. -/
theorem bumping (h : Confining s) (ht : Bumping s t) : Confining t :=
  h.congr ht.persistent (WorldModel.place_congr ht.entities) (WorldModel.joins_congr ht.relations)
    ht.dbEntities ht.dbRelations

/-- Memory alone has to be confined, where the store has its places and no other edges. -/
theorem of_memory (here : s.world.Confined)
    (hplaces : ∀ id p, s.world.place id = some p → s.db.loadWorldModel.place id = some p)
    (hedges : ∀ a b, s.db.loadWorldModel.Joins a b → s.world.Joins a b) : Confining s :=
  ⟨here, here.of_sub hplaces hedges, fun _ => hplaces, fun _ => hedges⟩

/-- A new world is confined. -/
theorem new (h : s.NewWorld) : Confining s := by
  have htables := h.tables
  simp only [Database.worldTables, Prod.mk.injEq] at htables
  obtain ⟨hentities, hrelations, _, _⟩ := htables
  have hempty : Confining { s with world := {}, db := {} } :=
    ⟨fun _ _ hedge => absurd hedge.choose_spec List.not_mem_nil,
      fun _ _ hedge => absurd hedge.choose_spec List.not_mem_nil,
      fun _ _ _ hplace => hplace, fun _ _ _ hedge => hedge⟩
  refine hempty.congr rfl ?_ ?_ hentities hrelations
  · rw [h.world]
  · rw [h.world]

/-- Opening the store and loading it. -/
theorem restarted (h : Confining s) (registry : CapabilityRegistry) (capabilities : List String)
    (broker : Option ResourceBroker) : Confining (s.restart registry capabilities broker) :=
  of_memory h.loaded (fun _ _ hplace => hplace) (fun _ _ hedge => hedge)

/-- An entity is put where its neighbours are. -/
theorem entered (h : Confining s) {entity : Entity} (metadata : List (PyKey × PyVal))
    (hnear : NeighboursAt s.world.place s.world.Joins entity.entityId entity.workspaceId) :
    Confining (s.entered entity metadata) := by
  have hplace : (s.entered entity metadata).world.place
      = Function.update s.world.place entity.entityId (some entity.workspaceId) := by
    rw [Sys.entered_world]
    exact s.world.place_entered entity
  have here : (s.entered entity metadata).world.Confined := by
    rw [WorldModel.Confined, hplace, Sys.entered_world]
    exact (h.here.moved_iff _ _).mpr hnear
  by_cases hpersistent : s.persistent = true
  · have hdbPlace : (s.entered entity metadata).db.loadWorldModel.place
        = Function.update s.db.loadWorldModel.place entity.entityId (some entity.workspaceId) := by
      rw [Sys.entered, Sys.wrote_db, if_pos hpersistent]
      exact s.db.loadWorldModel.place_entered { entity with metadata := metadata }
    have hrelations : (s.entered entity metadata).db.loadWorldModel.relations
        = s.db.loadWorldModel.relations := by
      rw [Sys.entered, Sys.wrote_db, if_pos hpersistent]
      rfl
    refine of_memory here (fun id p hid => ?_) (fun a b hab => ?_)
    · rw [hplace, Function.update_apply] at hid
      rw [hdbPlace, Function.update_apply]
      split
      · rwa [if_pos ‹_›] at hid
      · rw [if_neg ‹_›] at hid
        exact h.places hpersistent id p hid
    · rw [WorldModel.joins_congr hrelations] at hab
      rw [Sys.entered_world]
      exact h.edges hpersistent a b hab
  · have hmemory : s.entered entity metadata = { s with world := s.world.entered entity } := by
      rw [Sys.entered, Sys.wrote, if_neg hpersistent]
    rw [hmemory] at here ⊢
    exact ⟨here, h.loaded, fun hstore => absurd hstore hpersistent,
      fun hstore => absurd hstore hpersistent⟩

/-- An edge is added within a workspace. -/
theorem related (h : Confining s) {source relation target p : String}
    (hsource : s.world.place source = some p) (htarget : s.world.place target = some p) :
    Confining (s.related source relation target) := by
  have here : (s.related source relation target).world.Confined := by
    rw [Sys.related_world]
    exact h.here.joined hsource htarget (fun _ _ => WorldModel.joins_related)
  by_cases hpersistent : s.persistent = true
  · have hdb : (s.related source relation target).db
        = { s.db with worldRelations := s.db.worldRelations.putNew (source, relation, target) } := by
      rw [Sys.related, Sys.wrote_db, if_pos hpersistent]
    refine of_memory here (fun id p hid => ?_) (fun a b hab => ?_)
    · rw [Sys.related_world] at hid
      rw [hdb]
      exact h.places hpersistent id p hid
    · rw [hdb, Database.joins_loadWorldModel] at hab
      obtain ⟨relation', hrow⟩ := hab
      rw [Sys.related_world]
      rcases Table.mem_putNew.mp hrow with hnew | hold
      · cases hnew
        exact ⟨relation, (WorldModel.mem_edgesOf_related ..).mpr (Or.inl rfl)⟩
      · obtain ⟨relation'', hedge⟩ :=
          h.edges hpersistent a b (Database.joins_loadWorldModel.mpr ⟨relation', hold⟩)
        exact ⟨relation'', (WorldModel.mem_edgesOf_related ..).mpr (Or.inr hedge)⟩
  · have hmemory : s.related source relation target
        = { s with world := s.world.related source relation target } := by
      rw [Sys.related, Sys.wrote, if_neg hpersistent]
    rw [hmemory] at here ⊢
    exact ⟨here, h.loaded, fun hstore => absurd hstore hpersistent,
      fun hstore => absurd hstore hpersistent⟩

/-- An edge is added in memory only. -/
theorem unstored (h : Confining s) {source relation target p : String}
    (hsource : s.world.place source = some p) (htarget : s.world.place target = some p) :
    Confining { s with world := s.world.related source relation target } := by
  refine ⟨h.here.joined hsource htarget (fun _ _ => WorldModel.joins_related), h.loaded, h.places,
    fun hpersistent a b hab => ?_⟩
  obtain ⟨relation', hedge⟩ := h.edges hpersistent a b hab
  exact ⟨relation', (WorldModel.mem_edgesOf_related ..).mpr (Or.inr hedge)⟩

end Confining

/-! ## Calls and runs -/

/-- An entity is registered where those are that an edge joins to it.  Edges to itself ask for
nothing. -/
def Call.KeepsTogether (s : Sys) : Call → Prop
  | .register entity =>
      NeighboursAt s.world.place s.world.Joins entity.entityId entity.workspaceId
  | _ => True

/-- Where there is a store, it takes the entity that is registered, or memory has the entity in that
workspace already.  Otherwise memory would have a place that the store does not have. -/
def Call.Storable (s : Sys) : Call → Prop
  | .register entity =>
      s.persistent = true → entity.storedMetadata.isSome = true ∨
        s.world.place entity.entityId = some entity.workspaceId
  | _ => True

/-- **What every call keeps**, however it ends. -/
theorem Confining.exec {env : Env} {s : Sys} (h : Confining s) {call : Call}
    (hon : call.onWorld = true ∨ call.isRestart = true) (hkeeps : call.KeepsTogether s)
    (hstorable : call.Storable s) : Confining (call.exec env s) := by
  rw [Call.exec_eq]
  refine Ends.after ?_
  cases call with
  | register entity =>
      refine ends_registerEntity (fun metadata _ => ?_) (fun hpersistent hnone e => ?_)
        (fun metadata t _ ht => (h.entered metadata hkeeps).bumping ht)
      · exact (h.entered metadata hkeeps).bumping (.bumpedIn _ _)
      · -- the store refuses an entity that only memory has, where it was already
        have hplace := (hstorable hpersistent).resolve_left
          (by rw [hnone]; exact Bool.false_ne_true)
        refine h.congr rfl ?_ rfl rfl rfl
        exact (s.world.place_entered entity).trans (Function.update_eq_self_iff.mpr hplace.symm)
  | observe source observationType value domain workspaceId =>
      refine ends_observe (fun e => h.bumping (.noted _ _)) (fun id _ => ?_) (fun id _ _ _ _ e => ?_)
        (fun revisions _ _ => ?_) (fun t ht => h.bumping ht)
      · exact h.bumping ((Bumping.noted _ _).trans (.bumpedIn _ _))
      · exact h.bumping ((Bumping.noted _ _).trans (.bumpedOnly _ _))
      · exact h.bumping ((Bumping.noted _ _).trans (.counted _ _))
  | relate source relation target =>
      refine ends_relate (fun e => h) (fun _ => h) (fun sourceEntity targetEntity hadds => ?_)
      have hsource : s.world.place source = some sourceEntity.workspaceId := by
        rw [WorldModel.place, (WorldModel.get_eq_ok hadds.sourceFound).1, Option.map_some]
      have htarget : s.world.place target = some sourceEntity.workspaceId := by
        rw [WorldModel.place, (WorldModel.get_eq_ok hadds.targetFound).1, Option.map_some,
          hadds.together]
      have hrelated : Confining (s.related source relation target) := h.related hsource htarget
      exact ends_relate_adds hadds (fun _ => hrelated.bumping (.bumpedIn _ _))
        (fun _ _ _ => h.unstored hsource htarget)
        (fun _ _ _ _ => hrelated.bumping (.bumpedOnly _ _)) (fun t ht => hrelated.bumping ht)
  | restart registry capabilities broker =>
      exact Ends.modifying (h.restarted registry capabilities broker)
  | _ => rcases hon with hon | hon <;> cases hon

/-- An entity that is registered is in memory, however the call ends. -/
theorem memory_registered (env : Env) (s : Sys) (entity : Entity) :
    ((Call.register entity).exec env s).world.place = (s.world.entered entity).place ∧
      ((Call.register entity).exec env s).world.Joins = s.world.Joins := by
  have hbumping : ∀ {metadata : List (PyKey × PyVal)} {t : Sys},
      Bumping (s.entered entity metadata) t →
      t.world.place = (s.world.entered entity).place ∧ t.world.Joins = s.world.Joins := by
    intro metadata t ht
    have hentities := ht.entities
    have hrelations := ht.relations
    rw [Sys.entered_world] at hentities hrelations
    exact ⟨WorldModel.place_congr hentities, WorldModel.joins_congr hrelations⟩
  rw [Call.exec_eq]
  refine Ends.after (P := fun t : Sys => t.world.place = (s.world.entered entity).place ∧
    t.world.Joins = s.world.Joins) ?_
  exact ends_registerEntity (fun _ _ => hbumping (.bumpedIn _ _)) (fun _ _ _ => ⟨rfl, rfl⟩)
    (fun _ _ _ ht => hbumping ht)

/-- What is confined before and after a call was kept together by it. -/
theorem Call.keepsTogether_of_confined {env : Env} {s : Sys} {call : Call}
    (hbefore : s.world.Confined) (hafter : (call.exec env s).world.Confined) :
    call.KeepsTogether s := by
  cases call with
  | register entity =>
      obtain ⟨hplace, hjoins⟩ := memory_registered env s entity
      rw [WorldModel.Confined, hplace, hjoins, WorldModel.place_entered] at hafter
      exact (hbefore.moved_iff _ _).mp hafter
  | _ => trivial

/-- **Relations stay within a workspace.**  Take any run of `register`, `relate`, `observe` and
restarts on a new world, with or without a store.  If every entity is registered where its
neighbours are, and no store refuses one, then in every state of the run each edge joins two
registered entities of one workspace, in memory and in the world the store is loaded back as; and
this takes that every entity is registered where its neighbours are. -/
theorem relations_confined (env : Env) (s : Sys) (calls : List Call) (hnew : s.NewWorld)
    (hcalls : ∀ call ∈ calls, call.onWorld = true ∨ call.isRestart = true) :
    (Along env (fun s call => call.KeepsTogether s ∧ call.Storable s) s calls →
      ∀ before later, calls = before ++ later →
        (runCalls env s before).world.Confined ∧
          (runCalls env s before).db.loadWorldModel.Confined) ∧
    ((∀ before later, calls = before ++ later → (runCalls env s before).world.Confined) →
      Along env (fun s call => call.KeepsTogether s) s calls) := by
  have hrun : ∀ {calls : List Call} {s : Sys}, Confining s →
      (∀ call ∈ calls, call.onWorld = true ∨ call.isRestart = true) →
      Along env (fun s call => call.KeepsTogether s ∧ call.Storable s) s calls →
      Confining (runCalls env s calls) := by
    intro calls
    induction calls with
    | nil => exact fun h _ _ => h
    | cons call calls ih =>
        rintro s h hall ⟨⟨hkeeps, hstorable⟩, hrest⟩
        obtain ⟨hon, hall⟩ := List.forall_mem_cons.mp hall
        exact ih (h.exec hon hkeeps hstorable) hall hrest
  constructor
  · rintro hkeeps before later rfl
    have h := hrun (Confining.new hnew)
      (fun call hcall => hcalls call (List.mem_append_left _ hcall)) (along_append.mp hkeeps).1
    exact ⟨h.here, h.loaded⟩
  · intro hconfined
    refine along_iff.mpr (fun before call later hsplit => ?_)
    have hafter : (call.exec env (runCalls env s before)).world.Confined := by
      rw [← runCalls_concat]
      exact hconfined (before ++ [call]) later
        (by rw [hsplit, List.append_assoc, List.singleton_append])
    exact Call.keepsTogether_of_confined (hconfined before _ hsplit) hafter

/-- Two documents of one workspace are related. -/
def linked : List Call :=
  [.register (roamer "a"), .register { roamer "a" with entityId := "page" },
    .relate "doc" "part_of" "page"]

/-- They are in one workspace, in memory and in the loaded world. -/
theorem relations_confined_linked :
    (runCalls Small.env { persistent := true } linked).world.Confined ∧
      (runCalls Small.env { persistent := true } linked).db.loadWorldModel.Confined := by
  have hcalls : ∀ call ∈ linked, call.onWorld = true ∨ call.isRestart = true := by decide
  have halong : Along Small.env (fun s call => call.KeepsTogether s ∧ call.Storable s)
      { persistent := true } linked := by
    refine ⟨⟨?_, fun _ => Or.inl rfl⟩, ⟨?_, fun _ => Or.inl rfl⟩, ⟨trivial, trivial⟩, trivial⟩
    · rintro b - (⟨relation, hedge⟩ | ⟨relation, hedge⟩) <;> cases hedge
    · rintro b - (⟨relation, hedge⟩ | ⟨relation, hedge⟩) <;> cases hedge
  exact (relations_confined Small.env { persistent := true } linked ⟨rfl, rfl⟩ hcalls).1 halong
    linked [] rfl

/-- One of them moves to another workspace, and the edge stays. -/
theorem relations_confined_fails :
    ¬ (runCalls Small.env { persistent := true }
      (linked ++ [.register (roamer "b")])).world.Confined := by
  intro hconfined
  obtain ⟨p, hdoc, hpage⟩ := hconfined "doc" "page" ⟨"part_of", by decide +kernel⟩
  have hsplit : (runCalls Small.env { persistent := true }
      (linked ++ [.register (roamer "b")])).world.place "doc" ≠
      (runCalls Small.env { persistent := true }
        (linked ++ [.register (roamer "b")])).world.place "page" := by decide +kernel
  exact hsplit (hdoc.trans hpage.symm)

end LiandanluNative
