/-
# LiandanluNative.World — the world model of `world.py` and its reads.

The checks that an operation passes before it may touch anything: which entity an object reference
names, whether the workspace may use it, and whether the world still stands at the revisions a
decision was made on.  Each check comes with the lemma that says what passing it means.
-/
import LiandanluNative.Storage.Database

namespace LiandanluNative

open Lib (Table)

structure Observation where
  source : String
  type : String
  value : PyVal
  workspaceId : Option String

/-- The in-memory world. `relations` maps a source to its edges, a relation and a target each. -/
structure WorldModel where
  revisions : WorldRevisions := {}
  entities : Table Entity.entityId := .empty
  relations : Table (Prod.fst : String × List (String × String) → String) := .empty
  workspaceRevisions : Table (Prod.fst : String × Int → String) := .empty
  observations : List Observation := []

namespace WorldModel

/-- `workspace_revision` -/
def workspaceRevision (world : WorldModel) (workspaceId : String) : Int :=
  match world.workspaceRevisions.get? workspaceId with
  | none => 0
  | some entry => entry.2

/-- `get` -/
def get (world : WorldModel) (ref : String) (expectedVersion : Option Int) : Except Exc Entity :=
  match world.entities.get? ref with
  | none => .error ⟨.unknownObject, ref⟩
  | some entity =>
      if entity.status ≠ "active" then
        .error ⟨.unknownObject, ref ++ " is " ++ entity.status⟩
      else
        match expectedVersion with
        | none => .ok entity
        | some version =>
            if entity.version ≠ version then
              .error ⟨.entityVersionConflict,
                ref ++ ": expected " ++ toString version ++ ", actual " ++ toString entity.version⟩
            else
              .ok entity

/-- `assert_access` -/
def assertAccess (world : WorldModel) (ref permission workspaceId : String) : Except Exc Entity :=
  match world.get ref none with
  | .error e => .error e
  | .ok entity =>
      if entity.workspaceId ≠ workspaceId then
        .error ⟨.permissionError,
          ref ++ " belongs to workspace " ++ entity.workspaceId ++ ", not " ++ workspaceId⟩
      else if permission ∉ entity.permissions then
        .error ⟨.permissionError, ref ++ " lacks " ++ permission⟩
      else
        .ok entity

/-- `resolve_locator` -/
def resolveLocator (world : WorldModel) (ref permission : String) (workspaceId : Option String) :
    Except Exc String :=
  match workspaceId with
  | none =>
      match world.get ref none with
      | .error e => .error e
      | .ok entity =>
          if permission ∉ entity.permissions then
            .error ⟨.permissionError, ref ++ " lacks " ++ permission⟩
          else
            .ok entity.locator
  | some workspaceId =>
      match world.assertAccess ref permission workspaceId with
      | .error e => .error e
      | .ok entity => .ok entity.locator

/-- `tuple(resolve_locator(ref, …) for ref in refs)` -/
def resolveLocators (world : WorldModel) (permission workspaceId : String) :
    List String → Except Exc (List String)
  | [] => .ok []
  | ref :: refs =>
      match world.resolveLocator ref permission (some workspaceId) with
      | .error e => .error e
      | .ok locator =>
          match world.resolveLocators permission workspaceId refs with
          | .error e => .error e
          | .ok locators => .ok (locator :: locators)

/-- `for ref in refs: assert_access(ref, …)` -/
def assertAccessAll (world : WorldModel) (permission workspaceId : String) :
    List String → Except Exc Unit
  | [] => .ok ()
  | ref :: refs =>
      match world.assertAccess ref permission workspaceId with
      | .error e => .error e
      | .ok _ => world.assertAccessAll permission workspaceId refs

/-- The current value a domain is compared by. -/
def currentRevision (world : WorldModel) (domain : String) (workspaceId : Option String) :
    Except Exc RevisionAttr :=
  if domain = "workspace" then
    match workspaceId with
    | none =>
        .error ⟨.valueError, "workspace_id is required for workspace revision checks"⟩
    | some workspaceId => .ok (.counter (world.workspaceRevision workspaceId))
  else
    match world.revisions.attr domain with
    | .missing => .error ⟨.keyError, domain⟩
    | actual => .ok actual

/-- What an f-string prints of a revision. -/
def revisionText : RevisionAttr → String
  | .counter value => toString value
  | .other => "<attribute>"
  | .missing => ""

/-- `assert_revisions` -/
def assertRevisions (world : WorldModel) (workspaceId : Option String) :
    List (String × Int) → Except Exc Unit
  | [] => .ok ()
  | (domain, value) :: expected =>
      match world.currentRevision domain workspaceId with
      | .error e => .error e
      | .ok actual =>
          if actual ≠ .counter value then
            .error ⟨.staleWorld,
              domain ++ ": expected " ++ toString value ++ ", actual " ++ revisionText actual⟩
          else
            world.assertRevisions workspaceId expected

/-! ## What passing a check means

Each check as a fact about the world: which entity it found, what that grants, and at which
revision.
-/

/-- The reference names an active entity of the workspace that grants the permission. -/
def Grants (world : WorldModel) (workspaceId permission ref : String) (entity : Entity) : Prop :=
  world.entities.get? ref = some entity ∧ entity.status = "active" ∧
    entity.workspaceId = workspaceId ∧ permission ∈ entity.permissions

theorem get_eq_ok {world : WorldModel} {ref : String} {entity : Entity}
    (h : world.get ref none = .ok entity) :
    world.entities.get? ref = some entity ∧ entity.status = "active" := by
  unfold get at h
  split at h
  · cases h
  · rename_i found hfound
    split at h
    · cases h
    · rename_i hactive
      cases h
      exact ⟨hfound, not_not.mp hactive⟩

theorem assertAccess_eq_ok {world : WorldModel} {ref permission workspaceId : String}
    {entity : Entity} (h : world.assertAccess ref permission workspaceId = .ok entity) :
    world.Grants workspaceId permission ref entity := by
  unfold assertAccess at h
  split at h
  · cases h
  · rename_i found hfound
    obtain ⟨hentity, hactive⟩ := get_eq_ok hfound
    split at h
    · cases h
    · rename_i hworkspace
      split at h
      · cases h
      · rename_i hpermission
        cases h
        exact ⟨hentity, hactive, not_not.mp hworkspace, not_not.mp hpermission⟩

/-- The locators are those of the entities the references name, in order. -/
theorem resolveLocators_eq_ok {world : WorldModel} {permission workspaceId : String} :
    ∀ {refs locators : List String},
      world.resolveLocators permission workspaceId refs = .ok locators →
      List.Forall₂ (fun ref locator => ∃ entity,
        world.Grants workspaceId permission ref entity ∧ locator = entity.locator) refs locators
  | [], locators, h => by
      cases h
      exact .nil
  | ref :: refs, locators, h => by
      rw [resolveLocators] at h
      split at h
      · cases h
      · rename_i locator hlocator
        split at h
        · cases h
        · rename_i rest hrest
          cases h
          refine .cons ?_ (resolveLocators_eq_ok hrest)
          simp only [resolveLocator] at hlocator
          split at hlocator
          · cases hlocator
          · rename_i entity haccess
            cases hlocator
            exact ⟨entity, assertAccess_eq_ok haccess, rfl⟩

/-- The domain stands at the given revision, the workspace domain being read per workspace. -/
def AtRevision (world : WorldModel) (workspaceId domain : String) (value : Int) : Prop :=
  world.currentRevision domain (some workspaceId) = .ok (.counter value)

theorem assertRevisions_eq_ok {world : WorldModel} {workspaceId : String} :
    ∀ {expected : List (String × Int)},
      world.assertRevisions (some workspaceId) expected = .ok () →
      ∀ entry ∈ expected, world.AtRevision workspaceId entry.1 entry.2
  | [], _ => fun entry hentry => absurd hentry List.not_mem_nil
  | (domain, value) :: expected, h => by
      rw [assertRevisions] at h
      split at h
      · cases h
      · rename_i actual hactual
        split at h
        · cases h
        · rename_i hvalue
          intro entry hentry
          rcases List.mem_cons.mp hentry with rfl | hentry
          · exact hactual.trans (congrArg Except.ok (not_not.mp hvalue))
          · exact assertRevisions_eq_ok h entry hentry

end WorldModel

/-! ## Loading -/

/-- `relations.setdefault(source, []).append((relation, target))` -/
def WorldModel.addEdge (relations : Table (Prod.fst : String × List (String × String) → String))
    (source relation target : String) :
    Table (Prod.fst : String × List (String × String) → String) :=
  match relations.get? source with
  | none => relations.put (source, [(relation, target)])
  | some (_, edges) => relations.put (source, edges ++ [(relation, target)])

/-- What opening a store does to it, at the end of `_migrate`: a workspace that has entities and no
revision is given one. -/
def Database.reopened (db : Database) : Database :=
  { db with
    workspaceRevisions := db.worldEntities.rows.foldl
      (fun revisions entity =>
        revisions.putNew (entity.workspaceId, (db.worldRevisions.getD {}).workspace))
      db.workspaceRevisions }

/-- `load_world_model` -/
def Database.loadWorldModel (db : Database) : WorldModel where
  revisions := db.worldRevisions.getD {}
  entities := db.worldEntities
  relations := db.worldRelations.rows.foldl
    (fun relations row => WorldModel.addEdge relations row.1 row.2.1 row.2.2) .empty
  workspaceRevisions := db.workspaceRevisions
  observations := []

end LiandanluNative
