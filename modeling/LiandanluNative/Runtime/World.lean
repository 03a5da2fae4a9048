/-
# LiandanluNative.Runtime.World — the methods of `world.py` that change the world.

Each writes through to the store as it goes: a failure part of the way leaves what was done before
it.

The order of the writes matters where one of them fails.  A registered entity is in memory before
its row is saved, an observation is in the list before its domain is looked at, and the counters are
raised before they are stored; a call that raises in between has done the first part.
-/
import LiandanluNative.System

namespace LiandanluNative

open Lib (Table)

/-- `bump(domain)` -/
def WorldRevisions.bump (r : WorldRevisions) (domain : String) : Except Exc WorldRevisions :=
  let bumped := { r with globalRevision := r.globalRevision + 1 }
  if domain = "desktop" then .ok { bumped with desktop := r.desktop + 1 }
  else if domain = "workspace" then .ok { bumped with workspace := r.workspace + 1 }
  else if domain = "browser" then .ok { bumped with browser := r.browser + 1 }
  else if domain = "media" then .ok { bumped with media := r.media + 1 }
  else if domain = "tasks" then .ok { bumped with tasks := r.tasks + 1 }
  else if domain = "global_revision" then .error ⟨.keyError, domain⟩
  else if domain ∈ WorldRevisions.otherAttrs then
    .error ⟨.typeError, "unsupported operand type(s) for +"⟩
  else .error ⟨.keyError, domain⟩

/-- Change the world in memory. -/
def modifyWorld (f : WorldModel → WorldModel) : M Unit :=
  modify fun s => { s with world := f s.world }

section

variable (env : Env)

/-- `if self.persistence: …`: a write of its own, in a transaction of its own. -/
def persisting {α : Type} (txn : Sys → Txn α) : M Unit := do
  let s ← get
  if s.persistent then
    let _ ← store env (txn s)
    pure ()
  else
    pure ()

/-- `_persist_revisions` -/
def persistRevisions : M Unit := persisting env fun s => saveWorldRevisions s.world.revisions

/-- `_bump_workspace`: three counters in memory, and then two writes, of the workspace and of the
counters. -/
def bumpWorkspace (workspaceId : String) : M Unit := do
  let s ← get
  let revision := s.world.workspaceRevision workspaceId + 1
  modifyWorld fun world =>
    { world with
      workspaceRevisions := world.workspaceRevisions.put (workspaceId, revision)
      revisions :=
        { world.revisions with
          workspace := world.revisions.workspace + 1
          globalRevision := world.revisions.globalRevision + 1 } }
  persisting env fun _ => saveWorkspaceRevision workspaceId revision
  persistRevisions env

/-- `register`: an entity that is registered again is replaced, whatever its workspace. -/
def registerEntity (entity : Entity) : M Unit := do
  modifyWorld fun world => { world with entities := world.entities.put entity }
  persisting env fun _ => saveWorldEntity entity
  bumpWorkspace env entity.workspaceId

/-- `observe`.  A domain that is not a workspace's is bumped by its name, whatever workspace is
given. -/
def observe (source observationType : String) (value : PyVal) (domain : String)
    (workspaceId : Option String) : M Unit := do
  modifyWorld fun world =>
    { world with
      observations := world.observations ++ [⟨source, observationType, value, workspaceId⟩] }
  if domain = "workspace" then
    match workspaceId with
    | none => raise ⟨.valueError, "workspace_id is required for workspace observations"⟩
    | some workspaceId => bumpWorkspace env workspaceId
  else
    let s ← get
    let revisions ← liftExcept (s.world.revisions.bump domain)
    modifyWorld fun world => { world with revisions := revisions }
    persistRevisions env

/-- The edges of a source, in the order in which they were related. -/
def WorldModel.edgesOf (world : WorldModel) (source : String) : List (String × String) :=
  match world.relations.get? source with
  | none => []
  | some entry => entry.2

/-- `relate`: both ends have to be known, active and of one workspace; an edge that is there already
changes nothing. -/
def relate (source relation target : String) : M Unit := do
  let s ← get
  let sourceEntity ← liftExcept (s.world.get source none)
  let targetEntity ← liftExcept (s.world.get target none)
  if sourceEntity.workspaceId ≠ targetEntity.workspaceId then
    raise ⟨.permissionError, "cross-workspace object relations require an explicit bridge"⟩
  else if (relation, target) ∈ s.world.edgesOf source then
    pure ()
  else
    modifyWorld fun world =>
      { world with relations := WorldModel.addEdge world.relations source relation target }
    persisting env fun _ => saveWorldRelation source relation target
    bumpWorkspace env sourceEntity.workspaceId

end

end LiandanluNative
