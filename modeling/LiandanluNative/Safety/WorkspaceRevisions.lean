/-
# LiandanluNative.Safety.WorkspaceRevisions — what an unchanged workspace revision means.

A decision is checked for staleness by the revision of its workspace.  `observe` and `relate` bump
the revision of every workspace they change.  `register` bumps the workspace the entity is in
afterwards only: an entity that comes from another workspace leaves it unnoticed, and an entity or
an edge the store refuses stands in memory without any bump.  Where none of this happens, revisions
track contents (`Lib.Tracks`).
-/
import LiandanluNative.Lib.Versions
import LiandanluNative.Runtime.Upkeep
import LiandanluNative.Runtime.WorldEnds
import Mathlib.Data.Set.Basic

namespace LiandanluNative

open Lib (Table Tracks)
open Lib.Proc

/-! ## The contents of a workspace -/

/-- The entities of a workspace, and the edges whose source is one of them. -/
def WorldModel.contents (world : WorldModel) (workspaceId : String) :
    Set Entity × Set (String × String × String) :=
  ({entity | world.entities.get? entity.entityId = some entity ∧ entity.workspaceId = workspaceId},
    {edge | edge.2 ∈ world.edgesOf edge.1 ∧
      ∃ entity, world.entities.get? edge.1 = some entity ∧ entity.workspaceId = workspaceId})

/-- Workspace revisions track the contents of workspaces. -/
abbrev WorldModel.Tracked (v w : WorldModel) : Prop :=
  Tracks WorldModel.workspaceRevision WorldModel.contents v w

namespace WorldModel

variable {v w : WorldModel} {workspaceId : String}

/-- The contents depend on which entities the workspace has and on their edges. -/
theorem contents_congr
    (hentities : ∀ id entity, entity.workspaceId = workspaceId →
      (w.entities.get? id = some entity ↔ v.entities.get? id = some entity))
    (hedges : ∀ source entity, v.entities.get? source = some entity →
      entity.workspaceId = workspaceId → ∀ edge, edge ∈ w.edgesOf source ↔ edge ∈ v.edgesOf source) :
    w.contents workspaceId = v.contents workspaceId := by
  refine Prod.ext (Set.ext fun entity => ?_) (Set.ext fun edge => ?_)
  · exact and_congr_left (fun hworkspace => hentities _ entity hworkspace)
  · constructor
    · rintro ⟨hedge, entity, hget, hworkspace⟩
      have hold := (hentities _ entity hworkspace).mp hget
      exact ⟨(hedges _ entity hold hworkspace _).mp hedge, entity, hold, hworkspace⟩
    · rintro ⟨hedge, entity, hget, hworkspace⟩
      have hnew := (hentities _ entity hworkspace).mpr hget
      exact ⟨(hedges _ entity hget hworkspace _).mpr hedge, entity, hnew, hworkspace⟩

/-- A bump after a change within its workspace. -/
theorem Tracked.bumped (hrevisions : w.workspaceRevisions = v.workspaceRevisions)
    (hother : ∀ other, other ≠ workspaceId → w.contents other = v.contents other) :
    v.Tracked (w.bumped workspaceId) := by
  have hsame : ∀ other, w.workspaceRevision other = v.workspaceRevision other := by
    intro other
    unfold workspaceRevision
    rw [hrevisions]
  refine Tracks.of_raised workspaceId ?_ (fun other hne => ⟨?_, hother other hne⟩)
  · rw [workspaceRevision_bumped, if_pos rfl, hsame]
    exact lt_add_one _
  · rw [workspaceRevision_bumped, if_neg (Ne.symm hne), hsame]

/-- Registering within a workspace. -/
theorem Tracked.register {entity : Entity}
    (hstays : ∀ old, v.entities.get? entity.entityId = some old →
      old.workspaceId = entity.workspaceId) :
    v.Tracked ((v.entered entity).bumped entity.workspaceId) := by
  refine Tracked.bumped rfl (fun other hne => contents_congr ?_ (fun _ _ _ _ _ => Iff.rfl))
  intro id entity' hworkspace
  show (v.entities.put entity).get? id = some entity' ↔ _
  rw [Table.get?_put]
  split
  · rename_i hid
    subst hid
    constructor
    · rintro ⟨⟩
      exact absurd hworkspace.symm hne
    · intro hold
      exact absurd ((hstays entity' hold).symm.trans hworkspace).symm hne
  · exact Iff.rfl

/-- Relating changes the workspace of the source only. -/
theorem Tracked.relate {source relation target : String} {entity : Entity}
    (hsource : v.entities.get? source = some entity) :
    v.Tracked ((v.related source relation target).bumped entity.workspaceId) := by
  refine Tracked.bumped rfl (fun other hne => contents_congr (fun _ _ _ => Iff.rfl) ?_)
  intro id entity' hget hworkspace edge
  rw [mem_edgesOf_related]
  refine or_iff_right ?_
  rintro ⟨⟩
  cases hsource.symm.trans hget
  exact hne hworkspace.symm

end WorldModel

/-! ## Calls and runs -/

/-- `register`, `relate` or `observe`. -/
def Call.onWorld : Call → Bool
  | .register _ => true
  | .observe _ _ _ _ _ => true
  | .relate _ _ _ => true
  | _ => false

/-- An entity is not registered away from its workspace; and where there is a store, the store takes
the entity, or it is registered already, just as it is, and the store takes the edge that is added.
-/
def Call.KeepsPlaces (s : Sys) : Call → Prop
  | .register entity =>
      (∀ old, s.world.entities.get? entity.entityId = some old →
        old.workspaceId = entity.workspaceId) ∧
      (s.persistent = true → entity.storedMetadata.isSome = true ∨
        s.world.entities.get? entity.entityId = some entity)
  | .relate source relation target =>
      s.persistent = true → ∀ sourceEntity targetEntity,
        s.world.AddsEdge source relation target sourceEntity targetEntity →
        Bindable [.text source, .text relation, .text target]
  | _ => True

/-- **What a call does to revisions and contents**, if the process lives. -/
theorem Call.tracked {env : Env} {s : Sys} {call : Call} (hon : call.onWorld = true)
    (hkeeps : call.KeepsPlaces s) (hlived : call.died env s = false) :
    s.world.Tracked (call.exec env s).world := by
  have hends : Ends (fun _ t => s.world.Tracked t.world)
      (Left (fun t => s.world.Tracked t.world) (fun _ => True)) (call.proc env) s := by
    cases call with
    | register entity =>
        -- the entity stays in its workspace, whose revision is bumped
        obtain ⟨hstays, hstored⟩ := hkeeps
        refine ends_registerEntity (fun metadata _ => ?_) (fun hpersistent hnone e => ?_)
          (fun _ _ _ _ => trivial)
        · rw [Sys.bumpedIn_world, Sys.entered_world]
          exact WorldModel.Tracked.register hstays
        · -- the store refuses, and memory had the entity already
          have hsame := (hstored hpersistent).resolve_left (by rw [hnone]; exact Bool.false_ne_true)
          refine Tracks.of_eq rfl (funext fun other => ?_)
          refine WorldModel.contents_congr (fun id _ _ => ?_) (fun _ _ _ _ _ => Iff.rfl)
          show (s.world.entities.put entity).get? id = _ ↔ _
          rw [Table.get?_put]
          split
          · rename_i hid
            rw [← hid, hsame]
          · exact Iff.rfl
    | observe source observationType value domain workspaceId =>
        refine ends_observe (fun e => Tracks.of_eq rfl rfl) (fun id _ => ?_) (fun id _ _ _ _ e => ?_)
          (fun revisions _ _ => ?_) (fun _ _ => trivial)
        · rw [Sys.bumpedIn_world]
          exact WorldModel.Tracked.bumped rfl (fun _ _ => rfl)
        · -- the bump is in memory, where the store refuses it
          exact WorldModel.Tracked.bumped rfl (fun _ _ => rfl)
        · rw [Sys.counted_world]
          exact Tracks.of_eq rfl rfl
    | relate source relation target =>
        refine ends_relate (fun e => Tracks.refl _) (fun _ => Tracks.refl _)
          (fun sourceEntity targetEntity hadds => ?_)
        -- the edge counts for the workspace of its source, which is bumped
        have hsource := (WorldModel.get_eq_ok hadds.sourceFound).1
        refine ends_relate_adds hadds (fun _ => ?_) (fun hpersistent hrefused => ?_)
          (fun _ _ _ e => ?_) (fun _ _ => trivial)
        · rw [Sys.bumpedIn_world, Sys.related_world]
          exact WorldModel.Tracked.relate hsource
        · exact absurd (hkeeps hpersistent sourceEntity targetEntity hadds) hrefused
        · show s.world.Tracked ((s.related source relation target).world.bumped _)
          rw [Sys.related_world]
          exact WorldModel.Tracked.relate hsource
    | _ => cases hon
  exact Call.exec_of_lived hends hlived

/-- A registration enters the entity, and bumps its workspace if the store takes the entity. -/
theorem Call.exec_register {env : Env} {s : Sys} {entity : Entity}
    (hlived : (Call.register entity).died env s = false) :
    ((Call.register entity).exec env s).world = (s.world.entered entity).bumped entity.workspaceId ∧
        (s.persistent = true → entity.storedMetadata.isSome = true) ∨
      ((Call.register entity).exec env s).world = s.world.entered entity := by
  refine Call.exec_of_lived (I := fun t =>
      t.world = (s.world.entered entity).bumped entity.workspaceId ∧
        (s.persistent = true → entity.storedMetadata.isSome = true) ∨
      t.world = s.world.entered entity) (D := fun _ => True) ?_ hlived
  refine ends_registerEntity (fun metadata hstored => Or.inl ⟨?_, fun hpersistent => ?_⟩)
    (fun _ _ _ => Or.inr rfl) (fun _ _ _ _ => trivial)
  · rw [Sys.bumpedIn_world, Sys.entered_world]
  · rw [hstored hpersistent]
    rfl

/-- An edge that the store refuses is added in memory, without a bump. -/
theorem Call.exec_relate_refused {env : Env} {s : Sys} {source relation target : String}
    {sourceEntity targetEntity : Entity} (hpersistent : s.persistent = true)
    (hadds : s.world.AddsEdge source relation target sourceEntity targetEntity)
    (hrefused : ¬ Bindable [.text source, .text relation, .text target])
    (hlived : (Call.relate source relation target).died env s = false) :
    ((Call.relate source relation target).exec env s).world
      = s.world.related source relation target := by
  refine Call.exec_of_lived (I := fun t => t.world = s.world.related source relation target)
    (D := fun _ => True) ?_ hlived
  exact ends_relate_adds hadds (fun hstored => absurd (hstored hpersistent) hrefused)
    (fun _ _ _ => rfl) (fun _ hstored => absurd hstored hrefused) (fun _ _ => trivial)

/-- It leaves the other workspaces their revisions. -/
theorem Call.revisions_register {env : Env} {s : Sys} {entity : Entity}
    (hlived : (Call.register entity).died env s = false) :
    ((Call.register entity).exec env s).world.entities = s.world.entities.put entity ∧
      ∀ other, other ≠ entity.workspaceId →
        ((Call.register entity).exec env s).world.workspaceRevision other
          = s.world.workspaceRevision other := by
  rcases Call.exec_register hlived with ⟨hworld, _⟩ | hworld
  · rw [hworld]
    refine ⟨rfl, fun other hne => ?_⟩
    rw [WorldModel.workspaceRevision_bumped, if_neg (Ne.symm hne)]
    rfl
  · rw [hworld]
    exact ⟨rfl, fun _ _ => rfl⟩

/-- Registering an entity away from its workspace, and registering or relating what the store
refuses, change contents and not their revision. -/
theorem Call.keepsPlaces_of_unchanged {env : Env} {s : Sys} {call : Call}
    (hunchanged : ∀ workspaceId, (call.exec env s).world.workspaceRevision workspaceId
        = s.world.workspaceRevision workspaceId →
      (call.exec env s).world.contents workspaceId = s.world.contents workspaceId)
    (hlived : call.died env s = false) : call.KeepsPlaces s := by
  cases call with
  | register entity =>
      obtain ⟨hentities, hrevision⟩ := Call.revisions_register hlived
      refine ⟨fun old hold => ?_, fun hpersistent => ?_⟩
      · -- the workspace the entity left has its revision, and no longer the entity
        by_contra hne
        have hid : old.entityId = entity.entityId := Table.key_of_get? hold
        have hcontents := hunchanged old.workspaceId (hrevision old.workspaceId hne)
        have hbefore : old ∈ (s.world.contents old.workspaceId).1 := ⟨hid ▸ hold, rfl⟩
        rw [← hcontents] at hbefore
        have hafter := hbefore.1
        rw [hentities, Table.get?_put, if_pos hid.symm] at hafter
        cases hafter
        exact hne rfl
      · rcases Call.exec_register hlived with ⟨_, hjson⟩ | hworld
        · exact Or.inl (hjson hpersistent)
        · -- nothing was bumped, so the entity must have been there
          right
          have hcontents := hunchanged entity.workspaceId (by rw [hworld]; rfl)
          have hafter : entity ∈
              (((Call.register entity).exec env s).world.contents entity.workspaceId).1 := by
            refine ⟨?_, rfl⟩
            rw [hentities, Table.get?_put_self]
          rw [hcontents] at hafter
          exact hafter.1
  | relate source relation target =>
      intro hpersistent sourceEntity targetEntity hadds
      by_contra hrefused
      have hworld := Call.exec_relate_refused hpersistent hadds hrefused hlived
      have hsource := (WorldModel.get_eq_ok hadds.sourceFound).1
      have hcontents := hunchanged sourceEntity.workspaceId (by rw [hworld]; rfl)
      have hafter : (source, relation, target) ∈
          (((Call.relate source relation target).exec env s).world.contents
            sourceEntity.workspaceId).2 := by
        rw [hworld]
        exact ⟨(WorldModel.mem_edgesOf_related ..).mpr (Or.inl rfl), sourceEntity, hsource, rfl⟩
      -- the edge was new
      rw [hcontents] at hafter
      exact hadds.new hafter.1
  | _ => trivial

/-- Over a run in which nothing is registered away, revisions track contents. -/
theorem tracked_run {env : Env} {calls : List Call} : ∀ {s : Sys},
    Along env (fun s call => call.onWorld = true ∧ call.died env s = false) s calls →
    Along env (fun s call => call.KeepsPlaces s) s calls →
    s.world.Tracked (runCalls env s calls).world := by
  induction calls with
  | nil => exact fun _ _ => Tracks.refl _
  | cons call calls ih =>
      rintro s ⟨⟨hon, hlived⟩, hrun⟩ ⟨hkeeps, hplaces⟩
      exact (Call.tracked hon hkeeps hlived).trans (ih hrun hplaces)

/-- **Unchanged revisions.**  Take any run of `register`, `relate` and `observe`, on any world, with
or without a store, in which the process lives.  An unchanged workspace revision means unchanged
contents between any two states of the run if and only if no call of it registers an entity away
from its workspace, or registers or relates what the store refuses. -/
theorem unchanged_revision_iff (env : Env) (s : Sys) (calls : List Call)
    (hrun : Along env (fun s call => call.onWorld = true ∧ call.died env s = false) s calls) :
    (∀ before later rest, calls = before ++ later ++ rest → ∀ workspaceId,
      (runCalls env s (before ++ later)).world.workspaceRevision workspaceId
        = (runCalls env s before).world.workspaceRevision workspaceId →
      (runCalls env s (before ++ later)).world.contents workspaceId
        = (runCalls env s before).world.contents workspaceId) ↔
      Along env (fun s call => call.KeepsPlaces s) s calls := by
  have hsplit : ∀ before later, runCalls env s (before ++ later)
      = runCalls env (runCalls env s before) later := fun _ _ => List.foldl_append
  constructor
  · intro h
    refine along_iff.mpr (fun before call later hcalls => ?_)
    refine Call.keepsPlaces_of_unchanged (fun workspaceId hrevision => ?_)
      (along_iff.mp hrun before call later hcalls).2
    rw [← runCalls_concat] at hrevision ⊢
    refine h before [call] later ?_ workspaceId hrevision
    rw [hcalls, List.append_assoc, List.singleton_append]
  · intro hplaces before later rest hcalls workspaceId hrevision
    subst hcalls
    rw [hsplit] at hrevision ⊢
    rw [List.append_assoc, along_append, along_append] at hrun hplaces
    exact (tracked_run hrun.2.1 hplaces.2.1).same workspaceId hrevision

/-- A document, in a workspace. -/
def roamer (workspaceId : String) : Entity :=
  { entityId := "doc", entityType := "file", workspaceId := workspaceId, locator := "/srv/doc" }

/-- The document is observed after it was registered. -/
def seen : List Call :=
  [.register (roamer "a"), .observe "user" "focus" .none "desktop" none]

theorem unchanged_revision_seen :
    (runCalls Small.env { persistent := true } seen).world.contents "a"
      = (runCalls Small.env { persistent := true } [.register (roamer "a")]).world.contents "a" := by
  have hrun : Along Small.env (fun s call => call.onWorld = true ∧ call.died Small.env s = false)
      { persistent := true } seen := by
    refine ⟨⟨rfl, ?_⟩, ⟨rfl, ?_⟩, trivial⟩ <;> decide +kernel
  have hplaces : Along Small.env (fun s call => call.KeepsPlaces s) { persistent := true } seen := by
    refine ⟨⟨fun old hold => ?_, fun _ => Or.inl rfl⟩, trivial, trivial⟩
    exact absurd hold (Option.some_ne_none old).symm
  exact (unchanged_revision_iff Small.env { persistent := true } seen hrun).mpr hplaces
    [.register (roamer "a")] [.observe "user" "focus" .none "desktop" none] [] rfl "a"
    (by decide +kernel)

/-- The document moves to another workspace. -/
theorem unchanged_revision_fails :
    let arrived := (runCalls Small.env { persistent := true } [.register (roamer "a")]).world
    let moved := (runCalls Small.env { persistent := true }
      [.register (roamer "a"), .register (roamer "b")]).world
    moved.workspaceRevision "a" = arrived.workspaceRevision "a" ∧
      moved.contents "a" ≠ arrived.contents "a" := by
  intro arrived moved
  refine ⟨by decide +kernel, fun heq => ?_⟩
  have hbefore : roamer "a" ∈ (arrived.contents "a").1 := ⟨rfl, rfl⟩
  rw [← heq] at hbefore
  have hmoved : moved.entities.get? "doc" = some (roamer "b") := rfl
  have hplace := congrArg (fun entity => entity.map Entity.workspaceId)
    (hbefore.1.symm.trans hmoved)
  revert hplace
  decide

end LiandanluNative
