/-
# LiandanluNative.Runtime.Manifest — `build_manifest` of `context.py`.

A manifest records the revisions the world is at when it is built: those of five domains, and that
of the workspace of the task.
-/
import LiandanluNative.Runtime.Agent

namespace LiandanluNative

open Lib.Proc

/-- The domains whose revisions a manifest records. -/
def manifestDomains : List String :=
  ["global_revision", "desktop", "workspace", "browser", "media", "tasks"]

/-- `world_revisions` -/
def WorldModel.manifestRevisions (world : WorldModel) (workspaceId : String) :
    List (String × Int) :=
  [("global_revision", world.revisions.globalRevision), ("desktop", world.revisions.desktop),
    ("workspace", world.workspaceRevision workspaceId), ("browser", world.revisions.browser),
    ("media", world.revisions.media), ("tasks", world.revisions.tasks)]

/-- A manifest that has every domain of an action says what it expects of each. -/
theorem ContextManifest.expected_of {manifest : ContextManifest} {domains : List String}
    (h : ∀ domain ∈ domains, ∃ value, manifest.revision? domain = some value) :
    ∃ expected, manifest.expected domains = .ok expected ∧
      ∀ entry ∈ expected, entry.1 ∈ domains ∧ manifest.revision? entry.1 = some entry.2 := by
  induction domains with
  | nil => exact ⟨[], rfl, nofun⟩
  | cons domain domains ih =>
      obtain ⟨value, hvalue⟩ := h domain List.mem_cons_self
      obtain ⟨expected, hexpected, hentries⟩ :=
        ih (fun later hlater => h later (List.mem_cons_of_mem _ hlater))
      refine ⟨(domain, value) :: expected, ?_, ?_⟩
      · simp only [ContextManifest.expected, hvalue, hexpected]
      · rintro entry hentry
        rcases List.mem_cons.mp hentry with rfl | hentry
        · exact ⟨List.mem_cons_self, hvalue⟩
        · obtain ⟨hdomain, hrevision⟩ := hentries entry hentry
          exact ⟨List.mem_cons_of_mem _ hdomain, hrevision⟩

/-- `build_manifest` -/
def buildManifest (env : Env) (task : Task) (referents : ReferentStack)
    (focus factRefs episodeRefs strategyRefs : List String) (eventRange : Option Int × Option Int)
    (brainSnapshotRef : Option String) (excluded : List (String × String)) :
    M ContextManifest := do
  let manifestId ← newId env "ctx"
  let s ← get
  return {
    manifestId := manifestId
    taskId := task.taskId
    workspaceId := task.workspaceId
    worldRevisions := s.world.manifestRevisions task.workspaceId
    focusObjectRefs := focus
    referentRefs := (referents.items.take 8).map Referent.objectRef
    factMemoryRefs := factRefs
    episodeMemoryRefs := episodeRefs
    strategyMemoryRefs := strategyRefs
    recentEventFrom := eventRange.1
    recentEventTo := eventRange.2
    brainSnapshotRef := brainSnapshotRef
    constraints := task.constraints
    successCriteria := task.successCriteria
    excluded := excluded }

/-- The manifest was just built for the task: it is the one `build_manifest` has returned into this
state. -/
def BuiltFor (env : Env) (manifest : ContextManifest) (task : Task) (s : Sys) : Prop :=
  ∃ referents focus factRefs episodeRefs strategyRefs eventRange brainSnapshotRef excluded s₀,
    buildManifest env task referents focus factRefs episodeRefs strategyRefs eventRange
      brainSnapshotRef excluded s₀ = .ok manifest s

section

variable {env : Env} {manifest : ContextManifest} {task : Task} {s : Sys}

theorem BuiltFor.workspaceId (h : BuiltFor env manifest task s) :
    manifest.workspaceId = task.workspaceId := by
  obtain ⟨_, _, _, _, _, _, _, _, s₀, hbuilt⟩ := h
  cases hbuilt
  rfl

/-- A manifest that was just built has the world as it is. -/
theorem BuiltFor.worldRevisions (h : BuiltFor env manifest task s) :
    manifest.worldRevisions = s.world.manifestRevisions task.workspaceId := by
  obtain ⟨_, _, _, _, _, _, _, _, s₀, hbuilt⟩ := h
  cases hbuilt
  rfl

/-- It has every domain it records, at the revision it is at. -/
theorem BuiltFor.revision? (h : BuiltFor env manifest task s) {domain : String}
    (hdomain : domain ∈ manifestDomains) : ∃ value, manifest.revision? domain = some value ∧
      s.world.AtRevision task.workspaceId domain value := by
  unfold ContextManifest.revision?
  rw [h.worldRevisions]
  simp only [manifestDomains, List.mem_cons, List.not_mem_nil, or_false] at hdomain
  rcases hdomain with rfl | rfl | rfl | rfl | rfl | rfl
  all_goals exact ⟨_, rfl, rfl⟩

end

end LiandanluNative
