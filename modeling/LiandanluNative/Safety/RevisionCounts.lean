/-
# LiandanluNative.Safety.RevisionCounts — the revision counters add up.

Every bump raises one domain counter and the global one, and a bump of a workspace raises the
counter of that workspace too.  So the counters add up in every state (`Accounted`), and none of
them falls.  A store keeps the global counters and those of the workspaces in different tables, each
written in its own transaction; between calls they agree with memory (`Reckoned`), so a reload
changes no counter.  A bump changes memory before the store is asked: where the store refuses the id
of the workspace, memory has counters that a reload takes back.

Each bump is one step on the counters (`bumped` for a workspace, `Raised` for any other domain), and
both keep them accounted for and lower none.  What a method of the world or of tasks can end in is
told in `Runtime.WorldEnds` and `Runtime.WorldUpkeep`; here each end is looked at for its counters.
-/
import LiandanluNative.Runtime.WorldUpkeep
import LiandanluNative.Safety.WorldRelations
import Mathlib.Algebra.BigOperators.Group.List.Basic
import Mathlib.Algebra.Order.Ring.Int
import Mathlib.Order.Basic
import Mathlib.Tactic.Ring

namespace LiandanluNative

open Lib (Table)
open Lib.Proc

/-! ## Counters

What it is for the counters to add up, and to have counted up, as facts about two worlds.
-/

namespace WorldModel

/-- The counters add up: the global one is the sum of the domains, and that of the workspaces the
sum of theirs. -/
structure Accounted (world : WorldModel) : Prop where
  globalRevision : world.revisions.globalRevision = world.revisions.desktop
    + world.revisions.workspace + world.revisions.browser + world.revisions.media
    + world.revisions.tasks
  workspace : world.revisions.workspace = (world.workspaceRevisions.rows.map Prod.snd).sum

/-- No counter is smaller in `w` than in `v`, nor is that of any workspace. -/
structure CountsUp (v w : WorldModel) : Prop where
  globalRevision : v.revisions.globalRevision ≤ w.revisions.globalRevision
  desktop : v.revisions.desktop ≤ w.revisions.desktop
  workspace : v.revisions.workspace ≤ w.revisions.workspace
  browser : v.revisions.browser ≤ w.revisions.browser
  media : v.revisions.media ≤ w.revisions.media
  tasks : v.revisions.tasks ≤ w.revisions.tasks
  workspaceRevision : ∀ workspaceId,
    v.workspaceRevision workspaceId ≤ w.workspaceRevision workspaceId

namespace CountsUp

variable {u v w : WorldModel}

/-- Equal counters have counted up. -/
theorem of_eq (hrevisions : w.revisions = v.revisions)
    (hworkspaces : w.workspaceRevisions = v.workspaceRevisions) : CountsUp v w := by
  have hworkspace : ∀ workspaceId,
      w.workspaceRevision workspaceId = v.workspaceRevision workspaceId := by
    intro workspaceId
    unfold WorldModel.workspaceRevision
    rw [hworkspaces]
  constructor
  all_goals first | rw [hrevisions] | exact fun workspaceId => (hworkspace workspaceId).ge

/-- No step is a step up. -/
protected theorem refl (v : WorldModel) : CountsUp v v := of_eq rfl rfl

/-- Counting up twice is counting up. -/
protected theorem trans (h₁ : CountsUp u v) (h₂ : CountsUp v w) : CountsUp u w where
  globalRevision := h₁.globalRevision.trans h₂.globalRevision
  desktop := h₁.desktop.trans h₂.desktop
  workspace := h₁.workspace.trans h₂.workspace
  browser := h₁.browser.trans h₂.browser
  media := h₁.media.trans h₂.media
  tasks := h₁.tasks.trans h₂.tasks
  workspaceRevision := fun workspaceId =>
    (h₁.workspaceRevision workspaceId).trans (h₂.workspaceRevision workspaceId)

end CountsUp

variable {world : WorldModel}

/-- Only the counters decide whether they add up. -/
theorem Accounted.congr {v w : WorldModel} (h : v.Accounted)
    (hrevisions : w.revisions = v.revisions)
    (hworkspaces : w.workspaceRevisions = v.workspaceRevisions) : w.Accounted := by
  constructor
  · rw [hrevisions]
    exact h.globalRevision
  · rw [hrevisions, hworkspaces]
    exact h.workspace

/-! ## Bumps -/

/-- The counter of one workspace is raised, and with it their sum. -/
theorem sum_bumped (world : WorldModel) (workspaceId : String) :
    ((world.bumped workspaceId).workspaceRevisions.rows.map Prod.snd).sum
      = (world.workspaceRevisions.rows.map Prod.snd).sum + 1 := by
  have hsum := Table.sum_put world.workspaceRevisions Prod.snd
    (workspaceId, world.workspaceRevision workspaceId + 1)
  have hold : ((world.workspaceRevisions.get? workspaceId).map Prod.snd).getD 0
      = world.workspaceRevision workspaceId := by
    unfold workspaceRevision
    cases world.workspaceRevisions.get? workspaceId <;> rfl
  rw [hold] at hsum
  show ((world.workspaceRevisions.put _).rows.map Prod.snd).sum = _
  omega

/-- The bump of a workspace raises both sides of both sums by one. -/
theorem Accounted.bumped (h : world.Accounted) (workspaceId : String) :
    (world.bumped workspaceId).Accounted := by
  have hglobal := h.globalRevision
  have hworkspace := h.workspace
  constructor
  · simp only [WorldModel.bumped]
    omega
  · rw [sum_bumped]
    simp only [WorldModel.bumped]
    omega

/-- A bump lowers no counter. -/
theorem countsUp_bumped (world : WorldModel) (workspaceId : String) :
    CountsUp world (world.bumped workspaceId) := by
  constructor
  case workspaceRevision =>
    intro other
    rw [workspaceRevision_bumped]
    split <;> omega
  all_goals
    simp only [WorldModel.bumped]
    omega

end WorldModel

/-- One counter was raised by one, not that of the workspaces, and the global one with it. -/
structure WorldRevisions.Raised (r r' : WorldRevisions) : Prop where
  globalRevision : r'.globalRevision = r.globalRevision + 1
  workspace : r'.workspace = r.workspace
  desktop : r.desktop ≤ r'.desktop
  browser : r.browser ≤ r'.browser
  media : r.media ≤ r'.media
  tasks : r.tasks ≤ r'.tasks
  sum : r'.desktop + r'.browser + r'.media + r'.tasks
    = r.desktop + r.browser + r.media + r.tasks + 1

namespace WorldRevisions

variable {r r' : WorldRevisions}

/-- The bump of the tasks raises their counter and the global one. -/
theorem raised_bumpTasks (r : WorldRevisions) : r.Raised r.bumpTasks := by
  constructor <;> simp only [bumpTasks] <;> omega

/-- So does the bump of another domain for its own. -/
theorem raised_bump {domain : String} (hdomain : domain ≠ "workspace")
    (h : r.bump domain = .ok r') : r.Raised r' := by
  simp only [bump, if_neg hdomain] at h
  split at h
  · cases h
    constructor <;> dsimp only <;> omega
  split at h
  · cases h
    constructor <;> dsimp only <;> omega
  split at h
  · cases h
    constructor <;> dsimp only <;> omega
  split at h
  · cases h
    constructor <;> dsimp only <;> omega
  split at h
  · cases h
  split at h <;> cases h

end WorldRevisions

namespace WorldModel

variable {world : WorldModel} {revisions : WorldRevisions}

/-- Where a domain other than the workspaces was raised, the counters still add up. -/
theorem Accounted.raised (h : world.Accounted) (hraised : world.revisions.Raised revisions) :
    Accounted { world with revisions := revisions } := by
  have hglobal := h.globalRevision
  have hsum := hraised.sum
  constructor
  · show revisions.globalRevision = _ + revisions.workspace + _ + _ + _
    rw [hraised.globalRevision, hraised.workspace]
    dsimp only
    omega
  · exact hraised.workspace.trans h.workspace

/-- And none of them fell. -/
theorem countsUp_raised (hraised : world.revisions.Raised revisions) :
    CountsUp world { world with revisions := revisions } where
  globalRevision := by
    dsimp only
    rw [hraised.globalRevision]
    omega
  desktop := hraised.desktop
  workspace := hraised.workspace.ge
  browser := hraised.browser
  media := hraised.media
  tasks := hraised.tasks
  workspaceRevision := fun _ => le_rfl

end WorldModel

/-! ## The invariant

In memory the counters add up; in the store they are the same, in two tables that are written apart.
-/

/-- The counters add up, they are in the store where there is one, and there every workspace with
entities has a counter, so that opening the store gives none a new one. -/
structure Reckoned (s : Sys) : Prop where
  accounted : s.world.Accounted
  revisions : s.persistent = true → s.db.worldRevisions.getD {} = s.world.revisions
  workspaces : s.persistent = true → s.db.workspaceRevisions = s.world.workspaceRevisions
  counted : s.persistent = true → ∀ entity ∈ s.db.worldEntities.rows,
    (s.db.workspaceRevisions.get? entity.workspaceId).isSome = true

namespace Reckoned

variable {s t : Sys}

/-- A new world is accounted for. -/
theorem new (h : s.NewWorld) : Reckoned s := by
  have htables := h.tables
  simp only [Database.worldTables, Prod.mk.injEq] at htables
  obtain ⟨hentities, _, hrevisions, hworkspaces⟩ := htables
  refine ⟨?_, fun _ => ?_, fun _ => ?_, fun _ entity hentity => ?_⟩
  · rw [h.world]
    exact ⟨rfl, rfl⟩
  · rw [hrevisions, h.world]
    rfl
  · rw [hworkspaces, h.world]
  · rw [hentities] at hentity
    exact absurd hentity List.not_mem_nil

/-- Only the counters, in memory and in the store, decide. -/
theorem congr (h : Reckoned s) (hpersistent : t.persistent = s.persistent)
    (hworld : t.world = s.world)
    (htables : t.db.worldTables = s.db.worldTables) : Reckoned t := by
  simp only [Database.worldTables, Prod.mk.injEq] at htables
  obtain ⟨hentities, _, hrevisions, hworkspaces⟩ := htables
  refine ⟨?_, ?_, ?_, ?_⟩
  · rw [hworld]
    exact h.accounted
  · rw [hpersistent, hrevisions, hworld]
    exact h.revisions
  · rw [hpersistent, hworkspaces, hworld]
    exact h.workspaces
  · rw [hpersistent, hentities, hworkspaces]
    exact h.counted

/-- A store that is loaded changes no counter. -/
theorem restarted (h : Reckoned s) (hpersistent : s.persistent = true)
    (registry : CapabilityRegistry) (capabilities : List String) (broker : Option ResourceBroker) :
    Reckoned (s.restart registry capabilities broker) ∧
      s.world.CountsUp (s.restart registry capabilities broker).world := by
  have hdb : s.db.reopened = s.db := Database.reopened_of_counted (h.counted hpersistent)
  have hrevisions : s.db.reopened.loadWorldModel.revisions = s.world.revisions := by
    rw [hdb]
    exact h.revisions hpersistent
  have hworkspaces :
      s.db.reopened.loadWorldModel.workspaceRevisions = s.world.workspaceRevisions := by
    rw [hdb]
    exact h.workspaces hpersistent
  refine ⟨⟨h.accounted.congr hrevisions hworkspaces, fun _ => rfl, fun _ => rfl, ?_⟩,
    .of_eq hrevisions hworkspaces⟩
  intro _ entity hentity
  exact Table.get?_foldl_putNew hentity

/-- A counter other than those of the workspaces was raised. -/
theorem raised (h : Reckoned s) {revisions : WorldRevisions}
    (hraised : s.world.revisions.Raised revisions) : Reckoned (s.counted revisions) := by
  have hdb : (s.counted revisions).persistent = true → (s.counted revisions).db
      = { s.db with worldRevisions := some revisions } ∧ s.persistent = true := by
    intro hp
    simp only [Sys.counted, Sys.wrote_persistent] at hp
    exact ⟨by rw [Sys.counted, Sys.wrote_db, if_pos hp], hp⟩
  refine ⟨?_, fun hp => ?_, fun hp => ?_, fun hp => ?_⟩
  · rw [Sys.counted_world]
    exact h.accounted.raised hraised
  · rw [(hdb hp).1, Sys.counted_world]
    rfl
  · rw [(hdb hp).1, Sys.counted_world]
    exact h.workspaces (hdb hp).2
  · rw [(hdb hp).1]
    exact h.counted (hdb hp).2

/-- The counter of a workspace was raised, and with that the workspace has one. -/
theorem bumpedIn {workspaceId : String} (haccounted : s.world.Accounted)
    (hworkspaces : s.persistent = true → s.db.workspaceRevisions = s.world.workspaceRevisions)
    (hcounted : s.persistent = true → ∀ entity ∈ s.db.worldEntities.rows,
      entity.workspaceId = workspaceId ∨
        (s.db.workspaceRevisions.get? entity.workspaceId).isSome = true) :
    Reckoned (s.bumpedIn workspaceId) := by
  have hdb : (s.bumpedIn workspaceId).persistent = true → (s.bumpedIn workspaceId).db
      = { s.db with
          workspaceRevisions := s.db.workspaceRevisions.put
            (workspaceId, s.world.workspaceRevision workspaceId + 1)
          worldRevisions := some (s.world.bumped workspaceId).revisions } ∧ s.persistent = true := by
    intro hp
    rw [(Bumping.bumpedIn s workspaceId).persistent] at hp
    simp only [Sys.bumpedIn, Sys.wrote, hp, if_true, and_self]
  refine ⟨?_, fun hp => ?_, fun hp => ?_, fun hp entity hentity => ?_⟩
  · rw [Sys.bumpedIn_world]
    exact haccounted.bumped workspaceId
  · rw [(hdb hp).1, Sys.bumpedIn_world]
    rfl
  · rw [(hdb hp).1, Sys.bumpedIn_world]
    show s.db.workspaceRevisions.put _ = s.world.workspaceRevisions.put _
    rw [hworkspaces (hdb hp).2]
  · rw [(hdb hp).1] at hentity ⊢
    show ((s.db.workspaceRevisions.put _).get? entity.workspaceId).isSome = true
    rw [Table.get?_put]
    split
    · rfl
    · rename_i hne
      exact (hcounted (hdb hp).2 entity hentity).resolve_left (fun heq => hne heq.symm)

end Reckoned

/-! ## The calls -/

/-- Reckoned, with no counter smaller than in `v`. -/
def ReckonedFrom (v : WorldModel) (s : Sys) : Prop := Reckoned s ∧ v.CountsUp s.world

namespace ReckonedFrom

variable {env : Env} {v : WorldModel} {s : Sys}

theorem counted (h : ReckonedFrom v s) {revisions : WorldRevisions}
    (hraised : s.world.revisions.Raised revisions) : ReckonedFrom v (s.counted revisions) := by
  refine ⟨h.1.raised hraised, ?_⟩
  rw [Sys.counted_world]
  exact h.2.trans (WorldModel.countsUp_raised hraised)

/-- The writers of tasks and operations count the domain of the tasks up, and touch no workspace. -/
theorem worldRules (env : Env) (v : WorldModel) :
    WorldRules env (ReckonedFrom v) (fun _ => True) where
  durable := fun _ => trivial
  congr := by
    intro s t heq h
    simp only [Sys.worldly, Prod.mk.injEq] at heq
    obtain ⟨hpersistent, hworld, htables⟩ := heq
    refine ⟨h.1.congr hpersistent hworld htables, ?_⟩
    rw [hworld]
    exact h.2
  bumpTasks := by
    intro s h
    have hdone : ReckonedFrom v (s.counted s.world.revisions.bumpTasks) :=
      h.counted (WorldRevisions.raised_bumpTasks _)
    unfold bumpTasks modifyWorld persistRevisions
    exact Ends.bind (Ends.modifying (ends_persisting (fun db => { db with
      worldRevisions := some s.world.revisions.bumpTasks }) rfl hdone trivial))

/-- A registration bumps the workspace of its entity, if the entity could be stored and the
workspace can be. -/
theorem registerEntity (entity : Entity) :
    Upheld (ReckonedFrom v) (fun _ => True) (registerEntity env entity) := by
  rintro s ⟨h, hup⟩
  refine ends_registerEntity (fun metadata _ => ⟨?_, ?_⟩) (fun _ _ _ => ⟨?_, ?_⟩)
    (fun _ _ _ _ => trivial)
  · refine Reckoned.bumpedIn ?_ (fun hp => ?_) (fun hp other hother => ?_)
    · rw [Sys.entered_world]
      exact h.accounted.congr rfl rfl
    · rw [Sys.entered, Sys.wrote_persistent] at hp
      rw [Sys.entered_world, Sys.entered, Sys.wrote_db, if_pos hp]
      exact h.workspaces hp
    · rw [Sys.entered, Sys.wrote_persistent] at hp
      rw [Sys.entered, Sys.wrote_db, if_pos hp] at hother ⊢
      rcases Table.mem_put.mp hother with rfl | ⟨hold, _⟩
      · exact Or.inl rfl
      · exact Or.inr (h.counted hp other hold)
  · rw [Sys.bumpedIn_world, Sys.entered_world]
    have hentered : s.world.CountsUp (s.world.entered entity) := .of_eq rfl rfl
    exact hup.trans (hentered.trans (WorldModel.countsUp_bumped _ _))
  · exact ⟨h.accounted.congr rfl rfl, h.revisions, h.workspaces, h.counted⟩
  · exact hup.trans (.of_eq rfl rfl)

/-- An observation of a workspace is counted, if the store takes the id. -/
theorem observe (h : ReckonedFrom v s) (source observationType : String) (value : PyVal)
    (domain : String) (workspaceId : Option String)
    (hstorable : s.persistent = true → domain = "workspace" → ∀ id, workspaceId = some id →
      Bindable [.text id]) :
    Ends (fun _ => ReckonedFrom v) (Left (ReckonedFrom v) (fun _ => True))
      (observe env source observationType value domain workspaceId) s := by
  obtain ⟨h, hup⟩ := h
  have hnoted : ReckonedFrom v (s.noted ⟨source, observationType, value, workspaceId⟩) :=
    ⟨⟨h.accounted.congr rfl rfl, h.revisions, h.workspaces, h.counted⟩, hup.trans (.of_eq rfl rfl)⟩
  refine ends_observe (fun _ => hnoted) (fun id _ => ⟨?_, ?_⟩)
    (fun id hdomain hid hpersistent hrefused => ?_) (fun revisions hdomain hbump => ?_)
    (fun _ _ => trivial)
  · exact Reckoned.bumpedIn hnoted.1.accounted hnoted.1.workspaces
      (fun hp entity hentity => Or.inr (hnoted.1.counted hp entity hentity))
  · rw [Sys.bumpedIn_world]
    exact hnoted.2.trans (WorldModel.countsUp_bumped _ _)
  · exact absurd (hstorable hpersistent hdomain id hid) hrefused
  · exact hnoted.counted (WorldRevisions.raised_bump hdomain hbump)

/-- An edge is counted, if the store takes the id of the workspace or refuses the edge. -/
theorem relate (h : ReckonedFrom v s) (source relation target : String)
    (hstorable : s.persistent = true → ∀ sourceEntity targetEntity,
      s.world.AddsEdge source relation target sourceEntity targetEntity →
      Bindable [.text source, .text relation, .text target] →
      Bindable [.text sourceEntity.workspaceId]) :
    Ends (fun _ => ReckonedFrom v) (Left (ReckonedFrom v) (fun _ => True))
      (relate env source relation target) s := by
  obtain ⟨h, hup⟩ := h
  refine ends_relate (fun _ => ⟨h, hup⟩) (fun _ => ⟨h, hup⟩)
    (fun sourceEntity targetEntity hadds => ?_)
  have hrelated : s.world.CountsUp (s.world.related source relation target) := .of_eq rfl rfl
  refine ends_relate_adds hadds (fun _ => ⟨?_, ?_⟩) (fun _ _ _ => ⟨?_, hup.trans hrelated⟩)
    (fun hpersistent hedge hrefused => ?_) (fun _ _ => trivial)
  · refine Reckoned.bumpedIn ?_ (fun hp => ?_) (fun hp entity hentity => ?_)
    · rw [Sys.related_world]
      exact h.accounted.congr rfl rfl
    · rw [Sys.related, Sys.wrote_persistent] at hp
      rw [Sys.related_world, Sys.related, Sys.wrote_db, if_pos hp]
      exact h.workspaces hp
    · rw [Sys.related, Sys.wrote_persistent] at hp
      rw [Sys.related, Sys.wrote_db, if_pos hp] at hentity ⊢
      exact Or.inr (h.counted hp entity hentity)
  · rw [Sys.bumpedIn_world, Sys.related_world]
    exact hup.trans (hrelated.trans (WorldModel.countsUp_bumped _ _))
  · exact ⟨h.accounted.congr rfl rfl, h.revisions, h.workspaces, h.counted⟩
  · exact absurd (hstorable hpersistent sourceEntity targetEntity hadds hedge) hrefused

end ReckonedFrom

/-- The calls of the world and of `TaskRuntime`, `submit`, `prepare`, and a reload. -/
def Call.onRevisions : Call → Bool
  | .execute _ => false
  | .recoverOperation _ => false
  | .step _ _ _ _ => false
  | .recover => false
  | .claimNext _ _ => false
  | .renewLease _ _ => false
  | .releaseLease _ => false
  | .flushOutbox => false
  | _ => true

/-- Where there is a store, it takes the id of the workspace that the call bumps. -/
def Call.BumpsStorable (s : Sys) : Call → Prop
  | .observe _ _ _ domain workspaceId =>
      s.persistent = true → domain = "workspace" → ∀ id, workspaceId = some id →
        Bindable [.text id]
  | .relate source relation target =>
      s.persistent = true → ∀ sourceEntity targetEntity,
        s.world.AddsEdge source relation target sourceEntity targetEntity →
        Bindable [.text source, .text relation, .text target] →
        Bindable [.text sourceEntity.workspaceId]
  | _ => True

/-- **What a call does to the books**, if the process lives. Only a store is loaded. -/
theorem ReckonedFrom.exec {env : Env} {v : WorldModel} {s : Sys} (h : ReckonedFrom v s)
    {call : Call} (hon : call.onRevisions = true) (hstorable : call.BumpsStorable s)
    (hreload : call.isRestart = true → s.persistent = true)
    (hlived : call.died env s = false) : ReckonedFrom v (call.exec env s) := by
  have hrules := ReckonedFrom.worldRules env v
  refine Call.exec_of_lived (D := fun _ => True) ?_ hlived
  cases call with
  | createTask goal successCriteria workspaceId constraints lane priority budget =>
      exact Upholds.bind (hrules.createTask _ _ _ _ _ _ _) (fun _ => Upholds.pure _) s h
  | queue taskId => exact hrules.queueTask taskId s h
  | submit taskId => exact hrules.submitTask taskId s h
  | wait taskId reason eventType => exact hrules.waitTask _ _ _ s h
  | updateRuntimeState taskId state phase eventType actor =>
      exact hrules.updateRuntimeState _ _ _ _ _ s h
  | control taskId desired => exact hrules.controlTask _ _ s h
  | settleControl taskId safeBoundary externalCancelConfirmed =>
      exact hrules.settleControl _ _ _ s h
  | evaluateGoal taskId claims => exact hrules.evaluateGoal _ _ s h
  | prepare taskId proposal expectedRevisions taskLease resourceLease =>
      exact Upholds.bind (hrules.prepare _ _ _ _ _) (fun _ => Upholds.pure _) s h
  | register entity => exact ReckonedFrom.registerEntity entity s h
  | observe source observationType value domain workspaceId =>
      exact h.observe _ _ _ _ _ hstorable
  | relate source relation target => exact h.relate _ _ _ hstorable
  | restart registry capabilities broker =>
      obtain ⟨hbooked, hup⟩ := h.1.restarted (hreload rfl) registry capabilities broker
      exact Ends.modifying ⟨hbooked, h.2.trans hup⟩
  | _ => cases hon

/-- The call is one of these, and the process lives through it; what it raises is no matter. -/
def Call.Counting (env : Env) (s : Sys) (call : Call) : Prop :=
  call.onRevisions = true ∧ (call.isRestart = true → s.persistent = true) ∧
    call.died env s = false

/-- So the counters are reckoned over every run whose bumps can be stored. -/
theorem ReckonedFrom.run {env : Env} {v : WorldModel} {calls : List Call} : ∀ {s : Sys},
    ReckonedFrom v s → Along env (Call.Counting env) s calls →
    Along env (fun s call => call.BumpsStorable s) s calls →
    ReckonedFrom v (runCalls env s calls) := by
  induction calls with
  | nil => exact fun h _ _ => h
  | cons call calls ih =>
      rintro s h ⟨⟨hon, hreload, hlived⟩, hrest⟩ ⟨hstorable, hstored⟩
      exact ih (h.exec hon hstorable hreload hlived) hrest hstored

/-- **Revision accounting.**  On a new world, with or without a store, take any run of calls of the
world, of `TaskRuntime` and of `prepare`, whether they return or raise, with reloads in between
where there is a store.  If the store takes the id of every workspace that a call bumps, the
counters add up in every state of the run, and between any two states no counter falls. -/
theorem revisions_accounted (env : Env) (s : Sys) (calls : List Call) (hnew : s.NewWorld)
    (hrun : Along env (Call.Counting env) s calls)
    (hstored : Along env (fun s call => call.BumpsStorable s) s calls) :
    ∀ before later rest, calls = before ++ later ++ rest →
      (runCalls env s before).world.Accounted ∧
        (runCalls env s before).world.CountsUp (runCalls env s (before ++ later)).world := by
  rintro before later rest rfl
  rw [List.append_assoc, along_append, along_append] at hrun hstored
  have hbefore := ReckonedFrom.run ⟨Reckoned.new hnew, .refl s.world⟩ hrun.1 hstored.1
  have hlater := ReckonedFrom.run ⟨hbefore.1, .refl _⟩ hrun.2.1 hstored.2.1
  refine ⟨hbefore.1.accounted, ?_⟩
  rw [show runCalls env s (before ++ later) = runCalls env (runCalls env s before) later from
    List.foldl_append]
  exact hlater.2

/-- A document is registered and observed, and a task is created. -/
def counted : List Call :=
  [.register (roamer "a"), .observe "user" "focus" .none "desktop" none,
    .createTask "read" [] "a" [] "interactive" 0 {}]

/-- A run that counts in each of its domains, with a restart. -/
theorem revisions_accounted_counted :
    (runCalls Small.env { persistent := true } counted).world.Accounted ∧
      (runCalls Small.env { persistent := true } counted).world.CountsUp
        (runCalls Small.env { persistent := true } (counted ++ [.restart .empty [] none])).world := by
  have hrun : Along Small.env (Call.Counting Small.env) { persistent := true }
      (counted ++ [.restart .empty [] none]) := by
    refine ⟨⟨rfl, ?_, ?_⟩, ⟨rfl, ?_, ?_⟩, ⟨rfl, ?_, ?_⟩, ⟨rfl, ?_, ?_⟩, trivial⟩ <;> decide +kernel
  have hstored : Along Small.env (fun s call => call.BumpsStorable s) { persistent := true }
      (counted ++ [.restart .empty [] none]) := by
    refine ⟨trivial, fun _ hdomain => ?_, trivial, trivial, trivial⟩
    exact absurd hdomain (by decide)
  exact revisions_accounted Small.env { persistent := true } (counted ++ [.restart .empty [] none])
    ⟨rfl, rfl⟩ hrun hstored counted [.restart .empty [] none] [] rfl

/-- A workspace is observed whose id is a lone surrogate. -/
def uncounted : Call :=
  .observe "user" "focus" .none "workspace" (some (String.singleton (Char.ofNat 0x10F800)))

/-- The observation raises once memory has counted it, and the reload takes the count back. -/
theorem revisions_accounted_fails :
    Along Small.env (Call.Counting Small.env) { persistent := true }
        [uncounted, .restart .empty [] none] ∧
      ¬ (runCalls Small.env { persistent := true } [uncounted]).world.CountsUp
        (runCalls Small.env { persistent := true } [uncounted, .restart .empty [] none]).world := by
  refine ⟨⟨⟨rfl, ?_, ?_⟩, ⟨rfl, ?_, ?_⟩, trivial⟩, fun hup => ?_⟩
  iterate 4 decide +kernel
  have hfalls : ¬ (runCalls Small.env { persistent := true } [uncounted]).world.revisions.workspace
      ≤ (runCalls Small.env { persistent := true }
        [uncounted, .restart .empty [] none]).world.revisions.workspace := by decide +kernel
  exact hfalls hup.workspace

end LiandanluNative
