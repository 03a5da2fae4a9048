/-
# LiandanluNative.Runtime.WorldUpkeep — what tasks and preparations do to the world.

An invariant of the world and of the tables it is stored in concerns one block of `TaskRuntime` and
`prepare` only, the bump of the task revision: everything else leaves the world and its tables alone
(`Sys.worldly`).  `WorldRules` is what such an invariant has to say, with or without a store.
-/
import LiandanluNative.Runtime.Upkeep

namespace LiandanluNative

open Lib (Table)
open Lib.Proc

/-- The world, where it is stored, and whether it is. -/
def Sys.worldly (s : Sys) := (s.persistent, s.world, s.db.worldTables)

/-- Drawing an id or reading the clock is nothing to the world. -/
theorem Apart.worldly {s t : Sys} (h : Apart s t) : t.worldly = s.worldly := by
  unfold Sys.worldly
  rw [h.persistent, h.world, h.worldTables]

/-! ## What leaves the world alone -/

section

variable {env : Env} {α : Type}

/-- **A transaction** that leaves the tables of the world alone does so in the engine's database. -/
theorem worldly_store {txn : Txn α} (h : Within (Fixes Database.worldTables) txn) :
    Within (Fixes Sys.worldly) (store env txn) := by
  intro s
  obtain ⟨n, hn⟩ := after_store env s txn
  rw [hn]
  have htables := within_transaction (frame_fixes _) h s.db
  exact congrArg (fun tables => (s.persistent, s.world, tables)) htables

/-- The outbox is no table of the world. -/
theorem worldly_insertOutbox (fields : EventFields) (eventId : String) (occurredAt : ℚ) :
    Within (Fixes Database.worldTables) (insertOutbox fields eventId occurredAt) :=
  within_insertOutbox (frame_fixes _) _ _ _ (fun _ _ _ => rfl)

/-- An event is nothing to the world, stored or in memory. -/
theorem worldly_enqueueOutbox (fields : EventFields) :
    Within (Fixes Sys.worldly) (enqueueOutbox env fields) := by
  have hF := frame_fixes Sys.worldly
  unfold enqueueOutbox
  refine hF.bind hF.get (fun s => ?_)
  split
  · refine hF.bind (fun _ => rfl) (fun eventId => hF.bind (fun _ => rfl) (fun occurredAt => ?_))
    exact worldly_store (within_transaction (frame_fixes _) (worldly_insertOutbox _ _ _))
  · refine hF.bind (fun _ => rfl)
      (fun outboxId => hF.bind (within_modify (fun _ => rfl)) (fun _ => ?_))
    exact hF.pure _

/-- Neither is the record of a task, which is its row and an event. -/
theorem worldly_recordTask (taskId eventType actor : String) (payload : List (PyKey × PyVal)) :
    Within (Fixes Sys.worldly) (recordTask env taskId eventType actor payload) := by
  have hF := frame_fixes Sys.worldly
  have hD := frame_fixes Database.worldTables
  unfold recordTask
  refine hF.bind (within_getTask hF taskId) (fun task => hF.bind hF.get (fun s => ?_))
  split
  · refine hF.bind (fun _ => rfl) (fun eventId => hF.bind (fun _ => rfl) (fun occurredAt => ?_))
    refine hF.bind (worldly_store (within_transaction hD ?_)) (fun _ => hF.pure _)
    exact hD.bind (within_upsertTask _ (fun _ _ => rfl)) (fun _ => worldly_insertOutbox _ _ _)
  · exact hF.bind (worldly_enqueueOutbox _) (fun _ => hF.pure _)

end

/-! ## The rules -/

/-- **What an invariant of the world has to say.** -/
structure WorldRules (env : Env) (I D : Sys → Prop) : Prop where
  durable : ∀ {s}, I s → D s
  congr : ∀ {s t : Sys}, t.worldly = s.worldly → I s → I t
  bumpTasks : Upheld I D (bumpTasks env)

namespace WorldRules

variable {env : Env} {I D : Sys → Prop} (h : WorldRules env I D)
include h

/-- What leaves the world alone keeps every invariant of it. -/
theorem fixed {α : Type} {m : M α} (hm : Within (Fixes Sys.worldly) m) : Upheld I D m :=
  upheld_of_within hm (fun _ _ heq hs => h.congr heq hs) (fun _ hs => h.durable hs)

theorem setTask (task : Task) : Upheld I D (setTask task) := h.fixed (within_modify (fun _ => rfl))

theorem readClock : Upheld I D (readClock env) := h.fixed (fun _ => rfl)

/-- **The one block that concerns the world**: the counter of tasks goes up and is saved. -/
theorem touchTask (taskId : String) : Upheld I D (touchTask env taskId) :=
  Upholds.bind (upheld_getTask taskId) (fun _ =>
    Upholds.bind (h.setTask _) (fun _ => h.bumpTasks))

/-- Assign, touch, record. -/
theorem change (new : Task) (taskId eventType actor : String) (payload : List (PyKey × PyVal)) :
    Upheld I D (LiandanluNative.setTask new >>= fun _ => LiandanluNative.touchTask env taskId >>=
      fun _ => recordTask env taskId eventType actor payload) :=
  Upholds.bind (h.setTask new) (fun _ => Upholds.bind (h.touchTask taskId) (fun _ =>
    h.fixed (worldly_recordTask _ _ _ _)))

/-- A new task bumps the counter as a touched one does. -/
theorem createTask (goal : String) (successCriteria : List String) (workspaceId : String)
    (constraints : List String) (lane : String) (priority : Int) (budget : TaskBudget) :
    Upheld I D
      (createTask env goal successCriteria workspaceId constraints lane priority budget) := by
  unfold LiandanluNative.createTask
  refine Upholds.bind (h.fixed (fun _ => rfl)) (fun taskId => ?_)
  refine Upholds.bind (h.setTask _) (fun _ => Upholds.bind h.bumpTasks (fun _ => ?_))
  exact Upholds.bind (h.fixed (worldly_recordTask _ _ _ _)) (fun _ => Upholds.pure _)

theorem queueTask (taskId : String) : Upheld I D (queueTask env taskId) := by
  unfold LiandanluNative.queueTask
  refine Upholds.bind (upheld_getTask taskId) (fun task => ?_)
  split
  · exact upheld_raise _
  · exact Upholds.bind h.readClock (fun at_ => h.change _ _ _ _ _)

/-- The scheduler queues the task and pushes it onto a heap, which is not stored. -/
theorem submitTask (taskId : String) : Upheld I D (submitTask env taskId) :=
  Upholds.bind (h.queueTask taskId) (fun _ =>
    h.fixed ((apart_pushTask taskId).mono (fun _ _ ht => ht.worldly)))

/-- The methods of `TaskRuntime` are assignments around that block. -/
theorem waitTask (taskId reason eventType : String) :
    Upheld I D (waitTask env taskId reason eventType) :=
  Upholds.bind (upheld_getTask taskId) (fun _ => h.change _ _ _ _ _)

/-- An update that changes nothing does not touch the task, and one that does touches it once. -/
theorem updateRuntimeState (taskId : String) (state : Option TaskState) (phase : Option TaskPhase)
    (eventType actor : String) :
    Upheld I D (updateRuntimeState env taskId state phase eventType actor) := by
  unfold LiandanluNative.updateRuntimeState
  refine Upholds.bind (upheld_getTask taskId) (fun task => ?_)
  dsimp only
  split
  · exact h.change _ _ _ _ _
  · exact Upholds.pure _

theorem controlTask (taskId : String) (desired : TaskState) :
    Upheld I D (controlTask env taskId desired) := by
  unfold LiandanluNative.controlTask
  refine Upholds.bind (upheld_getTask taskId) (fun task => ?_)
  split
  · exact Upholds.pure _
  · exact h.change _ _ _ _ _

/-- A control that cannot be settled yet leaves all as it was. -/
theorem settleControl (taskId : String) (safeBoundary externalCancelConfirmed : Bool) :
    Upheld I D (settleControl env taskId safeBoundary externalCancelConfirmed) := by
  unfold LiandanluNative.settleControl
  refine Upholds.bind (upheld_getTask taskId) (fun task => ?_)
  dsimp only
  split
  · exact h.change _ _ _ _ _
  · exact Upholds.pure _

theorem evaluateGoal (taskId : String) (claims : List (String × GoalClaim)) :
    Upheld I D (evaluateGoal env taskId claims) :=
  Upholds.bind (upheld_getTask taskId) (fun _ => h.change _ _ _ _ _)

/-- **`prepare` bumps the counter itself**, between counting the operation and keeping it. -/
theorem startOperation (task : Task) (op : Operation) :
    Upheld I D (startOperation env task op) := by
  have hF := frame_fixes Sys.worldly
  have hD := frame_fixes Database.worldTables
  unfold LiandanluNative.startOperation
  refine Upholds.bind (h.setTask _) (fun _ => Upholds.bind h.bumpTasks (fun _ => h.fixed ?_))
  refine hF.bind (within_modify (fun _ => rfl)) (fun _ => hF.bind hF.get (fun s => ?_))
  split
  · refine hF.bind (fun _ => rfl) (fun eventId => hF.bind (fun _ => rfl) (fun occurredAt => ?_))
    refine hF.bind (worldly_store (within_transaction hD ?_)) (fun _ => hF.pure _)
    refine hD.bind (within_upsertTask _ (fun _ _ => rfl)) (fun _ => ?_)
    refine hD.bind (within_upsertOperation hD _ (fun _ _ => rfl)) (fun _ => ?_)
    exact worldly_insertOutbox _ _ _
  · exact hF.bind (worldly_enqueueOutbox _) (fun _ => hF.pure _)

/-- Whether it gets that far is decided by checks, which only read. -/
theorem prepare (taskId : String) (proposal : ActionProposal)
    (expectedRevisions : List (String × Int)) (taskLease : Option TaskLease)
    (resourceLease : Option ResourceLease) :
    Upheld I D (prepare env taskId proposal expectedRevisions taskLease resourceLease) := by
  have hclock : ∀ s, I s → I { s with clockReads := s.clockReads + 1 } :=
    fun s hs => h.congr (s := s) rfl hs
  unfold LiandanluNative.prepare
  refine Upholds.bind (upheld_getTask taskId) (fun task => ?_)
  refine Upholds.bind (upheld_admitProposal hclock _ _ _ _ _) (fun spec => ?_)
  refine Upholds.bind (h.fixed (fun _ => rfl)) (fun operationId => ?_)
  refine Upholds.bind h.readClock (fun at_ => ?_)
  split
  · exact upheld_raise _
  · exact Upholds.bind (h.startOperation _ _) (fun _ => Upholds.pure _)

end WorldRules

end LiandanluNative
