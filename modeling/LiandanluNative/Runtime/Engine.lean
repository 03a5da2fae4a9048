/-
# LiandanluNative.Runtime.Engine — runs of an engine.

A run is a list of public calls, with any arguments, and of restarts.  A call that raises, or during
which the process ends, leaves what it did up to then.

Arguments are taken as they come, also such as no caller in the repository passes: a lease that was
never granted, a proposal for a task that does not exist, a control of a finished task.  A result
about runs therefore covers what is between any two calls of other objects on the same engine;
interleavings inside of a call are the business of `Runtime.StepCalls`.

The writers of tasks, operations and events take every text and every integer (`Storage.Database`).
A result about a run that rests on what they store says so by `StorableRun`: SQLite refuses nothing
of such a run.
-/
import LiandanluNative.Runtime.Recovery

namespace LiandanluNative

open Lib.Proc

/-- A public call of an engine. -/
inductive Call where
  | createTask (goal : String) (successCriteria : List String) (workspaceId : String)
      (constraints : List String) (lane : String) (priority : Int) (budget : TaskBudget)
  | queue (taskId : String)
  | submit (taskId : String)
  | wait (taskId reason eventType : String)
  | updateRuntimeState (taskId : String) (state : Option TaskState) (phase : Option TaskPhase)
      (eventType actor : String)
  | control (taskId : String) (desired : TaskState)
  | settleControl (taskId : String) (safeBoundary externalCancelConfirmed : Bool)
  | evaluateGoal (taskId : String) (claims : List (String × GoalClaim))
  | prepare (taskId : String) (proposal : ActionProposal) (expectedRevisions : List (String × Int))
      (taskLease : Option TaskLease) (resourceLease : Option ResourceLease)
  | execute (operationId : String)
  | recoverOperation (operationId : String)
  | step (runner : Runner) (taskId : String) (manifest : ContextManifest)
      (taskLease : Option TaskLease)
  | recover
  | register (entity : Entity)
  | observe (source observationType : String) (value : PyVal) (domain : String)
      (workspaceId : Option String)
  | relate (source relation target : String)
  | claimNext (ownerId : String) (leaseSeconds : ℚ)
  | renewLease (lease : TaskLease) (leaseSeconds : ℚ)
  | releaseLease (lease : TaskLease)
  | flushOutbox
  /-- The process ends, and a new one is hydrated from the store. -/
  | restart (registry : CapabilityRegistry) (capabilities : List String)
      (broker : Option ResourceBroker)

section

variable (env : Env)

/-- The state after a call, however it ended. The task-lease calls are those of the store. -/
def Call.exec (s : Sys) : Call → Sys
  | .createTask goal successCriteria workspaceId constraints lane priority budget =>
      after (LiandanluNative.createTask env goal successCriteria workspaceId constraints lane priority
        budget) s
  | .queue taskId => after (queueTask env taskId) s
  | .submit taskId => after (submitTask env taskId) s
  | .wait taskId reason eventType => after (waitTask env taskId reason eventType) s
  | .updateRuntimeState taskId state phase eventType actor =>
      after (LiandanluNative.updateRuntimeState env taskId state phase eventType actor) s
  | .control taskId desired => after (controlTask env taskId desired) s
  | .settleControl taskId safeBoundary externalCancelConfirmed =>
      after (LiandanluNative.settleControl env taskId safeBoundary externalCancelConfirmed) s
  | .evaluateGoal taskId claims => after (LiandanluNative.evaluateGoal env taskId claims) s
  | .prepare taskId proposal expectedRevisions taskLease resourceLease =>
      after (LiandanluNative.prepare env taskId proposal expectedRevisions taskLease resourceLease) s
  | .execute operationId => after (executeOperation env operationId) s
  | .recoverOperation operationId => after (LiandanluNative.recoverOperation env operationId) s
  | .step runner taskId manifest taskLease =>
      after (LiandanluNative.step env runner taskId manifest taskLease) s
  | .recover => after (LiandanluNative.recover env) s
  | .register entity => after (registerEntity env entity) s
  | .observe source observationType value domain workspaceId =>
      after (LiandanluNative.observe env source observationType value domain workspaceId) s
  | .relate source relation target => after (LiandanluNative.relate env source relation target) s
  | .claimNext ownerId leaseSeconds =>
      after (readClock env >>= fun ts => store env (claimNextTask ownerId leaseSeconds ts)) s
  | .renewLease lease leaseSeconds =>
      after (readClock env >>= fun ts => store env (renewTaskLease lease leaseSeconds ts)) s
  | .releaseLease lease => after (store env (releaseTaskLease lease)) s
  | .flushOutbox => after (LiandanluNative.flushOutbox env) s
  | .restart registry capabilities broker => s.restart registry capabilities broker

/-- The state after a list of calls. -/
def runCalls (s : Sys) (calls : List Call) : Sys := calls.foldl (Call.exec env) s

/-- A run with one more call is that call after the run. -/
theorem runCalls_concat (s : Sys) (calls : List Call) (call : Call) :
    runCalls env s (calls ++ [call]) = call.exec env (runCalls env s calls) := by
  simp only [runCalls, List.foldl_append, List.foldl_cons, List.foldl_nil]

/-- What every call of a run preserves, the run preserves. -/
theorem runCalls_induction {I : Sys → Prop} {allowed : Call → Prop}
    (hcall : ∀ s call, I s → allowed call → I (call.exec env s)) (calls : List Call) (s : Sys)
    (hs : I s) (hall : ∀ call ∈ calls, allowed call) : I (runCalls env s calls) := by
  induction calls generalizing s with
  | nil => exact hs
  | cons call calls ih =>
      apply ih
      · exact hcall s call hs (hall call List.mem_cons_self)
      · intro later hlater
        exact hall later (List.mem_cons_of_mem call hlater)

end

/-! ## What a run has stored

The texts and integers of a call that end up in columns.  SQLite refuses some of either, and a
condition on runs says that it need not.
-/

/-- The texts and integers of a lease that a statement binds. -/
def TaskLease.columns (lease : TaskLease) : List Column :=
  [.text lease.taskId, .text lease.ownerId, .int lease.generation]

/-- The texts and integers of a resource lease that a check of it binds. -/
def ResourceLease.columns (lease : ResourceLease) : List Column :=
  [.text lease.taskId, .text lease.ownerId, .int lease.generation]

/-- The texts and integers of the row of a task; the rest of it is written in JSON, or is one of a few
words. -/
def Task.columns (task : Task) : List Column :=
  [.text task.taskId, .text task.workspaceId, .text task.goal, .int task.priority, .text task.lane,
    .int task.revision] ++ task.waitReason.toList.map .text

/-- What a spec puts into the rows of operations and of resource leases. -/
def ActionSpec.columns (spec : ActionSpec) : List Column :=
  [.text spec.capability, .text spec.action, .text spec.requiredPermission,
    .int spec.resourceRequest.cpuUnits, .int spec.resourceRequest.memoryMb,
    .int spec.resourceRequest.gpuUnits]

/-- The texts and integers that a call hands over, other than those in JSON. -/
def Call.columns : Call → List Column
  | .createTask goal _ workspaceId _ lane priority _ =>
      [.text workspaceId, .text goal, .int priority, .text lane]
  | .wait _ reason eventType => [.text reason, .text eventType]
  | .updateRuntimeState _ _ _ eventType actor => [.text eventType, .text actor]
  | .prepare _ _ _ taskLease resourceLease =>
      (taskLease.map TaskLease.columns).getD [] ++ (resourceLease.map ResourceLease.columns).getD []
  | .step _ _ _ taskLease => (taskLease.map TaskLease.columns).getD []
  | .register entity => entity.columns
  | .observe _ _ _ _ workspaceId => workspaceId.toList.map .text
  | .relate _ relation _ => [.text relation]
  | .claimNext ownerId _ => [.text ownerId]
  | .renewLease lease _ => lease.columns
  | .releaseLease lease => lease.columns
  | .restart registry _ _ => registry.rows.flatMap ActionSpec.columns
  | _ => []

/-- Everything that a run from `s` hands to a store can be stored: the texts can be encoded, and the
integers have 64 bits. -/
structure StorableRun (env : Env) (s : Sys) (calls : List Call) : Prop where
  identifiers : ∀ n, encodable (env.uuid n) = true
  executeErrors : ∀ n op locators e, env.execute n op locators = .error e →
    encodable e.repr = true
  verifyErrors : ∀ n op result e, env.verify n op result = .error e → encodable e.repr = true
  reconcileErrors : ∀ n op locators e, env.reconcile n op locators = .error e →
    encodable e.repr = true
  specs : ∀ spec ∈ s.registry.rows, Bindable spec.columns
  calls : ∀ call ∈ calls, Bindable call.columns

/-! ## A small engine

One task, one action on one document, a model that always proposes that action, and a capability
that always succeeds: what the examples and counterexamples of the safety modules run. -/

namespace Small

/-- A small engine, on which the statements of the project are tried: reading a document with one
capability. -/
def spec : ActionSpec where
  capability := "editor"
  action := "open"
  riskClass := .read
  requiredPermission := "read"
  revisionDomains := ["workspace"]

def proposal : ActionProposal where
  proposalId := "prop_1"
  capability := "editor"
  action := "open"
  objectRefs := ["doc"]

def env : Env where
  py := plainBuiltins
  clock := fun _ => 1
  uuid := tallyId
  nextAction := fun _ _ => .ok proposal
  execute := fun _ _ _ => .ok (.bool true)
  verify := fun _ _ _ => .ok (.list [.dict [(.str "status", .str "pass")]])
  reconcile := fun _ _ _ => .ok (.bool true, .bool true)
  dies := fun _ => false

def document : Entity where
  entityId := "doc"
  entityType := "file"
  workspaceId := "w"
  locator := "/srv/doc"

def task : Task where
  taskId := "t"
  workspaceId := "w"
  goal := "read the document"
  successCriteria := ["document read"]
  state := .queued
  desiredState := .running
  queuedAt := some 0

def lease : TaskLease where
  taskId := "t"
  ownerId := "worker"
  generation := 1
  claimedAt := 1
  leaseUntil := 61

def manifest : ContextManifest where
  manifestId := "ctx_1"
  taskId := "t"
  workspaceId := "w"
  worldRevisions := [("workspace", 0)]

def runner : Runner where
  policy := Lib.Table.empty.put ("w", { allowedCapabilities := {"editor"} })

/-- The engine before anything happened. -/
def start : Sys where
  persistent := true
  world := { entities := Lib.Table.empty.put document }
  tasks := Lib.Table.empty.put task
  registry := Lib.Table.empty.put spec
  capabilities := ["editor"]
  db := { tasks := Lib.Table.empty.put task, worldEntities := Lib.Table.empty.put document }

/-- The task is claimed, and one step is taken with the lease. -/
def oneStep : List Call :=
  [.claimNext "worker" 60, .step runner "t" manifest (some lease)]

/-- Its ids are texts that can be stored. -/
theorem encodable_tallyId (n : ℕ) : encodable (tallyId n) = true := by
  simp only [encodable, tallyId, String.toList_ofList, List.all_eq_true, List.mem_replicate]
  rintro c ⟨_, rfl⟩
  decide

/-- A run of an engine that answers as the small one does, none of whose calls hands over what
cannot be stored. -/
theorem storableRun {env : Env} {s : Sys} {calls : List Call} (huuid : env.uuid = tallyId)
    (hexecute : env.execute = Small.env.execute) (hverify : env.verify = Small.env.verify)
    (hreconcile : env.reconcile = Small.env.reconcile)
    (hspecs : ∀ spec ∈ s.registry.rows, Bindable spec.columns)
    (hcalls : ∀ call ∈ calls, Bindable call.columns) : StorableRun env s calls where
  identifiers := by
    rw [huuid]
    exact encodable_tallyId
  executeErrors := by
    rw [hexecute]
    rintro _ _ _ _ ⟨⟩
  verifyErrors := by
    rw [hverify]
    rintro _ _ _ _ ⟨⟩
  reconcileErrors := by
    rw [hreconcile]
    rintro _ _ _ _ ⟨⟩
  specs := hspecs
  calls := hcalls

end Small

end LiandanluNative
