/-
# LiandanluNative.Runtime.Agent — `NativeAgentRunner.step` of `agent.py`.

The step is cut where the source returns early: `step` decides whether the model is asked at all,
`stepModel` asks it and consults the policy, `stepResources` acquires what the action needs,
`stepAct` prepares and executes.
-/
import LiandanluNative.Runtime.Operations
import LiandanluNative.Runtime.Resources

namespace LiandanluNative

open Lib (Table)

/-- The fields of a runner that are not runtimes. -/
structure Runner where
  policy : PolicyEngine
  requireTaskLease : Option Bool := none
  resourceLeaseSeconds : ℚ := 60

/-- `except kind` -/
def Exc.isOf (kind : ExcKind) (e : Exc) : Bool := decide (e.kind = kind)

/-- `{domain: manifest.world_revisions[domain] for domain in domains}` -/
def ContextManifest.expected (manifest : ContextManifest) :
    List String → Except Exc (List (String × Int))
  | [] => .ok []
  | domain :: domains =>
      match manifest.revision? domain with
      | none => .error (keyError domain)
      | some value =>
          match manifest.expected domains with
          | .error e => .error e
          | .ok rest => .ok ((domain, value) :: rest)

section

variable (env : Env)

/-- What a step records about the task once the operation has ended. -/
def settleStep (taskId operationId : String) : M Unit := do
  let op ← getOperation operationId
  if op.state ∈ [.unknown, .verifying, .reconciling] then
    updateRuntimeState env taskId (some .waiting) (some .verifying) "task.waiting_on_operation"
      "engine"
  else if op.state = .verified then
    updateRuntimeState env taskId (some .running) (some .observing) "task.operation_verified"
      "engine"
  else
    updateRuntimeState env taskId (some .running) (some .replanning) "task.replanning" "engine"
  settleControl env taskId true false
  let _ ← flushOutbox env
  pure ()

/-- The part of a step after its operation was prepared. -/
def stepExecute (taskId operationId : String) : M Unit := do
  updateRuntimeState env taskId none (some .executing) "task.executing" "engine"
  -- anything else `execute` raises ends the step
  let executed ← catching (Exc.isOf .leaseLost)
    (do
      executeOperation env operationId
      return true)
    (fun _ => do
      waitTask env taskId "lease:lost" "task.execution_lease_lost"
      return false)
  if executed then settleStep env taskId operationId else pure ()

/-- The part of a step under its `try`. -/
def stepAct (taskId : String) (proposal : ActionProposal) (expectedRevisions : List (String × Int))
    (taskLease : Option TaskLease) (resourceLease : Option ResourceLease) : M Unit := do
  let prepared ← catching (fun e => e.isOf .budgetExceeded || e.isOf .leaseLost)
    (do
      let operationId ← prepare env taskId proposal expectedRevisions taskLease resourceLease
      return some operationId)
    (fun e => do
      if e.kind = .budgetExceeded then
        waitTask env taskId ("budget:" ++ e.text) "task.budget_exhausted"
      else
        waitTask env taskId "lease:lost" "task.execution_lease_lost"
      return none)
  match prepared with
  | none => pure ()
  | some operationId => stepExecute env taskId operationId

/-- The part of a step after the policy allowed the action. -/
def stepResources (runner : Runner) (taskId : String) (spec : ActionSpec)
    (proposal : ActionProposal) (expectedRevisions : List (String × Int))
    (taskLease : Option TaskLease) : M Unit := do
  let s ← get
  if spec.resourceRequest.empty then
    stepAct env taskId proposal expectedRevisions taskLease none
  else
    match taskLease, s.broker with
    | none, _ => waitTask env taskId "resource:task_lease_required" "task.resource_wait"
    | some _, none => waitTask env taskId "resource:broker_unavailable" "task.resource_wait"
    | some lease, some broker =>
        let resourceLease ← acquireResources env broker taskId lease.ownerId spec.resourceRequest
          runner.resourceLeaseSeconds
        match resourceLease with
        | none => waitTask env taskId "resource:unavailable" "task.resource_wait"
        | some resourceLease =>
            -- `finally`: released however the rest of the step ends
            withCleanup
              (stepAct env taskId proposal expectedRevisions taskLease (some resourceLease))
              (do
                let s ← get
                match s.broker with
                | none => pure ()
                | some broker =>
                    let _ ← releaseResources env broker resourceLease
                    pure ())

/-- The part of a step that asks the model and consults the policy. -/
def stepModel (runner : Runner) (taskId : String) (manifest : ContextManifest)
    (taskLease : Option TaskLease) : M Unit := do
  updateRuntimeState env taskId (some .running) (some .thinking) "task.agent_step_started" "engine"
  let proposal ← callOut (env.nextAction · manifest)
  let s ← get
  let spec ← liftExcept (s.registry.resolve env.py proposal)
  let expectedRevisions ← liftExcept (manifest.expected spec.revisionDomains)
  updateRuntimeState env taskId none (some .authorizing) "task.authorizing" "engine"
  let task ← getTask taskId
  match runner.policy.evaluate task.workspaceId proposal.capability proposal.action
      spec.riskClass with
  | .deny => updateRuntimeState env taskId (some .blocked) none "agent.action.blocked" "policy"
  | .requireConfirmation =>
      updateRuntimeState env taskId (some .waiting) none "agent.action.confirmation_required"
        "policy"
  | .allow => stepResources env runner taskId spec proposal expectedRevisions taskLease

/-- `step` -/
def step (runner : Runner) (taskId : String) (manifest : ContextManifest)
    (taskLease : Option TaskLease) : M Unit := do
  let task ← getTask taskId
  let s ← get
  if manifest.workspaceId ≠ task.workspaceId then
    raise ⟨.valueError, "ContextManifest workspace does not match Task"⟩
  else if taskLease.any (fun lease => decide (lease.taskId ≠ taskId)) then
    raise ⟨.leaseLost, "task lease belongs to another task"⟩
  else if runner.requireTaskLease.getD s.persistent && taskLease.isNone then
    waitTask env taskId "lease:required" "task.execution_lease_required"
  else if task.desiredState ∈ [.paused, .cancelled] then
    settleControl env taskId true false
  else
    stepModel env runner taskId manifest taskLease

end

end LiandanluNative
