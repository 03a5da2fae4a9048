/-
# LiandanluNative.Runtime.StepCalls — a step, over the calls it makes.

`step` is a fixed way through calls of other objects.  Here it is written over those calls, whatever
they do (`StepCalls`), in two parts: `stepAdmit` up to the `try`, and what is under it, with the
`finally` that gives the resources back (`stepFinish`).  It says by which way it came to its end
(`StepExit`).  With the calls there really are it is `step` (`stepWith_real`); with others it is a
step whose calls fail, or are interrupted, in any way there is.
-/
import LiandanluNative.Runtime.Agent

namespace LiandanluNative

open Lib.Proc

/-- The ways a step returns. -/
inductive StepExit where
  /-- It came without the lease it needs. -/
  | unleased
  /-- It was asked to pause or to cancel, and settled that. -/
  | settled
  /-- The policy denied the action. -/
  | blocked
  /-- The policy asks for a confirmation. -/
  | unconfirmed
  /-- There is no lease or no broker for what the action needs. -/
  | unresourced
  /-- The broker has no room for what the action needs. -/
  | unavailable
  /-- `prepare` found the budget spent. -/
  | exhausted
  /-- `prepare` found a lease lost. -/
  | refused
  /-- `execute` found a lease lost. -/
  | lost
  /-- The operation has ended in this state. -/
  | finished (operation : OperationState)
  deriving DecidableEq

/-- What a step makes of its task once the operation has ended, and the event it records. -/
structure StepOutcome where
  state : TaskState
  phase : TaskPhase
  eventType : String

/-- What a step makes of the state its operation was left in. -/
def OperationState.outcome (state : OperationState) : StepOutcome :=
  if state ∈ [.unknown, .verifying, .reconciling] then
    ⟨.waiting, .verifying, "task.waiting_on_operation"⟩
  else if state = .verified then ⟨.running, .observing, "task.operation_verified"⟩
  else ⟨.running, .replanning, "task.replanning"⟩

/-- What is to be done under the `try`. -/
structure Admitted where
  proposal : ActionProposal
  expectedRevisions : List (String × Int)
  resourceLease : Option ResourceLease

/-- The lease a step comes to its `try` with, if it comes there and has acquired one. -/
def StepExit.leased : StepExit ⊕ Admitted → Option ResourceLease
  | .inl _ => none
  | .inr admitted => admitted.resourceLease

/-- The calls of a step, each with the arguments that differ from one step to the next. -/
structure StepCalls where
  wait (reason eventType : String) : M Unit
  update (state : Option TaskState) (phase : Option TaskPhase) (eventType actor : String) : M Unit
  settle : M Unit
  nextAction : M ActionProposal
  resolve (proposal : ActionProposal) : M ActionSpec
  evaluate (proposal : ActionProposal) (spec : ActionSpec) : M PolicyDecision
  acquire (broker : ResourceBroker) (ownerId : String) (request : ResourceRequest) :
    M (Option ResourceLease)
  prepare (proposal : ActionProposal) (expectedRevisions : List (String × Int))
    (resourceLease : Option ResourceLease) : M String
  execute (operationId : String) : M Unit
  flush : M Unit
  release (resourceLease : ResourceLease) : M Unit

namespace StepCalls

/-- The calls there are. -/
def real (env : Env) (runner : Runner) (taskId : String) (manifest : ContextManifest)
    (taskLease : Option TaskLease) : StepCalls where
  wait := waitTask env taskId
  update := updateRuntimeState env taskId
  settle := settleControl env taskId true false
  nextAction := callOut (env.nextAction · manifest)
  resolve proposal := do
    let s ← get
    liftExcept (s.registry.resolve env.py proposal)
  evaluate proposal spec := do
    let task ← getTask taskId
    return runner.policy.evaluate task.workspaceId proposal.capability proposal.action
      spec.riskClass
  acquire broker ownerId request :=
    acquireResources env broker taskId ownerId request runner.resourceLeaseSeconds
  prepare proposal expectedRevisions resourceLease :=
    LiandanluNative.prepare env taskId proposal expectedRevisions taskLease resourceLease
  execute := executeOperation env
  flush := do
    let _ ← flushOutbox env
    pure ()
  release resourceLease := do
    let s ← get
    match s.broker with
    | none => pure ()
    | some broker =>
        let _ ← releaseResources env broker resourceLease
        pure ()

end StepCalls

section

variable (calls : StepCalls)

/-- `settleStep` -/
def settleStepWith (operationId : String) : M StepExit := do
  let op ← getOperation operationId
  let outcome := op.state.outcome
  calls.update (some outcome.state) (some outcome.phase) outcome.eventType "engine"
  calls.settle
  calls.flush
  return .finished op.state

/-- `stepExecute` -/
def stepExecuteWith (operationId : String) : M StepExit := do
  calls.update none (some .executing) "task.executing" "engine"
  let executed ← catching (Exc.isOf .leaseLost)
    (do
      calls.execute operationId
      return true)
    (fun _ => do
      calls.wait "lease:lost" "task.execution_lease_lost"
      return false)
  if executed then settleStepWith calls operationId else return .lost

/-- `stepAct` -/
def stepActWith (admitted : Admitted) : M StepExit := do
  let prepared : StepExit ⊕ String ← catching (fun e => e.isOf .budgetExceeded || e.isOf .leaseLost)
    (do
      let operationId ← calls.prepare admitted.proposal admitted.expectedRevisions
        admitted.resourceLease
      return .inr operationId)
    (fun e => do
      if e.kind = .budgetExceeded then
        calls.wait ("budget:" ++ e.text) "task.budget_exhausted"
        return .inl .exhausted
      else
        calls.wait "lease:lost" "task.execution_lease_lost"
        return .inl .refused)
  match prepared with
  | .inl exit => return exit
  | .inr operationId => stepExecuteWith calls operationId

/-- The `try`, with its `finally`, if the step comes to it. -/
def stepFinish : StepExit ⊕ Admitted → M StepExit
  | .inl exit => pure exit
  | .inr admitted =>
      match admitted.resourceLease with
      | none => stepActWith calls admitted
      | some lease => withCleanup (stepActWith calls admitted) (calls.release lease)

/-- What the action needs, up to the `try`. -/
def stepAcquire (spec : ActionSpec) (proposal : ActionProposal)
    (expectedRevisions : List (String × Int)) (taskLease : Option TaskLease) :
    M (StepExit ⊕ Admitted) := do
  let s ← get
  if spec.resourceRequest.empty then
    return .inr ⟨proposal, expectedRevisions, none⟩
  else
    match taskLease, s.broker with
    | none, _ => do
        calls.wait "resource:task_lease_required" "task.resource_wait"
        return .inl .unresourced
    | some _, none => do
        calls.wait "resource:broker_unavailable" "task.resource_wait"
        return .inl .unresourced
    | some lease, some broker => do
        let resourceLease ← calls.acquire broker lease.ownerId spec.resourceRequest
        match resourceLease with
        | none => do
            calls.wait "resource:unavailable" "task.resource_wait"
            return .inl .unavailable
        | some resourceLease => return .inr ⟨proposal, expectedRevisions, some resourceLease⟩

/-- The model and the policy. -/
def stepDecide (manifest : ContextManifest) (taskLease : Option TaskLease) :
    M (StepExit ⊕ Admitted) := do
  calls.update (some .running) (some .thinking) "task.agent_step_started" "engine"
  let proposal ← calls.nextAction
  let spec ← calls.resolve proposal
  let expectedRevisions ← liftExcept (manifest.expected spec.revisionDomains)
  calls.update none (some .authorizing) "task.authorizing" "engine"
  let decision ← calls.evaluate proposal spec
  match decision with
  | .deny => do
      calls.update (some .blocked) none "agent.action.blocked" "policy"
      return .inl .blocked
  | .requireConfirmation => do
      calls.update (some .waiting) none "agent.action.confirmation_required" "policy"
      return .inl .unconfirmed
  | .allow => stepAcquire calls spec proposal expectedRevisions taskLease

/-- The step up to its `try`. -/
def stepAdmit (runner : Runner) (taskId : String) (manifest : ContextManifest)
    (taskLease : Option TaskLease) : M (StepExit ⊕ Admitted) := do
  let task ← getTask taskId
  let s ← get
  if manifest.workspaceId ≠ task.workspaceId then
    raise ⟨.valueError, "ContextManifest workspace does not match Task"⟩
  else if taskLease.any (fun lease => decide (lease.taskId ≠ taskId)) then
    raise ⟨.leaseLost, "task lease belongs to another task"⟩
  else if runner.requireTaskLease.getD s.persistent && taskLease.isNone then do
    calls.wait "lease:required" "task.execution_lease_required"
    return .inl .unleased
  else if task.desiredState ∈ [.paused, .cancelled] then do
    calls.settle
    return .inl .settled
  else
    stepDecide calls manifest taskLease

/-- A step over the calls. -/
def stepWith (runner : Runner) (taskId : String) (manifest : ContextManifest)
    (taskLease : Option TaskLease) : M StepExit := do
  let admitted ← stepAdmit calls runner taskId manifest taskLease
  stepFinish calls admitted

end

/-! ## The step there is

A step in which nothing is called in between is the step of `Runtime.Agent`.  This is what ties the
step with requests to the one of the source.
-/

/-- What a method does, without what it returns. -/
def quietly {α : Type} (m : M α) : M Unit := do
  let _ ← m
  pure ()

/-- `quietly` forgets the way by which a step returned, which the source does not return. -/
theorem quietly_pure {α : Type} (a : α) : quietly (pure a : M α) = pure () := rfl

/-- Of a sequence it is the last call whose result is forgotten. -/
theorem quietly_bind {α β : Type} (m : M α) (f : α → M β) :
    quietly (m >>= f) = m >>= fun a => quietly (f a) := bind_assoc m f _

/-- Of a choice it is the result of either branch. -/
theorem quietly_ite {α : Type} {c : Prop} [Decidable c] (m m' : M α) :
    quietly (if c then m else m') = if c then quietly m else quietly m' := by
  split <;> rfl

/-- A `finally` returns nothing, so the body's result is forgotten. -/
theorem quietly_withCleanup {α : Type} (body : M α) (cleanup : M Unit) :
    quietly (withCleanup body cleanup) = withCleanup (quietly body) cleanup := by
  funext s
  simp only [quietly, withCleanup, ensuring, bind, EStateM.bind]
  cases body s with
  | ok a t =>
      dsimp only [pure, EStateM.pure]
      cases cleanup t <;> rfl
  | error fault t =>
      cases hcrash : fault.isCrash with
      | true => simp only [hcrash, if_true]
      | false =>
          simp only [hcrash, Bool.false_eq_true, if_false]
          cases cleanup t <;> rfl

/-- Two ways to say how a `try` has ended, and to go on from that. -/
theorem catching_bind_congr {α β β' γ : Type} {catches : Exc → Bool} (body : M α) {ended : α → β}
    {ended' : α → β'} {handler : Exc → M β} {handler' : Exc → M β'} {f : β → M γ} {f' : β' → M γ}
    (hended : ∀ a, f (ended a) = f' (ended' a))
    (hcaught : ∀ e, (handler e >>= f) = (handler' e >>= f')) :
    (catching catches (body >>= fun a => pure (ended a)) handler >>= f)
      = (catching catches (body >>= fun a => pure (ended' a)) handler' >>= f') := by
  funext s
  simp only [catching, handling, bind, EStateM.bind]
  cases body s with
  | ok a t =>
      dsimp only [pure, EStateM.pure]
      rw [hended a]
  | error fault t =>
      cases fault with
      | crash => rfl
      | raised e =>
          by_cases hcatches : catches e = true
          · simp only [if_pos hcatches]
            exact congrFun (hcaught e) t
          · simp only [if_neg hcatches]
            rfl

section

variable (env : Env) (runner : Runner) (taskId : String) (manifest : ContextManifest)
  (taskLease : Option TaskLease)

/-- **With the real calls** each part is the part of `Runtime.Agent`, from the end of the step to
its beginning. -/
theorem quietly_settleStepWith (operationId : String) :
    quietly (settleStepWith (.real env runner taskId manifest taskLease) operationId)
      = settleStep env taskId operationId := by
  unfold settleStepWith settleStep OperationState.outcome
  simp only [quietly_bind, quietly_pure, StepCalls.real, bind_assoc, pure_bind]
  refine bind_congr (fun op => ?_)
  split
  · rfl
  split
  · rfl
  · rfl

theorem quietly_stepExecuteWith (operationId : String) :
    quietly (stepExecuteWith (.real env runner taskId manifest taskLease) operationId)
      = stepExecute env taskId operationId := by
  unfold stepExecuteWith stepExecute
  rw [quietly_bind]
  refine bind_congr (fun _ => ?_)
  rw [quietly_bind]
  refine bind_congr (fun executed => ?_)
  rw [quietly_ite, quietly_settleStepWith, quietly_pure]

theorem quietly_stepActWith (admitted : Admitted) :
    quietly (stepActWith (.real env runner taskId manifest taskLease) admitted)
      = stepAct env taskId admitted.proposal admitted.expectedRevisions taskLease
        admitted.resourceLease := by
  have hexecute := quietly_stepExecuteWith env runner taskId manifest taskLease
  unfold stepActWith stepAct
  rw [quietly_bind]
  refine catching_bind_congr _ (fun operationId => hexecute operationId) (fun e => ?_)
  split
  · simp only [bind_assoc, pure_bind]
    rfl
  · simp only [bind_assoc, pure_bind]
    rfl

/-- Up to here a part returns what the next one needs, so what is shown is that the two together are
the part of the source. -/
theorem stepAcquire_finish (spec : ActionSpec) (proposal : ActionProposal)
    (expectedRevisions : List (String × Int)) :
    (stepAcquire (.real env runner taskId manifest taskLease) spec proposal expectedRevisions
        taskLease >>= fun admitted =>
      quietly (stepFinish (.real env runner taskId manifest taskLease) admitted))
      = stepResources env runner taskId spec proposal expectedRevisions taskLease := by
  have hact := quietly_stepActWith env runner taskId manifest taskLease
  unfold stepAcquire stepResources
  rw [bind_assoc]
  refine bind_congr (fun s => ?_)
  split
  · exact (pure_bind _ _).trans (hact ⟨proposal, expectedRevisions, none⟩)
  cases taskLease with
  | none => exact (bind_assoc _ _ _).trans bind_pure_unit
  | some lease =>
      cases s.broker with
      | none => exact (bind_assoc _ _ _).trans bind_pure_unit
      | some broker =>
          refine (bind_assoc _ _ _).trans (bind_congr (fun acquired => ?_))
          cases acquired with
          | none => exact (bind_assoc _ _ _).trans bind_pure_unit
          | some resourceLease =>
              refine (pure_bind _ _).trans ((quietly_withCleanup _ _).trans ?_)
              rw [hact]
              rfl

theorem stepDecide_finish :
    (stepDecide (.real env runner taskId manifest taskLease) manifest taskLease >>= fun admitted =>
      quietly (stepFinish (.real env runner taskId manifest taskLease) admitted))
      = stepModel env runner taskId manifest taskLease := by
  have hacquire := stepAcquire_finish env runner taskId manifest taskLease
  unfold stepDecide stepModel
  simp only [bind_assoc]
  refine bind_congr (fun _ => bind_congr (fun proposal => ?_))
  refine (bind_assoc _ _ _).trans (bind_congr (fun s => bind_congr (fun spec => ?_)))
  refine bind_congr (fun expectedRevisions => bind_congr (fun _ => ?_))
  refine (bind_assoc _ _ _).trans (bind_congr (fun task => ?_))
  refine (pure_bind _ _).trans ?_
  cases runner.policy.evaluate task.workspaceId proposal.capability proposal.action
      spec.riskClass with
  | deny => exact (bind_assoc _ _ _).trans bind_pure_unit
  | requireConfirmation => exact (bind_assoc _ _ _).trans bind_pure_unit
  | allow => exact hacquire spec proposal expectedRevisions

/-- **With the calls there are it is the step there is.** -/
theorem stepWith_real :
    quietly (stepWith (.real env runner taskId manifest taskLease) runner taskId manifest taskLease)
      = step env runner taskId manifest taskLease := by
  have hdecide := stepDecide_finish env runner taskId manifest taskLease
  unfold stepWith stepAdmit step
  simp only [bind_assoc, quietly_bind]
  refine bind_congr (fun task => bind_congr (fun s => ?_))
  split
  · rfl
  split
  · rfl
  split
  · exact (bind_assoc _ _ _).trans bind_pure_unit
  split
  · exact (bind_assoc _ _ _).trans bind_pure_unit
  · exact hdecide

end

end LiandanluNative
