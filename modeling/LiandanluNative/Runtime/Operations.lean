/-
# LiandanluNative.Runtime.Operations — `OperationRuntime` of `runtime.py`.

`prepare` admits a proposal as an operation, `executeOperation` carries it out and has the result
verified, `recoverOperation` settles what a restart finds.  The call of a capability is
`invokeCapability`: it notes the call and the state it is made in, and the process may end while it
runs.
-/
import LiandanluNative.Runtime.Tasks

namespace LiandanluNative

open Lib (Table)

/-- Assign to fields of an operation. -/
def updateOperation (operationId : String) (set : Operation → Operation) : M Unit := do
  let op ← getOperation operationId
  setOperation (set op)

def PyVal.isNone : PyVal → Bool
  | .none => true
  | _ => false

/-- `item.get("status") == "pass"`, or `none` where the item has no `get`. -/
def passes : PyVal → Option Bool
  | .dict items =>
      match PyVal.lookup "status" .none items with
      | .str status => some (decide (status = "pass"))
      | _ => some false
  | _ => none

/-- `all(item.get("status") == "pass" for item in evidence)` -/
def allPass : List PyVal → Except Exc Bool
  | [] => .ok true
  | item :: items =>
      match passes item with
      | none => .error ⟨.attributeError, "object has no attribute get"⟩
      | some false => .ok false
      | some true => allPass items

section

variable (env : Env)

/-! ## Storing -/

/-- `_save` -/
def saveOp (operationId : String) : M Unit := do
  let op ← getOperation operationId
  persisting env fun _ => saveOperation op

/-- `_record` -/
def recordOp (operationId eventType actor : String) (payload : List (PyKey × PyVal)) :
    M Unit := do
  let op ← getOperation operationId
  let s ← get
  if s.persistent then
    let eventId ← newId env "evt"
    let occurredAt ← readClock env
    let _ ← store env (saveOperationWithOutboxEvent op
      { eventType := eventType
        actor := actor
        workspaceId := op.workspaceId
        payload := payload } eventId occurredAt)
    pure ()
  else
    let _ ← enqueueOutbox env
      { eventType := eventType
        actor := actor
        workspaceId := op.workspaceId
        taskId := some op.taskId
        operationId := some op.operationId
        objectRefs := op.objectRefs
        payload := payload }
    pure ()

/-! ## Leases

A lease is checked when an operation is prepared, and looked up again by its identity before the
effect.
-/

/-- `validate_task_lease_identity`, at the present time. -/
def taskLeaseValid (taskId ownerId : String) (generation : Int) : M Bool := do
  let ts ← readClock env
  let s ← get
  return s.db.validateTaskLeaseIdentity taskId ownerId generation ts

/-- `validate_resource_lease_identity`, at the present time. -/
def resourceLeaseValid (taskId ownerId : String) (generation : Int) : M Bool := do
  let ts ← readClock env
  let s ← get
  return s.db.validateResourceLeaseIdentity taskId ownerId generation ts

/-- The checks of `prepare` on one of its leases: the task it is for, and the store's answer. -/
def checkLease (taskId leaseTaskId foreign stale : String) (valid : M Bool) : M Unit :=
  if leaseTaskId ≠ taskId then
    raise ⟨.leaseLost, foreign⟩
  else do
    let s ← get
    if s.persistent then
      if ← valid then pure () else raise ⟨.leaseLost, stale⟩
    else
      pure ()

/-- The task-lease checks of `prepare`. -/
def checkTaskLease (taskId : String) : Option TaskLease → M Unit
  | none => pure ()
  | some lease =>
      checkLease taskId lease.taskId "task lease belongs to another task"
        "task lease is stale or expired" (taskLeaseValid env taskId lease.ownerId lease.generation)

/-- The resource-lease checks of `prepare`. -/
def checkResourceLease (taskId : String) : Option ResourceLease → M Unit
  | none => pure ()
  | some lease =>
      checkLease taskId lease.taskId "resource lease belongs to another task"
        "resource lease is stale or expired"
        (resourceLeaseValid env taskId lease.ownerId lease.generation)

/-- The check `execute` makes of an identity an operation carries. -/
def recheckLease (ownerId : Option String) (generation : Option Int) (lost : String)
    (valid : String → Int → M Bool) : M Unit := do
  let s ← get
  match s.persistent, ownerId with
  | true, some ownerId =>
      -- `int(op.…_generation)`, which an operation that was loaded may lack
      match generation with
      | none => raise ⟨.typeError, "int() argument must not be NoneType"⟩
      | some generation =>
          if ← valid ownerId generation then pure () else raise ⟨.leaseLost, lost⟩
  | _, _ => pure ()

/-! ## Preparing -/

/-- The operation a proposal becomes. -/
def ActionProposal.operation (proposal : ActionProposal) (operationId : String) (task : Task)
    (spec : ActionSpec) (expectedRevisions : List (String × Int)) (taskLease : Option TaskLease)
    (resourceLease : Option ResourceLease) : Operation where
  operationId := operationId
  taskId := task.taskId
  workspaceId := task.workspaceId
  capability := proposal.capability
  action := proposal.action
  objectRefs := proposal.objectRefs
  arguments := proposal.arguments
  riskClass := spec.riskClass
  requiredPermission := spec.requiredPermission
  idempotencyMode := spec.idempotencyMode.value
  state := .prepared
  expectedRevisions := expectedRevisions
  taskLeaseOwnerId := taskLease.map TaskLease.ownerId
  taskLeaseGeneration := taskLease.map TaskLease.generation
  resourceLeaseOwnerId := resourceLease.map ResourceLease.ownerId
  resourceLeaseGeneration := resourceLease.map ResourceLease.generation

/-- The task after an operation was started on it. -/
def Task.started (t : Task) : Task :=
  { t with
    budget := { t.budget with operationsStarted := t.budget.operationsStarted + 1 }
    revision := t.revision + 1 }

/-- What `prepare` checks before it takes an id. -/
def admitProposal (task : Task) (proposal : ActionProposal)
    (expectedRevisions : List (String × Int)) (taskLease : Option TaskLease)
    (resourceLease : Option ResourceLease) : M ActionSpec := do
  let s ← get
  let spec ← liftExcept (s.registry.resolve env.py proposal)
  liftExcept (s.world.assertRevisions (some task.workspaceId) expectedRevisions)
  liftExcept (s.world.assertAccessAll spec.requiredPermission task.workspaceId proposal.objectRefs)
  checkTaskLease env task.taskId taskLease
  checkResourceLease env task.taskId resourceLease
  return spec

/-- What `prepare` writes once the budget allows the operation. -/
def startOperation (task : Task) (op : Operation) : M Unit := do
  setTask task.started
  bumpTasks env
  setOperation op
  let payload := PyVal.payload
    [("budget_operations_started", .int task.started.budget.operationsStarted),
      ("budget_max_operations", .int task.budget.maxOperations)]
  let s ← get
  if s.persistent then
    let eventId ← newId env "evt"
    let occurredAt ← readClock env
    let _ ← store env (saveTaskAndOperationWithOutboxEvent task.started op
      { eventType := "operation.prepared"
        actor := "engine"
        workspaceId := op.workspaceId
        payload := payload } eventId occurredAt)
    pure ()
  else
    let _ ← enqueueOutbox env
      { eventType := "operation.prepared"
        actor := "engine"
        workspaceId := op.workspaceId
        taskId := some op.taskId
        operationId := some op.operationId
        objectRefs := op.objectRefs
        payload := payload }
    pure ()

/-- `prepare`; the result is the id of the operation. -/
def prepare (taskId : String) (proposal : ActionProposal)
    (expectedRevisions : List (String × Int)) (taskLease : Option TaskLease)
    (resourceLease : Option ResourceLease) : M String := do
  let task ← getTask taskId
  let spec ← admitProposal env task proposal expectedRevisions taskLease resourceLease
  let operationId ← newId env "op"
  let op := proposal.operation operationId task spec expectedRevisions taskLease resourceLease
  let at_ ← readClock env
  match task.budget.blockReason at_ with
  | some reason => raise ⟨.budgetExceeded, reason⟩
  | none =>
      startOperation env task op
      return operationId

/-! ## Executing

The source has one method here.  It is cut at the gates, at the call of the capability and at the
judgement of the evidence, which recovery has in common with it.
-/

/-- `capability.verify(op, op.result)` -/
def callVerify (op : Operation) : M PyVal := do
  let evidence ← callOut (env.verify · op op.result)
  modify fun s =>
    { s with findings := s.findings ++ [.verified op.operationId op.result evidence] }
  return evidence

/-- What `_verify` does with the evidence. -/
def judgeEvidence (operationId : String) (evidence : PyVal) : M Unit := do
  match evidence.iterate with
  | none => raise ⟨.typeError, "object is not iterable"⟩
  | some items =>
      updateOperation operationId (fun op => { op with evidence := op.evidence ++ items })
      -- outside of the `try`: what an item without `get` raises is not recorded
      let passed ← if evidence.truthy then liftExcept (allPass items) else pure false
      if passed then
        updateOperation operationId (fun op => { op with state := .verified })
        recordOp env operationId "operation.verified" "verifier"
          (PyVal.payload [("evidence", evidence)])
      else
        updateOperation operationId (fun op => { op with state := .failed })
        recordOp env operationId "operation.verification_failed" "verifier"
          (PyVal.payload [("evidence", evidence)])

/-- `_verify` -/
def verifyOperation (operationId : String) : M Unit := do
  let op ← getOperation operationId
  if op.result.isNone then
    updateOperation operationId (fun op => { op with state := .unknown })
    recordOp env operationId "operation.verify_missing_result" "verifier" []
  else
    updateOperation operationId (fun op => { op with state := .verifying })
    saveOp env operationId
    let evidence ← catching Exc.isException
      (do
        let op ← getOperation operationId
        let evidence ← callVerify env op
        return some evidence)
      (fun e => do
        updateOperation operationId (fun op => { op with error := some e.repr })
        recordOp env operationId "operation.verify_error" "verifier"
          (PyVal.payload [("error", .str e.repr)])
        return none)
    match evidence with
    | none => pure ()
    | some evidence => judgeEvidence env operationId evidence

/-- `capability.execute(op, locators)` -/
def invokeCapability (operationId : String) (locators : List String) : M PyVal := do
  let op ← getOperation operationId
  modify fun s =>
    { s with
      invocations := s.invocations ++
        [{ op := op
           locators := locators
           tasks := s.tasks
           world := s.world
           db := s.db
           clockReads := s.clockReads }] }
  -- the side effect may be done when the process ends here
  boundary env
  callOut (env.execute · op locators)

/-- What `execute` checks before anything happens; the result is the locators. -/
def executeGates (operationId : String) : M (List String) := do
  let op ← getOperation operationId
  recheckLease op.taskLeaseOwnerId op.taskLeaseGeneration
    "task lease was lost before side effect execution" (taskLeaseValid env op.taskId)
  recheckLease op.resourceLeaseOwnerId op.resourceLeaseGeneration
    "resource lease was lost before side effect execution" (resourceLeaseValid env op.taskId)
  let s ← get
  if op.capability ∉ s.capabilities then
    raise (keyError op.capability)
  else
    liftExcept (s.world.assertRevisions (some op.workspaceId) op.expectedRevisions)
    liftExcept (s.world.resolveLocators op.requiredPermission op.workspaceId op.objectRefs)

/-- `execute` once its checks have passed. -/
def carryOut (operationId : String) (locators : List String) : M Unit := do
  updateOperation operationId (fun op => { op with state := .running })
  recordOp env operationId "operation.started" "engine" []
  let result ← catching Exc.isException
    (do
      let result ← invokeCapability env operationId locators
      return some result)
    (fun e => do
      updateOperation operationId (fun op => { op with state := .unknown, error := some e.repr })
      recordOp env operationId "operation.unknown" "engine" (PyVal.payload [("error", .str e.repr)])
      return none)
  match result with
  | none => pure ()
  | some result =>
      updateOperation operationId (fun op => { op with result := result, state := .observed })
      saveOp env operationId
      verifyOperation env operationId

/-- `execute` -/
def executeOperation (operationId : String) : M Unit := do
  let locators ← executeGates env operationId
  carryOut env operationId locators

/-! ## Recovering -/

/-- `capability.reconcile(op, locators)`, with the locators resolved first. -/
def callReconcile (op : Operation) : M (PyVal × PyVal) := do
  let s ← get
  let locators ← liftExcept
    (s.world.resolveLocators op.requiredPermission op.workspaceId op.objectRefs)
  let answer ← callOut (env.reconcile · op locators)
  modify fun s =>
    { s with findings := s.findings ++ [.reconciled op.operationId answer.1 answer.2] }
  return answer

/-- `recover_operation` from RUNNING, UNKNOWN or RECONCILING on. -/
def reconcileOperation (operationId : String) : M Unit := do
  updateOperation operationId (fun op => { op with state := .reconciling })
  recordOp env operationId "operation.reconciling" "recovery" []
  let answer ← catching Exc.isException
    (do
      let op ← getOperation operationId
      let answer ← callReconcile env op
      return some answer)
    (fun e => do
      updateOperation operationId (fun op => { op with state := .unknown, error := some e.repr })
      recordOp env operationId "operation.reconcile_error" "recovery"
        (PyVal.payload [("error", .str e.repr)])
      return none)
  match answer with
  | none => pure ()
  | some (verified, result) =>
      updateOperation operationId
        (fun op =>
          { op with result := result, state := if verified.truthy then .verified else .failed })
      recordOp env operationId "operation.reconciled" "recovery"
        (PyVal.payload [("verified", verified)])

/-- `recover_operation` -/
def recoverOperation (operationId : String) : M Unit := do
  let op ← getOperation operationId
  if op.state = .prepared then
    updateOperation operationId (fun op => { op with state := .cancelled })
    recordOp env operationId "operation.abandoned_prepared" "recovery"
      (PyVal.payload [("reason", .str "no external execution was recorded before restart")])
  else
    let s ← get
    -- `self.capabilities[op.capability]`, which nothing catches
    if op.capability ∉ s.capabilities then
      raise (keyError op.capability)
    else if op.state ∈ [.observed, .verifying] ∧ op.result.isNone = false then
      verifyOperation env operationId
    else if op.state ∈ [.running, .unknown, .reconciling] then
      reconcileOperation env operationId
    else
      pure ()

end

end LiandanluNative
