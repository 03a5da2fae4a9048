/-
# LiandanluNative.Models — the records of `models.py`.

Field for field as the source declares them, defaults included.  A `frozenset` whose iteration order
the code never observes is a `Finset`; timestamps are exact rationals; counters that only this code
writes stay integers, since a caller may hand in any integer in a lease.  `ResourceRequest` and
`ResourceCapacity` check in `__post_init__` that no unit is negative: their unit fields are natural
numbers, so a request the constructor would reject cannot be built.  A dictionary a record holds is
the list of its items.
-/
import LiandanluNative.Value
import Mathlib.Data.Finset.Basic

namespace LiandanluNative

/-! ## Enumerations -/

inductive TaskState where
  | created
  | queued
  | running
  | waiting
  | pausing
  | paused
  | cancelling
  | blocked
  | completed
  | failed
  | cancelled
  deriving DecidableEq, Repr

/-- The string an enumeration member is stored as. -/
def TaskState.value : TaskState → String
  | .created => "CREATED"
  | .queued => "QUEUED"
  | .running => "RUNNING"
  | .waiting => "WAITING"
  | .pausing => "PAUSING"
  | .paused => "PAUSED"
  | .cancelling => "CANCELLING"
  | .blocked => "BLOCKED"
  | .completed => "COMPLETED"
  | .failed => "FAILED"
  | .cancelled => "CANCELLED"

/-- `state in {COMPLETED, FAILED, CANCELLED}`, the set `queue` and `control` test for. -/
def TaskState.terminal : TaskState → Bool
  | .completed => true
  | .failed => true
  | .cancelled => true
  | _ => false

inductive TaskPhase where
  | observing
  | thinking
  | authorizing
  | executing
  | verifying
  | replanning
  deriving DecidableEq, Repr

def TaskPhase.value : TaskPhase → String
  | .observing => "OBSERVING"
  | .thinking => "THINKING"
  | .authorizing => "AUTHORIZING"
  | .executing => "EXECUTING"
  | .verifying => "VERIFYING"
  | .replanning => "REPLANNING"

inductive OperationState where
  | proposed
  | authorized
  | prepared
  | running
  | observed
  | verifying
  | verified
  | failed
  | unknown
  | reconciling
  | blocked
  | cancelled
  deriving DecidableEq, Repr

inductive RiskClass where
  | read
  | reversible
  | mutating
  | external
  | destructive
  deriving DecidableEq, Repr

/-! ## Revisions and budgets

The counters of the world, one for each domain and a global one, and the limits of a task.
-/

/-- The counters of the world, one for each domain and one over all of them. -/
structure WorldRevisions where
  globalRevision : Int := 0
  desktop : Int := 0
  workspace : Int := 0
  browser : Int := 0
  media : Int := 0
  tasks : Int := 0
  deriving DecidableEq, Repr

/-- What `getattr(revisions, name)` finds: a counter, another attribute of the object (a method or a
class attribute, never equal to a revision), or nothing. -/
inductive RevisionAttr where
  | counter (value : Int)
  | other
  | missing
  deriving DecidableEq, Repr

/-- The attributes of a revisions object that are not counters. -/
def WorldRevisions.otherAttrs : List String :=
  ["bump", "__class__", "__dataclass_fields__", "__dataclass_params__", "__delattr__", "__dir__",
    "__doc__", "__eq__", "__format__", "__ge__", "__getattribute__", "__getstate__", "__gt__",
    "__hash__", "__init__", "__init_subclass__", "__le__", "__lt__", "__match_args__", "__module__",
    "__ne__", "__new__", "__reduce__", "__reduce_ex__", "__replace__", "__repr__", "__setattr__",
    "__setstate__", "__sizeof__", "__slots__", "__static_attributes__", "__str__",
    "__subclasshook__"]

/-- `getattr(revisions, domain)`, with `missing` where `hasattr` is false. -/
def WorldRevisions.attr (r : WorldRevisions) (domain : String) : RevisionAttr :=
  if domain = "global_revision" then .counter r.globalRevision
  else if domain = "desktop" then .counter r.desktop
  else if domain = "workspace" then .counter r.workspace
  else if domain = "browser" then .counter r.browser
  else if domain = "media" then .counter r.media
  else if domain = "tasks" then .counter r.tasks
  else if domain ∈ otherAttrs then .other
  else .missing

/-- `bump("tasks")`, the only domain the runtime bumps. -/
def WorldRevisions.bumpTasks (r : WorldRevisions) : WorldRevisions :=
  { r with tasks := r.tasks + 1, globalRevision := r.globalRevision + 1 }

structure TaskBudget where
  maxOperations : Int := 64
  operationsStarted : Int := 0
  deadlineAt : Option ℚ := none
  deriving DecidableEq

/-- Why no further operation may start at time `at_`, if so. A negative maximum means no maximum. -/
def TaskBudget.blockReason (b : TaskBudget) (at_ : ℚ) : Option String :=
  if 0 ≤ b.maxOperations ∧ b.maxOperations ≤ b.operationsStarted then
    some "max_operations"
  else
    match b.deadlineAt with
    | some deadline => if deadline ≤ at_ then some "deadline" else none
    | none => none

/-! ## Leases and resources -/

structure TaskLease where
  taskId : String
  ownerId : String
  generation : Int
  claimedAt : ℚ
  leaseUntil : ℚ
  deriving DecidableEq

structure ResourceRequest where
  cpuUnits : Nat := 0
  memoryMb : Nat := 0
  gpuUnits : Nat := 0
  exclusiveLabels : List String := []
  deriving DecidableEq, Repr

def ResourceRequest.empty (r : ResourceRequest) : Bool :=
  decide (r.cpuUnits = 0 ∧ r.memoryMb = 0 ∧ r.gpuUnits = 0 ∧ r.exclusiveLabels = [])

structure ResourceCapacity where
  cpuUnits : Nat
  memoryMb : Nat
  gpuUnits : Nat
  deriving DecidableEq, Repr

structure ResourceLease where
  taskId : String
  ownerId : String
  generation : Int
  request : ResourceRequest
  claimedAt : ℚ
  leaseUntil : ℚ
  deriving DecidableEq

/-! ## Entities, tasks, operations, events

The records that the runtimes work on.  A field that the source may leave as `None` is an `Option`.
-/

structure Entity where
  entityId : String
  entityType : String
  workspaceId : String
  locator : String
  version : Int := 1
  status : String := "active"
  metadata : List (PyKey × PyVal) := []
  permissions : Finset String := {"read"}

/-- The budget is held by value, so every task has its own: a budget that several tasks hold is
`Task.sharing`. -/
structure Task where
  taskId : String
  workspaceId : String
  goal : String
  successCriteria : List String
  constraints : List String := []
  state : TaskState := .created
  desiredState : TaskState := .created
  phase : TaskPhase := .observing
  priority : Int := 50
  lane : String := "background"
  queuedAt : Option ℚ := none
  waitReason : Option String := none
  budget : TaskBudget := {}
  revision : Int := 1
  deriving DecidableEq

/-- An operation. `result` is `PyVal.none` until a result is stored. -/
structure Operation where
  operationId : String
  taskId : String
  workspaceId : String
  capability : String
  action : String
  objectRefs : List String
  arguments : List (PyKey × PyVal)
  riskClass : RiskClass
  requiredPermission : String := "read"
  idempotencyMode : String := "RECONCILABLE"
  state : OperationState := .proposed
  expectedRevisions : List (String × Int) := []
  evidence : List PyVal := []
  result : PyVal := .none
  error : Option String := none
  taskLeaseOwnerId : Option String := none
  taskLeaseGeneration : Option Int := none
  resourceLeaseOwnerId : Option String := none
  resourceLeaseGeneration : Option Int := none

structure Event where
  sequence : Int
  eventId : String
  workspaceId : String
  eventType : String
  actor : String
  taskId : Option String
  operationId : Option String
  objectRefs : List String
  payload : List (PyKey × PyVal)
  causationId : Option String
  correlationId : Option String
  occurredAt : ℚ
  observedAt : ℚ
  learningAllowed : Bool := true

structure ActionProposal where
  proposalId : String
  capability : String
  action : String
  objectRefs : List String
  arguments : List (PyKey × PyVal) := []
  expectedOutcome : String := ""
  confidence : Option ℚ := some 1

structure GoalClaim where
  criterion : String
  passed : Bool
  evidenceRefs : List String
  deriving DecidableEq, Repr

/-! ## Memory records (`memory.py`) -/

inductive MemoryKind where
  | fact
  | episode
  | strategy
  deriving DecidableEq, Repr

inductive StrategyState where
  | candidate
  | supported
  | promoted
  | rejected
  deriving DecidableEq, Repr

/-- `MemoryKind(text)`, or `none` where Python raises `ValueError`. -/
def MemoryKind.parse (text : String) : Option MemoryKind :=
  if text = "FACT" then some .fact
  else if text = "EPISODE" then some .episode
  else if text = "STRATEGY" then some .strategy
  else none

structure MemoryCandidate where
  workspaceId : String
  kind : MemoryKind
  key : String
  value : PyVal
  scope : String
  sourceEventIds : List String
  confidence : Option ℚ
  explicitUserStatement : Bool := false

structure MemoryRecord where
  memoryId : String
  workspaceId : String
  kind : MemoryKind
  key : String
  value : PyVal
  scope : String
  sourceEventIds : List String
  confidence : Option ℚ
  revision : Int
  supersedes : Option String := none
  strategyState : Option StrategyState := none
  supportCount : Int := 1
  supportEventIds : List String := []

end LiandanluNative
