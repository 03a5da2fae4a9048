/-
# LiandanluNative.Runtime.Recovery — `RecoveryCoordinator` of `recovery.py`.

`restart` is the end of one process and the start of the next: only the database survives; the new
process opens it, and `from_store` hydrates an engine from it with the registry, the capabilities
and the broker the process is given.
-/
import LiandanluNative.Runtime.Agent

namespace LiandanluNative

open Lib (Table)
open Lib.Proc

/-- `load_tasks` -/
def Database.loadTasks (db : Database) : Table Task.taskId := db.tasks

/-- `load_operations` -/
def Database.loadOperations (db : Database) : Table Operation.operationId := db.operations

/-- `from_store`, in a new process. The counters of the environment go on. -/
def Sys.restart (s : Sys) (registry : CapabilityRegistry) (capabilities : List String)
    (broker : Option ResourceBroker) : Sys where
  persistent := true
  world := s.db.reopened.loadWorldModel
  tasks := s.db.reopened.loadTasks
  operations := s.db.reopened.loadOperations
  registry := registry
  capabilities := capabilities
  broker := broker
  db := s.db.reopened
  clockReads := s.clockReads
  ids := s.ids
  calls := s.calls
  boundaries := s.boundaries
  invocations := s.invocations
  findings := s.findings

/-- The states `recover` hands to `recover_operation`. -/
def OperationState.unsettled : OperationState → Bool
  | .prepared => true
  | .running => true
  | .unknown => true
  | .reconciling => true
  | .observed => true
  | .verifying => true
  | _ => false

/-- For how many elements the computation returned true. -/
def countM {α : Type} (f : α → M Bool) : List α → M ℕ
  | [] => pure 0
  | x :: xs => do
      let counted ← f x
      let rest ← countM f xs
      return if counted then rest + 1 else rest

section

variable (env : Env)

/-- One operation of the loop of `recover`: whether it was handed to `recover_operation`. -/
def recoverIfUnsettled (operationId : String) : M Bool := do
  let op ← getOperation operationId
  if op.state.unsettled then
    recoverOperation env operationId
    return true
  else
    return false

/-- One task of the loop of `recover`: whether its state changed. -/
def settleIfRequested (taskId : String) : M Bool := do
  let task ← getTask taskId
  if task.desiredState ∈ [.paused, .cancelled] then
    settleControl env taskId true false
    let settled ← getTask taskId
    return decide (settled.state ≠ task.state)
  else
    return false

/-- `recover`: how many operations were reconciled, and how many controls settled. -/
def recover : M (ℕ × ℕ) := do
  let s ← get
  let reconciled ← countM (recoverIfUnsettled env) (s.operations.rows.map Operation.operationId)
  let s ← get
  let settled ← countM (settleIfRequested env) (s.tasks.rows.map Task.taskId)
  let _ ← flushOutbox env
  return (reconciled, settled)

end

end LiandanluNative
