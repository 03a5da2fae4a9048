/-
# LiandanluNative.Runtime.Resources — the resource broker of `resources.py`.

A broker hands out leases from the store, if it has one, or from its own memory.
-/
import LiandanluNative.System

namespace LiandanluNative

open Lib (Table)

namespace ResourceBroker

/-- `_active` -/
def activeLeases (broker : ResourceBroker) (ts : ℚ) : List ResourceLease :=
  broker.leases.rows.filter (fun lease => decide (ts < lease.leaseUntil))

/-- The unexpired leases of other tasks. -/
def othersActive (broker : ResourceBroker) (ts : ℚ) (taskId : String) : List ResourceLease :=
  broker.leases.rows.filter
    (fun lease => decide (ts < lease.leaseUntil) && decide (lease.taskId ≠ taskId))

/-- `previous is not None and previous.lease_until > ts` -/
def active (broker : ResourceBroker) (taskId : String) (ts : ℚ) : Bool :=
  match broker.leases.get? taskId with
  | none => false
  | some previous => decide (ts < previous.leaseUntil)

/-- `1 if previous is None else previous.generation + 1` -/
def nextGeneration (broker : ResourceBroker) (taskId : String) : Int :=
  match broker.leases.get? taskId with
  | none => 1
  | some previous => previous.generation + 1

/-- The lease an acquisition without a store grants at `ts`, if any. -/
def grants (broker : ResourceBroker) (taskId ownerId : String) (request : ResourceRequest)
    (leaseSeconds ts : ℚ) : Option ResourceLease :=
  if broker.active taskId ts then none
  else if request.conflicts broker.capacity (broker.othersActive ts taskId) then none
  else
    some
      { taskId := taskId
        ownerId := ownerId
        generation := broker.nextGeneration taskId
        request := request
        claimedAt := ts
        leaseUntil := ts + leaseSeconds }

/-- What is granted is the next lease of a task whose last one has run out, for a request that fits
beside the unexpired leases of the other tasks. -/
theorem grants_eq_some {broker : ResourceBroker} {taskId ownerId : String}
    {request : ResourceRequest} {leaseSeconds ts : ℚ} {lease : ResourceLease}
    (h : broker.grants taskId ownerId request leaseSeconds ts = some lease) :
    (lease.taskId = taskId ∧ lease.ownerId = ownerId ∧ lease.request = request) ∧
      lease.generation = broker.nextGeneration taskId ∧ lease.leaseUntil = ts + leaseSeconds ∧
      broker.active taskId ts = false ∧
      request.conflicts broker.capacity (broker.othersActive ts taskId) = false := by
  unfold grants at h
  split at h
  · cases h
  rename_i hactive
  split at h
  · cases h
  rename_i hconflict
  rw [Bool.not_eq_true] at hactive hconflict
  cases h
  exact ⟨⟨rfl, rfl, rfl⟩, rfl, rfl, hactive, hconflict⟩

/-- The lease held in memory under the identity of `lease`. -/
def held (broker : ResourceBroker) (lease : ResourceLease) : Option ResourceLease :=
  (broker.leases.get? lease.taskId).filter (·.heldBy lease.ownerId lease.generation)

end ResourceBroker

/-- Put a lease into the broker's memory. -/
def putBrokerLease (broker : ResourceBroker) (lease : ResourceLease) : M Unit :=
  modify fun s => { s with broker := some { broker with leases := broker.leases.put lease } }

section

variable (env : Env)

/-- `acquire` -/
def acquireResources (broker : ResourceBroker) (taskId ownerId : String)
    (request : ResourceRequest) (leaseSeconds : ℚ) : M (Option ResourceLease) :=
  if taskId = "" ∨ ownerId = "" then
    raise ⟨.valueError, "task_id and owner_id are required"⟩
  else if leaseSeconds ≤ 0 then
    raise ⟨.valueError, "lease_seconds must be positive"⟩
  else if request.exceeds broker.capacity then
    pure none
  else do
    let ts ← readClock env
    if broker.persistent then
      store env (acquireResourceLease taskId ownerId request broker.capacity leaseSeconds ts)
    else
      match broker.grants taskId ownerId request leaseSeconds ts with
      | none => pure none
      | some lease =>
          putBrokerLease broker lease
          return some lease

/-- `renew` -/
def renewResources (broker : ResourceBroker) (lease : ResourceLease) (leaseSeconds : ℚ) :
    M (Option ResourceLease) := do
  let ts ← readClock env
  if broker.persistent then
    store env (renewResourceLease lease leaseSeconds ts)
  else
    match broker.held lease with
    | none => pure none
    | some current =>
        if current.leaseUntil ≤ ts then
          pure none
        else
          -- the request and `claimed_at` are those of the argument
          let renewed := { lease with leaseUntil := ts + leaseSeconds }
          putBrokerLease broker renewed
          return some renewed

/-- `release` -/
def releaseResources (broker : ResourceBroker) (lease : ResourceLease) : M Bool :=
  if broker.persistent then
    store env (releaseResourceLease lease)
  else
    match broker.held lease with
    | none => pure false
    | some current => do
        -- it stays in the table, for its generation
        putBrokerLease broker { current with leaseUntil := 0 }
        return true

/-- `validate` -/
def validateResources (broker : ResourceBroker) (lease : ResourceLease) : M Bool := do
  let ts ← readClock env
  if broker.persistent then
    let s ← get
    return s.db.validateResourceLease lease ts
  else
    match broker.held lease with
    | none => return false
    | some current => return decide (ts < current.leaseUntil)

end

end LiandanluNative
