/-
# LiandanluNative.Runtime.FloatBroker — a broker without a store, at any float times.

Here `acquire`, `renew` and `release` of `resources.py` are told for whatever floats a caller passes:
the numbers are those of any linear order `τ`, a time or a `lease_seconds` may be no number at all
(`Lib.Floats`), and the sum of two floats is a parameter, which may round.  Each comparison is the one
of the source: `lease_seconds <= 0` and `current.lease_until <= ts` refuse, and `lease_until > ts`
counts a lease as unexpired.  Of a float that is no number all three say no: such a `lease_seconds` is
not refused, and the lease it makes is neither unexpired nor run out.

The timestamps `ts` of the calls are numbers, for what is no number is not later than anything.  At
exact times this is the broker of `Runtime.Resources` (`exec_exactly`).

`FloatCall.makes` says in one line what a call comes to: the lease it puts in, if any.  Whatever is
shown of a history of calls goes by that line (`FloatCall.leaves_eq`).
-/
import LiandanluNative.Lib.Floats
import LiandanluNative.Runtime.BrokerRuns

namespace LiandanluNative

open Lib (Table)
open Lib.Floats (lt le)
open Lib.Proc

/-- `ResourceLease`, with floats for its times; `none` is the float that is no number. -/
structure FloatLease (τ : Type) where
  taskId : String
  ownerId : String
  generation : Int
  request : ResourceRequest
  claimedAt : Option τ
  leaseUntil : Option τ

/-- What a lease takes of the capacity: the lease without its times. -/
def FloatLease.row {τ : Type} (lease : FloatLease τ) : ResourceLease where
  taskId := lease.taskId
  ownerId := lease.ownerId
  generation := lease.generation
  request := lease.request
  claimedAt := 0
  leaseUntil := 0

/-- `ResourceBroker`, with nothing for its `persistence`. -/
structure FloatBroker (τ : Type) where
  capacity : ResourceCapacity
  leases : Table (FloatLease.taskId : FloatLease τ → String) := .empty

/-- A call of `acquire`, `renew` or `release`. -/
inductive FloatCall (τ : Type) where
  | acquire (taskId ownerId : String) (request : ResourceRequest) (leaseSeconds : Option τ)
  | renew (lease : FloatLease τ) (leaseSeconds : Option τ)
  | release (lease : FloatLease τ)

/-- A call at a time. -/
structure FloatMove (τ : Type) where
  ts : τ
  call : FloatCall τ

/-- A broker, and the time of the last call. -/
structure FloatHistory (τ : Type) where
  broker : FloatBroker τ
  now : τ

section

variable {τ : Type} [LinearOrder τ]

namespace FloatBroker

/-- `_active` -/
def activeLeases (broker : FloatBroker τ) (ts : τ) : List (FloatLease τ) :=
  broker.leases.rows.filter (fun lease => lt (some ts) lease.leaseUntil)

/-- The unexpired leases of other tasks. -/
def othersActive (broker : FloatBroker τ) (ts : τ) (taskId : String) : List (FloatLease τ) :=
  broker.leases.rows.filter
    (fun lease => lt (some ts) lease.leaseUntil && decide (lease.taskId ≠ taskId))

/-- `previous is not None and previous.lease_until > ts`, where a task is refused a second lease. -/
def active (broker : FloatBroker τ) (taskId : String) (ts : τ) : Bool :=
  match broker.leases.get? taskId with
  | none => false
  | some previous => lt (some ts) previous.leaseUntil

/-- `1 if previous is None else previous.generation + 1` -/
def nextGeneration (broker : FloatBroker τ) (taskId : String) : Int :=
  match broker.leases.get? taskId with
  | none => 1
  | some previous => previous.generation + 1

/-- A request does not fit beside the unexpired leases of the other tasks. -/
def conflicts (broker : FloatBroker τ) (ts : τ) (taskId : String) (request : ResourceRequest) :
    Bool :=
  request.conflicts broker.capacity ((broker.othersActive ts taskId).map FloatLease.row)

/-- The lease held under the identity of `lease`. -/
def held (broker : FloatBroker τ) (lease : FloatLease τ) : Option (FloatLease τ) :=
  (broker.leases.get? lease.taskId).filter
    (fun current => decide (current.ownerId = lease.ownerId) &&
      decide (current.generation = lease.generation))

end FloatBroker

variable (zero : τ) (plus : Option τ → Option τ → Option τ)

namespace FloatCall

/-- `acquire` -/
def acquires (taskId ownerId : String) (request : ResourceRequest) (leaseSeconds : Option τ)
    (ts : τ) : EStateM Exc (FloatBroker τ) (Option (FloatLease τ)) := fun broker =>
  if taskId = "" ∨ ownerId = "" then
    .error ⟨.valueError, "task_id and owner_id are required"⟩ broker
  else if le leaseSeconds (some zero) then
    .error ⟨.valueError, "lease_seconds must be positive"⟩ broker
  else if request.exceeds broker.capacity then
    .ok none broker
  else if broker.active taskId ts then
    .ok none broker
  else if broker.conflicts ts taskId request then
    .ok none broker
  else
    let lease : FloatLease τ :=
      { taskId := taskId
        ownerId := ownerId
        generation := broker.nextGeneration taskId
        request := request
        claimedAt := some ts
        leaseUntil := plus (some ts) leaseSeconds }
    .ok (some lease) { broker with leases := broker.leases.put lease }

/-- `renew` -/
def renews (lease : FloatLease τ) (leaseSeconds : Option τ) (ts : τ) :
    EStateM Exc (FloatBroker τ) (Option (FloatLease τ)) := fun broker =>
  match broker.held lease with
  | none => .ok none broker
  | some current =>
      if le current.leaseUntil (some ts) then
        .ok none broker
      else
        -- the request and `claimed_at` are those of the argument
        let renewed := { lease with leaseUntil := plus (some ts) leaseSeconds }
        .ok (some renewed) { broker with leases := broker.leases.put renewed }

/-- `release` -/
def releases (lease : FloatLease τ) : EStateM Exc (FloatBroker τ) Bool := fun broker =>
  match broker.held lease with
  | none => .ok false broker
  | some current =>
      -- it stays in the table, for its generation
      .ok true { broker with leases := broker.leases.put { current with leaseUntil := some zero } }

/-- The broker after a call. -/
def leaves (ts : τ) (broker : FloatBroker τ) : FloatCall τ → FloatBroker τ
  | .acquire taskId ownerId request leaseSeconds =>
      after (acquires zero plus taskId ownerId request leaseSeconds ts) broker
  | .renew lease leaseSeconds => after (renews plus lease leaseSeconds ts) broker
  | .release lease => after (releases zero lease) broker

end FloatCall

def FloatHistory.exec (h : FloatHistory τ) (move : FloatMove τ) : FloatHistory τ where
  broker := move.call.leaves zero plus move.ts h.broker
  now := move.ts

/-! ## What a call puts in

A call puts in at most one lease, and removes none.
-/

namespace FloatBroker

/-- Put in the lease that was made, if any. -/
def keeping (broker : FloatBroker τ) (made : Option (FloatLease τ)) : FloatBroker τ :=
  made.elim broker (fun lease => { broker with leases := broker.leases.put lease })

omit [LinearOrder τ] in
/-- A lease is held that was made for its task, owner and generation. -/
theorem held_eq_some {broker : FloatBroker τ} {lease current : FloatLease τ} :
    broker.held lease = some current ↔ broker.leases.get? lease.taskId = some current ∧
      (current.ownerId = lease.ownerId ∧ current.generation = lease.generation) := by
  simp only [held, Option.filter_eq_some_iff, Bool.and_eq_true, decide_eq_true_eq]

end FloatBroker

/-- The lease that a call makes, if any. -/
def FloatCall.makes (ts : τ) (broker : FloatBroker τ) : FloatCall τ → Option (FloatLease τ)
  | .acquire taskId ownerId request leaseSeconds =>
      if taskId = "" ∨ ownerId = "" then none
      else if le leaseSeconds (some zero) then none
      else if request.exceeds broker.capacity then none
      else if broker.active taskId ts then none
      else if broker.conflicts ts taskId request then none
      else
        some ⟨taskId, ownerId, broker.nextGeneration taskId, request, some ts,
          plus (some ts) leaseSeconds⟩
  | .renew lease leaseSeconds =>
      (broker.held lease).bind fun current =>
        if le current.leaseUntil (some ts) then none
        else some { lease with leaseUntil := plus (some ts) leaseSeconds }
  | .release lease =>
      (broker.held lease).map fun current => { current with leaseUntil := some zero }

variable {zero plus}

/-- **A call puts in the lease it makes**, and changes nothing else. -/
theorem FloatCall.leaves_eq (ts : τ) (broker : FloatBroker τ) (call : FloatCall τ) :
    call.leaves zero plus ts broker = broker.keeping (call.makes zero plus ts broker) := by
  cases call with
  | acquire taskId ownerId request leaseSeconds =>
      show after (acquires zero plus taskId ownerId request leaseSeconds ts) broker = _
      unfold after acquires
      simp only [makes]
      -- each check is made by both
      by_cases hids : taskId = "" ∨ ownerId = ""
      · simp only [if_pos hids]
        rfl
      by_cases hseconds : le leaseSeconds (some zero) = true
      · simp only [if_neg hids, if_pos hseconds]
        rfl
      by_cases hexceeds : request.exceeds broker.capacity = true
      · simp only [if_neg hids, if_neg hseconds, if_pos hexceeds]
        rfl
      by_cases hactive : broker.active taskId ts = true
      · simp only [if_neg hids, if_neg hseconds, if_neg hexceeds, if_pos hactive]
        rfl
      by_cases hconflicts : broker.conflicts ts taskId request = true
      · simp only [if_neg hids, if_neg hseconds, if_neg hexceeds, if_neg hactive, if_pos hconflicts]
        rfl
      · simp only [if_neg hids, if_neg hseconds, if_neg hexceeds, if_neg hactive, if_neg hconflicts]
        rfl
  | renew lease leaseSeconds =>
      show after (renews plus lease leaseSeconds ts) broker = _
      unfold after renews
      simp only [makes]
      cases broker.held lease with
      | none => rfl
      | some current =>
          by_cases hexpired : le current.leaseUntil (some ts) = true
          · simp only [Option.bind_some, if_pos hexpired]
            rfl
          · simp only [Option.bind_some, if_neg hexpired]
            rfl
  | release lease =>
      show after (releases zero lease) broker = _
      unfold after releases
      simp only [makes]
      cases broker.held lease with
      | none => rfl
      | some current => rfl

end

/-! ## At exact times

Numbers are floats without the one that is no number, and added exactly.
-/

/-- A lease told in floats. -/
def ResourceLease.exactly (lease : ResourceLease) : FloatLease ℚ where
  taskId := lease.taskId
  ownerId := lease.ownerId
  generation := lease.generation
  request := lease.request
  claimedAt := some lease.claimedAt
  leaseUntil := some lease.leaseUntil

/-- The leases are told under the ids they had. -/
theorem ResourceLease.exactly_taskId (lease : ResourceLease) :
    lease.exactly.taskId = lease.taskId := rfl

def ResourceBroker.exactly (broker : ResourceBroker) : FloatBroker ℚ where
  capacity := broker.capacity
  leases := broker.leases.translate ResourceLease.exactly ResourceLease.exactly_taskId

/-- A validation changes nothing, so it is left out. -/
def BrokerCall.exactly : BrokerCall → Option (FloatCall ℚ)
  | .acquire taskId ownerId request leaseSeconds =>
      some (.acquire taskId ownerId request (some leaseSeconds))
  | .renew lease leaseSeconds => some (.renew lease.exactly (some leaseSeconds))
  | .release lease => some (.release lease.exactly)
  | .validate _ => none

/-- The addition of numbers. -/
def exactPlus : Option ℚ → Option ℚ → Option ℚ
  | some a, some b => some (a + b)
  | _, _ => none

namespace ResourceBroker

theorem exactly_get? (broker : ResourceBroker) (taskId : String) :
    broker.exactly.leases.get? taskId
      = (broker.leases.get? taskId).map ResourceLease.exactly :=
  broker.leases.get?_translate ResourceLease.exactly_taskId taskId

theorem exactly_held (broker : ResourceBroker) (lease : ResourceLease) :
    broker.exactly.held lease.exactly = (broker.held lease).map ResourceLease.exactly := by
  show (broker.exactly.leases.get? lease.taskId).filter _ = _
  rw [exactly_get?, held]
  cases broker.leases.get? lease.taskId with
  | none => rfl
  | some current =>
      rw [Option.map_some, Option.filter_some, Option.filter_some]
      show (if current.heldBy lease.ownerId lease.generation = true then _ else _) = _
      split
      · rfl
      · rfl

theorem exactly_active (broker : ResourceBroker) (taskId : String) (ts : ℚ) :
    broker.exactly.active taskId ts = broker.active taskId ts := by
  unfold FloatBroker.active active
  rw [exactly_get?]
  cases broker.leases.get? taskId with
  | none => rfl
  | some previous => rfl

theorem exactly_nextGeneration (broker : ResourceBroker) (taskId : String) :
    broker.exactly.nextGeneration taskId = broker.nextGeneration taskId := by
  unfold FloatBroker.nextGeneration nextGeneration
  rw [exactly_get?]
  cases broker.leases.get? taskId with
  | none => rfl
  | some previous => rfl

/-- A request conflicts with leases alike, whatever their times. -/
theorem exactly_conflicts (broker : ResourceBroker) (ts : ℚ) (taskId : String)
    (request : ResourceRequest) :
    broker.exactly.conflicts ts taskId request
      = request.conflicts broker.capacity (broker.othersActive ts taskId) := by
  have hrows : (broker.exactly.othersActive ts taskId).map FloatLease.row
      = (broker.othersActive ts taskId).map (fun lease => lease.exactly.row) := by
    show ((broker.leases.rows.map ResourceLease.exactly).filter _).map _ = _
    rw [List.filter_map, List.map_map]
    rfl
  unfold FloatBroker.conflicts
  rw [hrows]
  simp only [ResourceRequest.conflicts, usedCpu, usedMemory, usedGpu, activeLabels, List.map_map,
    Function.comp_def, List.flatMap_map]
  rfl

theorem exactly_keeping (broker : ResourceBroker) (made : Option ResourceLease) :
    { broker with leases := keeping broker.leases made }.exactly
      = broker.exactly.keeping (made.map ResourceLease.exactly) := by
  cases made with
  | none => rfl
  | some lease =>
      show FloatBroker.mk broker.capacity _ = FloatBroker.mk broker.capacity _
      congr 1
      exact broker.leases.translate_put ResourceLease.exactly_taskId lease

end ResourceBroker

/-- **At exact times** the broker of `Runtime.Resources` does what this one does. -/
theorem exec_exactly (env : Env) {h : BrokerHistory} (hmemory : h.broker.persistent = false)
    {move : BrokerMove} {call : FloatCall ℚ} (hcall : move.call.exactly = some call) :
    (h.exec env move).broker.exactly = call.leaves 0 exactPlus move.ts h.broker.exactly := by
  obtain ⟨ts, moved⟩ := move
  rw [BrokerHistory.exec_memory hmemory, FloatCall.leaves_eq]
  show { h.broker with leases := (h.broker.answer ts moved).2 }.exactly = _
  cases moved with
  | acquire taskId ownerId request leaseSeconds =>
      cases hcall
      -- the checks, as one choice
      have hmade : (h.broker.answer ts (.acquire taskId ownerId request leaseSeconds)).2
          = ResourceBroker.keeping h.broker.leases
              (if taskId = "" ∨ ownerId = "" then none
              else if leaseSeconds ≤ 0 then none
              else if request.exceeds h.broker.capacity then none
              else h.broker.grants taskId ownerId request leaseSeconds ts) := by
        simp only [ResourceBroker.answer, BrokerCall.refusal]
        by_cases hids : taskId = "" ∨ ownerId = ""
        · simp only [if_pos hids]
          rfl
        by_cases hseconds : leaseSeconds ≤ 0
        · simp only [if_neg hids, if_pos hseconds]
          rfl
        by_cases hexceeds : request.exceeds h.broker.capacity = true
        · simp only [if_neg hids, if_neg hseconds, if_pos hexceeds]
          rfl
        · simp only [if_neg hids, if_neg hseconds, if_neg hexceeds]
      rw [hmade, ResourceBroker.exactly_keeping]
      congr 1
      simp only [FloatCall.makes, Lib.Floats.le_some, decide_eq_true_eq,
        ResourceBroker.exactly_active, ResourceBroker.exactly_conflicts,
        ResourceBroker.exactly_nextGeneration, ResourceBroker.grants,
        apply_ite (Option.map ResourceLease.exactly), Option.map_none, Option.map_some]
      rfl
  | renew lease leaseSeconds =>
      cases hcall
      have hmade : (h.broker.answer ts (.renew lease leaseSeconds)).2
          = ResourceBroker.keeping h.broker.leases (h.broker.renews lease leaseSeconds ts) := rfl
      rw [hmade, ResourceBroker.exactly_keeping]
      congr 1
      unfold FloatCall.makes ResourceBroker.renews
      simp only [ResourceBroker.exactly_held]
      cases h.broker.held lease with
      | none => rfl
      | some current =>
          simp only [Option.bind_some, Option.map_some, apply_ite (Option.map ResourceLease.exactly),
            Option.map_none]
          exact if_congr decide_eq_true_iff.symm rfl rfl
  | release lease =>
      cases hcall
      have hmade : (h.broker.answer ts (.release lease)).2
          = ResourceBroker.keeping h.broker.leases (h.broker.releases lease) := rfl
      rw [hmade, ResourceBroker.exactly_keeping]
      congr 1
      unfold FloatCall.makes ResourceBroker.releases
      simp only [ResourceBroker.exactly_held]
      cases h.broker.held lease with
      | none => rfl
      | some current => rfl
  | validate lease => cases hcall

end LiandanluNative
