/-
# LiandanluNative.Storage.ResourceLeases — the resource-lease methods of `storage.py`.

Admission counts every unexpired lease of another task; renewal does not look at the capacity at
all.  What a lease is granted for has to fit into its row; that the id of the task can be bound is
found out first.

Each method has one lemma that says all it can come to (`acquireResourceLease_cases`,
`renewResourceLease_cases`, `releaseResourceLease_cases`), and later modules use no more of it than
that.
-/
import LiandanluNative.Storage.Database
import Mathlib.Algebra.GroupWithZero.Nat

namespace LiandanluNative

open Lib (Table)

/-! ## Usage

What the other tasks have of the capacity is summed up from the rows, for each call anew.
-/

/-- The rows of `SELECT * FROM resource_leases WHERE lease_until>? AND task_id<>?`. -/
def Database.otherActiveLeases (db : Database) (ts : ℚ) (taskId : String) : List ResourceLease :=
  db.resourceLeases.rows.filter (fun row =>
    decide (ts < row.leaseUntil) && decide (row.taskId ≠ taskId))

/-- `sum(row["cpu_units"] for row in rows)` -/
def usedCpu (rows : List ResourceLease) : Nat := (rows.map (fun row => row.request.cpuUnits)).sum

/-- `sum(row["memory_mb"] for row in rows)` -/
def usedMemory (rows : List ResourceLease) : Nat := (rows.map (fun row => row.request.memoryMb)).sum

/-- `sum(row["gpu_units"] for row in rows)` -/
def usedGpu (rows : List ResourceLease) : Nat := (rows.map (fun row => row.request.gpuUnits)).sum

/-- The labels of the rows. -/
def activeLabels (rows : List ResourceLease) : List String :=
  rows.flatMap (fun row => row.request.exclusiveLabels)

/-- The request alone is larger than the capacity. -/
def ResourceRequest.exceeds (r : ResourceRequest) (capacity : ResourceCapacity) : Bool :=
  decide (capacity.cpuUnits < r.cpuUnits ∨ capacity.memoryMb < r.memoryMb ∨
    capacity.gpuUnits < r.gpuUnits)

/-- The request does not fit beside the given leases, or claims a label one of them has, however
much of the rest is left. -/
def ResourceRequest.conflicts (r : ResourceRequest) (capacity : ResourceCapacity)
    (rows : List ResourceLease) : Bool :=
  decide (capacity.cpuUnits < usedCpu rows + r.cpuUnits ∨
    capacity.memoryMb < usedMemory rows + r.memoryMb ∨
    capacity.gpuUnits < usedGpu rows + r.gpuUnits ∨
    ∃ label ∈ activeLabels rows, label ∈ r.exclusiveLabels)

/-! ## The methods -/

/-- `1 if existing is None else int(existing["generation"]) + 1`; no method deletes a row, so no
generation is given out twice for one task. -/
def Database.nextResourceGeneration (db : Database) (taskId : String) : Int :=
  match db.resourceLeases.get? taskId with
  | none => 1
  | some existing => existing.generation + 1

/-- `existing is not None and existing["lease_until"] > ts` -/
def Database.resourceLeaseActive (db : Database) (taskId : String) (ts : ℚ) : Bool :=
  match db.resourceLeases.get? taskId with
  | none => false
  | some existing => decide (ts < existing.leaseUntil)

/-- What the row of a lease takes from a call, other than its key; a generation only ever goes up by
one. -/
def ResourceRequest.columns (request : ResourceRequest) (ownerId : String) : List Column :=
  [.text ownerId, .int request.cpuUnits, .int request.memoryMb, .int request.gpuUnits]

/-- `acquire_resource_lease` -/
def acquireResourceLease (taskId ownerId : String) (request : ResourceRequest)
    (capacity : ResourceCapacity) (leaseSeconds ts : ℚ) : Txn (Option ResourceLease) := fun db =>
  if taskId = "" ∨ ownerId = "" then
    .error ⟨.valueError, "task_id and owner_id are required"⟩ db
  else if leaseSeconds ≤ 0 then
    .error ⟨.valueError, "lease_seconds must be positive"⟩ db
  else if request.exceeds capacity then
    .ok none db
  else
    match binds [.text taskId] db with
    | .error e _ => .error e db
    | .ok _ _ =>
        if db.resourceLeaseActive taskId ts then
          .ok none db
        else if request.conflicts capacity (db.otherActiveLeases ts taskId) then
          .ok none db
        else
          match binds (request.columns ownerId) db with
          | .error e _ => .error e db
          | .ok _ _ =>
              let lease : ResourceLease :=
                { taskId := taskId
                  ownerId := ownerId
                  generation := db.nextResourceGeneration taskId
                  request := request
                  claimedAt := ts
                  leaseUntil := ts + leaseSeconds }
              .ok (some lease) { db with resourceLeases := db.resourceLeases.put lease }

/-- The row names the same holder: `owner_id=? AND generation=?`. -/
def ResourceLease.heldBy (row : ResourceLease) (ownerId : String) (generation : Int) : Bool :=
  decide (row.ownerId = ownerId) && decide (row.generation = generation)

/-- `renew_resource_lease` -/
def renewResourceLease (lease : ResourceLease) (leaseSeconds ts : ℚ) :
    Txn (Option ResourceLease) := fun db =>
  if leaseSeconds ≤ 0 then
    .error ⟨.valueError, "lease_seconds must be positive"⟩ db
  else
    let renewed := { lease with leaseUntil := ts + leaseSeconds }
    match db.resourceLeases.get? lease.taskId with
    | none => .ok none db
    | some row =>
        if row.heldBy lease.ownerId lease.generation && decide (ts < row.leaseUntil) then
          .ok (some renewed)
            { db with
              resourceLeases := db.resourceLeases.put { row with leaseUntil := renewed.leaseUntil } }
        else
          .ok none db

/-- `release_resource_lease` -/
def releaseResourceLease (lease : ResourceLease) : Txn Bool := fun db =>
  match db.resourceLeases.get? lease.taskId with
  | none => .ok false db
  | some row =>
      if row.heldBy lease.ownerId lease.generation then
        .ok true { db with resourceLeases := db.resourceLeases.put { row with leaseUntil := 0 } }
      else
        .ok false db

/-- `validate_resource_lease_identity` -/
def Database.validateResourceLeaseIdentity (db : Database) (taskId ownerId : String)
    (generation : Int) (ts : ℚ) : Bool :=
  match db.resourceLeases.get? taskId with
  | none => false
  | some row => row.heldBy ownerId generation && decide (ts < row.leaseUntil)

/-- `validate_resource_lease` -/
def Database.validateResourceLease (db : Database) (lease : ResourceLease) (ts : ℚ) : Bool :=
  match db.resourceLeases.get? lease.taskId with
  | none => false
  | some row =>
      row.heldBy lease.ownerId lease.generation && decide (ts < row.leaseUntil) &&
        decide (row.request.cpuUnits = lease.request.cpuUnits) &&
        decide (row.request.memoryMb = lease.request.memoryMb) &&
        decide (row.request.gpuUnits = lease.request.gpuUnits) &&
        decide (row.request.exclusiveLabels = lease.request.exclusiveLabels)

/-- The comparison of both columns, as a fact about them. -/
theorem ResourceLease.heldBy_iff {row : ResourceLease} {ownerId : String} {generation : Int} :
    row.heldBy ownerId generation = true ↔ row.ownerId = ownerId ∧ row.generation = generation := by
  simp [ResourceLease.heldBy]

/-! ## What each method can do -/

/-- A task may be given a lease if it has none or its last one has run out. -/
theorem Database.resourceLeaseActive_eq_false {db : Database} {taskId : String} {ts : ℚ} :
    db.resourceLeaseActive taskId ts = false ↔
      ∀ row, db.resourceLeases.get? taskId = some row → row.leaseUntil ≤ ts := by
  unfold Database.resourceLeaseActive
  cases db.resourceLeases.get? taskId with
  | none => simp
  | some row => simp

/-- An acquisition raises, is refused, or puts in the next lease of a task whose last one has run
out, for a request that fits beside the unexpired leases of the other tasks. -/
theorem acquireResourceLease_cases (taskId ownerId : String) (request : ResourceRequest)
    (capacity : ResourceCapacity) (leaseSeconds ts : ℚ) (db : Database) :
    (∃ e, acquireResourceLease taskId ownerId request capacity leaseSeconds ts db = .error e db) ∨
    acquireResourceLease taskId ownerId request capacity leaseSeconds ts db = .ok none db ∨
    ∃ lease : ResourceLease,
      acquireResourceLease taskId ownerId request capacity leaseSeconds ts db
        = .ok (some lease) { db with resourceLeases := db.resourceLeases.put lease } ∧
      (lease.taskId = taskId ∧ lease.ownerId = ownerId ∧ lease.request = request) ∧
      lease.generation = db.nextResourceGeneration taskId ∧
      lease.leaseUntil = ts + leaseSeconds ∧
      (∀ row, db.resourceLeases.get? taskId = some row → row.leaseUntil ≤ ts) ∧
      request.conflicts capacity (db.otherActiveLeases ts taskId) = false := by
  unfold acquireResourceLease
  -- the branches in the order of the source: each raises or refuses, and changes nothing
  by_cases hids : taskId = "" ∨ ownerId = ""
  · exact Or.inl ⟨_, if_pos hids⟩
  rw [if_neg hids]
  by_cases hs : leaseSeconds ≤ 0
  · exact Or.inl ⟨_, if_pos hs⟩
  rw [if_neg hs]
  by_cases hbig : request.exceeds capacity = true
  · exact Or.inr (Or.inl (if_pos hbig))
  rw [if_neg hbig]
  by_cases htask : Bindable [.text taskId]
  swap
  · obtain ⟨e, he⟩ := binds_of_refused htask db
    exact Or.inl ⟨e, by simp only [he]⟩
  simp only [binds_of_bindable htask]
  by_cases hactive : db.resourceLeaseActive taskId ts = true
  · exact Or.inr (Or.inl (if_pos hactive))
  rw [if_neg hactive]
  by_cases hconf : request.conflicts capacity (db.otherActiveLeases ts taskId) = true
  · exact Or.inr (Or.inl (if_pos hconf))
  rw [if_neg hconf]
  by_cases hrow : Bindable (request.columns ownerId)
  swap
  · obtain ⟨e, he⟩ := binds_of_refused hrow db
    exact Or.inl ⟨e, by simp only [he]⟩
  simp only [binds_of_bindable hrow]
  rw [Bool.not_eq_true] at hactive hconf
  refine Or.inr (Or.inr ⟨_, rfl, ⟨rfl, rfl, rfl⟩, rfl, rfl, ?_, hconf⟩)
  exact Database.resourceLeaseActive_eq_false.mp hactive

/-- A lease that is given out was written, so its row could be. -/
theorem acquireResourceLease_bindable {taskId ownerId : String} {request : ResourceRequest}
    {capacity : ResourceCapacity} {leaseSeconds ts : ℚ} {db db' : Database} {lease : ResourceLease}
    (hgiven : acquireResourceLease taskId ownerId request capacity leaseSeconds ts db
      = .ok (some lease) db') :
    Bindable [.text taskId] ∧ Bindable (request.columns ownerId) := by
  by_contra hrefused
  unfold acquireResourceLease at hgiven
  split at hgiven
  · cases hgiven
  split at hgiven
  · cases hgiven
  split at hgiven
  · cases hgiven
  by_cases htask : Bindable [.text taskId]
  swap
  · obtain ⟨e, he⟩ := binds_of_refused htask db
    simp only [he, reduceCtorEq] at hgiven
  simp only [binds_of_bindable htask] at hgiven
  split at hgiven
  · cases hgiven
  split at hgiven
  · cases hgiven
  obtain ⟨e, he⟩ := binds_of_refused (fun hrow => hrefused ⟨htask, hrow⟩) db
  simp only [he, reduceCtorEq] at hgiven

/-- A lease is valid by its identity if a row has its task, owner and generation. -/
theorem Database.validateResourceLeaseIdentity_iff {db : Database} {taskId ownerId : String}
    {generation : Int} {ts : ℚ} :
    db.validateResourceLeaseIdentity taskId ownerId generation ts = true ↔
      ∃ row, db.resourceLeases.get? taskId = some row ∧
        (row.ownerId = ownerId ∧ row.generation = generation) ∧ ts < row.leaseUntil := by
  unfold Database.validateResourceLeaseIdentity
  cases db.resourceLeases.get? taskId with
  | none => simp
  | some row => simp [ResourceLease.heldBy_iff]

/-- A renewal raises, changes nothing, or moves the expiry of the unexpired row the lease names. -/
theorem renewResourceLease_cases (lease : ResourceLease) (leaseSeconds ts : ℚ) (db : Database) :
    (leaseSeconds ≤ 0 ∧ ∃ e, renewResourceLease lease leaseSeconds ts db = .error e db) ∨
    (db.validateResourceLeaseIdentity lease.taskId lease.ownerId lease.generation ts = false ∧
      renewResourceLease lease leaseSeconds ts db = .ok none db) ∨
    ∃ row, db.resourceLeases.get? lease.taskId = some row ∧
      (row.ownerId = lease.ownerId ∧ row.generation = lease.generation) ∧ ts < row.leaseUntil ∧
      renewResourceLease lease leaseSeconds ts db
        = .ok (some { lease with leaseUntil := ts + leaseSeconds })
            { db with
              resourceLeases :=
                db.resourceLeases.put { row with leaseUntil := ts + leaseSeconds } } := by
  unfold renewResourceLease Database.validateResourceLeaseIdentity
  by_cases hs : leaseSeconds ≤ 0
  · exact Or.inl ⟨hs, _, if_pos hs⟩
  right
  rw [if_neg hs]
  cases hrow : db.resourceLeases.get? lease.taskId with
  | none => exact Or.inl ⟨rfl, rfl⟩
  | some row =>
      cases hheld : row.heldBy lease.ownerId lease.generation && decide (ts < row.leaseUntil) with
      | false =>
          left
          simp only [hheld, Bool.false_eq_true, if_false, and_self]
      | true =>
          right
          have hboth := Bool.and_eq_true_iff.mp hheld
          refine ⟨row, rfl, ResourceLease.heldBy_iff.mp hboth.1, of_decide_eq_true hboth.2, ?_⟩
          simp only [hheld, if_true]

/-- A release changes nothing, or makes the row the lease names run out. -/
theorem releaseResourceLease_cases (lease : ResourceLease) (db : Database) :
    releaseResourceLease lease db = .ok false db ∨
    ∃ row, db.resourceLeases.get? lease.taskId = some row ∧
      (row.ownerId = lease.ownerId ∧ row.generation = lease.generation) ∧
      releaseResourceLease lease db
        = .ok true
            { db with resourceLeases := db.resourceLeases.put { row with leaseUntil := 0 } } := by
  unfold releaseResourceLease
  cases hrow : db.resourceLeases.get? lease.taskId with
  | none => exact Or.inl rfl
  | some row =>
      cases hheld : row.heldBy lease.ownerId lease.generation with
      | false => exact Or.inl (by simp only [hheld, Bool.false_eq_true, if_false])
      | true =>
          refine Or.inr ⟨row, rfl, ResourceLease.heldBy_iff.mp hheld, ?_⟩
          simp only [hheld, if_true]

end LiandanluNative
