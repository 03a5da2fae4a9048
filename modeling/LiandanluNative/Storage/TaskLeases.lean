/-
# LiandanluNative.Storage.TaskLeases — `claim_next_task` and the task-lease methods of `storage.py`.

Each method is one transaction.  `now_ts` is the argument the caller passed or the clock reading the
method took; it is called `ts` as in the source.  Times are numbers, and are added exactly; what floats
do to the sum is left to the modules about it: the claim takes the addition as a parameter (`plus`),
for the order in which repeated claims draw the tasks, and `Runtime.FloatLeases` has all grants of
leases at any floats, NaN included.
-/
import LiandanluNative.Storage.Database
import Mathlib.Data.List.Sort
import Mathlib.Data.Prod.Lex
import Mathlib.Data.String.Basic

namespace LiandanluNative

open Lib (Table)

/-! ## Claiming

One query finds the first claimable task, and one statement writes its lease, in one transaction.
-/

/-- The `WHERE` clause of the claim query. -/
def Database.claimable (db : Database) (ts : ℚ) (t : Task) : Bool :=
  decide (t.state = .queued) && decide (t.desiredState = .running) && t.queuedAt.isSome &&
    match db.taskLeases.get? t.taskId with
    | none => true
    | some l => decide (l.leaseUntil ≤ ts)

/-- The `ORDER BY` key: the interactive lane first, then the higher priority, the older queueing
time and the smaller id. -/
def Task.claimKey (t : Task) : ℕ ×ₗ ℤ ×ₗ ℚ ×ₗ String :=
  toLex (if t.lane = "interactive" then 0 else 1,
    toLex (-t.priority, toLex (t.queuedAt.getD 0, t.taskId)))

/-- The first row of the claim query. -/
def Database.nextClaimable (db : Database) (ts : ℚ) : Option Task :=
  ((db.tasks.rows.filter (db.claimable ts)).insertionSort
    (fun a b => a.claimKey ≤ b.claimKey)).head?

/-- `1 if row["generation"] is None else int(row["generation"]) + 1` -/
def Database.nextTaskGeneration (db : Database) (taskId : String) : Int :=
  match db.taskLeases.get? taskId with
  | none => 1
  | some l => l.generation + 1

/-- `claim_next_task` -/
def claimNextTaskWith (plus : ℚ → ℚ → ℚ) (ownerId : String) (leaseSeconds ts : ℚ) :
    Txn (Option TaskLease) := fun db =>
  if ownerId = "" then
    .error ⟨.valueError, "owner_id is required"⟩ db
  else if leaseSeconds ≤ 0 then
    .error ⟨.valueError, "lease_seconds must be positive"⟩ db
  else
    match db.nextClaimable ts with
    | none => .ok none db
    | some row =>
        -- the id is that of a row, so of the texts only the owner's may be refused
        match binds [.text ownerId] db with
        | .error e _ => .error e db
        | .ok _ _ =>
            let lease : TaskLease :=
              { taskId := row.taskId
                ownerId := ownerId
                generation := db.nextTaskGeneration row.taskId
                claimedAt := ts
                leaseUntil := plus ts leaseSeconds }
            .ok (some lease) { db with taskLeases := db.taskLeases.put lease }

/-- `claim_next_task` at exact times. -/
def claimNextTask (ownerId : String) (leaseSeconds ts : ℚ) : Txn (Option TaskLease) :=
  claimNextTaskWith (· + ·) ownerId leaseSeconds ts

/-! ## Renewing, releasing, validating -/

/-- The row names the same holder: `owner_id=? AND generation=?`. -/
def TaskLease.heldBy (row : TaskLease) (ownerId : String) (generation : Int) : Bool :=
  decide (row.ownerId = ownerId) && decide (row.generation = generation)

/-- `renew_task_lease` -/
def renewTaskLease (lease : TaskLease) (leaseSeconds ts : ℚ) : Txn (Option TaskLease) := fun db =>
  if leaseSeconds ≤ 0 then
    .error ⟨.valueError, "lease_seconds must be positive"⟩ db
  else
    let renewed := { lease with leaseUntil := ts + leaseSeconds }
    match db.taskLeases.get? lease.taskId with
    | none => .ok none db
    | some row =>
        if row.heldBy lease.ownerId lease.generation && decide (ts < row.leaseUntil) then
          .ok (some renewed)
            { db with
              taskLeases := db.taskLeases.put { row with leaseUntil := renewed.leaseUntil } }
        else
          .ok none db

/-- `release_task_lease` -/
def releaseTaskLease (lease : TaskLease) : Txn Bool := fun db =>
  match db.taskLeases.get? lease.taskId with
  | none => .ok false db
  | some row =>
      if row.heldBy lease.ownerId lease.generation then
        .ok true { db with taskLeases := db.taskLeases.put { row with leaseUntil := 0 } }
      else
        .ok false db

/-- `validate_task_lease_identity` -/
def Database.validateTaskLeaseIdentity (db : Database) (taskId ownerId : String)
    (generation : Int) (ts : ℚ) : Bool :=
  match db.taskLeases.get? taskId with
  | none => false
  | some row => row.heldBy ownerId generation && decide (ts < row.leaseUntil)

theorem TaskLease.heldBy_iff {row : TaskLease} {ownerId : String} {generation : Int} :
    row.heldBy ownerId generation = true ↔ row.ownerId = ownerId ∧ row.generation = generation := by
  simp [TaskLease.heldBy]

/-! ## What each method can do -/

/-- A claimed task satisfies the query's `WHERE` clause. -/
theorem Database.nextClaimable_mem {db : Database} {ts : ℚ} {t : Task}
    (h : db.nextClaimable ts = some t) : t ∈ db.tasks.rows ∧ db.claimable ts t = true := by
  have hmem := List.mem_of_mem_head? h
  rw [List.mem_insertionSort, List.mem_filter] at hmem
  exact hmem

/-- The query only picks a task whose lease row, if it has one, has run out. -/
theorem Database.lease_expired_of_nextClaimable {db : Database} {ts : ℚ} {t : Task}
    (h : db.nextClaimable ts = some t) {l : TaskLease}
    (hl : db.taskLeases.get? t.taskId = some l) : l.leaseUntil ≤ ts := by
  have hc := (db.nextClaimable_mem h).2
  simp only [Database.claimable, hl, Bool.and_eq_true, decide_eq_true_eq] at hc
  exact hc.2

/-- A claim raises, finds nothing, or puts in the next lease of a task whose last one has run out.
-/
theorem claimNextTaskWith_cases (plus : ℚ → ℚ → ℚ) (ownerId : String) (leaseSeconds ts : ℚ)
    (db : Database) :
    (∃ e, claimNextTaskWith plus ownerId leaseSeconds ts db = .error e db) ∨
    claimNextTaskWith plus ownerId leaseSeconds ts db = .ok none db ∨
    ∃ lease : TaskLease,
      claimNextTaskWith plus ownerId leaseSeconds ts db
        = .ok (some lease) { db with taskLeases := db.taskLeases.put lease } ∧
      lease.ownerId = ownerId ∧
      lease.generation = db.nextTaskGeneration lease.taskId ∧
      lease.leaseUntil = plus ts leaseSeconds ∧
      ∀ l, db.taskLeases.get? lease.taskId = some l → l.leaseUntil ≤ ts := by
  unfold claimNextTaskWith
  by_cases ho : ownerId = ""
  · exact Or.inl ⟨_, if_pos ho⟩
  rw [if_neg ho]
  by_cases hs : leaseSeconds ≤ 0
  · exact Or.inl ⟨_, if_pos hs⟩
  rw [if_neg hs]
  cases hn : db.nextClaimable ts with
  | none => exact Or.inr (Or.inl rfl)
  | some row =>
      by_cases howner : Bindable [.text ownerId]
      swap
      · obtain ⟨e, he⟩ := binds_of_refused howner db
        exact Or.inl ⟨e, by simp only [he]⟩
      simp only [binds_of_bindable howner]
      refine Or.inr (Or.inr ⟨_, rfl, rfl, rfl, rfl, ?_⟩)
      intro l hl
      exact db.lease_expired_of_nextClaimable hn hl

theorem claimNextTask_cases (ownerId : String) (leaseSeconds ts : ℚ) (db : Database) :
    (∃ e, claimNextTask ownerId leaseSeconds ts db = .error e db) ∨
    claimNextTask ownerId leaseSeconds ts db = .ok none db ∨
    ∃ lease : TaskLease,
      claimNextTask ownerId leaseSeconds ts db
        = .ok (some lease) { db with taskLeases := db.taskLeases.put lease } ∧
      lease.ownerId = ownerId ∧
      lease.generation = db.nextTaskGeneration lease.taskId ∧
      lease.leaseUntil = ts + leaseSeconds ∧
      ∀ l, db.taskLeases.get? lease.taskId = some l → l.leaseUntil ≤ ts :=
  claimNextTaskWith_cases (· + ·) ownerId leaseSeconds ts db

theorem Database.validateTaskLeaseIdentity_iff {db : Database} {taskId ownerId : String}
    {generation : Int} {ts : ℚ} :
    db.validateTaskLeaseIdentity taskId ownerId generation ts = true ↔
      ∃ row, db.taskLeases.get? taskId = some row ∧
        (row.ownerId = ownerId ∧ row.generation = generation) ∧ ts < row.leaseUntil := by
  unfold Database.validateTaskLeaseIdentity
  cases db.taskLeases.get? taskId with
  | none => simp
  | some row => simp [TaskLease.heldBy_iff]

/-- A renewal raises, changes nothing, or moves the expiry of the unexpired row the lease names. -/
theorem renewTaskLease_cases (lease : TaskLease) (leaseSeconds ts : ℚ) (db : Database) :
    (leaseSeconds ≤ 0 ∧ ∃ e, renewTaskLease lease leaseSeconds ts db = .error e db) ∨
    (db.validateTaskLeaseIdentity lease.taskId lease.ownerId lease.generation ts = false ∧
      renewTaskLease lease leaseSeconds ts db = .ok none db) ∨
    ∃ row, db.taskLeases.get? lease.taskId = some row ∧
      (row.ownerId = lease.ownerId ∧ row.generation = lease.generation) ∧ ts < row.leaseUntil ∧
      renewTaskLease lease leaseSeconds ts db
        = .ok (some { lease with leaseUntil := ts + leaseSeconds })
            { db with
              taskLeases := db.taskLeases.put { row with leaseUntil := ts + leaseSeconds } } := by
  unfold renewTaskLease Database.validateTaskLeaseIdentity
  by_cases hs : leaseSeconds ≤ 0
  · exact Or.inl ⟨hs, _, if_pos hs⟩
  right
  rw [if_neg hs]
  cases hrow : db.taskLeases.get? lease.taskId with
  | none => exact Or.inl ⟨rfl, rfl⟩
  | some row =>
      cases hheld : row.heldBy lease.ownerId lease.generation && decide (ts < row.leaseUntil) with
      | false =>
          left
          simp only [hheld, Bool.false_eq_true, if_false, and_self]
      | true =>
          right
          have hboth := Bool.and_eq_true_iff.mp hheld
          refine ⟨row, rfl, TaskLease.heldBy_iff.mp hboth.1, of_decide_eq_true hboth.2, ?_⟩
          simp only [hheld, if_true]

/-- A release changes nothing, or makes the row the lease names run out. -/
theorem releaseTaskLease_cases (lease : TaskLease) (db : Database) :
    releaseTaskLease lease db = .ok false db ∨
    ∃ row, db.taskLeases.get? lease.taskId = some row ∧
      (row.ownerId = lease.ownerId ∧ row.generation = lease.generation) ∧
      releaseTaskLease lease db
        = .ok true { db with taskLeases := db.taskLeases.put { row with leaseUntil := 0 } } := by
  unfold releaseTaskLease
  cases hrow : db.taskLeases.get? lease.taskId with
  | none => exact Or.inl rfl
  | some row =>
      cases hheld : row.heldBy lease.ownerId lease.generation with
      | false => exact Or.inl (by simp only [hheld, Bool.false_eq_true, if_false])
      | true =>
          refine Or.inr ⟨row, rfl, TaskLease.heldBy_iff.mp hheld, ?_⟩
          simp only [hheld, if_true]

end LiandanluNative
