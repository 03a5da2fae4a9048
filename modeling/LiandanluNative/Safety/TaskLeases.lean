/-
# LiandanluNative.Safety.TaskLeases — what a task lease guarantees.

A `TaskLeaseHistory` is the database together with everything that happened to its task leases: the
leases that claims returned, and the identities that are *gone* (released, seen expired by a call,
or followed by a newer claim of the same task).  Owners call in any order with any handles, real,
stale or forged.  `Lib.Lease` accounts for every such history (`TaskLeaseHistory.Reached.kept`), and
what it guarantees then reads off as `taskLease_safety`.
-/
import LiandanluNative.Lib.Lease
import LiandanluNative.Storage.TaskLeases

namespace LiandanluNative

open Lib Lib.Proc

/-! ## Histories of calls -/

/-- The identity a lease is validated by: task, owner and generation. -/
abbrev LeaseIdentity := Lease.Ticket String String

def TaskLease.identity (l : TaskLease) : LeaseIdentity := ⟨l.taskId, l.ownerId, l.generation⟩

/-- A call on the store: a lease method or one of the methods that save a task. -/
inductive TaskLeaseCall where
  | claim (ownerId : String) (leaseSeconds : ℚ)
  | renew (lease : TaskLease) (leaseSeconds : ℚ)
  | release (lease : TaskLease)
  | saveTask (task : Task)
  | saveTaskWithOutboxEvent (task : Task) (fields : EventFields) (eventId : String)
      (occurredAt : ℚ)
  | saveTaskAndOperationWithOutboxEvent (task : Task) (op : Operation) (fields : EventFields)
      (eventId : String) (occurredAt : ℚ)

/-- The database, the time of the last call, the leases returned by claims in order, and the
identities that are gone. -/
structure TaskLeaseHistory where
  db : Database
  now : ℚ
  issued : List TaskLease
  gone : LeaseIdentity → Prop

namespace TaskLeaseHistory

/-- A fresh database. -/
def fresh : TaskLeaseHistory where
  db := {}
  now := 0
  issued := []
  gone := fun _ => False

/-- Time passes to `ts`: the identities whose row has expired by then are gone. -/
def tick (h : TaskLeaseHistory) (ts : ℚ) : TaskLeaseHistory :=
  { h with
    now := ts
    gone := fun i => h.gone i ∨ ∃ row, h.db.taskLeases.get? i.key = some row ∧
      (row.ownerId = i.owner ∧ row.generation = i.generation) ∧ row.leaseUntil ≤ ts }

/-- A call at the present time. -/
def act (h : TaskLeaseHistory) : TaskLeaseCall → TaskLeaseHistory
  | .claim ownerId leaseSeconds =>
      match claimNextTask ownerId leaseSeconds h.now h.db with
      | .ok (some lease) db =>
          { h with
            db := db
            issued := h.issued ++ [lease]
            gone := fun i => h.gone i ∨ ∃ l ∈ h.issued, l.taskId = lease.taskId ∧ l.identity = i }
      | .ok none db => { h with db := db }
      | .error _ db => { h with db := db }
  | .renew lease leaseSeconds =>
      { h with db := after (renewTaskLease lease leaseSeconds h.now) h.db }
  | .release lease =>
      match releaseTaskLease lease h.db with
      | .ok true db => { h with db := db, gone := fun i => h.gone i ∨ i = lease.identity }
      | .ok false db => { h with db := db }
      | .error _ db => { h with db := db }
  | .saveTask task => { h with db := after (LiandanluNative.saveTask task) h.db }
  | .saveTaskWithOutboxEvent task fields eventId occurredAt =>
      { h with
        db := after
          (LiandanluNative.saveTaskWithOutboxEvent task fields eventId occurredAt) h.db }
  | .saveTaskAndOperationWithOutboxEvent task op fields eventId occurredAt =>
      { h with
        db := after
          (LiandanluNative.saveTaskAndOperationWithOutboxEvent task op fields eventId occurredAt)
          h.db }

/-- The histories of all runs of calls with non-decreasing timestamps. -/
inductive Reached : TaskLeaseHistory → Prop
  | fresh : Reached fresh
  | call {h : TaskLeaseHistory} (before : Reached h) (ts : ℚ) (later : h.now ≤ ts)
      (c : TaskLeaseCall) : Reached ((h.tick ts).act c)

end TaskLeaseHistory

/-! ## The lease table is kept

The table is a book in the sense of `Lib.Lease`, and each method of the store is one of its steps.
-/

def TaskLease.slot (row : TaskLease) : Lease.Slot String ℚ :=
  ⟨row.ownerId, row.generation, row.leaseUntil⟩

theorem Database.nextTaskGeneration_eq (db : Database) (taskId : String) :
    db.nextTaskGeneration taskId
      = (Lease.Book.ofTable TaskLease.slot db.taskLeases).generation taskId + 1 := by
  unfold Database.nextTaskGeneration Lease.Book.generation Lease.Book.ofTable
  cases db.taskLeases.get? taskId <;> rfl

namespace TaskLeaseHistory

/-- The lease discipline accounts for the lease table, the issued leases and what is gone. -/
def Kept (h : TaskLeaseHistory) : Prop :=
  Lease.Kept TaskLease.slot h.db.taskLeases h.now (h.issued.map TaskLease.identity) h.gone

theorem Kept.tick {h : TaskLeaseHistory} (hk : h.Kept) {ts : ℚ} (later : h.now ≤ ts) :
    (h.tick ts).Kept :=
  hk.wait later

theorem Kept.claim {h : TaskLeaseHistory} (hk : h.Kept) (ownerId : String) (leaseSeconds : ℚ) :
    (h.act (.claim ownerId leaseSeconds)).Kept := by
  rcases claimNextTask_cases ownerId leaseSeconds h.now h.db with
    ⟨e, hrun⟩ | hrun | ⟨lease, hrun, _, hgen, _, hfree⟩
  · simpa only [act, hrun] using hk
  · simpa only [act, hrun] using hk
  · have hgrant := Lease.Kept.grant hk lease hfree (hgen.trans (h.db.nextTaskGeneration_eq _))
    simp only [act, hrun, Kept, List.map_append, List.map_singleton]
    refine hgrant.mono (fun i => Or.imp_right ?_)
    rintro ⟨l, hl, hkey, rfl⟩
    exact ⟨List.mem_map_of_mem hl, hkey⟩

theorem Kept.renew {h : TaskLeaseHistory} (hk : h.Kept) (lease : TaskLease) (leaseSeconds : ℚ) :
    (h.act (.renew lease leaseSeconds)).Kept := by
  rcases renewTaskLease_cases lease leaseSeconds h.now h.db with
    ⟨_, e, hrun⟩ | ⟨_, hrun⟩ | ⟨row, hrow, _, hlive, hrun⟩
  · simpa only [act, after_of_error hrun] using hk
  · simpa only [act, after_of_ok hrun] using hk
  · have hself := Table.get?_of_mem (Table.mem_of_get? hrow)
    simp only [act, after_of_ok hrun]
    exact Lease.Kept.renew hk _ hself ⟨rfl, rfl⟩ hlive

theorem Kept.release {h : TaskLeaseHistory} (hk : h.Kept) (lease : TaskLease) :
    (h.act (.release lease)).Kept := by
  rcases releaseTaskLease_cases lease h.db with hrun | ⟨row, hrow, hname, hrun⟩
  · simpa only [act, hrun] using hk
  · have hkey : row.taskId = lease.taskId := Table.key_of_get? hrow
    have hident : lease.identity = ⟨row.taskId, row.ownerId, row.generation⟩ := by
      rw [TaskLease.identity, hkey, hname.1, hname.2]
    have hself := Table.get?_of_mem (Table.mem_of_get? hrow)
    simp only [act, hrun, hident]
    exact Lease.Kept.release hk _ hself ⟨rfl, rfl⟩ rfl

/-- Saving a task does not touch the lease table. -/
theorem Kept.save {h : TaskLeaseHistory} (hk : h.Kept) {α : Type} {save : Txn α}
    (hsave : Within (Fixes Database.taskLeases) save) :
    Kept { h with db := after save h.db } := by
  have htable : (after save h.db).taskLeases = h.db.taskLeases := hsave h.db
  simpa only [Kept, htable] using hk

/-- **The lease table is kept in every history of calls.** -/
theorem Reached.kept {h : TaskLeaseHistory} (hr : Reached h) : h.Kept := by
  induction hr with
  | fresh => exact Lease.Kept.fresh
  | call _ ts later c ih =>
      have htick := ih.tick later
      have hF := frame_fixes Database.taskLeases
      cases c with
      | claim ownerId leaseSeconds => exact htick.claim ownerId leaseSeconds
      | renew lease leaseSeconds => exact htick.renew lease leaseSeconds
      | release lease => exact htick.release lease
      | saveTask task =>
          exact htick.save (within_transaction hF (within_upsertTask task (fun _ _ => rfl)))
      | saveTaskWithOutboxEvent task fields eventId occurredAt =>
          refine htick.save (within_transaction hF (hF.bind ?_ (fun _ => ?_)))
          · exact within_upsertTask task (fun _ _ => rfl)
          · exact within_insertOutbox hF _ _ _ (fun _ _ _ => rfl)
      | saveTaskAndOperationWithOutboxEvent task op fields eventId occurredAt =>
          refine htick.save
            (within_transaction hF (hF.bind ?_ (fun _ => hF.bind ?_ (fun _ => ?_))))
          · exact within_upsertTask task (fun _ _ => rfl)
          · exact within_upsertOperation hF op (fun _ _ => rfl)
          · exact within_insertOutbox hF _ _ _ (fun _ _ _ => rfl)

/-! ## The guarantees -/

/-- The leases issued on a task, in order. -/
def issuedOn (h : TaskLeaseHistory) (taskId : String) : List TaskLease :=
  h.issued.filter (fun l => decide (l.taskId = taskId))

/-- The generations issued on a task are `1, 2, 3, …`. -/
theorem Reached.generations {h : TaskLeaseHistory} (hr : Reached h) (taskId : String) :
    (h.issuedOn taskId).map TaskLease.generation
      = (List.range (h.issuedOn taskId).length).map (fun j : ℕ => (j : Int) + 1) := by
  have hgen := hr.kept.generations taskId
  rw [List.filter_map, List.map_map, List.length_map] at hgen
  exact hgen

/-- An identity that is gone validates at no later time. -/
theorem Reached.gone_invalid {h : TaskLeaseHistory} (hr : Reached h) {i : LeaseIdentity}
    (hgone : h.gone i) {t : ℚ} (later : h.now ≤ t) :
    h.db.validateTaskLeaseIdentity i.key i.owner i.generation t = false := by
  rw [← Bool.not_eq_true, Database.validateTaskLeaseIdentity_iff]
  rintro ⟨row, hrow, hname, hlive⟩
  exact absurd hlive (not_lt.mpr (hr.kept.gone_invalid hgone later hrow hname))

end TaskLeaseHistory

/-- A claim returns a lease only on a task nobody holds at that time. -/
theorem claimNextTask_exclusive {ownerId : String} {leaseSeconds ts : ℚ} {db db' : Database}
    {lease : TaskLease} (hrun : claimNextTask ownerId leaseSeconds ts db = .ok (some lease) db')
    (otherId : String) (generation : Int) :
    db.validateTaskLeaseIdentity lease.taskId otherId generation ts = false := by
  rcases claimNextTask_cases ownerId leaseSeconds ts db with
    ⟨e, hrun'⟩ | hrun' | ⟨lease', hrun', _, _, _, hfree⟩
  · rw [hrun'] at hrun
    cases hrun
  · rw [hrun'] at hrun
    cases hrun
  · rw [hrun'] at hrun
    cases hrun
    rw [← Bool.not_eq_true, Database.validateTaskLeaseIdentity_iff]
    rintro ⟨row, hrow, _, hlive⟩
    exact absurd hlive (not_lt.mpr (hfree row hrow))

/-- A renewal of an invalid identity finds nothing to renew. -/
theorem renewTaskLease_of_invalid {lease : TaskLease} {leaseSeconds ts : ℚ} {db : Database}
    (hpos : 0 < leaseSeconds)
    (hinvalid : db.validateTaskLeaseIdentity lease.taskId lease.ownerId lease.generation ts = false) :
    renewTaskLease lease leaseSeconds ts db = .ok none db := by
  rcases renewTaskLease_cases lease leaseSeconds ts db with
    ⟨hneg, _⟩ | ⟨_, hrun⟩ | ⟨row, hrow, hname, hlive, _⟩
  · exact absurd hpos (not_lt.mpr hneg)
  · exact hrun
  · have hvalid := Database.validateTaskLeaseIdentity_iff.mpr ⟨row, hrow, hname, hlive⟩
    rw [hinvalid] at hvalid
    cases hvalid

/-- **Task lease safety.** After any calls by any owners with any handles, and at any later time: a
claim returns a lease only on a task none of whose issued leases validates; the generations issued
on a task are `1, 2, 3, …`; an identity that was released, seen expired or superseded neither
validates nor is renewed. -/
theorem taskLease_safety {h : TaskLeaseHistory} (hr : h.Reached) {t : ℚ} (later : h.now ≤ t) :
    (∀ ownerId leaseSeconds lease db',
      claimNextTask ownerId leaseSeconds t h.db = .ok (some lease) db' →
      ∀ l ∈ h.issued, l.taskId = lease.taskId →
        h.db.validateTaskLeaseIdentity l.taskId l.ownerId l.generation t = false) ∧
    (∀ taskId, (h.issuedOn taskId).map TaskLease.generation
      = (List.range (h.issuedOn taskId).length).map (fun j : ℕ => (j : Int) + 1)) ∧
    (∀ i, h.gone i →
      h.db.validateTaskLeaseIdentity i.key i.owner i.generation t = false ∧
      ∀ lease leaseSeconds, lease.identity = i → 0 < leaseSeconds →
        renewTaskLease lease leaseSeconds t h.db = .ok none h.db) := by
  refine ⟨?_, hr.generations, ?_⟩
  · intro ownerId leaseSeconds lease db' hrun l _ htask
    rw [htask]
    exact claimNextTask_exclusive hrun l.ownerId l.generation
  · rintro i hgone
    have hinvalid := hr.gone_invalid hgone later
    refine ⟨hinvalid, ?_⟩
    rintro lease leaseSeconds rfl hpos
    exact renewTaskLease_of_invalid hpos hinvalid

/-- A queued task. -/
def queuedTask : Task :=
  { taskId := "task", workspaceId := "default", goal := "", successCriteria := []
    state := .queued, desiredState := .running, queuedAt := some 0 }

/-- The task is claimed at time 1 for ten seconds and saved again at time 20. -/
def expiredHistory : TaskLeaseHistory :=
  ((((TaskLeaseHistory.fresh.tick 0).act (.saveTask queuedTask)).tick 1).act (.claim "a" 10)
    |>.tick 20).act (.saveTask queuedTask)

theorem taskLease_safety_expired :
    expiredHistory.db.validateTaskLeaseIdentity "task" "a" 1 25 = false ∧
    renewTaskLease ⟨"task", "a", 1, 1, 11⟩ 10 25 expiredHistory.db = .ok none expiredHistory.db := by
  have hr : expiredHistory.Reached :=
    ((TaskLeaseHistory.Reached.fresh.call 0 le_rfl _).call 1 (by decide +kernel) _).call 20
      (by decide +kernel) _
  have hgone : expiredHistory.gone ⟨"task", "a", 1⟩ :=
    Or.inr ⟨⟨"task", "a", 1, 1, 11⟩, by decide +kernel, ⟨rfl, rfl⟩, by decide +kernel⟩
  have hlater : expiredHistory.now ≤ 25 := by decide +kernel
  obtain ⟨hinvalid, hrenew⟩ := (taskLease_safety hr hlater).2.2 _ hgone
  exact ⟨hinvalid, hrenew ⟨"task", "a", 1, 1, 11⟩ 10 rfl (by decide +kernel)⟩

end LiandanluNative
