/-
# LiandanluNative.Safety.GrantedLeases — whether a lease is valid when it is granted.

Leases of tasks and of resources are claimed and renewed at eight places (`Runtime.FloatLeases`).
Each looks for something to lease (`LeaseCall.Finds`), and adds `lease_seconds` to the time.  Six of
them refuse to grant a lease for no time.  The renewals of a scheduler and of a broker refuse it over
a store, and have no such check of their own: in memory they do not raise, and what they return and
keep has run out already.

And none of the eight looks at the sum.  A positive `lease_seconds` that vanishes in it is granted for
no time, too.  A NaN is not at most zero, so all eight let it pass: a store then refuses the row,
whose end would be null, and in memory the lease is granted, and is valid at no time.

A call raises, finds nothing, or leases until the sum (`LeaseCall.Outcome`); which of the three, and
when, is found out for each place, and from that it follows for what is granted
(`granted_valid_iff`).  Floats are any linear order with something that is no number beside it, and
may be added with any rounding.
-/
import LiandanluNative.Lib.Binary64
import LiandanluNative.Runtime.FloatLeases

namespace LiandanluNative

open Lib (Table)
open Lib.Floats (lt le)

/-! ## Leases of both kinds

A lease of a task and one of resources are one thing here: a task, a holder, a generation and an
end.
-/

/-- What a lease is known by, and when it runs out: what leases of tasks and leases of resources
have in common. -/
structure Granted (τ : Type) where
  taskId : String
  ownerId : String
  generation : Int
  leaseUntil : Option τ

section

variable {τ : Type}

/-- A lease of a task, without the time it was claimed at. -/
def FloatTaskLease.granted (lease : FloatTaskLease τ) : Granted τ :=
  ⟨lease.taskId, lease.ownerId, lease.generation, lease.leaseUntil⟩

/-- A lease of resources, without what is leased. -/
def FloatLease.granted (lease : FloatLease τ) : Granted τ :=
  ⟨lease.taskId, lease.ownerId, lease.generation, lease.leaseUntil⟩

/-- The lease and what is stored of it run out at the same time, the sum of the call.  Whether that
is later than the call is a question to the sum, and to nothing else. -/
structure Granted.KeptUntil (lease : Granted τ) (sum : Option τ) (stored : Option (Granted τ)) :
    Prop where
  until_ : lease.leaseUntil = sum
  stored : ∃ row, stored = some row ∧ row.ownerId = lease.ownerId ∧
    row.generation = lease.generation ∧ row.leaseUntil = sum

/-- A lease that was put into its table is kept there. -/
theorem Granted.kept_put {α : Type} {taskId : α → String} (table : Table taskId)
    (granted : α → Granted τ) {lease : α} {sum : Option τ}
    (huntil : (granted lease).leaseUntil = sum) :
    (granted lease).KeptUntil sum (((table.put lease).get? (taskId lease)).map granted) := by
  refine ⟨huntil, granted lease, ?_, rfl, rfl, huntil⟩
  rw [Table.get?_put_self]
  rfl

/-- A lease whose row was moved to its end is kept there. -/
theorem Granted.kept_moved {α : Type} {taskId : α → String} (table : Table taskId)
    (granted : α → Granted τ) {lease : Granted τ} {row : α} {sum : Option τ}
    (huntil : lease.leaseUntil = sum) (hid : taskId row = lease.taskId)
    (howner : (granted row).ownerId = lease.ownerId)
    (hgeneration : (granted row).generation = lease.generation)
    (hrow : (granted row).leaseUntil = sum) :
    lease.KeptUntil sum (((table.put row).get? lease.taskId).map granted) := by
  refine ⟨huntil, granted row, ?_, howner, hgeneration, hrow⟩
  rw [← hid, Table.get?_put_self]
  rfl

variable [LinearOrder τ]

/-- The lease is unexpired at `ts`, and so is what is stored of it. -/
structure Granted.ValidAt (lease : Granted τ) (ts : τ) (stored : Option (Granted τ)) : Prop where
  unexpired : lt (some ts) lease.leaseUntil = true
  stored : ∃ row, stored = some row ∧ row.ownerId = lease.ownerId ∧
    row.generation = lease.generation ∧ lt (some ts) row.leaseUntil = true

/-- A kept lease is valid before the time it is kept until. -/
theorem Granted.KeptUntil.validAt_iff {lease : Granted τ} {sum : Option τ} {ts : τ}
    {stored : Option (Granted τ)} (h : lease.KeptUntil sum stored) :
    lease.ValidAt ts stored ↔ lt (some ts) sum = true := by
  obtain ⟨row, hrow, howner, hgeneration, huntil⟩ := h.stored
  constructor
  · intro hvalid
    exact h.until_ ▸ hvalid.unexpired
  · intro hlate
    exact ⟨h.until_.symm ▸ hlate, row, hrow, howner, hgeneration, huntil.symm ▸ hlate⟩

end

/-! ## The eight places

A call at any of the places, what it needs in order to grant (`Finds`), and what its outcome is to
be.  The condition is on the arguments and on the state before the call.
-/

/-- A call that may grant a lease: of the scheduler, the broker or the store.  The first four go to
the store or to memory, by how the scheduler and the broker were made. -/
inductive LeaseCall (τ : Type) where
  | claimNext (ownerId : String) (leaseSeconds : Option τ)
  | renew (lease : FloatTaskLease τ) (leaseSeconds : Option τ)
  | acquire (taskId ownerId : String) (request : ResourceRequest) (leaseSeconds : Option τ)
  | renewResources (lease : FloatLease τ) (leaseSeconds : Option τ)
  | claimNextTask (ownerId : String) (leaseSeconds : Option τ)
  | renewTaskLease (lease : FloatTaskLease τ) (leaseSeconds : Option τ)
  | acquireResourceLease (taskId ownerId : String) (request : ResourceRequest)
      (capacity : ResourceCapacity) (leaseSeconds : Option τ)
  | renewResourceLease (lease : FloatLease τ) (leaseSeconds : Option τ)

namespace FloatStore

/-- The rows of `task_leases`. -/
def taskRow {τ : Type} (db : FloatStore τ) (taskId : String) : Option (Granted τ) :=
  (db.taskLeases.get? taskId).map FloatTaskLease.granted

/-- The rows of `resource_leases`. -/
def resourceRow {τ : Type} (db : FloatStore τ) (taskId : String) : Option (Granted τ) :=
  (db.resourceLeases.get? taskId).map FloatLease.granted

variable {τ : Type} [LinearOrder τ]

/-- There is a task to claim, and somebody to claim it whose name can be written down. -/
structure FindsTask (db : FloatStore τ) (ts : τ) (ownerId : String) : Prop where
  owner : ownerId ≠ ""
  task : (db.nextClaimable ts).isSome = true
  row : columnRefusal [.text ownerId] = none

/-- There is room for the request of a task that has no lease, and a row can be written for it. -/
structure FindsRoom (db : FloatStore τ) (ts : τ) (taskId ownerId : String)
    (request : ResourceRequest) (capacity : ResourceCapacity) : Prop where
  named : ¬ (taskId = "" ∨ ownerId = "")
  fits : request.exceeds capacity = false
  task : columnRefusal [.text taskId] = none
  free : (db.resources capacity).active taskId ts = false
  room : (db.resources capacity).conflicts ts taskId request = false
  row : columnRefusal (request.columns ownerId) = none

/-- The row of the lease is of its owner and generation, and unexpired. -/
def HoldsTask (db : FloatStore τ) (ts : τ) (lease : FloatTaskLease τ) : Prop :=
  columnRefusal [.text lease.taskId, .text lease.ownerId, .int lease.generation] = none ∧
    ∃ row, db.taskLeases.get? lease.taskId = some row ∧
      (row.heldBy lease.ownerId lease.generation && lt (some ts) row.leaseUntil) = true

/-- The same of a row of `resource_leases`. -/
def HoldsResources (db : FloatStore τ) (ts : τ) (lease : FloatLease τ) : Prop :=
  columnRefusal [.text lease.taskId, .text lease.ownerId, .int lease.generation] = none ∧
    ∃ row, db.resourceLeases.get? lease.taskId = some row ∧
      (row.heldBy lease.ownerId lease.generation && lt (some ts) row.leaseUntil) = true

end FloatStore

namespace LeaseSystem

/-- The leases: those of the store, and those the scheduler and the broker have in memory. -/
def leases {τ : Type} (s : LeaseSystem τ) :=
  (s.store.taskLeases, s.store.resourceLeases, s.scheduled, s.broker.leases)

/-- A heap of the scheduler has a task that can be run. -/
def FindsTask {τ : Type} (s : LeaseSystem τ) : Prop :=
  ∃ entry ∈ s.engine.entries, s.engine.runnable entry = true

variable {τ : Type} [LinearOrder τ]

/-- The scheduler has the lease in memory, and it has not run out. -/
def HoldsTask (s : LeaseSystem τ) (ts : τ) (lease : FloatTaskLease τ) : Prop :=
  ∃ current, s.scheduled.get? lease.taskId = some current ∧
    ¬ (current.ownerId ≠ lease.ownerId ∨ current.generation ≠ lease.generation ∨
      le current.leaseUntil (some ts) = true)

/-- The broker has room in memory for the request of a task that has no lease. -/
structure FindsRoom (s : LeaseSystem τ) (ts : τ) (taskId ownerId : String)
    (request : ResourceRequest) : Prop where
  named : ¬ (taskId = "" ∨ ownerId = "")
  fits : request.exceeds s.broker.capacity = false
  free : s.broker.active taskId ts = false
  room : s.broker.conflicts ts taskId request = false

/-- The broker has the lease in memory, and it has not run out. -/
def HoldsResources (s : LeaseSystem τ) (ts : τ) (lease : FloatLease τ) : Prop :=
  ∃ current, s.broker.held lease = some current ∧ ¬ le current.leaseUntil (some ts) = true

end LeaseSystem

namespace LeaseCall

section

variable {τ : Type}

/-- `lease_seconds`, which every one of them takes. -/
def leaseSeconds : LeaseCall τ → Option τ
  | claimNext _ seconds => seconds
  | renew _ seconds => seconds
  | acquire _ _ _ seconds => seconds
  | renewResources _ seconds => seconds
  | claimNextTask _ seconds => seconds
  | renewTaskLease _ seconds => seconds
  | acquireResourceLease _ _ _ _ seconds => seconds
  | renewResourceLease _ seconds => seconds

/-- What is stored of the lease of a task, at the place the call goes to. -/
def stored (s : LeaseSystem τ) (taskId : String) : LeaseCall τ → Option (Granted τ)
  | claimNext _ _ | renew _ _ =>
      if s.engine.persistent then s.store.taskRow taskId
      else (s.scheduled.get? taskId).map FloatTaskLease.granted
  | acquire _ _ _ _ | renewResources _ _ =>
      if s.brokerPersistent then s.store.resourceRow taskId
      else (s.broker.leases.get? taskId).map FloatLease.granted
  | claimNextTask _ _ | renewTaskLease _ _ => s.store.taskRow taskId
  | acquireResourceLease _ _ _ _ _ | renewResourceLease _ _ => s.store.resourceRow taskId

/-- The call goes to a store. -/
def ToStore (s : LeaseSystem τ) : LeaseCall τ → Prop
  | claimNext _ _ | renew _ _ => s.engine.persistent = true
  | acquire _ _ _ _ | renewResources _ _ => s.brokerPersistent = true
  | _ => True

/-- A renewal that does not go to a store. -/
def RenewsInMemory (s : LeaseSystem τ) : LeaseCall τ → Prop
  | renew _ _ => s.engine.persistent = false
  | renewResources _ _ => s.brokerPersistent = false
  | _ => False

end

variable {τ : Type} [LinearOrder τ] (zero : τ) (plus : Option τ → Option τ → Option τ)

/-- The call at `ts`, where `plus` is the addition of floats. -/
def run (ts : τ) : LeaseCall τ → LeaseM τ (Option (Granted τ))
  | claimNext ownerId seconds =>
      Option.map FloatTaskLease.granted <$> LeaseSystem.claimsNext zero plus ownerId seconds ts
  | renew lease seconds =>
      Option.map FloatTaskLease.granted <$> LeaseSystem.renewsLease zero plus lease seconds ts
  | acquire taskId ownerId request seconds =>
      Option.map FloatLease.granted <$>
        LeaseSystem.acquiresResources zero plus taskId ownerId request seconds ts
  | renewResources lease seconds =>
      Option.map FloatLease.granted <$> LeaseSystem.renewsResources zero plus lease seconds ts
  | claimNextTask ownerId seconds =>
      Option.map FloatTaskLease.granted <$>
        LeaseSystem.onStore (FloatStore.claimsNextTask zero plus ownerId seconds ts)
  | renewTaskLease lease seconds =>
      Option.map FloatTaskLease.granted <$>
        LeaseSystem.onStore (FloatStore.renewsTaskLease zero plus lease seconds ts)
  | acquireResourceLease taskId ownerId request capacity seconds =>
      Option.map FloatLease.granted <$>
        LeaseSystem.onStore
          (FloatStore.acquiresResourceLease zero plus taskId ownerId request capacity seconds ts)
  | renewResourceLease lease seconds =>
      Option.map FloatLease.granted <$>
        LeaseSystem.onStore (FloatStore.renewsResourceLease zero plus lease seconds ts)

/-- There is something to lease, if only for some time: a question to the state before the call,
whatever its `lease_seconds` are. -/
def Finds (ts : τ) (s : LeaseSystem τ) : LeaseCall τ → Prop
  | claimNext ownerId _ =>
      if s.engine.persistent then s.store.FindsTask ts ownerId else s.FindsTask
  | renew lease _ =>
      if s.engine.persistent then s.store.HoldsTask ts lease else s.HoldsTask ts lease
  | acquire taskId ownerId request _ =>
      if s.brokerPersistent then s.store.FindsRoom ts taskId ownerId request s.broker.capacity
      else s.FindsRoom ts taskId ownerId request
  | renewResources lease _ =>
      if s.brokerPersistent then s.store.HoldsResources ts lease else s.HoldsResources ts lease
  | claimNextTask ownerId _ => s.store.FindsTask ts ownerId
  | renewTaskLease lease _ => s.store.HoldsTask ts lease
  | acquireResourceLease taskId ownerId request capacity _ =>
      s.store.FindsRoom ts taskId ownerId request capacity
  | renewResourceLease lease _ => s.store.HoldsResources ts lease

/-- A lease that the call returns is valid, and for no time it raises and leaves the leases alone:
what is asked of each of the eight places. -/
structure GrantsValid (ts : τ) (s : LeaseSystem τ) (call : LeaseCall τ) : Prop where
  granted : ∀ lease t, call.run zero plus ts s = .ok (some lease) t →
    lease.ValidAt ts (call.stored t lease.taskId)
  refused : le call.leaseSeconds (some zero) = true →
    ∃ e t, call.run zero plus ts s = .error (.raised e) t ∧ t.leases = s.leases

/-- The sum is no number, and would have to be stored: the row is refused, for its column is not
null. -/
def Unstorable (ts : τ) (s : LeaseSystem τ) (call : LeaseCall τ) : Prop :=
  call.ToStore s ∧ plus (some ts) call.leaseSeconds = none

/-- What a call can do, with the reasons.  `hchecked` is whether the seconds were looked at: only
the two renewals in memory go on without. -/
inductive Outcome (ts : τ) (s : LeaseSystem τ) (call : LeaseCall τ) : Prop
  /-- It raises, as there is no time to lease for, or nothing to lease, or no row for it. -/
  | raised {e : Exc} {t : LeaseSystem τ} (hrun : call.run zero plus ts s = .error (.raised e) t)
      (hleases : t.leases = s.leases)
      (hwhy : ¬ le call.leaseSeconds (some zero) = true → call.Finds ts s →
        call.Unstorable plus ts s)
      (hchecked : ¬ call.RenewsInMemory s)
  /-- It finds nothing to lease. -/
  | nothing {t : LeaseSystem τ} (hrun : call.run zero plus ts s = .ok none t)
      (hmissed : ¬ call.Finds ts s)
      (hchecked : call.RenewsInMemory s ∨ ¬ le call.leaseSeconds (some zero) = true)
  /-- It leases what it finds until the sum. -/
  | leased {lease : Granted τ} {t : LeaseSystem τ}
      (hrun : call.run zero plus ts s = .ok (some lease) t) (hfinds : call.Finds ts s)
      (hkept : lease.KeptUntil (plus (some ts) call.leaseSeconds) (call.stored t lease.taskId))
      (hstored : ¬ call.Unstorable plus ts s)
      (hchecked : call.RenewsInMemory s ∨ ¬ le call.leaseSeconds (some zero) = true)

end LeaseCall

/-! ## Transactions

The four methods of the store: each raises, grants nothing, or writes a row with the end that was
summed.
-/

section

variable {τ : Type} [LinearOrder τ]

/-- What a transaction can do that leases what it finds until the sum, unless it is refused.  A
transaction that raises has been rolled back, so the database is as it was. -/
inductive TxnOutcome {α : Type} (granted : α → Granted τ)
    (row : FloatStore τ → String → Option (Granted τ)) (Refused Finds : Prop) (sum : Option τ)
    (txn : FloatTxn τ (Option α)) (db : FloatStore τ) : Prop
  | raised {e : Exc} (hrun : txn db = .error e db) (hwhy : ¬ Refused → Finds → sum = none)
  | nothing (hrun : txn db = .ok none db) (hmissed : ¬ Finds) (hchecked : ¬ Refused)
  | leased {lease : α} {db' : FloatStore τ} (hrun : txn db = .ok (some lease) db') (hfinds : Finds)
      (hkept : (granted lease).KeptUntil sum (row db' (granted lease).taskId)) (hend : sum ≠ none)
      (hchecked : ¬ Refused)

omit [LinearOrder τ] in
/-- Only an end that is no number is refused. -/
theorem endRefusal_eq_none {table : String} {leaseUntil : Option τ} :
    endRefusal table leaseUntil = none ↔ leaseUntil ≠ none := by
  cases leaseUntil with
  | none => exact ⟨fun h => absurd h (Option.some_ne_none _), fun h => absurd rfl h⟩
  | some _ => exact ⟨fun _ => Option.some_ne_none _, fun _ => rfl⟩

omit [LinearOrder τ] in
/-- So an end that is refused is none. -/
theorem eq_none_of_endRefusal {table : String} {leaseUntil : Option τ} {e : Exc}
    (h : endRefusal table leaseUntil = some e) : leaseUntil = none := by
  by_contra hend
  cases h.symm.trans (endRefusal_eq_none.mpr hend)

omit [LinearOrder τ] in
/-- The statement of a renewal raises, asks for no row there is, or moves the row it asks for.  Both
renewals of the store are this one statement, on two tables. -/
theorem movesEnd_cases {α : Type} {taskId : α → String} (name : String) (columns : List Column)
    (table : Table taskId) (id : String) (named : α → Bool) (moved : α → α)
    (leaseUntil : Option τ) :
    (∃ e, movesEnd name columns table id named moved leaseUntil = .error e ∧
      (columnRefusal columns ≠ none ∨ leaseUntil = none)) ∨
    (movesEnd name columns table id named moved leaseUntil = .ok none ∧
      ∀ row, table.get? id = some row → ¬ named row = true) ∨
    ∃ row, table.get? id = some row ∧ named row = true ∧ columnRefusal columns = none ∧
      leaseUntil ≠ none ∧
      movesEnd name columns table id named moved leaseUntil
        = .ok (some (table.put (moved row))) := by
  unfold movesEnd
  -- the columns are bound first, then the row is looked for, and then its new end is stored
  cases hcolumns : columnRefusal columns with
  | some e => exact Or.inl ⟨e, rfl, Or.inl (Option.some_ne_none e)⟩
  | none =>
      cases hrow : table.get? id with
      | none =>
          refine Or.inr (Or.inl ⟨rfl, ?_⟩)
          rintro row hfound
          cases hfound
      | some row =>
          by_cases hnamed : named row = true
          · cases hend : endRefusal name leaseUntil with
            | some e =>
                refine Or.inl ⟨e, ?_, Or.inr (eq_none_of_endRefusal hend)⟩
                simp only [if_pos hnamed]
            | none =>
                refine Or.inr (Or.inr ⟨row, rfl, hnamed, rfl, endRefusal_eq_none.mp hend, ?_⟩)
                simp only [if_pos hnamed]
          · refine Or.inr (Or.inl ⟨?_, ?_⟩)
            · simp only [if_neg hnamed]
            · rintro other hfound
              cases hfound
              exact hnamed

variable (zero : τ) (plus : Option τ → Option τ → Option τ) (leaseSeconds : Option τ) (ts : τ)
  (db : FloatStore τ)

/-- A claim of the store fails for want of an owner, of time, of a task, of a text that can be bound
or of an end, in this order, and else leases the first task of its query. -/
theorem claimsNextTask_outcome (ownerId : String) :
    TxnOutcome FloatTaskLease.granted FloatStore.taskRow (le leaseSeconds (some zero) = true)
      (db.FindsTask ts ownerId) (plus (some ts) leaseSeconds)
      (FloatStore.claimsNextTask zero plus ownerId leaseSeconds ts) db := by
  by_cases howner : ownerId = ""
  · refine .raised (by unfold FloatStore.claimsNextTask; exact if_pos howner) ?_
    exact fun _ hfinds => absurd howner hfinds.owner
  by_cases hseconds : le leaseSeconds (some zero) = true
  · refine .raised (by
      unfold FloatStore.claimsNextTask
      rw [if_neg howner]
      exact if_pos hseconds) ?_
    exact fun hpositive => absurd hseconds hpositive
  -- the query finds no task, or one whose row is written last
  cases hrow : db.nextClaimable ts with
  | none =>
      refine .nothing (by
        simp only [FloatStore.claimsNextTask, if_neg howner, if_neg hseconds, hrow]) ?_ hseconds
      intro hfinds
      cases hrow ▸ hfinds.task
  | some row =>
      cases hrefusal : (columnRefusal [.text ownerId]).or
          (endRefusal "task_leases" (plus (some ts) leaseSeconds)) with
      | some e =>
          refine .raised (e := e) (by
            simp only [FloatStore.claimsNextTask, if_neg howner, if_neg hseconds, hrow,
              hrefusal]) ?_
          intro _ hfinds
          -- the owner can be bound, so it was the end that was refused
          rw [hfinds.row] at hrefusal
          exact eq_none_of_endRefusal hrefusal
      | none =>
          obtain ⟨htext, hend⟩ := Option.or_eq_none_iff.mp hrefusal
          refine .leased (by
            simp only [FloatStore.claimsNextTask, if_neg howner, if_neg hseconds, hrow, hrefusal]
            rfl) ⟨howner, Option.isSome_of_eq_some hrow, htext⟩ ?_
            (endRefusal_eq_none.mp hend) hseconds
          exact Granted.kept_put db.taskLeases FloatTaskLease.granted rfl

/-- A renewal of the store looks at the time first, and then runs its one statement, which reads and
writes at once. -/
theorem renewsTaskLease_outcome (lease : FloatTaskLease τ) :
    TxnOutcome FloatTaskLease.granted FloatStore.taskRow (le leaseSeconds (some zero) = true)
      (db.HoldsTask ts lease) (plus (some ts) leaseSeconds)
      (FloatStore.renewsTaskLease zero plus lease leaseSeconds ts) db := by
  by_cases hseconds : le leaseSeconds (some zero) = true
  · refine .raised (by unfold FloatStore.renewsTaskLease; exact if_pos hseconds) ?_
    exact fun hpositive => absurd hseconds hpositive
  -- the statement compares owner and generation, and the end as SQLite compares floats
  rcases movesEnd_cases "task_leases"
      [.text lease.taskId, .text lease.ownerId, .int lease.generation] db.taskLeases lease.taskId
      (fun row => row.heldBy lease.ownerId lease.generation && lt (some ts) row.leaseUntil)
      (fun row => { row with leaseUntil := plus (some ts) leaseSeconds })
      (plus (some ts) leaseSeconds) with
    ⟨e, hmoving, hwhy⟩ | ⟨hmoving, hnone⟩ | ⟨row, hrow, hheld, hcolumns, hend, hmoving⟩
  · refine .raised (e := e) (by
      simp only [FloatStore.renewsTaskLease, if_neg hseconds, hmoving]) ?_
    exact fun _ hholds => hwhy.resolve_left (not_not_intro hholds.1)
  · refine .nothing (by
      simp only [FloatStore.renewsTaskLease, if_neg hseconds, hmoving]) ?_ hseconds
    rintro ⟨-, row, hrow, hheld⟩
    exact hnone row hrow hheld
  · obtain ⟨hnamed, -⟩ := Bool.and_eq_true_iff.mp hheld
    obtain ⟨howner, hgeneration⟩ := Bool.and_eq_true_iff.mp hnamed
    have hid : row.taskId = lease.taskId := Table.key_of_get? hrow
    refine .leased (by
      simp only [FloatStore.renewsTaskLease, if_neg hseconds, hmoving]
      rfl) ⟨hcolumns, row, hrow, hheld⟩ ?_ hend hseconds
    exact Granted.kept_moved db.taskLeases FloatTaskLease.granted rfl hid (of_decide_eq_true howner)
      (of_decide_eq_true hgeneration) rfl

/-- An acquisition of the store makes all its checks before it writes, and the columns are bound last.
-/
theorem acquiresResourceLease_outcome (taskId ownerId : String) (request : ResourceRequest)
    (capacity : ResourceCapacity) :
    TxnOutcome FloatLease.granted FloatStore.resourceRow (le leaseSeconds (some zero) = true)
      (db.FindsRoom ts taskId ownerId request capacity) (plus (some ts) leaseSeconds)
      (FloatStore.acquiresResourceLease zero plus taskId ownerId request capacity leaseSeconds ts)
      db := by
  by_cases hids : taskId = "" ∨ ownerId = ""
  · refine .raised (by unfold FloatStore.acquiresResourceLease; exact if_pos hids) ?_
    exact fun _ hfinds => absurd hids hfinds.named
  by_cases hseconds : le leaseSeconds (some zero) = true
  · refine .raised (by
      unfold FloatStore.acquiresResourceLease
      rw [if_neg hids]
      exact if_pos hseconds) ?_
    exact fun hpositive => absurd hseconds hpositive
  -- a request beyond the capacity is answered with none before the task is looked up
  cases hfits : request.exceeds capacity with
  | true =>
      refine .nothing (by
        simp only [FloatStore.acquiresResourceLease, if_neg hids, if_neg hseconds, hfits, if_true])
        ?_ hseconds
      exact fun hfinds => Bool.noConfusion (hfits.symm.trans hfinds.fits)
  | false =>
  cases htask : columnRefusal [.text taskId] with
  | some e =>
      refine .raised (e := e) (by
        simp only [FloatStore.acquiresResourceLease, if_neg hids, if_neg hseconds, hfits, htask,
          Bool.false_eq_true, if_false]) ?_
      exact fun _ hfinds => absurd (htask.symm.trans hfinds.task) (Option.some_ne_none e)
  | none =>
  -- the task has no active lease, and what is left has room for the request
  cases hfree : (db.resources capacity).active taskId ts with
  | true =>
      refine .nothing (by
        simp only [FloatStore.acquiresResourceLease, if_neg hids, if_neg hseconds, hfits, htask,
          hfree, Bool.false_eq_true, if_false, if_true]) ?_ hseconds
      exact fun hfinds => Bool.noConfusion (hfree.symm.trans hfinds.free)
  | false =>
  cases hroom : (db.resources capacity).conflicts ts taskId request with
  | true =>
      refine .nothing (by
        simp only [FloatStore.acquiresResourceLease, if_neg hids, if_neg hseconds, hfits, htask,
          hfree, hroom, Bool.false_eq_true, if_false, if_true]) ?_ hseconds
      exact fun hfinds => Bool.noConfusion (hroom.symm.trans hfinds.room)
  | false =>
  -- the row is written at the end, its columns and its end in one statement
  cases hrefusal : (columnRefusal (request.columns ownerId)).or
      (endRefusal "resource_leases" (plus (some ts) leaseSeconds)) with
  | some e =>
      refine .raised (e := e) (by
        simp only [FloatStore.acquiresResourceLease, if_neg hids, if_neg hseconds, hfits, htask,
          hfree, hroom, hrefusal, Bool.false_eq_true, if_false]) ?_
      intro _ hfinds
      rw [hfinds.row] at hrefusal
      exact eq_none_of_endRefusal hrefusal
  | none =>
      obtain ⟨hrow, hend⟩ := Option.or_eq_none_iff.mp hrefusal
      refine .leased (by
        simp only [FloatStore.acquiresResourceLease, if_neg hids, if_neg hseconds, hfits, htask,
          hfree, hroom, hrefusal, Bool.false_eq_true, if_false]
        rfl) ⟨hids, hfits, htask, hfree, hroom, hrow⟩ ?_ (endRefusal_eq_none.mp hend) hseconds
      exact Granted.kept_put db.resourceLeases FloatLease.granted rfl

/-- The renewal of resources is that of tasks, on the other table. -/
theorem renewsResourceLease_outcome (lease : FloatLease τ) :
    TxnOutcome FloatLease.granted FloatStore.resourceRow (le leaseSeconds (some zero) = true)
      (db.HoldsResources ts lease) (plus (some ts) leaseSeconds)
      (FloatStore.renewsResourceLease zero plus lease leaseSeconds ts) db := by
  by_cases hseconds : le leaseSeconds (some zero) = true
  · refine .raised (by unfold FloatStore.renewsResourceLease; exact if_pos hseconds) ?_
    exact fun hpositive => absurd hseconds hpositive
  -- the statement moves the end of one row, unless a column is refused or no row is held
  rcases movesEnd_cases "resource_leases"
      [.text lease.taskId, .text lease.ownerId, .int lease.generation] db.resourceLeases lease.taskId
      (fun row => row.heldBy lease.ownerId lease.generation && lt (some ts) row.leaseUntil)
      (fun row => { row with leaseUntil := plus (some ts) leaseSeconds })
      (plus (some ts) leaseSeconds) with
    ⟨e, hmoving, hwhy⟩ | ⟨hmoving, hnone⟩ | ⟨row, hrow, hheld, hcolumns, hend, hmoving⟩
  · refine .raised (e := e) (by
      simp only [FloatStore.renewsResourceLease, if_neg hseconds, hmoving]) ?_
    exact fun _ hholds => hwhy.resolve_left (not_not_intro hholds.1)
  · refine .nothing (by
      simp only [FloatStore.renewsResourceLease, if_neg hseconds, hmoving]) ?_ hseconds
    rintro ⟨-, row, hrow, hheld⟩
    exact hnone row hrow hheld
  · obtain ⟨hnamed, -⟩ := Bool.and_eq_true_iff.mp hheld
    obtain ⟨howner, hgeneration⟩ := Bool.and_eq_true_iff.mp hnamed
    have hid : row.taskId = lease.taskId := Table.key_of_get? hrow
    refine .leased (by
      simp only [FloatStore.renewsResourceLease, if_neg hseconds, hmoving]
      rfl) ⟨hcolumns, row, hrow, hheld⟩ ?_ hend hseconds
    exact Granted.kept_moved db.resourceLeases FloatLease.granted rfl hid (of_decide_eq_true howner)
      (of_decide_eq_true hgeneration) rfl

end

/-! ## Calls

The scheduler and the broker, each with its branch for a store and its branch for memory, and with
them all eight places at once.
-/

namespace LeaseCall

variable {τ : Type} [LinearOrder τ] {zero : τ} {plus : Option τ → Option τ → Option τ} {ts : τ}
  {s : LeaseSystem τ} {call : LeaseCall τ}

/-- A call that comes to a transaction of the store: what the transaction does is what the call
does, with the store in its place. -/
theorem Outcome.of_txn {α : Type} {granted : α → Granted τ}
    {row : FloatStore τ → String → Option (Granted τ)} {Finds : Prop}
    {txn : FloatTxn τ (Option α)}
    (h : TxnOutcome granted row (le call.leaseSeconds (some zero) = true) Finds
      (plus (some ts) call.leaseSeconds) txn s.store)
    (hrun : call.run zero plus ts s = (Option.map granted <$> LeaseSystem.onStore txn) s)
    (hfinds : call.Finds ts s ↔ Finds)
    (hrow : ∀ store taskId, call.stored { s with store := store } taskId = row store taskId)
    (hstore : call.ToStore s) (hchecked : ¬ call.RenewsInMemory s) :
    call.Outcome zero plus ts s := by
  cases h with
  | @raised e htxn hwhy =>
      have hraised : call.run zero plus ts s = .error (.raised e) s := by
        rw [hrun]
        simp only [Functor.map, EStateM.map, LeaseSystem.onStore, htxn]
      exact .raised hraised rfl
        (fun hpositive hfound => ⟨hstore, hwhy hpositive (hfinds.mp hfound)⟩) hchecked
  | nothing htxn hmissed hpositive =>
      have hnothing : call.run zero plus ts s = .ok none s := by
        rw [hrun]
        simp only [Functor.map, EStateM.map, LeaseSystem.onStore, htxn, Option.map_none]
      exact .nothing hnothing (fun hfound => hmissed (hfinds.mp hfound)) (Or.inr hpositive)
  | @leased lease store htxn hfound hkept hend hpositive =>
      have hleased : call.run zero plus ts s
          = .ok (some (granted lease)) { s with store := store } := by
        rw [hrun]
        simp only [Functor.map, EStateM.map, LeaseSystem.onStore, htxn, Option.map_some]
      refine .leased hleased (hfinds.mpr hfound) ?_ (fun hunstorable => hend hunstorable.2)
        (Or.inr hpositive)
      rw [hrow]
      exact hkept

variable (zero plus ts s)

/-- A claim through the scheduler checks the time, and then goes to the store or draws from the heaps.
-/
theorem claimNext_outcome (ownerId : String) (leaseSeconds : Option τ) :
    (claimNext ownerId leaseSeconds).Outcome zero plus ts s := by
  by_cases hseconds : le leaseSeconds (some zero) = true
  · -- the check comes first, with a store or without
    have hraised : (claimNext ownerId leaseSeconds).run zero plus ts s
        = .error (.raised ⟨.valueError, "lease_seconds must be positive"⟩) s := by
      simp only [run, Functor.map, EStateM.map, LeaseSystem.claimsNext, if_pos hseconds]
    exact .raised hraised rfl (fun hpositive => absurd hseconds hpositive) id
  cases hpersistent : s.engine.persistent with
  | true =>
      refine Outcome.of_txn (claimsNextTask_outcome zero plus leaseSeconds ts s.store ownerId) ?_ ?_
        (fun store taskId => ?_) hpersistent id
      · simp only [run, Functor.map, EStateM.map, LeaseSystem.claimsNext, if_neg hseconds,
          hpersistent, if_true]
      · simp only [Finds, hpersistent, if_true]
      · simp only [stored, hpersistent, if_true]
  | false =>
      have hfinds : (claimNext ownerId leaseSeconds).Finds ts s ↔ s.FindsTask := by
        simp only [Finds, hpersistent, Bool.false_eq_true, if_false]
      -- in memory a task is drawn, and the lease is kept whatever the sum is
      rcases nextTask_cases s.engine with
        ⟨hnext, hdropped⟩ | ⟨before, entry, interactive, background, hentries, -, hentry, hnext⟩
      · have hnothing : (claimNext ownerId leaseSeconds).run zero plus ts s
            = .ok none
                { s with engine := { s.engine with interactive := [], background := [] } } := by
          simp only [run, Functor.map, EStateM.map, LeaseSystem.claimsNext, if_neg hseconds,
            hpersistent, Bool.false_eq_true, if_false, hnext, Option.map_none]
        refine .nothing hnothing (fun hfound => ?_) (Or.inr hseconds)
        obtain ⟨entry, hmem, hentry⟩ := hfinds.mp hfound
        cases (hdropped entry hmem).symm.trans hentry
      · let made : FloatTaskLease τ :=
          ⟨entry.2.2, ownerId, s.nextScheduled entry.2.2, some ts, plus (some ts) leaseSeconds⟩
        have hleased : (claimNext ownerId leaseSeconds).run zero plus ts s
            = .ok (some made.granted)
                { s with
                  engine := { s.engine with interactive := interactive, background := background }
                  scheduled := s.scheduled.put made } := by
          simp only [run, Functor.map, EStateM.map, LeaseSystem.claimsNext, if_neg hseconds,
            hpersistent, Bool.false_eq_true, if_false, hnext, Option.map_some]
          rfl
        refine .leased hleased (hfinds.mpr ⟨entry, ?_, hentry⟩) ?_ (fun hunstorable => ?_)
          (Or.inr hseconds)
        · rw [hentries]
          exact List.mem_append_right _ List.mem_cons_self
        · simp only [stored, hpersistent, Bool.false_eq_true, if_false]
          exact Granted.kept_put s.scheduled FloatTaskLease.granted rfl
        · cases hpersistent.symm.trans hunstorable.1

/-- A renewal through the scheduler goes to the store at once; in memory it looks at who holds the
lease and whether it has run out, and at nothing else.  So it grants a lease for no time as well. -/
theorem renew_outcome (lease : FloatTaskLease τ) (leaseSeconds : Option τ) :
    (renew lease leaseSeconds).Outcome zero plus ts s := by
  cases hpersistent : s.engine.persistent with
  | true =>
      refine Outcome.of_txn (renewsTaskLease_outcome zero plus leaseSeconds ts s.store lease) ?_ ?_
        (fun store taskId => ?_) hpersistent (fun hmemory => ?_)
      · simp only [run, Functor.map, EStateM.map, LeaseSystem.renewsLease, hpersistent, if_true]
      · simp only [Finds, hpersistent, if_true]
      · simp only [stored, hpersistent, if_true]
      · cases hpersistent.symm.trans hmemory
  | false =>
      have hfinds : (renew lease leaseSeconds).Finds ts s ↔ s.HoldsTask ts lease := by
        simp only [Finds, hpersistent, Bool.false_eq_true, if_false]
      -- in memory the seconds are not looked at
      cases hcurrent : s.scheduled.get? lease.taskId with
      | none =>
          have hnothing : (renew lease leaseSeconds).run zero plus ts s = .ok none s := by
            simp only [run, Functor.map, EStateM.map, LeaseSystem.renewsLease, hpersistent,
              Bool.false_eq_true, if_false, hcurrent, Option.map_none]
          refine .nothing hnothing (fun hfound => ?_) (Or.inl hpersistent)
          obtain ⟨current, hheld, -⟩ := hfinds.mp hfound
          cases hcurrent.symm.trans hheld
      | some current =>
          by_cases hrefused : current.ownerId ≠ lease.ownerId ∨
              current.generation ≠ lease.generation ∨ le current.leaseUntil (some ts) = true
          · have hnothing : (renew lease leaseSeconds).run zero plus ts s = .ok none s := by
              simp only [run, Functor.map, EStateM.map, LeaseSystem.renewsLease, hpersistent,
                Bool.false_eq_true, if_false, hcurrent, if_pos hrefused, Option.map_none]
            refine .nothing hnothing (fun hfound => ?_) (Or.inl hpersistent)
            obtain ⟨other, hheld, hnot⟩ := hfinds.mp hfound
            cases hcurrent.symm.trans hheld
            exact hnot hrefused
          · let renewed := { lease with leaseUntil := plus (some ts) leaseSeconds }
            have hleased : (renew lease leaseSeconds).run zero plus ts s
                = .ok (some renewed.granted) { s with scheduled := s.scheduled.put renewed } := by
              simp only [run, Functor.map, EStateM.map, LeaseSystem.renewsLease, hpersistent,
                Bool.false_eq_true, if_false, hcurrent, if_neg hrefused, Option.map_some]
              rfl
            refine .leased hleased (hfinds.mpr ⟨current, hcurrent, hrefused⟩) ?_
              (fun hunstorable => ?_) (Or.inl hpersistent)
            · simp only [stored, hpersistent, Bool.false_eq_true, if_false]
              exact Granted.kept_put s.scheduled FloatTaskLease.granted rfl
            · cases hpersistent.symm.trans hunstorable.1

/-- The broker over a store makes its checks, and leaves the rest to the store. -/
theorem acquire_stored_outcome (hpersistent : s.brokerPersistent = true) (taskId ownerId : String)
    (request : ResourceRequest) (leaseSeconds : Option τ) :
    (acquire taskId ownerId request leaseSeconds).Outcome zero plus ts s := by
  have hfinds : (acquire taskId ownerId request leaseSeconds).Finds ts s
      ↔ s.store.FindsRoom ts taskId ownerId request s.broker.capacity := by
    simp only [Finds, hpersistent, if_true]
  by_cases hids : taskId = "" ∨ ownerId = ""
  · have hraised : (acquire taskId ownerId request leaseSeconds).run zero plus ts s
        = .error (.raised ⟨.valueError, "task_id and owner_id are required"⟩) s := by
      simp only [run, Functor.map, EStateM.map, LeaseSystem.acquiresResources, hpersistent,
        if_true, if_pos hids]
    exact .raised hraised rfl (fun _ hfound => absurd hids (hfinds.mp hfound).named) id
  by_cases hseconds : le leaseSeconds (some zero) = true
  · have hraised : (acquire taskId ownerId request leaseSeconds).run zero plus ts s
        = .error (.raised ⟨.valueError, "lease_seconds must be positive"⟩) s := by
      simp only [run, Functor.map, EStateM.map, LeaseSystem.acquiresResources, hpersistent,
        if_true, if_neg hids, if_pos hseconds]
    exact .raised hraised rfl (fun hpositive => absurd hseconds hpositive) id
  by_cases hexceeds : request.exceeds s.broker.capacity = true
  · have hnothing : (acquire taskId ownerId request leaseSeconds).run zero plus ts s
        = .ok none s := by
      simp only [run, Functor.map, EStateM.map, LeaseSystem.acquiresResources, hpersistent,
        if_true, if_neg hids, if_neg hseconds, if_pos hexceeds, Option.map_none]
    refine .nothing hnothing (fun hfound => ?_) (Or.inr hseconds)
    cases hexceeds.symm.trans (hfinds.mp hfound).fits
  -- past its own checks the broker hands the call to the store, which makes them again
  refine Outcome.of_txn (acquiresResourceLease_outcome zero plus leaseSeconds ts s.store taskId
    ownerId request s.broker.capacity) ?_ hfinds (fun store id => ?_) hpersistent id
  · simp only [run, Functor.map, EStateM.map, LeaseSystem.acquiresResources, hpersistent,
      if_true, if_neg hids, if_neg hseconds, if_neg hexceeds]
  · simp only [stored, hpersistent, if_true]

/-- The broker in memory makes its checks, and puts the lease into its own table. -/
theorem acquire_memory_outcome (hpersistent : s.brokerPersistent = false)
    (taskId ownerId : String) (request : ResourceRequest) (leaseSeconds : Option τ) :
    (acquire taskId ownerId request leaseSeconds).Outcome zero plus ts s := by
  have hfinds : (acquire taskId ownerId request leaseSeconds).Finds ts s
      ↔ s.FindsRoom ts taskId ownerId request := by
    simp only [Finds, hpersistent, Bool.false_eq_true, if_false]
  have hbroker : (acquire taskId ownerId request leaseSeconds).run zero plus ts s
      = (Option.map FloatLease.granted <$> LeaseSystem.onBroker
          (FloatCall.acquires zero plus taskId ownerId request leaseSeconds ts)) s := by
    simp only [run, Functor.map, EStateM.map, LeaseSystem.acquiresResources, hpersistent,
      Bool.false_eq_true, if_false]
  by_cases hids : taskId = "" ∨ ownerId = ""
  · refine .raised (e := ⟨.valueError, "task_id and owner_id are required"⟩) (t := s)
      (hbroker.trans ?_) rfl (fun _ hfound => absurd hids (hfinds.mp hfound).named) id
    simp only [Functor.map, EStateM.map, LeaseSystem.onBroker, FloatCall.acquires, if_pos hids]
  by_cases hseconds : le leaseSeconds (some zero) = true
  · refine .raised (e := ⟨.valueError, "lease_seconds must be positive"⟩) (t := s)
      (hbroker.trans ?_) rfl (fun hpositive => absurd hseconds hpositive) id
    simp only [Functor.map, EStateM.map, LeaseSystem.onBroker, FloatCall.acquires, if_neg hids,
      if_pos hseconds]
  -- three checks answer with none, and leave the broker as it is
  have hnothing : FloatCall.acquires zero plus taskId ownerId request leaseSeconds ts s.broker
        = .ok none s.broker → ¬ s.FindsRoom ts taskId ownerId request →
      (acquire taskId ownerId request leaseSeconds).Outcome zero plus ts s := by
    intro hrun hmissed
    refine .nothing (t := s) (hbroker.trans ?_) (fun hfound => hmissed (hfinds.mp hfound))
      (Or.inr hseconds)
    simp only [Functor.map, EStateM.map, LeaseSystem.onBroker, hrun, Option.map_none]
  by_cases hexceeds : request.exceeds s.broker.capacity = true
  · refine hnothing ?_ (fun hroom => ?_)
    · simp only [FloatCall.acquires, if_neg hids, if_neg hseconds, if_pos hexceeds]
    · cases hexceeds.symm.trans hroom.fits
  by_cases hactive : s.broker.active taskId ts = true
  · refine hnothing ?_ (fun hroom => ?_)
    · simp only [FloatCall.acquires, if_neg hids, if_neg hseconds, if_neg hexceeds,
        if_pos hactive]
    · cases hactive.symm.trans hroom.free
  by_cases hconflicts : s.broker.conflicts ts taskId request = true
  · refine hnothing ?_ (fun hroom => ?_)
    · simp only [FloatCall.acquires, if_neg hids, if_neg hseconds, if_neg hexceeds,
        if_neg hactive, if_pos hconflicts]
    · cases hconflicts.symm.trans hroom.room
  let made : FloatLease τ :=
    ⟨taskId, ownerId, s.broker.nextGeneration taskId, request, some ts,
      plus (some ts) leaseSeconds⟩
  have hleased : (acquire taskId ownerId request leaseSeconds).run zero plus ts s
      = .ok (some made.granted)
          { s with broker := { s.broker with leases := s.broker.leases.put made } } := by
    rw [hbroker]
    simp only [Functor.map, EStateM.map, LeaseSystem.onBroker, FloatCall.acquires, if_neg hids,
      if_neg hseconds, if_neg hexceeds, if_neg hactive, if_neg hconflicts, Option.map_some]
    rfl
  refine .leased hleased (hfinds.mpr ⟨hids, ?_, ?_, ?_⟩) ?_ (fun hunstorable => ?_)
    (Or.inr hseconds)
  · exact Bool.eq_false_iff.mpr hexceeds
  · exact Bool.eq_false_iff.mpr hactive
  · exact Bool.eq_false_iff.mpr hconflicts
  · simp only [stored, hpersistent, Bool.false_eq_true, if_false]
    exact Granted.kept_put s.broker.leases FloatLease.granted rfl
  · cases hpersistent.symm.trans hunstorable.1

/-- A renewal through the broker goes to the store at once; in memory it does as the scheduler's. -/
theorem renewResources_outcome (lease : FloatLease τ) (leaseSeconds : Option τ) :
    (renewResources lease leaseSeconds).Outcome zero plus ts s := by
  cases hpersistent : s.brokerPersistent with
  | true =>
      refine Outcome.of_txn (renewsResourceLease_outcome zero plus leaseSeconds ts s.store lease)
        ?_ ?_ (fun store taskId => ?_) hpersistent (fun hmemory => ?_)
      · simp only [run, Functor.map, EStateM.map, LeaseSystem.renewsResources, hpersistent, if_true]
      · simp only [Finds, hpersistent, if_true]
      · simp only [stored, hpersistent, if_true]
      · cases hpersistent.symm.trans hmemory
  | false =>
      have hfinds : (renewResources lease leaseSeconds).Finds ts s
          ↔ s.HoldsResources ts lease := by
        simp only [Finds, hpersistent, Bool.false_eq_true, if_false]
      have hbroker : (renewResources lease leaseSeconds).run zero plus ts s
          = (Option.map FloatLease.granted <$> LeaseSystem.onBroker
              (FloatCall.renews plus lease leaseSeconds ts)) s := by
        simp only [run, Functor.map, EStateM.map, LeaseSystem.renewsResources, hpersistent,
          Bool.false_eq_true, if_false]
      -- in memory the seconds are not looked at, and neither is the request
      cases hheld : s.broker.held lease with
      | none =>
          refine .nothing (t := s) (hbroker.trans ?_) (fun hfound => ?_) (Or.inl hpersistent)
          · simp only [Functor.map, EStateM.map, LeaseSystem.onBroker, FloatCall.renews, hheld,
              Option.map_none]
          · obtain ⟨current, hcurrent, -⟩ := hfinds.mp hfound
            cases hheld.symm.trans hcurrent
      | some current =>
          by_cases hexpired : le current.leaseUntil (some ts) = true
          · refine .nothing (t := s) (hbroker.trans ?_) (fun hfound => ?_) (Or.inl hpersistent)
            · simp only [Functor.map, EStateM.map, LeaseSystem.onBroker, FloatCall.renews, hheld,
                if_pos hexpired, Option.map_none]
            · obtain ⟨other, hother, hlate⟩ := hfinds.mp hfound
              cases hheld.symm.trans hother
              exact hlate hexpired
          · let renewed := { lease with leaseUntil := plus (some ts) leaseSeconds }
            have hleased : (renewResources lease leaseSeconds).run zero plus ts s
                = .ok (some renewed.granted)
                    { s with
                      broker := { s.broker with leases := s.broker.leases.put renewed } } := by
              rw [hbroker]
              simp only [Functor.map, EStateM.map, LeaseSystem.onBroker, FloatCall.renews, hheld,
                if_neg hexpired, Option.map_some]
              rfl
            refine .leased hleased (hfinds.mpr ⟨current, hheld, hexpired⟩) ?_
              (fun hunstorable => ?_) (Or.inl hpersistent)
            · simp only [stored, hpersistent, Bool.false_eq_true, if_false]
              exact Granted.kept_put s.broker.leases FloatLease.granted rfl
            · cases hpersistent.symm.trans hunstorable.1

/-- Each of the eight places comes to one of the three outcomes. -/
theorem outcome (call : LeaseCall τ) : call.Outcome zero plus ts s := by
  cases call with
  | claimNext ownerId seconds => exact claimNext_outcome zero plus ts s ownerId seconds
  | renew lease seconds => exact renew_outcome zero plus ts s lease seconds
  | acquire taskId ownerId request seconds =>
      cases hpersistent : s.brokerPersistent with
      | true => exact acquire_stored_outcome zero plus ts s hpersistent taskId ownerId request seconds
      | false =>
          exact acquire_memory_outcome zero plus ts s hpersistent taskId ownerId request seconds
  | renewResources lease seconds => exact renewResources_outcome zero plus ts s lease seconds
  | claimNextTask ownerId seconds =>
      exact Outcome.of_txn (claimsNextTask_outcome zero plus seconds ts s.store ownerId) rfl Iff.rfl
        (fun _ _ => rfl) trivial id
  | renewTaskLease lease seconds =>
      exact Outcome.of_txn (renewsTaskLease_outcome zero plus seconds ts s.store lease) rfl Iff.rfl
        (fun _ _ => rfl) trivial id
  | acquireResourceLease taskId ownerId request capacity seconds =>
      exact Outcome.of_txn (acquiresResourceLease_outcome zero plus seconds ts s.store taskId ownerId
        request capacity) rfl Iff.rfl (fun _ _ => rfl) trivial id
  | renewResourceLease lease seconds =>
      exact Outcome.of_txn (renewsResourceLease_outcome zero plus seconds ts s.store lease) rfl
        Iff.rfl (fun _ _ => rfl) trivial id

/-- **A lease is valid when it is granted, and none is granted for no time, exactly if the call is
not a renewal in memory for no time, and, where `lease_seconds` is not at most zero and there is
something to lease, the sum is later than the time, or is no number and would have to be stored.** -/
theorem granted_valid_iff (zero : τ) (plus : Option τ → Option τ → Option τ) (ts : τ)
    (s : LeaseSystem τ) (call : LeaseCall τ) :
    call.GrantsValid zero plus ts s ↔
      ¬ (call.RenewsInMemory s ∧ le call.leaseSeconds (some zero) = true) ∧
        (¬ le call.leaseSeconds (some zero) = true → call.Finds ts s →
          lt (some ts) (plus (some ts) call.leaseSeconds) = true ∨ call.Unstorable plus ts s) := by
  -- what raises and what finds nothing grants nothing; what leases does so until the sum
  cases outcome zero plus ts s call with
  | raised hrun hleases hwhy hchecked =>
      constructor
      · exact fun _ => ⟨fun hmemory => hchecked hmemory.1, fun hpositive hfound =>
          Or.inr (hwhy hpositive hfound)⟩
      · intro _
        refine ⟨fun lease t hgranted => ?_, fun _ => ⟨_, _, hrun, hleases⟩⟩
        cases hrun.symm.trans hgranted
  | nothing hrun hmissed hchecked =>
      constructor
      · refine fun hvalid => ⟨fun hmemory => ?_, fun _ hfound => absurd hfound hmissed⟩
        obtain ⟨e, t, hraised, -⟩ := hvalid.refused hmemory.2
        cases hrun.symm.trans hraised
      · rintro ⟨hmemory, -⟩
        refine ⟨fun lease t hgranted => ?_, fun hrefused => ?_⟩
        · cases hrun.symm.trans hgranted
        · exact absurd ⟨hchecked.resolve_right (not_not_intro hrefused), hrefused⟩ hmemory
  | @leased lease t hrun hfinds hkept hstored hchecked =>
      constructor
      · refine fun hvalid => ⟨fun hmemory => ?_, fun _ _ => ?_⟩
        · obtain ⟨e, u, hraised, -⟩ := hvalid.refused hmemory.2
          cases hrun.symm.trans hraised
        · exact Or.inl (hkept.validAt_iff.mp (hvalid.granted lease t hrun))
      · rintro ⟨hmemory, hsum⟩
        have hpositive : ¬ le call.leaseSeconds (some zero) = true := fun hrefused =>
          hmemory ⟨hchecked.resolve_right (not_not_intro hrefused), hrefused⟩
        refine ⟨fun other u hgranted => ?_, fun hrefused => absurd hrefused hpositive⟩
        cases hrun.symm.trans hgranted
        exact hkept.validAt_iff.mpr ((hsum hpositive hfinds).resolve_right hstored)

/-- A scheduler in memory, in which the only task was claimed. -/
def claimedInMemory : LeaseSystem ℚ where
  engine := { Small.start with persistent := false }
  store := {}
  scheduled := Table.empty.put Small.lease.exactly
  broker := { capacity := { cpuUnits := 1, memoryMb := 1, gpuUnits := 0 } }
  brokerPersistent := false

/-- Renewed for no time, the lease is returned and has run out; so has a lease that is acquired for a
time that vanishes in the sum; and a lease that is acquired for NaN is not unexpired. -/
theorem granted_valid_fails :
    (¬ (renew Small.lease.exactly (some 0)).GrantsValid 0 exactPlus 2 claimedInMemory) ∧
    (¬ (acquire "task" "worker" {} (some (1 / 2 ^ 27))).GrantsValid 0
        (Option.map₂ Lib.Binary64.plus) 1700000000 claimedInMemory) ∧
    ¬ (acquire "task" "worker" {} none).GrantsValid 0 exactPlus 2 claimedInMemory := by
  refine ⟨fun hvalid => ?_, fun hvalid => ?_, fun hvalid => ?_⟩
  · obtain ⟨e, t, hraised, -⟩ := hvalid.refused rfl
    cases hraised
  · have hpositive : ¬ le (some (1 / 2 ^ 27)) (some (0 : ℚ)) = true := by decide +kernel
    have hroom : claimedInMemory.FindsRoom 1700000000 "task" "worker" {} :=
      ⟨by decide, by decide, by decide +kernel, by decide +kernel⟩
    cases acquire_memory_outcome 0 (Option.map₂ Lib.Binary64.plus) 1700000000 claimedInMemory rfl
        "task" "worker" {} (some (1 / 2 ^ 27)) with
    | raised _ _ hwhy _ => exact absurd (hwhy hpositive hroom).1 Bool.false_ne_true
    | nothing _ hmissed _ => exact hmissed hroom
    | leased hrun _ hkept _ _ =>
        have hlate := of_decide_eq_true (hkept.validAt_iff.mp (hvalid.granted _ _ hrun))
        exact absurd (hlate.trans_eq Lib.Binary64.plus_vanishes) (lt_irrefl _)
  · have hgranted := hvalid.granted ⟨"task", "worker", 1, none⟩ _ rfl
    cases hgranted.unexpired

end LeaseCall

end LiandanluNative
