/-
# LiandanluNative.Runtime.FloatLeases — granting leases at any float times.

Leases are granted at eight places: by four methods of the store, and by a scheduler and a broker,
each over a store or from its own memory.  Here they are told as `Runtime.FloatBroker` tells a broker
in memory: for whatever floats a caller passes, with comparisons that say no to a float that is no
number, and with the sum of two floats as a parameter.

What memory takes the store may refuse.  `lease_until` is `REAL NOT NULL`, and SQLite binds a float
that is no number as null, so no row ends at such a time (`endRefusal`).  The checks of `lease_seconds`
are the same at both: they let it pass.

At numbers these are the methods of `Storage.TaskLeases`, of `Storage.ResourceLeases` and of
`Runtime.Scheduler` (`claimsNextTask_exactly` and the theorems after it); of a broker in memory
`Runtime.FloatBroker` says so.

A method that grants in floats is a translation of the source line by line, as the methods at
numbers are; the theorems at numbers keep the two translations together, so that nothing which is
proved of one could be wrong of the other.
-/
import LiandanluNative.Runtime.FloatBroker
import LiandanluNative.Runtime.Scheduler

namespace LiandanluNative

open Lib (Table)
open Lib.Floats (lt le)

/-! ## The store

The transactions of `storage.py` that grant or extend a lease, with the comparisons that SQLite
makes.
-/

/-- `TaskLease`, with floats for its times; `none` is the one that is no number. -/
structure FloatTaskLease (τ : Type) where
  taskId : String
  ownerId : String
  generation : Int
  claimedAt : Option τ
  leaseUntil : Option τ

/-- The row names the same holder: `owner_id=? AND generation=?`. -/
def FloatTaskLease.heldBy {τ : Type} (row : FloatTaskLease τ) (ownerId : String)
    (generation : Int) : Bool :=
  decide (row.ownerId = ownerId) && decide (row.generation = generation)

/-- The same of a row of `resource_leases`. -/
def FloatLease.heldBy {τ : Type} (row : FloatLease τ) (ownerId : String) (generation : Int) :
    Bool :=
  decide (row.ownerId = ownerId) && decide (row.generation = generation)

/-- The tables of a store that have to do with leases: those of tasks, and those of both kinds of
leases. -/
structure FloatStore (τ : Type) where
  tasks : Table Task.taskId := .empty
  taskLeases : Table (FloatTaskLease.taskId : FloatTaskLease τ → String) := .empty
  resourceLeases : Table (FloatLease.taskId : FloatLease τ → String) := .empty

/-- A transaction. One that raises is rolled back. -/
abbrev FloatTxn (τ α : Type) := EStateM Exc (FloatStore τ) α

/-- What SQLite refuses of texts and integers that a statement binds. -/
def columnRefusal (columns : List Column) : Option Exc := columns.findSome? Column.refusal

/-- `lease_until REAL NOT NULL`: a float that is no number is bound as null, which the column does
not take. -/
def endRefusal {τ : Type} (table : String) (leaseUntil : Option τ) : Option Exc :=
  if leaseUntil.isSome then none
  else some ⟨.integrityError, "NOT NULL constraint failed: " ++ table ++ ".lease_until"⟩

/-- `UPDATE … SET lease_until=? WHERE task_id=? AND owner_id=? AND generation=? AND lease_until>?`, of
either table of leases: the row of the task is moved to its new end, if it is one the statement asks
for. -/
def movesEnd {τ α : Type} {taskId : α → String} (name : String) (columns : List Column)
    (table : Table taskId) (id : String) (named : α → Bool) (moved : α → α)
    (leaseUntil : Option τ) : Except Exc (Option (Table taskId)) :=
  match columnRefusal columns with
  | some e => .error e
  | none =>
      match table.get? id with
      | none => .ok none
      | some row =>
          if named row then
            match endRefusal name leaseUntil with
            | some e => .error e
            | none => .ok (some (table.put (moved row)))
          else
            .ok none

namespace FloatStore

section

variable {τ : Type}

/-- `1 if row["generation"] is None else int(row["generation"]) + 1` -/
def nextTaskGeneration (db : FloatStore τ) (taskId : String) : Int :=
  match db.taskLeases.get? taskId with
  | none => 1
  | some l => l.generation + 1

/-- The rows of `resource_leases`, as the leases of a broker: the queries look at the ones as a broker
looks at the others. -/
def resources (db : FloatStore τ) (capacity : ResourceCapacity) : FloatBroker τ where
  capacity := capacity
  leases := db.resourceLeases

variable [LinearOrder τ]

/-- The `WHERE` clause of the claim query. -/
def claimable (db : FloatStore τ) (ts : τ) (t : Task) : Bool :=
  decide (t.state = .queued) && decide (t.desiredState = .running) && t.queuedAt.isSome &&
    match db.taskLeases.get? t.taskId with
    | none => true
    | some l => le l.leaseUntil (some ts)

/-- The first row of the claim query. -/
def nextClaimable (db : FloatStore τ) (ts : τ) : Option Task :=
  ((db.tasks.rows.filter (db.claimable ts)).insertionSort
    (fun a b => a.claimKey ≤ b.claimKey)).head?

variable (zero : τ) (plus : Option τ → Option τ → Option τ)

/-- `claim_next_task` -/
def claimsNextTask (ownerId : String) (leaseSeconds : Option τ) (ts : τ) :
    FloatTxn τ (Option (FloatTaskLease τ)) := fun db =>
  if ownerId = "" then
    .error ⟨.valueError, "owner_id is required"⟩ db
  else if le leaseSeconds (some zero) then
    .error ⟨.valueError, "lease_seconds must be positive"⟩ db
  else
    match db.nextClaimable ts with
    | none => .ok none db
    | some row =>
        let lease : FloatTaskLease τ :=
          { taskId := row.taskId
            ownerId := ownerId
            generation := db.nextTaskGeneration row.taskId
            claimedAt := some ts
            leaseUntil := plus (some ts) leaseSeconds }
        -- the id is that of a row, so of the texts only the owner's may be refused
        match (columnRefusal [.text ownerId]).or (endRefusal "task_leases" lease.leaseUntil) with
        | some e => .error e db
        | none => .ok (some lease) { db with taskLeases := db.taskLeases.put lease }

/-- `renew_task_lease` -/
def renewsTaskLease (lease : FloatTaskLease τ) (leaseSeconds : Option τ) (ts : τ) :
    FloatTxn τ (Option (FloatTaskLease τ)) := fun db =>
  if le leaseSeconds (some zero) then
    .error ⟨.valueError, "lease_seconds must be positive"⟩ db
  else
    let renewed := { lease with leaseUntil := plus (some ts) leaseSeconds }
    match movesEnd "task_leases" [.text lease.taskId, .text lease.ownerId, .int lease.generation]
        db.taskLeases lease.taskId
        (fun row => row.heldBy lease.ownerId lease.generation && lt (some ts) row.leaseUntil)
        (fun row => { row with leaseUntil := renewed.leaseUntil }) renewed.leaseUntil with
    | .error e => .error e db
    | .ok none => .ok none db
    | .ok (some table) => .ok (some renewed) { db with taskLeases := table }

/-- `acquire_resource_lease` -/
def acquiresResourceLease (taskId ownerId : String) (request : ResourceRequest)
    (capacity : ResourceCapacity) (leaseSeconds : Option τ) (ts : τ) :
    FloatTxn τ (Option (FloatLease τ)) := fun db =>
  if taskId = "" ∨ ownerId = "" then
    .error ⟨.valueError, "task_id and owner_id are required"⟩ db
  else if le leaseSeconds (some zero) then
    .error ⟨.valueError, "lease_seconds must be positive"⟩ db
  else if request.exceeds capacity then
    .ok none db
  else
    match columnRefusal [.text taskId] with
    | some e => .error e db
    | none =>
        if (db.resources capacity).active taskId ts then
          .ok none db
        else if (db.resources capacity).conflicts ts taskId request then
          .ok none db
        else
          let lease : FloatLease τ :=
            { taskId := taskId
              ownerId := ownerId
              generation := (db.resources capacity).nextGeneration taskId
              request := request
              claimedAt := some ts
              leaseUntil := plus (some ts) leaseSeconds }
          match (columnRefusal (request.columns ownerId)).or
              (endRefusal "resource_leases" lease.leaseUntil) with
          | some e => .error e db
          | none => .ok (some lease) { db with resourceLeases := db.resourceLeases.put lease }

/-- `renew_resource_lease` -/
def renewsResourceLease (lease : FloatLease τ) (leaseSeconds : Option τ) (ts : τ) :
    FloatTxn τ (Option (FloatLease τ)) := fun db =>
  if le leaseSeconds (some zero) then
    .error ⟨.valueError, "lease_seconds must be positive"⟩ db
  else
    let renewed := { lease with leaseUntil := plus (some ts) leaseSeconds }
    match movesEnd "resource_leases"
        [.text lease.taskId, .text lease.ownerId, .int lease.generation] db.resourceLeases
        lease.taskId
        (fun row => row.heldBy lease.ownerId lease.generation && lt (some ts) row.leaseUntil)
        (fun row => { row with leaseUntil := renewed.leaseUntil }) renewed.leaseUntil with
    | .error e => .error e db
    | .ok none => .ok none db
    | .ok (some table) => .ok (some renewed) { db with resourceLeases := table }

end

end FloatStore

/-! ## The scheduler and the broker

Each method has a branch with a store, which is the transaction, and one without, which is its own
table.
-/

/-- A scheduler over its engine and a broker, with the store that they have where they have one.
All eight places are methods of one system, so one statement can be about any of them. -/
structure LeaseSystem (τ : Type) where
  /-- The tasks of the scheduler, its heaps, and whether it has a store. -/
  engine : Sys
  store : FloatStore τ
  /-- `_leases` of the scheduler. -/
  scheduled : Table (FloatTaskLease.taskId : FloatTaskLease τ → String) := .empty
  /-- The broker, with its `_leases`. -/
  broker : FloatBroker τ
  brokerPersistent : Bool

/-- A method at any of the places: it raises, or returns what it granted. -/
abbrev LeaseM (τ α : Type) := EStateM Fault (LeaseSystem τ) α

namespace LeaseSystem

section

variable {τ α : Type}

/-- A method of the store. -/
def onStore (txn : FloatTxn τ α) : LeaseM τ α := fun s =>
  match txn s.store with
  | .ok a store => .ok a { s with store := store }
  | .error e store => .error (.raised e) { s with store := store }

/-- A method of the broker in memory. -/
def onBroker (m : EStateM Exc (FloatBroker τ) α) : LeaseM τ α := fun s =>
  match m s.broker with
  | .ok a broker => .ok a { s with broker := broker }
  | .error e broker => .error (.raised e) { s with broker := broker }

/-- `1 if previous is None else previous.generation + 1` -/
def nextScheduled (s : LeaseSystem τ) (taskId : String) : Int :=
  match s.scheduled.get? taskId with
  | none => 1
  | some previous => previous.generation + 1

end

section

variable {τ : Type} [LinearOrder τ] (zero : τ) (plus : Option τ → Option τ → Option τ)

/-- `claim_next` -/
def claimsNext (ownerId : String) (leaseSeconds : Option τ) (ts : τ) :
    LeaseM τ (Option (FloatTaskLease τ)) := fun s =>
  if le leaseSeconds (some zero) then
    .error (.raised ⟨.valueError, "lease_seconds must be positive"⟩) s
  else if s.engine.persistent then
    onStore (FloatStore.claimsNextTask zero plus ownerId leaseSeconds ts) s
  else
    match nextTask s.engine with
    | .error fault engine => .error fault { s with engine := engine }
    | .ok none engine => .ok none { s with engine := engine }
    | .ok (some taskId) engine =>
        let lease : FloatTaskLease τ :=
          { taskId := taskId
            ownerId := ownerId
            generation := s.nextScheduled taskId
            claimedAt := some ts
            leaseUntil := plus (some ts) leaseSeconds }
        .ok (some lease) { s with engine := engine, scheduled := s.scheduled.put lease }

/-- `renew` of a scheduler -/
def renewsLease (lease : FloatTaskLease τ) (leaseSeconds : Option τ) (ts : τ) :
    LeaseM τ (Option (FloatTaskLease τ)) := fun s =>
  if s.engine.persistent then
    onStore (FloatStore.renewsTaskLease zero plus lease leaseSeconds ts) s
  else
    match s.scheduled.get? lease.taskId with
    | none => .ok none s
    | some current =>
        if current.ownerId ≠ lease.ownerId ∨ current.generation ≠ lease.generation ∨
            le current.leaseUntil (some ts) then
          .ok none s
        else
          let renewed := { lease with leaseUntil := plus (some ts) leaseSeconds }
          .ok (some renewed) { s with scheduled := s.scheduled.put renewed }

/-- `acquire` of a broker: the checks of its arguments come first, with a store or without. -/
def acquiresResources (taskId ownerId : String) (request : ResourceRequest)
    (leaseSeconds : Option τ) (ts : τ) : LeaseM τ (Option (FloatLease τ)) := fun s =>
  if s.brokerPersistent then
    if taskId = "" ∨ ownerId = "" then
      .error (.raised ⟨.valueError, "task_id and owner_id are required"⟩) s
    else if le leaseSeconds (some zero) then
      .error (.raised ⟨.valueError, "lease_seconds must be positive"⟩) s
    else if request.exceeds s.broker.capacity then
      .ok none s
    else
      onStore (FloatStore.acquiresResourceLease zero plus taskId ownerId request
        s.broker.capacity leaseSeconds ts) s
  else
    onBroker (FloatCall.acquires zero plus taskId ownerId request leaseSeconds ts) s

/-- `renew` of a broker -/
def renewsResources (lease : FloatLease τ) (leaseSeconds : Option τ) (ts : τ) :
    LeaseM τ (Option (FloatLease τ)) := fun s =>
  if s.brokerPersistent then
    onStore (FloatStore.renewsResourceLease zero plus lease leaseSeconds ts) s
  else
    onBroker (FloatCall.renews plus lease leaseSeconds ts) s

end

end LeaseSystem

/-! ## At numbers

The tables are translated row by row, and each method of this module does to the translation what
the method at numbers does to the tables.
-/

/-- A lease told in floats: its times are numbers, and have no other value. -/
def TaskLease.exactly (lease : TaskLease) : FloatTaskLease ℚ where
  taskId := lease.taskId
  ownerId := lease.ownerId
  generation := lease.generation
  claimedAt := some lease.claimedAt
  leaseUntil := some lease.leaseUntil

/-- The leases are told under the ids they had. -/
theorem TaskLease.exactly_taskId (lease : TaskLease) : lease.exactly.taskId = lease.taskId := rfl

/-- The store, with its leases told in floats. -/
def Database.exactly (db : Database) : FloatStore ℚ where
  tasks := db.tasks
  taskLeases := db.taskLeases.translate TaskLease.exactly TaskLease.exactly_taskId
  resourceLeases := db.resourceLeases.translate ResourceLease.exactly ResourceLease.exactly_taskId

/-- What a transaction comes to, told in floats.  What it raises is the same. -/
def exactResult {α β : Type} (f : α → β) :
    EStateM.Result Exc Database (Option α) → EStateM.Result Exc (FloatStore ℚ) (Option β)
  | .ok found db => .ok (found.map f) db.exactly
  | .error e db => .error e db.exactly

namespace Database

theorem exactly_taskLease? (db : Database) (taskId : String) :
    db.exactly.taskLeases.get? taskId = (db.taskLeases.get? taskId).map TaskLease.exactly :=
  db.taskLeases.get?_translate TaskLease.exactly_taskId taskId

theorem exactly_resourceLease? (db : Database) (taskId : String) :
    db.exactly.resourceLeases.get? taskId
      = (db.resourceLeases.get? taskId).map ResourceLease.exactly :=
  db.resourceLeases.get?_translate ResourceLease.exactly_taskId taskId

/-- A row that is written is written in floats. -/
theorem exactly_putTaskLease (db : Database) (lease : TaskLease) :
    { db with taskLeases := db.taskLeases.put lease }.exactly
      = { db.exactly with taskLeases := db.exactly.taskLeases.put lease.exactly } := by
  show FloatStore.mk _ _ _ = FloatStore.mk _ _ _
  congr 1
  exact db.taskLeases.translate_put TaskLease.exactly_taskId lease

theorem exactly_putResourceLease (db : Database) (lease : ResourceLease) :
    { db with resourceLeases := db.resourceLeases.put lease }.exactly
      = { db.exactly with resourceLeases := db.exactly.resourceLeases.put lease.exactly } := by
  show FloatStore.mk _ _ _ = FloatStore.mk _ _ _
  congr 1
  exact db.resourceLeases.translate_put ResourceLease.exactly_taskId lease

theorem exactly_claimable (db : Database) (ts : ℚ) (t : Task) :
    db.exactly.claimable ts t = db.claimable ts t := by
  unfold FloatStore.claimable claimable
  rw [exactly_taskLease?]
  cases db.taskLeases.get? t.taskId with
  | none => rfl
  | some l => rfl

theorem exactly_nextClaimable (db : Database) (ts : ℚ) :
    db.exactly.nextClaimable ts = db.nextClaimable ts := by
  have hclaimable : db.exactly.claimable ts = db.claimable ts :=
    funext (db.exactly_claimable ts)
  unfold FloatStore.nextClaimable nextClaimable
  rw [hclaimable]
  rfl

theorem exactly_nextTaskGeneration (db : Database) (taskId : String) :
    db.exactly.nextTaskGeneration taskId = db.nextTaskGeneration taskId := by
  unfold FloatStore.nextTaskGeneration nextTaskGeneration
  rw [exactly_taskLease?]
  cases db.taskLeases.get? taskId with
  | none => rfl
  | some l => rfl

/-- The rows of `resource_leases` as the leases of a broker. -/
def resources (db : Database) (capacity : ResourceCapacity) : ResourceBroker where
  persistent := false
  capacity := capacity
  leases := db.resourceLeases

theorem exactly_resources (db : Database) (capacity : ResourceCapacity) :
    db.exactly.resources capacity = (db.resources capacity).exactly := rfl

end Database

section

variable (leaseSeconds ts : ℚ) (db : Database)

/-- The first refusal is raised. -/
theorem binds_of_refusal {columns : List Column} {e : Exc} (h : columnRefusal columns = some e)
    (db : Database) : binds columns db = .error e db := by
  rw [columnRefusal] at h
  simp only [binds, h]

/-- **At numbers** a claim is that of `Storage.TaskLeases`, however sums are rounded: the time it
ends at is whatever the sum comes to, on both sides. -/
theorem claimsNextTask_exactly (plus : ℚ → ℚ → ℚ) (ownerId : String) :
    FloatStore.claimsNextTask 0 (Option.map₂ plus) ownerId (some leaseSeconds) ts db.exactly
      = exactResult TaskLease.exactly (claimNextTaskWith plus ownerId leaseSeconds ts db) := by
  unfold FloatStore.claimsNextTask claimNextTaskWith
  by_cases howner : ownerId = ""
  · simp only [if_pos howner]
    rfl
  by_cases hseconds : leaseSeconds ≤ 0
  · simp only [if_neg howner, Lib.Floats.le_some, decide_eq_true_eq, if_pos hseconds]
    rfl
  simp only [if_neg howner, Lib.Floats.le_some, decide_eq_true_eq, if_neg hseconds,
    Database.exactly_nextClaimable, Database.exactly_nextTaskGeneration]
  cases db.nextClaimable ts with
  | none => rfl
  | some row =>
      cases hrefusal : columnRefusal [.text ownerId] with
      | some e =>
          rw [binds_of_refusal hrefusal]
          rfl
      | none =>
          rw [binds_of_bindable (show Bindable [.text ownerId] from hrefusal)]
          show EStateM.Result.ok _ _ = EStateM.Result.ok _ _
          rw [Database.exactly_putTaskLease]
          rfl

/-- There is no row to move. -/
theorem movesEnd_missing {τ α : Type} {taskId : α → String} {columns : List Column}
    (hbindable : Bindable columns) {table : Table taskId} {id : String}
    (hmissing : table.get? id = none) (name : String) (named : α → Bool) (moved : α → α)
    (leaseUntil : Option τ) :
    movesEnd name columns table id named moved leaseUntil = .ok none := by
  have hcolumns : columnRefusal columns = none := hbindable
  simp only [movesEnd, hcolumns, hmissing]

/-- A row is moved to an end that is not refused, if it is one the statement asks for. -/
theorem movesEnd_found {τ α : Type} {taskId : α → String} {columns : List Column}
    (hbindable : Bindable columns) {table : Table taskId} {id : String} {row : α}
    (hfound : table.get? id = some row) {name : String} {leaseUntil : Option τ}
    (hend : endRefusal name leaseUntil = none) (named : α → Bool) (moved : α → α) :
    movesEnd name columns table id named moved leaseUntil
      = .ok (if named row then some (table.put (moved row)) else none) := by
  have hcolumns : columnRefusal columns = none := hbindable
  simp only [movesEnd, hcolumns, hfound, hend]
  split
  · rfl
  · rfl

/-- A renewal is the one of `Storage.TaskLeases`, where what the statement binds can be bound. -/
theorem renewsTaskLease_exactly {lease : TaskLease}
    (hbindable : Bindable [.text lease.taskId, .text lease.ownerId, .int lease.generation]) :
    FloatStore.renewsTaskLease 0 exactPlus lease.exactly (some leaseSeconds) ts db.exactly
      = exactResult TaskLease.exactly (renewTaskLease lease leaseSeconds ts db) := by
  have hcolumns : Bindable [.text lease.exactly.taskId, .text lease.exactly.ownerId,
      .int lease.exactly.generation] := hbindable
  unfold FloatStore.renewsTaskLease renewTaskLease
  by_cases hseconds : leaseSeconds ≤ 0
  · simp only [Lib.Floats.le_some, decide_eq_true_eq, if_pos hseconds]
    rfl
  simp only [Lib.Floats.le_some, decide_eq_true_eq, if_neg hseconds]
  cases hrow : db.taskLeases.get? lease.taskId with
  | none =>
      have hmissing : db.exactly.taskLeases.get? lease.exactly.taskId = none :=
        (db.exactly_taskLease? lease.taskId).trans (congrArg _ hrow)
      rw [movesEnd_missing hcolumns hmissing]
      rfl
  | some row =>
      have hfound : db.exactly.taskLeases.get? lease.exactly.taskId = some row.exactly :=
        (db.exactly_taskLease? lease.taskId).trans (congrArg _ hrow)
      have hsame : (row.exactly.heldBy lease.exactly.ownerId lease.exactly.generation
          && lt (some ts) row.exactly.leaseUntil)
            = (row.heldBy lease.ownerId lease.generation && decide (ts < row.leaseUntil)) := rfl
      rw [movesEnd_found hcolumns hfound rfl]
      by_cases hnamed : (row.heldBy lease.ownerId lease.generation
          && decide (ts < row.leaseUntil)) = true
      · simp only [hsame, if_pos hnamed]
        show EStateM.Result.ok _ _ = EStateM.Result.ok _ _
        rw [Database.exactly_putTaskLease]
        rfl
      · simp only [hsame, if_neg hnamed]
        rfl

/-- An acquisition is the one of `Storage.ResourceLeases`. -/
theorem acquiresResourceLease_exactly (taskId ownerId : String) (request : ResourceRequest)
    (capacity : ResourceCapacity) :
    FloatStore.acquiresResourceLease 0 exactPlus taskId ownerId request capacity
        (some leaseSeconds) ts db.exactly
      = exactResult ResourceLease.exactly
          (acquireResourceLease taskId ownerId request capacity leaseSeconds ts db) := by
  -- a store answers as the broker over its rows does
  have hactive : (db.resources capacity).active taskId ts = db.resourceLeaseActive taskId ts := rfl
  have hothers : (db.resources capacity).othersActive ts taskId = db.otherActiveLeases ts taskId :=
    rfl
  have hgeneration : (db.resources capacity).nextGeneration taskId
      = db.nextResourceGeneration taskId := rfl
  have hcapacity : (db.resources capacity).capacity = capacity := rfl
  unfold FloatStore.acquiresResourceLease acquireResourceLease
  -- the checks before the transaction, in their order
  by_cases hids : taskId = "" ∨ ownerId = ""
  · simp only [if_pos hids]
    rfl
  by_cases hseconds : leaseSeconds ≤ 0
  · simp only [if_neg hids, Lib.Floats.le_some, decide_eq_true_eq, if_pos hseconds]
    rfl
  by_cases hexceeds : request.exceeds capacity = true
  · simp only [if_neg hids, Lib.Floats.le_some, decide_eq_true_eq, if_neg hseconds, if_pos hexceeds]
    rfl
  simp only [if_neg hids, Lib.Floats.le_some, decide_eq_true_eq, if_neg hseconds, if_neg hexceeds,
    Database.exactly_resources, ResourceBroker.exactly_active, ResourceBroker.exactly_conflicts,
    ResourceBroker.exactly_nextGeneration, hactive, hothers, hgeneration, hcapacity]
  -- the first query binds the task id
  cases htask : columnRefusal [.text taskId] with
  | some e =>
      rw [binds_of_refusal htask]
      rfl
  | none =>
      rw [binds_of_bindable (show Bindable [.text taskId] from htask)]
      dsimp only
      split
      · rfl
      split
      · rfl
      -- and the row that is written binds all columns
      cases hrow : columnRefusal (request.columns ownerId) with
      | some e =>
          rw [binds_of_refusal hrow]
          rfl
      | none =>
          rw [binds_of_bindable (show Bindable (request.columns ownerId) from hrow)]
          show EStateM.Result.ok _ _ = EStateM.Result.ok _ _
          rw [Database.exactly_putResourceLease]
          rfl

/-- A renewal is the one of `Storage.ResourceLeases`, where what the statement binds can be bound. -/
theorem renewsResourceLease_exactly {lease : ResourceLease}
    (hbindable : Bindable [.text lease.taskId, .text lease.ownerId, .int lease.generation]) :
    FloatStore.renewsResourceLease 0 exactPlus lease.exactly (some leaseSeconds) ts db.exactly
      = exactResult ResourceLease.exactly (renewResourceLease lease leaseSeconds ts db) := by
  have hcolumns : Bindable [.text lease.exactly.taskId, .text lease.exactly.ownerId,
      .int lease.exactly.generation] := hbindable
  unfold FloatStore.renewsResourceLease renewResourceLease
  by_cases hseconds : leaseSeconds ≤ 0
  · simp only [Lib.Floats.le_some, decide_eq_true_eq, if_pos hseconds]
    rfl
  simp only [Lib.Floats.le_some, decide_eq_true_eq, if_neg hseconds]
  cases hrow : db.resourceLeases.get? lease.taskId with
  | none =>
      have hmissing : db.exactly.resourceLeases.get? lease.exactly.taskId = none :=
        (db.exactly_resourceLease? lease.taskId).trans (congrArg _ hrow)
      rw [movesEnd_missing hcolumns hmissing]
      rfl
  | some row =>
      have hfound : db.exactly.resourceLeases.get? lease.exactly.taskId = some row.exactly :=
        (db.exactly_resourceLease? lease.taskId).trans (congrArg _ hrow)
      have hsame : (row.exactly.heldBy lease.exactly.ownerId lease.exactly.generation
          && lt (some ts) row.exactly.leaseUntil)
            = (row.heldBy lease.ownerId lease.generation && decide (ts < row.leaseUntil)) := rfl
      rw [movesEnd_found hcolumns hfound rfl]
      by_cases hnamed : (row.heldBy lease.ownerId lease.generation
          && decide (ts < row.leaseUntil)) = true
      · simp only [hsame, if_pos hnamed]
        show EStateM.Result.ok _ _ = EStateM.Result.ok _ _
        rw [Database.exactly_putResourceLease]
        rfl
      · simp only [hsame, if_neg hnamed]
        rfl

end

/-- A scheduler and a broker, with their leases told in floats. -/
def Scheduler.exactly (s : Scheduler) (broker : ResourceBroker) : LeaseSystem ℚ where
  engine := s.engine
  store := s.engine.db.exactly
  scheduled := s.leases.translate TaskLease.exactly TaskLease.exactly_taskId
  broker := broker.exactly
  brokerPersistent := broker.persistent

/-- What a method of a scheduler comes to, told in floats. -/
def Scheduler.exactResult (broker : ResourceBroker) :
    EStateM.Result Fault Scheduler (Option TaskLease) →
      EStateM.Result Fault (LeaseSystem ℚ) (Option (FloatTaskLease ℚ))
  | .ok found s => .ok (found.map TaskLease.exactly) (s.exactly broker)
  | .error fault s => .error fault (s.exactly broker)

namespace Scheduler

variable {s : Scheduler} (broker : ResourceBroker)

theorem exactly_scheduled? (taskId : String) :
    (s.exactly broker).scheduled.get? taskId = (s.leases.get? taskId).map TaskLease.exactly :=
  s.leases.get?_translate TaskLease.exactly_taskId taskId

theorem exactly_nextScheduled (taskId : String) :
    (s.exactly broker).nextScheduled taskId = s.nextGeneration taskId := by
  unfold LeaseSystem.nextScheduled nextGeneration
  rw [exactly_scheduled?]
  cases s.leases.get? taskId with
  | none => rfl
  | some previous => rfl

theorem exactly_putLease (lease : TaskLease) :
    { s with leases := s.leases.put lease }.exactly broker
      = { s.exactly broker with
          scheduled := (s.exactly broker).scheduled.put lease.exactly } := by
  show LeaseSystem.mk _ _ _ _ _ = LeaseSystem.mk _ _ _ _ _
  congr 1
  exact s.leases.translate_put TaskLease.exactly_taskId lease

variable (env : Env) (leaseSeconds ts : ℚ)

/-- A claim in memory is the one of `Runtime.Scheduler`. -/
theorem claimsNext_exactly (hmemory : s.engine.persistent = false) (ownerId : String) :
    LeaseSystem.claimsNext 0 exactPlus ownerId (some leaseSeconds) ts (s.exactly broker)
      = exactResult broker (claimNext env ownerId leaseSeconds ts s) := by
  have hengine : (s.exactly broker).engine = s.engine := rfl
  unfold LeaseSystem.claimsNext
  rw [claimNext]
  by_cases hseconds : leaseSeconds ≤ 0
  · simp only [Lib.Floats.le_some, decide_eq_true_eq, if_pos hseconds]
    rfl
  simp only [Lib.Floats.le_some, decide_eq_true_eq, if_neg hseconds, hengine, hmemory,
    exactly_nextScheduled, bind, EStateM.bind]
  dsimp only [get, getThe, MonadStateOf.get, EStateM.get]
  simp only [hmemory, Bool.false_eq_true, if_false, EStateM.bind, onEngine]
  rcases nextTask_cases s.engine with ⟨hnext, -⟩ | ⟨-, entry, interactive, background, -, -, -, hnext⟩
  · rw [hnext]
    rfl
  · rw [hnext]
    show EStateM.Result.ok _ _ = EStateM.Result.ok _ _
    rw [exactly_putLease]
    rfl

/-- A renewal in memory is the one of `Runtime.Scheduler`. -/
theorem renewsLease_exactly (hmemory : s.engine.persistent = false) (lease : TaskLease) :
    LeaseSystem.renewsLease 0 exactPlus lease.exactly (some leaseSeconds) ts
        (s.exactly broker)
      = exactResult broker (renewLease env lease leaseSeconds ts s) := by
  have hengine : (s.exactly broker).engine = s.engine := rfl
  unfold LeaseSystem.renewsLease renewLease
  simp only [hengine, hmemory, Bool.false_eq_true, if_false, TaskLease.exactly_taskId,
    exactly_scheduled?, bind, EStateM.bind]
  dsimp only [get, getThe, MonadStateOf.get, EStateM.get]
  simp only [hmemory, Bool.false_eq_true, if_false]
  cases s.leases.get? lease.taskId with
  | none => rfl
  | some current =>
      simp only [Option.map_some]
      have hrefused : (current.exactly.ownerId ≠ lease.exactly.ownerId ∨
          current.exactly.generation ≠ lease.exactly.generation ∨
          le current.exactly.leaseUntil (some ts) = true) ↔
          (current.ownerId ≠ lease.ownerId ∨ current.generation ≠ lease.generation ∨
            current.leaseUntil ≤ ts) :=
        or_congr_right (or_congr_right decide_eq_true_iff)
      by_cases h : current.ownerId ≠ lease.ownerId ∨ current.generation ≠ lease.generation ∨
          current.leaseUntil ≤ ts
      · rw [if_pos (hrefused.mpr h), if_pos h]
        rfl
      · rw [if_neg (mt hrefused.mp h), if_neg h]
        show EStateM.Result.ok _ _ = EStateM.Result.ok _ _
        rw [exactly_putLease]
        rfl

end Scheduler

end LiandanluNative
