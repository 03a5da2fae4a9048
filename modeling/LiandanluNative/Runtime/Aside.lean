/-
# LiandanluNative.Runtime.Aside — the calls that leave tasks, operations and their events alone.

Reading the clock, changing the world, handing out leases, delivering the outbox: whatever the books
of an engine say of its tasks, its operations and the events about them, these calls do not touch
(`Aside`).  All of them but the methods of the world leave the world alone as well (`Apart`).

Whatever an invariant of tasks or operations is about, it carries over such a call at once: it looks
at what the call did not touch.  What a transaction leaves alone is said of the database
(`Database.books`, `Database.desk`), so a method is aside if its transactions are and if what it
assigns in memory is not named.
-/
import LiandanluNative.Runtime.Engine

namespace LiandanluNative

open Lib (Table)
open Lib.Proc

/-- What an outbox row says of whom; a delivery never changes it. -/
def OutboxRow.notice (row : OutboxRow) : Int × Option String × Option String × String :=
  (row.outboxId, row.taskId, row.operationId, row.eventType)

/-- The part of the database the books of tasks and operations are kept in. -/
def Database.ledger (db : Database) :
    Table Task.taskId × Table Operation.operationId × Int ×
      List (Int × Option String × Option String × String) :=
  (db.tasks, db.operations, db.outboxSequence, db.eventOutbox.rows.map OutboxRow.notice)

/-- From one database to another the outbox was delivered from, any number of times.  Delivering is
the one thing such a call may do to an outbox row. -/
inductive Posts : Database → Database → Prop
  | elsewhere {db db' : Database} (same : db'.outboxPart = db.outboxPart) : Posts db db'
  | delivered {db : Database} (limit : Int) (newId : Int → String) (observedAt : Int → ℚ) :
      Posts db (after (transaction (dispatchRows newId observedAt (db.pendingOutbox limit))) db)
  | trans {db db' db'' : Database} (h₁ : Posts db db') (h₂ : Posts db' db'') : Posts db db''

/-- Nothing delivered is a delivery, too. -/
theorem Posts.refl {db : Database} : Posts db db := .elsewhere rfl

/-- **Tasks, operations and their books are as they were**; ids may have been drawn and events
delivered. The findings are those of the verifications made. -/
structure Aside (s t : Sys) : Prop where
  config : (t.persistent, t.registry, t.capabilities) = (s.persistent, s.registry, s.capabilities)
  tasks : t.tasks = s.tasks
  operations : t.operations = s.operations
  findings : t.findings = s.findings
  ids : s.ids ≤ t.ids
  ledger : t.db.ledger = s.db.ledger
  posts : Posts s.db t.db

namespace Aside

variable {s t : Sys}

protected theorem refl : Aside s s := ⟨rfl, rfl, rfl, rfl, le_rfl, rfl, .refl⟩

/-- Time passes. -/
theorem clock (clockReads : ℕ) : Aside s { s with clockReads := clockReads } :=
  ⟨rfl, rfl, rfl, rfl, le_rfl, rfl, .refl⟩

theorem frame : Frame Aside where
  refl _ := Aside.refl
  trans h₁ h₂ :=
    { config := h₂.config.trans h₁.config
      tasks := h₂.tasks.trans h₁.tasks
      operations := h₂.operations.trans h₁.operations
      findings := h₂.findings.trans h₁.findings
      ids := h₁.ids.trans h₂.ids
      ledger := h₂.ledger.trans h₁.ledger
      posts := h₁.posts.trans h₂.posts }

/-- The parts of the ledger, one by one. -/
theorem persistent (h : Aside s t) : t.persistent = s.persistent := congrArg Prod.fst h.config

theorem capabilities (h : Aside s t) : t.capabilities = s.capabilities :=
  congrArg (fun config => config.2.2) h.config

theorem dbTasks (h : Aside s t) : t.db.tasks = s.db.tasks := congrArg Prod.fst h.ledger

theorem dbOperations (h : Aside s t) : t.db.operations = s.db.operations :=
  congrArg (fun ledger => ledger.2.1) h.ledger

theorem outboxSequence (h : Aside s t) : t.db.outboxSequence = s.db.outboxSequence :=
  congrArg (fun ledger => ledger.2.2.1) h.ledger

/-- What the outbox says of whom is part of the books, though whether it was delivered is not. -/
theorem notices (h : Aside s t) :
    t.db.eventOutbox.rows.map OutboxRow.notice = s.db.eventOutbox.rows.map OutboxRow.notice :=
  congrArg (fun ledger => ledger.2.2.2) h.ledger

end Aside

/-- The part of the database the world is kept in. -/
def Database.worldTables (db : Database) :
    Table Entity.entityId ×
      Table (id : String × String × String → String × String × String) ×
      Option WorldRevisions × Table (Prod.fst : String × Int → String) :=
  (db.worldEntities, db.worldRelations, db.worldRevisions, db.workspaceRevisions)

/-- The part of the database that the methods of the world do not touch. -/
def Database.desk (db : Database) := (db.ledger, db.outboxPart)

/-- The part of the database that only changes of tasks, operations and the world touch. -/
def Database.books (db : Database) := (db.ledger, db.worldTables)

/-- **And the world is as it was.** Only the calls of the world itself are aside and not apart. -/
structure Apart (s t : Sys) : Prop extends Aside s t where
  world : t.world = s.world
  worldTables : t.db.worldTables = s.db.worldTables

namespace Apart

variable {s t : Sys}

protected theorem refl : Apart s s := ⟨Aside.refl, rfl, rfl⟩

theorem clock (clockReads : ℕ) : Apart s { s with clockReads := clockReads } :=
  ⟨Aside.clock clockReads, rfl, rfl⟩

theorem frame : Frame Apart where
  refl _ := Apart.refl
  trans h₁ h₂ :=
    { toAside := Aside.frame.trans h₁.toAside h₂.toAside
      world := h₂.world.trans h₁.world
      worldTables := h₂.worldTables.trans h₁.worldTables }

/-- A change of the rest of the database. -/
theorem of_books {db : Database} {n : ℕ} (h : db.books = s.db.books) (hposts : Posts s.db db) :
    Apart s { s with db := db, boundaries := n } where
  toAside := { Aside.refl with ledger := congrArg Prod.fst h, posts := hposts }
  world := rfl
  worldTables := congrArg Prod.snd h

end Apart

/-! ## The primitives -/

section

variable {env : Env} {α : Type}

/-- The primitives that touch no record are apart. -/
theorem apart_readClock : Within Apart (readClock env) := fun _ => Apart.clock _

theorem apart_newId (kind : String) : Within Apart (newId env kind) :=
  fun _ => { Apart.refl with ids := Nat.le_succ _ }

/-- A delivery. -/
theorem apart_store_dispatch {s : Sys} (limit : Int) (newId : Int → String) (observedAt : Int → ℚ)
    (h : Within (Fixes Database.books) (dispatchRows newId observedAt (s.db.pendingOutbox limit))) :
    Apart s (after (store env (dispatchRows newId observedAt (s.db.pendingOutbox limit))) s) := by
  obtain ⟨n, hn⟩ := after_store env s (dispatchRows newId observedAt (s.db.pendingOutbox limit))
  rw [hn]
  exact .of_books (within_transaction (frame_fixes _) h s.db) (.delivered limit newId observedAt)

/-- A change of the world is aside, but not apart. -/
theorem aside_modifyWorld (f : WorldModel → WorldModel) : Within Aside (modifyWorld f) :=
  within_modify (fun _ => { Aside.refl with })

/-- **A transaction is aside** if it leaves the desk of the engine alone: the ledger and the outbox.
-/
theorem aside_store {txn : Txn α} (h : Within (Fixes Database.desk) txn) :
    Within Aside (store env txn) := by
  intro s
  obtain ⟨n, hn⟩ := after_store env s txn
  have hdesk := within_transaction (frame_fixes _) h s.db
  rw [hn]
  exact { Aside.refl with
    ledger := congrArg Prod.fst hdesk, posts := .elsewhere (congrArg Prod.snd hdesk) }

/-- With a store it runs, without one nothing does. -/
theorem aside_persisting {txn : Sys → Txn α} (h : ∀ s, Within (Fixes Database.desk) (txn s)) :
    Within Aside (persisting env txn) := by
  have hF := Aside.frame
  unfold persisting
  refine hF.bind hF.get (fun s => ?_)
  split
  · exact hF.bind (aside_store (h s)) (fun _ => hF.pure _)
  · exact hF.pure _

end

/-! ## Delivering

A delivery reads the outbox, marks its rows and copies them into the log; what a row says, and of
whom, it leaves as it is.
-/

section

variable {env : Env}

/-- A row that is updated keeps what it says of whom. -/
theorem updateOutbox_books (db : Database) (outboxId : Int) {set : OutboxRow → OutboxRow}
    (hset : ∀ row, (set row).notice = row.notice) :
    (db.updateOutbox outboxId set).books = db.books := by
  unfold Database.updateOutbox
  cases hrow : db.eventOutbox.get? outboxId with
  | none => rfl
  | some row =>
      obtain ⟨before, later, hsplit⟩ := List.append_of_mem (Table.mem_of_get? hrow)
      have hkey : (set row).outboxId = row.outboxId := congrArg Prod.fst (hset row)
      have hrows := Table.put_rows_of_split hsplit hkey
      have hnotices : (db.eventOutbox.put (set row)).rows.map OutboxRow.notice
          = db.eventOutbox.rows.map OutboxRow.notice := by
        rw [hrows, hsplit, List.map_append, List.map_append, List.map_cons, List.map_cons, hset row]
      simp only [Database.books, Database.ledger, Database.worldTables, hnotices]

/-- Delivering a row marks it and copies it into the log; neither is part of the books. -/
theorem dispatchRow_books (row : OutboxRow) (newId : String) (observedAt : ℚ) :
    Within (Fixes Database.books) (dispatchRow row newId observedAt) := by
  have hF := frame_fixes Database.books
  have hinsert : ∀ eventId, Within (Fixes Database.books)
      (modify (Database.insertEvent · row eventId observedAt) : Txn PUnit) := by
    intro eventId
    refine within_modify (fun db => ?_)
    unfold Database.insertEvent
    split <;> rfl
  have hsent : Within (Fixes Database.books)
      (modify (Database.updateOutbox · row.outboxId (fun r => { r with dispatched := true })) :
        Txn PUnit) :=
    within_modify (fun db => updateOutbox_books db _ (fun _ => rfl))
  unfold dispatchRow
  dsimp only
  split
  · refine hF.bind (within_modify (fun db => updateOutbox_books db _ (fun _ => rfl))) (fun _ => ?_)
    refine hF.bind (hinsert _) (fun _ => hF.bind hsent (fun _ => hF.bind hF.get (fun db => ?_)))
    split
    · exact hF.pure _
    · exact hF.throw _
  · refine hF.bind (hinsert _) (fun _ => hF.bind hsent (fun _ => hF.bind hF.get (fun db => ?_)))
    split
    · exact hF.pure _
    · exact hF.throw _

theorem dispatchRows_books (newId : Int → String) (observedAt : Int → ℚ) :
    ∀ rows : List OutboxRow, Within (Fixes Database.books) (dispatchRows newId observedAt rows)
  | [] => (frame_fixes _).pure _
  | row :: rows => by
      have hF := frame_fixes Database.books
      unfold dispatchRows
      refine hF.bind (dispatchRow_books row _ _) (fun event => ?_)
      exact hF.bind (dispatchRows_books newId observedAt rows) (fun events => hF.pure _)

/-- Without a store the events in memory become the log in memory. -/
theorem apart_emitAll : ∀ items, Within Apart (emitAll env items)
  | [] => Apart.frame.pure _
  | item :: pending => by
      have hF := Apart.frame
      unfold emitAll
      refine hF.bind apart_readClock (fun ts => hF.bind (apart_newId _) (fun eventId => ?_))
      refine hF.bind hF.get (fun s => hF.bind (within_modify (fun s => ?_)) (fun _ => ?_))
      · exact { Apart.refl with }
      · exact hF.bind (apart_emitAll pending) (fun emitted => hF.pure _)

theorem apart_dispatchOutbox : Within Apart (dispatchOutbox env) := by
  intro s
  let rows := s.db.pendingOutbox 100
  have hread : Apart s
      { s with clockReads := s.clockReads + rows.length, ids := s.ids + rows.length } :=
    { Apart.refl with ids := Nat.le_add_right _ _ }
  exact Apart.frame.trans hread (apart_store_dispatch 100 _ _ (dispatchRows_books _ _ _))

/-- **Delivering** is apart. -/
theorem apart_flushOutbox : Within Apart (flushOutbox env) := by
  have hF := Apart.frame
  unfold flushOutbox
  refine hF.bind hF.get (fun s => ?_)
  split
  · exact apart_dispatchOutbox
  · exact hF.bind (within_modify (fun s => { Apart.refl with })) (fun _ => apart_emitAll _)

end

/-! ## The world

The methods of the world change what is in memory, and write it through, each in one or two
transactions on tables of the world.
-/

section

variable {env : Env}

/-- **The methods of the world** are aside, each put together from the bumps and the saves of its
body. -/
theorem aside_persistRevisions : Within Aside (persistRevisions env) :=
  aside_persisting (fun _ => within_transaction (frame_fixes _) (within_modify (fun _ => rfl)))

theorem aside_bumpWorkspace (workspaceId : String) : Within Aside (bumpWorkspace env workspaceId) := by
  have hF := Aside.frame
  have hD := frame_fixes Database.desk
  unfold bumpWorkspace
  refine hF.bind hF.get (fun s => hF.bind (aside_modifyWorld _) (fun _ => ?_))
  refine hF.bind (aside_persisting (fun s => ?_)) (fun _ => aside_persistRevisions)
  exact within_transaction hD (hD.bind (within_binds hD _) (fun _ => within_modify (fun _ => rfl)))

theorem aside_registerEntity (entity : Entity) : Within Aside (registerEntity env entity) := by
  have hF := Aside.frame
  have hD := frame_fixes Database.desk
  unfold registerEntity
  refine hF.bind (aside_modifyWorld _) (fun _ => ?_)
  refine hF.bind (aside_persisting (fun s => ?_)) (fun _ => aside_bumpWorkspace _)
  unfold saveWorldEntity
  refine within_transaction hD (hD.bind (within_dumpsItems hD _) (fun _ => ?_))
  exact hD.bind (within_binds hD _) (fun _ => within_modify (fun _ => rfl))

theorem aside_observe (source observationType : String) (value : PyVal) (domain : String)
    (workspaceId : Option String) :
    Within Aside (observe env source observationType value domain workspaceId) := by
  have hF := Aside.frame
  unfold observe
  refine hF.bind (aside_modifyWorld _) (fun _ => ?_)
  split
  · split
    · exact within_raise hF _
    · exact aside_bumpWorkspace _
  · refine hF.bind hF.get (fun s => hF.bind (within_liftExcept hF _) (fun revisions => ?_))
    exact hF.bind (aside_modifyWorld _) (fun _ => aside_persistRevisions)

theorem aside_relate (source relation target : String) :
    Within Aside (relate env source relation target) := by
  have hF := Aside.frame
  have hD := frame_fixes Database.desk
  unfold relate
  refine hF.bind hF.get (fun s => hF.bind (within_liftExcept hF _) (fun sourceEntity => ?_))
  refine hF.bind (within_liftExcept hF _) (fun targetEntity => ?_)
  split
  · exact within_raise hF _
  split
  · exact hF.pure _
  refine hF.bind (aside_modifyWorld _) (fun _ => ?_)
  refine hF.bind (aside_persisting (fun s => ?_)) (fun _ => aside_bumpWorkspace _)
  exact within_transaction hD (hD.bind (within_binds hD _) (fun _ => within_modify (fun _ => rfl)))

end

/-! ## Leases and heaps

Here a call may change the tables of leases, a broker, or the heaps: nothing that the books name.
-/

section

variable {env : Env}

/-- A transaction that, where it commits, commits a change of the leases only. -/
theorem apart_store_leases {α : Type} {txn : Txn α}
    (h : ∀ a db db', txn db = .ok a db' → db'.books = db.books ∧ db'.outboxPart = db.outboxPart) :
    Within Apart (store env txn) := by
  intro s
  obtain ⟨n, hn⟩ := after_store env s txn
  rw [hn]
  cases hrun : txn s.db with
  | ok a db =>
      have hcommit : transaction txn s.db = .ok a db := by simp only [transaction, hrun]
      obtain ⟨hbooks, hpart⟩ := h a s.db db hrun
      rw [after_of_ok hcommit]
      exact .of_books hbooks (.elsewhere hpart)
  | error e db =>
      have hrollback : transaction txn s.db = .error e s.db := by simp only [transaction, hrun]
      rw [after_of_error hrollback]
      exact .of_books rfl .refl

/-- **Leases of tasks** are in a table of their own, and claiming one reads the tasks. -/
theorem apart_claimNextTask (ownerId : String) (leaseSeconds ts : ℚ) :
    Within Apart (store env (claimNextTask ownerId leaseSeconds ts)) := by
  refine apart_store_leases (fun a db db' hrun => ?_)
  rcases claimNextTask_cases ownerId leaseSeconds ts db with ⟨e, h⟩ | h | ⟨lease, h, _⟩
  all_goals
    rw [h] at hrun
    cases hrun
    try exact ⟨rfl, rfl⟩

theorem apart_renewTaskLease (lease : TaskLease) (leaseSeconds ts : ℚ) :
    Within Apart (store env (renewTaskLease lease leaseSeconds ts)) := by
  refine apart_store_leases (fun a db db' hrun => ?_)
  rcases renewTaskLease_cases lease leaseSeconds ts db with
    ⟨_, e, h⟩ | ⟨_, h⟩ | ⟨row, _, _, _, h⟩
  all_goals
    rw [h] at hrun
    cases hrun
    try exact ⟨rfl, rfl⟩

theorem apart_releaseTaskLease (lease : TaskLease) :
    Within Apart (store env (releaseTaskLease lease)) := by
  refine apart_store_leases (fun a db db' hrun => ?_)
  rcases releaseTaskLease_cases lease db with h | ⟨row, _, _, h⟩
  all_goals
    rw [h] at hrun
    cases hrun
    exact ⟨rfl, rfl⟩

/-- **Leases of resources** are in the broker or in their table. -/
theorem apart_putBrokerLease (broker : ResourceBroker) (lease : ResourceLease) :
    Within Apart (putBrokerLease broker lease) :=
  within_modify (fun _ => { Apart.refl with })

theorem apart_acquireResources (broker : ResourceBroker) (taskId ownerId : String)
    (request : ResourceRequest) (leaseSeconds : ℚ) :
    Within Apart (acquireResources env broker taskId ownerId request leaseSeconds) := by
  have hF := Apart.frame
  unfold acquireResources
  split
  · exact within_raise hF _
  split
  · exact within_raise hF _
  split
  · exact hF.pure _
  refine hF.bind apart_readClock (fun ts => ?_)
  split
  · refine apart_store_leases (fun a db db' hrun => ?_)
    rcases acquireResourceLease_cases taskId ownerId request broker.capacity leaseSeconds ts db
      with ⟨e, h⟩ | h | ⟨lease, h, _⟩
    all_goals
      rw [h] at hrun
      cases hrun
      try exact ⟨rfl, rfl⟩
  · split
    · exact hF.pure _
    · exact hF.bind (apart_putBrokerLease _ _) (fun _ => hF.pure _)

theorem apart_releaseResources (broker : ResourceBroker) (lease : ResourceLease) :
    Within Apart (releaseResources env broker lease) := by
  have hF := Apart.frame
  unfold releaseResources
  split
  · refine apart_store_leases (fun a db db' hrun => ?_)
    rcases releaseResourceLease_cases lease db with h | ⟨row, _, _, h⟩
    all_goals
      rw [h] at hrun
      cases hrun
      exact ⟨rfl, rfl⟩
  · split
    · exact hF.pure _
    · exact hF.bind (apart_putBrokerLease _ _) (fun _ => hF.pure _)

/-- The heaps of the scheduler are no books. -/
theorem apart_pushTask (taskId : String) : Within Apart (pushTask env taskId) := by
  have hF := Apart.frame
  unfold pushTask
  refine hF.bind (within_getTask hF taskId) (fun task => ?_)
  have hpush : ∀ item, Within Apart
      (if task.lane = "interactive" then
        modify fun s => { s with interactive := s.interactive.orderedInsert heapLe item }
      else
        modify fun s => { s with background := s.background.orderedInsert heapLe item } : M Unit) := by
    intro item
    split
    · exact within_modify (fun s => { Apart.refl with })
    · exact within_modify (fun s => { Apart.refl with })
  cases task.queuedAt with
  | some at_ => exact hF.bind (hF.pure at_) (fun queuedAt => hpush _)
  | none => exact hF.bind apart_readClock (fun queuedAt => hpush _)

end

end LiandanluNative
