/-
# LiandanluNative.Safety.FencedEffects — side effects of several engines, fenced by generations.

A worker that loses its lease goes on until it asks the store again, and another engine may have
claimed its task by then.  `execute` asks right before it calls the capability, so over any
interleaving of the calls of any engines on one database the side effects that carry a lease happen
in the order of the generations of the leases, with one owner for each (`effects_fenced`).  The
clocks of the engines may disagree, and any of them may die: what carries the order is that a claim
counts the generation on, and that no other method of the store writes one.

The order itself is a matter of books and tickets (`Lib.Fencing`): a book names a holder and a
generation for each key, it may only be counted on, and a ticket that is used while the book names
it is in order with all others.  Here the books are the two tables of leases, the tickets are what
an operation carries, and `Fences` says of each method that it counts on at most, or uses what it
holds.
-/
import LiandanluNative.Lib.Fencing
import LiandanluNative.Safety.ResourceLeases
import LiandanluNative.Safety.SharedStore

namespace LiandanluNative

open Lib (Table)
open Lib.Proc Lib.WriteThrough
open Lib.Lease (Book Fenced Follows Slot Ticket)

/-! ## Books and tickets

Two books for each database, of tasks and of resources; and the tickets that an operation carries
for them.
-/

namespace Database

/-- Who holds each task, by the lease table. -/
def taskBook (db : Database) : Book String String ℚ := .ofTable TaskLease.slot db.taskLeases

/-- Who holds resources for each task, by the lease table. -/
def resourceBook (db : Database) : Book String String ℚ :=
  .ofTable ResourceLease.slot db.resourceLeases

end Database

namespace Invocation

/-- The task lease a side effect carries. -/
def taskTicket (i : Invocation) : Option LeaseIdentity :=
  match i.op.taskLeaseOwnerId, i.op.taskLeaseGeneration with
  | some ownerId, some generation => some ⟨i.op.taskId, ownerId, generation⟩
  | _, _ => none

/-- The resource lease a side effect carries. -/
def resourceTicket (i : Invocation) : Option LeaseIdentity :=
  match i.op.resourceLeaseOwnerId, i.op.resourceLeaseGeneration with
  | some ownerId, some generation => some ⟨i.op.taskId, ownerId, generation⟩
  | _, _ => none

/-- The tables name the leases the side effect carries, owner and generation.  A side effect that
carries none is held by anybody. -/
structure Held (i : Invocation) (db : Database) : Prop where
  task : ∀ ticket, i.taskTicket = some ticket → db.taskBook.Holds ticket
  resource : ∀ ticket, i.resourceTicket = some ticket → db.resourceBook.Holds ticket

end Invocation

/-- From one database to another, the side effects were fenced by both kinds of leases. -/
structure FencedEffects (db : Database) (made : List Invocation) (db' : Database) : Prop where
  tasks : Fenced db.taskBook (made.filterMap Invocation.taskTicket) db'.taskBook
  resources : Fenced db.resourceBook (made.filterMap Invocation.resourceTicket) db'.resourceBook

namespace FencedEffects

variable {db db' db'' : Database} {made made' : List Invocation}

/-- Without a side effect the books are counted on at most. -/
theorem still (htasks : db.taskBook.Later db'.taskBook)
    (hresources : db.resourceBook.Later db'.resourceBook) : FencedEffects db [] db' :=
  ⟨.still htasks, .still hresources⟩

/-- Nothing happens. -/
theorem refl (db : Database) : FencedEffects db [] db := .still (.refl _) (.refl _)

/-- What is fenced one after the other is fenced. -/
theorem trans (h : FencedEffects db made db') (h' : FencedEffects db' made' db'') :
    FencedEffects db (made ++ made') db'' where
  tasks := by
    rw [List.filterMap_append]
    exact h.tasks.trans h'.tasks
  resources := by
    rw [List.filterMap_append]
    exact h.resources.trans h'.resources

/-- A side effect takes place while the tables name its leases. -/
theorem one {i : Invocation} (h : i.Held db) : FencedEffects db [i] db where
  tasks := by
    cases hticket : i.taskTicket with
    | none =>
        rw [List.filterMap_cons_none hticket]
        exact .refl _
    | some ticket =>
        rw [List.filterMap_cons_some hticket]
        exact .use (h.task ticket hticket)
  resources := by
    cases hticket : i.resourceTicket with
    | none =>
        rw [List.filterMap_cons_none hticket]
        exact .refl _
    | some ticket =>
        rw [List.filterMap_cons_some hticket]
        exact .use (h.resource ticket hticket)

/-- The lease tables are as they were. -/
theorem of_tables (htasks : db'.taskLeases = db.taskLeases)
    (hresources : db'.resourceLeases = db.resourceLeases) (h : FencedEffects db made db) :
    FencedEffects db made db' := by
  have htaskBook : db'.taskBook = db.taskBook := by rw [Database.taskBook, htasks]; rfl
  have hresourceBook : db'.resourceBook = db.resourceBook := by
    rw [Database.resourceBook, hresources]
    rfl
  exact ⟨htaskBook ▸ h.tasks, hresourceBook ▸ h.resources⟩

end FencedEffects

/-! ## One engine

A method is fenced if what it made since its start was.  Most methods neither call a capability nor
write a lease, and are fenced by that.
-/

/-- What an engine on a store made between two states was fenced.  It is a relation of two states,
so methods are put together from their parts by `Lib.Proc`. -/
def Fences (s t : Sys) : Prop :=
  s.persistent = true → t.persistent = true ∧
    ∃ made, t.invocations = s.invocations ++ made ∧ FencedEffects s.db made t.db

namespace Fences

variable {s t : Sys}

/-- So a method is fenced if its parts are. -/
theorem frame : Frame Fences where
  refl s hs := ⟨hs, [], (List.append_nil _).symm, .refl _⟩
  trans := by
    intro s t u hst htu hs
    obtain ⟨ht, made, hmade, hfenced⟩ := hst hs
    obtain ⟨hu, made', hmade', hfenced'⟩ := htu ht
    refine ⟨hu, made ++ made', ?_, hfenced.trans hfenced'⟩
    rw [hmade', hmade, List.append_assoc]

/-- Nothing was made, and the leases were counted on at most. -/
theorem of_later (hpersistent : t.persistent = s.persistent)
    (hinvocations : t.invocations = s.invocations) (htasks : s.db.taskBook.Later t.db.taskBook)
    (hresources : s.db.resourceBook.Later t.db.resourceBook) : Fences s t := by
  intro hs
  refine ⟨hpersistent.trans hs, [], ?_, .still htasks hresources⟩
  rw [hinvocations, List.append_nil]

end Fences

/-- Anything may happen but to the leases, and no capability is called.  Most methods move within
it, so they are fenced at once. -/
def Allowance.leaseless : Allowance :=
  { Allowance.free with resources := False, leases := False, invoke := fun _ => False }

theorem Allowance.leaseless_closed : Allowance.leaseless.Closed where
  task := fun _ _ _ _ _ _ => trivial
  operation := fun _ _ _ _ _ _ => trivial
  world := fun _ _ _ _ _ => trivial

theorem Allowance.leaseless_touches (taskId : String) : Allowance.leaseless.Touches taskId where
  keep := fun _ => trivial
  bump := fun _ => trivial
  world := fun _ => trivial

/-- A method that leaves the leases alone and calls no capability is fenced. -/
theorem Moves.fences {s t : Sys} (h : Moves .leaseless s t) : Fences s t := by
  intro hs
  refine ⟨h.persistent.trans hs, [], ?_, ?_⟩
  · rw [h.invocations_eq (fun _ hi => hi), List.append_nil]
  · exact .of_tables (h.taskLeases.resolve_left id) (h.resourceLeases.resolve_left id).1 (.refl _)

/-! ## The leases of the store -/

section

variable {env : Env} {α : Type}

/-- A transaction that, where it commits, counts the leases on at most. -/
theorem fences_store {txn : Txn α}
    (h : ∀ a db db', txn db = .ok a db' →
      db.taskBook.Later db'.taskBook ∧ db.resourceBook.Later db'.resourceBook) :
    Within Fences (store env txn) := by
  intro s
  obtain ⟨n, hn⟩ := after_store env s txn
  rw [hn]
  cases hrun : txn s.db with
  | ok a db =>
      have hcommit : transaction txn s.db = .ok a db := by simp only [transaction, hrun]
      obtain ⟨htasks, hresources⟩ := h a s.db db hrun
      rw [after_of_ok hcommit]
      exact .of_later rfl rfl htasks hresources
  | error e db =>
      have hrollback : transaction txn s.db = .error e s.db := by simp only [transaction, hrun]
      rw [after_of_error hrollback]
      exact .of_later rfl rfl (.refl _) (.refl _)

/-- A row of the next generation is written over the last one of the task. -/
theorem taskBook_later_next (db : Database) {lease : TaskLease}
    (hnext : lease.generation = db.nextTaskGeneration lease.taskId) :
    db.taskBook.Later { db with taskLeases := db.taskLeases.put lease }.taskBook := by
  have hfollows : ∀ row, db.taskLeases.get? lease.taskId = some row →
      Follows row.slot.holder lease.slot.holder := by
    intro row hrow
    refine Or.inl ?_
    show row.generation < lease.generation
    rw [hnext, Database.nextTaskGeneration, hrow]
    exact Int.lt_succ _
  exact Lib.Lease.Book.later_put lease hfollows

/-- The same of the resources of a task. -/
theorem resourceBook_later_next (db : Database) {lease : ResourceLease}
    (hnext : lease.generation = db.nextResourceGeneration lease.taskId) :
    db.resourceBook.Later { db with resourceLeases := db.resourceLeases.put lease }.resourceBook := by
  have hfollows : ∀ row, db.resourceLeases.get? lease.taskId = some row →
      Follows row.slot.holder lease.slot.holder := by
    intro row hrow
    refine Or.inl ?_
    show row.generation < lease.generation
    rw [hnext, Database.nextResourceGeneration, hrow]
    exact Int.lt_succ _
  exact Lib.Lease.Book.later_put lease hfollows

/-- Only the expiry of a row is written. -/
theorem taskBook_later_move (db : Database) {row : TaskLease} {taskId : String}
    (hrow : db.taskLeases.get? taskId = some row) (leaseUntil : ℚ) :
    db.taskBook.Later
      { db with taskLeases := db.taskLeases.put { row with leaseUntil := leaseUntil } }.taskBook := by
  let moved : TaskLease := { row with leaseUntil := leaseUntil }
  have hfollows : ∀ old, db.taskLeases.get? moved.taskId = some old →
      Follows old.slot.holder moved.slot.holder := by
    intro old hold
    have hkey : row.taskId = taskId := Table.key_of_get? hrow
    change db.taskLeases.get? row.taskId = some old at hold
    rw [hkey, hrow, Option.some.injEq] at hold
    rw [← hold]
    exact .refl _
  exact Lib.Lease.Book.later_put moved hfollows

/-- The same of the resources of a task. -/
theorem resourceBook_later_move (db : Database) {row : ResourceLease} {taskId : String}
    (hrow : db.resourceLeases.get? taskId = some row) (leaseUntil : ℚ) :
    db.resourceBook.Later
      { db with
        resourceLeases := db.resourceLeases.put { row with leaseUntil := leaseUntil } }.resourceBook
      := by
  let moved : ResourceLease := { row with leaseUntil := leaseUntil }
  have hfollows : ∀ old, db.resourceLeases.get? moved.taskId = some old →
      Follows old.slot.holder moved.slot.holder := by
    intro old hold
    have hkey : row.taskId = taskId := Table.key_of_get? hrow
    change db.resourceLeases.get? row.taskId = some old at hold
    rw [hkey, hrow, Option.some.injEq] at hold
    rw [← hold]
    exact .refl _
  exact Lib.Lease.Book.later_put moved hfollows

theorem fences_readClock : Within Fences (readClock env) := fun _ =>
  .of_later rfl rfl (.refl _) (.refl _)

/-- A claim writes the next generation, or nothing. -/
theorem fences_claimNextTask (ownerId : String) (leaseSeconds ts : ℚ) :
    Within Fences (store env (claimNextTask ownerId leaseSeconds ts)) := by
  refine fences_store (fun a db db' hrun => ?_)
  rcases claimNextTask_cases ownerId leaseSeconds ts db with
    ⟨e, herror⟩ | hnone | ⟨lease, hclaimed, _, hnext, _⟩
  · rw [herror] at hrun
    cases hrun
  · rw [hnone] at hrun
    cases hrun
    exact ⟨.refl _, .refl _⟩
  · rw [hclaimed] at hrun
    cases hrun
    exact ⟨taskBook_later_next db hnext, .refl _⟩

/-- A renewal moves the end of the row that it names. -/
theorem fences_renewTaskLease (lease : TaskLease) (leaseSeconds ts : ℚ) :
    Within Fences (store env (renewTaskLease lease leaseSeconds ts)) := by
  refine fences_store (fun a db db' hrun => ?_)
  rcases renewTaskLease_cases lease leaseSeconds ts db with
    ⟨_, e, herror⟩ | ⟨_, hnone⟩ | ⟨row, hrow, _, _, hrenewed⟩
  · rw [herror] at hrun
    cases hrun
  · rw [hnone] at hrun
    cases hrun
    exact ⟨.refl _, .refl _⟩
  · rw [hrenewed] at hrun
    cases hrun
    exact ⟨taskBook_later_move db hrow _, .refl _⟩

/-- A release makes the row run out, and keeps its generation. -/
theorem fences_releaseTaskLease (lease : TaskLease) :
    Within Fences (store env (releaseTaskLease lease)) := by
  refine fences_store (fun a db db' hrun => ?_)
  rcases releaseTaskLease_cases lease db with hnone | ⟨row, hrow, _, hreleased⟩
  · rw [hnone] at hrun
    cases hrun
    exact ⟨.refl _, .refl _⟩
  · rw [hreleased] at hrun
    cases hrun
    exact ⟨taskBook_later_move db hrow _, .refl _⟩

/-! ## The broker -/

theorem fences_putBrokerLease (broker : ResourceBroker) (lease : ResourceLease) :
    Within Fences (putBrokerLease broker lease) :=
  within_modify (fun _ => .of_later rfl rfl (.refl _) (.refl _))

/-- With a store an acquisition writes the next generation, or nothing. -/
theorem fences_acquireResources (broker : ResourceBroker) (taskId ownerId : String)
    (request : ResourceRequest) (leaseSeconds : ℚ) :
    Within Fences (acquireResources env broker taskId ownerId request leaseSeconds) := by
  have hF := Fences.frame
  unfold acquireResources
  split
  · exact within_raise hF _
  split
  · exact within_raise hF _
  split
  · exact hF.pure _
  refine hF.bind fences_readClock (fun ts => ?_)
  split
  · refine fences_store (fun a db db' hrun => ?_)
    rcases acquireResourceLease_cases taskId ownerId request broker.capacity leaseSeconds ts db with
      ⟨e, herror⟩ | hnone | ⟨lease, hacquired, ⟨htask, _, _⟩, hnext, _⟩
    · rw [herror] at hrun
      cases hrun
    · rw [hnone] at hrun
      cases hrun
      exact ⟨.refl _, .refl _⟩
    · rw [hacquired] at hrun
      cases hrun
      exact ⟨.refl _, resourceBook_later_next db (htask ▸ hnext)⟩
  · split
    · exact hF.pure _
    · exact hF.bind (fences_putBrokerLease _ _) (fun _ => hF.pure _)

/-- With a store a release makes the row run out. -/
theorem fences_releaseResources (broker : ResourceBroker) (lease : ResourceLease) :
    Within Fences (releaseResources env broker lease) := by
  have hF := Fences.frame
  unfold releaseResources
  split
  · refine fences_store (fun a db db' hrun => ?_)
    rcases releaseResourceLease_cases lease db with hnone | ⟨row, hrow, _, hreleased⟩
    · rw [hnone] at hrun
      cases hrun
      exact ⟨.refl _, .refl _⟩
    · rw [hreleased] at hrun
      cases hrun
      exact ⟨.refl _, resourceBook_later_move db hrow _⟩
  · split
    · exact hF.pure _
    · exact hF.bind (fences_putBrokerLease _ _) (fun _ => hF.pure _)

end

/-! ## Executing

The one method that makes side effects.  Its gates look at the tables, and nothing writes them
between the gates and the call.
-/

section

variable {env : Env}

/-- What the gates of `execute` have checked in a store is what the tables still name when the
capability is called in `u`. -/
theorem PassedGates.held {op : Operation} {locators : List String} {s v : Sys}
    (h : PassedGates env op locators s v) (hs : s.persistent = true) (u : Sys) :
    (u.invocation op.begun locators).Held s.db := by
  constructor
  · intro ticket hticket
    unfold Invocation.taskTicket at hticket
    split at hticket
    · rename_i owner generation howner hgeneration
      obtain ⟨g, hg, n, _, _, hvalid⟩ := h.taskLease hs owner howner
      have hsame : generation = g := Option.some.inj (hgeneration.symm.trans hg)
      obtain ⟨row, hrow, hheld, _⟩ := Database.validateTaskLeaseIdentity_iff.mp hvalid
      cases hticket
      exact ⟨row.slot, Lib.Lease.Book.ofTable_of_get? hrow, hheld.1, hheld.2.trans hsame.symm⟩
    · cases hticket
  · intro ticket hticket
    unfold Invocation.resourceTicket at hticket
    split at hticket
    · rename_i owner generation howner hgeneration
      obtain ⟨g, hg, n, _, _, hvalid⟩ := h.resourceLease hs owner howner
      have hsame : generation = g := Option.some.inj (hgeneration.symm.trans hg)
      obtain ⟨row, hrow, hheld, _⟩ := Database.validateResourceLeaseIdentity_iff.mp hvalid
      cases hticket
      exact ⟨row.slot, Lib.Lease.Book.ofTable_of_get? hrow, hheld.1, hheld.2.trans hsame.symm⟩
    · cases hticket

/-- The leases stay as they are, and the named side effects may be made: what the rest of `execute`
may do once its gates were passed. -/
def Allowance.effecting (P : Invocation → Prop) : Allowance := { Allowance.leaseless with invoke := P }

theorem Allowance.effecting_closed (P : Invocation → Prop) : (Allowance.effecting P).Closed where
  task := fun _ _ _ _ _ _ => trivial
  operation := fun _ _ _ _ _ _ => trivial
  world := fun _ _ _ _ _ => trivial

/-- **`execute`** passes its gates, and calls the capability while the tables name what it has
checked. -/
theorem fences_executeOperation (operationId : String) :
    Within Fences (executeOperation env operationId) := by
  intro s hs
  have hmoves : Moves (.effecting fun i => i.Held s.db) s
      (after (executeOperation env operationId) s) :=
    moves_executeOperation (Allowance.effecting_closed _) env (fun _ _ _ => trivial)
      (fun op locators v u _ hpassed _ => hpassed.held hs u)
  obtain ⟨made, hmade, hheld⟩ := hmoves.invocations
  refine ⟨hmoves.persistent.trans hs, made, hmade, ?_⟩
  refine .of_tables (hmoves.taskLeases.resolve_left id) (hmoves.resourceLeases.resolve_left id).1 ?_
  -- the tables do not change, so any number of side effects is fenced one by one
  clear hmade
  induction made with
  | nil => exact .refl _
  | cons i made ih =>
      exact (FencedEffects.one (hheld i List.mem_cons_self)).trans
        (ih (fun j hj => hheld j (List.mem_cons_of_mem _ hj)))

/-! ## The calls of an engine -/

theorem fences_prepare (taskId : String) (proposal : ActionProposal)
    (expectedRevisions : List (String × Int)) (taskLease : Option TaskLease)
    (resourceLease : Option ResourceLease) :
    Within Fences (prepare env taskId proposal expectedRevisions taskLease resourceLease) := fun s =>
  (moves_prepare Allowance.leaseless_closed env (.of_free (fun _ => trivial) (fun _ _ => trivial))
    (fun _ _ _ => trivial) _ _ _ _ s).fences

theorem stepWithin_fences (taskId : String) : StepWithin Fences env taskId where
  wait _ _ s := (moves_waitTask Allowance.leaseless_closed env (Allowance.leaseless_touches _) _ _
    (fun _ _ => trivial) : Moves .leaseless s _).fences
  update _ _ _ _ _ s := (moves_updateRuntimeState Allowance.leaseless_closed env
    (Allowance.leaseless_touches _) _ _ _ _ (fun _ _ => trivial) : Moves .leaseless s _).fences
  settle s := (moves_settleControl Allowance.leaseless_closed env (Allowance.leaseless_touches _) _ _
    (fun _ _ _ => trivial) : Moves .leaseless s _).fences
  call _ s := (within_callOut _ s : Moves .leaseless s _).fences
  acquire broker ownerId request _ := fences_acquireResources broker _ ownerId request _
  release broker lease := fences_releaseResources broker lease
  flush s := (moves_flushOutbox Allowance.leaseless_closed env s).fences

/-- A step is fenced, as its parts are. -/
theorem fences_step (runner : Runner) (taskId : String) (manifest : ContextManifest)
    (taskLease : Option TaskLease) : Within Fences (step env runner taskId manifest taskLease) := by
  intro s
  have hF := Fences.frame
  have hstep : StepWithin Fences env taskId := stepWithin_fences taskId
  refine step_within hF hF (fun _ _ h => h) hstep (fun v proposal spec expected resourceLease _ => ?_)
  exact stepAct_within hF hstep (fences_prepare _ _ _ _ _ v)
    (fun operationId t u _ _ => fences_executeOperation operationId u)

/-- **Every call of an engine is fenced**, wherever it stops. -/
theorem Call.fences (env : Env) (s : Sys) (call : Call) : Fences s (call.exec env s) := by
  have hF := Fences.frame
  cases call with
  | prepare taskId proposal expectedRevisions taskLease resourceLease =>
      exact fences_prepare taskId proposal expectedRevisions taskLease resourceLease s
  | execute operationId => exact fences_executeOperation operationId s
  | step runner taskId manifest taskLease => exact fences_step runner taskId manifest taskLease s
  | claimNext ownerId leaseSeconds =>
      exact hF.bind fences_readClock (fun ts => fences_claimNextTask ownerId leaseSeconds ts) s
  | renewLease lease leaseSeconds =>
      exact hF.bind fences_readClock (fun ts => fences_renewTaskLease lease leaseSeconds ts) s
  | releaseLease lease => exact fences_releaseTaskLease lease s
  | restart registry capabilities broker =>
      exact fun _ => ⟨rfl, [], (List.append_nil _).symm, .still (.refl _) (.refl _)⟩
  | _ =>
      refine Moves.fences (moves_call_of_leases Allowance.leaseless_closed env
        Allowance.leaseless_touches (fun _ _ => trivial) (fun operationId => ?_) s trivial nofun
        (Allowance.permits_of_free (fun _ _ _ => trivial) _))
      exact moves_recoverOperation Allowance.leaseless_closed env (fun _ _ _ => trivial)
        (fun _ _ => trivial)

end

/-! ## Interleavings

Each call is one of some engine, on the database that the others left; so an interleaving is a run
of stretches, put together by `Fenced.trans`.
-/

namespace Shared

variable {ι : Type} [DecidableEq ι]

/-- The engines after a whole interleaving. -/
def run (envs : ι → Env) (c : Shared ι) (schedule : List (ι × Call)) : Shared ι :=
  schedule.foldl (fun c entry => c.act envs entry.1 entry.2) c

/-- The side effects of an interleaving, in the order they were made. -/
def effects (envs : ι → Env) : Shared ι → List (ι × Call) → List Invocation
  | _, [] => []
  | c, (i, call) :: later =>
      ((c.act envs i call).engines i).invocations.drop (c.engines i).invocations.length ++
        (c.act envs i call).effects envs later

end Shared

/-- **Side effects are fenced across engines.**  Take any engines on one database, each with its own
clock, and any interleaving of their calls, with restarts and with processes that end at any
boundary.  The side effects that carry a task lease are made in the order of the generations of the
leases of their task, with one owner for each generation; none carries a lease that was superseded
before the interleaving began, and the table names a later holder, or the same, when it ends.  The
same holds of the resource leases. -/
theorem effects_fenced {ι : Type} [DecidableEq ι] (envs : ι → Env) (schedule : List (ι × Call))
    (c : Shared ι) (hstore : ∀ i, (c.engines i).persistent = true) :
    FencedEffects c.db (c.effects envs schedule) (c.run envs schedule).db := by
  induction schedule generalizing c with
  | nil => exact .refl _
  | cons entry later ih =>
      obtain ⟨i, call⟩ := entry
      have hon : (c.on i).persistent = true := hstore i
      obtain ⟨_, made, hmade, hfenced⟩ := Call.fences (envs i) (c.on i) call hon
      have hnew : ((c.act envs i call).engines i).invocations.drop (c.engines i).invocations.length
          = made := by
        rw [Shared.act_engines_self, hmade]
        exact List.drop_left
      show FencedEffects c.db (_ ++ _) ((c.act envs i call).run envs later).db
      rw [hnew]
      exact hfenced.trans (ih _ (Shared.act_persistent c i call hstore))

/-- One engine claims the task, steps and gives it up; the other claims it and steps; and then the
first steps once more, with the lease it had. -/
def handedOn : List (Bool × Call) :=
  [(true, .claimNext "worker" 60), (true, .step Small.runner "t" Small.manifest (some Small.lease)),
    (true, .releaseLease Small.lease), (true, .queue "t"), (false, .claimNext "other" 60),
    (false, .step Small.runner "t" Small.manifest
      (some { Small.lease with ownerId := "other", generation := 2 })),
    (true, .step Small.runner "t" Small.manifest (some Small.lease))]

/-- The last step has no effect: its lease was superseded. -/
theorem effects_fenced_handedOn :
    FencedEffects twoEngines.db (twoEngines.effects (fun _ => Small.env) handedOn)
        (twoEngines.run (fun _ => Small.env) handedOn).db ∧
      (twoEngines.effects (fun _ => Small.env) handedOn).map
          (fun i => (i.op.taskLeaseOwnerId, i.op.taskLeaseGeneration))
        = [(some "worker", some 1), (some "other", some 2)] :=
  ⟨effects_fenced (fun _ => Small.env) handedOn twoEngines (fun _ => rfl), by decide +kernel⟩

end LiandanluNative
