/-
# LiandanluNative.Safety.PrepareAtomic — `prepare` is all or nothing.

Every check of `prepare` comes before its first assignment: the action, the revisions, the objects,
the two leases and at last the budget.  So whatever it raises, only a clock was read and an id was
taken; and when it returns, the task has been counted up, the operation opened and the event put in
the outbox together, in memory and in the store (`prepare_atomic`).

What is counted up is the `TaskBudget` object of the task.  Where another task holds the same object,
its budget changes too, in memory and not in the store (`prepare_atomic_fails`).
-/
import LiandanluNative.Runtime.Encoding
import LiandanluNative.Runtime.Engine
import LiandanluNative.Runtime.Scheduler
import LiandanluNative.Runtime.SharedBudgets

namespace LiandanluNative

open Lib (Table)
open Lib.Proc

/-! ## Writes that succeed

What SQLite and JSON have to take for `prepare` to write, and what the engine then has more.
-/

/-- The texts and integers of the rows that `prepare` writes, other than those in JSON and the ids it
takes. -/
def Sys.preparedColumns (s : Sys) (taskId : String) (taskLease : Option TaskLease)
    (resourceLease : Option ResourceLease) : List Column :=
  (s.tasks.get? taskId).toList.flatMap (fun task => task.started.columns)
    ++ s.registry.rows.flatMap ActionSpec.columns
    ++ (taskLease.map TaskLease.columns).getD [] ++ (resourceLease.map ResourceLease.columns).getD []

/-- The writes of `prepare` succeed: SQLite takes the texts and integers of the rows, the arguments of
the operation can be stored, its id is new, and the outbox has numbered its rows in order. -/
structure Sys.CanWrite (s : Sys) (env : Env) (taskId : String) (proposal : ActionProposal)
    (taskLease : Option TaskLease) (resourceLease : Option ResourceLease) : Prop where
  columns : s.persistent = true → Bindable (s.preparedColumns taskId taskLease resourceLease)
  identifiers : s.persistent = true → ∀ n, encodable (env.uuid n) = true
  arguments : s.persistent = true → ∃ items, PyVal.jsonDumpsItems proposal.arguments = some items
  operations : s.operations.get? (env.newId "op" s.ids) = none
  rows : s.db.operations.get? (env.newId "op" s.ids) = none
  outbox : ∀ row ∈ s.db.eventOutbox.rows, row.outboxId ≤ s.db.outboxSequence

/-- What becomes of the engine when a method is refused: a clock may have been read, or an id
taken. -/
def Sys.Untouched (s t : Sys) : Prop := t = { s with clockReads := t.clockReads, ids := t.ids }

/-- What becomes of the engine when an operation is opened. -/
structure Sys.OneMore (s t : Sys) (task : Task) (op : Operation) : Prop where
  prepared : op.state = .prepared
  owner : op.taskId = task.taskId
  opened : t.operations.rows = s.operations.rows ++ [op]
  counted : t.tasks = s.tasks.put
    { task with
      budget := { task.budget with operationsStarted := task.budget.operationsStarted + 1 }
      revision := task.revision + 1 }
  bumped : t.world.revisions =
    { s.world.revisions with
      tasks := s.world.revisions.tasks + 1
      globalRevision := s.world.revisions.globalRevision + 1 }
  rest : t =
    { s with
      tasks := t.tasks
      operations := t.operations
      world := { s.world with revisions := t.world.revisions }
      outbox := t.outbox
      db := t.db
      clockReads := t.clockReads
      ids := t.ids
      boundaries := t.boundaries }
  volatile : s.persistent = false → t.db = s.db ∧ ∃ item, t.outbox = s.outbox ++ [item]
  durable : s.persistent = true → t.outbox = s.outbox ∧ ∃ row event, op.encoded = some row ∧
    t.db.operations.rows = s.db.operations.rows ++ [row] ∧
    t.db.eventOutbox.rows = s.db.eventOutbox.rows ++ [event] ∧
    t.db = { s.db with
      tasks := s.db.tasks.put task.started
      operations := t.db.operations
      worldRevisions := some t.world.revisions
      eventOutbox := t.db.eventOutbox
      outboxSequence := s.db.outboxSequence + 1 }

/-! ## Opening an operation -/

section

variable {env : Env} {s : Sys} {task : Task} {op : Operation}

/-- An event is one row more where the rows were numbered in order. -/
theorem Database.withEvent_rows {db : Database}
    (hseq : ∀ row ∈ db.eventOutbox.rows, row.outboxId ≤ db.outboxSequence) (fields : EventFields)
    (eventId : String) (occurredAt : ℚ) (payload : List (PyKey × PyVal)) :
    (db.withEvent fields eventId occurredAt payload).eventOutbox.rows
      = db.eventOutbox.rows ++ [fields.row (db.outboxSequence + 1) eventId occurredAt payload] := by
  refine Table.put_rows_of_get?_none (Table.get?_eq_none.mpr (fun old hold heq => ?_))
  have hle := hseq old hold
  have hsame : old.outboxId = db.outboxSequence + 1 := heq
  omega

/-- The store, once the operation is opened. -/
theorem Sys.oneMore_of_durable (hpersistent : s.persistent = true) (hprepared : op.state = .prepared)
    (howner : op.taskId = task.taskId) (hnew : s.operations.get? op.operationId = none)
    (hrow : s.db.operations.get? op.operationId = none)
    (hseq : ∀ row ∈ s.db.eventOutbox.rows, row.outboxId ≤ s.db.outboxSequence) {row : Operation}
    (hencoded : op.encoded = some row) (fields : EventFields) (column : List (PyKey × PyVal)) :
    s.OneMore ((s.opened task op).recordedStart env task.started row fields column) task op where
  prepared := hprepared
  owner := howner
  opened := Table.put_rows_of_get?_none hnew
  counted := rfl
  bumped := rfl
  rest := rfl
  volatile h := by
    rw [hpersistent] at h
    cases h
  durable _ := by
    obtain ⟨_, _, _, _, _, _, hfields⟩ := Operation.encoded_eq hencoded
    have hid : row.operationId = op.operationId := by rw [hfields]
    have hbare : s.db.operations.get? row.operationId = none := by
      rw [hid]
      exact hrow
    have hwritten : s.db.operationRow row = row := by
      unfold Database.operationRow
      rw [hbare]
    have hrows : (s.db.operations.put (s.db.operationRow row)).rows
        = s.db.operations.rows ++ [row] := by
      rw [hwritten]
      exact Table.put_rows_of_get?_none hbare
    exact ⟨rfl, row, _, hencoded, hrows, Database.withEvent_rows hseq _ _ _ _, rfl⟩

/-- Without a store the event is put in the outbox. -/
theorem ends_startOperation_of_volatile {E : Fault → Sys → Prop} (hvolatile : s.persistent = false)
    (hprepared : op.state = .prepared) (howner : op.taskId = task.taskId)
    (hnew : s.operations.get? op.operationId = none) :
    Ends (fun _ t => s.OneMore t task op) E (startOperation env task op) s := by
  have hstore : ¬ s.persistent = true := Bool.eq_false_iff.mp hvolatile
  unfold startOperation enqueueOutbox
  refine Ends.bind (Ends.modifying (Ends.bind (ends_bumpTasks_of_volatile hvolatile ?_)))
  refine Ends.bind (Ends.modifying (Ends.bind (Ends.get ?_)))
  rw [if_neg hstore]
  refine Ends.bind (Ends.bind (Ends.get ?_))
  rw [if_neg hstore]
  refine Ends.bind (Ends.of_ok (rfl : newId env "outbox" _ = _) (Ends.bind (Ends.modifying ?_)))
  refine Ends.pure (Ends.pure ?_)
  exact {
    prepared := hprepared
    owner := howner
    opened := Table.put_rows_of_get?_none hnew
    counted := rfl
    bumped := rfl
    rest := rfl
    volatile := fun _ => ⟨rfl, _, rfl⟩
    durable := fun h => absurd h hstore }

/-- **Opening an operation.** Nothing is raised where the operation can be stored. -/
theorem ends_startOperation_oneMore (hprepared : op.state = .prepared)
    (howner : op.taskId = task.taskId) (hnew : s.operations.get? op.operationId = none)
    (hrow : s.db.operations.get? op.operationId = none)
    (hseq : ∀ row ∈ s.db.eventOutbox.rows, row.outboxId ≤ s.db.outboxSequence)
    (hencodable : s.persistent = true → op.Encodable) :
    Ends (fun _ t => s.OneMore t task op) (fun fault _ => fault = .crash)
      (startOperation env task op) s := by
  cases hpersistent : s.persistent with
  | false => exact ends_startOperation_of_volatile hpersistent hprepared howner hnew
  | true =>
      refine ends_startOperation hpersistent howner rfl ?_ ?_
      · intro hnone
        exact absurd hnone (hencodable hpersistent).encoded
      · intro row fields column hencoded _
        exact ⟨Sys.oneMore_of_durable hpersistent hprepared howner hnew hrow hseq hencoded fields
          column, rfl⟩

/-! ## Preparing -/

variable {taskId : String} {proposal : ActionProposal} {expectedRevisions : List (String × Int)}
  {taskLease : Option TaskLease} {resourceLease : Option ResourceLease}

/-- Opening an operation after the clock was read and the id was taken is opening it. -/
theorem Sys.OneMore.of_untouched {s₁ t : Sys} (hs : s.Untouched s₁) (h : s₁.OneMore t task op) :
    s.OneMore t task op := by
  unfold Sys.Untouched at hs
  rw [hs] at h
  exact ⟨h.prepared, h.owner, h.opened, h.counted, h.bumped, h.rest, h.volatile, h.durable⟩

/-- **Preparing**: it is refused, or the process ends, or there is one more operation.  The checks
come first, so a refusal is from the state that the call found. -/
theorem ends_prepare_oneMore (hwrites : s.CanWrite env taskId proposal taskLease resourceLease) :
    Ends (fun operationId t => ∃ task op, s.tasks.get? taskId = some task ∧
        op.operationId = operationId ∧ s.OneMore t task op)
      (fun fault t => fault = .crash ∨ s.Untouched t)
      (prepare env taskId proposal expectedRevisions taskLease resourceLease) s := by
  unfold prepare
  refine Ends.bind (ends_getTask (fun task hfound => ?_) (fun _ => Or.inr rfl))
  have hreads := @admitProposal_reads env task proposal expectedRevisions taskLease resourceLease
  refine Ends.bind ⟨fun {spec s₁} hadmit => ?_, fun hraised => Or.inr ?_⟩
  · -- the checks passed, and read the clock at most
    have hread := (hreads.of_ok hadmit).2
    generalize s₁.clockReads = reads at hread
    subst hread
    let op := proposal.operation (env.newId "op" s.ids) task spec expectedRevisions taskLease
      resourceLease
    let u : Sys := { s with ids := s.ids + 1, clockReads := reads + 1 }
    have huntouched : s.Untouched u := rfl
    refine Ends.bind (Ends.of_ok (rfl : newId env "op" _ = _) ?_)
    refine Ends.bind (Ends.of_ok (rfl : readClock env _ = _) ?_)
    cases hreason : task.budget.blockReason (env.clock reads) with
    | some reason => exact Ends.throw (Or.inr huntouched)
    | none =>
        have hstart : Ends (fun _ t => u.OneMore t task op) (fun fault _ => fault = .crash)
            (startOperation env task op) u := by
          refine ends_startOperation_oneMore rfl rfl hwrites.operations hwrites.rows hwrites.outbox
            (fun hpersistent => ?_)
          obtain ⟨items, harguments⟩ := hwrites.arguments hpersistent
          exact ActionProposal.operation_encodable harguments _ spec
        refine Ends.bind (hstart.mono (fun _ t ht => Ends.pure ?_) (fun _ _ hcrash => Or.inl hcrash))
        exact ⟨task, _, hfound, rfl, ht.of_untouched huntouched⟩
  · have hread := (hreads.of_error hraised).2
    show _ = _
    rw [hread]

end

/-- Opening an operation brings no task, so a budget that was the task's own still is. -/
theorem Sys.OneMore.ownBudget {holds : String → ℕ} {taskId : String} {s t : Sys} {task : Task}
    {op : Operation} (h : s.OneMore t task op) (hget : s.tasks.get? taskId = some task)
    (hown : s.OwnBudget holds taskId) : t.OwnBudget holds taskId := by
  intro other hother hholds
  rw [h.counted] at hother
  rcases Table.mem_put.mp hother with rfl | ⟨hold, -⟩
  · have hkey : task.taskId = taskId := Table.key_of_get? hget
    exact hkey
  · exact hown other hold hholds

/-- **`prepare` is all or nothing.** Where its writes succeed, and the task holds a budget of its own:
whatever it raises, nothing has changed; and when it returns, there is exactly one more operation. -/
theorem prepare_atomic {env : Env} {s : Sys} {taskId : String} {proposal : ActionProposal}
    {taskLease : Option TaskLease} {resourceLease : Option ResourceLease}
    (hwrites : s.CanWrite env taskId proposal taskLease resourceLease) {holds : String → ℕ}
    (hown : s.OwnBudget holds taskId) (expectedRevisions : List (String × Int)) :
    (∀ e t, prepareSharing holds env taskId proposal expectedRevisions taskLease resourceLease s
        = .error (.raised e) t → s.Untouched t) ∧
    (∀ operationId t,
      prepareSharing holds env taskId proposal expectedRevisions taskLease resourceLease s
        = .ok operationId t →
      ∃ task op, s.tasks.get? taskId = some task ∧ op.operationId = operationId ∧
        s.OneMore t task op) := by
  have hends : Ends _ _ (prepare env taskId proposal expectedRevisions taskLease resourceLease) s :=
    ends_prepare_oneMore hwrites
  refine ⟨fun e t hraised => ?_, fun operationId t hreturned => ?_⟩
  · obtain ⟨u, hrun, rfl⟩ := prepareSharing_eq_error hraised
    rcases hends.raised hrun with hcrash | huntouched
    · cases hcrash
    · have htasks : u.tasks = s.tasks := by
        rw [Sys.Untouched] at huntouched
        rw [huntouched]
      have hstill : u.OwnBudget holds taskId := by
        rw [Sys.OwnBudget, htasks]
        exact hown
      rw [Sys.sharing_of_own hstill]
      exact huntouched
  · obtain ⟨u, hrun, rfl⟩ := prepareSharing_eq_ok hreturned
    obtain ⟨task, op, hget, hid, hmore⟩ := hends.returned hrun
    rw [Sys.sharing_of_own (hmore.ownBudget hget hown)]
    exact ⟨task, op, hget, hid, hmore⟩

/-- The small engine can write. -/
theorem Small.canWrite : Small.start.CanWrite Small.env "t" Small.proposal none none where
  columns _ := by decide +kernel
  identifiers _ := Small.encodable_tallyId
  arguments _ := ⟨[], rfl⟩
  operations := rfl
  rows := rfl
  outbox _ h := absurd h List.not_mem_nil

/-- It opens an operation on the task there is. -/
theorem prepare_atomic_small :
    (after (prepareSharing (fun _ => 0) Small.env "t" Small.proposal [("workspace", 0)] none none)
      Small.start).operations.rows.length = 1 ∧
    ∀ operationId t,
      prepareSharing (fun _ => 0) Small.env "t" Small.proposal [("workspace", 0)] none none Small.start
        = .ok operationId t →
      ∃ task op, Small.start.tasks.get? "t" = some task ∧ op.operationId = operationId ∧
        Small.start.OneMore t task op := by
  refine ⟨by decide +kernel, (prepare_atomic Small.canWrite ?_ [("workspace", 0)]).2⟩
  intro task htask _
  exact congrArg Task.taskId (List.mem_singleton.mp htask)

/-- The small engine with a second task, to which the first task's budget was given as well, as a
caller may do with one `TaskBudget`. -/
def Small.twoTasks : Sys :=
  { Small.start with
    tasks := Small.start.tasks.put { Small.task with taskId := "u" }
    db := { Small.start.db with tasks := Small.start.db.tasks.put { Small.task with taskId := "u" } } }

/-- The operation of the first task is counted in the budget of the second, which the store does not
hear of. -/
theorem prepare_atomic_fails :
    Small.twoTasks.CanWrite Small.env "t" Small.proposal none none ∧
    ∃ operationId t,
      prepareSharing (fun _ => 0) Small.env "t" Small.proposal [("workspace", 0)] none none
        Small.twoTasks = .ok operationId t ∧
      (Small.twoTasks.tasks.get? "u").map (fun task => task.budget.operationsStarted) = some 0 ∧
      (t.tasks.get? "u").map (fun task => task.budget.operationsStarted) = some 1 ∧
      (t.db.tasks.get? "u").map (fun task => task.budget.operationsStarted) = some 0 ∧
      ∀ task op, Small.twoTasks.tasks.get? "t" = some task → ¬ Small.twoTasks.OneMore t task op := by
  have hwrites : Small.twoTasks.CanWrite Small.env "t" Small.proposal none none := {
    columns := fun _ => by decide +kernel
    identifiers := fun _ => Small.encodable_tallyId
    arguments := fun _ => ⟨[], rfl⟩
    operations := rfl
    rows := rfl
    outbox := fun _ h => absurd h List.not_mem_nil }
  obtain ⟨operationId, hreturns⟩ := Option.isSome_iff_exists.mp (show (returns (prepareSharing
    (fun _ => 0) Small.env "t" Small.proposal [("workspace", 0)] none none) Small.twoTasks).isSome
      by decide +kernel)
  obtain ⟨t, hrun⟩ := returns_eq_some.mp hreturns
  have hcounts : ((after (prepareSharing (fun _ => 0) Small.env "t" Small.proposal
      [("workspace", 0)] none none) Small.twoTasks).tasks.get? "u").map
        (fun task => task.budget.operationsStarted) = some 1 := by
    decide +kernel
  have hrows : ((after (prepareSharing (fun _ => 0) Small.env "t" Small.proposal
      [("workspace", 0)] none none) Small.twoTasks).db.tasks.get? "u").map
        (fun task => task.budget.operationsStarted) = some 0 := by
    decide +kernel
  rw [after_of_ok hrun] at hcounts hrows
  refine ⟨hwrites, operationId, t, hrun, by decide +kernel, hcounts, hrows, ?_⟩
  intro task op hget hmore
  -- an operation more is a change to its own task alone
  have hother : t.tasks.get? "u" = Small.twoTasks.tasks.get? "u" := by
    rw [hmore.counted]
    refine Table.get?_put_ne _ ?_
    have hkey : task.taskId = "t" := Table.key_of_get? hget
    show task.taskId ≠ "u"
    rw [hkey]
    decide
  rw [hother] at hcounts
  revert hcounts
  decide +kernel

end LiandanluNative
