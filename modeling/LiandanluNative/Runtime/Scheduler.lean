/-
# LiandanluNative.Runtime.Scheduler — `TaskScheduler` of `runtime.py`.

A scheduler draws tasks from two heaps and checks each entry only as it pops it.  With a store the
leases are the store's; without one a scheduler keeps them itself, in `_leases`.  A heap is the list
of its entries in the order in which `heappop` gives them, so a push is an ordered insertion
(`pushTask`, beside `submit` in `Runtime.Tasks`).

Entries are never removed from a heap but by drawing: a task that was paused or completed stays in
it until it is popped and found to be no longer QUEUED with RUNNING desired.  A claim in memory
looks at the entry only and not at the lease the task may have.
-/
import LiandanluNative.Runtime.Upkeep

namespace LiandanluNative

open Lib (Table)
open Lib.Proc

/-- A scheduler over an engine, which has the tasks and the heaps, and its `_leases`. -/
structure Scheduler where
  engine : Sys
  leases : Table TaskLease.taskId := .empty

abbrev SchedulerM (α : Type) := EStateM Fault Scheduler α

/-- Run a method of the engine. -/
def onEngine {α : Type} (m : M α) : SchedulerM α := fun s =>
  match m s.engine with
  | .ok a engine => .ok a { s with engine := engine }
  | .error fault engine => .error fault { s with engine := engine }

/-! ## Drawing tasks

Entries are drawn until one is of a task that may run; the others are gone for good.
-/

/-- An entry that `_pop_valid` accepts: the task is there, QUEUED, with RUNNING desired.  Lane,
priority and time are those it was pushed with, whatever the task says now. -/
def Sys.runnable (s : Sys) (entry : Int × ℚ × String) : Bool :=
  match s.tasks.get? entry.2.2 with
  | none => false
  | some task => decide (task.state = .queued) && decide (task.desiredState = .running)

/-- `_pop_valid`: the task, and what is left of the heap. -/
def Sys.popValid (s : Sys) :
    List (Int × ℚ × String) → Option String × List (Int × ℚ × String)
  | [] => (none, [])
  | entry :: heap => if s.runnable entry then (some entry.2.2, heap) else s.popValid heap

/-- `_pop_valid(self.interactive)` -/
def popInteractive : M (Option String) := fun s =>
  let popped := s.popValid s.interactive
  .ok popped.1 { s with interactive := popped.2 }

/-- `_pop_valid(self.background)` -/
def popBackground : M (Option String) := fun s =>
  let popped := s.popValid s.background
  .ok popped.1 { s with background := popped.2 }

/-- `next_task` -/
def nextTask : M (Option String) := do
  match ← popInteractive with
  | some taskId => return some taskId
  | none => popBackground

/-- The tasks that `rebuild` pushes. -/
def Task.queuedToRun (task : Task) : Bool :=
  decide (task.state = .queued) && decide (task.desiredState = .running) && task.queuedAt.isSome

/-- `rebuild`: a new scheduler over the tasks of a runtime, with one entry for each task that waits
to run. -/
def rebuild (env : Env) : M Unit := do
  modify fun s => { s with interactive := [], background := [] }
  let s ← get
  (s.tasks.rows.filter Task.queuedToRun).forM fun task => pushTask env task.taskId

/-! ## Leases -/

/-- `1 if previous is None else previous.generation + 1` -/
def Scheduler.nextGeneration (s : Scheduler) (taskId : String) : Int :=
  match s.leases.get? taskId with
  | none => 1
  | some previous => previous.generation + 1

section

variable (env : Env)

/-- `claim_next` -/
def claimNext (ownerId : String) (leaseSeconds ts : ℚ) : SchedulerM (Option TaskLease) := do
  if leaseSeconds ≤ 0 then
    onEngine (raise ⟨.valueError, "lease_seconds must be positive"⟩)
  else
    let s ← get
    if s.engine.persistent then
      onEngine (store env (claimNextTask ownerId leaseSeconds ts))
    else
      match ← onEngine nextTask with
      | none => return none
      | some taskId =>
          let lease : TaskLease :=
            { taskId := taskId
              ownerId := ownerId
              generation := s.nextGeneration taskId
              claimedAt := ts
              leaseUntil := ts + leaseSeconds }
          modify fun s => { s with leases := s.leases.put lease }
          return some lease

/-- `renew` -/
def renewLease (lease : TaskLease) (leaseSeconds ts : ℚ) : SchedulerM (Option TaskLease) := do
  let s ← get
  if s.engine.persistent then
    onEngine (store env (renewTaskLease lease leaseSeconds ts))
  else
    match s.leases.get? lease.taskId with
    | none => return none
    | some current =>
        if current.ownerId ≠ lease.ownerId ∨ current.generation ≠ lease.generation ∨
            current.leaseUntil ≤ ts then
          return none
        else
          let renewed := { lease with leaseUntil := ts + leaseSeconds }
          modify fun s => { s with leases := s.leases.put renewed }
          return some renewed

/-- `release` -/
def releaseLease (lease : TaskLease) : SchedulerM Bool := do
  let s ← get
  if s.engine.persistent then
    onEngine (store env (releaseTaskLease lease))
  else
    match s.leases.get? lease.taskId with
    | none => return false
    | some current =>
        if current.ownerId ≠ lease.ownerId ∨ current.generation ≠ lease.generation then
          return false
        else
          modify fun s => { s with leases := s.leases.put { current with leaseUntil := 0 } }
          return true

end

/-! ## What drawing does -/

/-- The entries of both heaps, in the order in which they are drawn. -/
def Sys.entries (s : Sys) : List (Int × ℚ × String) := s.interactive ++ s.background

/-- Entries that are not runnable are dropped, up to the first one that is, which is answered and
dropped as well. -/
theorem Sys.popValid_cases (s : Sys) (heap : List (Int × ℚ × String)) :
    (s.popValid heap = (none, []) ∧ ∀ entry ∈ heap, s.runnable entry = false) ∨
    ∃ before entry later, heap = before ++ entry :: later ∧
      (∀ dropped ∈ before, s.runnable dropped = false) ∧ s.runnable entry = true ∧
      s.popValid heap = (some entry.2.2, later) := by
  induction heap with
  | nil => exact Or.inl ⟨rfl, fun _ h => absurd h List.not_mem_nil⟩
  | cons entry heap ih =>
      unfold Sys.popValid
      cases hrunnable : s.runnable entry with
      | true =>
          refine Or.inr ⟨[], entry, heap, rfl, fun _ h => absurd h List.not_mem_nil, hrunnable, ?_⟩
          rw [if_pos rfl]
      | false =>
          rw [if_neg Bool.false_ne_true]
          rcases ih with ⟨hpop, hnone⟩ | ⟨before, first, later, rfl, hbefore, hfirst, hpop⟩
          · exact Or.inl ⟨hpop, List.forall_mem_cons.mpr ⟨hrunnable, hnone⟩⟩
          · exact Or.inr ⟨entry :: before, first, later, rfl,
              List.forall_mem_cons.mpr ⟨hrunnable, hbefore⟩, hfirst, hpop⟩

/-- **Drawing.** Both heaps are used up without a runnable entry, or the first one is drawn and
those before it are dropped. -/
theorem nextTask_cases (s : Sys) :
    (nextTask s = .ok none { s with interactive := [], background := [] } ∧
      ∀ entry ∈ s.entries, s.runnable entry = false) ∨
    ∃ before entry interactive background,
      s.entries = before ++ entry :: (interactive ++ background) ∧
      (∀ dropped ∈ before, s.runnable dropped = false) ∧ s.runnable entry = true ∧
      nextTask s = .ok (some entry.2.2)
        { s with interactive := interactive, background := background } := by
  rcases s.popValid_cases s.interactive with
    ⟨hpop, hnone⟩ | ⟨before, entry, later, hheap, hbefore, hentry, hpop⟩
  · have hrun : nextTask s = popBackground { s with interactive := [] } := by
      simp only [nextTask, bind, EStateM.bind, popInteractive, hpop]
    rcases Sys.popValid_cases { s with interactive := [] } s.background with
      ⟨hpop', hnone'⟩ | ⟨before, entry, later, hheap, hbefore, hentry, hpop'⟩
    · refine Or.inl ⟨?_, fun entry hentry => ?_⟩
      · simp only [hrun, popBackground, hpop']
      · exact (List.mem_append.mp hentry).elim (hnone entry) (hnone' entry)
    · refine Or.inr ⟨s.interactive ++ before, entry, [], later, ?_, fun dropped hdropped => ?_,
        hentry, ?_⟩
      · rw [Sys.entries, hheap, List.append_assoc, List.nil_append]
      · exact (List.mem_append.mp hdropped).elim (hnone dropped) (hbefore dropped)
      · simp only [hrun, popBackground, hpop']
  · refine Or.inr ⟨before, entry, later, s.background, ?_, hbefore, hentry, ?_⟩
    · rw [Sys.entries, hheap, List.append_assoc, List.cons_append]
    · simp only [nextTask, bind, EStateM.bind, popInteractive, hpop, pure, EStateM.pure]

/-! ## The heaps

What the methods of tasks and of the scheduler leave in the heaps: of these only a submission adds
an entry.
-/

/-- The heaps, and whether there is a store. -/
def Sys.heaps (s : Sys) := (s.persistent, s.interactive, s.background)

section

variable {env : Env} {α : Type}

theorem heaps_store (txn : Txn α) : Within (Fixes Sys.heaps) (store env txn) := by
  intro s
  obtain ⟨n, hn⟩ := after_store env s txn
  rw [hn]
  rfl

theorem heaps_bumpTasks : Within (Fixes Sys.heaps) (bumpTasks env) := by
  have hF := frame_fixes Sys.heaps
  unfold bumpTasks persistRevisions persisting
  refine hF.bind (within_modify (fun _ => rfl)) (fun _ => hF.bind hF.get (fun s => ?_))
  split
  · exact hF.bind (heaps_store _) (fun _ => hF.pure _)
  · exact hF.pure _

theorem heaps_recordTask (taskId eventType actor : String) (payload : List (PyKey × PyVal)) :
    Within (Fixes Sys.heaps) (recordTask env taskId eventType actor payload) := by
  have hF := frame_fixes Sys.heaps
  unfold recordTask enqueueOutbox
  refine hF.bind (within_getTask hF taskId) (fun task => hF.bind hF.get (fun s => ?_))
  split
  · refine hF.bind (fun _ => rfl) (fun eventId => hF.bind (fun _ => rfl) (fun occurredAt => ?_))
    exact hF.bind (heaps_store _) (fun _ => hF.pure _)
  · refine hF.bind (hF.bind hF.get (fun s => ?_)) (fun _ => hF.pure _)
    split
    · refine hF.bind (fun _ => rfl) (fun eventId => hF.bind (fun _ => rfl) (fun occurredAt => ?_))
      exact heaps_store _
    · refine hF.bind (fun _ => rfl) (fun outboxId => ?_)
      exact hF.bind (within_modify (fun _ => rfl)) (fun _ => hF.pure _)

theorem heaps_createTask (goal : String) (successCriteria : List String) (workspaceId : String)
    (constraints : List String) (lane : String) (priority : Int) (budget : TaskBudget) :
    Within (Fixes Sys.heaps)
      (createTask env goal successCriteria workspaceId constraints lane priority budget) := by
  have hF := frame_fixes Sys.heaps
  unfold createTask
  refine hF.bind (fun _ => rfl) (fun taskId => hF.bind (within_modify (fun _ => rfl)) (fun _ => ?_))
  refine hF.bind heaps_bumpTasks (fun _ => hF.bind (heaps_recordTask _ _ _ _) (fun _ => hF.pure _))

theorem heaps_controlTask (taskId : String) (desired : TaskState) :
    Within (Fixes Sys.heaps) (controlTask env taskId desired) := by
  have hF := frame_fixes Sys.heaps
  unfold controlTask touchTask
  refine hF.bind (within_getTask hF taskId) (fun task => ?_)
  split
  · exact hF.pure _
  refine hF.bind (within_modify (fun _ => rfl))
    (fun _ => hF.bind (hF.bind ?_ (fun task => ?_)) (fun _ => ?_))
  · exact within_getTask hF taskId
  · exact hF.bind (within_modify (fun _ => rfl)) (fun _ => heaps_bumpTasks)
  · exact heaps_recordTask _ _ _ _

variable {s : Sys}

/-- The entry of a task that was queued at a time. -/
def Task.entry (task : Task) (at_ : ℚ) : Int × ℚ × String := (-task.priority, at_, task.taskId)

/-- Once a task was pushed, into the heap of its lane; every lane but the interactive one is the
background. -/
def Sys.pushed (s : Sys) (task : Task) (at_ : ℚ) : Sys :=
  if task.lane = "interactive" then
    { s with interactive := s.interactive.orderedInsert heapLe (task.entry at_) }
  else
    { s with background := s.background.orderedInsert heapLe (task.entry at_) }

section

variable (task : Task) (at_ : ℚ)

@[simp] theorem Sys.pushed_persistent : (s.pushed task at_).persistent = s.persistent := by
  unfold Sys.pushed
  split <;> rfl

@[simp] theorem Sys.pushed_tasks : (s.pushed task at_).tasks = s.tasks := by
  unfold Sys.pushed
  split <;> rfl

theorem Sys.pushed_entries : (s.pushed task at_).entries.Perm (task.entry at_ :: s.entries) := by
  unfold Sys.pushed
  split
  · exact (List.perm_orderedInsert ..).append_right _
  · exact ((List.perm_orderedInsert ..).append_left _).trans List.perm_middle

end

theorem pushTask_eq (env : Env) {taskId : String} {task : Task} {at_ : ℚ}
    (hget : s.tasks.get? taskId = some task) (hqueued : task.queuedAt = some at_) :
    pushTask env taskId s = .ok () (s.pushed task at_) := by
  unfold Sys.pushed
  simp only [pushTask, getTask, hget, hqueued, bind, EStateM.bind, pure, EStateM.pure, Task.entry]
  split <;> rfl

section

variable {Q : Unit → Sys → Prop} {E : Fault → Sys → Prop}

/-- Without a store a bump is in memory only. -/
theorem ends_bumpTasks_of_volatile (hvolatile : s.persistent = false)
    (h : Q () { s with world := { s.world with revisions := s.world.revisions.bumpTasks } }) :
    Ends Q E (bumpTasks env) s := by
  unfold bumpTasks modifyWorld persistRevisions persisting
  refine Ends.bind (Ends.modifying (Ends.bind (Ends.get ?_)))
  rw [if_neg (Bool.eq_false_iff.mp hvolatile)]
  exact Ends.pure h

/-- Without a store an event is put in the outbox. -/
theorem ends_recordTask_of_volatile (hvolatile : s.persistent = false) {taskId : String}
    {task : Task} (hget : s.tasks.get? taskId = some task) {eventType actor : String}
    {payload : List (PyKey × PyVal)}
    (h : ∀ item, Q () { s with outbox := s.outbox ++ [item], ids := s.ids + 1 }) :
    Ends Q E (recordTask env taskId eventType actor payload) s := by
  have hstore : ¬ s.persistent = true := Bool.eq_false_iff.mp hvolatile
  unfold recordTask enqueueOutbox
  refine Ends.bind (Ends.of_ok (getTask_eq_ok.mpr ⟨hget, rfl⟩) (Ends.bind (Ends.get ?_)))
  rw [if_neg hstore]
  refine Ends.bind (Ends.bind (Ends.get ?_))
  rw [if_neg hstore]
  refine Ends.bind (Ends.of_ok (rfl : newId env "outbox" s = _) (Ends.bind (Ends.modifying ?_)))
  exact Ends.pure (Ends.pure (h _))

end

/-- What queueing does to the tasks: the one task is QUEUED with RUNNING desired. -/
structure Queues (env : Env) (s : Sys) (taskId : String) (t : Sys) : Prop where
  heaps : t.heaps = s.heaps
  queued : ∃ task, t.tasks.get? taskId = some task ∧ task.state = .queued ∧
    task.desiredState = .running ∧ task.queuedAt = some (env.clock s.clockReads)
  others : ∀ other, other ≠ taskId → t.tasks.get? other = s.tasks.get? other

/-- **Queueing without a store** returns, unless the task is terminal. -/
theorem ends_queueTask_of_volatile (env : Env) (hvolatile : s.persistent = false) {task : Task}
    (hget : s.tasks.get? task.taskId = some task) (hlive : task.state.terminal = false) :
    Ends (fun _ t => Queues env s task.taskId t) (fun _ _ => False)
      (queueTask env task.taskId) s := by
  let queued := task.queued (env.clock s.clockReads)
  have hput : (s.tasks.put queued).get? task.taskId = some queued := Table.get?_put_self ..
  have hput' : ((s.tasks.put queued).put queued.touched).get? task.taskId = some queued.touched :=
    Table.get?_put_self ..
  have hother : ∀ other, other ≠ task.taskId →
      ((s.tasks.put queued).put queued.touched).get? other = s.tasks.get? other := by
    intro other hne
    rw [Table.get?_put, if_neg (show queued.touched.taskId ≠ other from Ne.symm hne),
      Table.get?_put, if_neg (show queued.taskId ≠ other from Ne.symm hne)]
  unfold queueTask touchTask
  refine Ends.bind (Ends.of_ok (getTask_eq_ok.mpr ⟨hget, rfl⟩) ?_)
  rw [if_neg (Bool.eq_false_iff.mp hlive)]
  refine Ends.bind (Ends.of_ok (rfl : readClock env s = _) (Ends.bind (Ends.modifying ?_)))
  refine Ends.bind (Ends.bind (Ends.of_ok (getTask_eq_ok.mpr ⟨hput, rfl⟩) ?_))
  refine Ends.bind (Ends.modifying (ends_bumpTasks_of_volatile hvolatile ?_))
  refine ends_recordTask_of_volatile ?_ hput' (fun item => ?_)
  · exact hvolatile
  exact ⟨rfl, ⟨queued.touched, hput', rfl, rfl, rfl⟩, hother⟩

/-- The task is known and not terminal, so that it may be queued.  `queue` asks nothing else, not
even whether the task is running. -/
def Sys.queueable (s : Sys) (taskId : String) : Bool :=
  match s.tasks.get? taskId with
  | none => false
  | some task => !task.state.terminal

/-- **Submitting without a store.** It is refused and nothing happened, or the task is QUEUED with
RUNNING desired and has one more entry. -/
theorem submitTask_cases (env : Env) (hvolatile : s.persistent = false) (taskId : String) :
    (s.queueable taskId = false ∧ ∃ e, submitTask env taskId s = .error e s) ∨
    s.queueable taskId = true ∧ ∃ t entry, submitTask env taskId s = .ok () t ∧
      t.persistent = false ∧ entry.2.2 = taskId ∧ t.entries.Perm (entry :: s.entries) ∧
      ∀ other, t.runnable other = (decide (other.2.2 = taskId) || s.runnable other) := by
  cases hget : s.tasks.get? taskId with
  | none =>
      refine Or.inl ⟨by simp only [Sys.queueable, hget], .raised (keyError taskId), ?_⟩
      simp only [submitTask, queueTask, getTask, hget, bind, EStateM.bind]
  | some task =>
      cases hterminal : task.state.terminal with
      | true =>
          refine Or.inl ⟨by simp only [Sys.queueable, hget, hterminal, Bool.not_true],
            .raised ⟨.valueError, "terminal task cannot be queued"⟩, ?_⟩
          simp only [submitTask, queueTask, getTask, hget, bind, EStateM.bind, hterminal, if_true]
          rfl
      | false =>
          refine Or.inr ⟨by simp only [Sys.queueable, hget, hterminal, Bool.not_false], ?_⟩
          obtain rfl : task.taskId = taskId := Table.key_of_get? hget
          have hends := ends_queueTask_of_volatile env hvolatile hget hterminal
          -- without a store queueing a task that may be queued does not raise
          obtain ⟨u, hqueue⟩ : ∃ u, queueTask env task.taskId s = .ok () u := by
            cases hrun : queueTask env task.taskId s with
            | ok a u => exact ⟨u, rfl⟩
            | error e u => exact (hends.raised hrun).elim
          obtain ⟨hheaps, ⟨queued, hqueued, hstate, hdesired, hat⟩, hother⟩ := hends.returned hqueue
          have hpush := pushTask_eq env hqueued hat
          have hentries := u.pushed_entries queued (env.clock s.clockReads)
          simp only [Sys.heaps, Prod.mk.injEq] at hheaps
          have hid : queued.taskId = task.taskId := Table.key_of_get? hqueued
          -- the entry that is pushed is the one of the task as it was queued
          refine ⟨u.pushed queued (env.clock s.clockReads), queued.entry (env.clock s.clockReads),
            ?_, ?_, hid, ?_, fun other => ?_⟩
          · simp only [submitTask, bind, EStateM.bind, hqueue, hpush]
          · rw [Sys.pushed_persistent, hheaps.1, hvolatile]
          · have hsame : u.entries = s.entries := by
              rw [Sys.entries, hheaps.2.1, hheaps.2.2, Sys.entries]
            rwa [hsame] at hentries
          · unfold Sys.runnable
            rw [Sys.pushed_tasks]
            by_cases hid : other.2.2 = task.taskId
            · rw [hid, hqueued]
              simp only [hstate, hdesired, decide_true, Bool.and_self, Bool.true_or]
            · rw [hother _ hid, decide_eq_false hid, Bool.false_or]

end

/-! ## What a scheduler without a store does

Each method in terms of the heaps and of the scheduler's own table.
-/

section

variable {s : Scheduler}

/-- A claim raises, finds nothing and has used up the heaps, or leases the first runnable entry,
whoever has a lease on its task.  The task stays QUEUED, so only its entry being gone keeps it from
being claimed again. -/
theorem claimNext_cases (env : Env) (hvolatile : s.engine.persistent = false) (ownerId : String)
    (leaseSeconds ts : ℚ) :
    (leaseSeconds ≤ 0 ∧ ∃ e, claimNext env ownerId leaseSeconds ts s = .error e s) ∨
    (claimNext env ownerId leaseSeconds ts s
        = .ok none { s with engine := { s.engine with interactive := [], background := [] } } ∧
      ∀ entry ∈ s.engine.entries, s.engine.runnable entry = false) ∨
    ∃ before entry interactive background,
      s.engine.entries = before ++ entry :: (interactive ++ background) ∧
      (∀ dropped ∈ before, s.engine.runnable dropped = false) ∧ s.engine.runnable entry = true ∧
      ∃ lease : TaskLease, lease.taskId = entry.2.2 ∧ lease.leaseUntil = ts + leaseSeconds ∧
        claimNext env ownerId leaseSeconds ts s
          = .ok (some lease)
              { engine := { s.engine with interactive := interactive, background := background }
                leases := s.leases.put lease } := by
  by_cases hs : leaseSeconds ≤ 0
  · exact Or.inl ⟨hs, .raised _, by rw [claimNext, if_pos hs]; rfl⟩
  right
  -- without a store, past the check, the heaps are asked and the lease is put in the table
  have hclaim : claimNext env ownerId leaseSeconds ts s
      = ((onEngine nextTask >>= fun taskId =>
          match taskId with
          | none => pure none
          | some taskId => do
              let lease : TaskLease :=
                ⟨taskId, ownerId, s.nextGeneration taskId, ts, ts + leaseSeconds⟩
              modify fun s => { s with leases := s.leases.put lease }
              return some lease) : SchedulerM (Option TaskLease)) s := by
    rw [claimNext, if_neg hs]
    show (if s.engine.persistent then _ else _ : SchedulerM (Option TaskLease)) s = _
    rw [hvolatile]
    rfl
  rcases nextTask_cases s.engine with
    ⟨hnext, hnone⟩ | ⟨before, entry, interactive, background, hentries, hbefore, hentry, hnext⟩
  · refine Or.inl ⟨hclaim.trans ?_, hnone⟩
    simp only [bind, EStateM.bind, onEngine, hnext]
    rfl
  · refine Or.inr ⟨before, entry, interactive, background, hentries, hbefore, hentry, ?_⟩
    refine ⟨⟨entry.2.2, ownerId, s.nextGeneration entry.2.2, ts, ts + leaseSeconds⟩, rfl, rfl,
      hclaim.trans ?_⟩
    simp only [bind, EStateM.bind, onEngine, hnext]
    rfl

/-- A renewal finds nothing to renew, or moves the expiry of the unexpired lease it names.  It takes
any seconds, positive or not. -/
theorem renewLease_cases (env : Env) (hvolatile : s.engine.persistent = false) (lease : TaskLease)
    (leaseSeconds ts : ℚ) :
    renewLease env lease leaseSeconds ts s = .ok none s ∨
    ∃ current, s.leases.get? lease.taskId = some current ∧ ts < current.leaseUntil ∧
      renewLease env lease leaseSeconds ts s
        = .ok (some { lease with leaseUntil := ts + leaseSeconds })
            { s with leases := s.leases.put { lease with leaseUntil := ts + leaseSeconds } } := by
  unfold renewLease
  show (if s.engine.persistent then _ else _ : SchedulerM (Option TaskLease)) s = _ ∨
    ∃ current, _ ∧ _ ∧
    (if s.engine.persistent then _ else _ : SchedulerM (Option TaskLease)) s = _
  rw [hvolatile]
  cases hcurrent : s.leases.get? lease.taskId with
  | none => exact Or.inl rfl
  | some current =>
      by_cases hrefused : current.ownerId ≠ lease.ownerId ∨ current.generation ≠ lease.generation ∨
          current.leaseUntil ≤ ts
      · left
        dsimp only
        rw [if_pos hrefused]
        rfl
      · refine Or.inr ⟨current, rfl, ?_, ?_⟩
        · rw [not_or, not_or, not_le] at hrefused
          exact hrefused.2.2
        · dsimp only
          rw [if_neg hrefused]
          rfl

/-- A release changes nothing, or makes the lease it names run out. -/
theorem releaseLease_cases (env : Env) (hvolatile : s.engine.persistent = false)
    (lease : TaskLease) :
    releaseLease env lease s = .ok false s ∨
    ∃ current, s.leases.get? lease.taskId = some current ∧
      releaseLease env lease s
        = .ok true { s with leases := s.leases.put { current with leaseUntil := 0 } } := by
  unfold releaseLease
  show (if s.engine.persistent then _ else _ : SchedulerM Bool) s = _ ∨ ∃ current, _ ∧
    (if s.engine.persistent then _ else _ : SchedulerM Bool) s = _
  rw [hvolatile]
  cases hcurrent : s.leases.get? lease.taskId with
  | none => exact Or.inl rfl
  | some current =>
      by_cases hrefused : current.ownerId ≠ lease.ownerId ∨ current.generation ≠ lease.generation
      · left
        dsimp only
        rw [if_pos hrefused]
        rfl
      · refine Or.inr ⟨current, rfl, ?_⟩
        dsimp only
        rw [if_neg hrefused]
        rfl

end

end LiandanluNative
