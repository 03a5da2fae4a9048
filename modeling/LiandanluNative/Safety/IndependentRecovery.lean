/-
# LiandanluNative.Safety.IndependentRecovery — recovering one operation beside others.

`recover` hands over one operation after the other, and what becomes of each depends on its own row,
its own capability and the world.  But nothing is caught between them: an operation that is not
recoverable ends the loop, and with it the recovery of the operations after it and the settling of
every pause and cancel request (`recovery_independent_iff`).

Both loops of `recover` are told by what is left of them (`Underway`, `Settling`).  The one over the
operations changes no task and the one over the tasks no operation, so the second starts from the
tasks of the store as it was.  To compare an operation with itself alone nothing has to be run
twice: its fate is a function of its row, the world and the answers of the capabilities.
-/
import LiandanluNative.Runtime.Fates
import LiandanluNative.Runtime.Survives
import LiandanluNative.Safety.RecoverySettles

namespace LiandanluNative

open Lib (Table)
open Lib.Proc

/-! ## The loop over the operations -/

/-- Nothing may happen but to the one operation. -/
def Allowance.recovering (operationId : String) : Allowance :=
  { Allowance.storing operationId with operation := fun id _ _ => id = operationId }

/-- Doing something to it twice is doing something to it. -/
theorem Allowance.recovering_closed (operationId : String) :
    (Allowance.recovering operationId).Closed where
  task := fun _ _ _ _ h _ => h
  operation := fun _ _ _ _ h _ => h
  world := fun _ _ _ h _ => h

section

variable {env : Env} {s t u : Sys}

/-- The loop where `rest` is left of the operations of `u`: those are as they were, and the others
have come to their fate, which they were all recoverable for. -/
structure Underway (env : Env) (u : Sys) (rest : List String) (t : Sys) : Prop where
  config : t.config = u.config
  world : t.world = u.world
  tasks : ∀ id, t.tasks.get? id = u.tasks.get? id ∧ t.db.tasks.get? id = u.db.tasks.get? id
  nodup : rest.Nodup
  waiting : ∀ id ∈ rest, t.operations.get? id = u.operations.get? id ∧
    t.db.operations.get? id = u.db.operations.get? id
  done : ∀ op ∈ u.operations.rows, op.operationId ∉ rest →
    op.Recoverable env u.world u.capabilities ∧
      t.outcome op.operationId = recordedOutcome (op.fate env u.world)

/-- One operation was recovered. -/
theorem Underway.next {id : String} {rest : List String} (hs : Underway env u (id :: rest) s)
    (hmoves : Moves (.recovering id) s t)
    (hdone : ∀ op ∈ u.operations.rows, op.operationId = id →
      op.Recoverable env u.world u.capabilities ∧
        t.outcome op.operationId = recordedOutcome (op.fate env u.world)) :
    Underway env u rest t := by
  obtain ⟨hnew, hnodup⟩ := List.nodup_cons.mp hs.nodup
  have hothers : ∀ other, other ≠ id → t.operations.get? other = s.operations.get? other ∧
      t.db.operations.get? other = s.db.operations.get? other :=
    fun other hne => (hmoves.operations other).still (fun _ hsame => hne hsame)
  refine ⟨hmoves.config.trans hs.config, ?_, fun task => ?_, hnodup, fun other hother => ?_,
    fun op hop hleft => ?_⟩
  · exact (hmoves.world.elim (fun hsame => hsame) (fun hno => hno.elim)).trans hs.world
  · have hstill := (hmoves.tasks task).still (fun _ hno => hno)
    exact ⟨hstill.1.trans (hs.tasks task).1, hstill.2.trans (hs.tasks task).2⟩
  · have hstill := hothers other (fun heq => hnew (heq ▸ hother))
    have hbefore := hs.waiting other (List.mem_cons_of_mem _ hother)
    exact ⟨hstill.1.trans hbefore.1, hstill.2.trans hbefore.2⟩
  · by_cases heq : op.operationId = id
    · exact hdone op hop heq
    · have hbefore := hs.done op hop (fun hin => (List.mem_cons.mp hin).elim heq hleft)
      have hstill := hothers op.operationId heq
      refine ⟨hbefore.1, ?_⟩
      rw [← hbefore.2, Sys.outcome, Sys.outcome, hstill.1, hstill.2]

/-- An operation at rest needs nothing, and stays as it is: `recover` passes it over. -/
theorem Operation.fate_at_rest {env : Env} {op : Operation} {world : WorldModel}
    {capabilities : List String} (hrest : op.state.unsettled = false) :
    op.Recoverable env world capabilities ∧ op.fate env world = op.outcome := by
  unfold Operation.Recoverable Operation.fate
  cases hstate : op.state <;> simp_all [OperationState.unsettled]

/-- Where memory and store have the same operation they show the same outcome. -/
theorem outcome_of_row {op : Operation} (hmemory : s.operations.get? op.operationId = some op)
    (hstored : s.db.operations.get? op.operationId = some op) (hencoded : op.encoded = some op) :
    s.outcome op.operationId = recordedOutcome op.outcome := by
  have hresult : op.result.jsonDumps = some op.result := (Operation.Exact.of_encoded hencoded).result
  rw [Sys.outcome, hmemory, hstored, recordedOutcome]
  simp [Operation.outcome, hresult]

/-- A process that was hydrated from its store holds the rows: memory and store have the same
operations and tasks, as JSON gives them back. -/
structure Hydrated (u : Sys) : Prop where
  persistent : u.persistent = true
  operations : u.db.operations = u.operations
  tasks : u.db.tasks = u.tasks
  rows : ∀ row ∈ u.operations.rows, row.encoded = some row

/-- The operations are recovered one by one, until one is not recoverable.  What it raises is raised
by `recover`, and nothing after it is done. -/
theorem Hydrated.ends_operations (hsteady : env.Steady) (hu : Hydrated u) :
    Ends (fun _ t => Underway env u [] t)
      (fun fault _ => ∀ e, fault = .raised e →
        ∃ op ∈ u.operations.rows, ¬ op.Recoverable env u.world u.capabilities)
      (countM (recoverIfUnsettled env) (u.operations.rows.map Operation.operationId)) u := by
  -- at the start all operations are still waiting
  have hstart : Underway env u (u.operations.rows.map Operation.operationId) u := by
    refine ⟨rfl, rfl, fun _ => ⟨rfl, rfl⟩, u.operations.nodup, fun _ _ => ⟨rfl, rfl⟩, ?_⟩
    exact fun op hop hleft => absurd (List.mem_map_of_mem hop) hleft
  refine ends_countM_rows u.operations (fun op hmem rest s hs => ?_) hstart
  have hget : u.operations.get? op.operationId = some op := Table.get?_of_mem hmem
  obtain ⟨hmemory, hstored⟩ := hs.waiting op.operationId List.mem_cons_self
  rw [hu.operations, hget] at hstored
  rw [hget] at hmemory
  -- ids are unique, so what becomes of this operation says nothing of another
  have honly : ∀ other ∈ u.operations.rows, other.operationId = op.operationId → other = op :=
    fun other hother heq => u.operations.eq_of_key_eq hother hmem heq
  unfold recoverIfUnsettled
  refine Ends.bind (Ends.of_ok (getOperation_eq_ok.mpr ⟨hmemory, rfl⟩) ?_)
  split
  · rename_i hunsettled
    have hpersistent : s.persistent = true := (congrArg Prod.fst hs.config).trans hu.persistent
    have hcapabilities : s.capabilities = u.capabilities :=
      congrArg (fun config => config.2.2) hs.config
    -- the operation comes to its fate, from what memory and row had of it
    have hrecover := comesTo_recoverOperation hsteady ⟨hpersistent, hs.world, hmemory⟩ hstored
      (hu.rows op hmem) hunsettled
    rw [hcapabilities] at hrecover
    have hmoves := moves_recoverOperation (Allowance.recovering_closed op.operationId) env
      (fun _ _ _ => rfl) (fun _ _ => rfl) s
    refine Ends.bind ⟨fun {_ t} hrun => Ends.pure ?_, fun hrun e he => ?_⟩
    · rw [after_of_ok hrun] at hmoves
      refine hs.next hmoves (fun other hother heq => ?_)
      rw [honly other hother heq]
      exact hrecover.returned hrun
    · exact ⟨op, hmem, hrecover.raised hrun e he⟩
  -- a settled operation is left as it is, which is its fate
  · rename_i hrest
    have hfate : op.Recoverable env u.world u.capabilities ∧ op.fate env u.world = op.outcome :=
      Operation.fate_at_rest (Bool.eq_false_iff.mpr hrest)
    refine Ends.pure (hs.next Moves.refl (fun other hother heq => ?_))
    rw [honly other hother heq, hfate.2]
    exact ⟨hfate.1, outcome_of_row hmemory hstored (hu.rows op hmem)⟩

/-! ## The loop over the tasks

Each task is settled by what is asked of it, whatever became of the operations.
-/

/-- The task is in that state, in memory and in the store, so that a later restart finds it settled,
too. -/
def Sys.TaskIs (s : Sys) (taskId : String) (state : TaskState) : Prop :=
  (s.tasks.get? taskId).map Task.state = some state ∧
    (s.db.tasks.get? taskId).map Task.state = some state

/-- The loop where `rest` is left of the tasks of `t`: those are as they were, and the others stand
as they were asked to, if they were asked. -/
structure Settling (t : Sys) (rest : List String) (v : Sys) : Prop where
  persistent : v.persistent = true
  operations : v.operations = t.operations ∧ v.db.operations = t.db.operations
  nodup : rest.Nodup
  waiting : ∀ id ∈ rest, v.tasks.get? id = t.tasks.get? id ∧
    v.db.tasks.get? id = t.db.tasks.get? id
  done : ∀ task ∈ t.tasks.rows, task.taskId ∉ rest → task.desiredState ∈ [.paused, .cancelled] →
    v.TaskIs task.taskId task.desiredState

/-- The control of one task was settled. -/
theorem Settling.next {v w : Sys} {task : Task} {rest : List String}
    (hv : Settling t (task.taskId :: rest) v) (hmem : task ∈ t.tasks.rows)
    (hrow : t.db.tasks.get? task.taskId = some task) (hw : TaskSettled v task w) :
    Settling t rest w := by
  obtain ⟨hnew, hnodup⟩ := List.nodup_cons.mp hv.nodup
  have hget : t.tasks.get? task.taskId = some task := Table.get?_of_mem hmem
  obtain ⟨task', hdesired, hwrote⟩ := hw.tasks
  -- the task, and the others
  have hself : w.tasks.get? task.taskId = some task' ∧ w.db.tasks.get? task.taskId = some task' := by
    rcases hwrote with ⟨rfl, hmemory, hstored⟩ | ⟨hid, hmemory, hstored⟩
    · have hbefore := hv.waiting task'.taskId List.mem_cons_self
      rw [hmemory, hstored, hbefore.1, hbefore.2]
      exact ⟨hget, hrow⟩
    · rw [hmemory, hstored, ← hid]
      exact ⟨Table.get?_put_self _ _, Table.get?_put_self _ _⟩
  have hothers : ∀ other, other ≠ task.taskId → w.tasks.get? other = v.tasks.get? other ∧
      w.db.tasks.get? other = v.db.tasks.get? other := by
    intro other hne
    rcases hwrote with ⟨_, hmemory, hstored⟩ | ⟨hid, hmemory, hstored⟩
    · rw [hmemory, hstored]
      exact ⟨rfl, rfl⟩
    · have hne' : task'.taskId ≠ other := fun heq => hne (heq.symm.trans hid)
      rw [hmemory, hstored]
      exact ⟨Table.get?_put_ne _ hne', Table.get?_put_ne _ hne'⟩
  refine ⟨hw.persistent, ?_, hnodup, fun other hother => ?_, fun other hother hleft hrequested => ?_⟩
  · exact ⟨hw.operations.1.trans hv.operations.1, hw.operations.2.trans hv.operations.2⟩
  · have hstill := hothers other (fun heq => hnew (heq ▸ hother))
    have hbefore := hv.waiting other (List.mem_cons_of_mem _ hother)
    exact ⟨hstill.1.trans hbefore.1, hstill.2.trans hbefore.2⟩
  · by_cases heq : other.taskId = task.taskId
    · have hsame : other = task := t.tasks.eq_of_key_eq hother hmem heq
      subst hsame
      rw [Sys.TaskIs, hself.1, hself.2, Option.map_some, hdesired hrequested]
      exact ⟨rfl, rfl⟩
    · have hbefore := hv.done other hother (fun hin => (List.mem_cons.mp hin).elim heq hleft)
        hrequested
      have hstill := hothers other.taskId heq
      rw [Sys.TaskIs, hstill.1, hstill.2]
      exact hbefore

/-- Every pause and cancel request is settled. -/
theorem ends_controls (hpersistent : t.persistent = true)
    (hrows : ∀ id, t.db.tasks.get? id = t.tasks.get? id) :
    Ends (fun _ v => Settling t [] v) (fun fault _ => fault = .crash)
      (countM (settleIfRequested env) (t.tasks.rows.map Task.taskId)) t := by
  have hstart : Settling t (t.tasks.rows.map Task.taskId) t := by
    refine ⟨hpersistent, ⟨rfl, rfl⟩, t.tasks.nodup, fun _ _ => ⟨rfl, rfl⟩, ?_⟩
    exact fun task htask hleft => absurd (List.mem_map_of_mem htask) hleft
  refine ends_countM_rows t.tasks (fun task hmem rest v hv => ?_) hstart
  have hget : t.tasks.get? task.taskId = some task := Table.get?_of_mem hmem
  have hnow := (hv.waiting task.taskId List.mem_cons_self).1.trans hget
  exact (ends_settleIfRequested hv.persistent hnow).mono
    (fun _ w hw => hv.next hmem ((hrows _).trans hget) hw) (fun _ _ hcrash => hcrash)

/-- **One recovery.** It returns just where every operation is recoverable; then every operation is
left to its fate, and every request is settled. -/
theorem Hydrated.ends_recover (hsteady : env.Steady) (hu : Hydrated u) :
    Ends (fun _ t =>
        (∀ op ∈ u.operations.rows, op.Recoverable env u.world u.capabilities ∧
          t.outcome op.operationId = recordedOutcome (op.fate env u.world)) ∧
        ∀ task ∈ u.tasks.rows, task.desiredState ∈ [.paused, .cancelled] →
          t.TaskIs task.taskId task.desiredState)
      (fun fault _ => ∀ e, fault = .raised e →
        ∃ op ∈ u.operations.rows, ¬ op.Recoverable env u.world u.capabilities)
      (recover env) u := by
  have hcrash : ∀ (fault : Fault) (_ : Sys), fault = .crash → ∀ e, fault = .raised e →
      ∃ op ∈ u.operations.rows, ¬ op.Recoverable env u.world u.capabilities := by
    rintro _ _ rfl e he
    cases he
  unfold recover
  refine Ends.bind (Ends.get ?_)
  refine Ends.bind ((hu.ends_operations hsteady).mono (fun _ t ht => ?_) (fun _ _ hraised => hraised))
  refine Ends.bind (Ends.get ?_)
  have hpersistent : t.persistent = true := (congrArg Prod.fst ht.config).trans hu.persistent
  have hrows : ∀ id, t.db.tasks.get? id = t.tasks.get? id := by
    intro id
    rw [(ht.tasks id).1, (ht.tasks id).2, hu.tasks]
  refine Ends.bind ((ends_controls hpersistent hrows).mono (fun _ v hv => ?_) hcrash)
  -- the deliveries leave tasks and operations as they are
  refine Ends.bind ⟨fun {_ w} hflush => Ends.pure ⟨fun op hop => ?_, fun task htask hrequested => ?_⟩,
    fun hflush => hcrash _ v ((ends_flushOutbox hv.persistent).raised hflush)⟩
  · have haside : Aside v w := (apart_flushOutbox.of_ok hflush : Apart v w).toAside
    have hop := ht.done op hop List.not_mem_nil
    refine ⟨hop.1, ?_⟩
    rw [← hop.2, Sys.outcome, Sys.outcome, haside.operations, haside.dbOperations, hv.operations.1,
      hv.operations.2]
  · have haside : Aside v w := (apart_flushOutbox.of_ok hflush : Apart v w).toAside
    have hget : t.tasks.get? task.taskId = some task :=
      (ht.tasks _).1.trans (Table.get?_of_mem htask)
    have htask := hv.done task (Table.mem_of_get? hget) List.not_mem_nil hrequested
    rw [Sys.TaskIs, haside.tasks, haside.dbTasks]
    exact htask

end

/-! ## Recoveries beside each other -/

/-- The store with one operation only, and everything else as it is. -/
def Sys.alone (s : Sys) (row : Operation) : Sys :=
  { s with db := { s.db with operations := Table.empty.put row } }

/-- **Operations recover independently.** The recovery of the store returns; every operation whose
capability is given ends as it does when it is the only one, in memory and in the store; and every
pause or cancel request on a task that is not terminal is settled. -/
structure RecoversIndependently (env : Env) (s : Sys) (registry : CapabilityRegistry)
    (capabilities : List String) (broker : Option ResourceBroker) : Prop where
  returns : ∃ counts t, recover env (s.restart registry capabilities broker) = .ok counts t
  alike : ∀ row ∈ s.db.operations.rows, row.capability ∈ capabilities →
    (after (recover env) (s.restart registry capabilities broker)).outcome row.operationId
      = (after (recover env) ((s.alone row).restart registry capabilities broker)).outcome
          row.operationId
  settled : ∀ task ∈ s.db.tasks.rows, task.state.terminal = false →
    task.desiredState ∈ [.paused, .cancelled] →
    (after (recover env) (s.restart registry capabilities broker)).TaskIs task.taskId
      task.desiredState

/-- A restart hydrates the process from its store. -/
theorem hydrated_restart (s : Sys) (registry : CapabilityRegistry) (capabilities : List String)
    (broker : Option ResourceBroker) (hrows : ∀ row ∈ s.db.operations.rows, row.encoded = some row) :
    Hydrated (s.restart registry capabilities broker) := ⟨rfl, rfl, rfl, hrows⟩

/-- Where every operation is recoverable, the recovery returns. -/
theorem Hydrated.recovers {env : Env} {u : Sys} (hlives : ∀ n, env.dies n = false)
    (hsteady : env.Steady) (hu : Hydrated u)
    (hall : ∀ op ∈ u.operations.rows, op.Recoverable env u.world u.capabilities) :
    ∃ counts t, recover env u = .ok counts t := by
  cases hrun : recover env u with
  | ok counts t => exact ⟨counts, t, rfl⟩
  | error fault t =>
      cases fault with
      | crash => exact absurd hrun (survives_recover hlives).not_crash
      | raised e =>
          obtain ⟨op, hop, hno⟩ := (hu.ends_recover hsteady).raised hrun e rfl
          exact absurd (hall op hop) hno

/-- **Operations recover independently just where every one of them is recoverable.** Take any
store, whatever its operations and tasks, and any capabilities that answer from their arguments
alone, in a process that nothing ends.  The condition is on rows, world and answers, one row at a
time: so it says of each operation whether it would keep the others from being recovered. -/
theorem recovery_independent_iff (env : Env) (hlives : ∀ n, env.dies n = false)
    (hsteady : env.Steady) (s : Sys) (registry : CapabilityRegistry) (capabilities : List String)
    (broker : Option ResourceBroker)
    (hrows : ∀ row ∈ s.db.operations.rows, row.encoded = some row) :
    RecoversIndependently env s registry capabilities broker ↔
      ∀ row ∈ s.db.operations.rows,
        row.Recoverable env s.db.reopened.loadWorldModel capabilities := by
  have hu := hydrated_restart s registry capabilities broker hrows
  constructor
  · intro h row hrow
    obtain ⟨counts, t, hrun⟩ := h.returns
    exact (((hu.ends_recover hsteady).returned hrun).1 row hrow).1
  · intro hall
    obtain ⟨counts, t, hrun⟩ := hu.recovers hlives hsteady hall
    obtain ⟨hfates, hsettled⟩ := (hu.ends_recover hsteady).returned hrun
    refine ⟨⟨counts, t, hrun⟩, fun row hrow _ => ?_, fun task htask _ hrequested => ?_⟩
    · have honly : ∀ other ∈ (s.alone row).db.operations.rows, other = row := by
        intro other hother
        rcases Table.mem_put.mp hother with heq | ⟨hold, _⟩
        · exact heq
        · exact absurd hold List.not_mem_nil
      have hself : row ∈ (s.alone row).db.operations.rows := Table.mem_put.mpr (Or.inl rfl)
      have halone := hydrated_restart (s.alone row) registry capabilities broker
        (fun other hother => by rw [honly other hother]; exact hrows row hrow)
      obtain ⟨_, t', hrun'⟩ := halone.recovers hlives hsteady
        (fun other hother => by rw [honly other hother]; exact hall row hrow)
      have hfate := ((halone.ends_recover hsteady).returned hrun').1 row hself
      rw [after_of_ok hrun, after_of_ok hrun', (hfates row hrow).2, hfate.2]
      -- the world is loaded from tables without operations
      rfl
    · rw [after_of_ok hrun]
      exact hsettled task htask hrequested

/-- An operation that was interrupted while it ran. -/
def interruptedOp (operationId capability : String) : Operation where
  operationId := operationId
  taskId := "t"
  workspaceId := "w"
  capability := capability
  action := "open"
  objectRefs := ["doc"]
  arguments := []
  riskClass := .read
  state := .running

/-- A store with two interrupted operations, and a task that was asked to pause. -/
def interruptedStore : Sys :=
  { Small.start with
    db := { Small.start.db with
      tasks := Table.empty.put { Small.task with state := .pausing, desiredState := .paused }
      operations := (Table.empty.put (interruptedOp "op_1" "printer")).put
        (interruptedOp "op_2" "editor") } }

/-- Its operations are these two, … -/
theorem mem_interruptedStore {row : Operation} :
    row ∈ interruptedStore.db.operations.rows ↔
      row = interruptedOp "op_1" "printer" ∨ row = interruptedOp "op_2" "editor" := by
  have hops : interruptedStore.db.operations.rows
      = [interruptedOp "op_1" "printer", interruptedOp "op_2" "editor"] := rfl
  rw [hops, List.mem_cons, List.mem_singleton]

/-- … which JSON gives back. -/
theorem interruptedStore_encoded :
    ∀ row ∈ interruptedStore.db.operations.rows, row.encoded = some row := by
  intro row hrow
  rcases mem_interruptedStore.mp hrow with rfl | rfl <;> rfl

/-- The capabilities of the small engine answer the same every time. -/
theorem small_steady : Small.env.Steady := ⟨fun _ _ _ _ => rfl, fun _ _ _ _ => rfl⟩

/-- With both capabilities given, both operations recover. -/
theorem recovery_independent_given :
    RecoversIndependently Small.env interruptedStore Small.start.registry ["printer", "editor"]
      none := by
  refine (recovery_independent_iff Small.env (fun _ => rfl) small_steady interruptedStore
    Small.start.registry ["printer", "editor"] none interruptedStore_encoded).mpr ?_
  intro row hrow
  have hanswer : ∀ operationId capability,
      (interruptedOp operationId capability).pending.reconcileAnswer Small.env
        interruptedStore.db.reopened.loadWorldModel = .ok (.bool true, .bool true) :=
    fun _ _ => rfl
  rcases mem_interruptedStore.mp hrow with rfl | rfl
  all_goals
    refine ⟨fun _ => by decide, fun hstate => absurd hstate (by decide), fun _ => ?_⟩
    rw [hanswer]
    exact ⟨by simp [PyVal.jsonDumps], by simp [PyVal.jsonDumps]⟩

/-- Without the printer, the first operation ends the recovery: the second one stays RUNNING and the
task stays PAUSING. -/
theorem recovery_independent_fails :
    ¬ ∀ (env : Env) (s : Sys) (registry : CapabilityRegistry) (capabilities : List String)
      (broker : Option ResourceBroker), (∀ n, env.dies n = false) → env.Steady →
      (∀ row ∈ s.db.operations.rows, row.encoded = some row) →
      RecoversIndependently env s registry capabilities broker := by
  intro h
  obtain ⟨counts, t, hrun⟩ := (h Small.env interruptedStore Small.start.registry ["editor"] none
    (fun _ => rfl) small_steady interruptedStore_encoded).returns
  have hraises : returns (recover Small.env)
      (interruptedStore.restart Small.start.registry ["editor"] none) = none := by decide +kernel
  cases hraises.symm.trans (returns_eq_some.mpr ⟨t, hrun⟩)

end LiandanluNative
