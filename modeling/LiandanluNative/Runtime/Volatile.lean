/-
# LiandanluNative.Runtime.Volatile — what a process does not keep in its store.

An engine on a store holds a few things that it never writes there: the observations it made, the
heaps of its scheduler, and the lists that serve an engine without a store, or a broker without
one.  No method of the engine looks at them.  `Behind s t` relates states that differ in nothing
else, and every call is unaware of the difference (`Call.unaware`).

The relation asks for a store in both, and that is what makes the lemmas go through: every method
that has a list or a heap to read in memory reads it in the branch for an engine without one.  The
record of the effects made is not read by any method either, but it is what the results are about,
so `Behind` keeps it up to the observations that each entry holds.

`unaware_get` and `unaware_modify` are the two rules that look at a state; all else is put together
from the methods' bodies with the rules of `Lib.Unaware`, in the order of the source: primitives,
events, world, tasks, operations, recovery, step.
-/
import LiandanluNative.Lib.Unaware
import LiandanluNative.Runtime.Upkeep

namespace LiandanluNative

open Lib (Table)
open Lib.Proc

/-! ## The volatile part

A state is split into what lasts and what does not, and two states are compared by what lasts.
-/

/-- What a process holds and never stores. -/
structure Volatile where
  observations : List Observation := []
  outbox : List (String × EventFields) := []
  events : List Event := []
  cursors : Table (Prod.fst : String × Int → String) := .empty
  interactive : List (Int × ℚ × String) := []
  background : List (Int × ℚ × String) := []
  leases : Table ResourceLease.taskId := .empty

/-- A broker on a store with other leases in its memory. -/
def ResourceBroker.withLeases (broker : ResourceBroker) (leases : Table ResourceLease.taskId) :
    ResourceBroker :=
  if broker.persistent then { broker with leases := leases } else broker

/-- Capacity and mode of a broker are not volatile: `from_store` is given them again. -/
@[simp] theorem ResourceBroker.withLeases_capacity (broker : ResourceBroker)
    (leases : Table ResourceLease.taskId) :
    (broker.withLeases leases).capacity = broker.capacity := by
  unfold withLeases
  split <;> rfl

@[simp] theorem ResourceBroker.withLeases_persistent (broker : ResourceBroker)
    (leases : Table ResourceLease.taskId) :
    (broker.withLeases leases).persistent = broker.persistent := by
  unfold withLeases
  split <;> rfl

/-- The last table counts, in either mode. -/
theorem ResourceBroker.withLeases_withLeases (broker : ResourceBroker)
    (leases leases' : Table ResourceLease.taskId) :
    (broker.withLeases leases).withLeases leases' = broker.withLeases leases' := by
  by_cases hstored : broker.persistent = true
  · simp only [withLeases, hstored, if_true]
  · simp only [withLeases, hstored, Bool.false_eq_true, if_false]

/-- Giving a broker the leases it has is no change. -/
theorem ResourceBroker.withLeases_self (broker : ResourceBroker) :
    broker.withLeases broker.leases = broker := by
  unfold withLeases
  split <;> rfl

/-- The call of a capability without the observations the world held at the time. -/
def Invocation.lasting (i : Invocation) : Invocation :=
  { i with world := { i.world with observations := [] } }

namespace Sys

/-- The state with another volatile part, and another record of the calls made. -/
def withVolatile (s : Sys) (v : Volatile) (invocations : List Invocation) : Sys :=
  { s with
    world := { s.world with observations := v.observations }
    outbox := v.outbox
    events := v.events
    cursors := v.cursors
    interactive := v.interactive
    background := v.background
    broker := s.broker.map (·.withLeases v.leases)
    invocations := invocations }

/-- The last volatile part counts. -/
theorem withVolatile_withVolatile (s : Sys) (v v' : Volatile) (invocations later : List Invocation) :
    (s.withVolatile v invocations).withVolatile v' later = s.withVolatile v' later := by
  simp only [withVolatile, Option.map_map, Function.comp_def, ResourceBroker.withLeases_withLeases]

/-- All that lasts: the state with nothing volatile in it. -/
def lasting (s : Sys) : Sys := s.withVolatile {} (s.invocations.map Invocation.lasting)

end Sys

/-- The states of two processes on a store that only differ in what is volatile. -/
def Behind (s t : Sys) : Prop :=
  s.persistent = true ∧ ∃ v invocations, t = s.withVolatile v invocations ∧
    invocations.map Invocation.lasting = s.invocations.map Invocation.lasting

namespace Behind

variable {s t : Sys}

/-- A process on a store is behind itself: its own volatile part is one that it can have. -/
protected theorem refl (h : s.persistent = true) : Behind s s := by
  refine ⟨h, ⟨s.world.observations, s.outbox, s.events, s.cursors, s.interactive, s.background,
    (s.broker.map ResourceBroker.leases).getD .empty⟩, s.invocations, ?_, rfl⟩
  have hbroker : s.broker.map
      (·.withLeases ((s.broker.map ResourceBroker.leases).getD .empty)) = s.broker := by
    cases s.broker with
    | none => rfl
    | some broker => exact congrArg some broker.withLeases_self
  show s = { s with broker := s.broker.map _ }
  rw [hbroker]

end Behind

/-! ## The primitives -/

section

variable {env : Env} {α : Type}

/-- The clock and the ids are drawn from counters, which are not volatile. -/
theorem unaware_readClock : Unaware Behind (readClock env) := by
  rintro s _ ⟨hs, v, invocations, rfl, hsame⟩
  exact .returned _ ⟨hs, v, invocations, rfl, hsame⟩

theorem unaware_newId (kind : String) : Unaware Behind (newId env kind) := by
  rintro s _ ⟨hs, v, invocations, rfl, hsame⟩
  exact .returned _ ⟨hs, v, invocations, rfl, hsame⟩

/-- Which answer the outside gives is settled by how many it has given, not by what the process
remembers. -/
theorem unaware_callOut (answer : ℕ → Except Exc α) : Unaware Behind (callOut answer) := by
  rintro s _ ⟨hs, v, invocations, rfl, hsame⟩
  have hcalls : (s.withVolatile v invocations).calls = s.calls := rfl
  unfold callOut
  rw [hcalls]
  cases answer s.calls with
  | ok a => exact .returned a ⟨hs, v, invocations, rfl, hsame⟩
  | error e => exact .raised _ ⟨hs, v, invocations, rfl, hsame⟩

/-- A process dies at a boundary by its number, so both die or neither does. -/
theorem unaware_boundary : Unaware Behind (boundary env) := by
  rintro s _ ⟨hs, v, invocations, rfl, hsame⟩
  have hboundaries : (s.withVolatile v invocations).boundaries = s.boundaries := rfl
  unfold boundary
  rw [hboundaries]
  split
  · exact .raised _ ⟨hs, v, invocations, rfl, hsame⟩
  · exact .returned _ ⟨hs, v, invocations, rfl, hsame⟩

/-- **A transaction** reads and writes the database only, and that is the same in both. -/
theorem unaware_store (txn : Txn α) : Unaware Behind (store env txn) := by
  rintro s _ ⟨hs, v, invocations, rfl, hsame⟩
  have hdb : (s.withVolatile v invocations).db = s.db := rfl
  unfold store
  rw [hdb]
  cases transaction txn s.db with
  | error e db => exact .raised _ ⟨hs, v, invocations, rfl, hsame⟩
  | ok a db =>
      exact (unaware_boundary.bind (fun _ => .pure a)) _ _ ⟨hs, v, invocations, rfl, hsame⟩

/-- A change that does not look at what is volatile. -/
theorem unaware_modify {f : Sys → Sys} (hf : ∀ s, (f s).persistent = s.persistent ∧
    (f s).invocations = s.invocations ∧ ∀ v invocations,
      ∃ v', f (s.withVolatile v invocations) = (f s).withVolatile v' invocations) :
    Unaware Behind (modify f : M PUnit) := by
  refine .modifying ?_
  rintro s _ ⟨hs, v, invocations, rfl, hsame⟩
  obtain ⟨hpersistent, hinvocations, hvolatile⟩ := hf s
  obtain ⟨v', hv'⟩ := hvolatile v invocations
  exact ⟨hpersistent.trans hs, v', invocations, hv', by rw [hinvocations, hsame]⟩

/-- Tasks and operations are loaded again at a restart: they are not volatile. -/
theorem unaware_getTask (taskId : String) : Unaware Behind (getTask taskId) := by
  rintro s _ ⟨hs, v, invocations, rfl, hsame⟩
  have htasks : (s.withVolatile v invocations).tasks = s.tasks := rfl
  unfold getTask
  rw [htasks]
  cases s.tasks.get? taskId with
  | some task => exact .returned task ⟨hs, v, invocations, rfl, hsame⟩
  | none => exact .raised _ ⟨hs, v, invocations, rfl, hsame⟩

theorem unaware_setTask (task : Task) : Unaware Behind (setTask task) :=
  unaware_modify (fun _ => ⟨rfl, rfl, fun v _ => ⟨v, rfl⟩⟩)

theorem unaware_getOperation (operationId : String) : Unaware Behind (getOperation operationId) := by
  rintro s _ ⟨hs, v, invocations, rfl, hsame⟩
  have hoperations : (s.withVolatile v invocations).operations = s.operations := rfl
  unfold getOperation
  rw [hoperations]
  cases s.operations.get? operationId with
  | some op => exact .returned op ⟨hs, v, invocations, rfl, hsame⟩
  | none => exact .raised _ ⟨hs, v, invocations, rfl, hsame⟩

theorem unaware_setOperation (op : Operation) : Unaware Behind (setOperation op) :=
  unaware_modify (fun _ => ⟨rfl, rfl, fun v _ => ⟨v, rfl⟩⟩)

/-- What raises without a look at the state raises in both. -/
theorem unaware_raise (e : Exc) : Unaware Behind (raise e : M α) := .throw _

theorem unaware_liftExcept (x : Except Exc α) : Unaware Behind (liftExcept x) := by
  cases x with
  | ok a => exact .pure a
  | error e => exact .throw _

/-- The handler of an `except` is entered in both runs or in neither, as the exceptions are equal.
-/
theorem unaware_catching {catches : Exc → Bool} {body : M α} {handler : Exc → M α}
    (hbody : Unaware Behind body) (hhandler : ∀ e, Unaware Behind (handler e)) :
    Unaware Behind (catching catches body handler) := by
  refine hbody.handling (fun fault => ?_)
  cases fault with
  | crash => exact .throw _
  | raised e =>
      show Unaware Behind (if catches e then handler e else raise e)
      split
      · exact hhandler e
      · exact unaware_raise e

/-- What a computation goes on with only depends on what is not volatile. -/
theorem unaware_get {f : Sys → M α} (hf : ∀ s, s.persistent = true → Unaware Behind (f s))
    (hsame : ∀ (s : Sys) v invocations, f (s.withVolatile v invocations) = f s) :
    Unaware Behind (MonadState.get >>= f) := by
  refine Unaware.get_bind ?_
  rintro s _ ⟨hs, v, invocations, rfl, _⟩
  exact ⟨hf s hs, hsame s v invocations⟩

end

/-! ## Events -/

section

variable {env : Env}

/-- With a store, flushing moves rows of the database and leaves the lists in memory alone. -/
theorem unaware_dispatchOutbox : Unaware Behind (dispatchOutbox env) := by
  unfold dispatchOutbox
  refine unaware_get (fun s _ => ?_) (fun _ _ _ => rfl)
  dsimp only
  refine Unaware.bind (unaware_modify ?_) (fun _ => unaware_store _)
  exact fun _ => ⟨rfl, rfl, fun v _ => ⟨v, rfl⟩⟩

/-- The branch for an engine without a store, which does read its lists, is not taken. -/
theorem unaware_flushOutbox : Unaware Behind (flushOutbox env) := by
  unfold flushOutbox
  refine Unaware.get_bind ?_
  rintro s _ ⟨hs, v, invocations, rfl, _⟩
  have ht : (s.withVolatile v invocations).persistent = true := hs
  rw [if_pos hs, if_pos ht]
  exact ⟨unaware_dispatchOutbox, rfl⟩

/-! ## The world -/

/-- A change of the world that does not ask for the observations; it may well add to them. -/
theorem unaware_modifyWorld {f : WorldModel → WorldModel}
    (hf : ∀ (world : WorldModel) observations, ∃ observations',
      f { world with observations := observations } = { f world with observations := observations' }) :
    Unaware Behind (modifyWorld f) := by
  refine unaware_modify (fun s => ⟨rfl, rfl, fun v invocations => ?_⟩)
  obtain ⟨observations', hf'⟩ := hf s.world v.observations
  refine ⟨{ v with observations := observations' }, ?_⟩
  simp only [Sys.withVolatile, hf']

/-- What is saved is a function of the state that does not look at the volatile part. -/
theorem unaware_persisting {α : Type} {txn : Sys → Txn α}
    (hsame : ∀ (s : Sys) v invocations, txn (s.withVolatile v invocations) = txn s) :
    Unaware Behind (persisting env txn) := by
  unfold persisting
  refine unaware_get (fun s hs => ?_) (fun s v invocations => ?_)
  · rw [if_pos hs]
    exact (unaware_store _).bind (fun _ => .pure _)
  · rw [hsame s v invocations]
    rfl

/-- The revisions are saved as they are in memory, where both have the same. -/
theorem unaware_persistRevisions : Unaware Behind (persistRevisions env) :=
  unaware_persisting (fun _ _ _ => rfl)

theorem unaware_bumpWorkspace (workspaceId : String) :
    Unaware Behind (bumpWorkspace env workspaceId) := by
  unfold bumpWorkspace
  refine unaware_get (fun s _ => ?_) (fun _ _ _ => rfl)
  refine (unaware_modifyWorld (fun _ observations => ⟨observations, rfl⟩)).bind (fun _ => ?_)
  exact (unaware_persisting (fun _ _ _ => rfl)).bind (fun _ => unaware_persistRevisions)

theorem unaware_registerEntity (entity : Entity) : Unaware Behind (registerEntity env entity) := by
  unfold registerEntity
  refine (unaware_modifyWorld (fun _ observations => ⟨observations, rfl⟩)).bind (fun _ => ?_)
  exact (unaware_persisting (fun _ _ _ => rfl)).bind (fun _ => unaware_bumpWorkspace _)

/-- `observe` is the one method that writes a volatile field: both runs append to their own list,
and no later call reads it. -/
theorem unaware_observe (source observationType : String) (value : PyVal) (domain : String)
    (workspaceId : Option String) :
    Unaware Behind (observe env source observationType value domain workspaceId) := by
  unfold observe
  refine (unaware_modifyWorld (fun _ observations => ⟨observations ++ [_], rfl⟩)).bind (fun _ => ?_)
  split
  · split
    · exact unaware_raise _
    · exact unaware_bumpWorkspace _
  · refine unaware_get (fun s _ => ?_) (fun _ _ _ => rfl)
    refine (unaware_liftExcept _).bind (fun revisions => ?_)
    exact (unaware_modifyWorld (fun _ observations => ⟨observations, rfl⟩)).bind
      (fun _ => unaware_persistRevisions)

/-- `relate` asks for two entities and the edges of one, all of which are stored. -/
theorem unaware_relate (source relation target : String) :
    Unaware Behind (relate env source relation target) := by
  unfold relate
  refine unaware_get (fun s _ => ?_) (fun _ _ _ => rfl)
  refine (unaware_liftExcept _).bind (fun sourceEntity => ?_)
  refine (unaware_liftExcept _).bind (fun targetEntity => ?_)
  split
  · exact unaware_raise _
  split
  · exact .pure _
  refine (unaware_modifyWorld (fun _ observations => ⟨observations, rfl⟩)).bind (fun _ => ?_)
  exact (unaware_persisting (fun _ _ _ => rfl)).bind (fun _ => unaware_bumpWorkspace _)

/-! ## Tasks -/

/-- The event of a task goes with its row into the store, never into the list in memory. -/
theorem unaware_recordTask (taskId eventType actor : String) (payload : List (PyKey × PyVal)) :
    Unaware Behind (recordTask env taskId eventType actor payload) := by
  unfold recordTask
  refine (unaware_getTask _).bind (fun task => unaware_get (fun s hs => ?_) (fun _ _ _ => rfl))
  rw [if_pos hs]
  refine (unaware_newId _).bind (fun _ => unaware_readClock.bind (fun _ => ?_))
  exact (unaware_store _).bind (fun _ => .pure _)

/-- The counter of tasks is in the world, and is saved with the other revisions. -/
theorem unaware_bumpTasks : Unaware Behind (bumpTasks env) := by
  unfold bumpTasks
  exact (unaware_modifyWorld (fun _ observations => ⟨observations, rfl⟩)).bind
    (fun _ => unaware_persistRevisions)

theorem unaware_touchTask (taskId : String) : Unaware Behind (touchTask env taskId) := by
  unfold touchTask
  exact (unaware_getTask _).bind (fun task => (unaware_setTask _).bind (fun _ => unaware_bumpTasks))

/-- A task is assigned to, touched, and recorded. -/
theorem unaware_change (new : Task) (taskId eventType actor : String)
    (payload : List (PyKey × PyVal)) :
    Unaware Behind (setTask new >>= fun _ => touchTask env taskId >>= fun _ =>
      recordTask env taskId eventType actor payload) :=
  (unaware_setTask _).bind (fun _ => (unaware_touchTask _).bind
    (fun _ => unaware_recordTask _ _ _ _))

/-- **The methods of `TaskRuntime`** look at the task, at the revisions and at the clock. From here
on each proof follows the body of its method, call by call. -/
theorem unaware_createTask (goal : String) (successCriteria : List String) (workspaceId : String)
    (constraints : List String) (lane : String) (priority : Int) (budget : TaskBudget) :
    Unaware Behind (createTask env goal successCriteria workspaceId constraints lane priority
      budget) := by
  unfold createTask
  refine (unaware_newId _).bind (fun taskId => (unaware_setTask _).bind (fun _ => ?_))
  refine unaware_bumpTasks.bind (fun _ => (unaware_recordTask _ _ _ _).bind (fun _ => ?_))
  exact .pure _

theorem unaware_queueTask (taskId : String) : Unaware Behind (queueTask env taskId) := by
  unfold queueTask
  refine (unaware_getTask _).bind (fun task => ?_)
  split
  · exact unaware_raise _
  · exact unaware_readClock.bind (fun _ => unaware_change _ _ _ _ _)

theorem unaware_waitTask (taskId reason eventType : String) :
    Unaware Behind (waitTask env taskId reason eventType) := by
  unfold waitTask
  exact (unaware_getTask _).bind (fun task => unaware_change _ _ _ _ _)

/-- Whether anything changes is decided by the task alone. -/
theorem unaware_updateRuntimeState (taskId : String) (state : Option TaskState)
    (phase : Option TaskPhase) (eventType actor : String) :
    Unaware Behind (updateRuntimeState env taskId state phase eventType actor) := by
  unfold updateRuntimeState
  refine (unaware_getTask _).bind (fun task => ?_)
  dsimp only
  split
  · exact unaware_change _ _ _ _ _
  · exact .pure _

/-- So is which state a request leads to. -/
theorem unaware_controlTask (taskId : String) (desired : TaskState) :
    Unaware Behind (controlTask env taskId desired) := by
  unfold controlTask
  refine (unaware_getTask _).bind (fun task => ?_)
  split
  · exact .pure _
  · exact unaware_change _ _ _ _ _

theorem unaware_settleControl (taskId : String) (safeBoundary externalCancelConfirmed : Bool) :
    Unaware Behind (settleControl env taskId safeBoundary externalCancelConfirmed) := by
  unfold settleControl
  refine (unaware_getTask _).bind (fun task => ?_)
  dsimp only
  split
  · exact unaware_change _ _ _ _ _
  · exact .pure _

/-- The claims are arguments and the criteria are the task's. -/
theorem unaware_evaluateGoal (taskId : String) (claims : List (String × GoalClaim)) :
    Unaware Behind (evaluateGoal env taskId claims) := by
  unfold evaluateGoal
  exact (unaware_getTask _).bind (fun task => unaware_change _ _ _ _ _)

/-- Pushing a task writes a heap, and heaps are volatile: the runs push onto different ones. -/
theorem unaware_pushTask (taskId : String) : Unaware Behind (pushTask env taskId) := by
  unfold pushTask
  refine (unaware_getTask _).bind (fun task => ?_)
  have hpush : ∀ item : Int × ℚ × String, Unaware Behind
      (if task.lane = "interactive" then
        modify fun s => { s with interactive := s.interactive.orderedInsert heapLe item }
      else
        modify fun s => { s with background := s.background.orderedInsert heapLe item } :
        M PUnit) := by
    intro item
    split
    · exact unaware_modify (fun _ => ⟨rfl, rfl, fun v _ =>
        ⟨{ v with interactive := v.interactive.orderedInsert heapLe item }, rfl⟩⟩)
    · exact unaware_modify (fun _ => ⟨rfl, rfl, fun v _ =>
        ⟨{ v with background := v.background.orderedInsert heapLe item }, rfl⟩⟩)
  dsimp only
  split
  · exact (Unaware.pure _).bind (fun _ => hpush _)
  · exact unaware_readClock.bind (fun _ => hpush _)

theorem unaware_submitTask (taskId : String) : Unaware Behind (submitTask env taskId) :=
  (unaware_queueTask _).bind (fun _ => unaware_pushTask _)

/-! ## The checks of the world -/

section

variable (world : WorldModel) (observations : List Observation)

/-- The checks of the world read its revisions, entities and grants; the observations are the one
field they pass over. -/
theorem WorldModel.assertRevisions_unseen (workspaceId : Option String) :
    ∀ expected, ({ world with observations := observations } : WorldModel).assertRevisions
      workspaceId expected = world.assertRevisions workspaceId expected
  | [] => rfl
  | (domain, value) :: expected => by
      have hcurrent : ({ world with observations := observations } : WorldModel).currentRevision
          domain workspaceId = world.currentRevision domain workspaceId := rfl
      rw [assertRevisions, assertRevisions, hcurrent]
      simp only [assertRevisions_unseen workspaceId expected]

theorem WorldModel.assertAccessAll_unseen (permission workspaceId : String) :
    ∀ refs, ({ world with observations := observations } : WorldModel).assertAccessAll permission
      workspaceId refs = world.assertAccessAll permission workspaceId refs
  | [] => rfl
  | ref :: refs => by
      have haccess : ({ world with observations := observations } : WorldModel).assertAccess
          ref permission workspaceId = world.assertAccess ref permission workspaceId := rfl
      rw [assertAccessAll, assertAccessAll, haccess]
      simp only [assertAccessAll_unseen permission workspaceId refs]

theorem WorldModel.resolveLocators_unseen (permission workspaceId : String) :
    ∀ refs, ({ world with observations := observations } : WorldModel).resolveLocators permission
      workspaceId refs = world.resolveLocators permission workspaceId refs
  | [] => rfl
  | ref :: refs => by
      have hlocator : ({ world with observations := observations } : WorldModel).resolveLocator
          ref permission (some workspaceId) = world.resolveLocator ref permission (some workspaceId) :=
        rfl
      rw [resolveLocators, resolveLocators, hlocator]
      simp only [resolveLocators_unseen permission workspaceId refs]

end

/-! ## Operations

With a store, leases are looked up in its tables; and the operations in memory are the same in both.
-/

theorem unaware_updateOperation (operationId : String) (set : Operation → Operation) :
    Unaware Behind (updateOperation operationId set) :=
  (unaware_getOperation _).bind (fun _ => unaware_setOperation _)

/-- An operation is saved from memory, where both have the same. -/
theorem unaware_saveOp (operationId : String) : Unaware Behind (saveOp env operationId) :=
  (unaware_getOperation _).bind (fun _ => unaware_persisting (fun _ _ _ => rfl))

theorem unaware_recordOp (operationId eventType actor : String) (payload : List (PyKey × PyVal)) :
    Unaware Behind (recordOp env operationId eventType actor payload) := by
  unfold recordOp
  refine (unaware_getOperation _).bind (fun op => unaware_get (fun s hs => ?_) (fun _ _ _ => rfl))
  rw [if_pos hs]
  refine (unaware_newId _).bind (fun _ => unaware_readClock.bind (fun _ => ?_))
  exact (unaware_store _).bind (fun _ => .pure _)

/-- An operation is assigned to, and recorded. -/
theorem unaware_updateAndRecord (operationId eventType actor : String)
    (set : Operation → Operation) (payload : List (PyKey × PyVal)) :
    Unaware Behind (updateOperation operationId set >>= fun _ =>
      recordOp env operationId eventType actor payload) :=
  (unaware_updateOperation _ _).bind (fun _ => unaware_recordOp _ _ _ _)

/-- **A lease is looked up in the store**; the tables in memory are asked without one only. -/
theorem unaware_taskLeaseValid (taskId ownerId : String) (generation : Int) :
    Unaware Behind (taskLeaseValid env taskId ownerId generation) :=
  unaware_readClock.bind (fun _ => unaware_get (fun _ _ => .pure _) (fun _ _ _ => rfl))

theorem unaware_resourceLeaseValid (taskId ownerId : String) (generation : Int) :
    Unaware Behind (resourceLeaseValid env taskId ownerId generation) :=
  unaware_readClock.bind (fun _ => unaware_get (fun _ _ => .pure _) (fun _ _ _ => rfl))

/-- Both runs refuse a lease, with one text, or both go on. -/
theorem unaware_checkLease {taskId leaseTaskId foreign stale : String} {valid : M Bool}
    (hvalid : Unaware Behind valid) :
    Unaware Behind (checkLease taskId leaseTaskId foreign stale valid) := by
  unfold checkLease
  split
  · exact unaware_raise _
  refine unaware_get (fun s hs => ?_) (fun _ _ _ => rfl)
  rw [if_pos hs]
  refine hvalid.bind (fun b => ?_)
  split
  · exact .pure _
  · exact unaware_raise _

/-- So they do when the lease of an operation is looked up again before the effect. -/
theorem unaware_recheckLease {ownerId : Option String} {generation : Option Int} {lost : String}
    {valid : String → Int → M Bool} (hvalid : ∀ o g, Unaware Behind (valid o g)) :
    Unaware Behind (recheckLease ownerId generation lost valid) := by
  unfold recheckLease
  refine unaware_get (fun s hs => ?_) (fun _ _ _ => rfl)
  split
  · split
    · exact unaware_raise _
    · refine (hvalid _ _).bind (fun b => ?_)
      split
      · exact .pure _
      · exact unaware_raise _
  · exact .pure _

/-- The checks of `prepare`, in their order: leases, revisions, objects, access and budget. -/
theorem unaware_admitProposal (task : Task) (proposal : ActionProposal)
    (expectedRevisions : List (String × Int)) (taskLease : Option TaskLease)
    (resourceLease : Option ResourceLease) :
    Unaware Behind
      (admitProposal env task proposal expectedRevisions taskLease resourceLease) := by
  unfold admitProposal
  refine unaware_get (fun s _ => ?_) (fun s v invocations => ?_)
  · refine (unaware_liftExcept _).bind (fun spec => (unaware_liftExcept _).bind (fun _ => ?_))
    refine (unaware_liftExcept _).bind (fun _ => ?_)
    refine Unaware.bind ?_ (fun _ => Unaware.bind ?_ (fun _ => .pure _))
    · cases taskLease with
      | none => exact .pure _
      | some lease => exact unaware_checkLease (unaware_taskLeaseValid _ _ _)
    · cases resourceLease with
      | none => exact .pure _
      | some lease => exact unaware_checkLease (unaware_resourceLeaseValid _ _ _)
  · simp only [Sys.withVolatile, WorldModel.assertRevisions_unseen,
      WorldModel.assertAccessAll_unseen]

/-- What `prepare` does once nothing speaks against it: count, bump, keep, store. -/
theorem unaware_startOperation (task : Task) (op : Operation) :
    Unaware Behind (startOperation env task op) := by
  unfold startOperation
  refine (unaware_setTask _).bind (fun _ => unaware_bumpTasks.bind (fun _ => ?_))
  refine (unaware_setOperation _).bind (fun _ => unaware_get (fun s hs => ?_) (fun _ _ _ => rfl))
  rw [if_pos hs]
  refine (unaware_newId _).bind (fun _ => unaware_readClock.bind (fun _ => ?_))
  exact (unaware_store _).bind (fun _ => .pure _)

theorem unaware_prepare (taskId : String) (proposal : ActionProposal)
    (expectedRevisions : List (String × Int)) (taskLease : Option TaskLease)
    (resourceLease : Option ResourceLease) :
    Unaware Behind (prepare env taskId proposal expectedRevisions taskLease resourceLease) := by
  unfold prepare
  refine (unaware_getTask _).bind (fun task => (unaware_admitProposal _ _ _ _ _).bind (fun spec => ?_))
  refine (unaware_newId _).bind (fun operationId => unaware_readClock.bind (fun at_ => ?_))
  split
  · exact unaware_raise _
  · exact (unaware_startOperation _ _).bind (fun _ => .pure _)

theorem unaware_callVerify (op : Operation) : Unaware Behind (callVerify env op) := by
  refine (unaware_callOut _).bind (fun _ => Unaware.bind (unaware_modify ?_) (fun _ => .pure _))
  exact fun _ => ⟨rfl, rfl, fun v _ => ⟨v, rfl⟩⟩

/-- What the evidence of `verify` says decides the state of the operation. -/
theorem unaware_judgeEvidence (operationId : String) (evidence : PyVal) :
    Unaware Behind (judgeEvidence env operationId evidence) := by
  unfold judgeEvidence
  split
  · exact unaware_raise _
  refine (unaware_updateOperation _ _).bind (fun _ => ?_)
  have hjudged : ∀ passed : Bool, Unaware Behind
      (if passed then do
        updateOperation operationId (fun op => { op with state := .verified })
        recordOp env operationId "operation.verified" "verifier"
          (PyVal.payload [("evidence", evidence)])
      else do
        updateOperation operationId (fun op => { op with state := .failed })
        recordOp env operationId "operation.verification_failed" "verifier"
          (PyVal.payload [("evidence", evidence)]) : M Unit) := by
    intro passed
    split
    · exact unaware_updateAndRecord _ _ _ _ _
    · exact unaware_updateAndRecord _ _ _ _ _
  dsimp only
  split
  · exact (unaware_liftExcept _).bind hjudged
  · exact (Unaware.pure _).bind hjudged

theorem unaware_verifyOperation (operationId : String) :
    Unaware Behind (verifyOperation env operationId) := by
  unfold verifyOperation
  refine (unaware_getOperation _).bind (fun op => ?_)
  split
  · exact unaware_updateAndRecord _ _ _ _ _
  refine (unaware_updateOperation _ _).bind (fun _ => (unaware_saveOp _).bind (fun _ => ?_))
  refine Unaware.bind (unaware_catching ?_ (fun e => ?_)) (fun evidence => ?_)
  · exact (unaware_getOperation _).bind (fun op => (unaware_callVerify op).bind (fun _ => .pure _))
  · exact (unaware_updateOperation _ _).bind
      (fun _ => (unaware_recordOp _ _ _ _).bind (fun _ => .pure _))
  · split
    · exact .pure _
    · exact unaware_judgeEvidence _ _

/-- The record of a call names the world, but what is compared of it is what lasts. -/
theorem unaware_invokeCapability (operationId : String) (locators : List String) :
    Unaware Behind (invokeCapability env operationId locators) := by
  unfold invokeCapability
  refine (unaware_getOperation _).bind (fun op => Unaware.bind (.modifying ?_) (fun _ => ?_))
  · rintro s _ ⟨hs, v, invocations, rfl, hsame⟩
    refine ⟨hs, v, invocations ++ [(s.withVolatile v invocations).invocation op locators], rfl, ?_⟩
    rw [List.map_append, List.map_append, hsame]
    rfl
  · exact unaware_boundary.bind (fun _ => unaware_callOut _)

/-- The six gates before an effect see nothing volatile. -/
theorem unaware_executeGates (operationId : String) :
    Unaware Behind (executeGates env operationId) := by
  unfold executeGates
  refine (unaware_getOperation _).bind (fun op => ?_)
  refine (unaware_recheckLease (fun _ _ => unaware_taskLeaseValid _ _ _)).bind (fun _ => ?_)
  refine (unaware_recheckLease (fun _ _ => unaware_resourceLeaseValid _ _ _)).bind (fun _ => ?_)
  refine unaware_get (fun s _ => ?_) (fun s v invocations => ?_)
  · split
    · exact unaware_raise _
    · exact (unaware_liftExcept _).bind (fun _ => unaware_liftExcept _)
  · simp only [Sys.withVolatile, WorldModel.assertRevisions_unseen,
      WorldModel.resolveLocators_unseen]

/-- The effect is noted with the world it was made in, whose observations may differ: `Behind`
compares the notes without them. -/
theorem unaware_carryOut (operationId : String) (locators : List String) :
    Unaware Behind (carryOut env operationId locators) := by
  unfold carryOut
  refine (unaware_updateOperation _ _).bind (fun _ => (unaware_recordOp _ _ _ _).bind (fun _ => ?_))
  refine Unaware.bind (unaware_catching ?_ (fun e => ?_)) (fun result => ?_)
  · exact (unaware_invokeCapability _ _).bind (fun _ => .pure _)
  · exact (unaware_updateOperation _ _).bind
      (fun _ => (unaware_recordOp _ _ _ _).bind (fun _ => .pure _))
  · split
    · exact .pure _
    · exact (unaware_updateOperation _ _).bind
        (fun _ => (unaware_saveOp _).bind (fun _ => unaware_verifyOperation _))

theorem unaware_executeOperation (operationId : String) :
    Unaware Behind (executeOperation env operationId) :=
  (unaware_executeGates _).bind (fun _ => unaware_carryOut _ _)

/-! ## Recovering -/

theorem unaware_callReconcile (op : Operation) : Unaware Behind (callReconcile env op) := by
  unfold callReconcile
  refine unaware_get (fun s _ => ?_) (fun s v invocations => ?_)
  · refine (unaware_liftExcept _).bind (fun locators => (unaware_callOut _).bind (fun answer => ?_))
    refine Unaware.bind (unaware_modify ?_) (fun _ => .pure _)
    exact fun _ => ⟨rfl, rfl, fun v _ => ⟨v, rfl⟩⟩
  · simp only [Sys.withVolatile, WorldModel.resolveLocators_unseen]

theorem unaware_reconcileOperation (operationId : String) :
    Unaware Behind (reconcileOperation env operationId) := by
  unfold reconcileOperation
  refine (unaware_updateOperation _ _).bind (fun _ => (unaware_recordOp _ _ _ _).bind (fun _ => ?_))
  refine Unaware.bind (unaware_catching ?_ (fun e => ?_)) (fun answer => ?_)
  · exact (unaware_getOperation _).bind (fun op => (unaware_callReconcile op).bind (fun _ => .pure _))
  · exact (unaware_updateOperation _ _).bind
      (fun _ => (unaware_recordOp _ _ _ _).bind (fun _ => .pure _))
  · split
    · exact .pure _
    · exact unaware_updateAndRecord _ _ _ _ _

/-- A recovery starts from the state of the operation, which is stored. -/
theorem unaware_recoverOperation (operationId : String) :
    Unaware Behind (recoverOperation env operationId) := by
  unfold recoverOperation
  refine (unaware_getOperation _).bind (fun op => ?_)
  split
  · exact unaware_updateAndRecord _ _ _ _ _
  refine unaware_get (fun s _ => ?_) (fun _ _ _ => rfl)
  split
  · exact unaware_raise _
  split
  · exact unaware_verifyOperation _
  split
  · exact unaware_reconcileOperation _
  · exact .pure _

/-- A loop that counts how often its body returned `true`. -/
theorem unaware_countM {α : Type} {f : α → M Bool} (hf : ∀ x, Unaware Behind (f x)) :
    ∀ xs, Unaware Behind (countM f xs)
  | [] => .pure _
  | x :: xs => (hf x).bind (fun _ => (unaware_countM hf xs).bind (fun _ => .pure _))

/-- **`recover`** goes over the operations and then over the tasks, all of which are loaded. -/
theorem unaware_recover : Unaware Behind (recover env) := by
  unfold recover
  refine unaware_get (fun s _ => ?_) (fun _ _ _ => rfl)
  refine (unaware_countM (fun operationId => ?_) _).bind (fun reconciled => ?_)
  · unfold recoverIfUnsettled
    refine (unaware_getOperation _).bind (fun op => ?_)
    split
    · exact (unaware_recoverOperation _).bind (fun _ => .pure _)
    · exact .pure _
  refine unaware_get (fun s _ => ?_) (fun _ _ _ => rfl)
  refine (unaware_countM (fun taskId => ?_) _).bind (fun settled => ?_)
  · unfold settleIfRequested
    refine (unaware_getTask _).bind (fun task => ?_)
    split
    · exact (unaware_settleControl _ _ _).bind
        (fun _ => (unaware_getTask _).bind (fun _ => .pure _))
    · exact .pure _
  · exact unaware_flushOutbox.bind (fun _ => .pure _)

/-! ## The step

A step asks the model and the broker; the model sees the manifest, and the broker has its leases in
the store.
-/

/-- A broker without a store keeps its leases in its own table, so it is part of what lasts;
`withLeases` does not touch it. -/
theorem unaware_putBrokerLease (broker : ResourceBroker) (lease : ResourceLease) :
    Unaware Behind (putBrokerLease broker lease) := by
  refine unaware_modify (fun s => ⟨rfl, rfl, fun v invocations => ?_⟩)
  let held : ResourceBroker := { broker with leases := broker.leases.put lease }
  refine ⟨{ v with leases := held.leases }, ?_⟩
  have hheld : (some held).map (·.withLeases held.leases) = some held :=
    congrArg some held.withLeases_self
  show { s.withVolatile v invocations with broker := some held }
    = { s.withVolatile v invocations with broker := (some held).map (·.withLeases held.leases) }
  rw [hheld]

/-- A broker on a store does not look at its memory. -/
theorem acquireResources_withLeases (broker : ResourceBroker)
    (leases : Table ResourceLease.taskId) (taskId ownerId : String) (request : ResourceRequest)
    (leaseSeconds : ℚ) :
    acquireResources env (broker.withLeases leases) taskId ownerId request leaseSeconds
      = acquireResources env broker taskId ownerId request leaseSeconds := by
  by_cases hstored : broker.persistent = true
  · simp only [acquireResources, ResourceBroker.withLeases_capacity,
      ResourceBroker.withLeases_persistent, hstored, if_true]
  · rw [ResourceBroker.withLeases, if_neg hstored]

/-- A broker on a store releases there, and its table is not asked. -/
theorem releaseResources_withLeases (broker : ResourceBroker)
    (leases : Table ResourceLease.taskId) (lease : ResourceLease) :
    releaseResources env (broker.withLeases leases) lease = releaseResources env broker lease := by
  by_cases hstored : broker.persistent = true
  · simp only [releaseResources, ResourceBroker.withLeases_persistent, hstored, if_true]
  · rw [ResourceBroker.withLeases, if_neg hstored]

theorem unaware_acquireResources (broker : ResourceBroker) (taskId ownerId : String)
    (request : ResourceRequest) (leaseSeconds : ℚ) :
    Unaware Behind (acquireResources env broker taskId ownerId request leaseSeconds) := by
  unfold acquireResources
  split
  · exact unaware_raise _
  split
  · exact unaware_raise _
  split
  · exact .pure _
  refine unaware_readClock.bind (fun ts => ?_)
  split
  · exact unaware_store _
  · split
    · exact .pure _
    · exact (unaware_putBrokerLease _ _).bind (fun _ => .pure _)

theorem unaware_releaseResources (broker : ResourceBroker) (lease : ResourceLease) :
    Unaware Behind (releaseResources env broker lease) := by
  unfold releaseResources
  split
  · exact unaware_store _
  · split
    · exact .pure _
    · exact (unaware_putBrokerLease _ _).bind (fun _ => .pure _)

/-- **The step**, from its end to its beginning, as in `Runtime.Agent`. -/
theorem unaware_settleStep (taskId operationId : String) :
    Unaware Behind (settleStep env taskId operationId) := by
  unfold settleStep
  refine (unaware_getOperation _).bind (fun op => ?_)
  have hrest : Unaware Behind (settleControl env taskId true false >>= fun _ =>
      flushOutbox env >>= fun _ => (pure () : M Unit)) :=
    (unaware_settleControl _ _ _).bind (fun _ => unaware_flushOutbox.bind (fun _ => .pure _))
  dsimp only
  split
  · exact (unaware_updateRuntimeState _ _ _ _ _).bind (fun _ => hrest)
  split
  · exact (unaware_updateRuntimeState _ _ _ _ _).bind (fun _ => hrest)
  · exact (unaware_updateRuntimeState _ _ _ _ _).bind (fun _ => hrest)

theorem unaware_stepAct (taskId : String) (proposal : ActionProposal)
    (expectedRevisions : List (String × Int)) (taskLease : Option TaskLease)
    (resourceLease : Option ResourceLease) :
    Unaware Behind (stepAct env taskId proposal expectedRevisions taskLease resourceLease) := by
  unfold stepAct
  refine Unaware.bind (unaware_catching ?_ (fun e => ?_)) (fun prepared => ?_)
  · exact (unaware_prepare _ _ _ _ _).bind (fun _ => .pure _)
  · dsimp only
    split
    · exact (unaware_waitTask _ _ _).bind (fun _ => .pure _)
    · exact (unaware_waitTask _ _ _).bind (fun _ => .pure _)
  split
  · exact .pure _
  unfold stepExecute
  refine (unaware_updateRuntimeState _ _ _ _ _).bind (fun _ => ?_)
  refine Unaware.bind (unaware_catching ?_ (fun e => ?_)) (fun executed => ?_)
  · exact (unaware_executeOperation _).bind (fun _ => .pure _)
  · exact (unaware_waitTask _ _ _).bind (fun _ => .pure _)
  · split
    · exact unaware_settleStep _ _
    · exact .pure _

theorem unaware_stepResources (runner : Runner) (taskId : String) (spec : ActionSpec)
    (proposal : ActionProposal) (expectedRevisions : List (String × Int))
    (taskLease : Option TaskLease) :
    Unaware Behind
      (stepResources env runner taskId spec proposal expectedRevisions taskLease) := by
  unfold stepResources
  refine unaware_get (fun s _ => ?_) (fun s v invocations => ?_)
  rotate_left
  · have hbroker : (s.withVolatile v invocations).broker = s.broker.map (·.withLeases v.leases) := rfl
    rw [hbroker]
    cases s.broker with
    | none => rfl
    | some broker =>
        cases taskLease with
        | none => rfl
        | some lease => simp only [Option.map_some, acquireResources_withLeases]
  split
  · exact unaware_stepAct _ _ _ _ _
  split
  · exact unaware_waitTask _ _ _
  · exact unaware_waitTask _ _ _
  refine (unaware_acquireResources _ _ _ _ _).bind (fun acquired => ?_)
  split
  · exact unaware_waitTask _ _ _
  refine Unaware.ensuring (unaware_stepAct _ _ _ _ _) ?_
  refine unaware_get (fun s _ => ?_) (fun s v invocations => ?_)
  rotate_left
  · have hbroker : (s.withVolatile v invocations).broker = s.broker.map (·.withLeases v.leases) := rfl
    rw [hbroker]
    cases s.broker with
    | none => rfl
    | some broker => simp only [Option.map_some, releaseResources_withLeases]
  split
  · exact .pure _
  · exact (unaware_releaseResources _ _).bind (fun _ => .pure _)

/-- The model is asked with the manifest; it is an answer of the outside like any other. -/
theorem unaware_stepModel (runner : Runner) (taskId : String) (manifest : ContextManifest)
    (taskLease : Option TaskLease) :
    Unaware Behind (stepModel env runner taskId manifest taskLease) := by
  unfold stepModel
  refine (unaware_updateRuntimeState _ _ _ _ _).bind (fun _ => ?_)
  refine (unaware_callOut _).bind (fun proposal => unaware_get (fun s _ => ?_) (fun _ _ _ => rfl))
  refine (unaware_liftExcept _).bind (fun spec => (unaware_liftExcept _).bind (fun expected => ?_))
  refine (unaware_updateRuntimeState _ _ _ _ _).bind (fun _ => ?_)
  refine (unaware_getTask _).bind (fun task => ?_)
  split
  · exact unaware_updateRuntimeState _ _ _ _ _
  · exact unaware_updateRuntimeState _ _ _ _ _
  · exact unaware_stepResources _ _ _ _ _ _

theorem unaware_step (runner : Runner) (taskId : String) (manifest : ContextManifest)
    (taskLease : Option TaskLease) :
    Unaware Behind (step env runner taskId manifest taskLease) := by
  unfold step
  refine (unaware_getTask _).bind (fun task => unaware_get (fun s _ => ?_) (fun _ _ _ => rfl))
  split
  · exact unaware_raise _
  split
  · exact unaware_raise _
  split
  · exact unaware_waitTask _ _ _
  split
  · exact unaware_settleControl _ _ _
  · exact unaware_stepModel _ _ _ _

/-! ## The calls -/

/-- **No call sees what is volatile.** -/
theorem Call.unaware {call : Call} (hcall : call.isRestart = false) :
    Unaware Behind (call.proc env) := by
  cases call with
  | createTask goal successCriteria workspaceId constraints lane priority budget =>
      exact (unaware_createTask _ _ _ _ _ _ _).bind (fun _ => .pure _)
  | queue taskId => exact unaware_queueTask taskId
  | submit taskId => exact unaware_submitTask taskId
  | wait taskId reason eventType => exact unaware_waitTask taskId reason eventType
  | updateRuntimeState taskId state phase eventType actor =>
      exact unaware_updateRuntimeState taskId state phase eventType actor
  | control taskId desired => exact unaware_controlTask taskId desired
  | settleControl taskId safeBoundary externalCancelConfirmed =>
      exact unaware_settleControl taskId safeBoundary externalCancelConfirmed
  | evaluateGoal taskId claims => exact unaware_evaluateGoal taskId claims
  | prepare taskId proposal expectedRevisions taskLease resourceLease =>
      exact (unaware_prepare _ _ _ _ _).bind (fun _ => .pure _)
  | execute operationId => exact unaware_executeOperation operationId
  | recoverOperation operationId => exact unaware_recoverOperation operationId
  | step runner taskId manifest taskLease => exact unaware_step runner taskId manifest taskLease
  | recover => exact unaware_recover.bind (fun _ => .pure _)
  | register entity => exact unaware_registerEntity entity
  | observe source observationType value domain workspaceId =>
      exact unaware_observe source observationType value domain workspaceId
  | relate source relation target => exact unaware_relate source relation target
  | claimNext ownerId leaseSeconds =>
      exact unaware_readClock.bind (fun _ => (unaware_store _).bind (fun _ => .pure _))
  | renewLease lease leaseSeconds =>
      exact unaware_readClock.bind (fun _ => (unaware_store _).bind (fun _ => .pure _))
  | releaseLease lease => exact (unaware_store _).bind (fun _ => .pure _)
  | flushOutbox => exact unaware_flushOutbox.bind (fun _ => .pure _)
  | restart registry capabilities broker => cases hcall

end

end LiandanluNative
