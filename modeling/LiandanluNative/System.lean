/-
# LiandanluNative.System — the state of an engine and the monad its methods run in.

`Sys` is everything one engine process holds, its database, and the record of what capabilities were
asked to do.  A method is a computation in `M`: it changes the state as it goes, and an exception
keeps what was changed before it.  Whatever the engine does not decide comes from `Env`: the clock,
fresh identifiers, and the answers of the model and the capabilities, which may differ from call to
call.

The process may end at any boundary after a committed transaction or a side effect (`boundary`): it
then raises `Fault.crash`, which no handler catches and no cleanup follows.  Nothing else is assumed
of a crash: what is in memory is only lost by a restart, and a process that is interrupted at a
boundary and goes on is one of the runs.

A task or an operation is passed by its id: the object a caller hands over is the one the runtime
holds.
-/
import LiandanluNative.Capabilities
import LiandanluNative.Context
import LiandanluNative.Policy
import LiandanluNative.World
import LiandanluNative.Storage.TaskLeases
import LiandanluNative.Storage.ResourceLeases
import LiandanluNative.Storage.Outbox

namespace LiandanluNative

open Lib (Table)
open Lib.Proc

/-! ## The environment -/

/-- What an engine is given. A number counts the readings, identifiers, calls or boundaries so far.
-/
structure Env where
  py : Builtins
  clock : ℕ → ℚ
  uuid : ℕ → String
  /-- `model.next_action` -/
  nextAction : ℕ → ContextManifest → Except Exc ActionProposal
  /-- `capability.execute` -/
  execute : ℕ → Operation → List String → Except Exc PyVal
  /-- `capability.verify` -/
  verify : ℕ → Operation → PyVal → Except Exc PyVal
  /-- `capability.reconcile`, already taken apart into `verified` and `result`. -/
  reconcile : ℕ → Operation → List String → Except Exc (PyVal × PyVal)
  /-- Whether the process ends at a boundary. -/
  dies : ℕ → Bool

/-- The `n`-th `new_id(kind)`. -/
def Env.newId (env : Env) (kind : String) (n : ℕ) : String := kind ++ "_" ++ env.uuid n

/-- Identifiers are fresh when the random part of them is. -/
theorem Env.newId_injective {env : Env} (h : Function.Injective env.uuid) (kind : String) :
    Function.Injective (env.newId kind) := by
  intro m n heq
  have htext := congrArg String.toList heq
  simp only [Env.newId, String.toList_append, List.append_cancel_left_eq] at htext
  exact h (String.toList_injective htext)

/-! ## The state

One engine with everything that its runtimes hold in memory, and the database behind it; the
counters of drawn ids, of times read and of boundaries passed make the outside a function.
-/

/-- One call of `capability.execute`: its arguments, and the state it was made in. -/
structure Invocation where
  op : Operation
  locators : List String
  tasks : Table Task.taskId
  world : WorldModel
  db : Database
  clockReads : ℕ

/-- One call of `capability.verify` that returned, or of `capability.reconcile`. -/
inductive Finding where
  | verified (operationId : String) (result evidence : PyVal)
  | reconciled (operationId : String) (verified result : PyVal)

structure ResourceBroker where
  capacity : ResourceCapacity
  persistent : Bool
  leases : Table ResourceLease.taskId := .empty

structure Sys where
  /-- Whether the runtimes, the event store and the world share a store; they share one or none. -/
  persistent : Bool
  world : WorldModel := {}
  /-- `EventStore._outbox`, `_events` and `_cursors`, used without a store only. -/
  outbox : List (String × EventFields) := []
  events : List Event := []
  cursors : Table (Prod.fst : String × Int → String) := .empty
  tasks : Table Task.taskId := .empty
  operations : Table Operation.operationId := .empty
  /-- The heaps of the scheduler, each from its smallest item on. -/
  interactive : List (Int × ℚ × String) := []
  background : List (Int × ℚ × String) := []
  registry : CapabilityRegistry := .empty
  capabilities : List String := []
  broker : Option ResourceBroker := none
  db : Database := {}
  clockReads : ℕ := 0
  ids : ℕ := 0
  calls : ℕ := 0
  boundaries : ℕ := 0
  invocations : List Invocation := []
  findings : List Finding := []

/-! ## The monad

A method raises or returns, and the process may end at a boundary, after a committed transaction or
a side effect.
-/

inductive Fault where
  | raised (e : Exc)
  | crash
  deriving DecidableEq

abbrev M (α : Type) := EStateM Fault Sys α

def Fault.isCrash : Fault → Bool
  | .raised _ => false
  | .crash => true

def raise {α : Type} (e : Exc) : M α := throw (.raised e)

def liftExcept {α : Type} : Except Exc α → M α
  | .ok a => pure a
  | .error e => raise e

/-- `try body except …: handler`, where `catches` says which exceptions. -/
def catching {α : Type} (catches : Exc → Bool) (body : M α) (handler : Exc → M α) : M α :=
  handling body fun fault =>
    match fault with
    | .crash => throw .crash
    | .raised e => if catches e then handler e else raise e

/-- `try body finally cleanup` -/
def withCleanup {α : Type} (body : M α) (cleanup : M Unit) : M α :=
  ensuring Fault.isCrash body cleanup

section

variable (env : Env)

/-- `now()` -/
def readClock : M ℚ := fun s =>
  .ok (env.clock s.clockReads) { s with clockReads := s.clockReads + 1 }

/-- `new_id(kind)` -/
def newId (kind : String) : M String := fun s =>
  .ok (env.newId kind s.ids) { s with ids := s.ids + 1 }

/-- A call to something outside the engine. -/
def callOut {α : Type} (answer : ℕ → Except Exc α) : M α := fun s =>
  match answer s.calls with
  | .ok a => .ok a { s with calls := s.calls + 1 }
  | .error e => .error (.raised e) { s with calls := s.calls + 1 }

/-- The process may end here. -/
def boundary : M Unit := fun s =>
  if env.dies s.boundaries then
    .error .crash { s with boundaries := s.boundaries + 1 }
  else
    .ok () { s with boundaries := s.boundaries + 1 }

/-- A call of the store that writes: a transaction, and then a boundary. -/
def store {α : Type} (txn : Txn α) : M α := fun s =>
  match transaction txn s.db with
  | .error e db => .error (.raised e) { s with db := db }
  | .ok a db => (boundary env >>= fun _ => pure a) { s with db := db }

end

/-! ## Objects -/

/-- `str(KeyError(key))` -/
def keyError (key : String) : Exc := ⟨.keyError, key⟩

/-- `self.tasks[task_id]` -/
def getTask (taskId : String) : M Task := fun s =>
  match s.tasks.get? taskId with
  | some task => .ok task s
  | none => .error (.raised (keyError taskId)) s

/-- Assign to fields of a task, or add it. -/
def setTask (task : Task) : M Unit := modify fun s => { s with tasks := s.tasks.put task }

/-- `self.operations[operation_id]` -/
def getOperation (operationId : String) : M Operation := fun s =>
  match s.operations.get? operationId with
  | some op => .ok op s
  | none => .error (.raised (keyError operationId)) s

/-- Assign to fields of an operation, or add it. -/
def setOperation (op : Operation) : M Unit :=
  modify fun s => { s with operations := s.operations.put op }

/-! ## What the primitives do -/

section

variable {env : Env} {α : Type} {s t : Sys}

theorem getTask_eq_ok {taskId : String} {task : Task} :
    getTask taskId s = .ok task t ↔ s.tasks.get? taskId = some task ∧ t = s := by
  unfold getTask
  cases s.tasks.get? taskId with
  | none => simp
  | some found => simp [eq_comm]

@[simp] theorem after_getTask (taskId : String) (s : Sys) : after (getTask taskId) s = s := by
  simp only [after, getTask]
  cases s.tasks.get? taskId <;> rfl

/-- A method that begins by looking its task up goes on with what it found. -/
theorem after_found {taskId : String} {task : Task} (h : s.tasks.get? taskId = some task)
    {f : Task → M α} : after (getTask taskId >>= f) s = after (f task) s :=
  after_bind_ok (getTask_eq_ok.mpr ⟨h, rfl⟩)

theorem getOperation_eq_ok {operationId : String} {op : Operation} :
    getOperation operationId s = .ok op t ↔ s.operations.get? operationId = some op ∧ t = s := by
  unfold getOperation
  cases s.operations.get? operationId with
  | none => simp
  | some found => simp [eq_comm]

@[simp] theorem after_getOperation (operationId : String) (s : Sys) :
    after (getOperation operationId) s = s := by
  simp only [after, getOperation]
  cases s.operations.get? operationId <;> rfl

theorem liftExcept_eq_ok {x : Except Exc α} {a : α} :
    liftExcept x s = .ok a t ↔ x = .ok a ∧ t = s := by
  cases x with
  | error e =>
      show EStateM.Result.error (Fault.raised e) s = .ok a t ↔ _
      simp
  | ok b => simp [liftExcept, pure, EStateM.pure, eq_comm]

/-- A store call leaves the database its transaction leaves. -/
theorem after_store (env : Env) (s : Sys) (txn : Txn α) :
    ∃ n, after (store env txn) s
      = { s with db := after (transaction txn) s.db, boundaries := n } := by
  cases hrun : transaction txn s.db with
  | error e db =>
      refine ⟨s.boundaries, ?_⟩
      rw [after_of_error hrun]
      simp only [after, store, hrun]
  | ok a db =>
      refine ⟨s.boundaries + 1, ?_⟩
      rw [after_of_ok hrun]
      by_cases hdies : env.dies s.boundaries
      · simp [after, store, hrun, boundary, hdies, bind, EStateM.bind]
      · simp [after, store, hrun, boundary, hdies, bind, EStateM.bind, pure, EStateM.pure]

/-- A store call that returns has committed its transaction. -/
theorem store_eq_ok {txn : Txn α} {a : α} (h : store env txn s = .ok a t) :
    ∃ db, txn s.db = .ok a db ∧ t = { s with db := db, boundaries := s.boundaries + 1 } := by
  cases hrun : txn s.db with
  | error e db =>
      have hrollback : transaction txn s.db = .error e s.db := by simp only [transaction, hrun]
      simp only [store, hrollback, reduceCtorEq] at h
  | ok b db =>
      have hcommit : transaction txn s.db = .ok b db := by simp only [transaction, hrun]
      by_cases hdies : env.dies s.boundaries
      · simp [store, hcommit, boundary, hdies, bind, EStateM.bind] at h
      · simp only [store, hcommit, boundary, hdies, bind, EStateM.bind, pure, EStateM.pure,
          Bool.false_eq_true, if_false, EStateM.Result.ok.injEq] at h
        obtain ⟨rfl, rfl⟩ := h
        exact ⟨db, rfl, rfl⟩

end

section Frames

variable {env : Env} {α : Type} {R : Sys → Sys → Prop}

theorem within_getTask (hR : Frame R) (taskId : String) : Within R (getTask taskId) := by
  intro s
  rw [after_getTask]
  exact hR.refl s

theorem within_getOperation (hR : Frame R) (operationId : String) :
    Within R (getOperation operationId) := by
  intro s
  rw [after_getOperation]
  exact hR.refl s

theorem within_raise (hR : Frame R) (e : Exc) : Within R (raise e : M α) := hR.throw _

theorem within_liftExcept (hR : Frame R) (x : Except Exc α) : Within R (liftExcept x) := by
  cases x with
  | ok a => exact hR.pure a
  | error e => exact within_raise hR e

theorem within_catching (hR : Frame R) {catches : Exc → Bool} {body : M α} {handler : Exc → M α}
    (hbody : Within R body) (hhandler : ∀ e, Within R (handler e)) :
    Within R (catching catches body handler) := by
  refine hR.handling hbody (fun fault => ?_)
  cases fault with
  | crash => exact hR.throw _
  | raised e =>
      show Within R (if catches e then handler e else raise e)
      split
      · exact hhandler e
      · exact within_raise hR e

end Frames

end LiandanluNative
