/-
# LiandanluNative.Runtime.BrokerRuns — histories of calls of one resource broker.

A broker, the database behind it and what its calls returned so far.  A caller passes the time with
each call (`now_ts`), so a call is a method run with a clock that stands still; nothing interrupts
it.  What a method then does is one function of the leases for a broker with a store and one for a
broker without (`answer_stored`, `answer_memory`).

`exec_memory` and `exec_stored` are the two sides of one comparison.  Both come to the same
`answer`, which looks at leases alone; so two brokers with the same leases give the same results,
and keep the same leases, for as long as what they are given is as the table has it and can be
bound.
-/
import LiandanluNative.Lib.Runs
import LiandanluNative.Runtime.Resources

namespace LiandanluNative

open Lib (Table)
open Lib.Proc Lib.Runs

/-! ## Calls -/

/-- A call of the broker, with its arguments as a caller gives them.  A lease that is given may be
one that was returned or any other. -/
inductive BrokerCall where
  | acquire (taskId ownerId : String) (request : ResourceRequest) (leaseSeconds : ℚ)
  | renew (lease : ResourceLease) (leaseSeconds : ℚ)
  | release (lease : ResourceLease)
  | validate (lease : ResourceLease)

/-- A call at a time. `release` does not ask for it. -/
structure BrokerMove where
  ts : ℚ
  call : BrokerCall

/-- What a call comes to. -/
inductive BrokerResult where
  | lease (found : Option ResourceLease)
  | answer (found : Bool)
  | raised (fault : Fault)
  deriving DecidableEq

/-- The lease a call is given. -/
def BrokerCall.handle? : BrokerCall → Option ResourceLease
  | .acquire _ _ _ _ => none
  | .renew lease _ => some lease
  | .release lease => some lease
  | .validate lease => some lease

/-- The lease is asked for, or extended, for a positive time. -/
def BrokerCall.positive : BrokerCall → Prop
  | .acquire _ _ _ leaseSeconds => 0 < leaseSeconds
  | .renew _ leaseSeconds => 0 < leaseSeconds
  | .release _ => True
  | .validate _ => True

/-- A store takes what an acquisition puts into its row. -/
def BrokerCall.bindable : BrokerCall → Prop
  | .acquire taskId ownerId request _ =>
      Bindable [.text taskId] ∧ Bindable (request.columns ownerId)
  | _ => True

/-- The environment while the clock shows `ts` and nothing interrupts the process: no boundary of a
transaction ends it. -/
def Env.timed (env : Env) (ts : ℚ) : Env :=
  { env with
    clock := fun _ => ts
    dies := fun _ => false }

/-- The method a call runs. -/
def BrokerCall.method (env : Env) (broker : ResourceBroker) : BrokerCall → M BrokerResult
  | .acquire taskId ownerId request leaseSeconds =>
      .lease <$> acquireResources env broker taskId ownerId request leaseSeconds
  | .renew lease leaseSeconds => .lease <$> renewResources env broker lease leaseSeconds
  | .release lease => .answer <$> releaseResources env broker lease
  | .validate lease => .answer <$> validateResources env broker lease

/-- A broker, its database, and what was returned. -/
structure BrokerHistory where
  broker : ResourceBroker
  db : Database
  results : List BrokerResult := []
  /-- The time of the last call. -/
  now : ℚ := 0

namespace BrokerHistory

/-- The engine the broker is part of. -/
def engine (h : BrokerHistory) : Sys :=
  { persistent := h.broker.persistent
    broker := some h.broker
    db := h.db }

/-- What a method left, whether it returned or raised. -/
def left (h : BrokerHistory) (s : Sys) (result : BrokerResult) (ts : ℚ) : BrokerHistory where
  broker := s.broker.getD h.broker
  db := s.db
  results := h.results ++ [result]
  now := ts

/-- A call made at its time; whatever it returned or raised is noted. -/
def exec (env : Env) (h : BrokerHistory) (move : BrokerMove) : BrokerHistory :=
  match move.call.method (env.timed move.ts) h.broker h.engine with
  | .ok result s => h.left s result move.ts
  | .error fault s => h.left s (.raised fault) move.ts

/-- The call is given no lease but one that was returned. -/
def returned (h : BrokerHistory) (move : BrokerMove) : Prop :=
  ∀ lease, move.call.handle? = some lease → .lease (some lease) ∈ h.results

end BrokerHistory

/-! ## What a call does

A call is a function of the leases, as far as they are found under the id of a task: `answer` is
that function, in the words of the broker in memory.
-/

/-- What an acquisition comes to that is refused before anything is looked up. -/
def BrokerCall.refusal (capacity : ResourceCapacity) (taskId ownerId : String)
    (request : ResourceRequest) (leaseSeconds : ℚ) : Option BrokerResult :=
  if taskId = "" ∨ ownerId = "" then
    some (.raised (.raised ⟨.valueError, "task_id and owner_id are required"⟩))
  else if leaseSeconds ≤ 0 then
    some (.raised (.raised ⟨.valueError, "lease_seconds must be positive"⟩))
  else if request.exceeds capacity then
    some (.lease none)
  else
    none

namespace ResourceBroker

/-- The lease a renewal makes of the one it is given, if that is current and unexpired. -/
def renews (broker : ResourceBroker) (lease : ResourceLease) (leaseSeconds ts : ℚ) :
    Option ResourceLease :=
  (broker.held lease).bind fun current =>
    if current.leaseUntil ≤ ts then none else some { lease with leaseUntil := ts + leaseSeconds }

/-- What a release makes of the lease that is held. -/
def releases (broker : ResourceBroker) (lease : ResourceLease) : Option ResourceLease :=
  (broker.held lease).map fun current => { current with leaseUntil := 0 }

/-- Put in the lease that was made, if any. -/
def keeping (leases : Table ResourceLease.taskId) (made : Option ResourceLease) :
    Table ResourceLease.taskId :=
  made.elim leases leases.put

/-- What a call comes to, and the leases after it: a function of the leases, the capacity and the
time. -/
def answer (broker : ResourceBroker) (ts : ℚ) :
    BrokerCall → BrokerResult × Table ResourceLease.taskId
  | .acquire taskId ownerId request leaseSeconds =>
      match BrokerCall.refusal broker.capacity taskId ownerId request leaseSeconds with
      | some result => (result, broker.leases)
      | none =>
          (.lease (broker.grants taskId ownerId request leaseSeconds ts),
            keeping broker.leases (broker.grants taskId ownerId request leaseSeconds ts))
  | .renew lease leaseSeconds =>
      (.lease (broker.renews lease leaseSeconds ts),
        keeping broker.leases (broker.renews lease leaseSeconds ts))
  | .release lease =>
      (.answer (broker.releases lease).isSome, keeping broker.leases (broker.releases lease))
  | .validate lease =>
      (.answer ((broker.held lease).any (fun current => decide (ts < current.leaseUntil))),
        broker.leases)

/-- A lease is held if the broker has one for its task with that owner and generation. -/
theorem held_eq_some {broker : ResourceBroker} {lease current : ResourceLease} :
    broker.held lease = some current ↔ broker.leases.get? lease.taskId = some current ∧
      current.heldBy lease.ownerId lease.generation = true := by
  simp only [held, Option.filter_eq_some_iff]

end ResourceBroker

/-- A request that is refused by none of the checks before the admission. -/
theorem refusal_eq_none {capacity : ResourceCapacity} {taskId ownerId : String}
    {request : ResourceRequest} {leaseSeconds : ℚ} :
    BrokerCall.refusal capacity taskId ownerId request leaseSeconds = none ↔
      ¬ (taskId = "" ∨ ownerId = "") ∧ ¬ leaseSeconds ≤ 0 ∧ ¬ request.exceeds capacity = true := by
  unfold BrokerCall.refusal
  split
  · simp [*]
  split
  · simp [*]
  split <;> simp [*]

section

variable {α β : Type} {env : Env} {ts : ℚ} {s t : Sys}

/-- What is made of a result leaves the state and the exceptions alone. -/
theorem map_eq_ok {m : M α} {f : α → β} {a : α} (h : m s = .ok a t) : (f <$> m) s = .ok (f a) t := by
  show EStateM.map f m s = _
  unfold EStateM.map
  rw [h]

theorem map_eq_error {m : M α} {f : α → β} {e : Fault} (h : m s = .error e t) :
    (f <$> m) s = .error e t := by
  show EStateM.map f m s = _
  unfold EStateM.map
  rw [h]

/-- A clock that stands still gives its time and counts that it was read. -/
theorem bind_readClock (f : ℚ → M α) :
    (readClock (env.timed ts) >>= f) s = f ts { s with clockReads := s.clockReads + 1 } := rfl

/-- No boundary ends the process, so a transaction that returns is a call that does. -/
theorem store_timed {txn : Txn α} {a : α} {db : Database} (h : txn s.db = .ok a db) :
    store (env.timed ts) txn s = .ok a { s with db := db, boundaries := s.boundaries + 1 } := by
  simp only [store, transaction, h]
  rfl

end

namespace BrokerHistory

variable {env : Env} {h : BrokerHistory}

/-- A call that returned notes its result. -/
theorem exec_of_ok {move : BrokerMove} {result : BrokerResult} {s : Sys}
    (hrun : move.call.method (env.timed move.ts) h.broker h.engine = .ok result s) :
    h.exec env move = h.left s result move.ts := by
  simp only [exec, hrun]

/-- A call that raised notes the exception. -/
theorem exec_of_error {move : BrokerMove} {fault : Fault} {s : Sys}
    (hrun : move.call.method (env.timed move.ts) h.broker h.engine = .error fault s) :
    h.exec env move = h.left s (.raised fault) move.ts := by
  simp only [exec, hrun]

/-- An acquisition that is refused at once. -/
theorem exec_refused {ts leaseSeconds : ℚ} {taskId ownerId : String} {request : ResourceRequest}
    {result : BrokerResult}
    (hrefused : BrokerCall.refusal h.broker.capacity taskId ownerId request leaseSeconds
      = some result) :
    h.exec env ⟨ts, .acquire taskId ownerId request leaseSeconds⟩ = h.left h.engine result ts := by
  unfold BrokerCall.refusal at hrefused
  by_cases hids : taskId = "" ∨ ownerId = ""
  · rw [if_pos hids, Option.some.injEq] at hrefused
    rw [← hrefused]
    refine exec_of_error (map_eq_error ?_)
    unfold acquireResources
    rw [if_pos hids]
    rfl
  rw [if_neg hids] at hrefused
  by_cases hseconds : leaseSeconds ≤ 0
  · rw [if_pos hseconds, Option.some.injEq] at hrefused
    rw [← hrefused]
    refine exec_of_error (map_eq_error ?_)
    unfold acquireResources
    rw [if_neg hids, if_pos hseconds]
    rfl
  rw [if_neg hseconds] at hrefused
  by_cases hbig : request.exceeds h.broker.capacity = true
  · rw [if_pos hbig, Option.some.injEq] at hrefused
    rw [← hrefused]
    refine exec_of_ok (map_eq_ok ?_)
    unfold acquireResources
    rw [if_neg hids, if_neg hseconds, if_pos hbig]
    rfl
  · rw [if_neg hbig] at hrefused
    cases hrefused

/-! ## In memory

The method is run on the broker's own table.
-/

/-- What a call leaves of a broker without a store. -/
def remembered (h : BrokerHistory) (ts : ℚ) (answer : BrokerResult × Table ResourceLease.taskId) :
    BrokerHistory where
  broker := { h.broker with leases := answer.2 }
  db := h.db
  results := h.results ++ [answer.1]
  now := ts

/-- **A broker without a store** answers from its memory, whatever it is given. -/
theorem exec_memory (hmemory : h.broker.persistent = false) (move : BrokerMove) :
    h.exec env move = h.remembered move.ts (h.broker.answer move.ts move.call) := by
  obtain ⟨ts, call⟩ := move
  have hbranch : ∀ {γ : Type} (a b : M γ), (if h.broker.persistent then a else b) = b := by
    intro γ a b
    rw [hmemory]
    rfl
  let kept (lease : ResourceLease) : ResourceBroker :=
    { h.broker with leases := h.broker.leases.put lease }
  -- in each case the state the method ends in is named, and then it is run
  cases call with
  | acquire taskId ownerId request leaseSeconds =>
      cases hrefusal : BrokerCall.refusal h.broker.capacity taskId ownerId request leaseSeconds with
      | some result =>
          simp only [ResourceBroker.answer, hrefusal]
          exact exec_refused hrefusal
      | none =>
          obtain ⟨hids, hseconds, hbig⟩ := refusal_eq_none.mp hrefusal
          simp only [ResourceBroker.answer, hrefusal]
          cases hgrants : h.broker.grants taskId ownerId request leaseSeconds ts with
          | none =>
              refine exec_of_ok (s := { h.engine with clockReads := 1 }) (map_eq_ok ?_)
              unfold acquireResources
              rw [if_neg hids, if_neg hseconds, if_neg hbig]
              simp only [bind_readClock, hbranch, hgrants]
              rfl
          | some lease =>
              refine exec_of_ok (s := { h.engine with clockReads := 1, broker := some (kept lease) })
                (map_eq_ok ?_)
              unfold acquireResources
              rw [if_neg hids, if_neg hseconds, if_neg hbig]
              simp only [bind_readClock, hbranch, hgrants]
              rfl
  | renew lease leaseSeconds =>
      simp only [ResourceBroker.answer, ResourceBroker.renews]
      cases hheld : h.broker.held lease with
      | none =>
          refine exec_of_ok (s := { h.engine with clockReads := 1 }) (map_eq_ok ?_)
          unfold renewResources
          simp only [bind_readClock, hbranch, hheld]
          rfl
      | some current =>
          rw [Option.bind_some]
          by_cases hexpired : current.leaseUntil ≤ ts
          · rw [if_pos hexpired]
            refine exec_of_ok (s := { h.engine with clockReads := 1 }) (map_eq_ok ?_)
            unfold renewResources
            simp only [bind_readClock, hbranch, hheld, if_pos hexpired]
            rfl
          · rw [if_neg hexpired]
            refine exec_of_ok (s := { h.engine with
              clockReads := 1
              broker := some (kept { lease with leaseUntil := ts + leaseSeconds }) })
              (map_eq_ok ?_)
            unfold renewResources
            simp only [bind_readClock, hbranch, hheld, if_neg hexpired]
            rfl
  | release lease =>
      simp only [ResourceBroker.answer, ResourceBroker.releases]
      cases hheld : h.broker.held lease with
      | none =>
          -- a release does not ask for the time
          refine exec_of_ok (s := h.engine) (map_eq_ok ?_)
          unfold releaseResources
          simp only [hbranch, hheld]
          rfl
      | some current =>
          refine exec_of_ok (s := { h.engine with
            broker := some (kept { current with leaseUntil := 0 }) }) (map_eq_ok ?_)
          unfold releaseResources
          simp only [hbranch, hheld]
          rfl
  | validate lease =>
      simp only [ResourceBroker.answer]
      refine exec_of_ok (s := { h.engine with clockReads := 1 }) (map_eq_ok ?_)
      unfold validateResources
      simp only [bind_readClock, hbranch]
      cases h.broker.held lease <;> rfl

/-! ## In the store

The table of the store is seen as a broker's (`mirror`), and each of the four transactions is
compared to what that broker would do.
-/

/-- The broker as it would be if it had the leases of the store in memory.  It is what a broker with
a store is compared to. -/
def mirror (h : BrokerHistory) : ResourceBroker := { h.broker with leases := h.db.resourceLeases }

/-- What a call leaves of a broker with a store. -/
def stored (h : BrokerHistory) (ts : ℚ) (answer : BrokerResult × Table ResourceLease.taskId) :
    BrokerHistory where
  broker := h.broker
  db := { h.db with resourceLeases := answer.2 }
  results := h.results ++ [answer.1]
  now := ts

end BrokerHistory

/-- The row that names a lease and has its request and time is that lease, but for its expiry. -/
theorem renewed_eq {row lease : ResourceLease} (htask : row.taskId = lease.taskId)
    (hheld : row.heldBy lease.ownerId lease.generation = true)
    (hsame : row.request = lease.request ∧ row.claimedAt = lease.claimedAt) (until_ : ℚ) :
    { row with leaseUntil := until_ } = { lease with leaseUntil := until_ } := by
  obtain ⟨howner, hgeneration⟩ := ResourceLease.heldBy_iff.mp hheld
  rw [htask, howner, hgeneration, hsame.1, hsame.2]

/-- The lease is as the broker has it, as far as it is still current.  Memory takes what the caller
says of the request, and the store what is in the row, so a lease that was altered would tell them
apart. -/
def ResourceBroker.recognises (broker : ResourceBroker) (lease : ResourceLease) : Prop :=
  ∀ current, broker.held lease = some current →
    current.request = lease.request ∧ current.claimedAt = lease.claimedAt

section

variable {db : Database} (broker : ResourceBroker) (hleases : broker.leases = db.resourceLeases)
include hleases

/-- The database with the leases of the broker in its table. -/
theorem keeping_none :
    { db with resourceLeases := ResourceBroker.keeping broker.leases none } = db := by
  rw [hleases]
  rfl

/-- **The store grants as the memory does**: on a table that has the broker's leases, acquiring is
the broker's own decision, and the row is the lease it would keep. -/
theorem acquireResourceLease_eq {taskId ownerId : String} {request : ResourceRequest}
    {leaseSeconds : ℚ} (ts : ℚ)
    (hrefusal : BrokerCall.refusal broker.capacity taskId ownerId request leaseSeconds = none)
    (hbindable : (BrokerCall.acquire taskId ownerId request leaseSeconds).bindable) :
    acquireResourceLease taskId ownerId request broker.capacity leaseSeconds ts db
      = .ok (broker.grants taskId ownerId request leaseSeconds ts)
          { db with
            resourceLeases := ResourceBroker.keeping broker.leases
              (broker.grants taskId ownerId request leaseSeconds ts) } := by
  obtain ⟨hids, hseconds, hbig⟩ := refusal_eq_none.mp hrefusal
  have hsame := keeping_none broker hleases
  have hactive : broker.active taskId ts = db.resourceLeaseActive taskId ts := by
    unfold ResourceBroker.active
    rw [hleases]
    rfl
  have hothers : broker.othersActive ts taskId = db.otherActiveLeases ts taskId := by
    unfold ResourceBroker.othersActive Database.otherActiveLeases
    rw [hleases]
  have hgeneration : broker.nextGeneration taskId = db.nextResourceGeneration taskId := by
    unfold ResourceBroker.nextGeneration
    rw [hleases]
    rfl
  unfold acquireResourceLease ResourceBroker.grants
  rw [if_neg hids, if_neg hseconds, if_neg hbig, hactive, hothers, hgeneration]
  simp only [binds_of_bindable hbindable.1, binds_of_bindable hbindable.2]
  by_cases hlive : db.resourceLeaseActive taskId ts = true
  · rw [if_pos hlive, if_pos hlive, hsame]
  rw [if_neg hlive, if_neg hlive]
  by_cases hconflict : request.conflicts broker.capacity (db.otherActiveLeases ts taskId) = true
  · rw [if_pos hconflict, if_pos hconflict, hsame]
  · rw [if_neg hconflict, if_neg hconflict, hleases]
    rfl

/-- The row that names the lease, if any. -/
theorem held_eq (lease : ResourceLease) :
    broker.held lease
      = (db.resourceLeases.get? lease.taskId).filter (·.heldBy lease.ownerId lease.generation) := by
  rw [ResourceBroker.held, hleases]

/-- **The store renews as the memory does**, for a lease whose request is the one held. -/
theorem renewResourceLease_eq {lease : ResourceLease} {leaseSeconds : ℚ} (ts : ℚ)
    (hpositive : 0 < leaseSeconds) (hknown : broker.recognises lease) :
    renewResourceLease lease leaseSeconds ts db
      = .ok (broker.renews lease leaseSeconds ts)
          { db with
            resourceLeases := ResourceBroker.keeping broker.leases
              (broker.renews lease leaseSeconds ts) } := by
  have hsame := keeping_none broker hleases
  unfold renewResourceLease ResourceBroker.renews
  rw [if_neg (not_le.mpr hpositive)]
  cases hrow : db.resourceLeases.get? lease.taskId with
  | none =>
      rw [held_eq broker hleases, hrow]
      exact congrArg (EStateM.Result.ok none) hsame.symm
  | some row =>
      cases hheld : row.heldBy lease.ownerId lease.generation with
      | false =>
          have hnone : broker.held lease = none := by
            rw [held_eq broker hleases, hrow, Option.filter_some, hheld]
            rfl
          rw [hnone, Option.bind_none, hsame]
          simp only [hheld, Bool.false_and, Bool.false_eq_true, if_false]
      | true =>
          have hcurrent : broker.held lease = some row := by
            rw [held_eq broker hleases, hrow, Option.filter_some, hheld]
            rfl
          rw [hcurrent, Option.bind_some]
          by_cases hexpired : row.leaseUntil ≤ ts
          · rw [if_pos hexpired, hsame]
            simp only [hheld, decide_eq_false (not_lt.mpr hexpired), Bool.and_false,
              Bool.false_eq_true, if_false]
          · have hrenewed := renewed_eq (Table.key_of_get? hrow) hheld (hknown row hcurrent)
              (ts + leaseSeconds)
            rw [if_neg hexpired, hleases]
            simp only [hheld, decide_eq_true (not_le.mp hexpired), Bool.and_true, if_true]
            rw [hrenewed]
            rfl

/-- **The store releases as the memory does**, for any lease. -/
theorem releaseResourceLease_eq (lease : ResourceLease) :
    releaseResourceLease lease db
      = .ok (broker.releases lease).isSome
          { db with
            resourceLeases := ResourceBroker.keeping broker.leases (broker.releases lease) } := by
  have hsame := keeping_none broker hleases
  unfold releaseResourceLease ResourceBroker.releases
  cases hrow : db.resourceLeases.get? lease.taskId with
  | none =>
      rw [held_eq broker hleases, hrow]
      exact congrArg (EStateM.Result.ok false) hsame.symm
  | some row =>
      cases hheld : row.heldBy lease.ownerId lease.generation with
      | false =>
          have hnone : broker.held lease = none := by
            rw [held_eq broker hleases, hrow, Option.filter_some, hheld]
            rfl
          rw [hnone, Option.map_none, hsame]
          simp only [hheld, Bool.false_eq_true, if_false, Option.isSome_none]
      | true =>
          have hcurrent : broker.held lease = some row := by
            rw [held_eq broker hleases, hrow, Option.filter_some, hheld]
            rfl
          rw [hcurrent, hleases]
          simp only [hheld, if_true]
          rfl

/-- **The store validates as the memory does**, for a lease whose request is the one held. -/
theorem validateResourceLease_eq {lease : ResourceLease} (ts : ℚ)
    (hknown : broker.recognises lease) :
    db.validateResourceLease lease ts
      = (broker.held lease).any (fun current => decide (ts < current.leaseUntil)) := by
  unfold Database.validateResourceLease
  rw [held_eq broker hleases]
  cases hrow : db.resourceLeases.get? lease.taskId with
  | none => rfl
  | some row =>
      cases hheld : row.heldBy lease.ownerId lease.generation with
      | false =>
          rw [Option.filter_some, hheld]
          simp only [hheld, Bool.false_and, Bool.false_eq_true, if_false, Option.any_none]
      | true =>
          have hcurrent : broker.held lease = some row := by
            rw [held_eq broker hleases, hrow, Option.filter_some, hheld]
            rfl
          simp only [Option.filter_some, hheld, (hknown row hcurrent).1, decide_true,
            Bool.and_true, Bool.true_and, if_true, Option.any_some]

end

namespace BrokerHistory

variable {env : Env} {h : BrokerHistory}

/-- **A broker with a store** answers from its table the same, as far as the leases it is given are
as the table has them, and the rows of new leases can be bound.  One case for each method, by the
four lemmas above. -/
theorem exec_stored (hstored : h.broker.persistent = true) {move : BrokerMove}
    (hpositive : move.call.positive) (hbindable : move.call.bindable)
    (hknown : ∀ lease, move.call.handle? = some lease → h.mirror.recognises lease) :
    h.exec env move = h.stored move.ts (h.mirror.answer move.ts move.call) := by
  obtain ⟨ts, call⟩ := move
  have hbranch : ∀ {γ : Type} (a b : M γ), (if h.broker.persistent then a else b) = a := by
    intro γ a b
    rw [hstored]
    rfl
  -- what the transaction comes to was shown above; a method is that and a reading of the clock
  cases call with
  | acquire taskId ownerId request leaseSeconds =>
      cases hrefusal : BrokerCall.refusal h.broker.capacity taskId ownerId request leaseSeconds with
      | some result =>
          have hanswer : h.mirror.answer ts (.acquire taskId ownerId request leaseSeconds)
              = (result, h.db.resourceLeases) := by
            simp only [ResourceBroker.answer, mirror, hrefusal]
          rw [hanswer]
          exact exec_refused hrefusal
      | none =>
          obtain ⟨hids, hseconds, hbig⟩ := refusal_eq_none.mp hrefusal
          have hanswer : h.mirror.answer ts (.acquire taskId ownerId request leaseSeconds)
              = (.lease (h.mirror.grants taskId ownerId request leaseSeconds ts),
                ResourceBroker.keeping h.db.resourceLeases
                  (h.mirror.grants taskId ownerId request leaseSeconds ts)) := by
            simp only [ResourceBroker.answer, mirror, hrefusal]
          have hrun := acquireResourceLease_eq h.mirror rfl ts hrefusal hbindable
          rw [hanswer]
          refine exec_of_ok (s := { h.engine with
            clockReads := 1
            boundaries := 1
            db := { h.db with
              resourceLeases := ResourceBroker.keeping h.db.resourceLeases
                (h.mirror.grants taskId ownerId request leaseSeconds ts) } }) (map_eq_ok ?_)
          unfold acquireResources
          rw [if_neg hids, if_neg hseconds, if_neg hbig]
          simp only [bind_readClock, hbranch]
          exact store_timed hrun
  | renew lease leaseSeconds =>
      have hrun := renewResourceLease_eq h.mirror rfl ts hpositive (hknown lease rfl)
      refine exec_of_ok (s := { h.engine with
        clockReads := 1
        boundaries := 1
        db := { h.db with
          resourceLeases := ResourceBroker.keeping h.db.resourceLeases
            (h.mirror.renews lease leaseSeconds ts) } }) (map_eq_ok ?_)
      unfold renewResources
      simp only [bind_readClock, hbranch]
      exact store_timed hrun
  -- a lease is released by its identity, so nothing is asked of what it carries
  | release lease =>
      have hrun := releaseResourceLease_eq h.mirror rfl lease
      refine exec_of_ok (s := { h.engine with
        boundaries := 1
        db := { h.db with
          resourceLeases := ResourceBroker.keeping h.db.resourceLeases
            (h.mirror.releases lease) } }) (map_eq_ok ?_)
      unfold releaseResources
      simp only [hbranch]
      exact store_timed hrun
  | validate lease =>
      have hrun := validateResourceLease_eq h.mirror rfl ts (hknown lease rfl)
      show _ = h.stored ts (.answer _, _)
      rw [← hrun]
      refine exec_of_ok (s := { h.engine with clockReads := 1 }) (map_eq_ok ?_)
      unfold validateResources
      simp only [bind_readClock, hbranch]
      rfl

end BrokerHistory

end LiandanluNative
