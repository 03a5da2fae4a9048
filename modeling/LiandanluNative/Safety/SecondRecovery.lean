/-
# LiandanluNative.Safety.SecondRecovery — recovering what was recovered.

A process that comes up recovers before anything else, and may be ended while it does, or right
after: the next one recovers again.  Once a recovery has returned and left no operation unsettled,
there is nothing for the ones after it to do but to deliver events.  Each of them acts as a
`flush_outbox` (`recovery_idempotent`): no capability is asked, no task or operation changes, and
nothing is posted.

Two steps: a recovery that returned and left nothing unsettled leaves the engine at rest
(`atRest_of_recovered`), as each task was settled and settling keeps what is asked; and to an engine
at rest a recovery is a delivery (`Sys.AtRest.recover`), which leaves it at rest.
-/
import LiandanluNative.Safety.HaltedTasks
import LiandanluNative.Safety.IndependentRecovery

namespace LiandanluNative

open Lib (Table)
open Lib.Proc Lib.WriteThrough

/-! ## Nothing to recover

At rest both loops of `recover` find nothing to do, and what is left of it is the delivery.
-/

/-- What was asked of the task has taken effect, if it was to pause or to cancel. -/
def Task.Complied (t : Task) : Prop :=
  t.desiredState ∈ [.paused, .cancelled] → t.state = t.desiredState

/-- No operation is left unsettled and no request open, in memory or in the store. -/
structure Sys.AtRest (s : Sys) : Prop where
  operations : ∀ op ∈ s.operations.rows, op.state.unsettled = false
  dbOperations : ∀ row ∈ s.db.operations.rows, row.state.unsettled = false
  tasks : ∀ task ∈ s.tasks.rows, task.Complied
  dbTasks : ∀ row ∈ s.db.tasks.rows, row.Complied

section

variable {env : Env} {s t u : Sys}

/-- What returned goes on where it left. -/
theorem bind_of_returned {α β : Type} {m : M α} {f : α → M β} {a : α} (h : m s = .ok a t) :
    (m >>= f) s = f a t := by
  simp only [bind, EStateM.bind, h]

/-- A loop whose rounds all find nothing to do counts zero. Induction over its list. -/
theorem countM_idle {α : Type} {f : α → M Bool} :
    ∀ {xs : List α}, (∀ x ∈ xs, f x s = .ok false s) → countM f xs s = .ok 0 s
  | [], _ => rfl
  | x :: xs, h => by
      have hrest := countM_idle (fun y hy => h y (List.mem_cons_of_mem x hy))
      exact bind_eq_ok.mpr ⟨false, s, h x List.mem_cons_self, bind_eq_ok.mpr ⟨0, s, hrest, rfl⟩⟩

/-- An operation at rest is passed over: its state is looked up, and nothing else is done. -/
theorem recoverIfUnsettled_idle {op : Operation} (hop : op ∈ s.operations.rows)
    (hrest : op.state.unsettled = false) :
    recoverIfUnsettled env op.operationId s = .ok false s := by
  refine bind_eq_ok.mpr ⟨op, s, getOperation_eq_ok.mpr ⟨Table.get?_of_mem hop, rfl⟩, ?_⟩
  rw [if_neg (Bool.eq_false_iff.mp hrest)]
  rfl

/-- A task that has complied is looked at, and left as it is: settling it would assign the state it
has. -/
theorem settleIfRequested_idle {task : Task} (htask : task ∈ s.tasks.rows)
    (hcomplied : task.Complied) : settleIfRequested env task.taskId s = .ok false s := by
  have hlook : getTask task.taskId s = .ok task s :=
    getTask_eq_ok.mpr ⟨Table.get?_of_mem htask, rfl⟩
  refine bind_eq_ok.mpr ⟨task, s, hlook, ?_⟩
  split
  · rename_i hrequested
    have hsame : (task.settled true false).state = task.state := by
      have hstate := hcomplied hrequested
      rcases (by simpa using hrequested :
        task.desiredState = .paused ∨ task.desiredState = .cancelled) with h | h
      · simp [Task.settled, h, hstate]
      · simp [Task.settled, h, hstate]
    have hsettle : settleControl env task.taskId true false s = .ok () s := by
      refine bind_eq_ok.mpr ⟨task, s, hlook, ?_⟩
      rw [if_neg (not_not.mpr hsame)]
      rfl
    refine bind_eq_ok.mpr ⟨(), s, hsettle, bind_eq_ok.mpr ⟨task, s, hlook, ?_⟩⟩
    rw [decide_eq_false (not_not.mpr rfl)]
    rfl
  · rfl

/-- **A recovery with nothing to recover** delivers events. -/
theorem Sys.AtRest.recover (hs : s.AtRest) :
    recover env s = (flushOutbox env >>= fun _ => pure (0, 0)) s := by
  have hoperations : countM (recoverIfUnsettled env) (s.operations.rows.map Operation.operationId) s
      = .ok 0 s := by
    refine countM_idle (fun id hid => ?_)
    obtain ⟨op, hop, rfl⟩ := List.mem_map.mp hid
    exact recoverIfUnsettled_idle hop (hs.operations op hop)
  have htasks : countM (settleIfRequested env) (s.tasks.rows.map Task.taskId) s = .ok 0 s := by
    refine countM_idle (fun id hid => ?_)
    obtain ⟨task, htask, rfl⟩ := List.mem_map.mp hid
    exact settleIfRequested_idle htask (hs.tasks task htask)
  unfold LiandanluNative.recover
  rw [bind_of_returned (rfl : (get : M Sys) s = .ok s s), bind_of_returned hoperations,
    bind_of_returned (rfl : (get : M Sys) s = .ok s s), bind_of_returned htasks]

/-- Deliveries leave it at that. -/
theorem Sys.AtRest.aside (hs : s.AtRest) (h : Aside s t) : t.AtRest where
  operations := by
    rw [h.operations]
    exact hs.operations
  dbOperations := by
    rw [h.dbOperations]
    exact hs.dbOperations
  tasks := by
    rw [h.tasks]
    exact hs.tasks
  dbTasks := by
    rw [h.dbTasks]
    exact hs.dbTasks

/-- What is loaded from the store is at rest, as the rows are. -/
theorem Sys.AtRest.restart (hs : s.AtRest) (registry : CapabilityRegistry)
    (capabilities : List String) (broker : Option ResourceBroker) :
    (s.restart registry capabilities broker).AtRest :=
  ⟨hs.dbOperations, hs.dbOperations, hs.dbTasks, hs.dbTasks⟩

/-! ## After a recovery

The first loop leaves no operation unsettled, if that is what the recovery came to; the second
settles every task that was asked to pause or to be cancelled.
-/

/-- Operations and their rows still show the same, whatever was recovered. -/
theorem Synced.ends_recoverAll (env : Env) (ids : List String) (hs : Synced s) :
    Ends (fun _ t => Synced t) (fun _ _ => True) (countM (recoverIfUnsettled env) ids) s := by
  refine ends_countM (J := fun _ t => Synced t) ids s (fun id _ rest v hv => ?_) hs
  unfold recoverIfUnsettled
  refine Ends.bind (ends_getOperation (fun op hop => ?_) (fun _ => trivial))
  split
  · have hid : op.operationId = id := Table.key_of_get? hop
    subst hid
    have hrecover := (Synced.rules env).recoverOperation hv hop (fun _ => trivial)
    exact Ends.bind (hrecover.mono (fun _ t ht => Ends.pure ht.1) (fun _ _ _ => trivial))
  · exact Ends.pure hv

/-- The tasks are left alone. -/
def Allowance.untasked : Allowance := { Allowance.free with task := fun _ _ _ => False }

theorem Allowance.untasked_closed : Allowance.untasked.Closed where
  task := fun _ _ _ _ hno _ => hno
  operation := fun _ _ _ _ _ _ => trivial
  world := fun _ _ _ _ _ => trivial

/-- Tasks are asked for what they were asked for before: no assignment is to the desired state. -/
def Allowance.asking : Allowance :=
  { Allowance.free with
    task := fun _ m t => ∃ old, m = some old ∧ t.desiredState = old.desiredState }

theorem Allowance.asking_closed : Allowance.asking.Closed where
  task := by
    rintro _ m v w ⟨old, hold, hv⟩ ⟨mid, hmid, hw⟩
    cases hmid
    exact ⟨old, hold, hw.trans hv⟩
  operation := fun _ _ _ _ _ _ => trivial
  world := fun _ _ _ _ _ => trivial

theorem within_recoverAll {R : Sys → Sys → Prop} (hR : Frame R)
    (hrecover : ∀ id, Within R (recoverOperation env id)) (ids : List String) :
    Within R (countM (recoverIfUnsettled env) ids) := by
  refine countM_within hR (fun id => ?_) ids
  unfold recoverIfUnsettled
  refine hR.bind (within_getOperation hR id) (fun op => ?_)
  split
  · exact hR.bind (hrecover id) (fun _ => hR.pure _)
  · exact hR.pure _

theorem moves_asking_recover (env : Env) : Within (Moves .asking) (recover env) := by
  have hA := Allowance.asking_closed
  refine recover_within (Moves.frame hA)
    (fun _ => moves_recoverOperation hA env (fun _ _ _ => trivial) (fun _ _ => trivial))
    (fun id s => moves_settleControl hA env ?_ _ _ (fun task _ _ => ?_)) (moves_flushOutbox hA env)
  · exact ⟨fun t => ⟨t, rfl, rfl⟩, fun t => ⟨t, rfl, rfl⟩, fun _ => trivial⟩
  · exact ⟨task, rfl, (settled_desiredState task true false).2⟩

/-- **After a recovery** that returned and left no operation unsettled, everything is at rest. -/
theorem atRest_of_recovered {counts : ℕ × ℕ} (hpersistent : u.persistent = true)
    (hoperations : u.db.operations = u.operations) (htasks : u.db.tasks = u.tasks)
    (hrun : recover env u = .ok counts t)
    (hdone : ∀ op ∈ t.operations.rows, op.state.unsettled = false) : t.AtRest := by
  have hasking : Moves .asking u t := (moves_asking_recover env).of_ok hrun
  unfold recover at hrun
  obtain ⟨_, _, hget, hrun⟩ := bind_eq_ok.mp hrun
  cases hget
  obtain ⟨_, v, hloop, hrun⟩ := bind_eq_ok.mp hrun
  obtain ⟨_, _, hget, hrun⟩ := bind_eq_ok.mp hrun
  cases hget
  obtain ⟨_, w, hcontrols, hrun⟩ := bind_eq_ok.mp hrun
  obtain ⟨_, _, hflush, hrun⟩ := bind_eq_ok.mp hrun
  cases hrun
  -- the operations are those the first loop left
  have hsynced : Synced v :=
    (Synced.ends_recoverAll env _ ⟨hpersistent, fun _ => by rw [hoperations]⟩).returned hloop
  have huntasked : Moves .untasked u v :=
    (within_recoverAll (Moves.frame Allowance.untasked_closed)
      (fun _ => moves_recoverOperation Allowance.untasked_closed env (fun _ _ _ => trivial)
        (fun _ _ => trivial)) _).of_ok hloop
  have hstill : ∀ id, v.tasks.get? id = u.tasks.get? id ∧ v.db.tasks.get? id = u.db.tasks.get? id :=
    fun id => (huntasked.tasks id).still (fun _ hno => hno)
  have hsettling : Settling v [] w :=
    (ends_controls hsynced.persistent
      (fun id => by rw [(hstill id).1, (hstill id).2, htasks])).returned hcontrols
  have haside : Aside w t := (apart_flushOutbox.of_ok hflush : Apart w t).toAside
  -- every request a task carries was there before, and is settled
  have hcomplied : ∀ {id : String} {task : Task}, task.taskId = id →
      (∃ old, u.tasks.get? id = some old ∧ task.desiredState = old.desiredState) →
      (∀ state, w.TaskIs id state → task.state = state) → task.Complied := by
    rintro id task rfl ⟨old, hold, hsame⟩ his hrequested
    have hbefore : v.tasks.get? task.taskId = some old := (hstill _).1.trans hold
    have hid : old.taskId = task.taskId := Table.key_of_get? hbefore
    rw [hsame] at hrequested ⊢
    refine his _ ?_
    rw [← hid]
    exact hsettling.done old (Table.mem_of_get? hbefore) List.not_mem_nil hrequested
  refine ⟨hdone, fun row hrow => ?_, fun task htask => ?_, fun row hrow => ?_⟩
  · have hshown := hsynced.shown row.operationId
    have hrow := Table.get?_of_mem hrow
    rw [haside.dbOperations, hsettling.operations.2] at hrow
    rw [hrow, Option.map_some, Option.map_eq_some_iff] at hshown
    obtain ⟨op, hop, hsame⟩ := hshown
    rw [← hsettling.operations.1, ← haside.operations] at hop
    have hstate : op.state = row.state := congrArg Prod.fst hsame
    rw [← hstate]
    exact hdone op (Table.mem_of_get? hop)
  · have hget := Table.get?_of_mem htask
    refine hcomplied rfl ?_ (fun state his => ?_)
    · rcases (hasking.tasks task.taskId).memory with hsame | ⟨new, hnew, hasked⟩
      · exact ⟨task, hsame.symm.trans hget, rfl⟩
      · cases hnew.symm.trans hget
        exact hasked
    · have hstate := his.1
      rw [← haside.tasks, hget] at hstate
      exact Option.some.inj hstate
  · have hget := Table.get?_of_mem hrow
    refine hcomplied rfl ?_ (fun state his => ?_)
    · rcases (hasking.tasks row.taskId).durable with hsame | ⟨new, _, hnew, hasked, rfl⟩
      · refine ⟨row, ?_, rfl⟩
        rw [← htasks, ← hsame]
        exact hget
      · cases hnew.symm.trans hget
        exact hasked
    · have hstate := his.2
      rw [← haside.dbTasks, hget] at hstate
      exact Option.some.inj hstate

end

/-! ## Recovering again -/

/-- Restarts, recoveries and deliveries. -/
def Call.again : Call → Prop
  | .restart _ _ _ => True
  | .recover => True
  | .flushOutbox => True
  | _ => False

/-- The delivery in place of a recovery. -/
def Call.asFlush : Call → Call
  | .recover => .flushOutbox
  | call => call

/-- **One call.** A recovery of what is at rest is a delivery. -/
theorem Sys.AtRest.again (env : Env) {s : Sys} (hs : s.AtRest) {call : Call} (hcall : call.again) :
    call.exec env s = call.asFlush.exec env s ∧ (call.exec env s).AtRest ∧
      (call.exec env s).db.ledger = s.db.ledger ∧
      (call.exec env s).invocations = s.invocations := by
  have hflush : (Call.flushOutbox.exec env s).AtRest ∧
      (Call.flushOutbox.exec env s).db.ledger = s.db.ledger ∧
      (Call.flushOutbox.exec env s).invocations = s.invocations := by
    have haside : Aside s (Call.flushOutbox.exec env s) := (apart_flushOutbox s).toAside
    have hmoves : Moves .still s (Call.flushOutbox.exec env s) :=
      moves_flushOutbox Allowance.still_closed env s
    exact ⟨hs.aside haside, haside.ledger, hmoves.invocations_eq (fun _ hno => hno)⟩
  cases call with
  | restart registry capabilities broker =>
      exact ⟨rfl, hs.restart registry capabilities broker, rfl, rfl⟩
  | flushOutbox => exact ⟨rfl, hflush⟩
  | recover =>
      have hsame : Call.recover.exec env s = Call.flushOutbox.exec env s := by
        show after (LiandanluNative.recover env) s = after (LiandanluNative.flushOutbox env) s
        rw [after, hs.recover]
        exact after_bind_pure _ (fun _ => (0, 0)) s
      rw [hsame]
      exact ⟨rfl, hflush⟩
  | _ => exact hcall.elim

/-- **Recovery is idempotent.**  Take any store, and a process that recovers it: if `recover` returns
and leaves no operation unsettled, then over any restarts, recoveries and deliveries after it each
recovery is a delivery of events and nothing else.  No task or operation changes, no event is posted
and no capability is called. -/
theorem recovery_idempotent (env : Env) (s : Sys) (registry : CapabilityRegistry)
    (capabilities : List String) (broker : Option ResourceBroker) (counts : ℕ × ℕ) (t : Sys)
    (hrun : recover env (s.restart registry capabilities broker) = .ok counts t)
    (hdone : ∀ op ∈ t.operations.rows, op.state.unsettled = false)
    (later : List Call) (hlater : ∀ call ∈ later, call.again) :
    runCalls env t later = runCalls env t (later.map Call.asFlush) ∧
      (runCalls env t later).db.ledger = t.db.ledger ∧
      (runCalls env t later).invocations = t.invocations := by
  have ht : t.AtRest := atRest_of_recovered rfl rfl rfl hrun hdone
  clear hrun hdone
  induction later generalizing t with
  | nil => exact ⟨rfl, rfl, rfl⟩
  | cons call later ih =>
      obtain ⟨hsame, hrest, hledger, hinvocations⟩ := ht.again env (hlater call List.mem_cons_self)
      have hnext := ih _ (fun c hc => hlater c (List.mem_cons_of_mem call hc)) hrest
      show runCalls env (call.exec env t) later
        = runCalls env (call.asFlush.exec env t) (later.map Call.asFlush) ∧ _
      rw [← hsame]
      exact ⟨hnext.1, hnext.2.1.trans hledger, hnext.2.2.trans hinvocations⟩

/-- The process ended with an operation OBSERVED; the next one verifies it, and the one after that
finds nothing to do. -/
theorem recovery_idempotent_observed :
    let u := (runCalls observedEnv Small.start Small.oneStep).restart Small.start.registry ["editor"]
      none
    let t := after (recover observedEnv) u
    let later : List Call := [.restart .empty [] none, .recover, .recover]
    runCalls observedEnv t later = runCalls observedEnv t (later.map Call.asFlush) ∧
      (runCalls observedEnv t later).db.ledger = t.db.ledger ∧
      (runCalls observedEnv t later).invocations = t.invocations := by
  intro u t later
  have hreturns : returns (recover observedEnv) u = some (1, 0) := by decide +kernel
  obtain ⟨recovered, hrun⟩ := returns_eq_some.mp hreturns
  have hdone : ∀ op ∈ t.operations.rows, op.state.unsettled = false := by decide +kernel
  have ht : t = recovered := after_of_ok hrun
  rw [← ht] at hrun
  refine recovery_idempotent observedEnv (runCalls observedEnv Small.start Small.oneStep)
    Small.start.registry ["editor"] none (1, 0) t hrun hdone later ?_
  simp [later, Call.again]

end LiandanluNative
