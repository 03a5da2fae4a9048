/-
# LiandanluNative.Runtime.Survives — runs of a process that nothing ends.

Where no boundary ends the process, a method returns or raises.  The rules of `Upholds` say so: it
is the invariant that holds everywhere and of which a crash leaves nothing.

The lemmas follow the part of the source that a recovery runs: storing, the life of an operation,
settling a control, flushing.  They say nothing about what these methods do; whoever needs that has
it from `Runtime.Fates`, which asks for the results of a run and can leave its end to this module.
-/
import LiandanluNative.Runtime.Upkeep

namespace LiandanluNative

open Lib.Proc

/-- The process does not end in the method. -/
abbrev Survives {α : Type} (m : M α) : Prop := Upheld (fun _ => True) (fun _ => False) m

/-- The ends that are left are a value and an exception. -/
theorem Survives.not_crash {α : Type} {m : M α} (h : Survives m) {s t : Sys} :
    m s ≠ .error .crash t := fun hrun => (h s trivial).raised hrun

section

variable {env : Env} {α : Type} (hlives : ∀ n, env.dies n = false)
include hlives

/-! ## The primitives -/

/-- A transaction passes one boundary, once it has committed, and there nothing ends the process. -/
theorem survives_store (txn : Txn α) : Survives (store env txn) := by
  intro s _
  refine ⟨fun _ => trivial, fun {fault t} hrun => ?_⟩
  unfold store at hrun
  cases htxn : transaction txn s.db with
  | error e db =>
      rw [htxn] at hrun
      cases hrun
      exact spared_of (fun _ => trivial) (fun hcrash => by cases hcrash)
  | ok a db =>
      simp [htxn, boundary, hlives, bind, EStateM.bind, pure, EStateM.pure] at hrun

omit hlives in
/-- What passes no boundary cannot be ended at one. -/
theorem survives_newId (kind : String) : Survives (newId env kind) :=
  fun _ _ => Ends.of_ok rfl trivial

omit hlives in
theorem survives_readClock : Survives (readClock env) := fun _ _ => Ends.of_ok rfl trivial

omit hlives in
/-- A capability or a model may raise whatever it likes; that is an exception of the process, not
its end. -/
theorem survives_callOut (answer : ℕ → Except Exc α) : Survives (callOut answer) := by
  refine fun s _ => ends_callOut (fun _ _ => trivial) (fun e _ => ?_)
  exact spared_of (fun _ => trivial) (fun hcrash => by cases hcrash)

omit hlives in
theorem survives_modify (f : Sys → Sys) : Survives (modify f) :=
  Upholds.modifying (fun _ _ => trivial)

omit hlives in
/-- A `try` survives if its body and its handler do. -/
theorem survives_catching {catches : Exc → Bool} {body : M α} {handler : Exc → M α}
    (hbody : Survives body) (hhandler : ∀ e, Survives (handler e)) :
    Survives (catching catches body handler) :=
  fun s hs => ends_catching_left (hbody s hs) (fun e t ht => hhandler e t ht)

/-- With a store a transaction, without one nothing. -/
theorem survives_persisting (txn : Sys → Txn α) : Survives (persisting env txn) := by
  unfold persisting
  refine Upholds.bind Upholds.get (fun s => ?_)
  split
  · exact Upholds.bind (survives_store hlives _) (fun _ => Upholds.pure _)
  · exact Upholds.pure _

/-- An event is a row of the outbox, or an item of the list in memory. -/
theorem survives_enqueueOutbox (fields : EventFields) : Survives (enqueueOutbox env fields) := by
  unfold enqueueOutbox
  refine Upholds.bind Upholds.get (fun s => ?_)
  split
  · refine Upholds.bind (survives_newId _) (fun _ => Upholds.bind survives_readClock (fun _ => ?_))
    exact survives_store hlives _
  · refine Upholds.bind (survives_newId _) (fun _ => ?_)
    exact Upholds.bind (survives_modify _) (fun _ => Upholds.pure _)

/-! ## Operations

Verifying and reconciling call out in a `try` of their own; all else is assignments and
transactions.
-/

omit hlives in
/-- An operation that is not known is a `KeyError`. -/
theorem survives_updateOperation (operationId : String) (set : Operation → Operation) :
    Survives (updateOperation operationId set) := by
  unfold updateOperation
  exact Upholds.bind (upheld_getOperation _) (fun op => survives_modify _)

/-- **An operation is recorded** in one transaction with its event. -/
theorem survives_recordOp (operationId eventType actor : String) (payload : List (PyKey × PyVal)) :
    Survives (recordOp env operationId eventType actor payload) := by
  unfold recordOp
  refine Upholds.bind (upheld_getOperation _) (fun op => Upholds.bind Upholds.get (fun s => ?_))
  split
  · refine Upholds.bind (survives_newId _) (fun _ => Upholds.bind survives_readClock (fun _ => ?_))
    exact Upholds.bind (survives_store hlives _) (fun _ => Upholds.pure _)
  · exact Upholds.bind (survives_enqueueOutbox hlives _) (fun _ => Upholds.pure _)

/-- The pattern of `OperationRuntime`: assign, then record. -/
theorem survives_updateAndRecord (operationId eventType actor : String)
    (payload : List (PyKey × PyVal)) (set : Operation → Operation) :
    Survives (updateOperation operationId set >>= fun _ =>
      recordOp env operationId eventType actor payload) :=
  Upholds.bind (survives_updateOperation _ _) (fun _ => survives_recordOp hlives _ _ _ _)

/-- The branches of `_verify` once there is evidence; what is no list of dicts only raises. -/
theorem survives_judgeEvidence (operationId : String) (evidence : PyVal) :
    Survives (judgeEvidence env operationId evidence) := by
  unfold judgeEvidence
  split
  · exact upheld_raise _
  · have hverdict := survives_updateAndRecord hlives operationId
    refine Upholds.bind (survives_updateOperation _ _) (fun _ => ?_)
    split
    · refine Upholds.bind (upheld_liftExcept _) (fun passed => ?_)
      cases passed with
      | true => exact hverdict _ _ _ _
      | false => exact hverdict _ _ _ _
    · refine Upholds.bind (Upholds.pure false) (fun passed => ?_)
      cases passed with
      | true => exact hverdict _ _ _ _
      | false => exact hverdict _ _ _ _

/-- `_verify` calls out once, in a `try` of its own. -/
theorem survives_verifyOperation (operationId : String) :
    Survives (verifyOperation env operationId) := by
  have hrecord := survives_updateAndRecord hlives operationId
  unfold verifyOperation
  refine Upholds.bind (upheld_getOperation _) (fun op => ?_)
  split
  · exact hrecord _ _ _ _
  have hupdate := survives_updateOperation operationId
  have hsave : Survives (saveOp env operationId) :=
    Upholds.bind (upheld_getOperation _) (fun op => survives_persisting hlives _)
  refine Upholds.bind (hupdate _) (fun _ => Upholds.bind hsave (fun _ => Upholds.bind ?_ ?_))
  · refine survives_catching ?_ (fun e => ?_)
    · refine Upholds.bind (upheld_getOperation _) (fun op => Upholds.bind ?_ (fun _ => Upholds.pure _))
      unfold callVerify
      refine Upholds.bind (survives_callOut _) (fun evidence => ?_)
      exact Upholds.bind (survives_modify _) (fun _ => Upholds.pure _)
    · refine Upholds.bind (hupdate _) (fun _ => ?_)
      exact Upholds.bind (survives_recordOp hlives _ _ _ _) (fun _ => Upholds.pure _)
  · intro evidence
    split
    · exact Upholds.pure _
    · exact survives_judgeEvidence hlives _ _

/-- So does the reconciliation of an operation. -/
theorem survives_reconcileOperation (operationId : String) :
    Survives (reconcileOperation env operationId) := by
  have hupdate := survives_updateOperation operationId
  have hrecord := survives_recordOp hlives operationId
  unfold reconcileOperation
  refine Upholds.bind (hupdate _) (fun _ => Upholds.bind (hrecord _ _ _) (fun _ => ?_))
  refine Upholds.bind ?_ (fun answer => ?_)
  · refine survives_catching ?_ (fun e => ?_)
    · refine Upholds.bind (upheld_getOperation _) (fun op => Upholds.bind ?_ (fun _ => Upholds.pure _))
      unfold callReconcile
      refine Upholds.bind Upholds.get (fun s => Upholds.bind (upheld_liftExcept _) (fun _ => ?_))
      refine Upholds.bind (survives_callOut _) (fun answer => ?_)
      exact Upholds.bind (survives_modify _) (fun _ => Upholds.pure _)
    · refine Upholds.bind (hupdate _) (fun _ => ?_)
      exact Upholds.bind (hrecord _ _ _) (fun _ => Upholds.pure _)
  · split
    · exact Upholds.pure _
    · exact Upholds.bind (hupdate _) (fun _ => hrecord _ _ _)

/-- **An operation is recovered** by one of its branches, whichever its state asks for. -/
theorem survives_recoverOperation (operationId : String) :
    Survives (recoverOperation env operationId) := by
  unfold recoverOperation
  refine Upholds.bind (upheld_getOperation _) (fun op => ?_)
  split
  · exact survives_updateAndRecord hlives _ _ _ _ _
  refine Upholds.bind Upholds.get (fun s => ?_)
  split
  · exact upheld_raise _
  split
  · exact survives_verifyOperation hlives _
  split
  · exact survives_reconcileOperation hlives _
  · exact Upholds.pure _

/-! ## Tasks, and the whole recovery -/

/-- A control is settled by an assignment, a bump and a record. -/
theorem survives_settleControl (taskId : String) (safeBoundary externalCancelConfirmed : Bool) :
    Survives (settleControl env taskId safeBoundary externalCancelConfirmed) := by
  unfold settleControl
  refine Upholds.bind (upheld_getTask _) (fun task => ?_)
  dsimp only
  split
  swap
  · exact Upholds.pure _
  refine Upholds.bind (survives_modify _) (fun _ => Upholds.bind ?_ (fun _ => ?_))
  · unfold touchTask
    refine Upholds.bind (upheld_getTask _) (fun task => ?_)
    refine Upholds.bind (survives_modify _) (fun _ => Upholds.bind (survives_modify _) (fun _ => ?_))
    exact survives_persisting hlives _
  · unfold recordTask
    refine Upholds.bind (upheld_getTask _) (fun task => Upholds.bind Upholds.get (fun s => ?_))
    split
    · refine Upholds.bind (survives_newId _) (fun _ => ?_)
      refine Upholds.bind survives_readClock (fun _ => ?_)
      exact Upholds.bind (survives_store hlives _) (fun _ => Upholds.pure _)
    · exact Upholds.bind (survives_enqueueOutbox hlives _) (fun _ => Upholds.pure _)

/-- Flushing is one transaction, or a loop over the list in memory. -/
theorem survives_flushOutbox : Survives (flushOutbox env) := by
  have hemit : ∀ items, Survives (emitAll env items) := by
    intro items
    induction items with
    | nil => exact Upholds.pure _
    | cons item pending ih =>
        unfold emitAll
        refine Upholds.bind survives_readClock (fun _ => Upholds.bind (survives_newId _) (fun _ => ?_))
        refine Upholds.bind Upholds.get (fun s => Upholds.bind (survives_modify _) (fun _ => ?_))
        exact Upholds.bind ih (fun _ => Upholds.pure _)
  unfold flushOutbox dispatchOutbox
  refine Upholds.bind Upholds.get (fun s => ?_)
  split
  · refine Upholds.bind Upholds.get (fun s => Upholds.bind (survives_modify _) (fun _ => ?_))
    exact survives_store hlives _
  · exact Upholds.bind (survives_modify _) (fun _ => hemit _)

/-- **A process that no boundary ends is not ended by its recovery.** -/
theorem survives_recover : Survives (recover env) := by
  unfold recover
  refine Upholds.bind Upholds.get (fun s => ?_)
  refine Upholds.bind (upheld_countM (fun id => ?_) _) (fun _ => ?_)
  · unfold recoverIfUnsettled
    refine Upholds.bind (upheld_getOperation _) (fun op => ?_)
    split
    · exact Upholds.bind (survives_recoverOperation hlives _) (fun _ => Upholds.pure _)
    · exact Upholds.pure _
  refine Upholds.bind Upholds.get (fun s => ?_)
  refine Upholds.bind (upheld_countM (fun id => ?_) _) (fun _ => ?_)
  · unfold settleIfRequested
    refine Upholds.bind (upheld_getTask _) (fun task => ?_)
    split
    · refine Upholds.bind (survives_settleControl hlives _ _ _) (fun _ => ?_)
      exact Upholds.bind (upheld_getTask _) (fun _ => Upholds.pure _)
    · exact Upholds.pure _
  exact Upholds.bind (survives_flushOutbox hlives) (fun _ => Upholds.pure _)

end

end LiandanluNative
