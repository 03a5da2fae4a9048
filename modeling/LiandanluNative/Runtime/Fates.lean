/-
# LiandanluNative.Runtime.Fates — where `recover_operation` leaves an operation.

What becomes of an operation depends on its row, on the locators the world gives it, and on what its
capability answers.  `Operation.Recoverable` is what `recover_operation` needs of these to return,
and `Operation.fate` is the state and the result it returns with (`comesTo_recoverOperation`).

`ComesTo` says of a method both at once: that it returns exactly if a condition holds, and with what
outcome.  It is put together along the method.  Each part that may raise (the registry that may not
have the capability, the call that may fail, evidence that cannot be iterated or judged) adds its
condition, and each branch its outcome.  Fates are total functions of the data, so that a recovery
can be computed without running it, and compared with a second one.
-/
import LiandanluNative.Runtime.Encoding

namespace LiandanluNative

open Lib (Table)
open Lib.Proc

/-! ## What a recovery needs

A function of an operation and of the answers to come says where a recovery takes it (`outcome`),
and conditions on both say when the recovery gets there.
-/

/-- The answers of the capabilities depend on the arguments alone, and not on how often they were
asked: without it a second recovery could find anything. -/
structure Env.Steady (env : Env) : Prop where
  verify : ∀ m n op result, env.verify m op result = env.verify n op result
  reconcile : ∀ m n op locators, env.reconcile m op locators = env.reconcile n op locators

/-- What was returned can be used, and what was raised is caught.  An exception that is no
`Exception` (an interrupt, say) passes the handlers and ends the recovery. -/
def Usable {α : Type} (usable : α → Prop) : Except Exc α → Prop
  | .ok a => usable a
  | .error e => e.isException = true

/-- Evidence on which there is a verdict, and that can be stored, both in the row of the operation
and in the payload of its event. -/
def Judgeable (evidence : PyVal) : Prop :=
  ∃ items passed, evidence.iterate = some items ∧ verdict evidence items = .ok passed ∧
    PyVal.jsonDumpsList items ≠ none ∧ evidence.jsonDumps ≠ none

namespace Operation

/-- The operation while it waits for the verdict. -/
def waiting (op : Operation) : Operation := { op with state := .verifying }

/-- The operation while it is reconciled. -/
def pending (op : Operation) : Operation := { op with state := .reconciling }

/-- What `verify` answers. -/
def verifyAnswer (env : Env) (op : Operation) : Except Exc PyVal := env.verify 0 op op.result

/-- What becomes of the attempt to reconcile: the locators are resolved, and `reconcile` is asked. -/
def reconcileAnswer (env : Env) (world : WorldModel) (op : Operation) :
    Except Exc (PyVal × PyVal) := do
  let locators ← world.resolveLocators op.requiredPermission op.workspaceId op.objectRefs
  env.reconcile 0 op locators

/-- Both parts of the answer of `reconcile` can be stored: the result in the row, what is verified
in the payload. -/
def Storable (answer : PyVal × PyVal) : Prop :=
  answer.1.jsonDumps ≠ none ∧ answer.2.jsonDumps ≠ none

/-- **What `recover_operation` needs.** An operation that was prepared needs nothing, and one at rest
is not handed over.  Any other needs its capability; and where that is asked, an answer that can be
judged and stored, or an exception that is caught. -/
def Recoverable (env : Env) (world : WorldModel) (capabilities : List String) (op : Operation) :
    Prop :=
  (op.state ∈ [.observed, .verifying, .running, .unknown, .reconciling] →
    op.capability ∈ capabilities) ∧
  (op.state ∈ [.observed, .verifying] → op.result.isNone = false →
    Usable Judgeable (op.waiting.verifyAnswer env)) ∧
  (op.state ∈ [.running, .unknown, .reconciling] →
    Usable Storable (op.pending.reconcileAnswer env world))

/-- What is shown of an operation once it was recovered. -/
def outcome (op : Operation) : OperationState × PyVal := (op.state, op.result)

/-- The state after the verifier answered.  An exception leaves the operation VERIFYING, to be
verified again; without a verdict of yes it is FAILED. -/
def verifiedState : Except Exc PyVal → OperationState
  | .error _ => .verifying
  | .ok evidence =>
      if (evidence.iterate.map (verdict evidence)) = some (.ok true) then .verified else .failed

/-- The outcome after the attempt to reconcile.  An exception leaves the operation UNKNOWN with the
result it had. -/
def reconciledOutcome (op : Operation) : Except Exc (PyVal × PyVal) → OperationState × PyVal
  | .error _ => (.unknown, op.result)
  | .ok answer => (op.reconciled answer.1 answer.2).outcome

/-- The outcome of an operation that is recovered, by the branches of `recover_operation`: one that
was prepared is abandoned, one with a result is verified, one whose effect is in doubt is
reconciled, and what is left is passed over. -/
def fate (env : Env) (world : WorldModel) (op : Operation) : OperationState × PyVal :=
  if op.state = .prepared then
    (.cancelled, op.result)
  else if op.state ∈ [.observed, .verifying] ∧ op.result.isNone = false then
    (verifiedState (op.waiting.verifyAnswer env), op.result)
  else if op.state ∈ [.running, .unknown, .reconciling] then
    op.reconciledOutcome (op.pending.reconcileAnswer env world)
  else
    op.outcome

end Operation

/-- The outcome of an operation, in memory and in the store. -/
def Sys.outcome (s : Sys) (operationId : String) :
    Option (OperationState × PyVal) × Option (OperationState × PyVal) :=
  ((s.operations.get? operationId).map Operation.outcome,
    (s.db.operations.get? operationId).map Operation.outcome)

/-- An outcome in memory, and in the store, where the result is JSON: the store has it as JSON gives
it back. -/
def recordedOutcome (outcome : OperationState × PyVal) :
    Option (OperationState × PyVal) × Option (OperationState × PyVal) :=
  (some outcome, outcome.2.jsonDumps.map (fun result => (outcome.1, result)))

/-! ## Storing

What is so between two stores of the method (`Holding`), and how a store call goes: it returns just
where the assignment can be stored.
-/

/-- An array is JSON only if its parts are. -/
theorem jsonDumpsList_right {xs ys column : List PyVal}
    (h : PyVal.jsonDumpsList (xs ++ ys) = some column) : PyVal.jsonDumpsList ys ≠ none := by
  induction xs generalizing column with
  | nil =>
      intro hnone
      cases hnone.symm.trans h
  | cons x xs ih =>
      simp only [List.cons_append, PyVal.jsonDumpsList] at h
      split at h
      · rename_i y rest _ hrest
        exact ih hrest
      · cases h

/-- So is an object of one member. -/
theorem jsonDumpsItems_single {key : String} {value : PyVal} :
    PyVal.jsonDumpsItems (PyVal.payload [(key, value)]) ≠ none ↔ value.jsonDumps ≠ none := by
  cases hvalue : value.jsonDumps with
  | none => simp [PyVal.payload, PyVal.jsonDumpsItems, hvalue]
  | some column =>
      have hvalues : ∀ field ∈ [(key, value)], field.2.jsonDumps.isSome = true := by simp [hvalue]
      obtain ⟨items, hitems⟩ := PyVal.jsonDumpsItems_payload hvalues
      simp [hitems]

/-- An assignment that can be stored. -/
def Operation.Writable (op : Operation) : OpStore → Prop
  | .saved => op.encoded ≠ none
  | .recorded _ _ payload => op.encoded ≠ none ∧ PyVal.jsonDumpsItems payload ≠ none

/-- The engine holds the operation, over that world, and has a store: what is so at every line of
the method between two of its stores. -/
structure Holding (world : WorldModel) (op : Operation) (s : Sys) : Prop where
  persistent : s.persistent = true
  world : s.world = world
  found : s.operations.get? op.operationId = some op

/-- The run returns just where `P` holds, and leaves the operation at the outcome.  Where it raises,
`P` does not hold; where the process ends nothing is said. -/
def ComesTo (operationId : String) (P : Prop) (outcome : OperationState × PyVal) (m : M Unit)
    (s : Sys) : Prop :=
  Ends (fun _ t => P ∧ t.outcome operationId = recordedOutcome outcome)
    (fun fault _ => ∀ e, fault = .raised e → ¬ P) m s

section

variable {env : Env} {world : WorldModel} {op op' : Operation} {s : Sys} {operationId : String}
  {P P' : Prop} {outcome : OperationState × PyVal} {m : M Unit}

/-- A condition may be put in other words. -/
theorem ComesTo.congr (h : ComesTo operationId P outcome m s) (hP : P ↔ P') :
    ComesTo operationId P' outcome m s := by
  rwa [propext hP] at h

/-- What is stored of an operation shows its outcome. -/
theorem outcome_put {row : Operation} (hencoded : op.encoded = some row) (db : Database) :
    ((db.operations.put (db.operationRow row)).get? op.operationId).map Operation.outcome
      = op.result.jsonDumps.map (fun result => (op.state, result)) := by
  obtain ⟨_, _, result, _, _, hresult, hrow⟩ := Operation.encoded_eq hencoded
  have hid : (db.operationRow row).operationId = op.operationId := by
    rw [Database.operationRow_operationId, hrow]
  have hshown : (db.operationRow row).outcome = (op.state, result) := by
    unfold Database.operationRow
    split <;> rw [hrow] <;> rfl
  rw [Table.get?_put, if_pos hid, hresult, Option.map_some, hshown, Option.map_some]

/-- **A store call** returns just where the assignment can be stored. -/
theorem Holding.ends_stored (h : Holding world op s) (hid : op'.operationId = op.operationId)
    (how : OpStore) :
    Ends (fun _ t => op'.Writable how ∧ Holding world op' t ∧
        t.outcome op.operationId = recordedOutcome op'.outcome)
      (fun fault _ => ∀ e, fault = .raised e → ¬ op'.Writable how)
      (storeOp env op.operationId how) (s.assigned op') := by
  rw [← hid]
  have hget := s.get?_assigned op'
  have hstill : (s.assigned op').persistent = true := h.persistent
  have hshown : ∀ row, op'.encoded = some row →
      (((s.assigned op').operations.get? op'.operationId).map Operation.outcome,
        ((s.db.operations.put (s.db.operationRow row)).get? op'.operationId).map Operation.outcome)
      = recordedOutcome op'.outcome := by
    intro row hencoded
    rw [hget, outcome_put hencoded]
    rfl
  cases how with
  | saved =>
      refine ends_saveOp hstill hget (fun hnone => ?_) (fun row hencoded => ⟨?_, ?_⟩)
      · exact fun _ _ _ hwritable => hwritable hnone
      · refine ⟨fun hnone => ?_, ⟨h.persistent, h.world, hget⟩, hshown row hencoded⟩
        cases hnone.symm.trans hencoded
      · exact fun e hraised => by cases hraised
  | recorded eventType actor payload =>
      refine ends_recordOp hstill hget (fun hnone => ?_) (fun row _ _ hencoded _ hpayload => ⟨?_, ?_⟩)
      · exact fun _ _ _ hwritable => hnone.elim hwritable.1 hwritable.2
      · refine ⟨⟨fun hnone => ?_, fun hnone => ?_⟩, ⟨h.persistent, h.world, hget⟩,
          hshown row hencoded⟩
        · cases hnone.symm.trans hencoded
        · cases hnone.symm.trans hpayload
      · exact fun e hraised => by cases hraised

/-- A last assignment and its store. -/
theorem Holding.comesTo (h : Holding world op s) (env : Env) (set : Operation → Operation)
    (hid : (set op).operationId = op.operationId) (eventType actor : String)
    (payload : List (PyKey × PyVal)) :
    ComesTo op.operationId ((set op).Writable (.recorded eventType actor payload)) (set op).outcome
      (updateOperation op.operationId set >>= fun _ =>
        recordOp env op.operationId eventType actor payload) s := by
  refine Ends.bind (ends_updateOperation h.found ?_)
  refine (h.ends_stored hid (.recorded eventType actor payload)).mono (fun _ t ht => ?_)
    (fun _ _ ht => ht)
  exact ⟨ht.1, ht.2.2⟩

/-! ## Verifying

The capability is asked to verify, and the verdict is stored.
-/

/-- The verdict can be stored just where the evidence can: the other columns of the operation were
stored before. -/
theorem judgeable_iff (hencodable : op.Encodable) {evidence : PyVal} {items : List PyVal}
    {passed : Bool} (hitems : evidence.iterate = some items)
    (hverdict : verdict evidence items = .ok passed) (eventType actor : String) :
    Judgeable evidence ↔ (op.judged items passed).Writable
      (.recorded eventType actor (PyVal.payload [("evidence", evidence)])) := by
  constructor
  · rintro ⟨items', passed', hitems', _, hjson, hdumps⟩
    cases hitems'.symm.trans hitems
    obtain ⟨before, hbefore⟩ := hencodable.evidence
    obtain ⟨column, hcolumn⟩ := Option.ne_none_iff_exists'.mp hjson
    have hjudged : (op.judged items passed).Encodable :=
      ⟨hencodable.arguments, ⟨_, PyVal.jsonDumpsList_append hbefore hcolumn⟩, hencodable.result⟩
    exact ⟨hjudged.encoded, jsonDumpsItems_single.mpr hdumps⟩
  · rintro ⟨hjudged, hpayload⟩
    obtain ⟨row, hrow⟩ := Option.ne_none_iff_exists'.mp hjudged
    obtain ⟨column, hcolumn⟩ := (Operation.Encodable.of_encoded hrow).evidence
    exact ⟨items, passed, hitems, hverdict, jsonDumpsList_right hcolumn,
      jsonDumpsItems_single.mp hpayload⟩

/-- Evidence that can be judged decides the state: the goal is met, or it is not. -/
theorem verifiedState_of_verdict {evidence : PyVal} {items : List PyVal} {passed : Bool}
    (hitems : evidence.iterate = some items) (hverdict : verdict evidence items = .ok passed) :
    Operation.verifiedState (.ok evidence) = if passed then .verified else .failed := by
  cases passed <;> simp [Operation.verifiedState, hitems, hverdict]

/-- The evidence is judged: the verdict decides the state, and is stored with the evidence. -/
theorem Holding.judges (h : Holding world op s) (hencodable : op.Encodable) (evidence : PyVal) :
    ComesTo op.operationId (Judgeable evidence) (Operation.verifiedState (.ok evidence), op.result)
      (judgeEvidence env op.operationId evidence) s := by
  unfold judgeEvidence
  cases hitems : evidence.iterate with
  | none =>
      refine Ends.throw ?_
      rintro _ _ ⟨items, _, hsome, _⟩
      cases hitems.symm.trans hsome
  | some items =>
      refine Ends.bind (ends_updateOperation h.found ?_)
      have hheld : Holding world (op.extended items) (s.assigned (op.extended items)) :=
        ⟨h.persistent, h.world, s.get?_assigned _⟩
      -- the two ends of a verdict
      have hstore : ∀ passed, verdict evidence items = .ok passed →
          ComesTo op.operationId (Judgeable evidence)
            (Operation.verifiedState (.ok evidence), op.result)
            (if passed then do
              updateOperation op.operationId (fun op => { op with state := .verified })
              recordOp env op.operationId "operation.verified" "verifier"
                (PyVal.payload [("evidence", evidence)])
            else do
              updateOperation op.operationId (fun op => { op with state := .failed })
              recordOp env op.operationId "operation.verification_failed" "verifier"
                (PyVal.payload [("evidence", evidence)]) : M Unit)
            (s.assigned (op.extended items)) := by
        intro passed hverdict
        rw [verifiedState_of_verdict hitems hverdict]
        have hiff := judgeable_iff hencodable hitems hverdict
        cases passed with
        | true =>
            have hstored := hheld.comesTo env (fun op => { op with state := .verified }) rfl
              "operation.verified" "verifier" (PyVal.payload [("evidence", evidence)])
            exact hstored.congr (hiff _ _).symm
        | false =>
            have hstored := hheld.comesTo env (fun op => { op with state := .failed }) rfl
              "operation.verification_failed" "verifier" (PyVal.payload [("evidence", evidence)])
            exact hstored.congr (hiff _ _).symm
      have hraises : ∀ e, verdict evidence items = .error e → ¬ Judgeable evidence := by
        rintro e herror ⟨items', passed, hitems', hpassed, _⟩
        cases hitems'.symm.trans hitems
        cases herror.symm.trans hpassed
      unfold verdict at hstore hraises
      cases htruthy : evidence.truthy with
      | true =>
          simp only [htruthy, if_true] at hstore hraises
          exact Ends.bind (ends_liftExcept hstore (fun e herror _ _ => hraises e herror))
      | false =>
          simp only [htruthy, Bool.false_eq_true, if_false] at hstore
          exact Ends.bind (Ends.pure (hstore false rfl))

/-- The verifier is asked: the operation waits for the verdict, or what was raised is recorded. -/
theorem Holding.asksVerify (hsteady : env.Steady) (h : Holding world op s)
    (hencodable : op.Encodable) :
    Ends (fun answer t => answer.elim
        ((∃ e, op.verifyAnswer env = .error e ∧ e.isException = true) ∧
          t.outcome op.operationId = recordedOutcome op.outcome)
        (fun evidence => op.verifyAnswer env = .ok evidence ∧ Holding world op t))
      (fun fault _ => ∀ e, fault = .raised e → ¬ Usable Judgeable (op.verifyAnswer env))
      (catching Exc.isException
        (do
          let op ← getOperation op.operationId
          let evidence ← callVerify env op
          return some evidence)
        (fun e => do
          updateOperation op.operationId (fun op => { op with error := some e.repr })
          recordOp env op.operationId "operation.verify_error" "verifier"
            (PyVal.payload [("error", .str e.repr)])
          return none)) s := by
  refine ends_catching (Ends.bind (Ends.of_ok (getOperation_eq_ok.mpr ⟨h.found, rfl⟩) ?_))
  unfold callVerify
  refine Ends.bind (Ends.bind (ends_callOut (fun evidence hanswer => ?_) (fun e hanswer => ?_)))
  -- a steady capability answers as it does at any other call
  · rw [hsteady.verify _ 0] at hanswer
    refine Ends.bind (Ends.modifying (Ends.pure (Ends.pure ⟨hanswer, ?_⟩)))
    exact ⟨h.persistent, h.world, h.found⟩
  · rw [hsteady.verify _ 0] at hanswer
    refine ⟨fun e' he' hcaught => ?_, fun hpass e' _ husable => ?_⟩
    · cases he'
      have hcalled : Holding world op { s with calls := s.calls + 1 } :=
        ⟨h.persistent, h.world, h.found⟩
      -- the error is a text, so it can be recorded
      have hwritable : ({ op with error := some e.repr } : Operation).Writable
          (.recorded "operation.verify_error" "verifier" (PyVal.payload [("error", .str e.repr)])) := by
        refine ⟨Operation.Encodable.encoded ⟨hencodable.1, hencodable.2, hencodable.3⟩, ?_⟩
        exact jsonDumpsItems_single.mpr (by simp [PyVal.jsonDumps])
      have hrecorded := hcalled.comesTo env (fun op => { op with error := some e.repr }) rfl
        "operation.verify_error" "verifier" (PyVal.payload [("error", .str e.repr)])
      rw [← bind_assoc]
      refine Ends.bind (hrecorded.mono (fun _ t ht => ?_) (fun fault _ hraised => ?_))
      · exact Ends.pure ⟨⟨e, hanswer, hcaught⟩, ht.2⟩
      · exact fun e he => absurd hwritable (hraised e he)
    · rw [Operation.verifyAnswer, hanswer] at husable
      cases (hpass e rfl).symm.trans husable

/-- **Verifying** comes to what the verifier answers, just where its answer can be used. -/
theorem Holding.verifies (hsteady : env.Steady) (h : Holding world op s)
    (hencodable : op.Encodable) (hsome : op.result.isNone = false) :
    ComesTo op.operationId (Usable Judgeable (op.waiting.verifyAnswer env))
      (Operation.verifiedState (op.waiting.verifyAnswer env), op.result)
      (verifyOperation env op.operationId) s := by
  have hwaiting : op.waiting.Encodable := ⟨hencodable.1, hencodable.2, hencodable.3⟩
  have hid : op.waiting.operationId = op.operationId := rfl
  unfold verifyOperation
  refine Ends.bind (Ends.of_ok (getOperation_eq_ok.mpr ⟨h.found, rfl⟩) ?_)
  rw [if_neg (by rw [hsome]; exact Bool.false_ne_true)]
  refine Ends.bind (ends_updateOperation h.found ?_)
  refine Ends.bind ((h.ends_stored hid .saved).mono (fun _ t ht => ?_) (fun _ _ hraised => ?_))
  swap
  · exact fun e he => absurd hwaiting.encoded (hraised e he)
  refine Ends.bind ((ht.2.1.asksVerify hsteady hwaiting).mono (fun answer u hu => ?_)
    (fun _ _ hraised => hraised))
  cases answer with
  | none =>
      obtain ⟨⟨e, hanswer, hcaught⟩, houtcome⟩ := hu
      rw [hanswer]
      exact Ends.pure ⟨hcaught, houtcome⟩
  | some evidence =>
      obtain ⟨hanswer, hheld⟩ := hu
      rw [hanswer]
      exact hheld.judges hwaiting evidence

/-! ## Reconciling

The capability is asked what became of the effect, and the answer is stored; where it says that the
effect took place, the operation is verified with it.
-/

/-- The outcome of an attempt can be stored just where its answer can. -/
theorem storable_iff (hencodable : op.Encodable) {answer : PyVal × PyVal} (eventType actor : String) :
    Operation.Storable answer ↔ (op.reconciled answer.1 answer.2).Writable
      (.recorded eventType actor (PyVal.payload [("verified", answer.1)])) := by
  constructor
  · rintro ⟨hverified, hresult⟩
    obtain ⟨column, hcolumn⟩ := Option.ne_none_iff_exists'.mp hresult
    have hreconciled : (op.reconciled answer.1 answer.2).Encodable :=
      ⟨hencodable.arguments, hencodable.evidence, ⟨column, hcolumn⟩⟩
    exact ⟨hreconciled.encoded, jsonDumpsItems_single.mpr hverified⟩
  · rintro ⟨hreconciled, hpayload⟩
    obtain ⟨row, hrow⟩ := Option.ne_none_iff_exists'.mp hreconciled
    obtain ⟨column, hcolumn⟩ := (Operation.Encodable.of_encoded hrow).result
    have hresult : answer.2.jsonDumps = some column := hcolumn
    refine ⟨jsonDumpsItems_single.mp hpayload, fun hnone => ?_⟩
    cases hnone.symm.trans hresult

/-- What was raised in the attempt to reconcile is recorded. -/
theorem Holding.unreconciled (h : Holding world op s) (hencodable : op.Encodable) (e : Exc) :
    Ends (fun (answer : Option (PyVal × PyVal)) t => answer = none ∧
        t.outcome op.operationId = recordedOutcome (op.reconciledOutcome (.error e)))
      (fun fault _ => ∀ e, fault ≠ .raised e)
      (do
        updateOperation op.operationId
          (fun op => { op with state := .unknown, error := some e.repr })
        recordOp env op.operationId "operation.reconcile_error" "recovery"
          (PyVal.payload [("error", .str e.repr)])
        return none) s := by
  have hwritable : ({ op with state := .unknown, error := some e.repr } : Operation).Writable
      (.recorded "operation.reconcile_error" "recovery"
        (PyVal.payload [("error", .str e.repr)])) := by
    refine ⟨Operation.Encodable.encoded ⟨hencodable.1, hencodable.2, hencodable.3⟩, ?_⟩
    exact jsonDumpsItems_single.mpr (by simp [PyVal.jsonDumps])
  have hrecorded := h.comesTo env (fun op => { op with state := .unknown, error := some e.repr }) rfl
    "operation.reconcile_error" "recovery" (PyVal.payload [("error", .str e.repr)])
  rw [← bind_assoc]
  refine Ends.bind (hrecorded.mono (fun _ t ht => Ends.pure ⟨rfl, ht.2⟩) (fun _ _ hraised => ?_))
  exact fun e he => absurd hwritable (hraised e he)

/-- After the attempt the answer is at hand, or what was raised is recorded. -/
def Attempted (env : Env) (world : WorldModel) (op : Operation) (answer : Option (PyVal × PyVal))
    (t : Sys) : Prop :=
  answer.elim
    (∃ e, op.reconcileAnswer env world = .error e ∧ e.isException = true ∧
      t.outcome op.operationId = recordedOutcome (op.reconciledOutcome (.error e)))
    (fun answer => op.reconcileAnswer env world = .ok answer ∧ Holding world op t)

/-- The capability is asked, after the locators were resolved under the same `try`. -/
theorem Holding.asksReconcile (hsteady : env.Steady) (h : Holding world op s)
    (hencodable : op.Encodable) :
    Ends (Attempted env world op)
      (fun fault _ => ∀ e, fault = .raised e →
        ¬ Usable Operation.Storable (op.reconcileAnswer env world))
      (catching Exc.isException
        (do
          let op ← getOperation op.operationId
          let answer ← callReconcile env op
          return some answer)
        (fun e => do
          updateOperation op.operationId
            (fun op => { op with state := .unknown, error := some e.repr })
          recordOp env op.operationId "operation.reconcile_error" "recovery"
            (PyVal.payload [("error", .str e.repr)])
          return none)) s := by
  have hcaught : ∀ e t, op.reconcileAnswer env world = .error e → Holding world op t →
      e.isException = true → Ends (Attempted env world op)
        (fun fault _ => ∀ e, fault = .raised e →
          ¬ Usable Operation.Storable (op.reconcileAnswer env world))
        (do
          updateOperation op.operationId
            (fun op => { op with state := .unknown, error := some e.repr })
          recordOp env op.operationId "operation.reconcile_error" "recovery"
            (PyVal.payload [("error", .str e.repr)])
          return none) t := by
    intro e t hanswer ht hcaught
    refine (ht.unreconciled hencodable e).mono (fun answer u hu => ?_)
      (fun _ _ hnever e he => absurd he (hnever e))
    obtain ⟨rfl, houtcome⟩ := hu
    exact ⟨e, hanswer, hcaught, houtcome⟩
  have hpassed : ∀ e, op.reconcileAnswer env world = .error e → e.isException = false →
      ¬ Usable Operation.Storable (op.reconcileAnswer env world) := by
    intro e hanswer hpass husable
    rw [hanswer] at husable
    cases hpass.symm.trans husable
  refine ends_catching (Ends.bind (Ends.of_ok (getOperation_eq_ok.mpr ⟨h.found, rfl⟩) ?_))
  unfold callReconcile
  refine Ends.bind (Ends.bind (Ends.get (Ends.bind ?_)))
  rw [h.world]
  -- whether the world raises, or the capability
  refine ends_liftExcept (fun locators hlocators => ?_) (fun e hlocators => ?_)
  · have hasked : op.reconcileAnswer env world = env.reconcile 0 op locators := by
      simp only [Operation.reconcileAnswer, hlocators, bind, Except.bind]
    refine Ends.bind (ends_callOut (fun answer hanswer => ?_) (fun e hanswer => ?_))
    · rw [hsteady.reconcile _ 0, ← hasked] at hanswer
      refine Ends.bind (Ends.modifying (Ends.pure (Ends.pure ⟨hanswer, ?_⟩)))
      exact ⟨h.persistent, h.world, h.found⟩
    · rw [hsteady.reconcile _ 0, ← hasked] at hanswer
      refine ⟨fun e' he' => ?_, fun hpass _ _ => hpassed e hanswer (hpass e rfl)⟩
      cases he'
      exact hcaught e _ hanswer ⟨h.persistent, h.world, h.found⟩
  · have hanswer : op.reconcileAnswer env world = .error e := by
      simp only [Operation.reconcileAnswer, hlocators, bind, Except.bind]
    refine ⟨fun e' he' => ?_, fun hpass _ _ => hpassed e hanswer (hpass e rfl)⟩
    cases he'
    exact hcaught e s hanswer h

/-- **Reconciling** comes to what the capability answers, just where its answer can be used.  That
includes locators that cannot be resolved: the exception is caught there, too. -/
theorem Holding.reconciles (hsteady : env.Steady) (h : Holding world op s)
    (hencodable : op.Encodable) :
    ComesTo op.operationId (Usable Operation.Storable (op.pending.reconcileAnswer env world))
      (op.reconciledOutcome (op.pending.reconcileAnswer env world))
      (reconcileOperation env op.operationId) s := by
  have hpending : op.pending.Encodable := ⟨hencodable.1, hencodable.2, hencodable.3⟩
  have hid : op.pending.operationId = op.operationId := rfl
  have hwritable : op.pending.Writable (.recorded "operation.reconciling" "recovery" []) :=
    ⟨hpending.encoded, by simp [PyVal.jsonDumpsItems]⟩
  unfold reconcileOperation
  refine Ends.bind (ends_updateOperation h.found ?_)
  refine Ends.bind ((h.ends_stored hid (.recorded "operation.reconciling" "recovery" [])).mono
    (fun _ t ht => ?_) (fun _ _ hraised e he => absurd hwritable (hraised e he)))
  refine Ends.bind ((ht.2.1.asksReconcile hsteady hpending).mono (fun answer u hu => ?_)
    (fun _ _ hraised => hraised))
  cases answer with
  | none =>
      obtain ⟨e, hanswer, hcaught, houtcome⟩ := hu
      rw [hanswer]
      exact Ends.pure ⟨hcaught, houtcome⟩
  | some answer =>
      obtain ⟨hanswer, hheld⟩ := hu
      rw [hanswer]
      have hstored := hheld.comesTo env
        (fun op =>
          { op with
            result := answer.2
            state := if answer.1.truthy then .verified else .failed })
        rfl "operation.reconciled" "recovery" (PyVal.payload [("verified", answer.1)])
      exact hstored.congr (storable_iff hpending _ _).symm

/-! ## Recovering -/

/-- **`recover_operation` returns just where the operation is recoverable**, and leaves it, in memory
and in the store, to its fate. -/
theorem comesTo_recoverOperation (hsteady : env.Steady) (h : Holding world op s)
    (hrow : s.db.operations.get? op.operationId = some op) (hencoded : op.encoded = some op)
    (hunsettled : op.state.unsettled = true) :
    ComesTo op.operationId (op.Recoverable env world s.capabilities) (op.fate env world)
      (recoverOperation env op.operationId) s := by
  have hencodable := Operation.Encodable.of_encoded hencoded
  unfold recoverOperation
  refine Ends.bind (Ends.of_ok (getOperation_eq_ok.mpr ⟨h.found, rfl⟩) ?_)
  by_cases hprepared : op.state = .prepared
  -- nothing was executed: the operation is abandoned, and needs no capability for it
  · rw [if_pos hprepared]
    have hwritable : ({ op with state := .cancelled } : Operation).Writable
        (.recorded "operation.abandoned_prepared" "recovery" (PyVal.payload
          [("reason", .str "no external execution was recorded before restart")])) := by
      refine ⟨Operation.Encodable.encoded ⟨hencodable.1, hencodable.2, hencodable.3⟩, ?_⟩
      exact jsonDumpsItems_single.mpr (by simp [PyVal.jsonDumps])
    have hrecoverable : op.Recoverable env world s.capabilities := by
      simp [Operation.Recoverable, hprepared]
    have hfate : op.fate env world = (.cancelled, op.result) := if_pos hprepared
    rw [hfate]
    have hstored := h.comesTo env (fun op => { op with state := .cancelled }) rfl
      "operation.abandoned_prepared" "recovery"
      (PyVal.payload [("reason", .str "no external execution was recorded before restart")])
    exact hstored.congr (iff_of_true hwritable hrecoverable)
  rw [if_neg hprepared]
  refine Ends.bind (Ends.get ?_)
  have hasked : op.state ∈ [.observed, .verifying, .running, .unknown, .reconciling] := by
    cases hstate : op.state <;> simp_all [OperationState.unsettled]
  by_cases hcapability : op.capability ∈ s.capabilities
  swap
  -- a capability that is not registered is a KeyError, and the condition asks for it
  · rw [if_pos hcapability]
    exact Ends.throw (fun _ _ hrecoverable => hcapability (hrecoverable.1 hasked))
  rw [if_neg (not_not_intro hcapability)]
  by_cases hready : op.state ∈ [.observed, .verifying] ∧ op.result.isNone = false
  -- it was executed and has a result, which is verified
  · rw [if_pos hready]
    have hrest : op.state ∉ [.running, .unknown, .reconciling] := by
      rcases (by simpa using hready.1 : op.state = .observed ∨ op.state = .verifying) with h | h <;>
        simp [h]
    have hfate : op.fate env world
        = (Operation.verifiedState (op.waiting.verifyAnswer env), op.result) := by
      rw [Operation.fate, if_neg hprepared, if_pos hready]
    rw [hfate]
    refine (h.verifies hsteady hencodable hready.2).congr ⟨fun husable => ?_, fun h => ?_⟩
    · exact ⟨fun _ => hcapability, fun _ _ => husable, fun hin => absurd hin hrest⟩
    · exact h.2.1 hready.1 hready.2
  rw [if_neg hready]
  by_cases hopen : op.state ∈ [.running, .unknown, .reconciling]
  -- whether it was executed is not known, and the capability is asked
  · rw [if_pos hopen]
    have hfate : op.fate env world
        = op.reconciledOutcome (op.pending.reconcileAnswer env world) := by
      rw [Operation.fate, if_neg hprepared, if_neg hready, if_pos hopen]
    rw [hfate]
    refine (h.reconciles hsteady hencodable).congr ⟨fun husable => ?_, fun h => h.2.2 hopen⟩
    exact ⟨fun _ => hcapability, fun hin hsome => absurd ⟨hin, hsome⟩ hready, fun _ => husable⟩
  · -- an operation without a result is passed over
    rw [if_neg hopen]
    have hfate : op.fate env world = op.outcome := by
      rw [Operation.fate, if_neg hprepared, if_neg hready, if_neg hopen]
    have hresult : op.result.jsonDumps = some op.result := (Operation.Exact.of_encoded hencoded).result
    refine Ends.pure ⟨⟨fun _ => hcapability, ?_, fun hin => absurd hin hopen⟩, ?_⟩
    · exact fun hin hsome => absurd ⟨hin, hsome⟩ hready
    · rw [hfate, Sys.outcome, h.found, hrow, recordedOutcome]
      simp [Operation.outcome, hresult]

end

end LiandanluNative
