/-
# LiandanluNative.Runtime.OperationSteps — the life of an operation, transition by transition.

`Operation.Step` is the table of everything `execute` (past its start) and `recover_operation`
assign to an operation: from which state, on which answer of the capability, and how the assignment
is stored.  `OperationRules` is what an invariant has to say about one such assignment; the methods
are walked once, and keep every invariant that obeys the rules.

The table has one line for each assignment in the source, with the state it is made in as its
hypothesis, so that an invariant that holds along the table holds along the code.  Two faults of
`verify_operation` are no transitions and have rules of their own: evidence that is no iterable, and
evidence with an item that has no `get`, which is added to the operation before its verdict fails.
-/
import LiandanluNative.Runtime.Commits
import LiandanluNative.Runtime.ExecutionMoves

namespace LiandanluNative

open Lib (Table)
open Lib.Proc

/-! ## The transitions

What a method may make of an operation, one transition at a time, with the event that is recorded
for each.
-/

/-- How an assignment to an operation is stored: saved, or recorded with an event in the same
transaction.  Which of the two it is decides whether the change is audited. -/
inductive OpStore where
  | saved
  | recorded (eventType actor : String) (payload : List (PyKey × PyVal))

/-- The store call of an assignment. -/
def storeOp (env : Env) (operationId : String) : OpStore → M Unit
  | .saved => saveOp env operationId
  | .recorded eventType actor payload => recordOp env operationId eventType actor payload

/-- `evidence and all(item.get("status") == "pass" for item in evidence)`, of evidence that iterates
over `items`.  Evidence that is false itself (an empty list) proves nothing. -/
def verdict (evidence : PyVal) (items : List PyVal) : Except Exc Bool :=
  if evidence.truthy then allPass items else .ok false

namespace Operation

/-- The operation with the evidence added to it. -/
def extended (op : Operation) (items : List PyVal) : Operation :=
  { op with evidence := op.evidence ++ items }

/-- The operation once its evidence was judged: it has kept all of it, whatever the verdict, and is
VERIFIED or FAILED by it. -/
def judged (op : Operation) (items : List PyVal) (passed : Bool) : Operation :=
  { op.extended items with state := if passed then .verified else .failed }

/-- The operation once it was reconciled: the capability's answer is its result, and what it says
about the effect decides between VERIFIED and FAILED. -/
def reconciled (op : Operation) (verified result : PyVal) : Operation :=
  { op with result := result, state := if verified.truthy then .verified else .failed }

/-- The payload of an event about an exception. -/
def errorPayload (e : Exc) : List (PyKey × PyVal) := PyVal.payload [("error", .str e.repr)]

/-- **The transitions of an operation under way**, with how each is stored. -/
inductive Step (env : Env) (findings : List Finding) (op : Operation) : OpStore → Operation → Prop
  | unknown (e : Exc) (hstate : op.state = .running) :
      Step env findings op (.recorded "operation.unknown" "engine" (errorPayload e))
        { op with state := .unknown, error := some e.repr }
  | observed (n : ℕ) (locators : List String) (result : PyVal) (hstate : op.state = .running)
      (hanswer : env.execute n op locators = .ok result) :
      Step env findings op .saved { op with result := result, state := .observed }
  | missing (hstate : op.state = .observed) (hnone : op.result.isNone = true) :
      Step env findings op (.recorded "operation.verify_missing_result" "verifier" [])
        { op with state := .unknown }
  | verifying (hstate : op.state ∈ [.observed, .verifying]) (hsome : op.result.isNone = false) :
      Step env findings op .saved { op with state := .verifying }
  | unverified (e : Exc) (hstate : op.state = .verifying) :
      Step env findings op (.recorded "operation.verify_error" "verifier" (errorPayload e))
        { op with error := some e.repr }
  | judged (n : ℕ) (evidence : PyVal) (items : List PyVal) (passed : Bool)
      (hstate : op.state = .verifying) (hanswer : env.verify n op op.result = .ok evidence)
      (hfound : .verified op.operationId op.result evidence ∈ findings)
      (hitems : evidence.iterate = some items) (hverdict : verdict evidence items = .ok passed) :
      Step env findings op
        (.recorded (if passed then "operation.verified" else "operation.verification_failed")
          "verifier" (PyVal.payload [("evidence", evidence)]))
        (op.judged items passed)
  | reconciling (hstate : op.state ∈ [.running, .unknown, .reconciling]) :
      Step env findings op (.recorded "operation.reconciling" "recovery" [])
        { op with state := .reconciling }
  | unreconciled (e : Exc) (hstate : op.state = .reconciling) :
      Step env findings op (.recorded "operation.reconcile_error" "recovery" (errorPayload e))
        { op with state := .unknown, error := some e.repr }
  | reconciled (n : ℕ) (locators : List String) (verified result : PyVal)
      (hstate : op.state = .reconciling)
      (hanswer : env.reconcile n op locators = .ok (verified, result))
      (hfound : .reconciled op.operationId verified result ∈ findings) :
      Step env findings op
        (.recorded "operation.reconciled" "recovery" (PyVal.payload [("verified", verified)]))
        (op.reconciled verified result)
  | abandoned (hstate : op.state = .prepared) :
      Step env findings op
        (.recorded "operation.abandoned_prepared" "recovery"
          (PyVal.payload [("reason", .str "no external execution was recorded before restart")]))
        { op with state := .cancelled }

/-- What of an operation a transition changes.  What was proposed and admitted, the leases and the
revisions it was prepared with stay as they are. -/
theorem Step.fields {env : Env} {findings : List Finding} {op op' : Operation} {how : OpStore}
    (h : op.Step env findings how op') :
    op' = { op with
      state := op'.state, evidence := op'.evidence, result := op'.result, error := op'.error } := by
  cases h <;> rfl

/-- No assignment changes the id of an operation. -/
theorem Step.operationId {env : Env} {findings : List Finding} {op op' : Operation} {how : OpStore}
    (h : op.Step env findings how op') : op'.operationId = op.operationId := by
  rw [h.fields]

/-- No assignment changes the task an operation is for. -/
theorem Step.taskId {env : Env} {findings : List Finding} {op op' : Operation} {how : OpStore}
    (h : op.Step env findings how op') : op'.taskId = op.taskId := by
  rw [h.fields]

/-- No transition is recorded as the preparation of an operation. -/
theorem Step.eventType {env : Env} {findings : List Finding} {op op' : Operation}
    {eventType actor : String} {payload : List (PyKey × PyVal)}
    (h : op.Step env findings (.recorded eventType actor payload) op') :
    eventType ≠ "operation.prepared" := by
  cases h with
  | judged n evidence items passed => cases passed <;> decide
  | _ => decide

/-- Where `recover_operation` may leave an operation. -/
def settled (op : Operation) : Prop :=
  op.state ∈ [.verified, .failed, .cancelled, .unknown] ∨
    (op.state = .verifying ∧ op.error.isSome = true)

/-- An operation that was to be verified and has no result: there is nothing to ask the verifier
about, and `recover_operation` has no branch for it. -/
def stuck (op : Operation) : Prop := op.state ∈ [.observed, .verifying] ∧ op.result.isNone = true

end Operation

/-- The engine once an operation was assigned to, before it is stored.  In the source the map holds
the object itself, so the assignment is seen at once. -/
def Sys.assigned (s : Sys) (op : Operation) : Sys := { s with operations := s.operations.put op }

/-- The assigned operation is the one found from then on. -/
theorem Sys.get?_assigned (s : Sys) (op : Operation) :
    (s.assigned op).operations.get? op.operationId = some op := s.operations.get?_put_self op

/-- The operation is in memory and settled. -/
def Sys.HasSettled (s : Sys) (operationId : String) : Prop :=
  ∃ op, s.operations.get? operationId = some op ∧ op.settled

/-! ## The rules

What an invariant of operations has to satisfy so that every method keeps it: a rule for each
transition, and for each way a transition is stored.
-/

/-- What an invariant says of the transitions, and of the faults that may end them. -/
structure OperationRules (env : Env) (I : Sys → Prop) (E : Fault → Sys → Prop) : Prop where
  /-- A transition and its store. -/
  stored : ∀ {s op how op'}, I s → s.operations.get? op.operationId = some op →
    op.Step env s.findings how op' →
    Ends (fun _ t => I t) E (storeOp env op.operationId how) (s.assigned op')
  /-- What a call of the capability leaves behind. -/
  called : ∀ {s} (calls : ℕ) (findings : List Finding) (invocations : List Invocation),
    s.findings <+: findings → I s →
    I { s with calls := calls, findings := findings, invocations := invocations }
  /-- The process may end while the capability runs. -/
  bounded : ∀ {s}, I s →
    I { s with boundaries := s.boundaries + 1 } ∧ E .crash { s with boundaries := s.boundaries + 1 }
  /-- What is not an `Exception` is not caught. -/
  interrupted : ∀ {s e}, I s → e.isException = false → E (.raised e) s
  /-- Evidence that is not iterable. -/
  unusable : ∀ {s op n evidence}, I s → s.operations.get? op.operationId = some op →
    op.state = .verifying → env.verify n op op.result = .ok evidence → evidence.iterate = none →
    E (.raised ⟨.typeError, "object is not iterable"⟩) s
  /-- Evidence with an item that has no `get`. -/
  unjudged : ∀ {s op n evidence items e}, I s → s.operations.get? op.operationId = some op →
    op.state = .verifying → env.verify n op op.result = .ok evidence →
    evidence.iterate = some items → verdict evidence items = .error e →
    E (.raised e) (s.assigned (op.extended items))

/-- Storing an operation leaves the operations in memory and the findings as they are: the next
transition of the same method goes on from what was assigned. -/
theorem storeOp_fixes (env : Env) (operationId : String) (how : OpStore) :
    Within (Fixes (fun s : Sys => (s.operations, s.findings))) (storeOp env operationId how) := by
  have hF := frame_fixes (fun s : Sys => (s.operations, s.findings))
  -- what goes to the store leaves the operations in memory and the findings alone
  have hstore : ∀ {α : Type} (txn : Txn α),
      Within (Fixes (fun s : Sys => (s.operations, s.findings))) (store env txn) := by
    intro α txn s
    obtain ⟨n, hn⟩ := after_store env s txn
    rw [hn]
    rfl
  have hnewId : ∀ kind, Within (Fixes (fun s : Sys => (s.operations, s.findings)))
      (newId env kind) := fun kind s => rfl
  have hclock : Within (Fixes (fun s : Sys => (s.operations, s.findings))) (readClock env) :=
    fun s => rfl
  cases how with
  | saved =>
      unfold storeOp saveOp persisting
      refine hF.bind (within_getOperation hF _) (fun op => hF.bind hF.get (fun s => ?_))
      split
      · exact hF.bind (hstore _) (fun _ => hF.pure _)
      · exact hF.pure _
  | recorded eventType actor payload =>
      unfold storeOp recordOp
      refine hF.bind (within_getOperation hF _) (fun op => hF.bind hF.get (fun s => ?_))
      split
      · refine hF.bind (hnewId _) (fun _ => hF.bind hclock (fun _ => ?_))
        exact hF.bind (hstore _) (fun _ => hF.pure _)
      · unfold enqueueOutbox
        refine hF.bind (hF.bind hF.get (fun s => ?_)) (fun _ => hF.pure _)
        split
        · exact hF.bind (hnewId _) (fun _ => hF.bind hclock (fun _ => hstore _))
        · refine hF.bind (hnewId _) (fun _ => hF.bind (within_modify (fun s => rfl)) (fun _ => ?_))
          exact hF.pure _

namespace OperationRules

variable {env : Env} {I : Sys → Prop} {E : Fault → Sys → Prop} (h : OperationRules env I E)
  {s : Sys} {op op' : Operation}
include h

/-- After a transition the operation is as it was assigned, whatever the store did for it: the next
line of the method can be read off the table again. -/
theorem kept {how : OpStore} (hs : I s) (hop : s.operations.get? op.operationId = some op)
    (hstep : op.Step env s.findings how op') :
    Ends (fun _ t => I t ∧ t.operations.get? op.operationId = some op' ∧ t.findings = s.findings) E
      (storeOp env op.operationId how) (s.assigned op') := by
  have hends := h.stored hs hop hstep
  refine ⟨fun {a t} hrun => ⟨hends.returned hrun, ?_⟩, fun hrun => hends.raised hrun⟩
  have hfixed := (storeOp_fixes env op.operationId how).of_ok hrun
  simp only [Fixes, Prod.mk.injEq] at hfixed
  obtain ⟨hoperations, hfindings⟩ := hfixed
  refine ⟨?_, hfindings⟩
  rw [hoperations, ← hstep.operationId]
  exact s.get?_assigned op'

/-! ## The methods

Each method is walked once, for any invariant that has the rules.
-/

/-- A transition into a settled state, and its store: the last one of every method. -/
theorem settles {how : OpStore} (hs : I s) (hop : s.operations.get? op.operationId = some op)
    (hstep : op.Step env s.findings how op') (hsettled : op'.settled) :
    Ends (fun _ t => I t ∧ t.HasSettled op.operationId) E (storeOp env op.operationId how)
      (s.assigned op') :=
  (h.kept hs hop hstep).mono (fun _ _ ht => ⟨ht.1, op', ht.2.1, hsettled⟩) (fun _ _ ht => ht)

/-- The evidence was added to the operation, and its verdict is stored. -/
theorem storeVerdict (hs : I s) (hop : s.operations.get? op.operationId = some op) {n : ℕ}
    {evidence : PyVal} {items : List PyVal} {passed : Bool} (hstate : op.state = .verifying)
    (hanswer : env.verify n op op.result = .ok evidence)
    (hfound : .verified op.operationId op.result evidence ∈ s.findings)
    (hitems : evidence.iterate = some items) (hverdict : verdict evidence items = .ok passed) :
    Ends (fun _ t => I t ∧ t.HasSettled op.operationId) E
      (if passed then do
        updateOperation op.operationId (fun op => { op with state := .verified })
        recordOp env op.operationId "operation.verified" "verifier"
          (PyVal.payload [("evidence", evidence)])
      else do
        updateOperation op.operationId (fun op => { op with state := .failed })
        recordOp env op.operationId "operation.verification_failed" "verifier"
          (PyVal.payload [("evidence", evidence)]) : M Unit)
      (s.assigned (op.extended items)) := by
  have hstored := h.settles hs hop
    (.judged n evidence items passed hstate hanswer hfound hitems hverdict)
    (by cases passed <;> simp [Operation.settled, Operation.judged])
  -- the two assignments are one
  have htwice : (s.operations.put (op.extended items)).put (op.judged items passed)
      = s.operations.put (op.judged items passed) := Table.put_put rfl
  unfold Sys.assigned at hstored
  rw [← htwice] at hstored
  have hget : (s.assigned (op.extended items)).operations.get? op.operationId
      = some (op.extended items) := s.get?_assigned (op.extended items)
  cases passed with
  | true => exact Ends.bind (ends_updateOperation hget hstored)
  | false => exact Ends.bind (ends_updateOperation hget hstored)

/-- `verify` has returned: its evidence is judged.  Evidence that does not iterate, or whose items
cannot be asked, ends the method by a fault that the rules must permit. -/
theorem judgeEvidence (hs : I s) (hop : s.operations.get? op.operationId = some op)
    (hstate : op.state = .verifying) {n : ℕ} {evidence : PyVal}
    (hanswer : env.verify n op op.result = .ok evidence)
    (hfound : .verified op.operationId op.result evidence ∈ s.findings) :
    Ends (fun _ t => I t ∧ t.HasSettled op.operationId) E
      (judgeEvidence env op.operationId evidence) s := by
  unfold LiandanluNative.judgeEvidence
  cases hitems : evidence.iterate with
  | none => exact Ends.throw (h.unusable hs hop hstate hanswer hitems)
  | some items =>
      refine Ends.bind (ends_updateOperation hop ?_)
      have hstore := fun passed (hverdict : verdict evidence items = .ok passed) =>
        h.storeVerdict hs hop hstate hanswer hfound hitems hverdict
      have hunjudged := fun e => h.unjudged (e := e) hs hop hstate hanswer hitems
      unfold verdict at hstore hunjudged
      cases htruthy : evidence.truthy with
      | true =>
          simp only [htruthy, if_true] at hstore hunjudged
          exact Ends.bind (ends_liftExcept hstore hunjudged)
      | false =>
          simp only [htruthy, Bool.false_eq_true, if_false] at hstore
          exact Ends.bind (Ends.pure (hstore false rfl))

/-- The verifier is asked: what it answers is found, and what it raises is recorded. -/
theorem askVerify (hs : I s) (hop : s.operations.get? op.operationId = some op)
    (hstate : op.state = .verifying) :
    Ends (fun answer t =>
        (answer = none → I t ∧ t.HasSettled op.operationId) ∧
        (∀ evidence, answer = some evidence →
          I t ∧ t.operations.get? op.operationId = some op ∧
            (∃ n, env.verify n op op.result = .ok evidence) ∧
            .verified op.operationId op.result evidence ∈ t.findings)) E
      (catching Exc.isException
        (do
          let op ← getOperation op.operationId
          let evidence ← callVerify env op
          return some evidence)
        (fun e => do
          updateOperation op.operationId (fun op => { op with error := some e.repr })
          recordOp env op.operationId "operation.verify_error" "verifier"
            (PyVal.payload [("error", .str e.repr)])
          return none)) s := by
  refine ends_catching (Ends.bind (Ends.of_ok (getOperation_eq_ok.mpr ⟨hop, rfl⟩) ?_))
  unfold callVerify
  refine Ends.bind (Ends.bind (ends_callOut (fun evidence hanswer => ?_) (fun e hanswer => ?_)))
  -- the verifier answers: the finding is noted and the operation is as it was
  · have hfound := h.called (s.calls + 1)
      (s.findings ++ [.verified op.operationId op.result evidence]) s.invocations
      (List.prefix_append _ _) hs
    refine Ends.bind (Ends.modifying (Ends.pure (Ends.pure ⟨fun hnone => (by cases hnone), ?_⟩)))
    intro evidence' hsome
    cases hsome
    exact ⟨hfound, hop, ⟨_, hanswer⟩, List.mem_append_right _ List.mem_cons_self⟩
  -- it raises: what is no exception passes on, and else the operation is settled with the error
  · have hcalled := h.called (s.calls + 1) s.findings s.invocations (List.prefix_refl _) hs
    refine ⟨fun e' he' _ => ?_, fun hpass => h.interrupted hcalled (hpass e rfl)⟩
    cases he'
    have hstill : ({ s with calls := s.calls + 1 } : Sys).operations.get? op.operationId
        = some op := hop
    refine Ends.bind (ends_updateOperation hstill (Ends.bind ?_))
    refine (h.settles hcalled hstill (.unverified e hstate) ?_).mono (fun _ _ ht => ?_)
      (fun _ _ ht => ht)
    · simp [Operation.settled, hstate]
    · exact Ends.pure ⟨fun _ => ht, fun _ hsome => by cases hsome⟩

/-- **Verifying** settles the operation.  A result that is missing is recorded as such; otherwise
the verifier is asked, and its evidence or its exception decides. -/
theorem verifyOperation (hs : I s) (hop : s.operations.get? op.operationId = some op)
    (hstate : op.state = .observed ∨ (op.state = .verifying ∧ op.result.isNone = false)) :
    Ends (fun _ t => I t ∧ t.HasSettled op.operationId) E
      (verifyOperation env op.operationId) s := by
  have hlook : getOperation op.operationId s = .ok op s := getOperation_eq_ok.mpr ⟨hop, rfl⟩
  unfold LiandanluNative.verifyOperation
  refine Ends.bind (Ends.of_ok hlook ?_)
  split
  · rename_i hnone
    have hobserved : op.state = .observed := by
      rcases hstate with hobserved | ⟨_, hsome⟩
      · exact hobserved
      · rw [hsome] at hnone
        cases hnone
    refine Ends.bind (ends_updateOperation hop ?_)
    exact h.settles hs hop (.missing hobserved hnone) (by simp [Operation.settled])
  rename_i hsome
  have hsome : op.result.isNone = false := Bool.not_eq_true _ ▸ hsome
  have hfrom : op.state ∈ [.observed, .verifying] := by
    rcases hstate with hstate | ⟨hstate, _⟩ <;> simp [hstate]
  let waiting : Operation := { op with state := .verifying }
  refine Ends.bind (ends_updateOperation hop ?_)
  refine Ends.bind ((h.kept hs hop (.verifying hfrom hsome)).mono (fun _ t ht => ?_)
    (fun _ _ ht => ht))
  obtain ⟨ht, hwaiting, _⟩ := ht
  change t.operations.get? waiting.operationId = some waiting at hwaiting
  refine Ends.bind ((h.askVerify ht hwaiting rfl).mono (fun answer u hu => ?_) (fun _ _ hu => hu))
  cases answer with
  | none => exact Ends.pure (hu.1 rfl)
  | some evidence =>
      obtain ⟨hu, hwaiting, ⟨n, hanswer⟩, hfound⟩ := hu.2 evidence rfl
      exact h.judgeEvidence hu hwaiting rfl hanswer hfound

/-- The capability is invoked: what it returns is the result, and what it raises is recorded.  An
exception that is no `Exception` passes the handler, as does the end of the process. -/
theorem askCapability (locators : List String) (hs : I s)
    (hop : s.operations.get? op.operationId = some op) (hstate : op.state = .running) :
    Ends (fun answer t =>
        (answer = none → I t ∧ t.HasSettled op.operationId) ∧
        (∀ result, answer = some result →
          I t ∧ t.operations.get? op.operationId = some op ∧
            ∃ n, env.execute n op locators = .ok result)) E
      (catching Exc.isException
        (do
          let result ← invokeCapability env op.operationId locators
          return some result)
        (fun e => do
          updateOperation op.operationId
            (fun op => { op with state := .unknown, error := some e.repr })
          recordOp env op.operationId "operation.unknown" "engine"
            (PyVal.payload [("error", .str e.repr)])
          return none)) s := by
  refine ends_catching (Ends.bind ?_)
  unfold invokeCapability
  refine Ends.bind (Ends.of_ok (getOperation_eq_ok.mpr ⟨hop, rfl⟩) ?_)
  have hinvoked : I (s.invoked op locators) :=
    h.called s.calls s.findings _ (List.prefix_refl _) hs
  obtain ⟨hbounded, hcrash⟩ := h.bounded hinvoked
  -- the state once the call is under way: it was noted, and an answer used up
  let called : Sys :=
    { s.invoked op locators with
      boundaries := s.boundaries + 1
      calls := s.calls + 1 }
  have hcalled : I called :=
    @OperationRules.called env I E h { s.invoked op locators with
      boundaries := s.boundaries + 1 } (s.calls + 1) s.findings _ (List.prefix_refl _) hbounded
  have hstill : called.operations.get? op.operationId = some op := hop
  refine Ends.bind (Ends.modifying (Ends.bind (ends_boundary ?_ ?_)))
  -- the call returns, or raises what is caught or goes through
  · refine ends_callOut (fun result hanswer => ?_) (fun e hanswer => ?_)
    · refine Ends.pure ⟨fun hnone => (by cases hnone), ?_⟩
      intro result' hsome
      cases hsome
      exact ⟨hcalled, hstill, _, hanswer⟩
    · refine ⟨fun e' he' _ => ?_, fun hpass => h.interrupted hcalled (hpass e rfl)⟩
      cases he'
      refine Ends.bind (ends_updateOperation hstill (Ends.bind ?_))
      refine (h.settles hcalled hstill (.unknown e hstate) ?_).mono (fun _ _ ht => ?_)
        (fun _ _ ht => ht)
      · simp [Operation.settled]
      · exact Ends.pure ⟨fun _ => ht, fun _ hsome => by cases hsome⟩
  · -- the process may end at the boundary, before the call
    exact ⟨fun e he => (by cases he), fun _ => hcrash⟩

/-- **Carrying out**, once the start of the operation can be recorded.  The capability is invoked
after that record and only once, and whatever comes of it the operation ends settled. -/
theorem carryOut {locators : List String}
    (hbegin : Ends (fun _ t => I t) E (recordOp env op.operationId "operation.started" "engine" [])
      (s.assigned op.begun))
    (hop : s.operations.get? op.operationId = some op) :
    Ends (fun _ t => I t ∧ t.HasSettled op.operationId) E (carryOut env op.operationId locators)
      s := by
  unfold LiandanluNative.carryOut
  refine Ends.bind (ends_updateOperation hop ?_)
  have hfixed : Ends (fun _ t => I t ∧ t.operations.get? op.operationId = some op.begun) E
      (recordOp env op.operationId "operation.started" "engine" []) (s.assigned op.begun) := by
    refine ⟨fun {a t} hrun => ⟨hbegin.returned hrun, ?_⟩, fun hrun => hbegin.raised hrun⟩
    have hfix := (storeOp_fixes env op.operationId
      (.recorded "operation.started" "engine" [])).of_ok hrun
    simp only [Fixes, Prod.mk.injEq] at hfix
    rw [hfix.1]
    exact s.get?_assigned op.begun
  refine Ends.bind (hfixed.mono (fun _ t ht => ?_) (fun _ _ ht => ht))
  obtain ⟨ht, hbegun⟩ := ht
  change t.operations.get? op.begun.operationId = some op.begun at hbegun
  refine Ends.bind ((h.askCapability locators ht hbegun rfl).mono (fun answer u hu => ?_)
    (fun _ _ hu => hu))
  cases answer with
  | none => exact Ends.pure (hu.1 rfl)
  | some result =>
      obtain ⟨hu, hbegun, n, hanswer⟩ := hu.2 result rfl
      refine Ends.bind (ends_updateOperation hbegun ?_)
      refine Ends.bind ((h.kept hu hbegun (.observed n locators result rfl hanswer)).mono
        (fun _ v hv => ?_) (fun _ _ hv => hv))
      obtain ⟨hv, hobserved, _⟩ := hv
      exact @verifyOperation env I E h _ { op.begun with result := result, state := .observed } hv
        hobserved (Or.inl rfl)

/-- What the capability raised while it was asked is recorded. -/
theorem unreconciled (hs : I s) (hop : s.operations.get? op.operationId = some op)
    (hstate : op.state = .reconciling) (e : Exc) :
    Ends (fun (answer : Option (PyVal × PyVal)) t =>
        answer = none ∧ I t ∧ t.HasSettled op.operationId) E
      (do
        updateOperation op.operationId
          (fun op => { op with state := .unknown, error := some e.repr })
        recordOp env op.operationId "operation.reconcile_error" "recovery"
          (PyVal.payload [("error", .str e.repr)])
        return none) s := by
  refine Ends.bind (ends_updateOperation hop (Ends.bind ?_))
  refine (h.settles hs hop (.unreconciled e hstate) ?_).mono (fun _ _ ht => ?_) (fun _ _ ht => ht)
  · simp [Operation.settled]
  · exact Ends.pure ⟨rfl, ht⟩

/-- The capability is asked: what it answers is found, and what it raises is recorded. -/
theorem askReconcile (hs : I s) (hop : s.operations.get? op.operationId = some op)
    (hstate : op.state = .reconciling) :
    Ends (fun (answer : Option (PyVal × PyVal)) t =>
        (answer = none → I t ∧ t.HasSettled op.operationId) ∧
        (∀ verified result, answer = some (verified, result) →
          I t ∧ t.operations.get? op.operationId = some op ∧
            (∃ n locators, env.reconcile n op locators = .ok (verified, result)) ∧
            .reconciled op.operationId verified result ∈ t.findings)) E
      (catching Exc.isException
        (do
          let op ← getOperation op.operationId
          let answer ← callReconcile env op
          return some answer)
        (fun e => do
          updateOperation op.operationId
            (fun op => { op with state := .unknown, error := some e.repr })
          recordOp env op.operationId "operation.reconcile_error" "recovery"
            (PyVal.payload [("error", .str e.repr)])
          return none)) s := by
  -- a failed question leaves the operation settled as UNKNOWN, and there is no answer to go on with
  have hnone : ∀ (answer : Option (PyVal × PyVal)) t,
      answer = none ∧ I t ∧ t.HasSettled op.operationId →
      (answer = none → I t ∧ t.HasSettled op.operationId) ∧
        ∀ verified result, answer = some (verified, result) →
          I t ∧ t.operations.get? op.operationId = some op ∧
            (∃ n locators, env.reconcile n op locators = .ok (verified, result)) ∧
            .reconciled op.operationId verified result ∈ t.findings := by
    rintro _ t ⟨rfl, ht⟩
    exact ⟨fun _ => ht, fun _ _ hsome => by cases hsome⟩
  refine ends_catching (Ends.bind (Ends.of_ok (getOperation_eq_ok.mpr ⟨hop, rfl⟩) ?_))
  unfold callReconcile
  refine Ends.bind (Ends.bind (Ends.get (Ends.bind (ends_liftExcept (fun locators _ => ?_)
    (fun e _ => ?_)))))
  · refine Ends.bind (ends_callOut (fun answer hanswer => ?_) (fun e hanswer => ?_))
    -- the capability answers: the finding is noted and the operation is as it was
    · obtain ⟨verified, result⟩ := answer
      have hfound := h.called (s.calls + 1)
        (s.findings ++ [.reconciled op.operationId verified result]) s.invocations
        (List.prefix_append _ _) hs
      refine Ends.bind (Ends.modifying (Ends.pure (Ends.pure ⟨fun hnone => (by cases hnone), ?_⟩)))
      intro verified' result' hsome
      cases hsome
      exact ⟨hfound, hop, ⟨_, _, hanswer⟩, List.mem_append_right _ List.mem_cons_self⟩
    -- the capability raises, or what it raises is passed on
    · have hcalled := h.called (s.calls + 1) s.findings s.invocations (List.prefix_refl _) hs
      refine ⟨fun e' he' _ => ?_, fun hpass => h.interrupted hcalled (hpass e rfl)⟩
      cases he'
      exact (h.unreconciled hcalled hop hstate e).mono hnone (fun _ _ ht => ht)
  -- the locators cannot be resolved: the capability was not asked at all
  · refine ⟨fun e' he' _ => ?_, fun hpass => h.interrupted hs (hpass e rfl)⟩
    cases he'
    exact (h.unreconciled hs hop hstate e).mono hnone (fun _ _ ht => ht)

/-- **Reconciling** settles the operation: the capability is asked what became of the effect, and
its answer or its exception is recorded. -/
theorem reconcileOperation (hs : I s) (hop : s.operations.get? op.operationId = some op)
    (hstate : op.state ∈ [.running, .unknown, .reconciling]) :
    Ends (fun _ t => I t ∧ t.HasSettled op.operationId) E
      (reconcileOperation env op.operationId) s := by
  unfold LiandanluNative.reconcileOperation
  let pending : Operation := { op with state := .reconciling }
  refine Ends.bind (ends_updateOperation hop ?_)
  refine Ends.bind ((h.kept hs hop (.reconciling hstate)).mono (fun _ t ht => ?_)
    (fun _ _ ht => ht))
  obtain ⟨ht, hpending, _⟩ := ht
  change t.operations.get? pending.operationId = some pending at hpending
  refine Ends.bind ((h.askReconcile ht hpending rfl).mono (fun answer u hu => ?_)
    (fun _ _ hu => hu))
  cases answer with
  | none => exact Ends.pure (hu.1 rfl)
  | some answer =>
      obtain ⟨verified, result⟩ := answer
      obtain ⟨hu, hpending, ⟨n, locators, hanswer⟩, hfound⟩ := hu.2 verified result rfl
      refine Ends.bind (ends_updateOperation hpending ?_)
      refine h.settles hu hpending (.reconciled n locators verified result rfl hanswer hfound) ?_
      cases htruthy : verified.truthy <;> simp [Operation.settled, Operation.reconciled, htruthy]

/-- **Recovering.** An operation that was not stuck is settled, unless it was at rest before; one
that was stuck is left as it is. -/
theorem recoverOperation (hs : I s) (hop : s.operations.get? op.operationId = some op)
    (hmissing : op.capability ∉ s.capabilities → E (.raised (keyError op.capability)) s) :
    Ends (fun _ t => I t ∧
        ((op.stuck ∨ op.state.unsettled = false) → t.operations.get? op.operationId = some op) ∧
        (¬ op.stuck → op.state.unsettled = true → t.HasSettled op.operationId)) E
      (recoverOperation env op.operationId) s := by
  have hlook : getOperation op.operationId s = .ok op s := getOperation_eq_ok.mpr ⟨hop, rfl⟩
  -- a branch that settled the operation has nothing to show for one that was stuck or at rest
  have hdone : ∀ {t : Sys}, op.state.unsettled = true → ¬ op.stuck →
      I t ∧ t.HasSettled op.operationId →
      I t ∧ ((op.stuck ∨ op.state.unsettled = false) →
          t.operations.get? op.operationId = some op) ∧
        (¬ op.stuck → op.state.unsettled = true → t.HasSettled op.operationId) := by
    intro t hunsettled hfree ht
    refine ⟨ht.1, fun hor => ?_, fun _ _ => ht.2⟩
    rcases hor with hstuck | hrest
    · exact absurd hstuck hfree
    · rw [hunsettled] at hrest
      cases hrest
  unfold LiandanluNative.recoverOperation
  refine Ends.bind (Ends.of_ok hlook ?_)
  split
  -- PREPARED: it is cancelled, and the capability is not asked
  · rename_i hprepared
    refine Ends.bind (ends_updateOperation hop ?_)
    refine (h.settles hs hop (.abandoned hprepared) ?_).mono (fun _ _ ht => ?_) (fun _ _ ht => ht)
    · simp [Operation.settled]
    · refine hdone ?_ ?_ ht
      · rw [hprepared]
        rfl
      · rintro ⟨hstuck, _⟩
        rw [hprepared] at hstuck
        simp at hstuck
  refine Ends.bind (Ends.get ?_)
  split
  · rename_i hcap
    exact Ends.throw (hmissing hcap)
  split
  -- a result that is there is verified
  · rename_i hready
    obtain ⟨hstate, hsome⟩ := hready
    have hfrom : op.state = .observed ∨ (op.state = .verifying ∧ op.result.isNone = false) := by
      simp only [List.mem_cons, List.not_mem_nil, or_false] at hstate
      exact hstate.imp_right (fun hstate => ⟨hstate, hsome⟩)
    refine (h.verifyOperation hs hop hfrom).mono (fun _ _ ht => ?_) (fun _ _ ht => ht)
    refine hdone ?_ ?_ ht
    · rcases hfrom with hstate | ⟨hstate, _⟩ <;> rw [hstate] <;> rfl
    · rintro ⟨_, hnone⟩
      rw [hsome] at hnone
      cases hnone
  rename_i hready
  split
  -- an effect that is in doubt is reconciled
  · rename_i hstate
    refine (h.reconcileOperation hs hop hstate).mono (fun _ _ ht => ?_) (fun _ _ ht => ht)
    simp only [List.mem_cons, List.not_mem_nil, or_false] at hstate
    refine hdone ?_ ?_ ht
    · rcases hstate with hstate | hstate | hstate <;> rw [hstate] <;> rfl
    · rintro ⟨hstuck, _⟩
      rcases hstate with hstate | hstate | hstate <;> rw [hstate] at hstuck <;> simp at hstuck
  · -- nothing is done: the operation is at rest, or stuck
    rename_i hprepared _ hrest
    refine Ends.pure ⟨hs, fun _ => hop, fun hfree hunsettled => ?_⟩
    exfalso
    have hnot : ¬ (op.state ∈ [.observed, .verifying] ∧ op.result.isNone = true) := hfree
    cases hstate : op.state <;> simp_all [OperationState.unsettled]

end OperationRules

end LiandanluNative
