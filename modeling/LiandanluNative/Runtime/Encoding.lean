/-
# LiandanluNative.Runtime.Encoding — operations that can be stored.

An operation is stored as JSON, so a result or an item of evidence that is not JSON cannot be.
Where capabilities answer in JSON, every transition of an operation can be stored with its event
(`Operation.Encodable.step`); where JSON gives their answers back as they were, the row of an
operation is the operation (`Operation.Exact.step`).
-/
import LiandanluNative.Runtime.OperationSteps

namespace LiandanluNative

open Lib (Table)
open Lib.Proc

/-! ## Encodable operations

What has to be so that an operation can be stored at all; every transition keeps it where
capabilities answer in JSON.
-/

/-- The capabilities answer in JSON, and evidence is a list of dictionaries. -/
structure Env.AnswersJson (env : Env) : Prop where
  executed : ∀ {n op locators result}, env.execute n op locators = .ok result →
    ∃ column, result.jsonDumps = some column
  verified : ∀ {n op result evidence}, env.verify n op result = .ok evidence →
    ∃ items column, evidence = .list items ∧ (∀ item ∈ items, ∃ fields, item = .dict fields) ∧
      PyVal.jsonDumpsList items = some column
  reconciled : ∀ {n op locators verified result},
    env.reconcile n op locators = .ok (verified, result) →
    (∃ column, verified.jsonDumps = some column) ∧ ∃ column, result.jsonDumps = some column

/-- The arguments, the evidence and the result of the operation are JSON. -/
structure Operation.Encodable (op : Operation) : Prop where
  arguments : ∃ column, PyVal.jsonDumpsItems op.arguments = some column
  evidence : ∃ column, PyVal.jsonDumpsList op.evidence = some column
  result : ∃ column, op.result.jsonDumps = some column

/-- An operation has a row if all its columns are JSON. -/
theorem Operation.Encodable.encoded {op : Operation} (h : op.Encodable) : op.encoded ≠ none := by
  obtain ⟨_, harguments⟩ := h.arguments
  obtain ⟨_, hevidence⟩ := h.evidence
  obtain ⟨_, hresult⟩ := h.result
  simp [Operation.encoded, harguments, hevidence, hresult]

/-- An operation that has a row has columns that are JSON. -/
theorem Operation.Encodable.of_encoded {op row : Operation} (h : op.encoded = some row) :
    op.Encodable := by
  obtain ⟨_, _, _, harguments, hevidence, hresult, _⟩ := Operation.encoded_eq h
  exact ⟨⟨_, harguments⟩, ⟨_, hevidence⟩, ⟨_, hresult⟩⟩

/-- An operation that was just made has neither evidence nor a result. -/
theorem ActionProposal.operation_encodable {proposal : ActionProposal}
    {items : List (PyKey × PyVal)}
    (harguments : PyVal.jsonDumpsItems proposal.arguments = some items) (operationId : String)
    {task : Task} (spec : ActionSpec) {expectedRevisions : List (String × Int)}
    {taskLease : Option TaskLease} {resourceLease : Option ResourceLease} :
    (proposal.operation operationId task spec expectedRevisions taskLease
      resourceLease).Encodable where
  arguments := ⟨items, harguments⟩
  evidence := ⟨[], rfl⟩
  result := ⟨.none, rfl⟩

/-- A dict has a `get`, so whether it passes can be asked. -/
theorem passes_dict (fields : List (PyKey × PyVal)) :
    ∃ passed, passes (.dict fields) = some passed := by
  unfold passes
  dsimp only
  split
  · exact ⟨_, rfl⟩
  · exact ⟨_, rfl⟩

/-- Items that are dictionaries can be judged. -/
theorem allPass_dicts : ∀ {items : List PyVal}, (∀ item ∈ items, ∃ fields, item = .dict fields) →
    ∃ passed, allPass items = .ok passed
  | [], _ => ⟨true, rfl⟩
  | item :: items, h => by
      obtain ⟨fields, rfl⟩ := h item List.mem_cons_self
      obtain ⟨rest, hrest⟩ := allPass_dicts (fun i hi => h i (List.mem_cons_of_mem _ hi))
      obtain ⟨passed, hpassed⟩ := passes_dict fields
      unfold allPass
      rw [hpassed]
      cases passed with
      | true => exact ⟨rest, hrest⟩
      | false => exact ⟨false, rfl⟩

/-- **Evidence that is a list of dicts** comes to a verdict: the loop over it does not raise. -/
theorem verdict_dicts {items : List PyVal} (h : ∀ item ∈ items, ∃ fields, item = .dict fields) :
    ∃ passed, verdict (.list items) items = .ok passed := by
  unfold verdict
  split
  · exact allPass_dicts h
  · exact ⟨false, rfl⟩

/-- What a capability that answers in JSON returns as evidence can be gone through. -/
theorem Env.AnswersJson.iterable {env : Env} (h : env.AnswersJson) {n : ℕ} {op : Operation}
    {result evidence : PyVal} (hanswer : env.verify n op result = .ok evidence) :
    evidence.iterate ≠ none := by
  obtain ⟨_, _, rfl, _⟩ := h.verified hanswer
  exact Option.some_ne_none _

/-- And going through it raises nothing. -/
theorem Env.AnswersJson.judged {env : Env} (h : env.AnswersJson) {n : ℕ} {op : Operation}
    {result evidence : PyVal} {items : List PyVal} {e : Exc}
    (hanswer : env.verify n op result = .ok evidence) (hitems : evidence.iterate = some items) :
    verdict evidence items ≠ .error e := by
  obtain ⟨_, _, rfl, hdicts, _⟩ := h.verified hanswer
  cases hitems
  obtain ⟨passed, hpassed⟩ := verdict_dicts hdicts
  rw [hpassed]
  exact nofun

/-- **Where capabilities answer in JSON, every transition can be stored**, with its event. -/
theorem Operation.Encodable.step {env : Env} (hanswers : env.AnswersJson)
    {findings : List Finding} {op op' : Operation} {how : OpStore} (h : op.Encodable)
    (hstep : op.Step env findings how op') :
    op'.Encodable ∧ ∀ eventType actor payload, how = .recorded eventType actor payload →
      ∃ column, PyVal.jsonDumpsItems payload = some column := by
  -- what the events tell besides answers is texts, which are JSON
  have hempty : ∃ column, PyVal.jsonDumpsItems [] = some column := ⟨[], rfl⟩
  have herror : ∀ e : Exc, ∃ column, PyVal.jsonDumpsItems (Operation.errorPayload e) = some column :=
    fun e => PyVal.jsonDumpsItems_payload (by simp [PyVal.jsonDumps])
  cases hstep with
  | unknown e => exact ⟨⟨h.1, h.2, h.3⟩, by rintro _ _ _ ⟨⟩; exact herror e⟩
  | observed n locators result _ hanswer =>
      exact ⟨⟨h.1, h.2, hanswers.executed hanswer⟩, fun _ _ _ hno => by cases hno⟩
  | missing => exact ⟨⟨h.1, h.2, h.3⟩, by rintro _ _ _ ⟨⟩; exact hempty⟩
  | verifying => exact ⟨⟨h.1, h.2, h.3⟩, fun _ _ _ hno => by cases hno⟩
  | unverified e => exact ⟨⟨h.1, h.2, h.3⟩, by rintro _ _ _ ⟨⟩; exact herror e⟩
  | judged n evidence items passed _ hanswer _ hitems =>
      -- new evidence goes behind the old, in the row and in the payload
      obtain ⟨_, column, rfl, _, hcolumn⟩ := hanswers.verified hanswer
      cases hitems
      obtain ⟨before, hbefore⟩ := h.evidence
      refine ⟨⟨h.1, ⟨_, PyVal.jsonDumpsList_append hbefore hcolumn⟩, h.3⟩, ?_⟩
      rintro _ _ _ ⟨⟩
      exact PyVal.jsonDumpsItems_payload (by simp [PyVal.jsonDumps, hcolumn])
  | reconciling => exact ⟨⟨h.1, h.2, h.3⟩, by rintro _ _ _ ⟨⟩; exact hempty⟩
  | unreconciled e => exact ⟨⟨h.1, h.2, h.3⟩, by rintro _ _ _ ⟨⟩; exact herror e⟩
  | reconciled n locators verified result _ hanswer =>
      obtain ⟨⟨column, hcolumn⟩, hresult⟩ := hanswers.reconciled hanswer
      refine ⟨⟨h.1, h.2, hresult⟩, ?_⟩
      rintro _ _ _ ⟨⟩
      exact PyVal.jsonDumpsItems_payload (by simp [hcolumn])
  | abandoned =>
      refine ⟨⟨h.1, h.2, h.3⟩, ?_⟩
      rintro _ _ _ ⟨⟩
      exact PyVal.jsonDumpsItems_payload (by simp [PyVal.jsonDumps])

/-! ## Operations that JSON gives back

What has to be so that an operation is loaded again as it was.  It is more: a tuple can be stored,
but is loaded as a list.
-/

/-- `json.loads` after `json.dumps` is the identity on what capabilities answer, and evidence is a
list of dictionaries. -/
structure Env.AnswersExactly (env : Env) : Prop where
  executed : ∀ {n op locators result}, env.execute n op locators = .ok result →
    result.jsonDumps = some result
  verified : ∀ {n op result evidence}, env.verify n op result = .ok evidence →
    ∃ items, evidence = .list items ∧ (∀ item ∈ items, ∃ fields, item = .dict fields) ∧
      PyVal.jsonDumpsList items = some items
  reconciled : ∀ {n op locators verified result},
    env.reconcile n op locators = .ok (verified, result) →
    (∃ column, verified.jsonDumps = some column) ∧ result.jsonDumps = some result

/-- Answers that JSON gives back as they were are JSON. -/
theorem Env.AnswersExactly.answersJson {env : Env} (h : env.AnswersExactly) : env.AnswersJson where
  executed := fun hanswer => ⟨_, h.executed hanswer⟩
  verified := by
    intro n op result evidence hanswer
    obtain ⟨items, hevidence, hdicts, hitems⟩ := h.verified hanswer
    exact ⟨items, items, hevidence, hdicts, hitems⟩
  reconciled := fun hanswer => ⟨(h.reconciled hanswer).1, _, (h.reconciled hanswer).2⟩

/-- The arguments, the evidence and the result of the operation are what JSON gives back. -/
structure Operation.Exact (op : Operation) : Prop where
  arguments : PyVal.jsonDumpsItems op.arguments = some op.arguments
  evidence : PyVal.jsonDumpsList op.evidence = some op.evidence
  result : op.result.jsonDumps = some op.result

/-- The row of an exact operation is the operation. -/
theorem Operation.Exact.encoded {op : Operation} (h : op.Exact) : op.encoded = some op := by
  simp [Operation.encoded, h.arguments, h.evidence, h.result]

/-- An operation that is its row is exact. -/
theorem Operation.Exact.of_encoded {op : Operation} (h : op.encoded = some op) : op.Exact := by
  obtain ⟨arguments, evidence, result, harguments, hevidence, hresult, hop⟩ :=
    Operation.encoded_eq h
  have hsame : arguments = op.arguments ∧ evidence = op.evidence ∧ result = op.result := by
    rw [hop]
    exact ⟨rfl, rfl, rfl⟩
  obtain ⟨rfl, rfl, rfl⟩ := hsame
  exact ⟨harguments, hevidence, hresult⟩

/-- Such an operation can be stored in particular. -/
theorem Operation.Exact.encodable {op : Operation} (h : op.Exact) : op.Encodable :=
  ⟨⟨_, h.arguments⟩, ⟨_, h.evidence⟩, ⟨_, h.result⟩⟩

/-- Beginning an operation assigns none of these. -/
theorem Operation.Exact.begun {op : Operation} (h : op.Exact) : op.begun.Exact := ⟨h.1, h.2, h.3⟩

/-- **Where JSON gives answers back as they were, it gives operations back.** -/
theorem Operation.Exact.step {env : Env} (hanswers : env.AnswersExactly) {findings : List Finding}
    {op op' : Operation} {how : OpStore} (h : op.Exact) (hstep : op.Step env findings how op') :
    op'.Exact := by
  cases hstep with
  | observed n locators result _ hanswer => exact ⟨h.1, h.2, hanswers.executed hanswer⟩
  | judged n evidence items passed _ hanswer _ hitems =>
      obtain ⟨_, rfl, _, hcolumn⟩ := hanswers.verified hanswer
      cases hitems
      exact ⟨h.1, PyVal.jsonDumpsList_append h.evidence hcolumn, h.3⟩
  | reconciled n locators verified result _ hanswer =>
      exact ⟨h.1, h.2, (hanswers.reconciled hanswer).2⟩
  | _ => exact ⟨h.1, h.2, h.3⟩

end LiandanluNative
