/-
# LiandanluNative.Runtime.OperationMoves — how the methods of `OperationRuntime` move an operation.

Once an operation is under way its methods only let it advance (`Operation.Advances`): it keeps its
state or takes one other than PREPARED and CANCELLED.  A recovery that finds it PREPARED cancels it.

The methods are put together from three writers: an update assigns to the operation that is in
memory, saving writes it as it is, and recording writes it with an event.  Each has its lemma, and
the lemma of a method follows its body from one writer to the next.
-/
import LiandanluNative.Runtime.TaskMoves

namespace LiandanluNative

open Lib (Table)
open Lib.Proc Lib.WriteThrough

/-- The operation keeps its state, or takes one that is neither PREPARED nor CANCELLED. -/
def Operation.Advances (op op' : Operation) : Prop :=
  op'.state = op.state ∨ (op'.state ≠ .prepared ∧ op'.state ≠ .cancelled)

/-- The allowance lets the operation advance. -/
def Allowance.Advances (A : Allowance) (operationId : String) : Prop :=
  ∀ op op' : Operation, op.Advances op' → A.operation operationId (some op) op'

section

variable {A : Allowance} (hA : A.Closed) (env : Env) {s : Sys} {operationId : String}

/-- An operation is assigned as a whole, as a task is. -/
theorem moves_setOperation {op : Operation}
    (h : A.operation op.operationId (s.operations.get? op.operationId) op) :
    Moves A s (after (setOperation op) s) :=
  { Moves.refl with operations := TablesMoved.put h }

include hA

/-- What is assigned to an operation that is known, by its id.  An unknown id raises before anything
is assigned. -/
theorem moves_updateOperation (set : Operation → Operation)
    (hid : ∀ op, (set op).operationId = op.operationId)
    (h : ∀ op, A.operation operationId (some op) (set op)) :
    Within (Moves A) (updateOperation operationId set) := by
  intro s
  have hF := Moves.frame hA
  unfold updateOperation
  refine hF.bind_at (within_getOperation hF operationId s) (fun op u hop => ?_)
  obtain ⟨hget, rfl⟩ := getOperation_eq_ok.mp hop
  refine moves_setOperation ?_
  rw [hid, Table.key_of_get? hget, hget]
  exact h op

/-! ## Storing -/

/-- **Saving** writes the operation as memory has it, and an allowance that lets it be lets it be
saved. -/
theorem moves_saveOp (hkeep : ∀ op, A.operation operationId (some op) op) :
    Within (Moves A) (saveOp env operationId) := by
  intro s
  have hF := Moves.frame hA
  unfold saveOp persisting
  refine hF.bind_at (within_getOperation hF operationId s) (fun op u hop => ?_)
  obtain ⟨hget, rfl⟩ := getOperation_eq_ok.mp hop
  refine hF.bind_at (hF.get u) (fun v w hv => ?_)
  cases hv
  split
  · refine hF.bind_at (moves_store (fun a db n hrun => ?_)) (fun _ w _ => hF.pure _ w)
    obtain ⟨row, hid, hshow, rfl⟩ := upsertOperation_eq_ok (transaction_eq_ok hrun)
    have hkey : op.operationId = operationId := Table.key_of_get? hget
    subst hkey
    exact Moves.of_db .refl (TablesMoved.save hget (hkeep op) hshow hid) (Or.inr rfl) (Or.inr rfl)
  · exact hF.pure _ u

/-- **Recording** saves it with an event in one transaction. -/
theorem moves_recordOp (hkeep : ∀ op, A.operation operationId (some op) op)
    (eventType actor : String) (payload : List (PyKey × PyVal)) :
    Within (Moves A) (recordOp env operationId eventType actor payload) := by
  intro s
  have hF := Moves.frame hA
  unfold recordOp
  refine hF.bind_at (within_getOperation hF operationId s) (fun op u hop => ?_)
  obtain ⟨hget, rfl⟩ := getOperation_eq_ok.mp hop
  refine hF.bind_at (hF.get u) (fun v w hv => ?_)
  cases hv
  split
  · refine hF.bind_at (within_newId _ _) (fun eventId v hv => ?_)
    cases hv
    refine hF.bind_at (within_readClock _) (fun occurredAt w hw => ?_)
    cases hw
    refine hF.bind_at (moves_store (fun a db n hrun => ?_)) (fun _ w _ => hF.pure _ w)
    obtain ⟨row, hid, hshow, hrecords⟩ := saveOperationWithOutboxEvent_eq_ok hrun
    simp only [Database.records, Prod.mk.injEq] at hrecords
    obtain ⟨htasks, hoperations, hleases, hresources⟩ := hrecords
    have hkey : op.operationId = operationId := Table.key_of_get? hget
    subst hkey
    refine Moves.of_db ?_ ?_ (Or.inr hleases) (Or.inr hresources)
    · rw [htasks]
      exact .refl
    · rw [hoperations]
      exact TablesMoved.save hget (hkeep op) hshow hid
  · exact hF.bind (moves_enqueueOutbox hA env _) (fun _ => hF.pure _) u

/-! ## Verifying and reconciling

Every assignment of these methods advances the operation; the states they pass are VERIFYING and
RECONCILING, and the answer of the capability decides where they end.
-/

variable (hadv : A.Advances operationId)
include hadv

/-- An update of other fields than the state. -/
theorem moves_updateFields (set : Operation → Operation)
    (hid : ∀ op, (set op).operationId = op.operationId)
    (hstate : ∀ op, (set op).state = op.state) :
    Within (Moves A) (updateOperation operationId set) :=
  moves_updateOperation hA set hid (fun op => hadv op _ (Or.inl (hstate op)))

/-- An update to a state that is neither PREPARED nor CANCELLED. -/
theorem moves_updateState (set : Operation → Operation)
    (hid : ∀ op, (set op).operationId = op.operationId)
    (hstate : ∀ op, (set op).state ≠ .prepared ∧ (set op).state ≠ .cancelled) :
    Within (Moves A) (updateOperation operationId set) :=
  moves_updateOperation hA set hid (fun op => hadv op _ (Or.inr (hstate op)))

/-- An operation that is recorded has not gone back. -/
theorem moves_recordAdvanced (eventType actor : String) (payload : List (PyKey × PyVal)) :
    Within (Moves A) (recordOp env operationId eventType actor payload) :=
  moves_recordOp hA env (fun op => hadv op op (Or.inl rfl)) eventType actor payload

/-- **What evidence leads to**: FAILED, VERIFIED, or an exception before either. -/
theorem moves_judgeEvidence (evidence : PyVal) :
    Within (Moves A) (judgeEvidence env operationId evidence) := by
  have hF := Moves.frame hA
  have hsettle : ∀ passed : Bool, Within (Moves A)
      (if passed then do
        updateOperation operationId (fun op => { op with state := .verified })
        recordOp env operationId "operation.verified" "verifier"
          (PyVal.payload [("evidence", evidence)])
      else do
        updateOperation operationId (fun op => { op with state := .failed })
        recordOp env operationId "operation.verification_failed" "verifier"
          (PyVal.payload [("evidence", evidence)]) : M Unit) := by
    intro passed
    split
    · refine hF.bind (moves_updateState hA hadv _ (fun _ => rfl) (fun _ => by simp)) (fun _ => ?_)
      exact moves_recordAdvanced hA env hadv _ _ _
    · refine hF.bind (moves_updateState hA hadv _ (fun _ => rfl) (fun _ => by simp)) (fun _ => ?_)
      exact moves_recordAdvanced hA env hadv _ _ _
  unfold judgeEvidence
  cases evidence.iterate with
  | none => exact within_raise hF _
  | some items =>
      refine hF.bind (moves_updateFields hA hadv _ (fun _ => rfl) (fun _ => rfl)) (fun _ => ?_)
      by_cases htruthy : evidence.truthy
      · simp only [htruthy, if_true]
        exact hF.bind (within_liftExcept hF _) hsettle
      · simp only [htruthy]
        exact hF.bind (hF.pure _) hsettle

omit hadv in
/-- Calling the capability moves nothing, whatever it answers; only the answer is used up. -/
theorem moves_callVerify (op : Operation) : Within (Moves A) (callVerify env op) := by
  have hF := Moves.frame hA
  unfold callVerify
  refine hF.bind (within_callOut _) (fun evidence => ?_)
  exact hF.bind (within_modify (fun s => { Moves.refl with })) (fun _ => hF.pure _)

/-- **`_verify`** passes VERIFYING, and is UNKNOWN without a result or where the capability raises.
-/
theorem moves_verifyOperation : Within (Moves A) (verifyOperation env operationId) := by
  have hF := Moves.frame hA
  unfold verifyOperation
  refine hF.bind (within_getOperation hF _) (fun op => ?_)
  split
  · refine hF.bind (moves_updateState hA hadv _ (fun _ => rfl) (fun _ => by simp)) (fun _ => ?_)
    exact moves_recordAdvanced hA env hadv _ _ _
  refine hF.bind (moves_updateState hA hadv _ (fun _ => rfl) (fun _ => by simp)) (fun _ => ?_)
  refine hF.bind (moves_saveOp hA env (fun op => hadv op op (Or.inl rfl))) (fun _ => ?_)
  refine hF.bind (within_catching hF ?_ (fun e => ?_)) (fun evidence => ?_)
  · refine hF.bind (within_getOperation hF _) (fun op => ?_)
    exact hF.bind (moves_callVerify hA env op) (fun _ => hF.pure _)
  · refine hF.bind (moves_updateFields hA hadv _ (fun _ => rfl) (fun _ => rfl)) (fun _ => ?_)
    exact hF.bind (moves_recordAdvanced hA env hadv _ _ _) (fun _ => hF.pure _)
  · cases evidence with
    | none => exact hF.pure _
    | some evidence => exact moves_judgeEvidence hA env hadv evidence

/-- **Reconciling** passes RECONCILING and ends as the answer of the capability says. -/
theorem moves_reconcileOperation : Within (Moves A) (reconcileOperation env operationId) := by
  have hF := Moves.frame hA
  unfold reconcileOperation
  refine hF.bind (moves_updateState hA hadv _ (fun _ => rfl) (fun _ => by simp)) (fun _ => ?_)
  refine hF.bind (moves_recordAdvanced hA env hadv _ _ _) (fun _ => ?_)
  refine hF.bind (within_catching hF ?_ (fun e => ?_)) (fun answer => ?_)
  · refine hF.bind (within_getOperation hF _) (fun op => ?_)
    refine hF.bind ?_ (fun _ => hF.pure _)
    unfold callReconcile
    refine hF.bind hF.get (fun s => ?_)
    refine hF.bind (within_liftExcept hF _) (fun locators => ?_)
    refine hF.bind (within_callOut _) (fun answer => ?_)
    exact hF.bind (within_modify (fun s => { Moves.refl with })) (fun _ => hF.pure _)
  · refine hF.bind (moves_updateState hA hadv _ (fun _ => rfl) (fun _ => by simp)) (fun _ => ?_)
    exact hF.bind (moves_recordAdvanced hA env hadv _ _ _) (fun _ => hF.pure _)
  · cases answer with
    | none => exact hF.pure _
    | some answer =>
        obtain ⟨verified, result⟩ := answer
        refine hF.bind (moves_updateState hA hadv _ (fun _ => rfl) (fun _ => ?_)) (fun _ => ?_)
        · cases verified.truthy <;> simp
        · exact moves_recordAdvanced hA env hadv _ _ _

/-- From PREPARED a recovery cancels; from any other state it lets the operation advance. -/
theorem moves_recoverOperation
    (hcancel : ∀ op : Operation, op.state = .prepared → A.operation operationId (some op)
      { op with state := .cancelled }) :
    Within (Moves A) (recoverOperation env operationId) := by
  intro s
  have hF := Moves.frame hA
  unfold recoverOperation
  refine hF.bind_at (within_getOperation hF operationId s) (fun op u hop => ?_)
  obtain ⟨hget, rfl⟩ := getOperation_eq_ok.mp hop
  split
  · rename_i hprepared
    refine hF.bind_at ?_ (fun _ v _ => moves_recordAdvanced hA env hadv _ _ _ v)
    unfold updateOperation
    refine hF.bind_at (within_getOperation hF operationId u) (fun op' v hop' => ?_)
    obtain ⟨hget', rfl⟩ := getOperation_eq_ok.mp hop'
    have hsame : op' = op := Option.some.inj (hget'.symm.trans hget)
    subst hsame
    refine moves_setOperation ?_
    show A.operation op'.operationId (v.operations.get? op'.operationId) _
    rw [Table.key_of_get? hget, hget]
    exact hcancel op' hprepared
  refine hF.bind hF.get (fun w => ?_) u
  split
  · exact within_raise hF _
  split
  · exact moves_verifyOperation hA env hadv
  split
  · exact moves_reconcileOperation hA env hadv
  · exact hF.pure _

end

end LiandanluNative
