/-
# LiandanluNative.Safety.VerifiedJustified — what stands behind a VERIFIED operation.

An operation gets to VERIFIED by a verification all of whose items pass, or by a reconciliation that
says so, and either is about the result that is stored.  Evidence is only added on the way to
VERIFIED or FAILED, so none of it is left from an earlier attempt; through the row, results and
items say what they said (`Backed.lasts`).
-/
import LiandanluNative.Safety.RecoverySettles
import LiandanluNative.Safety.WriteAhead

namespace LiandanluNative

open Lib (Table)
open Lib.Proc

/-! ## Evidence

Items of evidence say the same after they were stored, so a verdict on them stands.
-/

/-- An item of evidence: a dictionary, with one status. -/
def PyVal.Item (item : PyVal) : Prop :=
  ∃ fields, item = .dict fields ∧ PyVal.Names "status" fields

/-- `verify` returns a list of dictionaries, or raises. -/
def Env.VerifiesInItems (env : Env) : Prop :=
  ∀ {n op result evidence}, env.verify n op result = .ok evidence →
    ∃ items, evidence = .list items ∧ ∀ item ∈ items, item.Item

/-- `status == "pass"` -/
def isPass : PyVal → Bool
  | .str status => decide (status = "pass")
  | _ => false

/-- An item passes if its status says so. -/
theorem passes_dict_eq (fields : List (PyKey × PyVal)) :
    passes (.dict fields) = some (isPass (PyVal.lookup "status" .none fields)) := by
  unfold passes
  dsimp only
  cases PyVal.lookup "status" .none fields <;> rfl

/-- A status that is encoded comes back as a pass if it was one. -/
theorem isPass_jsonDumps {status column : PyVal} (h : status.jsonDumps = some column) :
    isPass column = isPass status := by
  cases status <;> simp only [PyVal.jsonDumps, Option.some.injEq, Option.map_eq_some_iff] at h
  case other => cases h
  case list | tuple | dict => obtain ⟨_, _, rfl⟩ := h; rfl
  all_goals rw [← h]

/-- **An item says what it said**, on its way through the row. -/
theorem PyVal.Item.decoded {item column : PyVal} (h : item.Item)
    (hcolumn : item.jsonDumps = some column) : column.Item ∧ passes column = passes item := by
  obtain ⟨fields, rfl, hnames⟩ := h
  simp only [PyVal.jsonDumps, Option.map_eq_some_iff] at hcolumn
  obtain ⟨members, hmembers, rfl⟩ := hcolumn
  refine ⟨⟨members, rfl, (PyVal.jsonDumpsItems_decoded hmembers).named "status"⟩, ?_⟩
  have hstatus := PyVal.item?_jsonDumpsItems hnames hmembers
  rw [passes_dict_eq, passes_dict_eq]
  unfold PyVal.lookup
  cases hfound : PyVal.item? "status" fields with
  | none =>
      rw [hfound] at hstatus
      rw [hstatus]
      rfl
  | some status =>
      rw [hfound] at hstatus
      rw [hstatus]
      cases hdumped : status.jsonDumps with
      | none =>
          -- what is not encoded is no string
          cases status with
          | str text => simp [PyVal.jsonDumps] at hdumped
          | _ => simp [hdumped, isPass]
      | some y =>
          simp only [Option.bind_some, hdumped, Option.getD_some, isPass_jsonDumps hdumped]

/-- Evidence comes back item by item. -/
theorem items_decoded : ∀ {items column : List PyVal}, (∀ item ∈ items, item.Item) →
    PyVal.jsonDumpsList items = some column →
    (∀ item ∈ column, item.Item) ∧
      ((∀ item ∈ items, passes item = some true) → ∀ item ∈ column, passes item = some true)
  | [], _, _, h => by
      simp only [PyVal.jsonDumpsList, Option.some.injEq] at h
      rw [← h]
      exact ⟨fun item hitem => absurd hitem List.not_mem_nil,
        fun _ item hitem => absurd hitem List.not_mem_nil⟩
  | item :: items, _, hitems, h => by
      simp only [PyVal.jsonDumpsList] at h
      split at h
      swap
      · cases h
      rename_i y ys hy hys
      cases h
      obtain ⟨hitem, hagrees⟩ := (hitems item List.mem_cons_self).decoded hy
      obtain ⟨hrest, hpassing⟩ :=
        items_decoded (fun i hi => hitems i (List.mem_cons_of_mem _ hi)) hys
      refine ⟨fun i hi => ?_, fun hall i hi => ?_⟩
      · rcases List.mem_cons.mp hi with rfl | hi
        · exact hitem
        · exact hrest i hi
      · rcases List.mem_cons.mp hi with rfl | hi
        · rw [hagrees]
          exact hall item List.mem_cons_self
        · exact hpassing (fun j hj => hall j (List.mem_cons_of_mem _ hj)) i hi

/-- A list of items passes when it is not empty and each item passes. -/
theorem passing_of_verdict : ∀ {items : List PyVal}, allPass items = .ok true →
    ∀ item ∈ items, passes item = some true
  | [], _, item, hitem => absurd hitem List.not_mem_nil
  | first :: items, h, item, hitem => by
      unfold allPass at h
      split at h
      · cases h
      · cases h
      · rename_i hpass
        rcases List.mem_cons.mp hitem with rfl | hitem
        · exact hpass
        · exact passing_of_verdict h item hitem

/-! ## Justification

What stands behind a VERIFIED operation, as an invariant over the transitions and over the way
through the row.
-/

/-- The value is the one the operation has, or what the operation has is its JSON. -/
def PyVal.IsStored (value stored : PyVal) : Prop := value = stored ∨ value.jsonDumps = some stored

/-- What is stored stays so when the operation goes through its row. -/
theorem PyVal.IsStored.decoded {value stored column : PyVal} (h : value.IsStored stored)
    (hcolumn : stored.jsonDumps = some column) : value.IsStored column := by
  rcases h with rfl | h
  · exact Or.inr hcolumn
  · rw [PyVal.jsonDumps_idem h] at hcolumn
    cases hcolumn
    exact Or.inr h

/-- **What justifies a VERIFIED operation**: a verification of its stored result with evidence that
is there and passes throughout, or a reconciliation that answered with the stored result and that it
is verified. -/
def Finding.Justifies (op : Operation) : Finding → Prop
  | .verified operationId result evidence =>
      operationId = op.operationId ∧ result.IsStored op.result ∧
        ∃ items, evidence = .list items ∧ items ≠ [] ∧ ∀ item ∈ items, passes item = some true
  | .reconciled operationId answer result =>
      operationId = op.operationId ∧ result.IsStored op.result ∧ answer.truthy = true

/-- The way through the row: the result becomes its JSON, which is again what the finding was about.
-/
theorem Finding.Justifies.decoded {finding : Finding} {op row : Operation}
    (h : finding.Justifies op) (hid : row.operationId = op.operationId)
    (hresult : op.result.jsonDumps = some row.result) : finding.Justifies row := by
  cases finding with
  | verified operationId result evidence =>
      exact ⟨h.1.trans hid.symm, h.2.1.decoded hresult, h.2.2⟩
  | reconciled operationId answer result =>
      exact ⟨h.1.trans hid.symm, h.2.1.decoded hresult, h.2.2⟩

/-- What holds of every operation: a VERIFIED one is justified; evidence is made of items, all of
which pass unless the operation FAILED; there is none before the operation is judged.  It is the
invariant of a run, for the operations in memory and for their rows. -/
structure Backed (findings : List Finding) (op : Operation) : Prop where
  justified : op.state = .verified → ∃ finding ∈ findings, finding.Justifies op
  items : ∀ item ∈ op.evidence, item.Item
  passing : op.state ≠ .failed → ∀ item ∈ op.evidence, passes item = some true
  unjudged : op.state ∉ [.verified, .failed] → op.evidence = []

namespace Backed

variable {env : Env} {findings findings' : List Finding} {op op' row : Operation}

/-- An operation without evidence that is not VERIFIED is backed. -/
theorem of_nil (hstate : op.state ≠ .verified) (hnone : op.evidence = []) : Backed findings op where
  justified := fun hverified => absurd hverified hstate
  items := by
    rw [hnone]
    exact fun item hitem => absurd hitem List.not_mem_nil
  passing := by
    rw [hnone]
    exact fun _ item hitem => absurd hitem List.not_mem_nil
  unjudged := fun _ => hnone

/-- A finding more takes nothing away. -/
theorem grows (h : Backed findings op) (hgrown : findings <+: findings') : Backed findings' op where
  justified := by
    intro hverified
    obtain ⟨finding, hfinding, hjustifies⟩ := h.justified hverified
    exact ⟨finding, hgrown.subset hfinding, hjustifies⟩
  items := h.items
  passing := h.passing
  unjudged := h.unjudged

/-- **A transition leaves the operation backed.** -/
theorem step (hverifies : env.VerifiesInItems) (h : Backed findings op) {how : OpStore}
    (hstep : op.Step env findings how op') : Backed findings op' := by
  have hnone : op.state ∉ [.verified, .failed] → op.evidence = [] := h.unjudged
  cases hstep with
  | judged n evidence items passed hstate hanswer hfound hitems hverdict =>
      obtain ⟨_, rfl, hitem⟩ := hverifies hanswer
      cases hitems
      rw [hstate] at hnone
      have hevidence : (op.judged items passed).evidence = items := by
        show op.evidence ++ items = items
        rw [hnone (by simp), List.nil_append]
      unfold verdict at hverdict
      cases passed with
      | false =>
          refine ⟨fun hno => (by cases hno), ?_, fun hno => absurd rfl hno, fun hno => ?_⟩
          · rw [hevidence]
            exact hitem
          · exact absurd (by simp [Operation.judged]) hno
      | true =>
          -- the evidence is there, and every item of it passes
          have hthere : (PyVal.list items).truthy = true := by
            cases htruthy : (PyVal.list items).truthy with
            | true => rfl
            | false => simp [htruthy] at hverdict
          rw [hthere, if_pos rfl] at hverdict
          have hne : items ≠ [] := by
            rintro rfl
            cases hthere
          have hpassing := passing_of_verdict hverdict
          refine ⟨fun _ => ⟨_, hfound, rfl, Or.inl rfl, items, rfl, hne, hpassing⟩, ?_, fun _ => ?_,
            fun hno => ?_⟩
          · rw [hevidence]
            exact hitem
          · rw [hevidence]
            exact hpassing
          · exact absurd (by simp [Operation.judged]) hno
  | reconciled n locators verified result hstate hanswer hfound =>
      have hempty : op.evidence = [] := hnone (by simp [hstate])
      cases htruthy : verified.truthy with
      | true =>
          have hevidence : (op.reconciled verified result).evidence = [] := hempty
          refine ⟨fun _ => ⟨_, hfound, rfl, Or.inl rfl, htruthy⟩, ?_, fun _ => ?_, fun _ => hempty⟩
          · rw [hevidence]
            exact fun item hitem => absurd hitem List.not_mem_nil
          · rw [hevidence]
            exact fun item hitem => absurd hitem List.not_mem_nil
      | false => exact .of_nil (by simp [Operation.reconciled, htruthy]) hempty
  | unverified e hstate => exact .of_nil (by simp [hstate]) (hnone (by simp [hstate]))
  | verifying hstate hsome =>
      refine .of_nil (by simp) (hnone ?_)
      rcases (by simpa using hstate : op.state = .observed ∨ op.state = .verifying) with heq | heq <;>
        simp [heq]
  | reconciling hstate =>
      refine .of_nil (by simp) (hnone ?_)
      rcases (by simpa using hstate :
        op.state = .running ∨ op.state = .unknown ∨ op.state = .reconciling) with heq | heq | heq <;>
        simp [heq]
  | unknown e hstate => exact .of_nil (by simp) (hnone (by simp [hstate]))
  | observed n locators result hstate => exact .of_nil (by simp) (hnone (by simp [hstate]))
  | missing hstate => exact .of_nil (by simp) (hnone (by simp [hstate]))
  | unreconciled e hstate => exact .of_nil (by simp) (hnone (by simp [hstate]))
  | abandoned hstate => exact .of_nil (by simp) (hnone (by simp [hstate]))

/-- **The row of a backed operation is backed.** -/
theorem decoded (h : Backed findings op) (hencoded : op.encoded = some row) :
    Backed findings row := by
  obtain ⟨_, evidence, result, _, hevidence, hresult, hrow⟩ := Operation.encoded_eq hencoded
  have hstate : row.state = op.state := by rw [hrow]
  have hid : row.operationId = op.operationId := by rw [hrow]
  have hagrees : row.evidence = evidence := by rw [hrow]
  have hstored : row.result = result := by rw [hrow]
  obtain ⟨hitems, hpassing⟩ := items_decoded h.items hevidence
  refine ⟨fun hverified => ?_, ?_, fun hno => ?_, fun hno => ?_⟩
  · obtain ⟨finding, hfinding, hjustifies⟩ := h.justified (hstate.symm.trans hverified)
    exact ⟨finding, hfinding, hjustifies.decoded hid (hstored ▸ hresult)⟩
  · rw [hagrees]
    exact hitems
  · rw [hagrees]
    exact hpassing (h.passing (hstate ▸ hno))
  · rw [hagrees]
    rw [h.unjudged (hstate ▸ hno)] at hevidence
    exact (Option.some.inj hevidence).symm

/-- Being backed carries over every transition, and through the row: what a run asks of an
invariant. -/
theorem lasts (hverifies : env.VerifiesInItems) :
    Lasting env (fun op => op.state = .prepared ∧ op.evidence = []) Backed Backed where
  grows := fun hgrown => ⟨fun h => h.grows hgrown, fun h => h.grows hgrown⟩
  fresh := fun hstate hnone _ => .of_nil (by simp [hstate]) hnone
  begun := fun _ hbegins => .of_nil (by simp [Operation.begun]) hbegins.2
  step := fun h hstep => h.step hverifies hstep
  unjudged := by
    intro _ op n evidence items e _ _ hanswer hitems hverdict
    obtain ⟨_, rfl, hitem⟩ := hverifies hanswer
    cases hitems
    -- evidence that is a list of dictionaries can be judged, so this does not happen
    have hdicts : ∀ item ∈ items, ∃ fields, item = .dict fields := by
      intro item hi
      obtain ⟨fields, hfields, _⟩ := hitem item hi
      exact ⟨fields, hfields⟩
    obtain ⟨passed, hpassed⟩ := allPass_dicts hdicts
    unfold verdict at hverdict
    split at hverdict
    · cases hpassed.symm.trans hverdict
    · cases hverdict
  stored := fun h hencoded => h.decoded hencoded
  overwritten := by
    intro _ op row old h hencoded _ hid
    have hrow := h.decoded hencoded
    refine ⟨fun hverified => ?_, hrow.items, hrow.passing, hrow.unjudged⟩
    obtain ⟨finding, hfinding, hjustifies⟩ := hrow.justified hverified
    refine ⟨finding, hfinding, ?_⟩
    -- a justification names the operation, not its row
    cases finding with
    | verified _ _ _ => exact ⟨hjustifies.1.trans hid.symm, hjustifies.2⟩
    | reconciled _ _ _ => exact ⟨hjustifies.1.trans hid.symm, hjustifies.2⟩
  loaded := fun h => h

end Backed

/-! ## Runs -/

/-- **VERIFIED is always justified.**  Take any engine on a store without operations, any run of its
calls but direct ones of `execute`, and of restarts, the process ending at any boundary, and any
capabilities whose `verify` returns a list of dictionaries or raises.  Then every operation that is
VERIFIED, in memory or in the store, is justified by a verification or a reconciliation of the
result it is stored with, and every item of its evidence passes. -/
theorem verified_justified (env : Env) (hverifies : env.VerifiesInItems) (s : Sys)
    (hs : s.NoOperations) (calls : List Call) (hcalls : ∀ call ∈ calls, call.mediated) :
    ∀ op, op ∈ (runCalls env s calls).operations.rows ∨ op ∈ (runCalls env s calls).db.operations.rows →
      op.state = .verified →
      (∃ finding ∈ (runCalls env s calls).findings, finding.Justifies op) ∧
        ∀ item ∈ op.evidence, passes item = some true := by
  have hbegins : ∀ {calls : List Call} {s : Sys}, (∀ call ∈ calls, call.mediated) →
      Along env (Call.Begins fun op => op.state = .prepared ∧ op.evidence = []) s calls := by
    intro calls
    induction calls with
    | nil => exact fun _ => trivial
    | cons call calls ih =>
        refine fun hall => ⟨?_, ih (fun later hlater => hall later (List.mem_cons_of_mem _ hlater))⟩
        rintro operationId op rfl _
        exact (hall _ List.mem_cons_self).elim
  have hholds := (Backed.lasts hverifies).run (fun _ hstate hnone => ⟨hstate, hnone⟩)
    (Holds.none hs) (hbegins hcalls)
  intro op hop hverified
  have hbacked : Backed (runCalls env s calls).findings op := by
    rcases hop with hop | hop
    · exact hholds.memory op hop
    · exact hholds.rows op hop
  exact ⟨hbacked.justified hverified, hbacked.passing (by simp [hverified])⟩

theorem small_verifiesInItems : Small.env.VerifiesInItems := by
  intro n op result evidence hanswer
  cases hanswer
  refine ⟨_, rfl, fun item hitem => ?_⟩
  rw [List.mem_singleton.mp hitem]
  refine ⟨_, rfl, by simp, fun field hfield _ => ?_⟩
  rw [List.mem_singleton.mp hfield]

/-- The operation of the small engine is verified, and justified. -/
theorem verified_justified_small :
    ∃ op ∈ (runCalls Small.env Small.start Small.oneStep).db.operations.rows,
      op.state = .verified ∧
      (∃ finding ∈ (runCalls Small.env Small.start Small.oneStep).findings,
        finding.Justifies op) ∧
      ∀ item ∈ op.evidence, passes item = some true := by
  have hstates : (runCalls Small.env Small.start Small.oneStep).db.operations.rows.map
      Operation.state = [.verified] := by
    decide +kernel
  obtain ⟨op, hop, hverified⟩ := List.mem_map.mp (hstates ▸ List.mem_singleton_self _ :
    OperationState.verified ∈ (runCalls Small.env Small.start Small.oneStep).db.operations.rows.map
      Operation.state)
  refine ⟨op, hop, hverified, ?_⟩
  refine verified_justified Small.env small_verifiesInItems Small.start ⟨rfl, rfl, rfl⟩
    Small.oneStep ?_ op (Or.inr hop) hverified
  intro call hcall
  simp only [Small.oneStep, List.mem_cons, List.not_mem_nil, or_false] at hcall
  rcases hcall with rfl | rfl <;> trivial

end LiandanluNative
