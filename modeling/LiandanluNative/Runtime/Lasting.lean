/-
# LiandanluNative.Runtime.Lasting — what lasts of operations.

`Lasting` says that a property of operations survives the transitions, and comes back from the rows
they leave.  What lasts holds of every operation of every run, in memory and in the store, however
often the process ends (`Lasting.run`): the row that a dead process left behind is an operation of
the next one.

There are two properties, one of operations in memory (`P`) and one of rows (`R`), because a row is
what JSON makes of an operation: evidence that was a tuple is a list when it is loaded.  Both may
speak of the findings of the verifications so far, to which entries are only added.
-/
import LiandanluNative.Runtime.Upkeep

namespace LiandanluNative

open Lib (Table)
open Lib.Proc

/-- A property `P` of operations and one `R` of their rows, given what the capabilities found, that
last. `begins` is what `execute` may be called on. -/
structure Lasting (env : Env) (begins : Operation → Prop) (P R : List Finding → Operation → Prop) :
    Prop where
  grows : ∀ {findings findings' op}, findings <+: findings' →
    (P findings op → P findings' op) ∧ (R findings op → R findings' op)
  fresh : ∀ {findings op}, op.state = .prepared → op.evidence = [] → op.result = .none →
    P findings op
  begun : ∀ {findings op}, P findings op → begins op → P findings op.begun
  step : ∀ {findings op how op'}, P findings op → op.Step env findings how op' → P findings op'
  /-- The verification that ends with an item that has no `get`. -/
  unjudged : ∀ {findings op n evidence items e}, P findings op → op.state = .verifying →
    env.verify n op op.result = .ok evidence → evidence.iterate = some items →
    verdict evidence items = .error e → P findings (op.extended items)
  stored : ∀ {findings op row}, P findings op → op.encoded = some row → R findings row
  /-- The upsert leaves the columns that no transition changes as they were. -/
  overwritten : ∀ {findings op row old}, P findings op → op.encoded = some row → R findings old →
    old.operationId = row.operationId → R findings (old.overwrite row)
  loaded : ∀ {findings row}, R findings row → P findings row

/-- The properties hold of every operation and of every row. -/
structure Holds (P R : List Finding → Operation → Prop) (s : Sys) : Prop where
  persistent : s.persistent = true
  memory : ∀ op ∈ s.operations.rows, P s.findings op
  rows : ∀ row ∈ s.db.operations.rows, R s.findings row

namespace Holds

variable {env : Env} {begins : Operation → Prop} {P R : List Finding → Operation → Prop} {s t : Sys}

/-- Calls that leave operations alone leave what lasts of them. -/
theorem aside (h : Holds P R s) (ht : Aside s t) : Holds P R t where
  persistent := ht.persistent.trans h.persistent
  memory := by
    rw [ht.operations, ht.findings]
    exact h.memory
  rows := by
    rw [ht.dbOperations, ht.findings]
    exact h.rows

/-- What lasts holds of an operation that memory has. -/
theorem of_get? (h : Holds P R s) {operationId : String} {op : Operation}
    (hop : s.operations.get? operationId = some op) : P s.findings op :=
  h.memory op (Table.mem_of_get? hop)

/-- An operation may be assigned if it has what lasts. -/
theorem assigned (h : Holds P R s) {op : Operation} (hop : P s.findings op) :
    Holds P R (s.assigned op) where
  persistent := h.persistent
  memory := by
    intro other hother
    rcases Table.mem_put.mp hother with rfl | ⟨hold, _⟩
    · exact hop
    · exact h.memory other hold
  rows := h.rows

/-- The rows once an operation is stored as it is encoded. -/
theorem putRow (h : Holds P R s) (hP : Lasting env begins P R) {op row : Operation}
    (hop : P s.findings op) (hencoded : op.encoded = some row) :
    ∀ other ∈ (s.db.operations.put (s.db.operationRow row)).rows, R s.findings other := by
  intro other hother
  rcases Table.mem_put.mp hother with rfl | ⟨hold, _⟩
  · unfold Database.operationRow
    split
    · rename_i old hget
      exact hP.overwritten hop hencoded (h.rows old (Table.mem_of_get? hget)) (Table.key_of_get? hget)
    · exact hP.stored hop hencoded
  · exact h.rows other hold

/-- **A row that is written** has the property of rows, as the property of operations comes with it.
-/
theorem saved (h : Holds P R s) (hP : Lasting env begins P R) {op row : Operation}
    (hop : P s.findings op) (hencoded : op.encoded = some row) : Holds P R (s.savedOp row) where
  persistent := h.persistent
  memory := h.memory
  rows := h.putRow hP hop hencoded

/-- So it does when the event is written with it. -/
theorem recorded (h : Holds P R s) (hP : Lasting env begins P R) {op row : Operation}
    (hop : P s.findings op) (hencoded : op.encoded = some row) (fields : EventFields)
    (column : List (PyKey × PyVal)) : Holds P R (s.recordedOp env row fields column) where
  persistent := h.persistent
  memory := h.memory
  rows := h.putRow hP hop hencoded

/-- An exception leaves the state as it is, and the end of a process leaves its rows. -/
theorem left (h : Holds P R s) (fault : Fault) : Left (Holds P R) (Holds P R) fault s :=
  spared_of (fun _ => h) (fun _ => h)

/-- **Storing**, whichever way, keeps both; where the operation cannot be encoded nothing is
written. -/
theorem ends_stored (h : Holds P R s) (hP : Lasting env begins P R) {op : Operation}
    (hop : s.operations.get? op.operationId = some op) (how : OpStore) :
    Ends (fun _ t => Holds P R t) (Left (Holds P R) (Holds P R))
      (storeOp env op.operationId how) s := by
  have hnow := h.of_get? hop
  cases how with
  | saved =>
      refine ends_saveOp h.persistent hop (fun _ _ => h.left _) (fun row hencoded => ?_)
      exact ⟨h.saved hP hnow hencoded, (h.saved hP hnow hencoded).left _⟩
  | recorded eventType actor payload =>
      have hread : Holds P R s.unrecorded := ⟨h.persistent, h.memory, h.rows⟩
      refine ends_recordOp h.persistent hop (fun _ _ => hread.left _)
        (fun row fields column hencoded _ _ => ?_)
      exact ⟨h.recorded hP hnow hencoded fields column,
        (h.recorded hP hnow hencoded fields column).left _⟩

end Holds

/-- What a run has to keep to for a property that lasts from what `begins`. -/
def lastingTerms (begins : Operation → Prop) : Terms where
  creates := fun _ _ => True
  starts := fun _ => True
  begins := begins
  registers := fun _ => True
  observes := fun _ => True
  relates := fun _ => True

/-- **What lasts is kept by every call**, and a process leaves all of it to the next. -/
theorem lasting_rules {env : Env} {begins : Operation → Prop}
    {P R : List Finding → Operation → Prop} (hP : Lasting env begins P R)
    (hfresh : ∀ op : Operation, op.state = .prepared → op.evidence = [] → begins op) :
    EngineRules env (lastingTerms begins) (Holds P R) (Holds P R) where
  durable := fun h => h
  apart := fun ht h => h.aside ht.toAside
  -- a task is no operation, so its changes keep what is said of operations
  changes := fun taskId h =>
    { persistent := h.persistent
      unchanged := h
      raised := fun _ e => h.left _
      died := fun task new _ _ => ⟨h.persistent, h.memory, h.rows⟩
      recorded := fun task new fields column _ _ _ _ _ =>
        ⟨⟨h.persistent, h.memory, h.rows⟩, ⟨h.persistent, h.memory, h.rows⟩⟩ }
  created := fun goal successCriteria workspaceId constraints lane priority budget h _ =>
    ends_createTask h.persistent goal successCriteria workspaceId constraints lane priority budget rfl
      ⟨h.persistent, h.memory, h.rows⟩
      (fun fields column _ _ _ =>
        ⟨⟨h.persistent, h.memory, h.rows⟩, ⟨h.persistent, h.memory, h.rows⟩⟩)
  -- a new operation begins as `begins` says, in memory and in its row
  started := by
    intro s task proposal spec expectedRevisions taskLease resourceLease clockReads h _ _ _
    let base : Sys := { s with ids := s.ids + 1, clockReads := clockReads }
    let op := proposal.operation (env.newId "op" s.ids) task spec expectedRevisions taskLease
      resourceLease
    have hstill : base.persistent = true := h.persistent
    have hop : P s.findings op := hP.fresh rfl rfl rfl
    have hopened : Holds P R (s.assigned op) := h.assigned hop
    refine ends_startOperation hstill rfl ⟨h.persistent, h.memory, h.rows⟩ (fun _ _ => ?_)
      (fun row fields column hencoded _ => ?_)
    · have hunrecorded : Holds P R (base.opened task op).unrecorded :=
        ⟨h.persistent, hopened.memory, h.rows⟩
      exact hunrecorded.left _
    · have hrows := h.putRow hP hop hencoded
      exact ⟨⟨h.persistent, hopened.memory, hrows⟩, ⟨h.persistent, hopened.memory, hrows⟩⟩
  operations :=
    { stored := by
        intro s op how op' h hop hstep
        have hassigned := h.assigned (hP.step (h.of_get? hop) hstep)
        have hget := s.get?_assigned op'
        rw [← hstep.operationId]
        exact hassigned.ends_stored hP hget how
      called := fun calls findings invocations hgrown h =>
        { persistent := h.persistent
          memory := fun op hop => (hP.grows hgrown).1 (h.memory op hop)
          rows := fun row hrow => (hP.grows hgrown).2 (h.rows row hrow) }
      bounded := fun h => ⟨⟨h.persistent, h.memory, h.rows⟩, ⟨h.persistent, h.memory, h.rows⟩⟩
      interrupted := fun h _ => h.left _
      unusable := fun h _ _ _ _ => h.left _
      unjudged := fun h hop hstate hanswer hitems hverdict =>
        (h.assigned (hP.unjudged (h.of_get? hop) hstate hanswer hitems hverdict)).left _ }
  -- so does one that is executed
  begun := by
    intro s op h hop hbegins
    have hassigned := h.assigned (hP.begun (h.of_get? hop) hbegins)
    exact hassigned.ends_stored hP (s.get?_assigned op.begun)
      (.recorded "operation.started" "engine" [])
  fresh := fun hstate hevidence => hfresh _ hstate hevidence
  registered := fun _ => upheld_of_within (aside_registerEntity _) (fun _ _ ht h => h.aside ht)
    (fun _ h => h)
  observed := fun _ _ _ _ _ _ => upheld_of_within (aside_observe _ _ _ _ _)
    (fun _ _ ht h => h.aside ht) (fun _ h => h)
  related := fun _ _ _ _ => upheld_of_within (aside_relate _ _ _) (fun _ _ ht h => h.aside ht)
    (fun _ h => h)
  restarted := fun registry capabilities broker h =>
    ⟨rfl, fun row hrow => hP.loaded (h.rows row hrow), h.rows⟩

/-- The operations `execute` is called on directly. -/
def Call.Begins (begins : Operation → Prop) (s : Sys) (call : Call) : Prop :=
  ∀ operationId op, call = .execute operationId → s.operations.get? operationId = some op → begins op

/-- **What lasts, lasts over runs**, with the process ending at any boundary. -/
theorem Lasting.run {env : Env} {begins : Operation → Prop} {P R : List Finding → Operation → Prop}
    (hP : Lasting env begins P R)
    (hfresh : ∀ op : Operation, op.state = .prepared → op.evidence = [] → begins op) :
    ∀ {calls : List Call} {s : Sys}, Holds P R s → Along env (Call.Begins begins) s calls →
      Holds P R (runCalls env s calls)
  | [], _, hs, _ => hs
  | call :: calls, s, hs, ⟨hcall, hcalls⟩ => by
      have hmeets : call.Meets (lastingTerms begins) env s :=
        ⟨fun _ _ _ _ _ _ _ _ => trivial, fun _ _ _ _ _ _ _ _ => trivial, hcall,
          fun _ _ => trivial, fun _ _ _ _ _ _ => trivial, fun _ _ _ _ => trivial⟩
      have hnext : Holds P R (call.exec env s) := ((lasting_rules hP hfresh).exec hs hmeets).1
      show Holds P R (runCalls env (call.exec env s) calls)
      exact hP.run hfresh hnext hcalls

/-- An engine on a store without operations. -/
structure Sys.NoOperations (s : Sys) : Prop where
  persistent : s.persistent = true
  operations : s.operations = .empty
  dbOperations : s.db.operations = .empty

/-- Of no operations everything holds. -/
theorem Holds.none {P R : List Finding → Operation → Prop} {s : Sys} (h : s.NoOperations) :
    Holds P R s where
  persistent := h.persistent
  memory := by
    rw [h.operations]
    exact fun op hop => absurd hop List.not_mem_nil
  rows := by
    rw [h.dbOperations]
    exact fun row hrow => absurd hrow List.not_mem_nil

end LiandanluNative
