/-
# LiandanluNative.Safety.OperationHistory — the events of an operation are a run of its lifecycle.

`OperationView.after` is a reader's table of the lifecycle: which event may come in which state, and
what it makes of the state, the evidence and the error.  The two states that `_save` writes without
an event of their own, OBSERVED and VERIFYING, are stages of RUNNING to such a reader.

Where operations are stored as they are (`Safety.StoreMirrors`), every transition is an entry of the
table, and its event commits with it.  So the journal of a store has, for each operation, one run of
the lifecycle from its preparation to the row it is stored with (`operations_told`): no event is
missing, out of order or of an operation that is not there, wherever the process was killed.
-/
import LiandanluNative.Lib.Journal
import LiandanluNative.Safety.StoreMirrors
import LiandanluNative.Safety.TaskHistory

namespace LiandanluNative

open Lib (Table Account)
open Lib.Proc

/-! ## The lifecycle, as its events tell it

A reader of the log has a view of each operation, and each event moves it on; it is written down
without a look at the methods.
-/

/-- The state an operation is in as far as events tell: OBSERVED and VERIFYING are saved without
one. -/
def OperationState.announced : OperationState → OperationState
  | .observed => .running
  | .verifying => .running
  | state => state

/-- What a reader of events knows of an operation: the state as it was announced, the evidence and
the error. -/
structure OperationView where
  state : OperationState
  evidence : List PyVal
  error : Option String

/-- What the row of an operation says of the same. -/
def Operation.view (op : Operation) : OperationView where
  state := op.state.announced
  evidence := op.evidence
  error := op.error

/-- `payload["evidence"]` -/
def Message.evidence (message : Message) : List PyVal :=
  match PyVal.item? "evidence" message.payload with
  | some (.list items) => items
  | _ => []

/-- `bool(payload["verified"])` -/
def Message.isVerified (message : Message) : Bool :=
  match PyVal.item? "verified" message.payload with
  | some verified => verified.truthy
  | none => false

namespace OperationView

/-- An event may come in these states, and leads to `next`. -/
def moving (view : OperationView) (from_ : List OperationState) (next : OperationView) :
    Option OperationView :=
  if view.state ∈ from_ then some next else none

/-- **The lifecycle of an operation**, by its events; `none` where an event does not fit. -/
def step (view : OperationView) (message : Message) : Option OperationView :=
  match message.eventType with
  | "operation.abandoned_prepared" => view.moving [.prepared] { view with state := .cancelled }
  | "operation.started" => some { view with state := .running }
  | "operation.unknown" =>
      view.moving [.running] { view with state := .unknown, error := message.text "error" }
  | "operation.verify_missing_result" => view.moving [.running] { view with state := .unknown }
  | "operation.verify_error" => view.moving [.running] { view with error := message.text "error" }
  | "operation.verified" =>
      view.moving [.running]
        { view with state := .verified, evidence := view.evidence ++ message.evidence }
  | "operation.verification_failed" =>
      view.moving [.running]
        { view with state := .failed, evidence := view.evidence ++ message.evidence }
  | "operation.reconciling" =>
      view.moving [.running, .unknown, .reconciling] { view with state := .reconciling }
  | "operation.reconcile_error" =>
      view.moving [.reconciling] { view with state := .unknown, error := message.text "error" }
  | "operation.reconciled" =>
      view.moving [.reconciling]
        { view with state := if message.isVerified then .verified else .failed }
  | _ => none

/-- An operation begins with its preparation, and is not prepared again. -/
def after : Option OperationView → Message → Option OperationView
  | none, message =>
      if message.eventType = "operation.prepared" then some ⟨.prepared, [], none⟩ else none
  | some view, message => view.step message

end OperationView

/-- The account of the operations: a message about one is applied to what is known of it, and must
fit there. -/
def operationAccount : Account Message String (Option OperationView) where
  about message := message.operationId
  start := none
  apply view message := (OperationView.after view message).map some

/-! ## The transitions tell what they do

For each transition: the event that is recorded with it moves the view as the transition moves the
operation.
-/

section

variable {env : Env} {findings : List Finding} {op op' : Operation}

end

/-! ## What the store tells of its operations -/

/-- The views of the stored operations. -/
def Database.operationViews (db : Database) (operationId : String) : Option (Option OperationView) :=
  (db.operations.get? operationId).map (fun op => some op.view)

/-- The journal tells the stored operations. -/
structure OperationsTold (env : Env) (ids : ℕ) (db : Database) : Prop where
  posted : Posted env ids db
  told : operationAccount.Tells db.messages db.operationViews

namespace OperationsTold

variable {env : Env} {ids ids' : ℕ} {db db' : Database}

/-- A delivery, or a change elsewhere. -/
theorem posts (h : OperationsTold env ids db) (hposts : Posts db db')
    (hrows : db'.operations = db.operations) (hids : ids ≤ ids') : OperationsTold env ids' db' := by
  obtain ⟨hposted, hmessages⟩ := h.posted.posts hposts hids
  refine ⟨hposted, ?_⟩
  rw [hmessages]
  refine h.told.congr (fun operationId => ?_)
  rw [Database.operationViews, hrows, Database.operationViews]

/-- A row is overwritten with one that makes no difference to a reader. -/
theorem save (h : OperationsTold env ids db) {old row : Operation}
    (hpart : db'.outboxPart = db.outboxPart) (hrows : db'.operations = db.operations.put row)
    (hold : db.operations.get? row.operationId = some old) (hview : row.view = old.view) :
    OperationsTold env ids db' := by
  obtain ⟨hposted, hmessages⟩ := h.posted.elsewhere hpart le_rfl
  refine ⟨hposted, ?_⟩
  rw [hmessages]
  refine h.told.congr (fun operationId => ?_)
  rw [Database.operationViews, hrows, Table.get?_put, Database.operationViews]
  split
  · rename_i heq
    rw [← heq, hold]
    exact congrArg (fun view => some (some view)) hview
  · rfl

/-- An event about a task. -/
theorem note (h : OperationsTold env ids db) (hinj : Function.Injective env.uuid)
    {fields : EventFields} (occurredAt : ℚ) (column : List (PyKey × PyVal))
    (hpart : db'.outboxPart = db.outboxPart) (hrows : db'.operations = db.operations)
    (hop : fields.operationId = none) :
    OperationsTold env (ids + 1)
      (db'.withEvent fields (env.newId "evt" ids) occurredAt column) := by
  obtain ⟨hposted, hmessages⟩ := h.posted.elsewhere hpart le_rfl
  obtain ⟨hposted', hmessages'⟩ := hposted.withEvent hinj fields occurredAt column
  refine ⟨hposted', ?_⟩
  rw [hmessages', hmessages]
  have hnone : operationAccount.about (fields.message (env.newId "evt" ids) column) = none := hop
  refine (h.told.aside hnone).congr (fun operationId => ?_)
  show (db'.operations.get? operationId).map (fun op => some op.view) = _
  rw [hrows]
  rfl

/-- **A row and the event that tells of it.** -/
theorem post (h : OperationsTold env ids db) (hinj : Function.Injective env.uuid) (row : Operation)
    (fields : EventFields) (occurredAt : ℚ) {column : List (PyKey × PyVal)}
    (hpart : db'.outboxPart = db.outboxPart) (hrows : db'.operations = db.operations.put row)
    (hop : fields.operationId = some row.operationId)
    (htells : OperationView.after ((db.operations.get? row.operationId).map Operation.view)
      (fields.message (env.newId "evt" ids) column) = some row.view) :
    OperationsTold env (ids + 1)
      (db'.withEvent fields (env.newId "evt" ids) occurredAt column) := by
  obtain ⟨hposted, hmessages⟩ := h.posted.elsewhere hpart le_rfl
  obtain ⟨hposted', hmessages'⟩ := hposted.withEvent hinj fields occurredAt column
  refine ⟨hposted', ?_⟩
  rw [hmessages', hmessages]
  refine h.told.append (k := row.operationId) (v := some row.view) hop ?_ (fun other hne => ?_)
    (fun old hold => ?_) (fun hnone => ?_)
  · show (db'.operations.get? row.operationId).map (fun op => some op.view) = _
    rw [hrows, Table.get?_put_self]
    rfl
  · show (db'.operations.get? other).map (fun op => some op.view) = _
    rw [hrows, Table.get?_put_ne _ (fun heq => hne heq.symm)]
    rfl
  · obtain ⟨stored, hstored, rfl⟩ := Option.map_eq_some_iff.mp hold
    rw [hstored] at htells
    exact congrArg (Option.map some) htells
  · have hnot : db.operations.get? row.operationId = none := Option.map_eq_none_iff.mp hnone
    rw [hnot] at htells
    exact congrArg (Option.map some) htells

end OperationsTold

/-! ## Every call keeps it

A transition that is stored without an event has to leave the view as it is, and one with an event
to move it by that.
-/

/-- A living engine whose store holds what memory holds, and tells its operations.  The mirror is
needed as rows are overwritten from memory. -/
abbrev Recounts (env : Env) (s : Sys) : Prop := Mirrors env s ∧ OperationsTold env s.ids s.db

/-- What a process leaves to the next. -/
abbrev Recounted (env : Env) (s : Sys) : Prop := Decoded env s ∧ OperationsTold env s.ids s.db

namespace Recounts

variable {env : Env} {s t : Sys}

/-- What a call does besides its writes of tasks and operations posts nothing about an operation. -/
theorem aside (h : OperationsTold env s.ids s.db) (ht : Aside s t) :
    OperationsTold env t.ids t.db := h.posts ht.posts ht.dbOperations ht.ids

/-- A transition is stored with the event that tells of it, or without one where there is nothing to
tell. -/
theorem ends_stored (hinj : Function.Injective env.uuid) (hmirror : Mirrors env s)
    (h : OperationsTold env s.ids s.db) {op op' : Operation}
    (hop : s.operations.get? op.operationId = some op) (hid : op'.operationId = op.operationId)
    (hfields : op.overwrite op' = op') (hexact : op'.Exact) {how : OpStore}
    (hsaved : how = .saved → op'.view = op.view)
    (hrecorded : ∀ eventType actor payload, how = .recorded eventType actor payload →
      ∀ message : Message, message.eventType = eventType →
        PyVal.jsonDumpsItems payload = some message.payload → op.view.step message = some op'.view) :
    Ends (fun _ t => OperationsTold env t.ids t.db) (fun _ t => OperationsTold env t.ids t.db)
      (storeOp env op'.operationId how) (s.assigned op') := by
  have hget := s.get?_assigned op'
  have hstill : (s.assigned op').persistent = true := hmirror.persistent
  have hrow := hmirror.row hop
  -- the row already has what the upsert leaves out, so it becomes the operation itself
  have hwritten : s.db.operationRow op' = op' := by
    unfold Database.operationRow
    rw [hid, hrow]
    exact hfields
  rw [← hid] at hrow
  cases how with
  | saved =>
      refine ends_saveOp hstill hget (fun _ _ => h) (fun row hencoded => ?_)
      cases hexact.encoded.symm.trans hencoded
      have htold : OperationsTold env s.ids ((s.assigned op').savedOp op').db := by
        refine h.save rfl ?_ hrow (hsaved rfl)
        show s.db.operations.put (s.db.operationRow op') = _
        rw [hwritten]
      exact ⟨htold, htold⟩
  | recorded eventType actor payload =>
      refine ends_recordOp hstill hget
        (fun _ _ => h.posts (.elsewhere rfl) rfl (Nat.le_succ _))
        (fun row fields column hencoded htype hcolumn => ?_)
      cases hexact.encoded.symm.trans hencoded
      have htold : OperationsTold env (s.ids + 1)
          ((s.assigned op').recordedOp env op' fields column).db := by
        refine h.post hinj op' { fields with
          taskId := some op'.taskId, operationId := some op'.operationId
          objectRefs := op'.objectRefs } _ rfl ?_ rfl ?_
        · show s.db.operations.put (s.db.operationRow op') = _
          rw [hwritten]
        · rw [hrow]
          exact hrecorded eventType actor payload rfl _ htype hcolumn
      exact ⟨htold, htold⟩

/-- A change of a task posts an event of the task, which no operation is told by. -/
theorem changes (hinj : Function.Injective env.uuid) (h : Recounts env s) (taskId : String) :
    Changes env s taskId (fun _ t => Recounts env t) (Left (Recounts env) (Recounted env)) where
  persistent := h.1.persistent
  unchanged := h
  raised := fun _ _ => h
  died := fun task new hget hnew =>
    ⟨(h.1.changes taskId).died task new hget hnew, h.2.posts (.elsewhere rfl) rfl le_rfl⟩
  recorded := by
    intro task new fields column hget hnew hop hchange hcolumn
    have htold : OperationsTold env (s.ids + 1)
        ((s.touchedTask new).recordedTask env new.touched fields column).db :=
      h.2.note hinj _ column rfl rfl hop
    have hmirrors := (h.1.changes taskId).recorded task new fields column hget hnew hop hchange hcolumn
    exact ⟨⟨hmirrors.1, htold⟩, ⟨hmirrors.2, htold⟩⟩

/-- So does the creation of a task. -/
theorem created (hinj : Function.Injective env.uuid) (h : OperationsTold env s.ids s.db)
    (hpersistent : s.persistent = true) (goal : String) (successCriteria : List String)
    (workspaceId : String) (constraints : List String) (lane : String) (priority : Int)
    (budget : TaskBudget) :
    Ends (fun _ t => OperationsTold env t.ids t.db) (fun _ t => OperationsTold env t.ids t.db)
      (createTask env goal successCriteria workspaceId constraints lane priority budget) s := by
  let task := newTask env s goal successCriteria workspaceId constraints lane priority budget
  have hbase : OperationsTold env (s.ids + 1) (s.createdTask task).db :=
    h.posts (.elsewhere rfl) rfl (Nat.le_succ _)
  refine ends_createTask hpersistent goal successCriteria workspaceId constraints lane priority
    budget rfl hbase (fun fields column hop _ _ => ?_)
  have htold : OperationsTold env (s.ids + 1 + 1)
      ((s.createdTask task).recordedTask env task fields column).db :=
    hbase.note hinj _ column rfl rfl hop
  exact ⟨htold, htold⟩

/-- An operation is stored with its first event. -/
theorem started (hinj : Function.Injective env.uuid) (h : Recounts env s) {task : Task}
    (proposal : ActionProposal) (spec : ActionSpec) (expectedRevisions : List (String × Int))
    (taskLease : Option TaskLease) (resourceLease : Option ResourceLease) (clockReads : ℕ)
    (hjson : PyVal.jsonDumpsItems proposal.arguments = some proposal.arguments) :
    Ends (fun _ t => OperationsTold env t.ids t.db) (fun _ t => OperationsTold env t.ids t.db)
      (startOperation env task (proposal.operation (env.newId "op" s.ids) task spec
        expectedRevisions taskLease resourceLease))
      { s with ids := s.ids + 1, clockReads := clockReads } := by
  let base : Sys := { s with ids := s.ids + 1, clockReads := clockReads }
  let op := proposal.operation (env.newId "op" s.ids) task spec expectedRevisions taskLease
    resourceLease
  have hexact : op.Exact := ⟨hjson, rfl, rfl⟩
  have hbase : OperationsTold env (s.ids + 1) (base.startedTask task).db :=
    h.2.posts (.elsewhere rfl) rfl (Nat.le_succ _)
  have hnone : s.db.operations.get? op.operationId = none :=
    Table.get?_eq_none.mpr (fun row hrow heq => h.1.decoded.unused row hrow s.ids le_rfl heq)
  have hwritten : s.db.operationRow op = op := by
    unfold Database.operationRow
    rw [hnone]
  have hstill : base.persistent = true := h.1.persistent
  refine ends_startOperation hstill rfl hbase (fun hfailed => ?_)
    (fun row fields column hencoded htype => ?_)
  · cases hfailed.symm.trans hexact.encoded
  cases hexact.encoded.symm.trans hencoded
  have htold : OperationsTold env (s.ids + 1 + 1)
      ((base.opened task op).recordedStart env task.started op fields column).db := by
    refine hbase.post hinj op { fields with
      taskId := some op.taskId, operationId := some op.operationId
      objectRefs := op.objectRefs } _ rfl ?_ rfl ?_
    · show s.db.operations.put (s.db.operationRow op) = _
      rw [hwritten]
      rfl
    · have hunknown : (base.startedTask task).db.operations.get? op.operationId = none := hnone
      rw [hunknown]
      exact if_pos htype
  exact ⟨htold, htold⟩

/-- A new process recounts what it loads. -/
theorem restarted (h : Recounted env s) (registry : CapabilityRegistry)
    (capabilities : List String) (broker : Option ResourceBroker) :
    Recounts env (s.restart registry capabilities broker) :=
  ⟨.restarted h.1 registry capabilities broker, h.2.posts (.elsewhere rfl) rfl le_rfl⟩

end Recounts

/-- A new database has nothing to recount. -/
theorem Recounted.fresh {env : Env} {s : Sys} (hs : s.db = {}) : Recounted env s := by
  refine ⟨.fresh hs, ?_⟩
  rw [hs]
  exact ⟨.fresh env s.ids, .nil⟩

end LiandanluNative
