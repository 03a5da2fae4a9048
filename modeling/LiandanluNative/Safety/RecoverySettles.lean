/-
# LiandanluNative.Safety.RecoverySettles — what a recovery makes of interrupted operations.

`recover` hands every operation that is not at rest to `recover_operation`, which settles it, with
one exception: an operation that was observed to have no result is passed over by both branches.  It
is stuck there, over this restart and every later one (`recovery_settles_iff`).

The loop goes through the operations as they were when it started, and each of its rounds changes
the one it is about (`Recovering`): the rest are still where they were, and those it came to are
settled from where they were.  What follows the loop, the settling of requests and the delivery of
the outbox, is shown to end, so that what stands in the way of a recovery is an operation and
nothing else.
-/
import LiandanluNative.Runtime.Encoding
import LiandanluNative.Runtime.Lasting

namespace LiandanluNative

open Lib (Table)
open Lib.Proc

/-! ## The states operations get into

No run leaves an operation in any other state, so a recovery finds no others in the store.
-/

/-- A result that is there is there after the round trip, and one that is not is not. -/
theorem PyVal.jsonDumps_isNone {x y : PyVal} (h : x.jsonDumps = some y) : y.isNone = x.isNone := by
  cases x <;> simp only [PyVal.jsonDumps, Option.some.injEq, Option.map_eq_some_iff] at h
  case other => cases h
  case list | tuple | dict => obtain ⟨_, _, rfl⟩ := h; rfl
  all_goals rw [← h]

/-- A state operations get into, with a result to verify where it is VERIFYING. No run leaves an
operation anywhere else. -/
def Operation.InCourse (op : Operation) : Prop :=
  op.state ∉ [.proposed, .authorized, .blocked] ∧ (op.state = .verifying → op.result.isNone = false)

/-- An operation in its course stays in it with every transition. -/
theorem Operation.InCourse.step {env : Env} {findings : List Finding} {op op' : Operation}
    {how : OpStore} (h : op.InCourse) (hstep : op.Step env findings how op') : op'.InCourse := by
  cases hstep with
  | verifying hstate hsome => exact ⟨by simp, fun _ => hsome⟩
  | unverified e hstate => exact h
  | judged n evidence items passed => cases passed <;> exact ⟨by simp [judged], by simp [judged]⟩
  | reconciled n locators verified result =>
      cases htruthy : verified.truthy <;>
        exact ⟨by simp [reconciled, htruthy], by simp [reconciled, htruthy]⟩
  | _ => exact ⟨by simp, by simp⟩

/-- The way through the row. -/
theorem Operation.InCourse.encoded {op row : Operation} (h : op.InCourse)
    (hencoded : op.encoded = some row) : row.InCourse := by
  obtain ⟨_, _, result, _, _, hresult, hrow⟩ := Operation.encoded_eq hencoded
  rw [Operation.InCourse, hrow]
  exact ⟨h.1, fun hverifying => (PyVal.jsonDumps_isNone hresult).trans (h.2 hverifying)⟩

/-- Every operation is in a state operations get into, and every row came through JSON. -/
theorem inCourse_lasts (env : Env) :
    Lasting env (fun _ => True) (fun _ op => op.InCourse)
      (fun _ row => row.InCourse ∧ row.encoded = some row) where
  grows := fun _ => ⟨fun h => h, fun h => h⟩
  fresh := by
    intro _ op hstate _ _
    rw [Operation.InCourse, hstate]
    exact ⟨by simp, by simp⟩
  begun := fun _ _ => ⟨by simp [Operation.begun], by simp [Operation.begun]⟩
  step := fun h hstep => h.step hstep
  unjudged := fun h _ _ _ _ => h
  stored := fun h hencoded => ⟨h.encoded hencoded, Operation.encoded_idem hencoded⟩
  overwritten := by
    intro _ op row old h hencoded hold _
    have hrow : (old.overwrite row).InCourse :=
      ⟨(h.encoded hencoded).1, (h.encoded hencoded).2⟩
    exact ⟨hrow, Operation.encoded_overwrite hold.2 (Operation.encoded_idem hencoded)⟩
  loaded := fun h => h.1

/-- An operation at rest is settled. -/
theorem Operation.InCourse.settled {op : Operation} (h : op.InCourse)
    (hrest : op.state.unsettled = false) : op.settled := by
  have hcourse := h.1
  refine Or.inl ?_
  cases hstate : op.state <;> simp_all [OperationState.unsettled]

/-! ## The loop of `recover` -/

section

variable {env : Env} {I : Sys → Prop} {E : Fault → Sys → Prop} {s t u : Sys}

/-- What became in `t` of the operation that was `operationId` in `u`. -/
structure SettledFrom (u t : Sys) (operationId : String) : Prop where
  absent : u.operations.get? operationId = none → t.operations.get? operationId = none
  stuck : ∀ op, u.operations.get? operationId = some op → op.stuck →
    t.operations.get? operationId = some op
  settled : ∀ op, u.operations.get? operationId = some op → ¬ op.stuck → t.HasSettled operationId

/-- An operation that was there: what became of it. -/
theorem SettledFrom.of_found {operationId : String} {op : Operation}
    (hop : u.operations.get? operationId = some op)
    (hstuck : op.stuck → t.operations.get? operationId = some op)
    (hsettled : ¬ op.stuck → t.HasSettled operationId) : SettledFrom u t operationId := by
  refine ⟨fun hnone => ?_, fun op' hop' => ?_, fun op' hop' => ?_⟩
  · cases hnone.symm.trans hop
  · cases hop'.symm.trans hop
    exact hstuck
  · cases hop'.symm.trans hop
    exact hsettled

/-- Whether an operation was settled from where it was is seen at the operation alone. -/
theorem SettledFrom.congr {operationId : String} (h : SettledFrom u s operationId)
    (hstill : t.operations.get? operationId = s.operations.get? operationId) :
    SettledFrom u t operationId where
  absent := fun hnone => hstill.trans (h.absent hnone)
  stuck := fun op hop hstuck => hstill.trans (h.stuck op hop hstuck)
  settled := by
    intro op hop hfree
    obtain ⟨settled, hsettled, hrest⟩ := h.settled op hop hfree
    exact ⟨settled, hstill.trans hsettled, hrest⟩

/-- Nothing happens to operations but to the one. -/
def Allowance.onlyOperation (operationId : String) : Allowance :=
  { Allowance.free with operation := fun id _ _ => id = operationId }

/-- Leaving all other operations alone is closed: what does it twice does it. -/
theorem Allowance.onlyOperation_closed (operationId : String) :
    (Allowance.onlyOperation operationId).Closed where
  task := fun _ _ _ _ _ _ => trivial
  operation := fun _ _ _ _ h _ => h
  world := fun _ _ _ _ _ => trivial

/-- The other operations are as they were. -/
theorem Moves.operation_ne {operationId id : String} (h : Moves (.onlyOperation operationId) s t)
    (hne : id ≠ operationId) : t.operations.get? id = s.operations.get? id :=
  ((h.operations id).still (fun _ hsame => hne hsame)).1

/-- The loop where `rest` is left of the operations of `u`. -/
structure Recovering (I : Sys → Prop) (u : Sys) (rest : List String) (t : Sys) : Prop where
  kept : I t
  nodup : rest.Nodup
  waiting : ∀ id ∈ rest, t.operations.get? id = u.operations.get? id
  done : ∀ id, id ∉ rest → SettledFrom u t id

/-- One operation is done, and the others are as they were. -/
theorem Recovering.next {id : String} {rest : List String} (hs : Recovering I u (id :: rest) s)
    (hkept : I t) (hothers : ∀ other, other ≠ id →
      t.operations.get? other = s.operations.get? other)
    (hdone : SettledFrom u t id) : Recovering I u rest t := by
  obtain ⟨hnew, hnodup⟩ := List.nodup_cons.mp hs.nodup
  refine ⟨hkept, hnodup, fun other hother => ?_, fun other hother => ?_⟩
  · have hne : other ≠ id := fun heq => hnew (heq ▸ hother)
    exact (hothers other hne).trans (hs.waiting other (List.mem_cons_of_mem _ hother))
  · by_cases heq : other = id
    · rw [heq]
      exact hdone
    · have hleft : other ∉ id :: rest := by
        intro hin
        rcases List.mem_cons.mp hin with hsame | hin
        · exact heq hsame
        · exact hother hin
      exact (hs.done other hleft).congr (hothers other heq)

/-- At the start of a recovery all operations are still to come. -/
theorem Recovering.start (hu : I u) :
    Recovering I u (u.operations.rows.map Operation.operationId) u := by
  refine ⟨hu, u.operations.nodup, fun _ _ => rfl, fun id hid => ?_⟩
  have hnone : u.operations.get? id = none := by
    refine Table.get?_eq_none.mpr (fun op hop heq => hid ?_)
    exact List.mem_map.mpr ⟨op, hop, heq⟩
  refine ⟨fun _ => hnone, fun op hop => ?_, fun op hop => ?_⟩
  · cases hnone.symm.trans hop
  · cases hnone.symm.trans hop

/-- **The first loop of `recover`** settles every operation that was not stuck. -/
theorem OperationRules.recoverAll (h : OperationRules env I E) (hu : I u)
    (hcourse : ∀ op ∈ u.operations.rows, op.InCourse)
    (hmissing : ∀ {s op}, I s → s.operations.get? op.operationId = some op →
      op.capability ∉ s.capabilities → E (.raised (keyError op.capability)) s) :
    Ends (fun _ t => I t ∧ ∀ id, SettledFrom u t id) E
      (countM (recoverIfUnsettled env) (u.operations.rows.map Operation.operationId)) u := by
  refine (ends_countM_rows u.operations (fun op hmem rest s hs => ?_) (Recovering.start hu)).mono
    (fun _ t ht => ⟨ht.kept, fun id => ht.done id List.not_mem_nil⟩) (fun _ _ ht => ht)
  have hop₀ : u.operations.get? op.operationId = some op := Table.get?_of_mem hmem
  have hop : s.operations.get? op.operationId = some op :=
    (hs.waiting op.operationId List.mem_cons_self).trans hop₀
  unfold recoverIfUnsettled
  refine Ends.bind (Ends.of_ok (getOperation_eq_ok.mpr ⟨hop, rfl⟩) ?_)
  split
  · rename_i hunsettled
    have hmoves := moves_recoverOperation (Allowance.onlyOperation_closed op.operationId) env
      (fun _ _ _ => rfl) (fun _ _ => rfl) s
    have hrecover := h.recoverOperation hs.kept hop (hmissing hs.kept hop)
    refine Ends.bind ⟨fun {_ t} hrun => Ends.pure ?_, fun hrun => hrecover.raised hrun⟩
    obtain ⟨hkept, hsame, hsettles⟩ := hrecover.returned hrun
    rw [after_of_ok hrun] at hmoves
    refine hs.next hkept (fun other hne => hmoves.operation_ne hne) ?_
    exact .of_found hop₀ (fun hstuck => hsame (Or.inl hstuck))
      (fun hfree => hsettles hfree hunsettled)
  · rename_i hrest
    have hsettled : op.settled := (hcourse op hmem).settled (Bool.eq_false_iff.mpr hrest)
    refine Ends.pure (hs.next hs.kept (fun _ _ => rfl) ?_)
    exact .of_found hop₀ (fun _ => hop) (fun _ => ⟨op, hop, hsettled⟩)

/-- The rest of `recover` leaves the operations alone, in memory and in the store. -/
theorem recover_eq_ok {counts : ℕ × ℕ} (hrun : recover env u = .ok counts t) :
    ∃ n v, countM (recoverIfUnsettled env) (u.operations.rows.map Operation.operationId) u = .ok n v ∧
      ∀ id, t.operations.get? id = v.operations.get? id ∧
        t.db.operations.get? id = v.db.operations.get? id := by
  have hA := Allowance.taskwork_closed
  have hF := Moves.frame hA
  unfold recover at hrun
  obtain ⟨_, _, hget, hrun⟩ := bind_eq_ok.mp hrun
  cases hget
  obtain ⟨n, v, hloop, hrun⟩ := bind_eq_ok.mp hrun
  refine ⟨n, v, hloop, fun id => ?_⟩
  have hsettle : ∀ id, Within (Moves .taskwork) (settleIfRequested env id) := by
    intro id
    have htouches : Allowance.taskwork.Touches id :=
      { keep := fun _ => trivial
        bump := fun _ => trivial
        world := fun _ => trivial }
    unfold settleIfRequested
    refine hF.bind (within_getTask hF id) (fun task => ?_)
    split
    · refine hF.bind (fun s => moves_settleControl hA env htouches _ _ (fun _ _ _ => trivial))
        (fun _ => ?_)
      exact hF.bind (within_getTask hF id) (fun _ => hF.pure _)
    · exact hF.pure _
  have hmoves : Moves .taskwork v t := by
    obtain ⟨_, _, hget, hrun⟩ := bind_eq_ok.mp hrun
    cases hget
    refine (hF.bind (countM_within hF hsettle _) (fun _ => ?_)).of_ok hrun
    exact hF.bind (moves_flushOutbox hA env) (fun _ => hF.pure _)
  exact (hmoves.operations id).still (fun _ hno => hno)

end

/-! ## Operations and their rows

A recovery goes by what is in memory, and the next one by the rows; so both have to show the same.
-/

/-- What settling is about. -/
def Operation.shown (op : Operation) : OperationState × Option String := (op.state, op.error)

/-- Whether an operation is settled is seen at what is shown of it. -/
theorem Operation.settled_congr {op op' : Operation} (h : op'.shown = op.shown) :
    op'.settled ↔ op.settled := by
  simp only [Operation.shown, Prod.mk.injEq] at h
  rw [Operation.settled, Operation.settled, h.1, h.2]

/-- Every operation has a row that shows what it shows, and there are no other rows. -/
structure Synced (s : Sys) : Prop where
  persistent : s.persistent = true
  shown : ∀ operationId, (s.operations.get? operationId).map Operation.shown
    = (s.db.operations.get? operationId).map Operation.shown

namespace Synced

variable {s : Sys}

/-- An operation was assigned to, and its row is stored. -/
theorem written (h : Synced s) {op row : Operation} (hencoded : op.encoded = some row)
    (operationId : String) :
    ((s.operations.put op).get? operationId).map Operation.shown
      = ((s.db.operations.put (s.db.operationRow row)).get? operationId).map Operation.shown := by
  obtain ⟨_, _, _, _, _, _, hrow⟩ := Operation.encoded_eq hencoded
  have hid : row.operationId = op.operationId := by rw [hrow]
  have hshown : (s.db.operationRow row).operationId = op.operationId ∧
      (s.db.operationRow row).shown = op.shown := by
    unfold Database.operationRow
    split
    · rename_i old hget
      have hold : old.operationId = row.operationId := Table.key_of_get? hget
      refine ⟨hold.trans hid, ?_⟩
      rw [hrow]
      rfl
    · refine ⟨hid, ?_⟩
      rw [hrow]
      rfl
  rw [Table.get?_put, Table.get?_put, hshown.1]
  split
  · rw [Option.map_some, Option.map_some, hshown.2]
  · exact h.shown operationId

theorem ends_stored {env : Env} (h : Synced s) (op : Operation) (how : OpStore) :
    Ends (fun _ t => Synced t) (fun _ _ => True) (storeOp env op.operationId how)
      (s.assigned op) := by
  have hget := s.get?_assigned op
  have hstill : (s.assigned op).persistent = true := h.persistent
  cases how with
  | saved =>
      refine ends_saveOp hstill hget (fun _ _ => trivial) (fun row hencoded => ?_)
      exact ⟨⟨h.persistent, h.written hencoded⟩, trivial⟩
  | recorded eventType actor payload =>
      refine ends_recordOp hstill hget (fun _ _ => trivial) (fun row _ _ hencoded _ _ => ?_)
      exact ⟨⟨h.persistent, h.written hencoded⟩, trivial⟩

/-- Operations and rows stay together over the transitions that are stored. -/
theorem rules (env : Env) : OperationRules env Synced (fun _ _ => True) where
  stored := by
    intro s op how op' h _ hstep
    rw [← hstep.operationId]
    exact h.ends_stored op' how
  called := fun _ _ _ _ h => ⟨h.persistent, h.shown⟩
  bounded := fun h => ⟨⟨h.persistent, h.shown⟩, trivial⟩
  interrupted := fun _ _ => trivial
  unusable := fun _ _ _ _ _ => trivial
  unjudged := fun _ _ _ _ _ _ => trivial

end Synced

/-! ## Recoveries return

Each part of a recovery is shown to raise nothing but what no handler of the source takes.
-/

/-- What goes through `except Exception`: the end of the process, and what is no `Exception`. -/
def Fault.Passes (fault : Fault) : Prop := ∀ e, fault = .raised e → e.isException = false

/-- The end of a process is no exception that a recovery would have to pass on. -/
theorem Fault.crash_passes : Fault.crash.Passes := fun _ h => by cases h

/-- Every operation can be stored, and has its capability: what a recovery needs to return. -/
structure Storable (capabilities : List String) (s : Sys) : Prop where
  persistent : s.persistent = true
  given : s.capabilities = capabilities
  operations : ∀ op ∈ s.operations.rows, op.Encodable ∧ op.capability ∈ capabilities

namespace Storable

variable {env : Env} {capabilities : List String} {s : Sys}

theorem ends_stored (h : Storable capabilities s) {op : Operation}
    (hop : s.operations.get? op.operationId = some op) {how : OpStore}
    (hpayload : ∀ eventType actor payload, how = .recorded eventType actor payload →
      ∃ column, PyVal.jsonDumpsItems payload = some column) :
    Ends (fun _ t => Storable capabilities t) (fun fault _ => fault.Passes)
      (storeOp env op.operationId how) s := by
  have hencoded := (h.operations op (Table.mem_of_get? hop)).1.encoded
  cases how with
  | saved =>
      refine ends_saveOp h.persistent hop (fun hnone => absurd hnone hencoded) (fun row _ => ?_)
      exact ⟨⟨h.persistent, h.given, h.operations⟩, Fault.crash_passes⟩
  | recorded eventType actor payload =>
      obtain ⟨column, hcolumn⟩ := hpayload eventType actor payload rfl
      refine ends_recordOp h.persistent hop (fun hnone => ?_) (fun row _ _ _ _ _ => ?_)
      · rcases hnone with hnone | hnone
        · exact absurd hnone hencoded
        · cases hnone.symm.trans hcolumn
      · exact ⟨⟨h.persistent, h.given, h.operations⟩, Fault.crash_passes⟩

theorem rules (hanswers : env.AnswersJson) (capabilities : List String) :
    OperationRules env (Storable capabilities) (fun fault _ => fault.Passes) where
  stored := by
    intro s op how op' h hop hstep
    obtain ⟨hencodable, hcapability⟩ := h.operations op (Table.mem_of_get? hop)
    obtain ⟨hnew, hpayload⟩ := hencodable.step hanswers hstep
    have hassigned : Storable capabilities (s.assigned op') := by
      refine ⟨h.persistent, h.given, fun other hother => ?_⟩
      rcases Table.mem_put.mp hother with rfl | ⟨hold, _⟩
      · refine ⟨hnew, ?_⟩
        rw [hstep.fields]
        exact hcapability
      · exact h.operations other hold
    rw [← hstep.operationId]
    exact hassigned.ends_stored (s.get?_assigned op') hpayload
  called := fun _ _ _ _ h => ⟨h.persistent, h.given, h.operations⟩
  bounded := fun h => ⟨⟨h.persistent, h.given, h.operations⟩, Fault.crash_passes⟩
  interrupted := by
    rintro s e _ hpasses _ ⟨⟩
    exact hpasses
  unusable := fun _ _ _ hanswer hnone => absurd hnone (hanswers.iterable hanswer)
  unjudged := fun _ _ _ hanswer hitems hverdict => absurd hverdict (hanswers.judged hanswer hitems)

end Storable

/-- A delivery does not raise. -/
theorem ends_dispatchRow (row : OutboxRow) (newId : String) (observedAt : ℚ) (db : Database) :
    Ends (fun _ _ => True) (fun _ _ => False) (dispatchRow row newId observedAt) db := by
  unfold dispatchRow
  dsimp only
  split
  · refine Ends.bind (Ends.modifying (Ends.bind (Ends.modifying (Ends.bind (Ends.modifying
      (Ends.bind (Ends.get ?_)))))))
    obtain ⟨event, hevent⟩ := Database.eventById_insertEvent _ row (row.deliveredId newId) observedAt
    rw [Database.eventById_updateOutbox, hevent]
    exact Ends.pure trivial
  · refine Ends.bind (Ends.modifying (Ends.bind (Ends.modifying (Ends.bind (Ends.get ?_)))))
    obtain ⟨event, hevent⟩ := db.eventById_insertEvent row (row.deliveredId newId) observedAt
    rw [Database.eventById_updateOutbox, hevent]
    exact Ends.pure trivial

/-- The delivery of rows that were read raises nothing. -/
theorem ends_dispatchRows (newId : Int → String) (observedAt : Int → ℚ) :
    ∀ (rows : List OutboxRow) (db : Database),
      Ends (fun _ _ => True) (fun _ _ => False) (dispatchRows newId observedAt rows) db
  | [], _ => Ends.pure trivial
  | row :: rows, db => by
      unfold dispatchRows
      refine Ends.bind_with (fun _ _ => True) (ends_dispatchRow _ _ _ db) (fun _ db' _ => ?_)
      refine Ends.bind_with (fun _ _ => True) (ends_dispatchRows newId observedAt rows db')
        (fun _ _ _ => Ends.pure trivial)

section

variable {env : Env} {s t u : Sys}

/-- So the delivery of the outbox ends, or the process does. -/
theorem ends_flushOutbox (hpersistent : s.persistent = true) :
    Ends (fun _ _ => True) (fun fault _ => fault = .crash) (flushOutbox env) s := by
  unfold flushOutbox dispatchOutbox
  refine Ends.bind (Ends.get ?_)
  rw [if_pos hpersistent]
  refine Ends.bind (Ends.get (Ends.bind (Ends.modifying (ends_store (fun e db hrun => ?_) ?_))))
  · exact ((ends_dispatchRows _ _ _ _).raised hrun).elim
  · exact fun _ _ _ => ⟨trivial, rfl⟩

/-- What the loop over the tasks makes of one: the control is settled, in memory and in the store. -/
structure TaskSettled (s : Sys) (task : Task) (t : Sys) : Prop where
  persistent : t.persistent = true
  operations : t.operations = s.operations ∧ t.db.operations = s.db.operations
  tasks : ∃ task', (task.desiredState ∈ [.paused, .cancelled] → task'.state = task.desiredState) ∧
    ((task' = task ∧ t.tasks = s.tasks ∧ t.db.tasks = s.db.tasks) ∨
      (task'.taskId = task.taskId ∧ t.tasks = s.tasks.put task' ∧
        t.db.tasks = s.db.tasks.put task'))

/-- A task that is there does not go away. -/
theorem TaskSettled.stays {task : Task} (h : TaskSettled s task t) {id : String} {old : Task}
    (hold : s.tasks.get? id = some old) : ∃ task', t.tasks.get? id = some task' := by
  obtain ⟨task', _, ⟨_, hsame, _⟩ | ⟨_, hput, _⟩⟩ := h.tasks
  · rw [hsame]
    exact ⟨old, hold⟩
  · rw [hput, Table.get?_put]
    split
    · exact ⟨_, rfl⟩
    · exact ⟨old, hold⟩

/-- The settling of a request after a recovery ends likewise, with the task settled. -/
theorem ends_settleIfRequested (hpersistent : s.persistent = true) {taskId : String} {task : Task}
    (hget : s.tasks.get? taskId = some task) :
    Ends (fun _ t => TaskSettled s task t) (fun fault _ => fault = .crash)
      (settleIfRequested env taskId) s := by
  have hlook : getTask taskId s = .ok task s := getTask_eq_ok.mpr ⟨hget, rfl⟩
  have hid : task.taskId = taskId := Table.key_of_get? hget
  unfold settleIfRequested
  refine Ends.bind (Ends.of_ok hlook ?_)
  split
  swap
  · rename_i hno
    exact Ends.pure ⟨hpersistent, ⟨rfl, rfl⟩, task, fun hrequested => absurd hrequested hno,
      Or.inl ⟨rfl, rfl, rfl⟩⟩
  rename_i hrequested
  have hstate : (task.settled true false).state = task.desiredState := by
    rcases (by simpa using hrequested : task.desiredState = .paused ∨ task.desiredState = .cancelled)
      with h | h <;> simp [Task.settled, h]
  -- the last lookup only counts
  have hcount : ∀ t, TaskSettled s task t → Ends (fun _ t => TaskSettled s task t)
      (fun fault _ => fault = .crash)
      (getTask taskId >>= fun settled => pure (decide (settled.state ≠ task.state))) t := by
    intro t ht
    obtain ⟨task', htask'⟩ := ht.stays hget
    exact Ends.bind (Ends.of_ok (getTask_eq_ok.mpr ⟨htask', rfl⟩) (Ends.pure ht))
  refine Ends.bind_with (fun _ t => TaskSettled s task t) ?_ (fun _ t ht => hcount t ht)
  unfold settleControl
  refine Ends.bind (Ends.of_ok hlook ?_)
  dsimp only
  split
  · have hjson : ∃ column, PyVal.jsonDumpsItems (PyVal.payload
        [("desired", .str task.desiredState.value),
          ("actual", .str (task.settled true false).state.value)]) = some column :=
      PyVal.jsonDumpsItems_payload (by simp [PyVal.jsonDumps])
    have hsettledId : (task.settled true false).taskId = task.taskId := settled_taskId _ _ _
    refine ends_change hpersistent (task.settled true false) (hsettledId.trans hid) hjson rfl
      (fun column _ => ⟨⟨hpersistent, ⟨rfl, rfl⟩, (task.settled true false).touched, ?_, ?_⟩, rfl⟩)
    · exact fun _ => hstate
    · exact Or.inr ⟨hsettledId, rfl, rfl⟩
  · rename_i hsame
    refine Ends.pure ⟨hpersistent, ⟨rfl, rfl⟩, task, fun _ => ?_, Or.inl ⟨rfl, rfl, rfl⟩⟩
    exact (not_ne_iff.mp hsame).symm.trans hstate

/-- **Where capabilities answer in JSON, `recover` returns**, unless the process ends or is
interrupted. -/
theorem ends_recover (hanswers : env.AnswersJson) (hu : Storable u.capabilities u)
    (hcourse : ∀ op ∈ u.operations.rows, op.InCourse) :
    Ends (fun _ _ => True) (fun fault _ => fault.Passes) (recover env) u := by
  unfold recover
  refine Ends.bind (Ends.get ?_)
  refine Ends.bind_with (fun _ t => Storable u.capabilities t ∧ ∀ id, SettledFrom u t id)
    ((Storable.rules hanswers u.capabilities).recoverAll hu hcourse ?_) (fun _ t ht => ?_)
  · intro s op hs hop hmissing
    rw [hs.given] at hmissing
    exact absurd (hs.operations op (Table.mem_of_get? hop)).2 hmissing
  refine Ends.bind (Ends.get ?_)
  let J := fun (rest : List String) (v : Sys) =>
    v.persistent = true ∧ ∀ id ∈ rest, ∃ task, v.tasks.get? id = some task
  have hstart : J (t.tasks.rows.map Task.taskId) t := by
    refine ⟨ht.1.persistent, fun id hid => ?_⟩
    obtain ⟨task, htask, rfl⟩ := List.mem_map.mp hid
    exact ⟨task, Table.get?_of_mem htask⟩
  refine Ends.bind_with (fun _ v => J [] v) (ends_countM _ t ?_ hstart) (fun _ v hv => ?_)
  · rintro id _ rest s ⟨hpersistent, hthere⟩
    obtain ⟨task, hget⟩ := hthere id List.mem_cons_self
    refine (ends_settleIfRequested hpersistent hget).mono (fun _ v hv => ?_) ?_
    · refine ⟨hv.persistent, fun other hother => ?_⟩
      obtain ⟨task', htask'⟩ := hthere other (List.mem_cons_of_mem _ hother)
      exact hv.stays htask'
    · rintro _ _ rfl
      exact Fault.crash_passes
  refine Ends.bind ((ends_flushOutbox hv.1).mono (fun _ _ _ => Ends.pure trivial) ?_)
  rintro _ _ rfl
  exact Fault.crash_passes

end

/-! ## Recoveries -/

/-- No operation is left where an interruption left it, in memory or in the store. -/
def Sys.AllSettled (s : Sys) : Prop :=
  (∀ op ∈ s.operations.rows, op.settled) ∧ ∀ row ∈ s.db.operations.rows, row.settled

/-- What a recovery that returned has settled. -/
theorem settled_iff_of_recovered {env : Env} {u t : Sys} {counts : ℕ × ℕ} (hsynced : Synced u)
    (hcourse : ∀ op ∈ u.operations.rows, op.InCourse) (hrun : recover env u = .ok counts t) :
    t.AllSettled ↔ ∀ op ∈ u.operations.rows, op.state = .observed → op.result.isNone = false := by
  obtain ⟨n, v, hloop, hrest⟩ := recover_eq_ok hrun
  obtain ⟨hv, hsettled⟩ :=
    ((Synced.rules env).recoverAll hsynced hcourse (fun _ _ _ => trivial)).returned hloop
  have hmemory : ∀ id, SettledFrom u t id := fun id => (hsettled id).congr (hrest id).1
  constructor
  · intro hall op hop hobserved
    -- an observed operation without a result is still there, and is not settled
    cases hnone : op.result.isNone with
    | false => rfl
    | true =>
        have hstuck : op.stuck := ⟨by simp [hobserved], hnone⟩
        have hstill := (hmemory op.operationId).stuck op (Table.get?_of_mem hop) hstuck
        have hsettled := hall.1 op (Table.mem_of_get? hstill)
        simp [Operation.settled, hobserved] at hsettled
  · intro hresults
    have hfree : ∀ op ∈ u.operations.rows, ¬ op.stuck := by
      rintro op hop ⟨hstate, hnone⟩
      simp only [List.mem_cons, List.not_mem_nil, or_false] at hstate
      rcases hstate with hstate | hstate
      · rw [hresults op hop hstate] at hnone
        cases hnone
      · rw [(hcourse op hop).2 hstate] at hnone
        cases hnone
    have hall : ∀ op ∈ t.operations.rows, op.settled := by
      intro op hop
      have hget := Table.get?_of_mem hop
      cases hbefore : u.operations.get? op.operationId with
      | none => cases ((hmemory op.operationId).absent hbefore).symm.trans hget
      | some old =>
          obtain ⟨op', hop', hop'settled⟩ := (hmemory op.operationId).settled old hbefore
            (hfree old (Table.mem_of_get? hbefore))
          cases hop'.symm.trans hget
          exact hop'settled
    refine ⟨hall, fun row hrow => ?_⟩
    have hshown := hv.shown row.operationId
    rw [← (hrest row.operationId).1, ← (hrest row.operationId).2, Table.get?_of_mem hrow,
      Option.map_some, Option.map_eq_some_iff] at hshown
    obtain ⟨op, hop, hsame⟩ := hshown
    exact (Operation.settled_congr hsame.symm).mpr (hall op (Table.mem_of_get? hop))

/-- **Recovery settles every interrupted operation, except the observed one without a result.**
Take whatever any run of an engine leaves in the store, the process ending at any boundary, and a
new process that recovers it.

If `recover` returns, every operation is settled after it if and only if no row was OBSERVED without
a result.  It returns, unless the process ends or is interrupted again, where it has the capability
of every row and the capabilities answer in JSON. -/
theorem recovery_settles_iff (env : Env) (s : Sys) (hs : s.NoOperations) (calls : List Call)
    (registry : CapabilityRegistry) (capabilities : List String) (broker : Option ResourceBroker) :
    (∀ counts t, recover env ((runCalls env s calls).restart registry capabilities broker)
        = .ok counts t →
      (t.AllSettled ↔ ∀ row ∈ (runCalls env s calls).db.operations.rows,
        row.state = .observed → row.result.isNone = false)) ∧
    (env.AnswersJson →
      (∀ row ∈ (runCalls env s calls).db.operations.rows, row.capability ∈ capabilities) →
      ∀ fault t, recover env ((runCalls env s calls).restart registry capabilities broker)
        = .error fault t → fault.Passes) := by
  have halong : Along env (Call.Begins fun _ => True) s calls := by
    clear hs
    induction calls generalizing s with
    | nil => trivial
    | cons call calls ih => exact ⟨fun _ _ _ _ => trivial, ih _⟩
  have hrows := ((inCourse_lasts env).run (fun _ _ _ => trivial) (Holds.none hs) halong).rows
  have hcourse := fun row hrow => (hrows row hrow).1
  let u := (runCalls env s calls).restart registry capabilities broker
  constructor
  · exact fun counts t hrun => settled_iff_of_recovered ⟨rfl, fun _ => rfl⟩ hcourse hrun
  · intro hanswers hcover fault t hrun
    have hstorable : Storable u.capabilities u := by
      refine ⟨rfl, rfl, fun op hop => ⟨?_, hcover op hop⟩⟩
      exact Operation.Encodable.of_encoded (hrows op hop).2
    exact (ends_recover hanswers hstorable hcourse).raised hrun

/-- The capability returns nothing, and the process ends after that was stored. -/
def emptyEnv : Env :=
  { Small.env with execute := fun _ _ _ => .ok .none, dies := fun n => decide (n = 11) }

/-- The operation stays OBSERVED. -/
theorem recovery_settles_fails :
    ¬ ∀ (env : Env) (s : Sys) (calls : List Call) (registry : CapabilityRegistry)
      (capabilities : List String) (broker : Option ResourceBroker) (counts : ℕ × ℕ) (t : Sys),
      s.NoOperations →
      (∀ row ∈ (runCalls env s calls).db.operations.rows, row.capability ∈ capabilities) →
      recover env ((runCalls env s calls).restart registry capabilities broker) = .ok counts t →
      t.AllSettled := by
  intro h
  let u := (runCalls emptyEnv Small.start Small.oneStep).restart Small.start.registry ["editor"] none
  have hreturns : returns (recover emptyEnv) u = some (1, 0) := by decide +kernel
  obtain ⟨t, hrun⟩ := returns_eq_some.mp hreturns
  have hsettled := h emptyEnv Small.start Small.oneStep Small.start.registry ["editor"] none (1, 0) t
    ⟨rfl, rfl, rfl⟩ (by decide +kernel) hrun
  have hstuck : (after (recover emptyEnv) u).operations.rows.map Operation.state = [.observed] := by
    decide +kernel
  rw [after_of_ok hrun] at hstuck
  obtain ⟨op, hop, hobserved⟩ := List.mem_map.mp (hstuck ▸ List.mem_singleton_self _ :
    OperationState.observed ∈ t.operations.rows.map Operation.state)
  have hop := hsettled.1 op hop
  simp [Operation.settled, hobserved] at hop

/-- The capability returns something, and the process ends after that was stored. -/
def observedEnv : Env := { Small.env with dies := fun n => decide (n = 11) }

/-- Observed with a result, the operation is verified by the next process. -/
theorem recovery_settles_observed :
    ∃ counts t, recover observedEnv ((runCalls observedEnv Small.start Small.oneStep).restart
        Small.start.registry ["editor"] none) = .ok counts t ∧ t.AllSettled := by
  have hreturns : returns (recover observedEnv) ((runCalls observedEnv Small.start
      Small.oneStep).restart Small.start.registry ["editor"] none) = some (1, 0) := by
    decide +kernel
  obtain ⟨t, hrun⟩ := returns_eq_some.mp hreturns
  refine ⟨(1, 0), t, hrun, ?_⟩
  refine ((recovery_settles_iff observedEnv Small.start ⟨rfl, rfl, rfl⟩ Small.oneStep
    Small.start.registry ["editor"] none).1 (1, 0) t hrun).mpr ?_
  decide +kernel

end LiandanluNative
