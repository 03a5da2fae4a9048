/-
# LiandanluNative.Safety.GoalEvidence — no task is COMPLETED without evidence.

Only `evaluate_goal` makes a task COMPLETED, and only if every criterion has a claim that passed and
names evidence.  Everything else that writes the state of a task writes another state, or keeps the
one it has; rows are copies of tasks.  So behind every COMPLETED task of a run, in memory or in the
store, stands an evaluation of the run (`completion_backed`).

The run enters by its calls: an evaluation made once is among them for ever (`Evidenced.grows`).  So
the invariant of a run is `Supported`, and a call keeps it if each of its assignments either keeps
the state of its task or takes one that is not COMPLETED; an evaluation is the one that need not.
-/
import LiandanluNative.Runtime.CallMoves
import LiandanluNative.Runtime.Commits
import LiandanluNative.Runtime.Standing

namespace LiandanluNative

open Lib (Table)
open Lib.Proc Lib.WriteThrough

/-! ## Evidence for a goal -/

/-- The claim made for the criterion passed, and refers to evidence. -/
def Backs (claims : List (String × GoalClaim)) (criterion : String) : Prop :=
  ∃ entry, claims.find? (fun entry => decide (entry.1 = criterion)) = some entry ∧
    entry.2.passed = true ∧ entry.2.evidenceRefs ≠ []

/-- That is what `evaluate_goal` looks at. -/
theorem claimPasses_iff {claims : List (String × GoalClaim)} {criterion : String} :
    Task.claimPasses claims criterion = true ↔ Backs claims criterion := by
  unfold Task.claimPasses Backs
  cases claims.find? (fun entry => decide (entry.1 = criterion)) with
  | none => simp
  | some entry => simp [List.isEmpty_eq_false_iff]

/-- Among the calls there is an evaluation of the task whose claims back every criterion. -/
def Evidenced (calls : List Call) (t : Task) : Prop :=
  t.state = .completed → ∃ claims, .evaluateGoal t.taskId claims ∈ calls ∧
    ∀ criterion ∈ t.successCriteria, Backs claims criterion

/-- Evidence of a run is evidence of a longer one. -/
theorem Evidenced.grows {before : List Call} {t : Task} (h : Evidenced before t)
    (later : List Call) : Evidenced (before ++ later) t := by
  intro hcompleted
  obtain ⟨claims, hcall, hbacks⟩ := h hcompleted
  exact ⟨claims, List.mem_append_left _ hcall, hbacks⟩

/-- A task that is not COMPLETED needs no evidence. -/
theorem Evidenced.of_state {calls : List Call} {t : Task} (h : t.state ≠ .completed) :
    Evidenced calls t := fun hcompleted => absurd hcompleted h

/-- A task that keeps its state, its id and its criteria. -/
theorem Evidenced.congr {calls : List Call} {t t' : Task} (h : Evidenced calls t)
    (hstate : t'.state = t.state ∨ t'.state ≠ .completed) (hid : t'.taskId = t.taskId)
    (hcriteria : t'.successCriteria = t.successCriteria) : Evidenced calls t' := by
  intro hcompleted
  rw [hid, hcriteria]
  rcases hstate with hsame | hother
  · exact h (hsame ▸ hcompleted)
  · exact absurd hcompleted hother

/-- **An evaluation completes a task only with evidence.** -/
theorem Evidenced.evaluated {calls : List Call} {t : Task} {claims : List (String × GoalClaim)}
    (hcall : .evaluateGoal t.taskId claims ∈ calls) : Evidenced calls (t.evaluated claims) := by
  unfold Task.evaluated
  split
  · rename_i hmet
    refine fun _ => ⟨claims, hcall, fun criterion hcriterion => claimPasses_iff.mp ?_⟩
    have hall := List.filter_eq_nil_iff.mp hmet criterion hcriterion
    simpa using hall
  · exact .of_state (by simp)

/-! ## What the calls assign

Each assignment keeps the state of its task, takes another state than COMPLETED, or is an
evaluation.
-/

/-- Anything may happen, but a task keeps its evidence. -/
def Allowance.evidenced (calls : List Call) : Allowance :=
  { Allowance.free with
    task := fun id m t => (∀ old, m = some old → old.taskId = id → Evidenced calls old) →
      t.taskId = id → Evidenced calls t }

section

variable {calls : List Call}

/-- It is closed: evidence carries over from one assignment to the next. -/
theorem Allowance.evidenced_closed (calls : List Call) : (Allowance.evidenced calls).Closed where
  task := by
    intro id m v w hv hw hm
    refine hw (fun old hold hid => ?_)
    cases hold
    exact hv hm hid
  operation := fun _ _ _ _ _ _ => trivial
  world := fun _ _ _ _ _ => trivial

/-- An assignment that keeps the state of a task, or does not complete it. -/
theorem evidenced_congr {id : String} {t new : Task}
    (hstate : new.state = t.state ∨ new.state ≠ .completed) (hid : new.taskId = t.taskId)
    (hcriteria : new.successCriteria = t.successCriteria) :
    (Allowance.evidenced calls).task id (some t) new :=
  fun hm hnew => (hm t rfl (hid.symm.trans hnew)).congr hstate hid hcriteria

/-- A request of `control` keeps the state, or takes one that is not COMPLETED. -/
theorem controlState_cases (t : Task) (desired : TaskState) :
    t.controlState desired = t.state ∨ t.controlState desired ≠ .completed := by
  unfold Task.controlState
  split
  · split
    · exact Or.inr (by decide)
    · split
      · exact Or.inr (by decide)
      · exact Or.inl rfl
  · split <;> exact Or.inr (by decide)
  · split
    · exact Or.inr (by decide)
    · exact Or.inl rfl
  · exact Or.inl rfl

/-- Settling pauses or cancels the task, or leaves it alone. -/
theorem evidenced_settled {id : String} (t : Task) (safeBoundary externalCancelConfirmed : Bool) :
    (Allowance.evidenced calls).task id (some t)
      (t.settled safeBoundary externalCancelConfirmed) := by
  unfold Task.settled
  split
  · exact evidenced_congr (Or.inr (by simp)) rfl rfl
  split
  · exact evidenced_congr (Or.inr (by simp)) rfl rfl
  · exact evidenced_congr (Or.inl rfl) rfl rfl

/-- A state that is not COMPLETED is assigned, or none. -/
theorem evidenced_updated {id : String} (t : Task) (state : Option TaskState)
    (phase : Option TaskPhase) (hstate : state ≠ some .completed) :
    (Allowance.evidenced calls).task id (some t) (t.updated state phase) := by
  refine evidenced_congr ?_ rfl rfl
  cases state with
  | none => exact Or.inl rfl
  | some state => exact Or.inr (fun hcompleted => hstate (congrArg some hcompleted))

/-- What a step assigns is not COMPLETED, either. -/
theorem Allowance.evidenced_works (calls : List Call) (taskId : String) :
    (Allowance.evidenced calls).Works taskId where
  keep _ := evidenced_congr (Or.inl rfl) rfl rfl
  bump _ := evidenced_congr (Or.inl rfl) rfl rfl
  world _ := trivial
  wait _ _ := evidenced_congr (Or.inr (by simp [Task.waiting])) rfl rfl
  update t state phase hstate := evidenced_updated t state phase hstate
  settle t := evidenced_settled t true false
  start _ := evidenced_congr (Or.inl rfl) rfl rfl

/-- The call does not ask for the state COMPLETED by name, as no method of the engine does. -/
def Call.completesNone : Call → Prop
  | .updateRuntimeState _ state _ _ _ => state ≠ some .completed
  | _ => True

/-- **What a call assigns.** -/
theorem Allowance.evidenced_permits {call : Call} (hcall : call ∈ calls)
    (hnone : call.completesNone) : (Allowance.evidenced calls).Permits call := by
  cases call with
  | createTask => exact fun m t hcreated _ _ => .of_state (by simp [hcreated])
  | queue => exact fun t at_ => evidenced_congr (Or.inr (by simp [Task.queued])) rfl rfl
  | submit => exact fun t at_ => evidenced_congr (Or.inr (by simp [Task.queued])) rfl rfl
  | wait => exact fun t => evidenced_congr (Or.inr (by simp [Task.waiting])) rfl rfl
  | updateRuntimeState => exact fun t => evidenced_updated t _ _ hnone
  | control taskId desired =>
      exact fun t => evidenced_congr (controlState_cases t desired) rfl rfl
  | settleControl => exact fun t => evidenced_settled t _ _
  | evaluateGoal taskId claims =>
      intro t _ hid
      rw [evaluated_taskId] at hid
      subst hid
      exact .evaluated hcall
  | recover => exact fun _ t => evidenced_settled t _ _
  | _ => trivial

end

/-! ## Runs -/

/-- No task is COMPLETED without evidence, in memory or in the store. -/
structure Supported (calls : List Call) (s : Sys) : Prop where
  memory : ∀ t ∈ s.tasks.rows, Evidenced calls t
  rows : ∀ t ∈ s.db.tasks.rows, Evidenced calls t

namespace Supported

variable {calls : List Call} {s t : Sys}

theorem moves (h : Supported calls s) (hmoves : Moves (.evidenced calls) s t) :
    Supported calls t := by
  obtain ⟨hmemory, hrows⟩ := hmoves.tasks.upholds (K := Evidenced calls) (L := Evidenced calls)
    (fun m v hmay hold => hmay (fun old hm _ => hold old hm) rfl)
    (fun v r hv heq => heq ▸ hv) (fun v r heq => heq ▸ rfl) h.memory h.rows
  exact ⟨hmemory, hrows⟩

theorem grows (h : Supported calls s) (later : List Call) : Supported (calls ++ later) s :=
  ⟨fun t ht => (h.memory t ht).grows later, fun t ht => (h.rows t ht).grows later⟩

/-- **One call.** -/
theorem call (h : Supported calls s) (env : Env) {call : Call} (hcall : call ∈ calls)
    (hnone : call.completesNone) : Supported calls (call.exec env s) := by
  have hA := Allowance.evidenced_closed calls
  have hworks := Allowance.evidenced_works calls
  cases call with
  | prepare taskId proposal expectedRevisions taskLease resourceLease =>
      exact h.moves (moves_prepare hA env (hworks taskId) (fun _ _ _ => trivial) proposal
        expectedRevisions taskLease resourceLease s)
  | execute operationId =>
      exact h.moves (moves_executeOperation hA env (fun _ _ _ => trivial)
        (fun _ _ _ _ _ _ _ => trivial))
  | step runner taskId manifest taskLease =>
      exact h.moves (moves_step hA env (hworks taskId) (fun _ _ _ => trivial) trivial
        (fun _ => trivial) runner manifest taskLease s)
  | restart registry capabilities broker =>
      -- the tasks of the new process are the rows
      have hrows : ∀ t ∈ s.db.reopened.tasks.rows, Evidenced calls t := h.rows
      exact ⟨hrows, hrows⟩
  | _ =>
      exact h.moves (moves_call hA env (fun id => (hworks id).toTouches) (fun _ _ => trivial)
        trivial (fun _ => moves_recoverOperation hA env (fun _ _ _ => trivial) (fun _ _ => trivial))
        s trivial (Allowance.evidenced_permits hcall hnone))

/-- **Every run.** -/
theorem run (env : Env) (hs : Supported [] s) (calls : List Call)
    (hcalls : ∀ call ∈ calls, call.completesNone) : Supported calls (runCalls env s calls) := by
  -- from the end: the evidence is looked for among the calls made so far
  induction calls using List.reverseRecOn with
  | nil => exact hs
  | append_singleton before call ih =>
      have hbefore := ih (fun earlier hearlier => hcalls earlier (List.mem_append_left _ hearlier))
      rw [runCalls_concat]
      exact (hbefore.grows [call]).call env (List.mem_append_right _ (List.mem_singleton_self _))
        (hcalls call (List.mem_append_right _ (List.mem_singleton_self _)))

end Supported

/-! ## Evaluations without evidence

The other half: an evaluation that leaves out a criterion does not complete the task, in memory or
in its row.
-/

section

variable {env : Env} {s : Sys} {taskId : String} {task : Task} {claims : List (String × GoalClaim)}

/-- An evaluation that leaves out a criterion leaves the task RUNNING. -/
theorem evaluated_unbacked (h : ∃ criterion ∈ task.successCriteria, ¬ Backs claims criterion) :
    (task.evaluated claims).state = .running := by
  obtain ⟨criterion, hcriterion, hbacks⟩ := h
  unfold Task.evaluated
  rw [if_neg]
  intro hmet
  refine hbacks (claimPasses_iff.mp ?_)
  have hall := List.filter_eq_nil_iff.mp hmet criterion hcriterion
  simpa using hall

/-- The row of a task that was evaluated is written before the call returns. -/
theorem evaluateGoal_row (hpersistent : s.persistent = true)
    (hget : s.tasks.get? taskId = some task) {t : Sys}
    (hrun : evaluateGoal env taskId claims s = .ok () t) :
    (t.db.tasks.get? taskId).map Task.state = some (task.evaluated claims).state := by
  have hid : (task.evaluated claims).touched.taskId = taskId :=
    (evaluated_taskId task claims).trans (Table.key_of_get? hget)
  have hends : Ends
      (fun _ t => (t.db.tasks.get? taskId).map Task.state = some (task.evaluated claims).state)
      (fun _ _ => True) (evaluateGoal env taskId claims) s := by
    unfold evaluateGoal
    refine Ends.bind (Ends.of_ok (getTask_eq_ok.mpr ⟨hget, rfl⟩) ?_)
    refine ends_change hpersistent (task.evaluated claims) hid (PyVal.jsonDumpsItems_payload ?_)
      trivial (fun column _ => ⟨?_, trivial⟩)
    · simp [PyVal.jsonDumps, PyVal.jsonDumps_strings]
    · show ((s.db.tasks.put (task.evaluated claims).touched).get? taskId).map Task.state = _
      rw [Table.get?_put, if_pos hid]
      rfl
  exact hends.returned hrun

end

/-- **Completion is backed by evidence.**  Take any engine that has no COMPLETED task, in memory or
in the store, and any run of its calls and of restarts, the process ending at any boundary, in which
no call names the state COMPLETED itself.  Then for every task that is COMPLETED, in memory or in
the store, the run has an evaluation of it whose claims back each of its criteria; and an evaluation
whose claims leave out a criterion leaves the task RUNNING, and its row too once it returns. -/
theorem completion_backed (env : Env) (s : Sys)
    (hs : ∀ t, t ∈ s.tasks.rows ∨ t ∈ s.db.tasks.rows → t.state ≠ .completed) (calls : List Call)
    (hcalls : ∀ call ∈ calls, call.completesNone) :
    (∀ t, t ∈ (runCalls env s calls).tasks.rows ∨ t ∈ (runCalls env s calls).db.tasks.rows →
      t.state = .completed → ∃ claims, .evaluateGoal t.taskId claims ∈ calls ∧
        ∀ criterion ∈ t.successCriteria, Backs claims criterion) ∧
    ∀ taskId task claims, (runCalls env s calls).tasks.get? taskId = some task →
      (∃ criterion ∈ task.successCriteria, ¬ Backs claims criterion) →
      taskState taskId (runCalls env s (calls ++ [.evaluateGoal taskId claims])) = some .running ∧
      ∀ t, (runCalls env s calls).persistent = true →
        evaluateGoal env taskId claims (runCalls env s calls) = .ok () t →
        (t.db.tasks.get? taskId).map Task.state = some .running := by
  constructor
  · have hstart : Supported [] s :=
      ⟨fun t ht => .of_state (hs t (Or.inl ht)), fun t ht => .of_state (hs t (Or.inr ht))⟩
    have hrun := hstart.run env calls hcalls
    rintro t (ht | ht) hcompleted
    · exact hrun.memory t ht hcompleted
    · exact hrun.rows t ht hcompleted
  · intro taskId task claims hget hlacking
    have hrunning := evaluated_unbacked hlacking
    constructor
    · rw [runCalls_concat]
      have hstands := (evaluate_stands env hget claims).taskState
      rwa [Task.standing, hrunning] at hstands
    · intro t hpersistent hreturned
      rw [evaluateGoal_row hpersistent hget hreturned, hrunning]

/-- The task of the small engine is evaluated: without claims, and then with one that passed. -/
theorem completion_backed_small :
    let calls : List Call :=
      [.evaluateGoal "t" [], .evaluateGoal "t" [("document read", ⟨"document read", true, ["e"]⟩)]]
    ∃ t ∈ (runCalls Small.env Small.start calls).db.tasks.rows, t.state = .completed ∧
      ∃ claims, .evaluateGoal t.taskId claims ∈ calls ∧
        ∀ criterion ∈ t.successCriteria, Backs claims criterion := by
  intro calls
  have hstates : (runCalls Small.env Small.start calls).db.tasks.rows.map Task.state
      = [.completed] := by
    decide +kernel
  obtain ⟨t, ht, hcompleted⟩ := List.mem_map.mp (hstates ▸ List.mem_singleton_self _ :
    TaskState.completed ∈ (runCalls Small.env Small.start calls).db.tasks.rows.map Task.state)
  refine ⟨t, ht, hcompleted, ?_⟩
  refine (completion_backed Small.env Small.start ?_ calls ?_).1 t (Or.inr ht) hcompleted
  · intro t ht
    have hone : t = Small.task := by
      rcases ht with ht | ht <;> exact List.mem_singleton.mp ht
    rw [hone]
    decide
  · intro call hcall
    simp only [calls, List.mem_cons, List.not_mem_nil, or_false] at hcall
    rcases hcall with rfl | rfl <;> trivial

end LiandanluNative
