/-
# LiandanluNative.Runtime.StepRequests — requests to pause or to cancel, between the calls of a step.

`TaskRuntime.control` may be called from another thread at any time: before `NativeAgentRunner.step`,
or while the step is in one of its calls.  The model puts a list of such requests before every call
(`StepMoment`), so `controlledStep` is a step among all of them, and with none of them it is `step`
(`controlledStep_unasked`).

`attendedStep` is the same step with an onlooker, who may look at the state right before each call
and cut the step short there.

The rest is about the task alone: what a list of requests makes of it, by the state they find it in,
and what each way out of a step owes to a request.
-/
import LiandanluNative.Runtime.Engine
import LiandanluNative.Runtime.Standing
import LiandanluNative.Runtime.StepCalls

namespace LiandanluNative

open Lib (Table)
open Lib.Proc

/-! ## Requests

A step with requests is the step with a call put in at each of its moments.
-/

/-- The moments a request may arrive at: before the step, and before each of its calls. -/
inductive StepMoment where
  | start
  | wait (eventType : String)
  | update (eventType : String)
  | settle
  | nextAction
  | resolve
  | evaluate
  | acquire
  | prepare
  | execute
  | flush
  | release
  deriving DecidableEq

/-- The calls, with something else before each. -/
def StepCalls.preceded (calls : StepCalls) (first : StepMoment → M Unit) : StepCalls where
  wait reason eventType := do
    first (.wait eventType)
    calls.wait reason eventType
  update state phase eventType actor := do
    first (.update eventType)
    calls.update state phase eventType actor
  settle := do
    first .settle
    calls.settle
  nextAction := do
    first .nextAction
    calls.nextAction
  resolve proposal := do
    first .resolve
    calls.resolve proposal
  evaluate proposal spec := do
    first .evaluate
    calls.evaluate proposal spec
  acquire broker ownerId request := do
    first .acquire
    calls.acquire broker ownerId request
  prepare proposal expectedRevisions resourceLease := do
    first .prepare
    calls.prepare proposal expectedRevisions resourceLease
  execute operationId := do
    first .execute
    calls.execute operationId
  flush := do
    first .flush
    calls.flush
  release resourceLease := do
    first .release
    calls.release resourceLease

section

variable (env : Env) (runner : Runner) (taskId : String) (manifest : ContextManifest)
  (taskLease : Option TaskLease)

/-- Requests about the task, one after the other. What one of them raises, it raises to whoever
made it, and not to the step. -/
def requestControl : List TaskState → M Unit
  | [] => pure ()
  | desired :: later => do
      catching (fun _ => true) (controlTask env taskId desired) (fun _ => pure ())
      requestControl later

/-- The calls there are, each after the requests of its moment. -/
def controlledCalls (requests : StepMoment → List TaskState) : StepCalls :=
  (StepCalls.real env runner taskId manifest taskLease).preceded
    (fun moment => requestControl env taskId (requests moment))

/-- The step looks at the state in which it is about to make a call, and is cut short there if the
call is not clear. -/
def attend (clear : StepMoment → Sys → Bool) (moment : StepMoment) : M Unit := do
  let s ← get
  if clear moment s then pure () else throw .crash

/-- The calls there are, each looked at after the requests of its moment. -/
def attendedCalls (clear : StepMoment → Sys → Bool) (requests : StepMoment → List TaskState) :
    StepCalls :=
  ((StepCalls.real env runner taskId manifest taskLease).preceded (attend clear)).preceded
    (fun moment => requestControl env taskId (requests moment))

/-- A step among requests, by which way it came to its end, and whether it has had a resource
lease. -/
def controlledStep (requests : StepMoment → List TaskState) : M (StepExit × Bool) := do
  requestControl env taskId (requests .start)
  let calls := controlledCalls env runner taskId manifest taskLease requests
  let admitted ← stepAdmit calls runner taskId manifest taskLease
  let exit ← stepFinish calls admitted
  return (exit, (StepExit.leased admitted).isSome)

/-- The same step, cut short at a call that is not clear, with or without a resource lease. -/
def attendedStep (clear : Bool → StepMoment → Sys → Bool)
    (requests : StepMoment → List TaskState) : M (StepExit × Bool) := do
  requestControl env taskId (requests .start)
  let admitted ← stepAdmit (attendedCalls env runner taskId manifest taskLease (clear false) requests)
    runner taskId manifest taskLease
  let leased := (StepExit.leased admitted).isSome
  let exit ← stepFinish (attendedCalls env runner taskId manifest taskLease (clear leased) requests)
    admitted
  return (exit, leased)

-- where every call is clear, nothing is cut short
example (requests : StepMoment → List TaskState) :
    attendedStep env runner taskId manifest taskLease (fun _ _ _ => true) requests
      = controlledStep env runner taskId manifest taskLease requests := rfl

/-- Where nothing is asked, it is the step there is. -/
theorem controlledStep_unasked :
    quietly (controlledStep env runner taskId manifest taskLease (fun _ => []))
      = step env runner taskId manifest taskLease := by
  have hcalls : controlledCalls env runner taskId manifest taskLease (fun _ => [])
      = StepCalls.real env runner taskId manifest taskLease := rfl
  rw [← stepWith_real env runner taskId manifest taskLease]
  unfold controlledStep
  rw [hcalls]
  simp only [quietly_bind, quietly_pure, stepWith]
  rfl

end

/-! ## What requests do to a task

Requests are followed through the pair of what a task is and what is asked of it; nothing else of
the task decides what they do.
-/

namespace Task

/-- The task is asked to pause or to be cancelled. -/
abbrev Asked (t : Task) : Prop := t.desiredState ∈ [TaskState.paused, .cancelled]

/-- The task does what it is asked to, if that is to pause or to be cancelled. -/
def Honours (t : Task) : Prop := t.Asked → t.state = t.desiredState

/-- The task was asked, and does it. -/
def Settled (t : Task) : Prop := t.Asked ∧ t.state = t.desiredState

/-- `control` -/
def requested (t : Task) (desired : TaskState) : Task :=
  if t.state.terminal then t else t.controlled desired

theorem requested_congr {t u : Task} (h : t.standing = u.standing) (desired : TaskState) :
    (t.requested desired).standing = (u.requested desired).standing := by
  obtain ⟨hstate, hdesired⟩ := Prod.mk.inj h
  simp only [requested, controlled, controlState, hstate]
  split
  · exact h
  · rfl

/-- A task that does what it is asked does what it is asked next. -/
theorem Settled.requested {t : Task} (h : t.Settled) {desired : TaskState}
    (hdesired : desired ∈ [TaskState.paused, .cancelled]) : (t.requested desired).Settled := by
  obtain ⟨hasked, hstate⟩ := h
  simp only [Asked, List.mem_cons, List.not_mem_nil, or_false] at hasked hdesired
  rcases hasked with hpaused | hcancelled
  · rw [hpaused] at hstate
    rcases hdesired with rfl | rfl <;>
      simp [Task.requested, controlled, controlState, Settled, hstate, TaskState.terminal]
  · -- a cancelled task hears nothing any more
    rw [hcancelled] at hstate
    simp [Task.requested, Settled, hstate, hcancelled, TaskState.terminal]

theorem Settled.foldl {t : Task} (h : t.Settled) {late : List TaskState}
    (hlate : ∀ desired ∈ late, desired ∈ [TaskState.paused, .cancelled]) :
    (late.foldl Task.requested t).Settled := by
  induction late generalizing t with
  | nil => exact h
  | cons desired late ih =>
      obtain ⟨hdesired, hrest⟩ := List.forall_mem_cons.mp hlate
      exact ih (h.requested hdesired) hrest

/-- A task that waits, or is blocked, does what it is asked at once. -/
theorem requested_settled_of_waiting {t : Task} (hstate : t.state ∈ [TaskState.waiting, .blocked])
    {desired : TaskState} (hdesired : desired ∈ [TaskState.paused, .cancelled]) :
    (t.requested desired).Settled := by
  simp only [List.mem_cons, List.not_mem_nil, or_false] at hstate hdesired
  rcases hstate with hstate | hstate <;> rcases hdesired with rfl | rfl <;>
    simp [requested, controlled, controlState, Settled, hstate, TaskState.terminal]

theorem foldl_honours_of_waiting {t : Task} (hstate : t.state ∈ [TaskState.waiting, .blocked])
    {late : List TaskState}
    (hlate : ∀ desired ∈ late, desired ∈ [TaskState.paused, .cancelled]) :
    (late.foldl requested t).Honours ↔ ¬ t.Asked ∨ late ≠ [] := by
  cases late with
  | nil =>
      have hneither : t.Asked → t.state ≠ t.desiredState := by
        intro hasked hsame
        rw [Asked, ← hsame] at hasked
        simp only [List.mem_cons, List.not_mem_nil, or_false] at hstate hasked
        rcases hstate with hstate | hstate <;> rw [hstate] at hasked <;> simp at hasked
      simp only [List.foldl_nil, ne_eq, not_true_eq_false, or_false]
      exact ⟨fun h hasked => hneither hasked (h hasked), fun h hasked => absurd hasked h⟩
  | cons desired late =>
      obtain ⟨hdesired, hrest⟩ := List.forall_mem_cons.mp hlate
      have hsettled := (requested_settled_of_waiting hstate hdesired).foldl hrest
      exact ⟨fun _ => Or.inr (List.cons_ne_nil _ _), fun _ _ => hsettled.2⟩

/-- A task that is being cancelled is cancelled by the next request to cancel it. -/
theorem foldl_honours_of_cancelling {t : Task} (hstate : t.state = .cancelling) (hasked : t.Asked)
    {late : List TaskState}
    (hlate : ∀ desired ∈ late, desired ∈ [TaskState.paused, .cancelled]) :
    (late.foldl requested t).Honours ↔ TaskState.cancelled ∈ late := by
  induction late generalizing t with
  | nil =>
      refine ⟨fun h => ?_, nofun⟩
      have hsame := h hasked
      rw [List.foldl_nil, hstate] at hsame
      rw [Asked, ← hsame] at hasked
      simp at hasked
  | cons desired late ih =>
      obtain ⟨hdesired, hrest⟩ := List.forall_mem_cons.mp hlate
      simp only [List.mem_cons, List.not_mem_nil, or_false] at hdesired
      rcases hdesired with rfl | rfl
      · have hstill : (t.requested .paused).state = .cancelling := by
          simp [requested, controlled, controlState, hstate, TaskState.terminal]
        have hnow : (t.requested .paused).Asked := by
          simp [requested, controlled, hstate, TaskState.terminal]
        rw [List.foldl_cons, ih hstill hnow hrest]
        simp
      · have hsettled : (t.requested .cancelled).Settled := by
          simp [requested, controlled, controlState, Settled, hstate, TaskState.terminal]
        refine ⟨fun _ => List.mem_cons_self, fun _ _ => (hsettled.foldl hrest).2⟩

/-- Of a task that runs on, the first request makes a task on its way: it takes a second pause, or
another request to cancel, to bring it there. -/
theorem foldl_honours_of_running {t : Task} (hstate : t.state = .running) (hasked : ¬ t.Asked)
    {late : List TaskState}
    (hlate : ∀ desired ∈ late, desired ∈ [TaskState.paused, .cancelled]) :
    (late.foldl requested t).Honours ↔
      late = [] ∨ [.paused, .paused] <+: late ∨ 2 ≤ late.count .cancelled := by
  cases late with
  | nil => exact ⟨fun _ => Or.inl rfl, fun _ h => absurd h hasked⟩
  | cons first late =>
      obtain ⟨hfirst, hrest⟩ := List.forall_mem_cons.mp hlate
      simp only [List.mem_cons, List.not_mem_nil, or_false] at hfirst
      rcases hfirst with rfl | rfl
      · cases late with
        | nil => simp [Honours, requested, controlled, controlState, hstate, TaskState.terminal]
        | cons second late =>
            obtain ⟨hsecond, hafter⟩ := List.forall_mem_cons.mp hrest
            simp only [List.mem_cons, List.not_mem_nil, or_false] at hsecond
            rcases hsecond with rfl | rfl
            · have hsettled : ((t.requested .paused).requested .paused).Settled := by
                simp [requested, controlled, controlState, Settled, hstate, TaskState.terminal]
              exact ⟨fun _ => Or.inr (Or.inl ⟨late, rfl⟩), fun _ _ => (hsettled.foldl hafter).2⟩
            · -- the cancellation is on its way, as below
              rw [List.foldl_cons, List.foldl_cons, foldl_honours_of_cancelling _ _ hafter]
              · simp [← List.count_pos_iff]
              · simp [requested, controlled, controlState, hstate, TaskState.terminal]
              · simp [requested, controlled, controlState, hstate, TaskState.terminal]
      · rw [List.foldl_cons, foldl_honours_of_cancelling _ _ hrest]
        · simp [← List.count_pos_iff]
        · simp [requested, controlled, controlState, hstate, TaskState.terminal]
        · simp [requested, controlled, hstate, TaskState.terminal]

/-- The first request a task hears stays with it, whatever is asked later. -/
theorem foldl_requested_asked {t : Task} (hlive : t.state.terminal = true → t.Asked)
    {late : List TaskState}
    (hlate : ∀ desired ∈ late, desired ∈ [TaskState.paused, .cancelled]) :
    ((late.foldl requested t).Asked ↔ t.Asked ∨ late ≠ []) ∧
      ((late.foldl requested t).state.terminal = true → (late.foldl requested t).Asked) := by
  induction late generalizing t with
  | nil => exact ⟨by simp, hlive⟩
  | cons desired late ih =>
      obtain ⟨hdesired, hrest⟩ := List.forall_mem_cons.mp hlate
      have hasked : (t.requested desired).Asked := by
        unfold requested
        split
        · rename_i hterminal
          exact hlive hterminal
        · exact hdesired
      obtain ⟨hiff, hlater⟩ := ih (fun _ => hasked) hrest
      exact ⟨⟨fun _ => Or.inr (List.cons_ne_nil _ _), fun _ => hiff.mpr (Or.inl hasked)⟩, hlater⟩

end Task

/-! ## The ways of a step

Which moments a step comes to, and what it writes at the end, by what it has found on its way.
-/

/-- The task is asked to pause or to be cancelled when the step is called, or at one of the
moments. -/
def Heard (task : Task) (requests : StepMoment → List TaskState) (moments : List StepMoment) :
    Prop :=
  task.Asked ∨ ∃ moment ∈ moments, requests moment ≠ []

theorem heard_concat {task : Task} {requests : StepMoment → List TaskState}
    {moments : List StepMoment} {moment : StepMoment} :
    Heard task requests (moments ++ [moment])
      ↔ Heard task requests moments ∨ requests moment ≠ [] := by
  simp [Heard, or_assoc, or_and_right, exists_or]

namespace StepExit

/-- The moments of a step up to the policy's decision. -/
def decided : List StepMoment :=
  [.start, .update "task.agent_step_started", .nextAction, .resolve, .update "task.authorizing",
    .evaluate]

/-- The moments of a step up to its `try`. -/
def admitted (leased : Bool) : List StepMoment :=
  if leased then decided ++ [.acquire] else decided

/-- The moments of a step up to the last time it writes the state of its task. -/
def moments (leased : Bool) : StepExit → List StepMoment
  | .unleased => [.start, .wait "task.execution_lease_required"]
  | .settled => [.start, .settle]
  | .blocked => decided ++ [.update "agent.action.blocked"]
  | .unconfirmed => decided ++ [.update "agent.action.confirmation_required"]
  | .unresourced => decided ++ [.wait "task.resource_wait"]
  | .unavailable => decided ++ [.acquire, .wait "task.resource_wait"]
  | .exhausted => admitted leased ++ [.prepare, .wait "task.budget_exhausted"]
  | .refused => admitted leased ++ [.prepare, .wait "task.execution_lease_lost"]
  | .lost =>
      admitted leased ++
        [.prepare, .update "task.executing", .execute, .wait "task.execution_lease_lost"]
  | .finished operation =>
      admitted leased ++
        [.prepare, .update "task.executing", .execute, .update operation.outcome.eventType, .settle]

/-- The moments of a step after that. -/
def lateMoments (leased : Bool) (exit : StepExit) : List StepMoment :=
  (match exit with
    | .finished _ => [.flush]
    | _ => []) ++ if leased then [.release] else []

/-- A step that returns this way has settled what it was asked: where it has been `heard` by the
last time the step writes the state of the task, and `late` is what was asked after that. -/
def Settles (heard : Prop) (late : List TaskState) : StepExit → Prop
  | .settled => True
  | .finished operation =>
      heard ∨ operation.outcome.state = .waiting ∨ late = [] ∨ [.paused, .paused] <+: late ∨
        2 ≤ late.count .cancelled
  | _ => ¬ heard ∨ late ≠ []

/-- How a step that returns this way leaves its task the last time it writes its state. -/
def Writes (heard : Prop) (exit : StepExit) (t : Task) : Prop :=
  match exit with
  | .settled => t.Settled
  | .finished operation =>
      (heard → t.Settled) ∧ (¬ heard → ¬ t.Asked ∧ t.state = operation.outcome.state)
  | _ => (t.Asked ↔ heard) ∧ t.state ∈ [TaskState.waiting, .blocked]

/-- The way is none of those that settle. -/
def early : StepExit → Bool
  | .settled => false
  | .finished _ => false
  | _ => true

/-- The moment of the last call that writes the state of the task. -/
def lastMoment : StepExit → StepMoment
  | .unleased => .wait "task.execution_lease_required"
  | .settled => .settle
  | .blocked => .update "agent.action.blocked"
  | .unconfirmed => .update "agent.action.confirmation_required"
  | .unresourced | .unavailable => .wait "task.resource_wait"
  | .exhausted => .wait "task.budget_exhausted"
  | .refused | .lost => .wait "task.execution_lease_lost"
  | .finished _ => .settle

/-- How that call finds the task. -/
def Finds (heard : Prop) (task : Task) : StepExit → Prop
  | .settled => task.Asked
  | .finished operation =>
      (task.Asked ↔ heard) ∧ (¬ heard → task.state = operation.outcome.state)
  | _ => task.Asked ↔ heard

theorem finds_of_early {heard : Prop} {exit : StepExit} (h : exit.early = true) {task : Task}
    (hasked : task.Asked ↔ heard) : exit.Finds heard task := by
  cases exit with
  | settled | finished operation => cases h
  | unleased | blocked | unconfirmed | unresourced | unavailable | exhausted | refused | lost =>
      exact hasked

/-- That call was clear. -/
def Met (clear : StepMoment → Sys → Bool) (taskId : String) (heard : Prop) (exit : StepExit) :
    Prop :=
  ∃ u task, u.tasks.get? taskId = some task ∧ clear exit.lastMoment u = true ∧ exit.Finds heard task

theorem writes_of_early {heard : Prop} {exit : StepExit} (h : exit.early = true) {t : Task}
    (hasked : t.Asked ↔ heard) (hstate : t.state ∈ [TaskState.waiting, .blocked]) :
    exit.Writes heard t := by
  cases exit with
  | settled | finished operation => cases h
  | unleased | blocked | unconfirmed | unresourced | unavailable | exhausted | refused | lost =>
      exact ⟨hasked, hstate⟩

theorem outcome_state (operation : OperationState) :
    operation.outcome.state = .waiting ∨ operation.outcome.state = .running := by
  unfold OperationState.outcome
  split
  · exact Or.inl rfl
  split
  · exact Or.inr rfl
  · exact Or.inr rfl

/-- What is asked late makes itself good or not. -/
theorem honours_iff {heard : Prop} {exit : StepExit} {t : Task} (h : exit.Writes heard t)
    {late : List TaskState}
    (hlate : ∀ desired ∈ late, desired ∈ [TaskState.paused, .cancelled]) :
    (late.foldl Task.requested t).Honours ↔ exit.Settles heard late := by
  cases exit with
  | settled =>
      have hsettled : t.Settled := h
      exact ⟨fun _ => trivial, fun _ _ => (hsettled.foldl hlate).2⟩
  | finished operation =>
      obtain ⟨hheard, hunheard⟩ := h
      by_cases heard
      · rename_i hyes
        exact ⟨fun _ => Or.inl hyes, fun _ _ => ((hheard hyes).foldl hlate).2⟩
      · rename_i hno
        obtain ⟨hasked, hstate⟩ := hunheard hno
        simp only [Settles, hno, false_or]
        rcases outcome_state operation with hwaiting | hrunning
        · have hin : t.state ∈ [TaskState.waiting, .blocked] := by
            rw [hstate, hwaiting]
            decide
          have hiff := Task.foldl_honours_of_waiting hin hlate
          exact ⟨fun _ => Or.inl hwaiting, fun _ => hiff.mpr (Or.inl hasked)⟩
        · rw [Task.foldl_honours_of_running (hstate.trans hrunning) hasked hlate, hrunning]
          simp
  | unleased | blocked | unconfirmed | unresourced | unavailable | exhausted | refused | lost =>
      obtain ⟨hasked, hstate⟩ := h
      rw [Task.foldl_honours_of_waiting hstate hlate, hasked]
      rfl

end StepExit

end LiandanluNative
