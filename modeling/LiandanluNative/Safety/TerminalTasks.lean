/-
# LiandanluNative.Safety.TerminalTasks — whether a terminal task stays terminal.

`queue` refuses a task that is COMPLETED, FAILED or CANCELLED and `control` leaves it alone.  The
other methods that write the state of a task do not ask: a wait, a late evaluation, the settling of
an older request and a step all take such a task up again (`terminal_fails`).

`terminal_absorbing` says for each call when it does not, by the arguments and the state before the
call alone (`Call.Spares`).  What carries the run is the standing of the task, its state and its
desired state together: whether a request is left to settle, and so whether a later call spares the
task, depends on both.  For the methods of the task runtime the condition is exact (`spares_iff`), for a
step and a recovery it is enough.
-/
import LiandanluNative.Runtime.Engine
import LiandanluNative.Runtime.Standing
import LiandanluNative.Runtime.StepMoves

namespace LiandanluNative

open Lib (Table)
open Lib.Proc Lib.WriteThrough

/-! ## Calls that spare a terminal task

Which calls may take a task out of a terminal state, and what keeps each from doing so.
-/

/-- The calls that run a task. -/
def Call.onTask : Call → Bool
  | .queue _ => true
  | .submit _ => true
  | .wait _ _ _ => true
  | .control _ _ => true
  | .settleControl _ _ _ => true
  | .evaluateGoal _ _ => true
  | .step _ _ _ _ => true
  | .recover => true
  | _ => false

/-- A request that `settle_control` would act on. -/
def Task.Unsettled (t : Task) (safeBoundary externalCancelConfirmed : Bool) : Prop :=
  (t.desiredState = .paused ∧ safeBoundary = true) ∨
  (t.desiredState = .cancelled ∧ (safeBoundary = true ∨ externalCancelConfirmed = true) ∧
    t.state ≠ .cancelled)

/-- A completed task every criterion of which the claims still back. -/
def Task.StillMet (t : Task) (claims : List (String × GoalClaim)) : Prop :=
  t.state = .completed ∧
    ∀ criterion ∈ t.successCriteria, Task.claimPasses claims criterion = true

/-- A step that is refused, or finds the cancellation of its task settled. -/
def Task.StepEnds (t : Task) (persistent : Bool) (runner : Runner) (manifest : ContextManifest)
    (taskLease : Option TaskLease) : Prop :=
  manifest.workspaceId ≠ t.workspaceId ∨
  (∃ lease, taskLease = some lease ∧ lease.taskId ≠ t.taskId) ∨
  ((runner.requireTaskLease.getD persistent = true → taskLease.isSome = true) ∧
    t.desiredState = .cancelled ∧ t.state = .cancelled)

/-- When a call leaves the terminal task `t` in its state. -/
def Call.Spares (s : Sys) (t : Task) : Call → Prop
  | .wait taskId _ _ => taskId ≠ t.taskId
  | .settleControl taskId safeBoundary externalCancelConfirmed =>
      taskId = t.taskId → ¬ t.Unsettled safeBoundary externalCancelConfirmed
  | .evaluateGoal taskId claims => taskId = t.taskId → t.StillMet claims
  | .step runner taskId manifest taskLease =>
      taskId = t.taskId → t.StepEnds s.persistent runner manifest taskLease
  | .recover => ¬ t.Unsettled true false
  | _ => True

/-- Every call that finds the task terminal spares it. -/
def Spared (env : Env) (taskId : String) : Sys → List Call → Prop
  | _, [] => True
  | s, call :: calls =>
      (∀ t, s.tasks.get? taskId = some t → t.state.terminal = true → call.Spares s t) ∧
        Spared env taskId (call.exec env s) calls

/-! ## One call -/

/-- Settling leaves the state of a terminal task exactly if no request is left to settle. -/
theorem settled_state_iff {t : Task} (hterminal : t.state.terminal = true)
    {safeBoundary externalCancelConfirmed : Bool} :
    (t.settled safeBoundary externalCancelConfirmed).state = t.state ↔
      ¬ t.Unsettled safeBoundary externalCancelConfirmed := by
  have hpaused : TaskState.paused ≠ t.state := by
    intro h
    rw [← h] at hterminal
    cases hterminal
  unfold Task.settled Task.Unsettled
  by_cases hpause : t.desiredState = .paused ∧ safeBoundary = true
  · rw [if_pos hpause]
    exact iff_of_false hpaused (fun h => h (Or.inl hpause))
  rw [if_neg hpause, or_iff_right hpause]
  by_cases hcancel : t.desiredState = .cancelled ∧
      (safeBoundary = true ∨ externalCancelConfirmed = true)
  · rw [if_pos hcancel, and_iff_right hcancel.1, and_iff_right hcancel.2, not_ne_iff, eq_comm]
  · rw [if_neg hcancel]
    exact iff_of_true rfl (fun h => hcancel ⟨h.1, h.2.1⟩)

/-- And then it leaves all of its standing. -/
theorem settled_of_settled {t : Task} (hterminal : t.state.terminal = true)
    {safeBoundary externalCancelConfirmed : Bool}
    (h : ¬ t.Unsettled safeBoundary externalCancelConfirmed) :
    (t.settled safeBoundary externalCancelConfirmed).standing = t.standing := by
  rw [settled_eq, (settled_state_iff hterminal).mpr h]

/-- No criterion is missing exactly if every one of them has a claim that passes. -/
theorem missing_eq_nil {t : Task} {claims : List (String × GoalClaim)} :
    t.missing claims = [] ↔
      ∀ criterion ∈ t.successCriteria, Task.claimPasses claims criterion = true := by
  rw [Task.missing, List.filter_eq_nil_iff]
  simp only [Bool.not_eq_true', Bool.not_eq_false]

/-- An evaluation leaves the state of a terminal task exactly if it completes a completed one again. -/
theorem evaluated_state_iff {t : Task} (hterminal : t.state.terminal = true)
    {claims : List (String × GoalClaim)} :
    (t.evaluated claims).state = t.state ↔ t.StillMet claims := by
  have hrunning : TaskState.running ≠ t.state := by
    intro h
    rw [← h] at hterminal
    cases hterminal
  unfold Task.evaluated Task.StillMet
  rw [← missing_eq_nil]
  by_cases hmet : t.missing claims = []
  · rw [if_pos hmet, and_iff_left hmet, eq_comm]
  · rw [if_neg hmet]
    exact iff_of_false hrunning (fun h => hmet h.2)

/-- And then it leaves all of its standing. -/
theorem evaluated_of_stillMet {t : Task} (hterminal : t.state.terminal = true)
    {claims : List (String × GoalClaim)} (h : t.StillMet claims) :
    (t.evaluated claims).standing = t.standing := by
  refine Prod.ext ((evaluated_state_iff hterminal).mpr h) ?_
  unfold Task.evaluated
  split <;> rfl

section

variable {env : Env} {s : Sys} {taskId : String} {t : Task}

/-- A request about another task. -/
theorem Allowance.standing_other {id : String} (h : id ≠ taskId) (m : Option Task) (new : Task) :
    (Allowance.standing taskId).task id m new :=
  fun hid => absurd hid h

/-- A step leaves a terminal task alone where it ends before it writes. -/
theorem step_stands (hget : s.tasks.get? taskId = some t) {runner : Runner}
    {manifest : ContextManifest} {taskLease : Option TaskLease}
    (h : t.StepEnds s.persistent runner manifest taskLease) :
    Stands (after (step env runner taskId manifest taskLease) s) taskId t.standing := by
  have hnow : Stands s taskId t.standing := ⟨t, hget, rfl⟩
  have hid : t.taskId = taskId := Table.key_of_get? hget
  have hstate : (get : M Sys) s = .ok s s := rfl
  unfold step
  rw [after_found hget, after_bind_ok hstate]
  split
  · exact hnow
  rename_i hworkspace
  split
  · exact hnow
  rename_i hlease
  -- past its two checks, the step is one of a task that was cancelled
  obtain ⟨hleased, hdesired, hcancelled⟩ := (h.resolve_left hworkspace).resolve_left (by
    rintro ⟨lease, rfl, hother⟩
    rw [hid] at hother
    exact hlease (decide_eq_true hother))
  split
  · rename_i hrequired
    obtain ⟨hrequired, hnone⟩ := Bool.and_eq_true_iff.mp hrequired
    have hsome := hleased hrequired
    rw [Option.isNone_iff_eq_none.mp hnone] at hsome
    cases hsome
  split
  · have hstands := settle_stands env hget true false
    -- a settle leaves a cancelled task as it is
    have hsettled : ¬ t.Unsettled true false := by
      rintro (⟨hpaused, _⟩ | ⟨_, _, hnot⟩)
      · rw [hdesired] at hpaused
        exact absurd hpaused (by decide)
      · exact hnot hcancelled
    have hterminal : t.state.terminal = true := by
      rw [hcancelled]
      rfl
    rwa [settled_of_settled hterminal hsettled] at hstands
  · rename_i hnone
    rw [hdesired] at hnone
    exact absurd (by decide) hnone

/-- Whether a request is left to settle is in the standing of the task. -/
theorem Task.unsettled_congr {t' : Task} (h : t'.standing = t.standing)
    (safeBoundary externalCancelConfirmed : Bool) :
    t'.Unsettled safeBoundary externalCancelConfirmed ↔
      t.Unsettled safeBoundary externalCancelConfirmed := by
  obtain ⟨hstate, hdesired⟩ := Prod.mk.inj h
  unfold Task.Unsettled
  rw [hstate, hdesired]

/-- **Recovery settles what was requested, and nothing else of a task.** -/
theorem recover_stands (hget : s.tasks.get? taskId = some t) (hterminal : t.state.terminal = true)
    (h : ¬ t.Unsettled true false) :
    Stands (after (recover env) s) taskId t.standing := by
  have hA := Allowance.standing_closed taskId
  have hmoves : ∀ {α : Type} {m : M α}, Within (Moves (.standing taskId)) m →
      Within (Keeps (Stands · taskId t.standing)) m :=
    fun hm => hm.mono (fun _ _ hmoves hstands => hmoves.stands hstands)
  refine recover_within (frame_keeps (Stands · taskId t.standing)) (fun id => ?_) (fun id => ?_)
    (hmoves (moves_flushOutbox hA env)) s ⟨t, hget, rfl⟩
  · have hadvances : (Allowance.standing taskId).Advances id := fun _ _ _ => trivial
    exact hmoves (moves_recoverOperation hA env hadvances (fun _ _ => trivial))
  · by_cases hsame : id = taskId
    · subst hsame
      rintro u ⟨t', hget', hstanding⟩
      have hsettled := mt (Task.unsettled_congr hstanding true false).mp h
      have hstate : t'.state = t.state := congrArg Prod.fst hstanding
      have hstands := settle_stands env hget' true false
      rwa [settled_of_settled (hstate ▸ hterminal) hsettled, hstanding] at hstands
    · exact hmoves (fun u => moves_settleControl hA env (Allowance.standing_touches taskId id) _ _
        (fun _ _ _ => Allowance.standing_other hsame _ _))

/-- **One call** that spares a terminal task leaves its standing. -/
theorem spared_stands {call : Call} (hon : call.onTask = true)
    (hget : s.tasks.get? taskId = some t) (hterminal : t.state.terminal = true)
    (hspares : call.Spares s t) : Stands (call.exec env s) taskId t.standing := by
  have hA := Allowance.standing_closed taskId
  have htouch := Allowance.standing_touches taskId
  have hnow : Stands s taskId t.standing := ⟨t, hget, rfl⟩
  have hid : t.taskId = taskId := Table.key_of_get? hget
  -- a call about another task leaves this one as it stands; one about this task finds it terminal
  cases call with
  | queue id =>
      by_cases hsame : id = taskId
      · subst hsame
        have hstands := queue_stands env hget
        rwa [if_pos hterminal] at hstands
      · exact (moves_queueTask hA env (htouch id)
          (fun _ _ _ _ => Allowance.standing_other hsame _ _)).stands hnow
  | submit id =>
      by_cases hsame : id = taskId
      · subst hsame
        have hstands := submit_stands env hget
        rwa [if_pos hterminal] at hstands
      · exact (moves_submitTask hA env (htouch id)
          (fun _ _ _ _ => Allowance.standing_other hsame _ _)).stands hnow
  | wait id reason eventType =>
      have hother : id ≠ taskId := hid ▸ hspares
      exact (moves_waitTask hA env (htouch id) _ _
        (fun _ _ => Allowance.standing_other hother _ _)).stands hnow
  | control id desired =>
      by_cases hsame : id = taskId
      · subst hsame
        have hstands := control_stands env hget desired
        rwa [if_pos hterminal] at hstands
      · exact (moves_controlTask hA env (htouch id) _
          (fun _ _ _ => Allowance.standing_other hsame _ _)).stands hnow
  | settleControl id safeBoundary externalCancelConfirmed =>
      by_cases hsame : id = taskId
      · subst hsame
        have hstands := settle_stands env hget safeBoundary externalCancelConfirmed
        rwa [settled_of_settled hterminal (hspares hid.symm)] at hstands
      · exact (moves_settleControl hA env (htouch id) _ _
          (fun _ _ _ => Allowance.standing_other hsame _ _)).stands hnow
  | evaluateGoal id claims =>
      by_cases hsame : id = taskId
      · subst hsame
        have hstands := evaluate_stands env hget claims
        rwa [evaluated_of_stillMet hterminal (hspares hid.symm)] at hstands
      · exact (moves_evaluateGoal hA env (htouch id) _
          (fun _ _ => Allowance.standing_other hsame _ _)).stands hnow
  | step runner id manifest taskLease =>
      by_cases hsame : id = taskId
      · subst hsame
        exact step_stands hget (hspares hid.symm)
      · have hworks := Allowance.Works.of_free (A := .standing taskId)
          (fun _ => trivial) (Allowance.standing_other hsame)
        exact (moves_step hA env hworks (fun _ _ _ => trivial) trivial (fun _ => trivial) runner
          manifest taskLease s).stands hnow
  | recover => exact recover_stands hget hterminal hspares
  | _ => cases hon

/-- The calls that are methods of the task runtime. -/
def Call.ofTaskRuntime : Call → Bool
  | .queue _ => true
  | .wait _ _ _ => true
  | .control _ _ => true
  | .settleControl _ _ _ => true
  | .evaluateGoal _ _ => true
  | _ => false

/-- **For a method of the task runtime the condition is exact**: it spares the terminal task if and
only if it leaves it in its state. -/
theorem spares_iff {call : Call} (hon : call.ofTaskRuntime = true)
    (hget : s.tasks.get? taskId = some t) (hterminal : t.state.terminal = true) :
    call.Spares s t ↔ taskState taskId (call.exec env s) = some t.state := by
  have hid : t.taskId = taskId := Table.key_of_get? hget
  subst hid
  constructor
  · intro hspares
    refine (spared_stands ?_ hget hterminal hspares).taskState
    cases call <;> first | rfl | cases hon
  intro hkept
  cases call with
  | wait id reason eventType =>
      rintro rfl
      have hwaiting := (wait_stands env hget reason eventType).taskState.symm.trans hkept
      rw [← Option.some.inj hwaiting] at hterminal
      cases hterminal
  | settleControl id safeBoundary externalCancelConfirmed =>
      rintro rfl
      have hsettled := settle_stands env hget safeBoundary externalCancelConfirmed
      exact (settled_state_iff hterminal).mp
        (Option.some.inj (hsettled.taskState.symm.trans hkept))
  | evaluateGoal id claims =>
      rintro rfl
      have hevaluated := evaluate_stands env hget claims
      exact (evaluated_state_iff hterminal).mp
        (Option.some.inj (hevaluated.taskState.symm.trans hkept))
  | queue id => trivial
  | control id desired => trivial
  | _ => cases hon

/-! ## Runs -/

/-- A run spares a task if its first part does, and its rest from there. -/
theorem spared_append {before later : List Call} :
    Spared env taskId s (before ++ later) ↔
      Spared env taskId s before ∧ Spared env taskId (runCalls env s before) later := by
  induction before generalizing s with
  | nil => exact (and_iff_right trivial).symm
  | cons call before ih =>
      show (_ ∧ Spared env taskId (call.exec env s) (before ++ later)) ↔
        (_ ∧ Spared env taskId (call.exec env s) before) ∧
          Spared env taskId (runCalls env (call.exec env s) before) later
      rw [ih, and_assoc]

/-- A terminal task keeps what it does and what it is asked to do over a run that spares it. -/
theorem spared_run_stands {calls : List Call} (hon : ∀ call ∈ calls, call.onTask = true)
    (hspared : Spared env taskId s calls) {standing : TaskState × TaskState}
    (hterminal : standing.1.terminal = true) (h : Stands s taskId standing) :
    Stands (runCalls env s calls) taskId standing := by
  induction calls generalizing s with
  | nil => exact h
  | cons call calls ih =>
      obtain ⟨hcall, hrest⟩ := hspared
      obtain ⟨t, hget, rfl⟩ := h
      refine ih (fun later hlater => hon later (List.mem_cons_of_mem call hlater)) hrest ?_
      exact spared_stands (hon call List.mem_cons_self) hget hterminal (hcall t hget hterminal)

end

/-- **Terminal states are absorbing for spared tasks.**  In every run of calls on tasks in which
each call that finds the task terminal spares it, a terminal state that the task is in at some
moment is its state at every later one. -/
theorem terminal_absorbing (env : Env) (taskId : String) (s : Sys) (calls : List Call)
    (hon : ∀ call ∈ calls, call.onTask = true) (hspared : Spared env taskId s calls)
    (before later : List Call) (hbefore : before <+: later) (hlater : later <+: calls)
    (state : TaskState) (hterminal : state.terminal = true)
    (hstate : taskState taskId (runCalls env s before) = some state) :
    taskState taskId (runCalls env s later) = some state := by
  obtain ⟨between, rfl⟩ := hbefore
  obtain ⟨rest, rfl⟩ := hlater
  have hbetween := (spared_append.mp (spared_append.mp hspared).1).2
  have hon' : ∀ call ∈ between, call.onTask = true := by
    intro call hcall
    exact hon call (List.mem_append_left _ (List.mem_append_right _ hcall))
  obtain ⟨t, hget, rfl⟩ := Option.map_eq_some_iff.mp hstate
  have hstands := spared_run_stands hon' hbetween hterminal ⟨t, hget, rfl⟩
  rw [runCalls, List.foldl_append]
  exact hstands.taskState

/-- A claim that backs the only criterion of the small engine's task. -/
def readClaim : List (String × GoalClaim) :=
  [("document read", ⟨"document read", true, ["op_1"]⟩)]

/-- A completed task runs again after an evaluation without the claims. -/
theorem terminal_absorbing_fails :
    ¬ ∀ (env : Env) (taskId : String) (s : Sys) (calls : List Call),
      (∀ call ∈ calls, call.onTask = true) →
      ∀ before later : List Call, before <+: later → later <+: calls →
      ∀ state : TaskState, state.terminal = true →
      taskState taskId (runCalls env s before) = some state →
      taskState taskId (runCalls env s later) = some state := by
  intro h
  have hcompleted : taskState "t"
      (runCalls Small.env Small.start [.evaluateGoal "t" readClaim]) = some .completed := by
    decide +kernel
  have hrunning : taskState "t" (runCalls Small.env Small.start
      ([.evaluateGoal "t" readClaim] ++ [.evaluateGoal "t" []])) = some .running := by
    decide +kernel
  have hstill := h Small.env "t" Small.start
    ([.evaluateGoal "t" readClaim] ++ [.evaluateGoal "t" []]) (by decide) _ _
    ⟨[.evaluateGoal "t" []], rfl⟩ List.prefix_rfl .completed rfl hcompleted
  rw [hrunning] at hstill
  exact absurd hstill (by decide)

/-- Evaluated once more with the same claims, and queued, the task stays completed. -/
theorem terminal_absorbing_reevaluated :
    taskState "t" (runCalls Small.env Small.start
      [.evaluateGoal "t" readClaim, .evaluateGoal "t" readClaim, .queue "t"])
      = some .completed := by
  refine terminal_absorbing Small.env "t" Small.start
    [.evaluateGoal "t" readClaim, .evaluateGoal "t" readClaim, .queue "t"] (by decide)
    ⟨?_, ?_, ?_, trivial⟩ [.evaluateGoal "t" readClaim] _ ⟨_, rfl⟩ List.prefix_rfl .completed rfl
    (by decide +kernel)
  · rintro t ⟨⟩ hterminal
    exact absurd hterminal (by decide)
  · intro t hget _ _
    have hmet : ((runCalls Small.env Small.start [.evaluateGoal "t" readClaim]).tasks.get? "t").map
        (fun t => (t.state, t.successCriteria)) = some (.completed, ["document read"]) := by
      decide +kernel
    change (runCalls Small.env Small.start [.evaluateGoal "t" readClaim]).tasks.get? "t" = some t
      at hget
    rw [hget, Option.map_some, Option.some.injEq, Prod.mk.injEq] at hmet
    refine ⟨hmet.1, ?_⟩
    rw [hmet.2]
    decide
  · exact fun _ _ _ => trivial

end LiandanluNative
