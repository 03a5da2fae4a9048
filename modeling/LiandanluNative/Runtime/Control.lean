/-
# LiandanluNative.Runtime.Control — `control.py`.

A spoken intent rarely names its task.  The resolver looks for the one task the intent can be about,
and asks the user where there is none or more than one.
-/
import LiandanluNative.Runtime.Standing

namespace LiandanluNative

open Lib (Table)
open Lib.Proc Lib.WriteThrough

/-! ## Intents and resolutions

What a user says is matched against the tasks that it could be about; where there is not exactly
one, the user is asked.
-/

/-- What a user said, and what it was recognised as. -/
inductive ControlIntent where
  | stopSpeaking
  | pauseTask
  | resumeTask
  | cancelTask
  deriving DecidableEq, Repr

/-- What the resolver makes of it: a task, or a question. -/
structure ControlResolution where
  intent : ControlIntent
  taskId : Option String
  needsUser : Bool := false
  reason : Option String := none
  deriving DecidableEq, Repr

namespace ControlIntent

/-- The states of the tasks an intent can be about. -/
def candidateStates : ControlIntent → List TaskState
  | .resumeTask => [.paused, .pausing, .waiting]
  | _ => [.running, .queued, .waiting, .pausing, .cancelling]

/-- The `mapping` of `apply`. -/
def desired : ControlIntent → Option TaskState
  | .pauseTask => some .paused
  | .resumeTask => some .running
  | .cancelTask => some .cancelled
  | .stopSpeaking => none

end ControlIntent

/-- The ids of the tasks an intent can be about, in the order of the table. -/
def Sys.candidates (s : Sys) (intent : ControlIntent) : List String :=
  (s.tasks.rows.filter (fun t => decide (t.state ∈ intent.candidateStates))).map Task.taskId

/-- `resolve` -/
def resolveControl (intent : ControlIntent) (explicitTaskId : Option String) (s : Sys) :
    ControlResolution :=
  if intent = .stopSpeaking then
    { intent := intent, taskId := none }
  else
    -- an empty string is no id
    match explicitTaskId.filter (fun taskId => decide (taskId ≠ "")) with
    | some taskId => { intent := intent, taskId := some taskId }
    | none =>
        match s.candidates intent with
        | [taskId] => { intent := intent, taskId := some taskId }
        | [] =>
            { intent := intent, taskId := none, needsUser := true, reason := some "no_matching_task" }
        | _ =>
            { intent := intent, taskId := none, needsUser := true, reason := some "ambiguous_task" }

section

variable (env : Env)

/-- `apply` -/
def applyControl (resolution : ControlResolution) : M Unit :=
  match resolution.needsUser, resolution.taskId, resolution.intent.desired with
  | false, some taskId, some desired => controlTask env taskId desired
  | _, _, _ => pure ()

/-- What the user says is resolved, and applied at once. -/
def say (intent : ControlIntent) (explicitTaskId : Option String) : M Unit := do
  let s ← get
  applyControl env (resolveControl intent explicitTaskId s)

end

/-! ## What a resolution names -/

section

variable {s : Sys} {intent : ControlIntent}

/-- A candidate is a task in a state the intent can be about. -/
theorem Sys.mem_candidates {taskId : String} :
    taskId ∈ s.candidates intent ↔
      ∃ state, taskState taskId s = some state ∧ state ∈ intent.candidateStates := by
  unfold Sys.candidates taskState
  simp only [List.mem_map, List.mem_filter, decide_eq_true_eq, Option.map_eq_some_iff]
  constructor
  · rintro ⟨t, ⟨hmem, hstate⟩, rfl⟩
    exact ⟨t.state, ⟨t, Table.get?_of_mem hmem, rfl⟩, hstate⟩
  · rintro ⟨_, ⟨t, hget, rfl⟩, hstate⟩
    exact ⟨t, ⟨Table.mem_of_get? hget, hstate⟩, Table.key_of_get? hget⟩

/-- The task is the only one the intent can be about. -/
def Sys.Only (s : Sys) (intent : ControlIntent) (taskId : String) : Prop :=
  taskId ∈ s.candidates intent ∧ ∀ other ∈ s.candidates intent, other = taskId

/-- There is only one task it can be about exactly if there is one candidate. -/
theorem Sys.only_iff {taskId : String} : s.Only intent taskId ↔ s.candidates intent = [taskId] := by
  have hnodup : (s.candidates intent).Nodup := s.tasks.nodup.sublist (List.filter_sublist.map _)
  constructor
  · rintro ⟨hmem, honly⟩
    exact List.perm_singleton.mp ((List.perm_ext_iff_of_nodup hnodup (List.nodup_singleton _)).mpr
      (fun other => ⟨fun h => List.mem_singleton.mpr (honly other h),
        fun h => List.mem_singleton.mp h ▸ hmem⟩))
  · intro h
    rw [Sys.Only, h]
    exact ⟨List.mem_singleton_self _, fun other hother => List.mem_singleton.mp hother⟩

/-- **The resolver does not guess.** Without an explicit id, a resolution that is acted on names the
only task the intent can be about. -/
theorem resolveControl_acts {taskId : String} {desired : TaskState}
    (hdesired : intent.desired = some desired) :
    ((resolveControl intent none s).needsUser = false ∧
      (resolveControl intent none s).taskId = some taskId) ↔ s.Only intent taskId := by
  have hnot : intent ≠ .stopSpeaking := by
    rintro rfl
    cases hdesired
  rw [Sys.only_iff]
  unfold resolveControl
  rw [if_neg hnot, Option.filter_none]
  dsimp only
  split
  · rename_i found hfound
    simp [hfound]
  · rename_i hnone
    simp [hnone]
  · rename_i hmany _
    simp only [Bool.true_eq_false, false_and, false_iff]
    exact fun hone => hmany taskId hone

/-- What is said without an id is obeyed on that one task, or ignored. -/
theorem say_cases (env : Env) (intent : ControlIntent) (s : Sys) :
    after (say env intent none) s = s ∨
      ∃ taskId desired, intent.desired = some desired ∧ s.Only intent taskId ∧
        after (say env intent none) s = after (controlTask env taskId desired) s := by
  have hsay : after (say env intent none) s
      = after (applyControl env (resolveControl intent none s)) s := rfl
  have hintent : (resolveControl intent none s).intent = intent := by
    unfold resolveControl
    split
    · rfl
    · rw [Option.filter_none]
      dsimp only
      split <;> rfl
  rw [hsay]
  unfold applyControl
  split
  · rename_i taskId desired huser htask hdesired
    rw [hintent] at hdesired
    exact Or.inr ⟨taskId, desired, hdesired, (resolveControl_acts hdesired).mp ⟨huser, htask⟩, rfl⟩
  · exact Or.inl rfl

end

end LiandanluNative
