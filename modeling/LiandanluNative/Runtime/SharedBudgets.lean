/-
# LiandanluNative.Runtime.SharedBudgets — tasks that hold one `TaskBudget` object.

`TaskRuntime.create` keeps the `TaskBudget` it is given, and `prepare` counts an operation by adding
to a field of that object.  A caller who gives one object to two tasks has them counted up together:
the budget of the second task changes in memory, and its row does not.  Tasks loaded from a store
each have an object of their own, and so has a task that was created without a budget.

The engine of `System.lean` holds the budget of a task as a value, which says what the source does
while no two tasks hold one object.  `prepareSharing` is `prepare` where they may.  Which object a
task holds is a parameter (`holds`), and what the call adds to the budget of its task is seen by the
tasks that hold the same one.
-/
import LiandanluNative.Runtime.Operations

namespace LiandanluNative

open Lib (Table)

/-- The task, once the budget of `counted` has changed: it has changed with it if both tasks hold one
object. -/
def Task.sharing (task : Task) (holds : String → ℕ) (counted : Task) : Task :=
  if holds task.taskId = holds counted.taskId then { task with budget := counted.budget } else task

theorem Task.sharing_taskId (holds : String → ℕ) (counted task : Task) :
    (task.sharing holds counted).taskId = task.taskId := by
  unfold Task.sharing
  split <;> rfl

namespace Sys

/-- The runtime, as the tasks that hold the budget of `taskId` see it. -/
def sharing (holds : String → ℕ) (taskId : String) (s : Sys) : Sys :=
  match s.tasks.get? taskId with
  | some counted =>
      let tasks := s.tasks.amend (fun task => task.sharing holds counted)
        (Task.sharing_taskId holds counted)
      { s with tasks := tasks }
  | none => s

/-- No other task holds the budget of `taskId`. -/
def OwnBudget (holds : String → ℕ) (taskId : String) (s : Sys) : Prop :=
  ∀ task ∈ s.tasks.rows, holds task.taskId = holds taskId → task.taskId = taskId

/-- A budget that is the task's own is seen by no other task. -/
theorem sharing_of_own {holds : String → ℕ} {taskId : String} {s : Sys}
    (hown : s.OwnBudget holds taskId) : s.sharing holds taskId = s := by
  unfold sharing
  cases hget : s.tasks.get? taskId with
  | none => rfl
  | some counted =>
      have hkey : counted.taskId = taskId := Table.key_of_get? hget
      have hsame : ∀ task ∈ s.tasks.rows, task.sharing holds counted = id task := by
        intro task htask
        unfold Task.sharing
        split
        · rename_i hholds
          -- the one task that holds the object is the task itself
          have hself : task.taskId = taskId := hown task htask (hkey ▸ hholds)
          have hfound : s.tasks.get? taskId = some task := Table.get?_eq_some.mpr ⟨htask, hself⟩
          cases hget.symm.trans hfound
          rfl
        · rfl
      have htasks : s.tasks.amend (fun task => task.sharing holds counted)
          (Task.sharing_taskId holds counted) = s.tasks :=
        Table.ext ((List.map_congr_left hsame).trans (List.map_id _))
      simp only [htasks]

end Sys

/-- `prepare`, where tasks may hold one `TaskBudget` object: whether it returns or raises, what it has
added to the budget of its task is seen by the others. -/
def prepareSharing (holds : String → ℕ) (env : Env) (taskId : String) (proposal : ActionProposal)
    (expectedRevisions : List (String × Int)) (taskLease : Option TaskLease)
    (resourceLease : Option ResourceLease) : M String := fun s =>
  match prepare env taskId proposal expectedRevisions taskLease resourceLease s with
  | .ok operationId t => .ok operationId (t.sharing holds taskId)
  | .error fault t => .error fault (t.sharing holds taskId)

section

variable {holds : String → ℕ} {env : Env} {taskId : String} {proposal : ActionProposal}
  {expectedRevisions : List (String × Int)} {taskLease : Option TaskLease}
  {resourceLease : Option ResourceLease} {s t : Sys}

theorem prepareSharing_eq_ok {operationId : String}
    (h : prepareSharing holds env taskId proposal expectedRevisions taskLease resourceLease s
      = .ok operationId t) :
    ∃ u, prepare env taskId proposal expectedRevisions taskLease resourceLease s = .ok operationId u ∧
      u.sharing holds taskId = t := by
  unfold prepareSharing at h
  split at h
  · rename_i id u hrun
    obtain ⟨hid, ht⟩ := EStateM.Result.ok.inj h
    exact ⟨u, hid ▸ hrun, ht⟩
  · cases h

theorem prepareSharing_eq_error {fault : Fault}
    (h : prepareSharing holds env taskId proposal expectedRevisions taskLease resourceLease s
      = .error fault t) :
    ∃ u, prepare env taskId proposal expectedRevisions taskLease resourceLease s = .error fault u ∧
      u.sharing holds taskId = t := by
  unfold prepareSharing at h
  split at h
  · cases h
  · rename_i raised u hrun
    obtain ⟨hfault, ht⟩ := EStateM.Result.error.inj h
    exact ⟨u, hfault ▸ hrun, ht⟩

end

end LiandanluNative
