/-
# LiandanluNative.Safety.EffectBudgets — a budget of operations is a bound on side effects.

A budget counts operations that were prepared.  Since an operation is begun once at most
(`Safety.WriteAhead`) and every operation that was prepared is counted (`Safety.TaskBooks`), it
bounds what matters: how often `capability.execute` is called on behalf of the task, over every run.
The calls of `verify` and `reconcile` have no side effects, and are not bounded: a recovery makes
them again.

A start whose arguments are no JSON is counted in memory and rolled back in the store, so the bound is
stated of runs that start nothing of the kind.
-/
import LiandanluNative.Safety.TaskBooks
import LiandanluNative.Safety.WriteAhead

namespace LiandanluNative

open Lib (Table)

/-- The row of the operation names the task. -/
def Database.onBehalfOf (db : Database) (taskId operationId : String) : Bool :=
  (db.operations.get? operationId).any (fun op => decide (op.taskId = taskId))

theorem Database.onBehalfOf_iff {db : Database} {taskId operationId : String} :
    db.onBehalfOf taskId operationId = true ↔
      ∃ op, db.operations.get? operationId = some op ∧ op.taskId = taskId := by
  unfold Database.onBehalfOf
  cases db.operations.get? operationId <;> simp

/-- How many of the calls of `capability.execute` so far were made for operations of the task. -/
def Sys.effectsFor (s : Sys) (taskId : String) : ℕ := s.invokedIds.countP (s.db.onBehalfOf taskId)

/-- Operations that were begun once have a row each. -/
theorem Accounted.effectsFor_le {env : Env} {s : Sys} (h : Accounted env s) (taskId : String) :
    s.effectsFor taskId ≤ s.db.taskOperations taskId := by
  have hsub : s.invokedIds.filter (s.db.onBehalfOf taskId) ⊆
      (s.db.operations.rows.filter (fun op => decide (op.taskId = taskId))).map
        Operation.operationId := by
    intro id hid
    obtain ⟨op, hget, htask⟩ := Database.onBehalfOf_iff.mp (List.mem_filter.mp hid).2
    refine List.mem_map.mpr ⟨op, ?_, Table.key_of_get? hget⟩
    exact List.mem_filter.mpr ⟨Table.mem_of_get? hget, decide_eq_true htask⟩
  have hle := ((h.once.filter _).subperm hsub).length_le
  rw [List.length_map, ← List.countP_eq_length_filter, ← List.countP_eq_length_filter] at hle
  exact hle

/-- **A budget bounds side effects.**  Take any run of an engine on a fresh store in which a step is
what executes, with any proposals, the process ending at any boundary and being restarted.  If the
arguments of what is started are JSON, then on behalf of a task that was created with a budget of
`maxOperations`, `capability.execute` has been called at most so often, less what the budget was
opened with. -/
theorem effects_within_budget (env : Env) (hids : Function.Injective env.uuid) (s : Sys)
    (hs : s.Unused) (hnone : s.invocations = []) (before later : List Call) (goal : String)
    (successCriteria : List String) (workspaceId : String) (constraints : List String) (lane : String)
    (priority : Int) (budget : TaskBudget) (calls : List Call)
    (hcalls : calls = before ++ .createTask goal successCriteria workspaceId constraints lane priority
      budget :: later)
    (hmediated : ∀ call ∈ calls, call.mediated) (hattended : Attended env true s calls)
    (hjson : Along env (Call.StartsJson env) s calls) :
    ∀ task, (runCalls env s calls).db.tasks.get?
        (env.newId "task" (runCalls env s before).ids) = some task →
      budget.operationsStarted + (runCalls env s calls).effectsFor task.taskId
          ≤ task.budget.operationsStarted ∧
        (0 ≤ budget.maxOperations → budget.operationsStarted ≤ budget.maxOperations →
          budget.operationsStarted + (runCalls env s calls).effectsFor task.taskId
            ≤ budget.maxOperations) := by
  let k := (runCalls env s before).ids
  -- the books: the budget has counted the operations of the task
  have hbooked : BookedStore env (openingAt k budget) (runCalls env s calls) := by
    refine booked_run hids hs hattended hjson ?_
    rw [hcalls]
    refine along_append.mpr ⟨along_before le_rfl, ?_, ?_⟩
    · rintro _ _ _ _ _ _ _ ⟨⟩ opened hopened
      rw [openingAt, if_pos rfl] at hopened
      exact (Option.some.inj hopened).symm
    · exact along_later (createTask_ids_lt env _ _ _ _ _ _ _ _)
  have hfresh : FreshIds env s := by
    intro n _
    rw [hs.operations, hs.dbOperations]
    exact ⟨rfl, rfl⟩
  -- and every effect has an operation of its own
  have hwritten : WrittenAhead env (runCalls env s calls) :=
    WrittenAhead.run ⟨hs.persistent, .start hnone hfresh⟩ (Env.newId_injective hids "op") hmediated
  intro task hget
  have hspent : budget.Spent task.budget ((runCalls env s calls).db.taskOperations task.taskId) :=
    hbooked.funded task (Table.mem_of_get? hget) k budget (Table.key_of_get? hget) (if_pos rfl)
  have heffects := hwritten.2.effectsFor_le task.taskId
  have hstarted := hspent.started
  refine ⟨by omega, fun hmax hopened => ?_⟩
  have hwithin := hspent.within hmax hopened
  omega

/-- A task with a budget of one operation, and two steps that each would read the document. -/
def readTwice : List Call :=
  let act : Call := .step Small.runner "task_"
    { Small.manifest with taskId := "task_", worldRevisions := [("workspace", 1)] }
    (some { Small.lease with taskId := "task_" })
  [.register Small.document,
    .createTask "read the document" ["document read"] "w" [] "background" 50 { maxOperations := 1 },
    .queue "task_", .claimNext "worker" 60, act, act]

/-- What a step prepares here is the one proposal the model makes. -/
theorem Call.Prepares.small {s u : Sys} {call : Call} {taskId : String} {proposal : ActionProposal}
    {expectedRevisions : List (String × Int)} {taskLease : Option TaskLease}
    {resourceLease : Option ResourceLease}
    (h : call.Prepares Small.env s u taskId proposal expectedRevisions taskLease resourceLease)
    (hcall : call ≠ .prepare taskId proposal expectedRevisions taskLease resourceLease) :
    proposal = Small.proposal := by
  cases h with
  | direct => exact absurd rfl hcall
  | step _ proposed => exact (Except.ok.inj proposed).symm

theorem readTwice_startsJson (s : Sys) : ∀ call ∈ readTwice, call.StartsJson Small.env s := by
  intro call hcall u taskId proposal expectedRevisions taskLease resourceLease hprepares _
  have hnot : call ≠ .prepare taskId proposal expectedRevisions taskLease resourceLease := by
    rintro rfl
    simp [readTwice] at hcall
  rw [hprepares.small hnot]
  rfl

/-- The budget lets one of the two through. -/
theorem effects_within_budget_readTwice :
    let start := ({ persistent := true } : Sys).restart Small.start.registry ["editor"] none
    let last := runCalls Small.env start readTwice
    (∀ task, last.db.tasks.get? "task_" = some task → last.effectsFor task.taskId ≤ 1) ∧
      last.effectsFor "task_" = 1 ∧
      last.db.tasks.rows.map Task.waitReason = [some "budget:max_operations"] := by
  refine ⟨fun task hget => ?_, by decide +kernel, by decide +kernel⟩
  have hbound := (effects_within_budget Small.env tallyId_injective _ ⟨rfl, rfl, rfl, rfl, rfl, rfl⟩
    rfl [.register Small.document] _ _ _ _ _ _ _ { maxOperations := 1 } readTwice rfl ?_
    (by decide +kernel) (along_iff.mpr fun before call later hsplit => ?_) task hget).2
  · exact Int.ofNat_le.mp (by simpa using hbound (by decide) (by decide))
  · intro call hcall
    simp only [readTwice, List.mem_cons, List.not_mem_nil, or_false] at hcall
    rcases hcall with rfl | rfl | rfl | rfl | rfl | rfl <;> trivial
  · exact readTwice_startsJson _ call (by rw [hsplit]; simp)

end LiandanluNative
