/-
# LiandanluNative.Safety.WaitReasons — whether a wait reason belongs to a waiting task.

`wait` sets the reason and the state WAITING together.  Of what takes a task out of WAITING again,
only `control` with RUNNING takes the reason away; `queue`, the other requests of `control`, their
settling, an evaluation and a step leave it with the task.  `reasons_fit_run` says that nothing else
goes wrong: in a run in which these find the task without a reason, every reason is that of a
waiting task, in memory and in the store.

Most methods are dealt with by one fact about the task they write (`Allowance.upholding`): the new
task has a reason that fits if the old one had.  A step needs more, as it writes its task several
times: a task without a reason is `Bare`, and it stays so until the step makes it wait, which is the
last it does.  For the converse, that a method that finds a reason leaves one that does not fit, the
reason is followed through the method instead.
-/
import LiandanluNative.Lib.Runs
import LiandanluNative.Runtime.CallMoves
import LiandanluNative.Runtime.Commits
import LiandanluNative.Runtime.Standing

namespace LiandanluNative

open Lib (Table)
open Lib.Proc Lib.Runs Lib.WriteThrough

/-! ## Wait reasons -/

/-- A wait reason belongs to a waiting task. -/
def Task.ReasonFits (t : Task) : Prop := t.waitReason ≠ none → t.state = .waiting

instance : DecidablePred Task.ReasonFits :=
  fun t => inferInstanceAs (Decidable (t.waitReason ≠ none → t.state = .waiting))

/-- No reason fits every state. -/
theorem Task.ReasonFits.of_none {t : Task} (h : t.waitReason = none) : t.ReasonFits :=
  fun hsome => absurd h hsome

/-- Every wait reason belongs to a waiting task, in memory and in the store. -/
structure Sys.ReasonsFit (s : Sys) : Prop where
  memory : ∀ t ∈ s.tasks.rows, t.ReasonFits
  rows : ∀ t ∈ s.db.tasks.rows, t.ReasonFits

/-- The task has no wait reason, if there is the task. -/
def Sys.NoReason (s : Sys) (taskId : String) : Prop :=
  ∀ t, s.tasks.get? taskId = some t → t.waitReason = none

/-- A task that is not there has no reason either. -/
theorem Sys.noReason_iff {s : Sys} {taskId : String} :
    s.NoReason taskId ↔ (s.tasks.get? taskId).bind Task.waitReason = none := by
  unfold Sys.NoReason
  cases s.tasks.get? taskId <;> simp

instance (s : Sys) (taskId : String) : Decidable (s.NoReason taskId) :=
  decidable_of_iff _ Sys.noReason_iff.symm

/-- `settle_control` acts on the request. -/
def Task.Acts (t : Task) (safeBoundary externalCancelConfirmed : Bool) : Prop :=
  (t.desiredState = .paused ∧ safeBoundary = true) ∨
  (t.desiredState = .cancelled ∧ (safeBoundary = true ∨ externalCancelConfirmed = true))

/-- A step that is refused, or waits for the lease it needs. -/
def Task.TurnsAway (t : Task) (persistent : Bool) (runner : Runner) (manifest : ContextManifest)
    (taskLease : Option TaskLease) : Prop :=
  manifest.workspaceId ≠ t.workspaceId ∨
  (∃ lease, taskLease = some lease ∧ lease.taskId ≠ t.taskId) ∨
  (runner.requireTaskLease.getD persistent = true ∧ taskLease = none)

/-- A call that may take a task out of WAITING finds it without a wait reason. -/
def Call.KeepsReason (s : Sys) : Call → Prop
  | .queue taskId => s.NoReason taskId
  | .submit taskId => s.NoReason taskId
  | .updateRuntimeState taskId state _ _ _ =>
      state = none ∨ state = some .waiting ∨ s.NoReason taskId
  | .control taskId desired => desired ∉ [.paused, .cancelled] ∨ s.NoReason taskId
  | .settleControl taskId safeBoundary externalCancelConfirmed =>
      ∀ t, s.tasks.get? taskId = some t → t.Acts safeBoundary externalCancelConfirmed →
        t.waitReason = none
  | .evaluateGoal taskId _ => s.NoReason taskId
  | .step runner taskId manifest taskLease =>
      ∀ t, s.tasks.get? taskId = some t →
        t.TurnsAway s.persistent runner manifest taskLease ∨ t.waitReason = none
  | .recover => ∀ t ∈ s.tasks.rows, t.Acts true false → t.waitReason = none
  | _ => True

/-! ## What the methods assign

For each assignment: a reason that fitted still fits, if the method has met its condition.
-/

/-- Anything may happen, but what is true of a task stays true of it. -/
def Allowance.upholding (K : Task → Prop) : Allowance :=
  { Allowance.free with task := fun _ m t => (∀ old, m = some old → K old) → K t }

/-- Keeping a property of every task is closed: what does it twice does it. -/
theorem Allowance.upholding_closed (K : Task → Prop) : (Allowance.upholding K).Closed where
  task := by
    intro id m v w hv hw hm
    refine hw (fun old hold => ?_)
    cases hold
    exact hv hm
  operation := fun _ _ _ _ _ _ => trivial
  world := fun _ _ _ _ _ => trivial

/-- A property that does not look at the revision is kept by what else a change of a task does. -/
theorem Allowance.upholding_touches {K : Task → Prop}
    (hbump : ∀ t : Task, K t → K { t with revision := t.revision + 1 }) (taskId : String) :
    (Allowance.upholding K).Touches taskId where
  keep t h := h t rfl
  bump t h := hbump t (h t rfl)
  world _ := trivial

/-- What is upheld of the tasks, and follows for their rows. -/
theorem Moves.upholds {K L : Task → Prop} (hKL : ∀ t, K t → L t) {s t : Sys}
    (h : Moves (.upholding K) s t) (hmemory : ∀ t ∈ s.tasks.rows, K t)
    (hrows : ∀ t ∈ s.db.tasks.rows, L t) :
    (∀ u ∈ t.tasks.rows, K u) ∧ ∀ u ∈ t.db.tasks.rows, L u :=
  h.tasks.upholds (fun _ _ hmay hold => hmay hold) (fun v _ hv heq => heq ▸ hKL v hv)
    (fun _ _ heq => heq ▸ rfl) hmemory hrows

/-- What keeps the property of every task keeps it of all, in memory and in the store. -/
theorem Sys.ReasonsFit.moves {s t : Sys} (h : s.ReasonsFit)
    (hmoves : Moves (.upholding Task.ReasonFits) s t) : t.ReasonsFit := by
  obtain ⟨hmemory, hrows⟩ := hmoves.upholds (fun _ ht => ht) h.memory h.rows
  exact ⟨hmemory, hrows⟩

section

variable {t : Task}

/-- A method that keeps the reason, of a task that has none. -/
theorem upholds_of_none {new : Task} (hnone : t.waitReason = none)
    (hsame : new.waitReason = t.waitReason) (id : String) :
    (Allowance.upholding Task.ReasonFits).task id (some t) new :=
  fun _ => .of_none (hsame.trans hnone)

/-- A method that keeps the reason and the state. -/
theorem upholds_of_same {new : Task} (hreason : new.waitReason = t.waitReason)
    (hstate : new.state = t.state) (id : String) :
    (Allowance.upholding Task.ReasonFits).task id (some t) new := by
  intro hold hsome
  rw [hstate]
  exact hold t rfl (hreason ▸ hsome)

/-- A task that waits has a state for its reason. -/
theorem waiting_fits (t : Task) (reason : String) : (t.waiting reason).ReasonFits := fun _ => rfl

/-- Settling a request leaves the reason. -/
theorem settled_waitReason (t : Task) (safeBoundary externalCancelConfirmed : Bool) :
    (t.settled safeBoundary externalCancelConfirmed).waitReason = t.waitReason := by
  rw [settled_eq]

/-- An evaluation leaves the reason. -/
theorem evaluated_waitReason (t : Task) (claims : List (String × GoalClaim)) :
    (t.evaluated claims).waitReason = t.waitReason := by
  unfold Task.evaluated
  split <;> rfl

/-- And it never leaves the task waiting. -/
theorem evaluated_ne_waiting (t : Task) (claims : List (String × GoalClaim)) :
    (t.evaluated claims).state ≠ .waiting := by
  unfold Task.evaluated
  split <;> simp

/-- A settling that acts pauses or cancels the task, and one that does not leaves it alone. -/
theorem settled_cases (t : Task) (safeBoundary externalCancelConfirmed : Bool) :
    (t.Acts safeBoundary externalCancelConfirmed ∧
      (t.settled safeBoundary externalCancelConfirmed).state ≠ .waiting) ∨
    (¬ t.Acts safeBoundary externalCancelConfirmed ∧
      t.settled safeBoundary externalCancelConfirmed = t) := by
  unfold Task.settled Task.Acts
  by_cases hpaused : t.desiredState = .paused ∧ safeBoundary = true
  · rw [if_pos hpaused]
    exact Or.inl ⟨Or.inl hpaused, by simp⟩
  rw [if_neg hpaused, or_iff_right hpaused]
  by_cases hcancelled : t.desiredState = .cancelled ∧
      (safeBoundary = true ∨ externalCancelConfirmed = true)
  · rw [if_pos hcancelled]
    exact Or.inl ⟨hcancelled, by simp⟩
  · rw [if_neg hcancelled]
    exact Or.inr ⟨hcancelled, rfl⟩

/-- A request to pause or to cancel takes a waiting task out of WAITING, and no other one does. -/
theorem controlState_waiting {desired : TaskState} (hstate : t.state = .waiting) :
    t.controlState desired = .waiting ↔ desired ∉ [.paused, .cancelled, .running] := by
  unfold Task.controlState
  rw [hstate]
  cases desired <;> decide

/-- The same of the reason. -/
theorem controlled_fits {desired : TaskState} (ht : t.ReasonFits)
    (h : desired ∉ [.paused, .cancelled] ∨ t.waitReason = none) :
    (t.controlled desired).ReasonFits := by
  intro hsome
  have hrunning : desired ≠ .running := by
    rintro rfl
    exact hsome rfl
  have hkept : (t.controlled desired).waitReason = t.waitReason := by
    simp only [Task.controlled, if_neg hrunning]
  rw [hkept] at hsome
  have hother := h.resolve_right hsome
  refine (controlState_waiting (ht hsome)).mpr ?_
  simp only [List.mem_cons, List.not_mem_nil, or_false, not_or] at hother ⊢
  exact ⟨hother.1, hother.2, hrunning⟩

end

/-! ## A step -/

/-- No wait reason out of place, and none with this task. -/
def Task.Bare (taskId : String) (t : Task) : Prop :=
  t.ReasonFits ∧ (t.taskId = taskId → t.waitReason = none)

/-- What a step keeps until it waits. -/
structure Sys.Bare (s : Sys) (taskId : String) : Prop where
  memory : ∀ t ∈ s.tasks.rows, t.Bare taskId
  rows : ∀ t ∈ s.db.tasks.rows, t.ReasonFits

section

variable (env : Env) {s : Sys} {taskId : String}

/-- Reasons that fit, and none of this task, make it bare. -/
theorem Sys.ReasonsFit.bare (h : s.ReasonsFit) (hnone : s.NoReason taskId) : s.Bare taskId where
  memory t ht := by
    refine ⟨h.memory t ht, fun hid => hnone t ?_⟩
    rw [← hid]
    exact Table.get?_of_mem ht
  rows := h.rows

/-- Where a task is bare, all reasons fit. -/
theorem Sys.Bare.fit (h : s.Bare taskId) : s.ReasonsFit := ⟨fun t ht => (h.memory t ht).1, h.rows⟩

/-- What else a change of a task does leaves a bare task bare. -/
theorem Allowance.bare_touches (taskId id : String) :
    (Allowance.upholding (Task.Bare taskId)).Touches id :=
  Allowance.upholding_touches (fun _ h => h) id

/-- An assignment to the task that keeps its reason keeps it bare. -/
theorem bare_assigned {task new : Task} (hget : s.tasks.get? taskId = some task)
    (hsame : new.waitReason = task.waitReason) :
    (Allowance.upholding (Task.Bare taskId)).task taskId (some task) new := by
  intro hold
  have hnone := (hold task rfl).2 (Table.key_of_get? hget)
  exact ⟨.of_none (hsame.trans hnone), fun _ => hsame.trans hnone⟩

/-- What a step does beside waiting keeps its task bare. -/
theorem Sys.Bare.goes (h : s.Bare taskId) {α : Type} {m : M α}
    (hm : Moves (.upholding (Task.Bare taskId)) s (after m s)) :
    Ends (fun _ t => t.Bare taskId) (fun _ t => t.ReasonsFit) m s := by
  obtain ⟨hmemory, hrows⟩ := hm.upholds (fun _ ht => ht.1) h.memory h.rows
  have hafter : (after m s).Bare taskId := ⟨hmemory, hrows⟩
  exact (Ends.of_after (P := fun t : Sys => t.Bare taskId) hafter).mono (fun _ _ ht => ht)
    (fun _ _ ht => ht.fit)

/-- What it does however its task is left. -/
theorem Sys.ReasonsFit.goes (h : s.ReasonsFit) {α : Type} {m : M α}
    (hm : Moves (.upholding Task.ReasonFits) s (after m s)) :
    Ends (fun _ t => t.ReasonsFit) (fun _ t => t.ReasonsFit) m s :=
  .of_after (P := Sys.ReasonsFit) (h.moves hm)

/-- Waiting gives the task its reason, and the state for it. -/
theorem Sys.ReasonsFit.wait (h : s.ReasonsFit) (taskId reason eventType : String) :
    Ends (fun _ t => t.ReasonsFit) (fun _ t => t.ReasonsFit) (waitTask env taskId reason eventType)
      s :=
  h.goes (moves_waitTask (Allowance.upholding_closed _) env
    (Allowance.upholding_touches (fun _ ht => ht) taskId) reason eventType
    (fun task _ _ => waiting_fits task reason))

/-- A step that moves its bare task on leaves it bare. -/
theorem Sys.Bare.update (h : s.Bare taskId) (state : Option TaskState) (phase : Option TaskPhase)
    (eventType actor : String) :
    Ends (fun _ t => t.Bare taskId) (fun _ t => t.ReasonsFit)
      (updateRuntimeState env taskId state phase eventType actor) s :=
  h.goes (moves_updateRuntimeState (Allowance.upholding_closed _) env
    (Allowance.bare_touches taskId taskId) state phase eventType actor
    (fun _ hget => bare_assigned hget rfl))

/-- So does the settling of a request. -/
theorem Sys.Bare.settle (h : s.Bare taskId) :
    Ends (fun _ t => t.Bare taskId) (fun _ t => t.ReasonsFit)
      (settleControl env taskId true false) s :=
  h.goes (moves_settleControl (Allowance.upholding_closed _) env
    (Allowance.bare_touches taskId taskId) true false
    (fun task hget _ => bare_assigned hget (settled_waitReason task true false)))

/-- What reads only leaves the state as it is. -/
theorem Sys.Bare.reads (h : s.Bare taskId) {α : Type} {m : M α} (hm : after m s = s) :
    Ends (fun _ t => t.Bare taskId) (fun _ t => t.ReasonsFit) m s :=
  h.goes (by rw [hm]; exact Moves.refl)

/-- So does the end of a step, which does both. -/
theorem Sys.Bare.settleStep (h : s.Bare taskId) (operationId : String) :
    Ends (fun _ t => t.Bare taskId) (fun _ t => t.ReasonsFit) (settleStep env taskId operationId)
      s := by
  have hrest : ∀ u : Sys, u.Bare taskId → Ends (fun _ t => t.Bare taskId) (fun _ t => t.ReasonsFit)
      (settleControl env taskId true false >>= fun _ => flushOutbox env >>= fun _ => pure ()) u := by
    intro u hu
    refine Ends.bind_with (fun _ v => v.Bare taskId) (hu.settle env) (fun _ v hv => ?_)
    refine Ends.bind_with (fun _ w => w.Bare taskId)
      (hv.goes (moves_flushOutbox (Allowance.upholding_closed _) env v)) (fun _ w hw => Ends.pure hw)
  unfold LiandanluNative.settleStep
  refine Ends.bind_with (fun _ v => v.Bare taskId) (h.reads (after_getOperation operationId s))
    (fun op v hv => ?_)
  split
  · exact Ends.bind_with (fun _ w => w.Bare taskId) (hv.update env _ _ _ _) (fun _ w => hrest w)
  split
  · exact Ends.bind_with (fun _ w => w.Bare taskId) (hv.update env _ _ _ _) (fun _ w => hrest w)
  · exact Ends.bind_with (fun _ w => w.Bare taskId) (hv.update env _ _ _ _) (fun _ w => hrest w)

/-- The step from `execute` on waits last, if it waits. -/
theorem Sys.Bare.stepExecute (h : s.Bare taskId) (operationId : String) :
    Ends (fun _ t => t.ReasonsFit) (fun _ t => t.ReasonsFit) (stepExecute env taskId operationId)
      s := by
  have hexecute : ∀ u, Moves (.upholding (Task.Bare taskId)) u
      (after (executeOperation env operationId) u) := fun u =>
    moves_executeOperation (Allowance.upholding_closed _) env (fun _ _ _ => trivial)
      (fun _ _ _ _ _ _ _ => trivial)
  unfold LiandanluNative.stepExecute
  refine Ends.bind_with (fun _ u => u.Bare taskId) (h.update env _ _ _ _) (fun _ u hu => ?_)
  -- a step whose operation failed waits under the handler, and goes no further
  refine Ends.bind_with (fun executed v => v.ReasonsFit ∧ (executed = true → v.Bare taskId))
    (ends_catching ?_) (fun executed v hv => ?_)
  · refine Ends.bind ((hu.goes (hexecute u)).mono
      (fun _ v hv => Ends.pure ⟨hv.fit, fun _ => hv⟩) (fun fault v hv => ⟨?_, fun _ => hv⟩))
    intro e _ _
    exact Ends.bind_with (fun _ w => w.ReasonsFit) (hv.wait env _ _ _)
      (fun _ w hw => Ends.pure ⟨hw, nofun⟩)
  · cases executed with
    | true =>
        exact ((hv.2 rfl).settleStep env operationId).mono (fun _ _ ht => ht.fit) (fun _ _ ht => ht)
    | false => exact Ends.pure hv.1

/-- So does the step under its `try`, -/
theorem Sys.Bare.stepAct (h : s.Bare taskId) (proposal : ActionProposal)
    (expectedRevisions : List (String × Int)) (taskLease : Option TaskLease)
    (resourceLease : Option ResourceLease) :
    Ends (fun _ t => t.ReasonsFit) (fun _ t => t.ReasonsFit)
      (stepAct env taskId proposal expectedRevisions taskLease resourceLease) s := by
  have hprepare := moves_prepare_of_start (Allowance.upholding_closed _) env
    (Allowance.bare_touches taskId taskId) (fun t ht => ht t rfl) (fun _ _ _ => trivial) proposal
    expectedRevisions taskLease resourceLease s
  unfold LiandanluNative.stepAct
  refine Ends.bind_with (fun prepared v => v.ReasonsFit ∧ (prepared ≠ none → v.Bare taskId))
    (ends_catching ?_) (fun prepared v hv => ?_)
  · refine Ends.bind ((h.goes hprepare).mono
      (fun _ v hv => Ends.pure ⟨hv.fit, fun _ => hv⟩) (fun fault v hv => ⟨?_, fun _ => hv⟩))
    intro e _ _
    split
    · exact Ends.bind_with (fun _ w => w.ReasonsFit) (hv.wait env _ _ _)
        (fun _ w hw => Ends.pure ⟨hw, fun hne => absurd rfl hne⟩)
    · exact Ends.bind_with (fun _ w => w.ReasonsFit) (hv.wait env _ _ _)
        (fun _ w hw => Ends.pure ⟨hw, fun hne => absurd rfl hne⟩)
  · cases prepared with
    | none => exact Ends.pure hv.1
    | some operationId => exact (hv.2 (by simp)).stepExecute env operationId

/-- the step from the resources on, -/
theorem Sys.Bare.stepResources (h : s.Bare taskId) (runner : Runner) (spec : ActionSpec)
    (proposal : ActionProposal) (expectedRevisions : List (String × Int))
    (taskLease : Option TaskLease) :
    Ends (fun _ t => t.ReasonsFit) (fun _ t => t.ReasonsFit)
      (stepResources env runner taskId spec proposal expectedRevisions taskLease) s := by
  unfold LiandanluNative.stepResources
  refine Ends.bind (Ends.get ?_)
  split
  · exact h.stepAct env proposal expectedRevisions taskLease none
  split
  · exact h.fit.wait env _ _ _
  · exact h.fit.wait env _ _ _
  · rename_i lease broker _
    refine Ends.bind_with (fun _ v => v.Bare taskId)
      (h.goes (moves_acquireResources (Allowance.upholding_closed _) env trivial _ _ _ _ _ s))
      (fun acquired v hv => ?_)
    cases acquired with
    | none => exact hv.fit.wait env _ _ _
    | some resourceLease =>
        refine Ends.ensuring_kept
          (hv.stepAct env proposal expectedRevisions (some lease) (some resourceLease))
          (fun w hw => Ends.bind (Ends.get ?_))
        split
        · exact Ends.pure hw
        · exact Ends.bind_with (fun _ x => x.ReasonsFit)
            (hw.goes (moves_releaseResources (Allowance.upholding_closed _) env trivial _ _ w))
            (fun _ x hx => Ends.pure hx)

/-- and the step from the model on. -/
theorem Sys.Bare.stepModel (h : s.Bare taskId) (runner : Runner) (manifest : ContextManifest)
    (taskLease : Option TaskLease) :
    Ends (fun _ t => t.ReasonsFit) (fun _ t => t.ReasonsFit)
      (stepModel env runner taskId manifest taskLease) s := by
  have hlift : ∀ {α : Type} (x : Except Exc α) (u : Sys), u.Bare taskId →
      Ends (fun _ t => t.Bare taskId) (fun _ t => t.ReasonsFit) (liftExcept x) u := fun x u hu =>
    hu.goes (within_liftExcept (Moves.frame (Allowance.upholding_closed _)) x u)
  have hended : ∀ {m : M Unit} {u : Sys}, Ends (fun _ t => t.Bare taskId) (fun _ t => t.ReasonsFit)
      m u → Ends (fun _ t => t.ReasonsFit) (fun _ t => t.ReasonsFit) m u :=
    fun hm => hm.mono (fun _ _ ht => ht.fit) (fun _ _ ht => ht)
  unfold LiandanluNative.stepModel
  refine Ends.bind_with (fun _ v => v.Bare taskId) (h.update env _ _ _ _) (fun _ s₁ h₁ => ?_)
  refine Ends.bind_with (fun _ v => v.Bare taskId) (h₁.goes (within_callOut _ s₁))
    (fun proposal s₂ h₂ => ?_)
  refine Ends.bind (Ends.get ?_)
  refine Ends.bind_with (fun _ v => v.Bare taskId) (hlift _ s₂ h₂) (fun spec s₃ h₃ => ?_)
  refine Ends.bind_with (fun _ v => v.Bare taskId) (hlift _ s₃ h₃) (fun expected s₄ h₄ => ?_)
  refine Ends.bind_with (fun _ v => v.Bare taskId) (h₄.update env _ _ _ _) (fun _ s₅ h₅ => ?_)
  refine Ends.bind_with (fun _ v => v.Bare taskId) (h₅.reads (after_getTask taskId s₅))
    (fun task s₆ h₆ => ?_)
  split
  · exact hended (h₆.update env _ _ _ _)
  · exact hended (h₆.update env _ _ _ _)
  · exact h₆.stepResources env runner spec proposal expected taskLease

/-- **A step.** -/
theorem Sys.ReasonsFit.step (h : s.ReasonsFit) (runner : Runner) (manifest : ContextManifest)
    (taskLease : Option TaskLease)
    (hcall : Call.KeepsReason s (.step runner taskId manifest taskLease)) :
    (after (step env runner taskId manifest taskLease) s).ReasonsFit := by
  refine Ends.after (P := Sys.ReasonsFit) ?_
  unfold LiandanluNative.step
  refine Ends.bind (ends_getTask (fun task hget => ?_) (fun _ => h))
  refine Ends.bind (Ends.get ?_)
  have hid : task.taskId = taskId := Table.key_of_get? hget
  split
  · exact Ends.throw h
  rename_i hworkspace
  split
  · exact Ends.throw h
  rename_i hother
  split
  · exact h.wait env _ _ _
  rename_i hlease
  -- what is left is not turned away
  have hnone : task.waitReason = none := by
    refine (hcall task hget).resolve_left ?_
    rintro (hne | ⟨lease, rfl, hforeign⟩ | ⟨hrequired, rfl⟩)
    · exact hworkspace hne
    · rw [hid] at hforeign
      exact hother (decide_eq_true hforeign)
    · exact hlease (by rw [hrequired]; rfl)
  have hbare : s.Bare taskId := by
    refine h.bare (fun t ht => ?_)
    rw [hget] at ht
    cases ht
    exact hnone
  split
  · exact (hbare.settle env).mono (fun _ _ ht => ht.fit) (fun _ _ ht => ht)
  · exact hbare.stepModel env runner manifest taskLease

/-! ## Recovering -/

/-- No wait reason out of place, and none with a request that is to be settled. -/
def Task.Ready (t : Task) : Prop := t.ReasonFits ∧ (t.Acts true false → t.waitReason = none)

/-- **Recovery** settles the requests there are, and leaves the tasks alone otherwise. -/
theorem Sys.ReasonsFit.recover (h : s.ReasonsFit) (hcall : Call.KeepsReason s .recover) :
    (after (recover env) s).ReasonsFit := by
  have hA := Allowance.upholding_closed Task.Ready
  have hsettle : ∀ t : Task, t.Ready → (t.settled true false).Ready := by
    intro t ht
    rcases settled_cases t true false with ⟨hacts, _⟩ | ⟨_, hsame⟩
    · have hnone : (t.settled true false).waitReason = none :=
        (settled_waitReason t true false).trans (ht.2 hacts)
      exact ⟨.of_none hnone, fun _ => hnone⟩
    · rw [hsame]
      exact ht
  have htouch := Allowance.upholding_touches (K := Task.Ready) (fun _ ht => ht)
  have hmoves : Moves (.upholding Task.Ready) s (after (LiandanluNative.recover env) s) :=
    recover_within (Moves.frame hA)
      (fun _ => moves_recoverOperation hA env (fun _ _ _ => trivial) (fun _ _ => trivial))
      (fun id _ => moves_settleControl hA env (htouch id) true false
        (fun task _ _ hold => hsettle task (hold task rfl)))
      (moves_flushOutbox hA env) s
  obtain ⟨hmemory, hrows⟩ := hmoves.upholds (fun _ ht => ht.1)
    (fun t ht => ⟨h.memory t ht, hcall t ht⟩) h.rows
  exact ⟨fun t ht => (hmemory t ht).1, hrows⟩

/-! ## One call -/

/-- The task, in the terms of its condition. -/
theorem Sys.NoReason.upholds {task new : Task} (h : s.NoReason taskId)
    (hget : s.tasks.get? taskId = some task) (hsame : new.waitReason = task.waitReason) :
    (Allowance.upholding Task.ReasonFits).task taskId (some task) new :=
  upholds_of_none (h task hget) hsame taskId

/-- **Every call that meets its condition keeps the reasons fitting.** -/
theorem Call.reasonsFit (h : s.ReasonsFit) {call : Call} (hcall : call.KeepsReason s) :
    (call.exec env s).ReasonsFit := by
  have hA := Allowance.upholding_closed Task.ReasonFits
  have htouch := Allowance.upholding_touches (K := Task.ReasonFits) (fun _ ht => ht)
  cases call with
  | createTask goal successCriteria workspaceId constraints lane priority budget =>
      exact h.moves (moves_createTask hA env goal successCriteria workspaceId constraints lane
        priority budget (fun _ => trivial) (fun _ _ _ hnone _ => .of_none hnone)
        (fun id => (htouch id).keep) s)
  | queue taskId =>
      exact h.moves (moves_queueTask hA env (htouch taskId)
        (fun _ _ hget _ => Sys.NoReason.upholds hcall hget rfl))
  | submit taskId =>
      exact h.moves (moves_submitTask hA env (htouch taskId)
        (fun _ _ hget _ => Sys.NoReason.upholds hcall hget rfl))
  | wait taskId reason eventType =>
      exact h.moves (moves_waitTask hA env (htouch taskId) reason eventType
        (fun task _ _ => waiting_fits task reason))
  | updateRuntimeState taskId state phase eventType actor =>
      refine h.moves (moves_updateRuntimeState hA env (htouch taskId) state phase eventType actor
        (fun task hget => ?_))
      rcases hcall with rfl | rfl | hnone
      · exact upholds_of_same rfl rfl taskId
      · exact fun _ _ => rfl
      · exact hnone.upholds hget rfl
  | control taskId desired =>
      refine h.moves (moves_controlTask hA env (htouch taskId) desired (fun task hget _ hold => ?_))
      exact controlled_fits (hold task rfl) (hcall.imp_right (fun hnone => hnone task hget))
  | settleControl taskId safeBoundary externalCancelConfirmed =>
      refine h.moves (moves_settleControl hA env (htouch taskId) _ _ (fun task hget _ => ?_))
      rcases settled_cases task safeBoundary externalCancelConfirmed with ⟨hacts, _⟩ | ⟨_, hsame⟩
      · exact upholds_of_none (hcall task hget hacts) (settled_waitReason task _ _) taskId
      · rw [hsame]
        exact upholds_of_same rfl rfl taskId
  | evaluateGoal taskId claims =>
      exact h.moves (moves_evaluateGoal hA env (htouch taskId) claims
        (fun task hget => Sys.NoReason.upholds hcall hget (evaluated_waitReason task claims)))
  | prepare taskId proposal expectedRevisions taskLease resourceLease =>
      exact h.moves (moves_prepare_of_start hA env (htouch taskId) (fun t ht => ht t rfl)
        (fun _ _ _ => trivial) proposal expectedRevisions taskLease resourceLease s)
  | execute operationId =>
      exact h.moves (moves_executeOperation hA env (fun _ _ _ => trivial)
        (fun _ _ _ _ _ _ _ => trivial))
  | step runner taskId manifest taskLease => exact h.step env runner manifest taskLease hcall
  | recover => exact h.recover env hcall
  | restart registry capabilities broker =>
      -- the tasks of the new process are the rows
      have hrows : ∀ t ∈ s.db.reopened.tasks.rows, t.ReasonFits := h.rows
      exact ⟨hrows, hrows⟩
  | _ =>
      exact h.moves (moves_call hA env htouch (fun _ _ => trivial) trivial
        (fun _ => moves_recoverOperation hA env (fun _ _ _ => trivial) (fun _ _ => trivial)) s
        trivial trivial)

/-! ## The condition is exact

A method that finds a reason, and does not meet the condition, leaves a reason that does not fit.
-/

/-- A call that assigns to its task at most once: all but a step and a recovery. -/
def Call.assignsOnce : Call → Bool
  | .step _ _ _ _ => false
  | .recover => false
  | _ => true

/-- Anything may happen, but the task keeps its wait reason. -/
def Allowance.reasoned (taskId : String) : Allowance :=
  { Allowance.free with
    task := fun id m t => id = taskId → ∀ old, m = some old → t.waitReason = old.waitReason }

/-- Keeping the reason of a task is closed: what does it twice does it. -/
theorem Allowance.reasoned_closed (taskId : String) : (Allowance.reasoned taskId).Closed where
  task := fun _ _ v _ hv hw hid old hm => (hw hid v rfl).trans (hv hid old hm)
  operation := fun _ _ _ _ _ _ => trivial
  world := fun _ _ _ _ _ => trivial

/-- A change of the task that keeps its reason is one of these. -/
theorem reasoned_assigned {id : String} {task new : Task}
    (hsame : new.waitReason = task.waitReason) :
    (Allowance.reasoned taskId).task id (some task) new := by
  rintro _ old ⟨⟩
  exact hsame

/-- What else a change of a task does keeps its reason. -/
theorem Allowance.reasoned_touches (taskId id : String) : (Allowance.reasoned taskId).Touches id where
  keep _ := reasoned_assigned rfl
  bump _ := reasoned_assigned rfl
  world _ := trivial

/-- A waiting task that is taken out of WAITING with its reason is out of place. -/
theorem Sys.ReasonsFit.not_taken {t : Sys} {task : Task} {standing : TaskState × TaskState}
    (hget : s.tasks.get? taskId = some task) (hreason : task.waitReason ≠ none)
    (hmoves : Moves (.reasoned taskId) s t) (hstands : Stands t taskId standing)
    (hstate : standing.1 ≠ .waiting) : ¬ t.ReasonsFit := by
  intro hfit
  obtain ⟨u, hu, hkept⟩ := (hmoves.tasks taskId).keeps_memory
    (K := fun u => u.waitReason = task.waitReason) (fun v w hv hw => (hw rfl v rfl).trans hv)
    ⟨task, hget, rfl⟩
  obtain ⟨v, hv, rfl⟩ := hstands
  cases hu.symm.trans hv
  exact hstate (hfit.memory u (Table.mem_of_get? hu) (hkept ▸ hreason))

/-- **A call that assigns once keeps the reasons fitting exactly if it meets its condition.** -/
theorem Call.reasonsFit_iff (h : s.ReasonsFit) {call : Call} (honce : call.assignsOnce = true) :
    (call.exec env s).ReasonsFit ↔ call.KeepsReason s := by
  refine ⟨fun hfit => ?_, fun hcall => Call.reasonsFit env h hcall⟩
  have hA := Allowance.reasoned_closed
  have hwaiting : ∀ {taskId task}, s.tasks.get? taskId = some task → task.waitReason ≠ none →
      task.state = .waiting := fun hget hreason => h.memory _ (Table.mem_of_get? hget) hreason
  have hlive : ∀ {task : Task}, task.state = .waiting → task.state.terminal = false := by
    intro task hstate
    rw [hstate]
    rfl
  -- a call that does not meet it leaves the task its reason, in another state
  cases call with
  | queue taskId =>
      intro task hget
      by_contra hreason
      have hstands := queue_stands env hget
      rw [hlive (hwaiting hget hreason), if_neg Bool.false_ne_true] at hstands
      exact Sys.ReasonsFit.not_taken hget hreason (moves_queueTask (hA taskId) env
        (Allowance.reasoned_touches taskId taskId) (fun _ _ _ _ => reasoned_assigned rfl)) hstands
        (by decide) hfit
  | submit taskId =>
      intro task hget
      by_contra hreason
      have hstands := submit_stands env hget
      rw [hlive (hwaiting hget hreason), if_neg Bool.false_ne_true] at hstands
      exact Sys.ReasonsFit.not_taken hget hreason (moves_submitTask (hA taskId) env
        (Allowance.reasoned_touches taskId taskId) (fun _ _ _ _ => reasoned_assigned rfl)) hstands
        (by decide) hfit
  | updateRuntimeState taskId state phase eventType actor =>
      refine or_iff_not_imp_left.mpr fun hsome => or_iff_not_imp_left.mpr fun hother => ?_
      intro task hget
      by_contra hreason
      have hstate : state.getD task.state ≠ .waiting := by
        cases state with
        | none => exact absurd rfl hsome
        | some state => exact fun heq => hother (congrArg some heq)
      exact Sys.ReasonsFit.not_taken hget hreason (moves_updateRuntimeState (hA taskId) env
        (Allowance.reasoned_touches taskId taskId) state phase eventType actor
        (fun _ _ => reasoned_assigned rfl))
        (update_stands env hget state phase eventType actor) hstate hfit
  | control taskId desired =>
      refine or_iff_not_imp_left.mpr fun hasked task hget => ?_
      by_contra hreason
      have hasked := not_not.mp hasked
      have hstate := hwaiting hget hreason
      have hrunning : desired ≠ .running := by
        rintro rfl
        exact absurd hasked (by decide)
      have hstands := control_stands env hget desired
      rw [hlive hstate, if_neg Bool.false_ne_true] at hstands
      refine Sys.ReasonsFit.not_taken hget hreason (moves_controlTask (hA taskId) env
        (Allowance.reasoned_touches taskId taskId) desired
        (fun _ _ _ => reasoned_assigned (if_neg hrunning))) hstands ?_ hfit
      intro hstill
      refine (controlState_waiting hstate).mp hstill ?_
      have hmore : [TaskState.paused, .cancelled] ⊆ [.paused, .cancelled, .running] := by simp
      exact hmore hasked
  | settleControl taskId safeBoundary externalCancelConfirmed =>
      intro task hget hacts
      by_contra hreason
      rcases settled_cases task safeBoundary externalCancelConfirmed with ⟨_, hstate⟩ | ⟨hnot, _⟩
      · exact Sys.ReasonsFit.not_taken hget hreason (moves_settleControl (hA taskId) env
          (Allowance.reasoned_touches taskId taskId) _ _
          (fun task _ _ => reasoned_assigned (settled_waitReason task _ _)))
          (settle_stands env hget safeBoundary externalCancelConfirmed) hstate hfit
      · exact hnot hacts
  | evaluateGoal taskId claims =>
      intro task hget
      by_contra hreason
      exact Sys.ReasonsFit.not_taken hget hreason (moves_evaluateGoal (hA taskId) env
        (Allowance.reasoned_touches taskId taskId) claims
        (fun task _ => reasoned_assigned (evaluated_waitReason task claims)))
        (evaluate_stands env hget claims) (evaluated_ne_waiting task claims) hfit
  | step runner taskId manifest taskLease => cases honce
  | recover => cases honce
  | _ => trivial

end

/-! ## Runs -/

/-- **A wait reason belongs to a waiting task.**  In every run of calls, of new processes too, in
which each call that may take a task out of WAITING finds it without a wait reason, every wait
reason is at every moment that of a waiting task.  For runs without a step and without a recovery
the condition is exact. -/
theorem reasons_fit_run (env : Env) {s : Sys} (hs : s.ReasonsFit) (calls : List Call) :
    (Each (Call.exec env) Call.KeepsReason s calls →
      Always (Call.exec env) Sys.ReasonsFit s calls) ∧
    ((∀ call ∈ calls, call.assignsOnce = true) →
      (Always (Call.exec env) Sys.ReasonsFit s calls ↔
        Each (Call.exec env) Call.KeepsReason s calls)) := by
  refine ⟨always_of_each (fun _ _ h hcall => Call.reasonsFit env h hcall) hs, fun honce => ?_⟩
  exact always_iff (I := fun _ => True) (A := fun _ call => call.assignsOnce = true)
    (fun _ _ _ _ _ => trivial) (fun _ _ honce _ h => Call.reasonsFit_iff env h honce)
    (each_iff_forall.mpr honce) trivial hs

/-- A task that waits, is told to go on, takes a step and is evaluated. -/
def Small.waitedThenStepped : List Call :=
  [.wait "t" "confirmation" "task.waiting", .control "t" .running,
    .step Small.runner "t" Small.manifest none, .evaluateGoal "t" []]

/-- A run in which a task waits, is resumed and taken up again. -/
theorem reasons_fit_small :
    Always (Call.exec Small.env) Sys.ReasonsFit { Small.start with persistent := false }
      Small.waitedThenStepped := by
  have hstart : Sys.ReasonsFit { Small.start with persistent := false } :=
    ⟨by decide, by decide⟩
  refine (reasons_fit_run Small.env hstart Small.waitedThenStepped).1
    ⟨trivial, Or.inl (by decide), fun t hget => Or.inr ?_, ?_, trivial⟩
  · have hnone : Sys.NoReason (run (Call.exec Small.env) { Small.start with persistent := false }
        [.wait "t" "confirmation" "task.waiting", .control "t" .running]) "t" := by decide +kernel
    exact hnone t hget
  · show Sys.NoReason _ _
    decide +kernel

/-- Queued again without `control`, the task keeps the reason it waited for. -/
theorem reasons_fit_fails :
    ¬ ∀ (env : Env) (persistent : Bool) (calls : List Call),
      Always (Call.exec env) Sys.ReasonsFit { persistent := persistent } calls := by
  intro h
  let calls : List Call :=
    [.createTask "read the document" ["document read"] "w" [] "background" 50 {},
      .wait (Small.env.newId "task" 0) "confirmation" "task.waiting",
      .queue (Small.env.newId "task" 0)]
  have hfit := (h Small.env false calls calls List.prefix_rfl).memory
  have hleft : (run (Call.exec Small.env) { persistent := false } calls).tasks.rows.map
      (fun t => (t.waitReason, t.state)) = [(some "confirmation", .queued)] := by decide +kernel
  obtain ⟨task, hrows, htask⟩ := List.map_eq_singleton_iff.mp hleft
  obtain ⟨hreason, hstate⟩ := Prod.mk.inj htask
  have hwaiting := hfit task (hrows ▸ List.mem_singleton.mpr rfl) (by simp [hreason])
  rw [hstate] at hwaiting
  exact absurd hwaiting (by decide)

end LiandanluNative
