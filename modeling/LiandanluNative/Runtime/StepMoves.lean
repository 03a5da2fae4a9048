/-
# LiandanluNative.Runtime.StepMoves — the paths of `NativeAgentRunner.step` and of `recover`.

`step_within` walks every path of a step once: whatever relation the task methods, the resource
broker and the outbox stay within, the step stays within it too, if the part that prepares and
executes does.  That part is only reached with a proposal the registry resolved and the policy
allowed (`Authorized`).

So an invariant of all steps is shown with two facts: that the writers of tasks keep it, which every
module about tasks has anyway, and that one mediated action does, with all that `Authorized` says
about how it came about.  The same goes for `recover`, which is a loop over the operations it found
unfinished.  The paths are those of the source: each early return, the handlers for a lost lease and
an exhausted budget, and the release in the `finally`.
-/
import LiandanluNative.Runtime.ExecutionMoves

namespace LiandanluNative

open Lib (Table)
open Lib.Proc Lib.WriteThrough

/-! ## A step

From the start of a step to where it would prepare.  Every early return is an exit that stays within
`Q`.
-/

/-- What a step has established when it comes to prepare the proposal, in state `u`. -/
structure Authorized (Q : Sys → Sys → Prop) (env : Env) (runner : Runner) (taskId : String)
    (manifest : ContextManifest) (taskLease : Option TaskLease) (proposal : ActionProposal)
    (spec : ActionSpec) (expectedRevisions : List (String × Int))
    (resourceLease : Option ResourceLease) (s u : Sys) : Prop where
  reached : Q s u
  proposed : ∃ n, env.nextAction n manifest = .ok proposal
  resolved : ∃ v, Q s v ∧ v.registry.resolve env.py proposal = .ok spec
  expected : manifest.expected spec.revisionDomains = .ok expectedRevisions
  allowed : ∃ v task, Q s v ∧ v.tasks.get? taskId = some task ∧
    runner.policy.evaluate task.workspaceId proposal.capability proposal.action spec.riskClass
      = .allow
  leased : runner.requireTaskLease.getD s.persistent = true → taskLease.isSome = true
  resources : spec.resourceRequest.empty = false → resourceLease.isSome = true

/-- What a step does beside preparing and executing stays within `Q`: each method that it may call
of the tasks, of the broker and of the outbox.  A step never asks for the state COMPLETED. -/
structure StepWithin (Q : Sys → Sys → Prop) (env : Env) (taskId : String) : Prop where
  wait : ∀ reason eventType, Within Q (waitTask env taskId reason eventType)
  update : ∀ state phase eventType actor, state ≠ some .completed →
    Within Q (updateRuntimeState env taskId state phase eventType actor)
  settle : Within Q (settleControl env taskId true false)
  call : ∀ manifest, Within Q (callOut (env.nextAction · manifest))
  acquire : ∀ broker ownerId request leaseSeconds,
    Within Q (acquireResources env broker taskId ownerId request leaseSeconds)
  release : ∀ broker lease, Within Q (releaseResources env broker lease)
  flush : Within Q (flushOutbox env)

section

variable {Q R : Sys → Sys → Prop} (hQ : Frame Q) (hR : Frame R) (hsub : ∀ s t, Q s t → R s t)
  {env : Env} {runner : Runner} {taskId : String} {manifest : ContextManifest}
  {taskLease : Option TaskLease} (hstep : StepWithin Q env taskId)
include hQ hR hsub hstep

/-- The part of a step that gets its resources waits, or comes to prepare with what it was granted.
-/
theorem stepResources_within {s u : Sys} {spec : ActionSpec} {proposal : ActionProposal}
    {expectedRevisions : List (String × Int)}
    (hauth : ∀ (v : Sys) (resourceLease : Option ResourceLease), Q u v →
      (spec.resourceRequest.empty = false → resourceLease.isSome = true) →
      Authorized Q env runner taskId manifest taskLease proposal spec expectedRevisions
        resourceLease s v)
    (hact : ∀ (v : Sys) (resourceLease : Option ResourceLease),
      Authorized Q env runner taskId manifest taskLease proposal spec expectedRevisions
        resourceLease s v →
      R v (after (stepAct env taskId proposal expectedRevisions taskLease resourceLease) v)) :
    R u (after (stepResources env runner taskId spec proposal expectedRevisions taskLease) u) := by
  unfold stepResources
  refine hR.bind_at (hR.get u) (fun v w hv => ?_)
  cases hv
  split
  · rename_i hempty
    refine hact u none (hauth u none (hQ.refl u) (fun h => ?_))
    rw [hempty] at h
    cases h
  split
  · exact hsub _ _ (hstep.wait _ _ u)
  · exact hsub _ _ (hstep.wait _ _ u)
  · rename_i lease broker hbroker
    refine hR.bind_at (hsub _ _ (hstep.acquire _ _ _ _ u)) (fun acquired v hv => ?_)
    cases acquired with
    | none => exact hsub _ _ (hstep.wait _ _ v)
    | some resourceLease =>
        have huv := (hstep.acquire _ _ _ _).of_ok hv
        refine after_ensuring (P := R v) ?_ (fun w hw => hR.trans hw ?_)
        · exact hact v (some resourceLease) (hauth v _ huv (fun _ => rfl))
        · refine hR.bind hR.get (fun x => ?_) w
          split
          · exact hR.pure _
          · exact hR.bind ((hstep.release _ _).mono hsub) (fun _ => hR.pure _)

/-- The part of a step that asks the model, the registry and the policy returns early, or comes to
that part authorized. -/
theorem stepModel_within {s : Sys}
    (hleased : runner.requireTaskLease.getD s.persistent = true → taskLease.isSome = true)
    (hact : ∀ (v : Sys) (proposal : ActionProposal) (spec : ActionSpec)
      (expectedRevisions : List (String × Int)) (resourceLease : Option ResourceLease),
      Authorized Q env runner taskId manifest taskLease proposal spec expectedRevisions
        resourceLease s v →
      R v (after (stepAct env taskId proposal expectedRevisions taskLease resourceLease) v)) :
    R s (after (stepModel env runner taskId manifest taskLease) s) := by
  unfold stepModel
  -- the calls of a step in their order, with what each of them tells
  refine hR.bind_at (hsub _ _ (hstep.update _ _ _ _ (by decide) s)) (fun _ s₁ hs₁ => ?_)
  have h₁ : Q s s₁ := (hstep.update _ _ _ _ (by decide)).of_ok hs₁
  refine hR.bind_at (hsub _ _ (hstep.call manifest s₁)) (fun proposal s₂ hs₂ => ?_)
  have h₂ : Q s s₂ := hQ.trans h₁ ((hstep.call manifest).of_ok hs₂)
  have hproposed : ∃ n, env.nextAction n manifest = .ok proposal := by
    refine ⟨s₁.calls, ?_⟩
    unfold callOut at hs₂
    split at hs₂
    · rename_i answer hanswer
      cases hs₂
      exact hanswer
    · cases hs₂
  refine hR.bind_at (hR.get s₂) (fun v w hv => ?_)
  cases hv
  refine hR.bind_at (within_liftExcept hR _ s₂) (fun spec s₃ hs₃ => ?_)
  obtain ⟨hresolved, rfl⟩ := liftExcept_eq_ok.mp hs₃
  refine hR.bind_at (within_liftExcept hR _ s₃) (fun expectedRevisions s₄ hs₄ => ?_)
  obtain ⟨hexpected, rfl⟩ := liftExcept_eq_ok.mp hs₄
  refine hR.bind_at (hsub _ _ (hstep.update _ _ _ _ (by decide) s₄)) (fun _ s₅ hs₅ => ?_)
  have h₅ : Q s s₅ := hQ.trans h₂ ((hstep.update _ _ _ _ (by decide)).of_ok hs₅)
  refine hR.bind_at (within_getTask hR taskId s₅) (fun task s₆ hs₆ => ?_)
  obtain ⟨htask, rfl⟩ := getTask_eq_ok.mp hs₆
  -- a refused action ends with an update of the task; an allowed one goes on to its resources
  cases hdecision : runner.policy.evaluate task.workspaceId proposal.capability proposal.action
      spec.riskClass with
  | deny => exact hsub _ _ (hstep.update _ _ _ _ (by decide) s₆)
  | requireConfirmation => exact hsub _ _ (hstep.update _ _ _ _ (by decide) s₆)
  | allow =>
      refine stepResources_within hQ hR hsub hstep (fun v resourceLease hv hresources => ?_)
        (fun v resourceLease hauth => hact v proposal spec expectedRevisions resourceLease hauth)
      exact ⟨hQ.trans h₅ hv, hproposed, ⟨s₄, h₂, hresolved⟩, hexpected,
        ⟨s₆, task, h₅, htask, hdecision⟩, hleased, hresources⟩

/-- **The paths of a step.** Up to `prepare` the step stays within `Q`; if it stays within the wider
`R` from there, it stays within `R`. -/
theorem step_within {s : Sys}
    (hact : ∀ (v : Sys) (proposal : ActionProposal) (spec : ActionSpec)
      (expectedRevisions : List (String × Int)) (resourceLease : Option ResourceLease),
      Authorized Q env runner taskId manifest taskLease proposal spec expectedRevisions
        resourceLease s v →
      R v (after (stepAct env taskId proposal expectedRevisions taskLease resourceLease) v)) :
    R s (after (step env runner taskId manifest taskLease) s) := by
  unfold step
  refine hR.bind_at (within_getTask hR taskId s) (fun task u hu => ?_)
  obtain ⟨htask, rfl⟩ := getTask_eq_ok.mp hu
  refine hR.bind_at (hR.get u) (fun v w hv => ?_)
  cases hv
  split
  · exact within_raise hR _ u
  split
  · exact within_raise hR _ u
  split
  · exact hsub _ _ (hstep.wait _ _ u)
  rename_i hlease
  split
  · exact hsub _ _ (hstep.settle u)
  refine stepModel_within hQ hR hsub hstep (fun hrequired => ?_) hact
  rw [hrequired, Bool.true_and, Bool.not_eq_true] at hlease
  cases taskLease with
  | none => cases hlease
  | some lease => rfl

end

/-- A part that stays within a relation stays within any wider one. -/
theorem StepWithin.mono {R R' : Sys → Sys → Prop} {env : Env} {taskId : String}
    (h : StepWithin R env taskId) (himp : ∀ s t, R s t → R' s t) : StepWithin R' env taskId where
  wait reason eventType := (h.wait reason eventType).mono himp
  update state phase eventType actor hstate :=
    (h.update state phase eventType actor hstate).mono himp
  settle := h.settle.mono himp
  call manifest := (h.call manifest).mono himp
  acquire broker ownerId request leaseSeconds :=
    (h.acquire broker ownerId request leaseSeconds).mono himp
  release broker lease := (h.release broker lease).mono himp
  flush := h.flush.mono himp

/-- What a step does beside preparing and executing is to touch its task, wait, update its runtime
state, settle its control, and take and release resources. -/
theorem stepWithin_moves {A : Allowance} (hA : A.Closed) (env : Env) {taskId : String}
    (htouch : A.Touches taskId)
    (hwait : ∀ t reason, A.task taskId (some t) (t.waiting reason))
    (hupdate : ∀ t state phase, state ≠ some .completed →
      A.task taskId (some t) (t.updated state phase))
    (hsettle : ∀ t, A.task taskId (some t) (t.settled true false)) (hresources : A.resources) :
    StepWithin (Moves A) env taskId where
  wait _ _ _ := moves_waitTask hA env htouch _ _ (fun t _ => hwait t _)
  update _ _ _ _ hstate _ :=
    moves_updateRuntimeState hA env htouch _ _ _ _ (fun t _ => hupdate t _ _ hstate)
  settle _ := moves_settleControl hA env htouch _ _ (fun t _ _ => hsettle t)
  call _ := within_callOut _
  acquire _ _ _ _ := moves_acquireResources hA env hresources _ _ _ _ _
  release _ _ := moves_releaseResources hA env hresources _ _
  flush := moves_flushOutbox hA env

/-- An allowance that leaves the task of the step free. -/
theorem stepWithin_free {A : Allowance} (hA : A.Closed) (env : Env) {taskId : String}
    (hworld : ∀ w : WorldModel, A.world w { w with revisions := w.revisions.bumpTasks })
    (htask : ∀ m t, A.task taskId m t) (hresources : A.resources) :
    StepWithin (Moves A) env taskId :=
  stepWithin_moves hA env ⟨fun _ => htask _ _, fun _ => htask _ _, hworld⟩ (fun _ _ => htask _ _)
    (fun _ _ _ _ => htask _ _) (fun _ => htask _ _) hresources

/-- The methods of a task leave the operations alone. -/
theorem stepWithin_taskwork (env : Env) (taskId : String) :
    StepWithin (Moves .taskwork) env taskId :=
  stepWithin_free Allowance.taskwork_closed env (fun _ => trivial) (fun _ _ => trivial) trivial

/-! ## Preparing and executing

The part under the `try`: two handlers make the task wait, and what they do not take goes on to the
`finally`.
-/

/-- A handler that only returns `none` did not run where `some` was returned, so the body did return
it. -/
theorem catching_eq_some {α : Type} {catches : Exc → Bool} {body : M α}
    {handler : Exc → M (Option α)} {s t : Sys} {a : α}
    (hnone : ∀ e u v b, handler e u = .ok b v → b = none)
    (h : catching catches (do let a ← body; return some a) handler s = .ok (some a) t) :
    body s = .ok a t := by
  unfold catching handling at h
  cases hbody : body s with
  | ok b u =>
      have hrun : (do let a ← body; return some a : M (Option α)) s = .ok (some b) u :=
        bind_eq_ok.mpr ⟨b, u, hbody, rfl⟩
      simp only [hrun, EStateM.Result.ok.injEq, Option.some.injEq] at h
      rw [h.1, h.2]
  | error fault u =>
      have hrun : (do let a ← body; return some a : M (Option α)) s = .error fault u := by
        simp only [bind, EStateM.bind, hbody]
      simp only [hrun] at h
      cases fault with
      | crash => cases h
      | raised e =>
          dsimp only at h
          split at h
          · cases hnone e u t (some a) h
          · cases h

/-- The rule for one run under a handler. -/
theorem catching_at {R : Sys → Sys → Prop} (hR : Frame R) {α : Type} {catches : Exc → Bool}
    {body : M α} {handler : Exc → M α} {s : Sys} (hbody : R s (after body s))
    (hhandler : ∀ e, Within R (handler e)) : R s (after (catching catches body handler) s) := by
  refine after_handling (P := R s) (fun a t ht => ?_) (fun fault t ht => ?_)
  · rwa [after_of_ok ht] at hbody
  · rw [after_of_error ht] at hbody
    cases fault with
    | crash => exact hbody
    | raised e =>
        refine hR.trans hbody ?_
        show R t (after (if catches e then handler e else raise e) t)
        split
        · exact hhandler e t
        · exact within_raise hR e t

section

variable {R : Sys → Sys → Prop} (hR : Frame R) {env : Env} {taskId : String}
  (hstep : StepWithin R env taskId)
include hR hstep

/-- After its execution a step sets the task by the outcome, settles what was asked and delivers the
outbox. -/
theorem settleStep_within (operationId : String) : Within R (settleStep env taskId operationId) := by
  have hsettle : Within R (settleControl env taskId true false >>= fun _ =>
      flushOutbox env >>= fun _ => pure ()) :=
    hR.bind hstep.settle (fun _ => hR.bind hstep.flush (fun _ => hR.pure _))
  unfold settleStep
  refine hR.bind (within_getOperation hR operationId) (fun op => ?_)
  split
  · exact hR.bind (hstep.update _ _ _ _ (by decide)) (fun _ => hsettle)
  split
  · exact hR.bind (hstep.update _ _ _ _ (by decide)) (fun _ => hsettle)
  · exact hR.bind (hstep.update _ _ _ _ (by decide)) (fun _ => hsettle)

/-- **The paths through `prepare` and `execute`.** -/
theorem stepAct_within {s : Sys} {proposal : ActionProposal}
    {expectedRevisions : List (String × Int)} {taskLease : Option TaskLease}
    {resourceLease : Option ResourceLease}
    (hprepare : R s
      (after (prepare env taskId proposal expectedRevisions taskLease resourceLease) s))
    (hexecute : ∀ operationId t u,
      prepare env taskId proposal expectedRevisions taskLease resourceLease s
        = .ok operationId t →
      updateRuntimeState env taskId none (some .executing) "task.executing" "engine" t
        = .ok () u →
      R u (after (executeOperation env operationId) u)) :
    R s (after (stepAct env taskId proposal expectedRevisions taskLease resourceLease) s) := by
  unfold stepAct
  refine hR.bind_at (catching_at hR ?_ (fun e => ?_)) (fun prepared t ht => ?_)
  · exact hR.bind_at hprepare (fun _ t _ => hR.pure _ t)
  · dsimp only
    split
    · exact hR.bind (hstep.wait _ _) (fun _ => hR.pure _)
    · exact hR.bind (hstep.wait _ _) (fun _ => hR.pure _)
  cases prepared with
  | none => exact hR.pure _ t
  | some operationId =>
      -- the handler gives no operation, so `prepare` has returned this one
      have hprepared : prepare env taskId proposal expectedRevisions taskLease resourceLease s
          = .ok operationId t := by
        refine catching_eq_some (fun e u v b hb => ?_) ht
        dsimp only at hb
        split at hb
        · obtain ⟨_, w, _, hdone⟩ := bind_eq_ok.mp hb
          cases hdone
          rfl
        · obtain ⟨_, w, _, hdone⟩ := bind_eq_ok.mp hb
          cases hdone
          rfl
      show R t (after (stepExecute env taskId operationId) t)
      unfold stepExecute
      refine hR.bind_at (hstep.update _ _ _ _ (by decide) t) (fun _ u hu => ?_)
      refine hR.bind_at (catching_at hR ?_ (fun e => ?_)) (fun executed v _ => ?_)
      · refine hR.bind_at (hexecute operationId t u hprepared hu) (fun _ w _ => hR.pure _ w)
      · exact hR.bind (hstep.wait _ _) (fun _ => hR.pure _)
      · split
        · exact settleStep_within hR hstep operationId v
        · exact hR.pure _ v

end

/-- Everything a step assigns to its task. -/
structure Allowance.Works (A : Allowance) (taskId : String) : Prop extends A.Touches taskId where
  wait : ∀ t reason, A.task taskId (some t) (t.waiting reason)
  update : ∀ t state phase, state ≠ some .completed →
    A.task taskId (some t) (t.updated state phase)
  settle : ∀ t, A.task taskId (some t) (t.settled true false)
  start : ∀ t, A.task taskId (some t) t.started

/-- An allowance that leaves tasks, operations and world free is kept by the work of a step, as that
changes nothing else of what it names. -/
theorem Allowance.Works.of_free {A : Allowance} {taskId : String}
    (hworld : ∀ w : WorldModel, A.world w { w with revisions := w.revisions.bumpTasks })
    (htask : ∀ m t, A.task taskId m t) : A.Works taskId where
  keep _ := htask _ _
  bump _ := htask _ _
  world := hworld
  wait _ _ := htask _ _
  update _ _ _ _ := htask _ _
  settle _ := htask _ _
  start _ := htask _ _

/-- The freest allowance is one of them. -/
theorem Allowance.free_works (taskId : String) : Allowance.free.Works taskId :=
  .of_free (fun _ => trivial) (fun _ _ => trivial)

section

variable {A : Allowance} (hA : A.Closed) (env : Env) {taskId : String}
include hA

/-- What `prepare` does to its task is to start an operation on it. -/
theorem moves_prepare_of_start (htouch : A.Touches taskId)
    (hstart : ∀ t, A.task taskId (some t) t.started)
    (hoperation : ∀ id m op, A.operation id m op) (proposal : ActionProposal)
    (expectedRevisions : List (String × Int)) (taskLease : Option TaskLease)
    (resourceLease : Option ResourceLease) :
    Within (Moves A) (prepare env taskId proposal expectedRevisions taskLease resourceLease) := by
  intro s
  cases prepare_cases env taskId proposal expectedRevisions taskLease resourceLease s with
  | refused hmoves => exact hmoves A
  | opened task spec u hfound hreads htaken hleased hstarted =>
      have hsu : Moves A s u := by
        rw [htaken]
        exact { Moves.refl with ids := Nat.le_succ _, clockReads := hreads }
      rw [hstarted]
      have hid : task.taskId = taskId := Table.key_of_get? hfound
      subst hid
      have hnow : u.tasks.get? task.taskId = some task := by
        rw [htaken]
        exact hfound
      refine hsu.trans hA (moves_startOperation hA htouch ?_ (hoperation _ _ _)
        (fun _ => hoperation _ _ _))
      rw [hnow]
      exact hstart task

variable (hworks : A.Works taskId) (hoperation : ∀ id m op, A.operation id m op)
include hworks hoperation

/-- An allowance for the work on a task that leaves the operations free has room for `prepare`, … -/
theorem moves_prepare (proposal : ActionProposal) (expectedRevisions : List (String × Int))
    (taskLease : Option TaskLease) (resourceLease : Option ResourceLease) :
    Within (Moves A) (prepare env taskId proposal expectedRevisions taskLease resourceLease) :=
  moves_prepare_of_start hA env hworks.toTouches hworks.start hoperation proposal
    expectedRevisions taskLease resourceLease

/-- … and, where the capabilities are free too, for a whole step. -/
theorem moves_step (hresources : A.resources) (hinvoke : ∀ i, A.invoke i) (runner : Runner)
    (manifest : ContextManifest) (taskLease : Option TaskLease) :
    Within (Moves A) (step env runner taskId manifest taskLease) := by
  intro s
  have hF := Moves.frame hA
  have hstep := stepWithin_moves hA env hworks.toTouches hworks.wait hworks.update hworks.settle
    hresources
  refine step_within hF hF (fun _ _ h => h) hstep
    (fun v proposal spec expectedRevisions resourceLease _ => ?_)
  refine stepAct_within hF hstep (moves_prepare hA env hworks hoperation _ _ _ _ v) ?_
  intro operationId t u _ _
  exact moves_executeOperation hA env (fun _ _ _ => hoperation _ _ _) (fun _ _ _ _ _ _ _ => hinvoke _)

end

/-! ## Recovering -/

section

variable {R : Sys → Sys → Prop} (hR : Frame R) {env : Env}
include hR

/-- A loop over what a recovery found stays within what each of its rounds does; a round that raises
ends it. -/
theorem countM_within {α : Type} {f : α → M Bool} (hf : ∀ a, Within R (f a)) :
    ∀ xs, Within R (countM f xs)
  | [] => hR.pure _
  | x :: xs => by
      unfold countM
      refine hR.bind (hf x) (fun counted => ?_)
      exact hR.bind (countM_within hf xs) (fun rest => hR.pure _)

/-- **The loops of `recover`.** -/
theorem recover_within (hrecover : ∀ id, Within R (recoverOperation env id))
    (hsettle : ∀ id, Within R (settleControl env id true false))
    (hflush : Within R (flushOutbox env)) : Within R (recover env) := by
  unfold recover
  refine hR.bind hR.get (fun s => ?_)
  refine hR.bind (countM_within hR (fun id => ?_) _) (fun reconciled => ?_)
  · unfold recoverIfUnsettled
    refine hR.bind (within_getOperation hR id) (fun op => ?_)
    split
    · exact hR.bind (hrecover id) (fun _ => hR.pure _)
    · exact hR.pure _
  refine hR.bind hR.get (fun s => ?_)
  refine hR.bind (countM_within hR (fun id => ?_) _) (fun settled => ?_)
  · unfold settleIfRequested
    refine hR.bind (within_getTask hR id) (fun task => ?_)
    split
    · refine hR.bind (hsettle id) (fun _ => ?_)
      exact hR.bind (within_getTask hR id) (fun _ => hR.pure _)
    · exact hR.pure _
  · exact hR.bind hflush (fun _ => hR.pure _)

end

end LiandanluNative
