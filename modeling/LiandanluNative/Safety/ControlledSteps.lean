/-
# LiandanluNative.Safety.ControlledSteps — a request to pause or to cancel while a step runs.

A step looks at what its task is asked to do when it starts and again at its normal end, where it
settles what was asked in between.  Its other exits assign WAITING or BLOCKED over the PAUSING or
CANCELLING that a request has left, and return: the request still stands, but the task neither
pauses nor is on its way to (`step_honours_fails`).

So it is decided where the step makes its last call that writes the task.  At an exit that assigns
WAITING or BLOCKED it is not to find the task asked; at a settling it is to find it asked, or nothing
is to be asked after that (`clearCall`).  What is asked after the last call may still make itself
good.  A step that is cut short wherever it finds a call otherwise is the step, or is cut short: it
honours what it is asked if, and only if, it is not (`step_honours_iff`), whatever the moments the
requests arrive at.
-/
import LiandanluNative.Lib.Splits
import LiandanluNative.Runtime.StepHearing

namespace LiandanluNative

open Lib (Table)
open Lib.Proc

/-! ## Steps cut short -/

/-- The events with which the policy ends a step.  An update with another event is followed by more
of the step. -/
def policyExits : List String := ["agent.action.blocked", "agent.action.confirmation_required"]

namespace StepMoment

/-- After this call the step returns, without settling what it was asked. -/
def leaves : StepMoment → Bool
  | .wait _ => true
  | .update eventType => decide (eventType ∈ policyExits)
  | _ => false

/-- The call is the last that writes the state of the task. -/
def decisive (moment : StepMoment) : Bool := moment.leaves || decide (moment = .settle)

end StepMoment

/-- Only the decisive calls are looked at: every other call is clear in any state. -/
def OnlyDecisive (clear : StepMoment → Sys → Bool) : Prop :=
  ∀ moment u, moment.decisive = false → clear moment u = true

/-- The calls of one step, those that are cut short where they are not clear, and those that are cut
short where they are: each but the decisive ones is what it was. -/
structure Opposed (calls calls₁ calls₂ : StepCalls) : Prop where
  wait : ∀ reason eventType, Splits (fun _ => False) (fun _ => True) (calls.wait reason eventType)
    (calls₁.wait reason eventType) (calls₂.wait reason eventType)
  exits : ∀ state phase eventType actor, eventType ∈ policyExits →
    Splits (fun _ => False) (fun _ => True) (calls.update state phase eventType actor)
      (calls₁.update state phase eventType actor) (calls₂.update state phase eventType actor)
  settle : Splits (fun _ => False) (fun _ => True) calls.settle calls₁.settle calls₂.settle
  update : ∀ state phase eventType actor, eventType ∉ policyExits →
    calls₁.update state phase eventType actor = calls.update state phase eventType actor ∧
      calls₂.update state phase eventType actor = calls.update state phase eventType actor
  nextAction : calls₁.nextAction = calls.nextAction ∧ calls₂.nextAction = calls.nextAction
  resolve : calls₁.resolve = calls.resolve ∧ calls₂.resolve = calls.resolve
  evaluate : calls₁.evaluate = calls.evaluate ∧ calls₂.evaluate = calls.evaluate
  acquire : calls₁.acquire = calls.acquire ∧ calls₂.acquire = calls.acquire
  prepare : calls₁.prepare = calls.prepare ∧ calls₂.prepare = calls.prepare
  execute : calls₁.execute = calls.execute ∧ calls₂.execute = calls.execute
  flush : calls₁.flush = calls.flush ∧ calls₂.flush = calls.flush
  release : calls₁.release = calls.release ∧ calls₂.release = calls.release

/-- A handler may hold the decisive call, of a body that has none. -/
theorem splits_catching {α : Type} {free cut : α → Prop} {catches : Exc → Bool} {body : M α}
    {handler handler₁ handler₂ : Exc → M α}
    (h : ∀ e, Splits free cut (handler e) (handler₁ e) (handler₂ e)) :
    Splits free cut (catching catches body handler) (catching catches body handler₁)
      (catching catches body handler₂) := by
  unfold catching
  refine Splits.handling (fun fault => ?_)
  cases fault with
  | crash => exact Splits.same
  | raised e =>
      by_cases hcaught : catches e = true
      · simp only [if_pos hcaught]
        exact h e
      · simp only [if_neg hcaught]
        exact Splits.same

section

variable {calls calls₁ calls₂ : StepCalls} (h : Opposed calls calls₁ calls₂)
include h

/-- Before its `try` a step makes a decisive call only if it returns there: the opening settling, a
wait, or the policy's no. -/
def Undecided (a : StepExit ⊕ Admitted) : Prop := ∃ admitted, a = .inr admitted

omit h in
/-- A step that has returned is decided. -/
theorem pure_inl_decided {exit : StepExit} (s : Sys) (a : StepExit ⊕ Admitted) (t : Sys)
    (hrun : (pure (.inl exit) : M (StepExit ⊕ Admitted)) s = .ok a t) : ¬ Undecided a := by
  cases hrun
  rintro ⟨admitted, heq⟩
  cases heq

/-- From the resources on, … -/
theorem splits_stepAcquire (spec : ActionSpec) (proposal : ActionProposal)
    (expectedRevisions : List (String × Int)) (taskLease : Option TaskLease) :
    Splits Undecided (fun _ => True)
      (stepAcquire calls spec proposal expectedRevisions taskLease)
      (stepAcquire calls₁ spec proposal expectedRevisions taskLease)
      (stepAcquire calls₂ spec proposal expectedRevisions taskLease) := by
  unfold stepAcquire
  refine Splits.bind_same (fun s => ?_)
  split
  · exact Splits.same
  cases taskLease with
  | none => exact (h.wait _ _).followed pure_inl_decided
  | some lease =>
      cases s.broker with
      | none => exact (h.wait _ _).followed pure_inl_decided
      | some broker =>
          dsimp only
          rw [h.acquire.1, h.acquire.2]
          refine Splits.bind_same (fun acquired => ?_)
          cases acquired with
          | none => exact (h.wait _ _).followed pure_inl_decided
          | some resourceLease => exact Splits.same

/-- … from the model on, … -/
theorem splits_stepDecide (manifest : ContextManifest) (taskLease : Option TaskLease) :
    Splits Undecided (fun _ => True) (stepDecide calls manifest taskLease)
      (stepDecide calls₁ manifest taskLease) (stepDecide calls₂ manifest taskLease) := by
  have hstarted := h.update (some .running) (some .thinking) "task.agent_step_started" "engine"
    (by decide)
  have hauthorizing := h.update none (some .authorizing) "task.authorizing" "engine" (by decide)
  unfold stepDecide
  rw [hstarted.1, hstarted.2, h.nextAction.1, h.nextAction.2, h.resolve.1, h.resolve.2,
    hauthorizing.1, hauthorizing.2, h.evaluate.1, h.evaluate.2]
  refine Splits.bind_same (fun _ => Splits.bind_same (fun proposal => ?_))
  refine Splits.bind_same (fun spec => Splits.bind_same (fun expectedRevisions => ?_))
  refine Splits.bind_same (fun _ => Splits.bind_same (fun decision => ?_))
  cases decision with
  | deny => exact (h.exits _ _ _ _ (by decide)).followed pure_inl_decided
  | requireConfirmation => exact (h.exits _ _ _ _ (by decide)).followed pure_inl_decided
  | allow => exact splits_stepAcquire h spec proposal expectedRevisions taskLease

/-- … and from the start. -/
theorem splits_stepAdmit (runner : Runner) (taskId : String) (manifest : ContextManifest)
    (taskLease : Option TaskLease) :
    Splits Undecided (fun _ => True) (stepAdmit calls runner taskId manifest taskLease)
      (stepAdmit calls₁ runner taskId manifest taskLease)
      (stepAdmit calls₂ runner taskId manifest taskLease) := by
  unfold stepAdmit
  refine Splits.bind_same (fun task => Splits.bind_same (fun s => ?_))
  split
  · exact Splits.same
  split
  · exact Splits.same
  split
  · exact (h.wait _ _).followed pure_inl_decided
  split
  · exact h.settle.followed pure_inl_decided
  · exact splits_stepDecide h manifest taskLease

/-- From its `try` on it makes exactly one, on every way it can return: the closing settling, or the
wait of an exhausted budget or a lost lease. -/
theorem splits_settleStepWith (operationId : String) :
    Splits (fun _ => False) (fun _ => True) (settleStepWith calls operationId)
      (settleStepWith calls₁ operationId) (settleStepWith calls₂ operationId) := by
  unfold settleStepWith
  refine Splits.bind_same (fun op => ?_)
  have houtcome : op.state.outcome.eventType ∉ policyExits := by
    unfold OperationState.outcome
    split
    · decide
    split
    · decide
    · decide
  have hupdate := h.update (some op.state.outcome.state) (some op.state.outcome.phase)
    op.state.outcome.eventType "engine" houtcome
  dsimp only
  rw [hupdate.1, hupdate.2, h.flush.1, h.flush.2]
  exact Splits.bind_same (fun _ => h.settle.followed (fun _ _ _ _ => id))

/-- So it does from the effect on, … -/
theorem splits_stepExecuteWith (operationId : String) :
    Splits (fun _ => False) (fun _ => True) (stepExecuteWith calls operationId)
      (stepExecuteWith calls₁ operationId) (stepExecuteWith calls₂ operationId) := by
  have hexecuting := h.update none (some .executing) "task.executing" "engine" (by decide)
  unfold stepExecuteWith
  rw [hexecuting.1, hexecuting.2, h.execute.1, h.execute.2]
  refine Splits.bind_same (fun _ => ?_)
  -- an execution that is lost waits, and what is not lost is settled
  refine Splits.bind (fun executed => executed = true) (fun _ => True)
    (splits_catching (fun e => ?_)) (fun executed hexecuted => ?_) (fun executed hlost => ?_)
  · refine (h.wait _ _).followed (fun s b t hrun hb => ?_)
    cases hrun
    cases hb
  · subst hexecuted
    exact splits_settleStepWith h operationId
  · simp only [if_neg hlost]
    exact ⟨trivial, trivial, fun _ _ _ _ => ⟨id, fun _ => trivial⟩⟩

/-- … from `prepare` on, … -/
theorem splits_stepActWith (admitted : Admitted) :
    Splits (fun _ => False) (fun _ => True) (stepActWith calls admitted)
      (stepActWith calls₁ admitted) (stepActWith calls₂ admitted) := by
  unfold stepActWith
  rw [h.prepare.1, h.prepare.2]
  refine Splits.bind (fun prepared => ∃ operationId : String, prepared = .inr operationId)
    (fun _ => True) (splits_catching (fun e => ?_)) (fun prepared hprepared => ?_)
    (fun prepared hrefused => ?_)
  · split
    · refine (h.wait _ _).followed (fun s b t hrun hb => ?_)
      cases hrun
      obtain ⟨operationId, heq⟩ := hb
      cases heq
    · refine (h.wait _ _).followed (fun s b t hrun hb => ?_)
      cases hrun
      obtain ⟨operationId, heq⟩ := hb
      cases heq
  · obtain ⟨operationId, rfl⟩ := hprepared
    exact splits_stepExecuteWith h operationId
  · cases prepared with
    | inl exit => exact ⟨rfl, rfl, fun _ _ _ _ => ⟨id, fun _ => trivial⟩⟩
    | inr operationId => exact absurd ⟨operationId, rfl⟩ hrefused

/-- … and with the `finally`, whose release writes no task. -/
theorem splits_stepFinish (admitted : Admitted) :
    Splits (fun _ => False) (fun _ => True) (stepFinish calls (.inr admitted))
      (stepFinish calls₁ (.inr admitted)) (stepFinish calls₂ (.inr admitted)) := by
  have hact := splits_stepActWith h admitted
  simp only [stepFinish]
  cases admitted.resourceLease with
  | none => exact hact
  | some lease =>
      simp only [h.release.1, h.release.2]
      exact hact.ensuring

end

section

variable (env : Env) (runner : Runner) (taskId : String) (manifest : ContextManifest)
  (taskLease : Option TaskLease) (requests : StepMoment → List TaskState)

/-- The calls that are clear, and those that are not. -/
theorem opposed_attendedCalls {clear₁ clear₂ : StepMoment → Sys → Bool}
    (hclear₁ : OnlyDecisive clear₁) (hclear₂ : OnlyDecisive clear₂)
    (hone : ∀ moment u, clear₁ moment u = true ∨ clear₂ moment u = true) :
    Opposed (controlledCalls env runner taskId manifest taskLease requests)
      (attendedCalls env runner taskId manifest taskLease clear₁ requests)
      (attendedCalls env runner taskId manifest taskLease clear₂ requests) := by
  -- a moment that is clear lets the call through
  have hpasses : ∀ {clear : StepMoment → Sys → Bool} {moment : StepMoment} {u : Sys},
      clear moment u = true → attend clear moment u = .ok () u := by
    intro clear moment u hclear
    show (if clear moment u then pure () else throw .crash : M Unit) u = _
    rw [if_pos hclear]
    rfl
  -- at a decisive moment one of the two is
  have hchecked : ∀ (moment : StepMoment) (m : M Unit), Splits (fun _ => False) (fun _ => True)
      (requestControl env taskId (requests moment) >>= fun _ => m)
      (requestControl env taskId (requests moment) >>= fun _ => attend clear₁ moment >>= fun _ => m)
      (requestControl env taskId (requests moment) >>= fun _ => attend clear₂ moment >>= fun _ => m) :=
    fun moment m => Splits.checked (fun _ _ u => (hone moment u).imp hpasses hpasses)
  -- any other moment is clear for both
  have hsame : ∀ {clear : StepMoment → Sys → Bool}, OnlyDecisive clear → ∀ (moment : StepMoment),
      moment.decisive = false → ∀ {α : Type} (m : M α),
      (requestControl env taskId (requests moment) >>= fun _ => attend clear moment >>= fun _ => m)
        = (requestControl env taskId (requests moment) >>= fun _ => m) := by
    intro clear hclear moment hmoment α m
    have hattend : attend clear moment = pure () := funext fun u => hpasses (hclear moment u hmoment)
    rw [hattend]
    rfl
  have hboth : ∀ (moment : StepMoment), moment.decisive = false → ∀ {α : Type} (m : M α),
      (requestControl env taskId (requests moment) >>= fun _ => attend clear₁ moment >>= fun _ => m)
          = (requestControl env taskId (requests moment) >>= fun _ => m) ∧
        (requestControl env taskId (requests moment) >>= fun _ => attend clear₂ moment >>= fun _ => m)
          = (requestControl env taskId (requests moment) >>= fun _ => m) :=
    fun moment hmoment _ m => ⟨hsame hclear₁ moment hmoment m, hsame hclear₂ moment hmoment m⟩
  exact
    { wait := fun reason eventType => hchecked (.wait eventType) _
      exits := fun state phase eventType actor _ => hchecked (.update eventType) _
      settle := hchecked .settle _
      update := fun state phase eventType actor hevent =>
        hboth (.update eventType) (by simp [StepMoment.decisive, StepMoment.leaves, hevent]) _
      nextAction := hboth .nextAction rfl _
      resolve := ⟨funext fun _ => hsame hclear₁ .resolve rfl _,
        funext fun _ => hsame hclear₂ .resolve rfl _⟩
      evaluate := ⟨funext fun _ => funext fun _ => hsame hclear₁ .evaluate rfl _,
        funext fun _ => funext fun _ => hsame hclear₂ .evaluate rfl _⟩
      acquire := ⟨funext fun _ => funext fun _ => funext fun _ => hsame hclear₁ .acquire rfl _,
        funext fun _ => funext fun _ => funext fun _ => hsame hclear₂ .acquire rfl _⟩
      prepare := ⟨funext fun _ => funext fun _ => funext fun _ => hsame hclear₁ .prepare rfl _,
        funext fun _ => funext fun _ => funext fun _ => hsame hclear₂ .prepare rfl _⟩
      execute := ⟨funext fun _ => hsame hclear₁ .execute rfl _,
        funext fun _ => hsame hclear₂ .execute rfl _⟩
      flush := hboth .flush rfl _
      release := ⟨funext fun _ => hsame hclear₁ .release rfl _,
        funext fun _ => hsame hclear₂ .release rfl _⟩ }

/-- **A step that returns meets one decisive call**, which is clear or is not: so of the two steps
that are cut short, one is not, and the other is. -/
theorem splits_attendedStep {clear₁ clear₂ : Bool → StepMoment → Sys → Bool}
    (hclear₁ : ∀ leased, OnlyDecisive (clear₁ leased))
    (hclear₂ : ∀ leased, OnlyDecisive (clear₂ leased))
    (hone : ∀ leased moment u, clear₁ leased moment u = true ∨ clear₂ leased moment u = true) :
    Splits (fun _ => False) (fun _ => True)
      (controlledStep env runner taskId manifest taskLease requests)
      (attendedStep env runner taskId manifest taskLease clear₁ requests)
      (attendedStep env runner taskId manifest taskLease clear₂ requests) := by
  have hopposed := fun leased => opposed_attendedCalls env runner taskId manifest taskLease requests
    (hclear₁ leased) (hclear₂ leased) (hone leased)
  unfold controlledStep attendedStep
  refine Splits.bind_same (fun _ => ?_)
  refine Splits.bind _ _ (splits_stepAdmit (hopposed false) runner taskId manifest taskLease)
    (fun a hundecided => ?_) (fun a hdecided => ?_)
  · obtain ⟨admitted, rfl⟩ := hundecided
    refine Splits.bind _ _ (splits_stepFinish (hopposed admitted.resourceLease.isSome) admitted)
      (fun _ hfree => hfree.elim) (fun exit _ => ?_)
    exact ⟨rfl, rfl, fun _ _ _ _ => ⟨id, fun _ => trivial⟩⟩
  · cases a with
    | inl exit => exact ⟨rfl, rfl, fun _ _ _ _ => ⟨id, fun _ => trivial⟩⟩
    | inr admitted => exact absurd ⟨admitted, rfl⟩ hdecided

end

/-! ## What a step honours -/

/-- The task does what it is asked to, if that is to pause or to be cancelled: its state is its
desired state. -/
def Sys.Honours (s : Sys) (taskId : String) : Prop :=
  ∃ task, s.tasks.get? taskId = some task ∧ task.Honours

/-- What is asked after the closing settling: before the flush, and where there is a lease before
its release. -/
def lateRequests (requests : StepMoment → List TaskState) (leased : Bool) : List TaskState :=
  requests .flush ++ if leased then requests .release else []

/-- Requests to a running task that leave it as the last of them asks: none, or a pause twice before
anything else, or two cancellations. -/
def MakesGood (late : List TaskState) : Prop :=
  late = [] ∨ [.paused, .paused] <+: late ∨ 2 ≤ late.count .cancelled

instance (late : List TaskState) : Decidable (MakesGood late) := by
  unfold MakesGood
  infer_instance

/-- What a step is to find when it makes a call, with or without a resource lease.  Where it writes
the state of the task and returns, the task is not asked to pause or to be cancelled, unless it is
asked again before the lease is released.  Where it settles what was asked, the task is asked, or it
waits, or what is asked after that makes itself good. -/
def clearCall (requests : StepMoment → List TaskState) (taskId : String) (leased : Bool)
    (moment : StepMoment) (s : Sys) : Bool :=
  match s.tasks.get? taskId with
  | none => true
  | some task =>
      if moment.leaves then
        decide (task.Asked → leased = true ∧ requests .release ≠ [])
      else if moment = .settle then
        decide (task.Asked ∨ task.state = .waiting ∨ MakesGood (lateRequests requests leased))
      else
        true

/-- The call is not decisive, or not as it is to be: at the decisive calls the opposite of
`clearCall`. -/
def unclearCall (requests : StepMoment → List TaskState) (taskId : String) (leased : Bool)
    (moment : StepMoment) (s : Sys) : Bool :=
  !moment.decisive || !clearCall requests taskId leased moment s

/-- Both of them look at the decisive calls only. -/
theorem onlyDecisive_clearCall (requests : StepMoment → List TaskState) (taskId : String)
    (leased : Bool) : OnlyDecisive (clearCall requests taskId leased) := by
  intro moment u hmoment
  simp only [StepMoment.decisive, Bool.or_eq_false_iff, decide_eq_false_iff_not] at hmoment
  unfold clearCall
  cases u.tasks.get? taskId with
  | none => rfl
  | some task => simp only [hmoment.1, Bool.false_eq_true, if_false, if_neg hmoment.2]

/-- The second by its first part. -/
theorem onlyDecisive_unclearCall (requests : StepMoment → List TaskState) (taskId : String)
    (leased : Bool) : OnlyDecisive (unclearCall requests taskId leased) := by
  intro moment u hmoment
  simp only [unclearCall, hmoment, Bool.not_false, Bool.true_or]

namespace StepExit

/-- The last call that writes the state of the task is decisive. -/
theorem decisive_lastMoment (exit : StepExit) : exit.lastMoment.decisive = true := by
  cases exit with
  | finished operation => rfl
  | _ => decide

/-- **The last write decides**: a step that returns this way has settled what it was asked exactly if
that call was clear. -/
theorem settles_iff_clear {requests : StepMoment → List TaskState} {taskId : String} {leased : Bool}
    {heard : Prop} {exit : StepExit} {u : Sys} {task : Task}
    (hget : u.tasks.get? taskId = some task) (hfinds : exit.Finds heard task) :
    exit.Settles heard ((exit.lateMoments leased).flatMap requests) ↔
      clearCall requests taskId leased exit.lastMoment u = true := by
  unfold clearCall
  simp only [hget]
  cases exit with
  | settled =>
      have hasked : task.Asked := hfinds
      simp [Settles, lastMoment, StepMoment.leaves, hasked]
  | finished operation =>
      obtain ⟨hasked, hstate⟩ := hfinds
      -- after the last settle only what is asked around the release is left
      have hlate : (lateMoments leased (.finished operation)).flatMap requests
          = lateRequests requests leased := by
        cases leased <;> simp [lateMoments, lateRequests]
      rw [hlate]
      simp only [lastMoment, StepMoment.leaves, Bool.false_eq_true, if_false, if_true,
        decide_eq_true_eq, hasked]
      by_cases hheard : heard
      · exact iff_of_true (Or.inl hheard) (Or.inl hheard)
      · rw [hstate hheard]
        rfl
  | unleased | blocked | unconfirmed | unresourced | unavailable | exhausted | refused | lost =>
      have hasked : task.Asked ↔ heard := hfinds
      -- a moment that leaves the task as it is: what counts is whether the task was asked, and
      -- whether a request comes before the release
      have hleaves : ∀ moment : StepMoment, moment.leaves = true →
          ((¬ heard ∨ (if leased then [StepMoment.release] else []).flatMap requests ≠ []) ↔
            (if moment.leaves then decide (task.Asked → leased = true ∧ requests .release ≠ [])
              else if moment = .settle then decide (task.Asked ∨ task.state = .waiting ∨
                MakesGood (lateRequests requests leased))
              else true) = true) := by
        intro moment hmoment
        rw [if_pos hmoment, decide_eq_true_eq, hasked, imp_iff_not_or]
        cases leased with
        | true => simp
        | false => simp
      exact hleaves _ (by decide)

end StepExit

section

variable {env : Env} {runner : Runner} {taskId : String} {manifest : ContextManifest}
  {taskLease : Option TaskLease} {requests : StepMoment → List TaskState}
  (hrequests : ∀ moment, ∀ desired ∈ requests moment, desired ∈ [TaskState.paused, .cancelled])
  {task : Task} {s t : Sys} {exit : StepExit} {leased : Bool}
include hrequests

/-- How the task is left, once the step has returned. -/
theorem StepExit.honours_iff_settles {heard : Prop}
    (h : Leaves t taskId heard exit ((exit.lateMoments leased).flatMap requests)) :
    t.Honours taskId ↔ exit.Settles heard ((exit.lateMoments leased).flatMap requests) := by
  obtain ⟨left, hwrites, found, hfound, hsame⟩ := h
  have hlate : ∀ desired ∈ (exit.lateMoments leased).flatMap requests,
      desired ∈ [TaskState.paused, .cancelled] := by
    intro desired hdesired
    obtain ⟨moment, -, hin⟩ := List.mem_flatMap.mp hdesired
    exact hrequests moment desired hin
  -- the last write, and what was asked after it, give the task the runtime holds now
  rw [← StepExit.honours_iff hwrites hlate]
  obtain ⟨hstate, hdesired⟩ := Prod.mk.inj hsame
  have hhonours : found.Honours ↔
      (((exit.lateMoments leased).flatMap requests).foldl Task.requested left).Honours := by
    rw [Task.Honours, Task.Honours, Task.Asked, Task.Asked, hstate, hdesired]
  rw [← hhonours]
  constructor
  · rintro ⟨task', hget', h⟩
    cases hfound.symm.trans hget'
    exact h
  · exact fun h => ⟨found, hfound, h⟩

end

/-- **A step among requests.** It leaves its task as the task was asked if, and only if, it finds
each call clear when it comes to make it: then it is not cut short.  The requests come before the
step and before each of its calls, as many as one likes; what is looked at is a call's state and the
requests, before the call is made. -/
theorem step_honours_iff (env : Env) (runner : Runner) (taskId : String)
    (manifest : ContextManifest) (taskLease : Option TaskLease)
    {requests : StepMoment → List TaskState}
    (hrequests : ∀ moment, ∀ desired ∈ requests moment, desired ∈ [TaskState.paused, .cancelled])
    {task : Task} {s t : Sys}
    (hget : s.tasks.get? taskId = some task) (hlive : task.state.terminal = false)
    (hstep : quietly (controlledStep env runner taskId manifest taskLease requests) s = .ok () t) :
    t.Honours taskId ↔
      quietly (attendedStep env runner taskId manifest taskLease (clearCall requests taskId) requests)
        s = .ok () t := by
  obtain ⟨⟨exit, leased⟩, u, hcontrolled, hreturn⟩ := bind_eq_ok.mp hstep
  cases hreturn
  constructor
  · intro hhonours
    -- a check of the condition or of its contrary passes at every call
    have hone : ∀ leased moment u, clearCall requests taskId leased moment u = true ∨
        unclearCall requests taskId leased moment u = true := by
      intro leased moment u
      unfold unclearCall
      cases clearCall requests taskId leased moment u with
      | true => exact Or.inl rfl
      | false => exact Or.inr (by simp)
    rcases (splits_attendedStep env runner taskId manifest taskLease requests
        (onlyDecisive_clearCall requests taskId) (onlyDecisive_unclearCall requests taskId) hone
        s (exit, leased) t hcontrolled).2 trivial with hclear | hunclear
    · exact bind_eq_ok.mpr ⟨_, t, hclear, rfl⟩
    · -- its last write was not as it is to be
      obtain ⟨hleaves, u, found, hfound, hmet, hfinds⟩ :=
        parts_attendedStep env runner taskId manifest taskLease hrequests hget hlive hunclear
      have hsettles := (StepExit.honours_iff_settles hrequests hleaves).mp hhonours
      have hclear := (StepExit.settles_iff_clear hfound hfinds).mp hsettles
      simp [unclearCall, StepExit.decisive_lastMoment, hclear] at hmet
  -- no check failed, the one at the last write included
  · intro hattended
    obtain ⟨⟨exit', leased'⟩, u, hclear, hreturn⟩ := bind_eq_ok.mp hattended
    cases hreturn
    obtain ⟨hleaves, u, found, hfound, hmet, hfinds⟩ :=
      parts_attendedStep env runner taskId manifest taskLease hrequests hget hlive hclear
    exact (StepExit.honours_iff_settles hrequests hleaves).mpr
      ((StepExit.settles_iff_clear hfound hfinds).mpr hmet)

/-- A small step without a store, and the request to pause the task at one moment. -/
def Small.pausedStep (runner : Runner) (moment : StepMoment) : M (StepExit × Bool) :=
  controlledStep env runner "t" manifest none (fun m => if m = moment then [.paused] else [])

/-- What is asked before the effect, the normal end of a step settles: no call of the step is unclear,
and the task is paused. -/
theorem step_honours_small :
    ∃ t, quietly (Small.pausedStep Small.runner .execute) { Small.start with persistent := false }
        = .ok () t ∧
      quietly (attendedStep Small.env Small.runner "t" Small.manifest none
          (clearCall (fun m => if m = .execute then [.paused] else []) "t")
          (fun m => if m = .execute then [.paused] else []))
        { Small.start with persistent := false } = .ok () t ∧
      (t.tasks.get? "t").map Task.standing = some (.paused, .paused) := by
  obtain ⟨t, hrun⟩ := returns_eq_some.mp (show returns (Small.pausedStep Small.runner .execute)
    { Small.start with persistent := false } = some (.finished .verified, false) by decide +kernel)
  have hstanding : ((after (Small.pausedStep Small.runner .execute)
      { Small.start with persistent := false }).tasks.get? "t").map Task.standing
        = some (.paused, .paused) := by
    decide +kernel
  rw [after_of_ok hrun] at hstanding
  have hstep : quietly (Small.pausedStep Small.runner .execute)
      { Small.start with persistent := false } = .ok () t := bind_eq_ok.mpr ⟨_, t, hrun, rfl⟩
  have hget : ({ Small.start with persistent := false } : Sys).tasks.get? "t" = some Small.task := rfl
  have hrequests : ∀ moment : StepMoment,
      ∀ desired ∈ (if moment = .execute then [TaskState.paused] else []),
        desired ∈ [TaskState.paused, .cancelled] := by
    intro moment desired hdesired
    split at hdesired
    · exact List.mem_cons.mpr (Or.inl (List.mem_singleton.mp hdesired))
    · cases hdesired
  have hhonours : t.Honours "t" := by
    cases htask : t.tasks.get? "t" with
    | none =>
        rw [htask] at hstanding
        cases hstanding
    | some task =>
        rw [htask] at hstanding
        obtain ⟨hstate, hdesired⟩ := Prod.mk.inj (Option.some.inj hstanding)
        exact ⟨task, htask, fun _ => hstate.trans hdesired.symm⟩
  exact ⟨t, hstep, (step_honours_iff Small.env Small.runner "t" Small.manifest none hrequests hget rfl
    hstep).mp hhonours, hstanding⟩

/-- The task is asked to pause while the model is asked what to do, and the policy denies what the
model proposes: the step returns, and the task is blocked. -/
theorem step_honours_fails :
    Small.task.state.terminal = false ∧
      ∃ t, Small.pausedStep { policy := Table.empty } .resolve
          { Small.start with persistent := false } = .ok (.blocked, false) t ∧
        (t.tasks.get? "t").map Task.standing = some (.blocked, .paused) ∧ ¬ t.Honours "t" := by
  obtain ⟨t, hstep⟩ := returns_eq_some.mp
    (show returns (Small.pausedStep { policy := Table.empty } .resolve)
      { Small.start with persistent := false } = some (.blocked, false) by decide +kernel)
  have hstanding : ((after (Small.pausedStep { policy := Table.empty } .resolve)
      { Small.start with persistent := false }).tasks.get? "t").map Task.standing
        = some (.blocked, .paused) := by
    decide +kernel
  rw [after_of_ok hstep] at hstanding
  refine ⟨rfl, t, hstep, hstanding, ?_⟩
  rintro ⟨task, hget, hhonours⟩
  rw [hget] at hstanding
  obtain ⟨hstate, hdesired⟩ := Prod.mk.inj (Option.some.inj hstanding)
  have hasked : task.Asked := by
    rw [Task.Asked, hdesired]
    decide
  have hsame := hhonours hasked
  rw [hstate, hdesired] at hsame
  cases hsame

end LiandanluNative
