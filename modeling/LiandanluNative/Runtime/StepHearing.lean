/-
# LiandanluNative.Runtime.StepHearing — what a step has heard, and how it leaves its task.

The invariant of a step among requests.  Up to the last call that writes the state of the task it is
`Hears`: the runtime holds the task, and the task is asked to pause or to be cancelled exactly if it
was when the step was called, or has been asked at one of the moments since.  From that call on it is
`Leaves`: the task stands as that write left it, changed by the requests that came later.

`parts_attendedStep` is the pass over the whole step.  It says by which way the step returned, how
the task is left, and that the last call that wrote it was clear when it was made.

The requests of one moment come before its call, so they find the task as the calls before them left
it.  Each lemma about a call has two parts for that reason: the requests are heard (`Hears.asking`),
then the call is made.  A call that leaves the standing alone passes on what was heard
(`Hears.call`); one that writes it starts over from what it writes (`Hears.written`), which is where
a pause can be lost.
-/
import LiandanluNative.Lib.Ends
import LiandanluNative.Runtime.Commits
import LiandanluNative.Runtime.StepMoves
import LiandanluNative.Runtime.StepRequests

namespace LiandanluNative

open Lib (Table)
open Lib.Proc

/-! ## The task while the step runs

What is kept of the task between two moments of a step: its state, what is asked of it, and whether
the step has settled that.
-/

/-- The runtime holds the task, and whether it is to pause or to be cancelled is `asked`.  A task
that became terminal underway was asked, as only settling a request makes it so here. -/
def Hears (s : Sys) (taskId : String) (asked : Prop) : Prop :=
  ∃ t : Task, Stands s taskId t.standing ∧ (t.Asked ↔ asked) ∧ (t.state.terminal = true → t.Asked)

/-- The step has returned by this way, or has written the state of its task for the last time, and
`late` is what was asked after that. -/
def Leaves (s : Sys) (taskId : String) (heard : Prop) (exit : StepExit) (late : List TaskState) :
    Prop :=
  ∃ t : Task, exit.Writes heard t ∧ Stands s taskId (late.foldl Task.requested t).standing

/-- The step leaves its task so, and the last call that wrote it was clear when it was made: what a
step that returned has to show at its end. -/
def Parts (clear : StepMoment → Sys → Bool) (s : Sys) (taskId : String) (heard : Prop)
    (exit : StepExit) (late : List TaskState) : Prop :=
  Leaves s taskId heard exit late ∧ exit.Met clear taskId heard

section

variable {s t : Sys} {taskId : String} {asked heard : Prop} {exit : StepExit}
  {late : List TaskState}

/-- Neither half is lost by what leaves alone what the task does and is to do: reading the world,
taking a lease and storing an operation are all of that kind. -/
theorem Hears.moves (h : Hears s taskId asked) (hmoves : Moves (.standing taskId) s t) :
    Hears t taskId asked := by
  obtain ⟨task, hstands, hrest⟩ := h
  exact ⟨task, hmoves.stands hstands, hrest⟩

theorem Leaves.moves (h : Leaves s taskId heard exit late)
    (hmoves : Moves (.standing taskId) s t) : Leaves t taskId heard exit late := by
  obtain ⟨task, hwrites, hstands⟩ := h
  exact ⟨task, hwrites, hmoves.stands hstands⟩

end

section

variable (env : Env) {s : Sys} {taskId : String}

/-- **A request** changes the standing of the task by the rule of `control`, whatever comes of its
event. -/
theorem Stands.request {t : Task} (h : Stands s taskId t.standing) (desired : TaskState) :
    Stands (after (controlTask env taskId desired) s) taskId (t.requested desired).standing := by
  obtain ⟨task, hget, hsame⟩ := h
  have hcontrol := control_stands env hget desired
  rw [← Task.requested_congr hsame desired]
  unfold Task.requested
  split
  · rename_i hterminal
    rwa [if_pos hterminal] at hcontrol
  · rename_i hlive
    rwa [if_neg hlive] at hcontrol

/-- A call whose exceptions are somebody else's: whoever asks for the pause is told of them, and the
step goes on.  Only the end of the process ends the step too. -/
theorem ends_elsewhere {m : M Unit} {P : Sys → Prop} (h : P (after m s)) :
    Ends (fun _ t => P t) (fun fault _ => fault = .crash)
      (catching (fun _ => true) m (fun _ => pure ())) s := by
  refine ends_catching ((Ends.of_after h).mono (fun _ _ ht => ht) (fun fault t ht => ?_))
  refine ⟨fun e _ _ => Ends.pure ht, fun hpassed => ?_⟩
  cases fault with
  | crash => rfl
  | raised e => cases hpassed e rfl

/-- **The requests of one moment** change the standing one after another, in the order in which they
come. -/
theorem ends_requestControl {t : Task} (h : Stands s taskId t.standing) (late : List TaskState) :
    Ends (fun _ u => Stands u taskId (late.foldl Task.requested t).standing)
      (fun fault _ => fault = .crash) (requestControl env taskId late) s := by
  induction late generalizing s t with
  | nil => exact Ends.pure h
  | cons desired late ih =>
      refine Ends.bind_with (fun _ u => Stands u taskId (t.requested desired).standing) ?_ ?_
      · exact ends_elsewhere (P := (Stands · taskId _)) (h.request env desired)
      · exact fun _ u hu => ih hu

end

/-! ## The calls -/

section

variable (env : Env) {s : Sys} {taskId : String} {asked : Prop}

/-- The task was assigned that state, and has heard nothing since: right after a write of the step
`asked` is about what was asked before it. -/
def Rests (s : Sys) (taskId : String) (state : TaskState) (asked : Prop) : Prop :=
  ∃ t : Task, Stands s taskId t.standing ∧ (t.Asked ↔ asked) ∧ t.state = state

/-- A task that was just written is still asked as it was. -/
theorem Rests.hears {state : TaskState} (h : Rests s taskId state asked)
    (hlive : state.terminal = false) : Hears s taskId asked := by
  obtain ⟨t, hstands, hasked, rfl⟩ := h
  refine ⟨t, hstands, hasked, fun hterminal => ?_⟩
  rw [hlive] at hterminal
  cases hterminal

/-- Where the write was the last one of the step, the task is left so. -/
theorem Rests.leaves {state : TaskState} (h : Rests s taskId state asked)
    (hstate : state ∈ [TaskState.waiting, .blocked]) {exit : StepExit}
    (hexit : exit.early = true) : Leaves s taskId asked exit [] := by
  obtain ⟨t, hstands, hasked, rfl⟩ := h
  exact ⟨t, StepExit.writes_of_early hexit hasked hstate, hstands⟩

/-- The task as the runtime holds it. -/
theorem Hears.found (h : Hears s taskId asked) :
    ∃ task, s.tasks.get? taskId = some task ∧ (task.Asked ↔ asked) ∧
      (task.state.terminal = true → task.Asked) := by
  obtain ⟨t, ⟨task, hget, hsame⟩, hasked, hlive⟩ := h
  obtain ⟨hstate, hdesired⟩ := Prod.mk.inj hsame
  refine ⟨task, hget, ?_, ?_⟩
  · rw [Task.Asked, hdesired]
    exact hasked
  · rw [Task.Asked, hstate, hdesired]
    exact hlive

/-- **A write of the step** leaves the task in the state it writes. -/
theorem Hears.wait (h : Hears s taskId asked) (reason eventType : String) :
    Rests (after (waitTask env taskId reason eventType) s) taskId .waiting asked := by
  obtain ⟨task, hget, hasked, -⟩ := h.found
  exact ⟨task.waiting reason, wait_stands env hget reason eventType, hasked, rfl⟩

theorem Hears.update (h : Hears s taskId asked) (state : TaskState) (phase : Option TaskPhase)
    (eventType actor : String) :
    Rests (after (updateRuntimeState env taskId (some state) phase eventType actor) s) taskId state
      asked := by
  obtain ⟨task, hget, hasked, -⟩ := h.found
  exact ⟨task.updated (some state) phase, update_stands env hget _ phase eventType actor, hasked, rfl⟩

/-- One that sets the phase only leaves the state and the desired state as they were, so a request
made before it is not written over. -/
theorem Hears.phase (h : Hears s taskId asked) (phase : Option TaskPhase)
    (eventType actor : String) :
    Hears (after (updateRuntimeState env taskId none phase eventType actor) s) taskId asked := by
  obtain ⟨task, hget, hasked, hlive⟩ := h.found
  exact ⟨task, update_stands env hget none phase eventType actor, hasked, hlive⟩

/-- The safe boundary of a task that was asked settles it, and leaves another alone. -/
theorem Stands.settle {t : Task} (h : Stands s taskId t.standing) :
    ∃ u : Task, Stands (after (settleControl env taskId true false) s) taskId u.standing ∧
      (t.Asked → u.Settled) ∧ (¬ t.Asked → u = t) := by
  obtain ⟨task, hget, hsame⟩ := h
  obtain ⟨hstate, hdesired⟩ := Prod.mk.inj hsame
  have hsettle := settle_stands env hget true false
  by_cases hasked : t.Asked
  · refine ⟨task.settled true false, hsettle, fun _ => ?_, fun hno => absurd hasked hno⟩
    simp only [Task.Asked, List.mem_cons, List.not_mem_nil, or_false, ← hdesired] at hasked
    rcases hasked with hpaused | hcancelled
    · simp [Task.settled, Task.Settled, hpaused]
    · simp [Task.settled, Task.Settled, hcancelled]
  · refine ⟨t, ?_, fun hyes => absurd hyes hasked, fun _ => rfl⟩
    have hsettled : task.settled true false = task := by
      simp only [Task.Asked, List.mem_cons, List.not_mem_nil, or_false, ← hdesired] at hasked
      simp only [Task.settled, not_or.mp hasked, false_and, if_false]
    rw [hsettled, hsame] at hsettle
    exact hsettle

end

/-! ## The step

The parts of the step, from the first to the last, with the ways in which each of them can be left.
-/

section

variable (env : Env) (runner : Runner) (taskId : String) (manifest : ContextManifest)
  (taskLease : Option TaskLease) {requests : StepMoment → List TaskState}
  (hrequests : ∀ moment, ∀ desired ∈ requests moment, desired ∈ [TaskState.paused, .cancelled])
  {task : Task} {s : Sys} {moments : List StepMoment} {moment : StepMoment}
  {clear : StepMoment → Sys → Bool}
include hrequests

/-- **The requests of a moment** are heard as long as the task can be asked. -/
theorem Hears.asking (h : Hears s taskId (Heard task requests moments)) :
    Ends (fun _ u => Hears u taskId (Heard task requests (moments ++ [moment])))
      (fun fault _ => fault = .crash) (requestControl env taskId (requests moment)) s := by
  obtain ⟨t, hstands, hasked, hlive⟩ := h
  obtain ⟨hiff, hlater⟩ := Task.foldl_requested_asked hlive (hrequests moment)
  refine (ends_requestControl env hstands _).mono (fun _ u hu => ?_) (fun _ _ hcrash => hcrash)
  refine ⟨_, hu, hiff.trans ?_, hlater⟩
  rw [hasked, heard_concat]

omit hrequests in
/-- After the last write the requests of a moment come late. -/
theorem Leaves.asking {heard : Prop} {exit : StepExit} {late : List TaskState}
    (h : Leaves s taskId heard exit late) :
    Ends (fun _ u => Leaves u taskId heard exit (late ++ requests moment))
      (fun fault _ => fault = .crash) (requestControl env taskId (requests moment)) s := by
  obtain ⟨t, hwrites, hstands⟩ := h
  refine (ends_requestControl env hstands _).mono (fun _ u hu => ?_) (fun _ _ hcrash => hcrash)
  rw [← List.foldl_append] at hu
  exact ⟨t, hwrites, hu⟩

omit hrequests in
/-- A moment that is not clear cuts the step short, and so it has no end of its own. -/
theorem ends_attend (clear : StepMoment → Sys → Bool) (moment : StepMoment) :
    Ends (fun _ u => u = s ∧ clear moment s = true) (fun fault _ => fault = .crash)
      (attend clear moment) s := by
  unfold attend
  refine Ends.bind (Ends.get ?_)
  split
  · rename_i hclear
    exact Ends.pure ⟨rfl, hclear⟩
  · exact Ends.throw rfl

/-- A call that leaves alone what the task does and is to do.  It may raise, and then it has still
heard what was asked before it, which is what the handlers of the step go on from. -/
theorem Hears.call (clear : StepMoment → Sys → Bool) (moment : StepMoment) {α : Type} {m : M α}
    (hm : Within (Moves (.standing taskId)) m)
    (h : Hears s taskId (Heard task requests moments)) :
    Ends (fun _ u => Hears u taskId (Heard task requests (moments ++ [moment])))
      (fun fault u => fault = .crash ∨ Hears u taskId (Heard task requests (moments ++ [moment])))
      (requestControl env taskId (requests moment) >>= fun _ => attend clear moment >>= fun _ => m)
      s := by
  refine Ends.bind ((h.asking env taskId hrequests).mono (fun _ u hu => ?_)
    (fun _ _ hcrash => Or.inl hcrash))
  refine Ends.bind ((ends_attend clear moment).mono ?_ (fun _ _ hcrash => Or.inl hcrash))
  rintro _ _ ⟨rfl, -⟩
  exact ⟨fun hrun => hu.moves (hm.of_ok hrun), fun hrun => Or.inr (hu.moves (hm.of_error hrun))⟩

/-- A call that writes the state of the task.  What holds after it is what the call makes of a task
that has heard the requests before it, provided that the moment is clear. -/
theorem Hears.written {m : M Unit} {P : Sys → Prop}
    (hm : ∀ u, Hears u taskId (Heard task requests (moments ++ [moment])) →
      clear moment u = true → P (after m u))
    (h : Hears s taskId (Heard task requests moments)) :
    Ends (fun _ u => P u) (fun _ _ => True)
      (requestControl env taskId (requests moment) >>= fun _ => attend clear moment >>= fun _ => m)
      s := by
  refine Ends.bind ((h.asking env taskId hrequests).mono (fun _ u hu => ?_)
    (fun _ _ _ => trivial))
  refine Ends.bind ((ends_attend clear moment).mono ?_ (fun _ _ _ => trivial))
  rintro _ _ ⟨rfl, hclear⟩
  have hafter := hm _ hu hclear
  refine ⟨fun hrun => ?_, fun _ => trivial⟩
  rwa [after_of_ok hrun] at hafter

/-- The settling of a step, and the requests before it.  A task that was asked by then is settled,
one that was not stays as it is; and the moment was clear in a state that says which. -/
theorem ends_settling {t : Task} (h : Stands s taskId t.standing)
    (hlive : t.state.terminal = true → t.Asked) :
    Ends (fun _ u => (∃ v : Task, Stands u taskId v.standing ∧
        (t.Asked ∨ requests .settle ≠ [] → v.Settled) ∧
        (¬ (t.Asked ∨ requests .settle ≠ []) → v = t)) ∧
        ∃ w found, w.tasks.get? taskId = some found ∧ clear .settle w = true ∧
          (found.Asked ↔ t.Asked ∨ requests .settle ≠ []) ∧
          (¬ (t.Asked ∨ requests .settle ≠ []) → found.state = t.state))
      (fun _ _ => True)
      (requestControl env taskId (requests .settle) >>= fun _ => attend clear .settle >>= fun _ =>
        settleControl env taskId true false) s := by
  obtain ⟨hiff, -⟩ := Task.foldl_requested_asked hlive (hrequests .settle)
  refine Ends.bind ((ends_requestControl env h _).mono (fun _ u hu => ?_) (fun _ _ _ => trivial))
  refine Ends.bind ((ends_attend clear .settle).mono ?_ (fun _ _ _ => trivial))
  rintro _ _ ⟨rfl, hclear⟩
  obtain ⟨v, hstands, hsettled, hsame⟩ := hu.settle env
  obtain ⟨found, hfound, hstanding⟩ := hu
  obtain ⟨hstate, hdesired⟩ := Prod.mk.inj hstanding
  have hasked : found.Asked ↔ t.Asked ∨ requests .settle ≠ [] := by
    rw [← hiff, Task.Asked, Task.Asked, hdesired]
  refine ⟨fun hrun => ⟨?_, _, found, hfound, hclear, hasked, fun hnot => ?_⟩, fun _ => trivial⟩
  · rw [after_of_ok hrun] at hstands
    refine ⟨v, hstands, fun hheard => hsettled (hiff.mpr hheard), fun hnot => ?_⟩
    rw [hsame (fun hasked => hnot (hiff.mp hasked)), not_not.mp (not_or.mp hnot).2]
    rfl
  · rw [hstate, not_not.mp (not_or.mp hnot).2]
    rfl

/-- An exit that lets the task wait.  The wait is the last write of the step, so the task is left as
it says, and no request comes after it. -/
theorem Hears.exits_waiting (exit : StepExit) {β : Type} {reason eventType : String} {b : β}
    {Q : β → Sys → Prop} (hexit : exit.early = true) (hlast : exit.lastMoment = .wait eventType)
    (hQ : ∀ u, Parts clear u taskId (Heard task requests (moments ++ [.wait eventType])) exit [] →
      Q b u)
    (h : Hears s taskId (Heard task requests moments)) :
    Ends Q (fun _ _ => True)
      (requestControl env taskId (requests (.wait eventType)) >>= (fun _ =>
        attend clear (.wait eventType) >>= fun _ => waitTask env taskId reason eventType)
          >>= fun _ => pure b) s := by
  refine Ends.bind_with (fun _ u => Q b u) ?_ (fun _ u hu => Ends.pure hu)
  refine h.written env taskId hrequests (fun u hu hclear => hQ _ ⟨?_, ?_⟩)
  · exact (hu.wait env reason eventType).leaves (by decide) hexit
  · obtain ⟨found, hfound, hasked, -⟩ := hu.found
    exact ⟨u, found, hfound, hlast ▸ hclear, StepExit.finds_of_early hexit hasked⟩

/-- An exit by the policy, which blocks the task or lets it wait for a confirmation.  The update is
the last write of the step, as the wait is of the exits above. -/
theorem Hears.exits_updated (exit : StepExit) {β : Type} {state : TaskState}
    {eventType actor : String} {b : β} {Q : β → Sys → Prop} (hexit : exit.early = true)
    (hlast : exit.lastMoment = .update eventType)
    (hstate : state ∈ [TaskState.waiting, .blocked])
    (hQ : ∀ u, Parts clear u taskId (Heard task requests (moments ++ [.update eventType])) exit [] →
      Q b u)
    (h : Hears s taskId (Heard task requests moments)) :
    Ends Q (fun _ _ => True)
      (requestControl env taskId (requests (.update eventType)) >>= (fun _ =>
        attend clear (.update eventType) >>= fun _ =>
          updateRuntimeState env taskId (some state) none eventType actor)
          >>= fun _ => pure b) s := by
  refine Ends.bind_with (fun _ u => Q b u) ?_ (fun _ u hu => Ends.pure hu)
  refine h.written env taskId hrequests (fun u hu hclear => hQ _ ⟨?_, ?_⟩)
  · exact (hu.update env state none eventType actor).leaves hstate hexit
  · obtain ⟨found, hfound, hasked, -⟩ := hu.found
    exact ⟨u, found, hfound, hlast ▸ hclear, StepExit.finds_of_early hexit hasked⟩

/-- What a step comes to before its `try`: an exit, after which it makes no more calls, or the
task as it was asked up to there. -/
def Comes (clear : StepMoment → Sys → Bool) (task : Task)
    (requests : StepMoment → List TaskState) (taskId : String) (a : StepExit ⊕ Admitted) (u : Sys) :
    Prop :=
  match a with
  | .inl exit =>
      exit.lateMoments false = [] ∧
        Parts clear u taskId (Heard task requests (exit.moments false)) exit []
  | .inr admitted =>
      Hears u taskId (Heard task requests (StepExit.admitted admitted.resourceLease.isSome))

/-- **Up to its `try`** the step has returned early, with a last write that was clear, or has come
to it with all that was asked so far. -/
theorem comes_stepAcquire (spec : ActionSpec) (proposal : ActionProposal)
    (expectedRevisions : List (String × Int))
    (h : Hears s taskId (Heard task requests StepExit.decided)) :
    Ends (Comes clear task requests taskId) (fun _ _ => True)
      (stepAcquire (attendedCalls env runner taskId manifest taskLease clear requests) spec proposal
        expectedRevisions taskLease) s := by
  have hA := Allowance.standing_closed taskId
  unfold stepAcquire
  refine Ends.bind (Ends.get ?_)
  split
  · -- an action that asks for no resources is admitted without a lease
    exact Ends.pure h
  -- without a task lease or a broker nothing can be acquired, and the task waits
  cases taskLease with
  | none =>
      exact h.exits_waiting env taskId hrequests .unresourced rfl rfl
        (fun u hu => ⟨rfl, hu⟩)
  | some lease =>
      cases s.broker with
      | none =>
          exact h.exits_waiting env taskId hrequests .unresourced rfl rfl
            (fun u hu => ⟨rfl, hu⟩)
      | some broker =>
          refine Ends.bind ((h.call env taskId hrequests clear .acquire
            (moves_acquireResources hA env trivial broker _ _ _ _)).mono (fun acquired u hu => ?_)
              (fun _ _ _ => trivial))
          cases acquired with
          | none =>
              exact hu.exits_waiting env taskId hrequests .unavailable rfl rfl
                (fun v hv => ⟨rfl, hv⟩)
          | some resourceLease => exact Ends.pure hu

/-- The model, the registry and the policy come before the resources.  The step writes the task
twice here, when it starts to think and when it has a proposal to authorize. -/
theorem comes_stepDecide (h : Hears s taskId (Heard task requests [.start])) :
    Ends (Comes clear task requests taskId) (fun _ _ => True)
      (stepDecide (attendedCalls env runner taskId manifest taskLease clear requests) manifest
        taskLease) s := by
  have hF := Moves.frame (Allowance.standing_closed taskId)
  unfold stepDecide
  refine Ends.bind_with
    (fun _ u => Hears u taskId (Heard task requests [.start, .update "task.agent_step_started"]))
    (h.written env taskId hrequests fun u hu _ => ?_) (fun _ s h => ?_)
  · -- RUNNING is written over what a request may have made of the task, which is still asked
    exact (hu.update env .running (some .thinking) _ _).hears rfl
  refine Ends.bind ((h.call env taskId hrequests clear .nextAction
    (within_callOut (env.nextAction · manifest))).mono
    (fun proposal s h => ?_) (fun _ _ _ => trivial))
  refine Ends.bind ((h.call env taskId hrequests clear .resolve
    (hF.bind hF.get (fun s => within_liftExcept hF _))).mono (fun spec s h => ?_)
      (fun _ _ _ => trivial))
  refine Ends.bind (ends_liftExcept (fun expectedRevisions _ => ?_) (fun _ _ => trivial))
  refine Ends.bind_with
    (fun _ u => Hears u taskId (Heard task requests
      [.start, .update "task.agent_step_started", .nextAction, .resolve, .update "task.authorizing"]))
    (h.written env taskId hrequests fun u hu _ => ?_) (fun _ s h => ?_)
  · exact hu.phase env (some .authorizing) _ _
  refine Ends.bind ((h.call env taskId hrequests clear .evaluate
    (hF.bind (within_getTask hF taskId) (fun task => hF.pure _))).mono (fun decision s h => ?_)
      (fun _ _ _ => trivial))
  cases decision with
  | deny =>
      exact h.exits_updated env taskId hrequests .blocked rfl rfl (by decide) (fun u hu => ⟨rfl, hu⟩)
  | requireConfirmation =>
      exact h.exits_updated env taskId hrequests .unconfirmed rfl rfl (by decide)
        (fun u hu => ⟨rfl, hu⟩)
  -- the only decision after which the step goes on
  | allow =>
      exact comes_stepAcquire env runner taskId manifest taskLease hrequests spec proposal
        expectedRevisions h

/-- **The step up to its `try`**: the checks of the task and of the lease, the opening settling of a
request made before the step, and what is decided after them. -/
theorem comes_stepAdmit (h : Hears s taskId (Heard task requests [.start])) :
    Ends (Comes clear task requests taskId) (fun _ _ => True)
      (stepAdmit (attendedCalls env runner taskId manifest taskLease clear requests) runner taskId
        manifest taskLease) s := by
  unfold stepAdmit
  refine Ends.bind (ends_getTask (fun found hfound => ?_) (fun _ => trivial))
  refine Ends.bind (Ends.get ?_)
  split
  · exact Ends.throw trivial
  split
  · exact Ends.throw trivial
  split
  · exact h.exits_waiting env taskId hrequests .unleased rfl rfl (fun u hu => ⟨rfl, hu⟩)
  split
  · -- it was asked before, and whatever else it is asked now, that is settled
    rename_i hasked
    obtain ⟨task', hget, -, hlive⟩ := h.found
    cases hfound.symm.trans hget
    refine Ends.bind_with
      (fun _ u => Parts clear u taskId (Heard task requests (StepExit.settled.moments false)) .settled
        []) ?_ (fun _ u hu => Ends.pure ⟨rfl, hu⟩)
    refine (ends_settling env taskId hrequests ⟨found, hfound, rfl⟩ hlive).mono ?_
      (fun _ _ _ => trivial)
    rintro _ u ⟨⟨v, hstands, hsettled, -⟩, w, held, hheld, hclear, hfinds, -⟩
    exact ⟨⟨v, hsettled (Or.inl hasked), hstands⟩, w, held, hheld, hclear,
      hfinds.mpr (Or.inl hasked)⟩
  · exact comes_stepDecide env runner taskId manifest taskLease hrequests h

/-- The end of a step that carried its operation out: the task goes on by the operation's outcome,
is settled, and its outbox is flushed. -/
theorem parts_settleStepWith (operationId : String) (leased : Bool)
    (h : Hears s taskId (Heard task requests
      (StepExit.admitted leased ++ [.prepare, .update "task.executing", .execute]))) :
    Ends (fun exit u => Parts clear u taskId (Heard task requests (exit.moments leased)) exit
        ((exit.lateMoments false).flatMap requests)) (fun _ _ => True)
      (settleStepWith (attendedCalls env runner taskId manifest taskLease clear requests) operationId)
      s := by
  have hA := Allowance.standing_closed taskId
  unfold settleStepWith
  refine Ends.bind (ends_getOperation (fun op _ => ?_) (fun _ => trivial))
  refine Ends.bind_with
    (fun _ u => Rests u taskId op.state.outcome.state (Heard task requests
      (StepExit.admitted leased ++ [.prepare, .update "task.executing", .execute] ++
        [.update op.state.outcome.eventType])))
    (h.written env taskId hrequests fun u hu _ => hu.update env _ _ _ _) (fun _ s h => ?_)
  -- the closing settlement hears what was asked up to it, and the requests of its own moment
  have hmoments : Heard task requests ((StepExit.finished op.state).moments leased) ↔
      Heard task requests (StepExit.admitted leased ++
        [.prepare, .update "task.executing", .execute] ++ [.update op.state.outcome.eventType]) ∨
        requests .settle ≠ [] := by
    rw [← heard_concat]
    simp only [StepExit.moments, List.append_assoc, List.cons_append, List.nil_append]
  refine Ends.bind_with
    (fun _ u => Parts clear u taskId
      (Heard task requests ((StepExit.finished op.state).moments leased)) (.finished op.state) [])
    ?_ (fun _ s h => ?_)
  · obtain ⟨t, hstands, hasked, hstate⟩ := h
    have hlive : t.state.terminal = true → t.Asked := by
      rw [hstate]
      rcases StepExit.outcome_state op.state with houtcome | houtcome <;> rw [houtcome] <;> nofun
    rw [← hasked] at hmoments
    refine (ends_settling env taskId hrequests hstands hlive).mono ?_ (fun _ _ _ => trivial)
    rintro _ u ⟨⟨v, hv, hsettled, hsame⟩, w, held, hheld, hclear, hfound, hkept⟩
    refine ⟨⟨v, ⟨fun hheard => hsettled (hmoments.mp hheard), fun hnot => ?_⟩, hv⟩, w, held, hheld,
      hclear, hfound.trans hmoments.symm, fun hnot => ?_⟩
    · rw [hsame (fun hheard => hnot (hmoments.mpr hheard))]
      exact ⟨fun hyes => hnot (hmoments.mpr (Or.inl hyes)), hstate⟩
    · exact (hkept (fun hheard => hnot (hmoments.mpr hheard))).trans hstate
  obtain ⟨hleaves, hmet⟩ := h
  refine Ends.bind_with
    (fun _ u => Leaves u taskId (Heard task requests ((StepExit.finished op.state).moments leased))
      (.finished op.state) (requests .flush)) ?_ (fun _ s h => Ends.pure ⟨?_, hmet⟩)
  · refine Ends.bind ((hleaves.asking env taskId).mono (fun _ u hu => ?_) (fun _ _ _ => trivial))
    refine Ends.bind ((ends_attend clear .flush).mono ?_ (fun _ _ _ => trivial))
    rintro _ _ ⟨rfl, -⟩
    have hflush : Within (Moves (.standing taskId)) (flushOutbox env >>= fun _ => pure ()) :=
      (Moves.frame hA).bind (moves_flushOutbox hA env) (fun _ => (Moves.frame hA).pure _)
    exact ⟨fun hrun => hu.moves (hflush.of_ok hrun), fun _ => trivial⟩
  · simpa only [StepExit.lateMoments, Bool.false_eq_true, if_false, List.append_nil,
      List.flatMap_singleton] using h

/-- The step from its effect on.  A lease that was lost lets the task wait, and an execution that
returned leads to the end of the step. -/
theorem parts_stepExecuteWith (operationId : String) (leased : Bool)
    (h : Hears s taskId (Heard task requests (StepExit.admitted leased ++ [.prepare]))) :
    Ends (fun exit u => Parts clear u taskId (Heard task requests (exit.moments leased)) exit
        ((exit.lateMoments false).flatMap requests)) (fun _ _ => True)
      (stepExecuteWith (attendedCalls env runner taskId manifest taskLease clear requests)
        operationId) s := by
  have hA := Allowance.standing_closed taskId
  have hexecute : ∀ u, Moves (.standing taskId) u (after (executeOperation env operationId) u) :=
    fun u => moves_executeOperation hA env (fun _ _ _ => trivial) (fun _ _ _ _ _ _ _ => trivial)
  unfold stepExecuteWith
  refine Ends.bind_with
    (fun _ u => Hears u taskId (Heard task requests
      (StepExit.admitted leased ++ [.prepare] ++ [.update "task.executing"])))
    (h.written env taskId hrequests fun u hu _ => hu.phase env _ _ _) (fun _ s h => ?_)
  -- where the effect raises, the step writes WAITING over the task, and that is its last write
  have hcall := h.call env taskId hrequests clear .execute hexecute
  simp only [List.append_assoc, List.cons_append, List.nil_append] at hcall
  refine Ends.bind_with
    (fun executed u =>
      (executed = true → Hears u taskId (Heard task requests
        (StepExit.admitted leased ++ [.prepare, .update "task.executing", .execute]))) ∧
      (executed = false → Parts clear u taskId (Heard task requests (StepExit.lost.moments leased))
        .lost []))
    (ends_catching ?_) (fun executed s h => ?_)
  · refine Ends.bind (hcall.mono (fun _ u hu => Ends.pure ⟨fun _ => hu, nofun⟩) ?_)
    intro fault u hu
    refine ⟨fun e he _ => ?_, fun _ => trivial⟩
    have hnow := hu.resolve_left (fun hcrash => by cases he.symm.trans hcrash)
    refine hnow.exits_waiting env taskId hrequests .lost rfl rfl (fun v hv => ⟨nofun, fun _ => ?_⟩)
    simpa only [StepExit.moments, List.append_assoc, List.cons_append, List.nil_append] using hv
  · cases executed with
    | true =>
        exact parts_settleStepWith env runner taskId manifest taskLease hrequests operationId leased
          (h.1 rfl)
    | false => exact Ends.pure (h.2 rfl)

/-- **The step under its `try`**, from `prepare` on: an exhausted budget and a lost lease have their
exits, and a prepared operation is executed. -/
theorem parts_stepActWith (clear : StepMoment → Sys → Bool) (admitted : Admitted) (leased : Bool)
    (h : Hears s taskId (Heard task requests (StepExit.admitted leased))) :
    Ends (fun exit u => Parts clear u taskId (Heard task requests (exit.moments leased)) exit
        ((exit.lateMoments false).flatMap requests)) (fun _ _ => True)
      (stepActWith (attendedCalls env runner taskId manifest taskLease clear requests) admitted)
      s := by
  have hprepare := h.call env taskId hrequests clear .prepare
    (moves_prepare_of_start (Allowance.standing_closed taskId) env
      (Allowance.standing_touches taskId taskId) (fun t _ old hold => by cases hold; rfl)
      (fun _ _ _ => trivial) admitted.proposal admitted.expectedRevisions taskLease
      admitted.resourceLease)
  unfold stepActWith
  refine Ends.bind_with
    (fun prepared u =>
      (∀ exit, prepared = .inl exit →
        Parts clear u taskId (Heard task requests (exit.moments leased)) exit
          ((exit.lateMoments false).flatMap requests)) ∧
      (∀ operationId, prepared = .inr operationId →
        Hears u taskId (Heard task requests (StepExit.admitted leased ++ [.prepare]))))
    (ends_catching ?_) (fun prepared s h => ?_)
  · refine Ends.bind (hprepare.mono (fun _ u hu => Ends.pure ⟨nofun, fun _ _ => hu⟩) ?_)
    intro fault u hu
    refine ⟨fun e he _ => ?_, fun _ => trivial⟩
    have hnow := hu.resolve_left (fun hcrash => by cases he.symm.trans hcrash)
    -- what is left to say of either exit: the moments it has seen, and that none is late
    split
    · refine hnow.exits_waiting env taskId hrequests .exhausted rfl rfl (fun v hv => ⟨?_, nofun⟩)
      rintro _ ⟨⟩
      show Parts clear v taskId _ .exhausted []
      simpa only [StepExit.moments, List.append_assoc, List.cons_append, List.nil_append] using hv
    · refine hnow.exits_waiting env taskId hrequests .refused rfl rfl (fun v hv => ⟨?_, nofun⟩)
      rintro _ ⟨⟩
      show Parts clear v taskId _ .refused []
      simpa only [StepExit.moments, List.append_assoc, List.cons_append, List.nil_append] using hv
  · cases prepared with
    | inl exit => exact Ends.pure (h.1 exit rfl)
    | inr operationId =>
        exact parts_stepExecuteWith env runner taskId manifest taskLease hrequests operationId leased
          (h.2 operationId rfl)

omit hrequests in
/-- The release, and the requests before it.  They come after the last write of the step, so they
are late: nothing settles them any more. -/
theorem leaves_release (lease : ResourceLease) {exit : StepExit} {heard : Prop}
    (h : Leaves s taskId heard exit ((exit.lateMoments false).flatMap requests)) :
    Ends (fun _ u => Leaves u taskId heard exit ((exit.lateMoments true).flatMap requests))
      (fun _ _ => True)
      ((attendedCalls env runner taskId manifest taskLease clear requests).release lease) s := by
  have hA := Allowance.standing_closed taskId
  have hF := Moves.frame hA
  have hrelease : Within (Moves (.standing taskId))
      ((StepCalls.real env runner taskId manifest taskLease).release lease) := by
    refine hF.bind hF.get (fun w => ?_)
    cases w.broker with
    | none => exact hF.pure _
    | some broker =>
        exact hF.bind (moves_releaseResources hA env trivial broker lease) (fun _ => hF.pure _)
  have hlate : (exit.lateMoments true).flatMap requests
      = (exit.lateMoments false).flatMap requests ++ requests .release := by
    simp [StepExit.lateMoments]
  rw [hlate]
  refine Ends.bind ((h.asking env taskId).mono (fun _ v hv => ?_) (fun _ _ _ => trivial))
  refine Ends.bind ((ends_attend clear .release).mono ?_ (fun _ _ _ => trivial))
  rintro _ _ ⟨rfl, -⟩
  exact ⟨fun hrun => hv.moves (hrelease.of_ok hrun), fun _ => trivial⟩

/-- **The `try`, with its `finally`**, if the step comes to it.  The release in the `finally` adds
its requests to those that come late, and changes nothing of the task itself. -/
theorem parts_stepFinish {before : StepMoment → Sys → Bool} {a : StepExit ⊕ Admitted}
    (hsame : StepExit.leased a = none → before = clear) (h : Comes before task requests taskId a s) :
    Ends (fun exit u =>
        Parts clear u taskId (Heard task requests (exit.moments (StepExit.leased a).isSome)) exit
          ((exit.lateMoments (StepExit.leased a).isSome).flatMap requests))
      (fun _ _ => True)
      (stepFinish (attendedCalls env runner taskId manifest taskLease clear requests) a) s := by
  cases a with
  | inl exit =>
      obtain ⟨hnone, hparts⟩ := h
      rw [hsame rfl] at hparts
      refine Ends.pure ?_
      show Parts clear s taskId _ exit ((exit.lateMoments false).flatMap requests)
      rw [hnone]
      exact hparts
  | inr admitted =>
      have hact := parts_stepActWith env runner taskId manifest taskLease hrequests clear admitted _ h
      simp only [stepFinish, StepExit.leased]
      cases hlease : admitted.resourceLease with
      | none =>
          rw [hlease] at hact
          exact hact
      | some lease =>
          rw [hlease] at hact
          refine Ends.ensuring (hact.mono (fun exit u hu => ?_) (fun _ u _ => ?_))
          · exact (leaves_release env runner taskId manifest taskLease lease hu.1).mono
              (fun _ _ hleaves => ⟨hleaves, hu.2⟩) (fun _ _ _ => trivial)
          · exact ⟨fun _ => trivial, fun _ => ⟨fun _ => trivial, fun _ => trivial⟩⟩

/-- **A step among requests**, whatever its calls have to be like.  From a task that is not
terminal, a step that returned has left it as its last write did, with the late requests on top. -/
theorem parts_attendedStep {clear : Bool → StepMoment → Sys → Bool} {s t : Sys} {exit : StepExit}
    {leased : Bool} (hget : s.tasks.get? taskId = some task) (hlive : task.state.terminal = false)
    (hstep : attendedStep env runner taskId manifest taskLease clear requests s
      = .ok (exit, leased) t) :
    Parts (clear leased) t taskId (Heard task requests (exit.moments leased)) exit
      ((exit.lateMoments leased).flatMap requests) := by
  have hbefore : Hears s taskId (Heard task requests []) := by
    refine ⟨task, ⟨task, hget, rfl⟩, by simp [Heard], fun hterminal => ?_⟩
    rw [hlive] at hterminal
    cases hterminal
  obtain ⟨⟨⟩, u, hstart, hrest⟩ := bind_eq_ok.mp hstep
  have hstarted := (hbefore.asking env taskId hrequests).returned hstart
  obtain ⟨a, v, hadmit, hrest⟩ := bind_eq_ok.mp hrest
  have hcomes := (comes_stepAdmit env runner taskId manifest taskLease hrequests hstarted).returned
    hadmit
  obtain ⟨exit', w, hfinish, hreturn⟩ := bind_eq_ok.mp hrest
  cases hreturn
  refine (parts_stepFinish env runner taskId manifest taskLease hrequests (fun hnone => ?_)
    hcomes).returned hfinish
  rw [hnone]
  rfl

end

end LiandanluNative
