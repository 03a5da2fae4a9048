/-
# LiandanluNative.Safety.CancelRequests — what becomes of a request to cancel.

`control` never takes the *state* of a task out of CANCELLING, but it assigns the desired state
before it looks at the state: a pause or a resume replaces the request to cancel, and `queue`, which
does not look at all, replaces both.  `settle_control` goes by the desired state, so the
cancellation is lost (`cancel_kept_fails`).  `cancel_kept_iff` says exactly when it is not.

Nothing but the state and the desired state of the task matters here (`Task.standing`), and what a
request makes of the two is one function (`Request.outcome`).  From a task that is being cancelled a
request either settles the cancellation, changes nothing, or replaces it; so a run of requests is
read from its front until one of them settles it or replaces it.
-/
import LiandanluNative.Runtime.Engine
import LiandanluNative.Runtime.Standing

namespace LiandanluNative

open Lib (Table)
open Lib.Proc Lib.WriteThrough

/-! ## Requests about a task -/

/-- What may follow a request to cancel. -/
inductive Request where
  | pause
  | resume
  | queue
  | submit
  | settle (safeBoundary externalCancelConfirmed : Bool)

/-- The call that makes a request. -/
def Request.call (taskId : String) : Request → Call
  | .pause => .control taskId .paused
  | .resume => .control taskId .running
  | .queue => .queue taskId
  | .submit => .submit taskId
  | .settle safeBoundary externalCancelConfirmed =>
      .settleControl taskId safeBoundary externalCancelConfirmed

/-- Where a request leaves them. -/
def Request.outcome (t : Task) : Request → TaskState × TaskState
  | .pause => if t.state.terminal then t.standing else (t.controlled .paused).standing
  | .resume => if t.state.terminal then t.standing else (t.controlled .running).standing
  | .queue => if t.state.terminal then t.standing else (.queued, .running)
  | .submit => if t.state.terminal then t.standing else (.queued, .running)
  | .settle safeBoundary externalCancelConfirmed =>
      (t.settled safeBoundary externalCancelConfirmed).standing

section

variable {s : Sys} {taskId : String}

/-- A call leaves the task where its request does. -/
theorem request_stands (env : Env) {task : Task} (hget : s.tasks.get? taskId = some task)
    (r : Request) :
    Stands ((r.call taskId).exec env s) taskId (r.outcome task) := by
  cases r with
  | pause => exact control_stands env hget .paused
  | resume => exact control_stands env hget .running
  | queue => exact queue_stands env hget
  | submit => exact submit_stands env hget
  | settle safeBoundary externalCancelConfirmed =>
      exact settle_stands env hget safeBoundary externalCancelConfirmed

end

/-! ## Runs of requests

A task is followed through its standing alone, by induction over the requests.
-/

section

variable (env : Env) (taskId : String)

/-- The requests, one after the other. -/
def runRequests (s : Sys) (requests : List Request) : Sys :=
  runCalls env s (requests.map (Request.call taskId))

/-- **The cancellation is kept.** However far the requests get, the task is being cancelled or is
cancelled; and at a safe boundary after them it is cancelled. -/
def CancelKept (s : Sys) (requests : List Request) : Prop :=
  (∀ made, made <+: requests →
    taskState taskId (runRequests env taskId s made) ∈ [some .cancelling, some .cancelled]) ∧
  ∀ confirmed, taskState taskId
    (runRequests env taskId s (requests ++ [.settle true confirmed])) = some .cancelled

/-- Nothing but calls of `settle_control` comes before one that settles the cancellation.  It is a
condition on the requests alone. -/
def SettledFirst : List Request → Prop
  | [] => True
  | .settle safeBoundary externalCancelConfirmed :: rest =>
      safeBoundary = true ∨ externalCancelConfirmed = true ∨ SettledFirst rest
  | _ :: _ => False

end

section

variable {env : Env} {s : Sys} {taskId : String}

/-- What every request keeps, a run of requests keeps. -/
theorem runRequests_keeps (env : Env) {K : TaskState × TaskState → Prop}
    (hkeep : ∀ (t : Task) (r : Request), K t.standing → K (r.outcome t)) (requests : List Request)
    (h : ∃ standing, Stands s taskId standing ∧ K standing) :
    ∃ standing, Stands (runRequests env taskId s requests) taskId standing ∧ K standing := by
  have hallowed : ∀ call ∈ requests.map (Request.call taskId),
      ∃ r : Request, r.call taskId = call := by
    intro call hcall
    obtain ⟨r, _, hr⟩ := List.mem_map.mp hcall
    exact ⟨r, hr⟩
  refine runCalls_induction env
    (I := fun u => ∃ standing, Stands u taskId standing ∧ K standing) ?_ _ s h hallowed
  rintro u _ ⟨_, ⟨t, hget, rfl⟩, hK⟩ ⟨r, rfl⟩
  exact ⟨r.outcome t, request_stands env hget r, hkeep t r hK⟩

/-- A cancelled task is not moved by any request. -/
theorem cancelled_kept (t : Task) (r : Request) (h : t.standing = (.cancelled, .cancelled)) :
    r.outcome t = (.cancelled, .cancelled) := by
  obtain ⟨hstate, hdesired⟩ := Prod.mk.inj h
  have hdone : t.state.terminal = true := by rw [hstate]; rfl
  cases r with
  | settle safeBoundary externalCancelConfirmed =>
      show ((t.settled safeBoundary externalCancelConfirmed).standing) = _
      unfold Task.settled
      split
      · rename_i hpaused
        rw [hdesired] at hpaused
        exact absurd hpaused.1 (by decide)
      split
      · exact Prod.ext rfl hdesired
      · exact h
  | _ => exact (if_pos hdone).trans h

/-- Only a request to cancel lets `control` cancel a task. -/
theorem controlState_ne_cancelled {t : Task} {desired : TaskState} (hdesired : desired ≠ .cancelled)
    (hstate : t.state ≠ .cancelled) : t.controlState desired ≠ .cancelled := by
  unfold Task.controlState
  split
  · split
    · decide
    split
    · decide
    · exact hstate
  · exact absurd rfl hdesired
  · split
    · decide
    · exact hstate
  · exact hstate

/-- A task that is neither cancelled nor asked to be is not cancelled by any request.  So once a
cancellation was replaced it does not come back. -/
theorem uncancelled_kept (t : Task) (r : Request)
    (h : t.standing.1 ≠ .cancelled ∧ t.standing.2 ≠ .cancelled) :
    (r.outcome t).1 ≠ .cancelled ∧ (r.outcome t).2 ≠ .cancelled := by
  obtain ⟨hstate, hdesired⟩ := h
  have guarded : ∀ outcome : TaskState × TaskState, outcome.1 ≠ .cancelled →
      outcome.2 ≠ .cancelled →
      (if t.state.terminal then t.standing else outcome).1 ≠ .cancelled ∧
        (if t.state.terminal then t.standing else outcome).2 ≠ .cancelled := by
    intro outcome h₁ h₂
    split
    · exact ⟨hstate, hdesired⟩
    · exact ⟨h₁, h₂⟩
  have hcontrolled := fun desired (hd : desired ≠ TaskState.cancelled) =>
    guarded (t.controlled desired).standing (controlState_ne_cancelled hd hstate) hd
  cases r with
  | pause => exact hcontrolled .paused (by decide)
  | resume => exact hcontrolled .running (by decide)
  | queue => exact guarded _ (by decide) (by decide)
  | submit => exact guarded _ (by decide) (by decide)
  | settle safeBoundary externalCancelConfirmed =>
      show (t.settled safeBoundary externalCancelConfirmed).state ≠ .cancelled ∧
        (t.settled safeBoundary externalCancelConfirmed).desiredState ≠ .cancelled
      unfold Task.settled
      split
      · exact ⟨by simp, hdesired⟩
      split
      · rename_i hcancel
        exact absurd hcancel.1 hdesired
      · exact ⟨hstate, hdesired⟩

/-! ## When a cancellation is kept

By the standing that the request to cancel leaves: a task that is cancelled at once stays so, and
one that is being cancelled is settled first or loses the cancellation.
-/

theorem cancelKept_cons (r : Request) (rest : List Request) :
    CancelKept env taskId s (r :: rest) ↔
      taskState taskId s ∈ [some .cancelling, some .cancelled] ∧
        CancelKept env taskId ((r.call taskId).exec env s) rest := by
  constructor
  · rintro ⟨hstays, hsettles⟩
    refine ⟨hstays [] List.nil_prefix, fun made hmade => ?_, hsettles⟩
    exact hstays (r :: made) (List.cons_prefix_cons.mpr ⟨rfl, hmade⟩)
  · rintro ⟨hnow, hstays, hsettles⟩
    refine ⟨fun made hmade => ?_, hsettles⟩
    rcases List.prefix_cons_iff.mp hmade with rfl | ⟨made', rfl, hmade'⟩
    · exact hnow
    · exact hstays made' hmade'

/-- Once the task is cancelled, the cancellation is kept whatever follows. -/
theorem cancelKept_of_cancelled (h : Stands s taskId (.cancelled, .cancelled))
    (requests : List Request) : CancelKept env taskId s requests := by
  have hrun : ∀ made, taskState taskId (runRequests env taskId s made) = some .cancelled := by
    intro made
    obtain ⟨_, hstands, rfl⟩ := runRequests_keeps env
      (K := fun standing => standing = (.cancelled, .cancelled)) cancelled_kept made ⟨_, h, rfl⟩
    exact hstands.taskState
  refine ⟨fun made _ => ?_, fun confirmed => hrun _⟩
  rw [hrun made]
  decide

/-- Once the request is replaced, the task is not cancelled at a safe boundary. -/
theorem not_cancelKept {standing : TaskState × TaskState} (h : Stands s taskId standing)
    (hlost : standing.1 ≠ .cancelled ∧ standing.2 ≠ .cancelled) (requests : List Request) :
    ¬ CancelKept env taskId s requests := by
  rintro ⟨_, hsettles⟩
  obtain ⟨last, hstands, hlast, _⟩ := runRequests_keeps env
    (K := fun standing => standing.1 ≠ .cancelled ∧ standing.2 ≠ .cancelled) uncancelled_kept
    (requests ++ [.settle true false]) ⟨standing, h, hlost⟩
  have hcancelled := hsettles false
  rw [hstands.taskState, Option.some.injEq] at hcancelled
  exact hlast hcancelled

/-- While the task is being cancelled, settling cancels it or changes nothing, … -/
theorem settled_of_cancelling {t : Task} (h : t.standing = (.cancelling, .cancelled))
    (safeBoundary externalCancelConfirmed : Bool) :
    (t.settled safeBoundary externalCancelConfirmed).standing
      = if safeBoundary = true ∨ externalCancelConfirmed = true then (.cancelled, .cancelled)
        else (.cancelling, .cancelled) := by
  obtain ⟨_, hdesired⟩ := Prod.mk.inj h
  have hnot : ¬ (t.desiredState = .paused ∧ safeBoundary = true) := by
    rw [hdesired]
    exact fun hpaused => absurd hpaused.1 (by decide)
  unfold Task.settled
  rw [if_neg hnot]
  by_cases hsettles : safeBoundary = true ∨ externalCancelConfirmed = true
  · rw [if_pos ⟨hdesired, hsettles⟩, if_pos hsettles]
    exact Prod.ext rfl hdesired
  · rw [if_neg (fun hboth => hsettles hboth.2), if_neg hsettles]
    exact h

/-- … and every other request replaces the one to cancel. -/
theorem replaced_of_cancelling {t : Task} (h : t.standing = (.cancelling, .cancelled))
    {r : Request} (hr : ∀ safeBoundary confirmed, r ≠ .settle safeBoundary confirmed) :
    (r.outcome t).1 ≠ .cancelled ∧ (r.outcome t).2 ≠ .cancelled := by
  obtain ⟨hstate, _⟩ := Prod.mk.inj h
  have hlive : ¬ t.state.terminal = true := by
    rw [hstate]
    decide
  have hcontrolled : ∀ desired, desired ≠ .cancelled →
      t.controlState desired ≠ .cancelled ∧ desired ≠ .cancelled := by
    intro desired hd
    exact ⟨controlState_ne_cancelled hd (by rw [hstate]; decide), hd⟩
  cases r with
  | settle safeBoundary confirmed => exact absurd rfl (hr safeBoundary confirmed)
  | pause =>
      rw [Request.outcome, if_neg hlive]
      exact hcontrolled .paused (by decide)
  | resume =>
      rw [Request.outcome, if_neg hlive]
      exact hcontrolled .running (by decide)
  | queue =>
      rw [Request.outcome, if_neg hlive]
      decide
  | submit =>
      rw [Request.outcome, if_neg hlive]
      decide

theorem cancelKept_of_cancelling :
    ∀ (requests : List Request) (s : Sys), Stands s taskId (.cancelling, .cancelled) →
      (CancelKept env taskId s requests ↔ SettledFirst requests)
  | [], s, h => by
      refine iff_of_true ⟨?_, fun confirmed => ?_⟩ trivial
      · intro made hmade
        rw [List.prefix_nil.mp hmade]
        show taskState taskId s ∈ _
        rw [h.taskState]
        decide
      · obtain ⟨t, hget, ht⟩ := h
        have hlast := settle_stands env hget true confirmed
        rw [settled_of_cancelling ht, if_pos (Or.inl rfl)] at hlast
        exact hlast.taskState
  | r :: rest, s, h => by
      obtain ⟨t, hget, ht⟩ := h
      -- so far the cancellation stands; what counts is the next request
      have hnow : taskState taskId s ∈ [some .cancelling, some .cancelled] := by
        rw [Stands.taskState ⟨t, hget, ht⟩]
        decide
      have hnext := request_stands env hget r
      rw [cancelKept_cons, and_iff_right hnow]
      by_cases hr : ∃ safeBoundary confirmed, r = .settle safeBoundary confirmed
      · obtain ⟨safeBoundary, confirmed, rfl⟩ := hr
        rw [Request.outcome, settled_of_cancelling ht] at hnext
        -- a settle cancels the task at a safe boundary or when the cancel is confirmed
        by_cases hsettles : safeBoundary = true ∨ confirmed = true
        · rw [if_pos hsettles] at hnext
          refine iff_of_true (cancelKept_of_cancelled hnext rest) ?_
          exact hsettles.imp_right Or.inl
        · rw [if_neg hsettles] at hnext
          rw [cancelKept_of_cancelling rest _ hnext]
          obtain ⟨hsafe, hconfirmed⟩ := not_or.mp hsettles
          show SettledFirst rest ↔ safeBoundary = true ∨ confirmed = true ∨ SettledFirst rest
          rw [or_iff_right hsafe, or_iff_right hconfirmed]
      -- any other request takes the place of the cancellation
      · have hother : ∀ safeBoundary confirmed, r ≠ .settle safeBoundary confirmed :=
          fun safeBoundary confirmed heq => hr ⟨safeBoundary, confirmed, heq⟩
        refine iff_of_false (not_cancelKept hnext (replaced_of_cancelling ht hother) rest) ?_
        cases r with
        | settle safeBoundary confirmed => exact absurd rfl (hother safeBoundary confirmed)
        | _ => exact id

/-- **When a request to cancel is kept.**  For a task that is not in a terminal state when it is
asked to cancel, the cancellation is kept through the later requests exactly when the task was
neither running nor pausing, and so was cancelled at once, or a call of `settle_control` cancels it
before anything else is asked of it. -/
theorem cancel_kept_iff (env : Env) (taskId : String) (s : Sys) (t : Task)
    (hget : s.tasks.get? taskId = some t) (hlive : t.state.terminal = false)
    (requests : List Request) :
    CancelKept env taskId ((Call.control taskId .cancelled).exec env s) requests ↔
      (t.state ≠ .running ∧ t.state ≠ .pausing) ∨ SettledFirst requests := by
  have hstands := control_stands env hget .cancelled
  rw [hlive, if_neg Bool.false_ne_true] at hstands
  change Stands ((Call.control taskId .cancelled).exec env s) taskId
    (t.controlState .cancelled, .cancelled) at hstands
  unfold Task.controlState at hstands
  by_cases hactive : t.state ∈ [.running, .pausing]
  · have hnot : ¬ (t.state ≠ .running ∧ t.state ≠ .pausing) := by
      rintro ⟨hrunning, hpausing⟩
      simp [hrunning, hpausing] at hactive
    dsimp only at hstands
    rw [if_pos hactive] at hstands
    rw [cancelKept_of_cancelling requests _ hstands, or_iff_right hnot]
  · dsimp only at hstands
    rw [if_neg hactive] at hstands
    refine iff_of_true (cancelKept_of_cancelled hstands requests) (Or.inl ⟨?_, ?_⟩)
    · rintro heq
      exact hactive (by simp [heq])
    · rintro heq
      exact hactive (by simp [heq])

end

/-- The small engine with its task running. -/
def runningTask : Task := { Small.task with state := .running }

def runningStart : Sys := { Small.start with tasks := Table.empty.put runningTask }

/-- A running task is asked to cancel, then to pause: at the safe boundary it is paused. -/
theorem cancel_kept_fails :
    ¬ ∀ (env : Env) (taskId : String) (s : Sys) (t : Task) (requests : List Request),
      s.tasks.get? taskId = some t → t.state.terminal = false →
      CancelKept env taskId ((Call.control taskId .cancelled).exec env s) requests := by
  intro h
  have hkept := (h Small.env "t" runningStart runningTask [.pause] rfl rfl).2 false
  have hpaused : taskState "t" (runRequests Small.env "t"
      ((Call.control "t" .cancelled).exec Small.env runningStart)
      ([.pause] ++ [.settle true false])) = some .paused := by
    decide +kernel
  rw [hpaused] at hkept
  exact absurd hkept (by decide)

/-- Settled first, the cancellation outlives an attempt to queue the task again. -/
theorem cancel_kept_iff_settled :
    CancelKept Small.env "t" ((Call.control "t" .cancelled).exec Small.env runningStart)
      [.settle true false, .queue] :=
  (cancel_kept_iff Small.env "t" runningStart runningTask rfl rfl _).mpr (Or.inr (Or.inl rfl))

end LiandanluNative
