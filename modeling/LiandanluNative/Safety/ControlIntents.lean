/-
# LiandanluNative.Safety.ControlIntents — what can be done to the tasks by speaking.

An intent without a task is obeyed on the one task it can be about, if there is exactly one.  Being
obeyed changes which tasks the next intent can be about, and so a session of intents could wander
from task to task.  It does not get far (`session_touches_two`): whatever is said, in whatever
order, at most two tasks are ever changed, and without a `resume` at most one.

The tasks an intent can pause or cancel are *active*, those it can resume *resumable*; a task may be
both.  Once a task was paused or cancelled, no other is active; once one was resumed, no other is
resumable.  `Obeyed` is what the two lead to.
-/
import LiandanluNative.Runtime.Control
import LiandanluNative.Runtime.Engine

namespace LiandanluNative

open Lib (Table)
open Lib.Proc Lib.WriteThrough

/-! ## Sessions -/

/-- The user speaks, intent after intent, and names no task. -/
def session (env : Env) (s : Sys) (intents : List ControlIntent) : Sys :=
  intents.foldl (fun s intent => after (say env intent none) s) s

/-- Only tasks of the named ids were changed, in memory or in the store; no operation was, no lease
was, and no capability was called. -/
structure TouchesOnly (ids : List String) (s t : Sys) : Prop where
  tasks : ∀ id ∉ ids, t.tasks.get? id = s.tasks.get? id ∧ t.db.tasks.get? id = s.db.tasks.get? id
  operations : ∀ id, t.operations.get? id = s.operations.get? id ∧
    t.db.operations.get? id = s.db.operations.get? id
  taskLeases : t.db.taskLeases = s.db.taskLeases
  resourceLeases : t.db.resourceLeases = s.db.resourceLeases
  invocations : t.invocations = s.invocations

/-- The tasks of the named ids may change, and the world with them. -/
def Allowance.controlling (ids : List String) : Allowance where
  task := fun id _ _ => id ∈ ids
  operation := fun _ _ _ => False
  world := fun _ _ => True
  resources := False
  leases := False
  invoke := fun _ => False

theorem Allowance.controlling_closed (ids : List String) : (Allowance.controlling ids).Closed where
  task := fun _ _ _ _ h _ => h
  operation := fun _ _ _ _ h _ => h
  world := fun _ _ _ _ _ => trivial

section

variable {env : Env} {s t : Sys} {ids : List String}

theorem Moves.touchesOnly (h : Moves (.controlling ids) s t) : TouchesOnly ids s t where
  tasks id hid := (h.tasks id).still (fun _ hmay => hid hmay)
  operations id := (h.operations id).still (fun _ hmay => hmay)
  taskLeases := h.taskLeases.resolve_left id
  resourceLeases := (h.resourceLeases.resolve_left id).1
  invocations := h.invocations_eq (fun _ hi => hi)

theorem Moves.controlling_mono {ids' : List String} (h : Moves (.controlling ids) s t)
    (hsub : ids ⊆ ids') : Moves (.controlling ids') s t :=
  h.mono ⟨fun _ _ _ hid => hsub hid, fun _ _ _ h => h, fun _ _ h => h, id, id, fun _ h => h⟩

theorem moves_control {taskId : String} (hmem : taskId ∈ ids) (desired : TaskState) :
    Moves (.controlling ids) s (after (controlTask env taskId desired) s) :=
  moves_controlTask (Allowance.controlling_closed ids) env
    ⟨fun _ => hmem, fun _ => hmem, fun _ => trivial⟩ desired (fun _ _ _ => hmem)

/-! ## One intent -/

/-- The task can be paused or cancelled. -/
def Sys.Active (s : Sys) (taskId : String) : Prop := taskId ∈ s.candidates .pauseTask

/-- The task can be resumed. -/
def Sys.Resumable (s : Sys) (taskId : String) : Prop := taskId ∈ s.candidates .resumeTask

/-- A task that was left alone can be spoken about as before. -/
theorem candidates_congr {taskId : String} (h : t.tasks.get? taskId = s.tasks.get? taskId)
    (intent : ControlIntent) : taskId ∈ t.candidates intent ↔ taskId ∈ s.candidates intent := by
  rw [Sys.mem_candidates, Sys.mem_candidates, taskState, taskState, h]

/-- A resumed task is active, and others are as they were. -/
theorem active_of_resumed {taskId : String} (h : s.Resumable taskId) :
    (after (controlTask env taskId .running) s).Active taskId := by
  obtain ⟨state, hstate, hmem⟩ := Sys.mem_candidates.mp h
  obtain ⟨task, hget, rfl⟩ := Option.map_eq_some_iff.mp hstate
  have hresumed : task.controlState .running = .running := by
    unfold Task.controlState
    refine if_pos ?_
    simp only [ControlIntent.candidateStates, List.mem_cons, List.not_mem_nil, or_false] at hmem
    rcases hmem with hmem | hmem | hmem <;> rw [hmem] <;> decide
  have hlive : ¬ task.state.terminal = true := by
    simp only [ControlIntent.candidateStates, List.mem_cons, List.not_mem_nil, or_false] at hmem
    rcases hmem with hmem | hmem | hmem <;> rw [hmem] <;> decide
  have hstands := control_stands env hget .running
  rw [if_neg hlive] at hstands
  refine Sys.mem_candidates.mpr ⟨.running, ?_, by decide⟩
  rw [hstands.taskState]
  exact congrArg some hresumed

/-- Said without an id, an intent is ignored, or changes the only task it can be about. -/
theorem say_touches (env : Env) (s : Sys) (intent : ControlIntent) :
    after (say env intent none) s = s ∨
      ∃ taskId, s.Only intent taskId ∧
        Moves (.controlling [taskId]) s (after (say env intent none) s) ∧
        (intent = .resumeTask → (after (say env intent none) s).Active taskId) := by
  rcases say_cases env intent s with hsame | ⟨taskId, desired, hdesired, honly, hsay⟩
  · exact Or.inl hsame
  refine Or.inr ⟨taskId, honly, ?_, ?_⟩
  · rw [hsay]
    exact moves_control (List.mem_singleton_self _) desired
  · rintro rfl
    cases hdesired
    rw [hsay]
    exact active_of_resumed honly.1

/-! ## What a session comes to -/

/-- Where a session that began in `s` has got to. -/
inductive Obeyed (s t : Sys) : Prop
  /-- Nothing was obeyed yet. -/
  | ignored (same : t = s)
  /-- One task was changed, and no other is active. -/
  | stopped (x : String) (moves : Moves (.controlling [x]) s t) (others : ∀ y ≠ x, ¬ t.Active y)
  /-- One task was changed, and no other is resumable; if another is active, so is it. -/
  | resumed (x : String) (moves : Moves (.controlling [x]) s t) (others : ∀ y ≠ x, ¬ t.Resumable y)
      (active : t.Active x ∨ ∀ y ≠ x, ¬ t.Active y)
  /-- Two tasks were changed, and there is no other to speak about. -/
  | both (x y : String) (moves : Moves (.controlling [x, y]) s t)
      (others : ∀ z, z ≠ x → z ≠ y → ¬ t.Active z ∧ ¬ t.Resumable z)

namespace Obeyed

/-- What else an intent can be about than what it can be resumed. -/
theorem active_of_candidate {intent : ControlIntent} {taskId : String}
    (h : taskId ∈ s.candidates intent) (hintent : intent ≠ .resumeTask) : s.Active taskId := by
  cases intent with
  | resumeTask => exact absurd rfl hintent
  | _ => exact h

theorem only_active {intent : ControlIntent} {taskId : String} (h : s.Only intent taskId)
    (hintent : intent ≠ .resumeTask) : ∀ y ≠ taskId, ¬ s.Active y := by
  intro y hy hactive
  cases intent with
  | resumeTask => exact hintent rfl
  | _ => exact hy (h.2 y hactive)

/-- What is so of no other task than two is so of one of them. -/
theorem oneOf_of_others {P : String → Prop} {x y z : String}
    (hothers : ∀ w, w ≠ x → w ≠ y → ¬ P w) (hz : P z) : z = x ∨ z = y := by
  by_contra hno
  obtain ⟨hx, hy⟩ := not_or.mp hno
  exact hothers z hx hy hz

/-- **One more intent.** -/
theorem step (h : Obeyed s t) (intent : ControlIntent) :
    Obeyed s (after (say env intent none) t) := by
  rcases say_touches env t intent with hsame | ⟨z, honly, hmoves, hresumes⟩
  · rw [hsame]
    exact h
  -- the other tasks can be spoken to as before
  have hrest : ∀ y ≠ z, ∀ intent', y ∈ (after (say env intent none) t).candidates intent' ↔
      y ∈ t.candidates intent' := fun y hy intent' =>
    candidates_congr (hmoves.touchesOnly.tasks y (by simpa using hy)).1 intent'
  -- and what was touched so far stays a list that the task of this intent is added to
  have hfrom : ∀ {ids ids' : List String}, Moves (.controlling ids) s t → ids ⊆ ids' → z ∈ ids' →
      Moves (.controlling ids') s (after (say env intent none) t) := fun hst hsub hz =>
    (hst.controlling_mono hsub).trans (Allowance.controlling_closed _)
      (hmoves.controlling_mono (by simpa using hz))
  by_cases hintent : intent = .resumeTask
  · -- a task was resumed: no other one can be
    subst hintent
    have hothers : ∀ y ≠ z, ¬ t.Resumable y := fun y hy hmem => hy (honly.2 y hmem)
    have hz : t.Resumable z := honly.1
    have hothers' : ∀ y ≠ z, ¬ (after (say env .resumeTask none) t).Resumable y := fun y hy hmem =>
      hothers y hy ((hrest y hy _).mp hmem)
    cases h with
    | ignored hsame => exact .resumed z (hsame ▸ hmoves) hothers' (Or.inl (hresumes rfl))
    | stopped x hst hstopped =>
        by_cases hx : z = x
        · subst hx
          exact .resumed z (hfrom hst (List.Subset.refl _) List.mem_cons_self) hothers'
            (Or.inl (hresumes rfl))
        · refine .both x z (hfrom hst (by simp) (by simp)) (fun w hwx hwz => ⟨?_, hothers' w hwz⟩)
          exact fun hmem => hstopped w hwx ((hrest w hwz _).mp hmem)
    | resumed x hst hresumed hactive =>
        have hx : z = x := by_contra (fun hx => hresumed z hx hz)
        subst hx
        exact .resumed z (hfrom hst (List.Subset.refl _) List.mem_cons_self) hothers'
          (Or.inl (hresumes rfl))
    | both x y hst hboth =>
        have hxy : z = x ∨ z = y := oneOf_of_others (fun w hx hy => (hboth w hx hy).2) hz
        refine .both x y (hfrom hst (List.Subset.refl _) (by simpa using hxy)) (fun w hwx hwy => ?_)
        have hwz : w ≠ z := fun hwz => (hwz ▸ hxy).elim hwx hwy
        obtain ⟨hactive, _⟩ := hboth w hwx hwy
        exact ⟨fun hmem => hactive ((hrest w hwz _).mp hmem), hothers' w hwz⟩
  · -- a task was paused or cancelled: no other one can be
    have hothers : ∀ y ≠ z, ¬ t.Active y := only_active honly hintent
    have hz : t.Active z := active_of_candidate honly.1 hintent
    have hothers' : ∀ y ≠ z, ¬ (after (say env intent none) t).Active y := fun y hy hmem =>
      hothers y hy ((hrest y hy _).mp hmem)
    cases h with
    | ignored hsame => exact .stopped z (hsame ▸ hmoves) hothers'
    | stopped x hst hstopped =>
        have hx : z = x := by_contra (fun hx => hstopped z hx hz)
        subst hx
        exact .stopped z (hfrom hst (List.Subset.refl _) List.mem_cons_self) hothers'
    | resumed x hst hresumed hactive =>
        have hx : z = x := by
          by_contra hx
          rcases hactive with hactive | hnone
          · exact hothers x (Ne.symm hx) hactive
          · exact hnone z hx hz
        subst hx
        exact .stopped z (hfrom hst (List.Subset.refl _) List.mem_cons_self) hothers'
    | both x y hst hboth =>
        have hxy : z = x ∨ z = y := oneOf_of_others (fun w hx hy => (hboth w hx hy).1) hz
        refine .both x y (hfrom hst (List.Subset.refl _) (by simpa using hxy)) (fun w hwx hwy => ?_)
        have hwz : w ≠ z := fun hwz => (hwz ▸ hxy).elim hwx hwy
        obtain ⟨_, hresumable⟩ := hboth w hwx hwy
        exact ⟨hothers' w hwz, fun hmem => hresumable ((hrest w hwz _).mp hmem)⟩

theorem session (env : Env) (intents : List ControlIntent) : ∀ {t : Sys}, Obeyed s t →
    Obeyed s (session env t intents) := by
  induction intents with
  | nil => exact fun h => h
  | cons intent later ih => exact fun h => ih (h.step intent)

end Obeyed

/-- Where nothing is resumed, the task that was the only active one is all that is ever changed. -/
theorem session_of_no_resume : ∀ {intents : List ControlIntent} {t : Sys},
    (∀ intent ∈ intents, intent ≠ .resumeTask) →
    (t = s ∨ ∃ x, s.Only .pauseTask x ∧ Moves (.controlling [x]) s t ∧ ∀ y ≠ x, ¬ t.Active y) →
    session env t intents = s ∨
      ∃ x, s.Only .pauseTask x ∧ Moves (.controlling [x]) s (session env t intents)
  | [], _, _, h => h.imp_right (fun ⟨x, honly, hmoves, _⟩ => ⟨x, honly, hmoves⟩)
  | intent :: later, t, hno, h => by
      have hintent : intent ≠ .resumeTask := hno intent List.mem_cons_self
      refine session_of_no_resume (t := after (say env intent none) t)
        (fun i hi => hno i (List.mem_cons_of_mem _ hi)) ?_
      rcases say_touches env t intent with hsame | ⟨z, honly, hmoves, _⟩
      · rw [hsame]
        exact h
      have hothers : ∀ y ≠ z, ¬ (after (say env intent none) t).Active y := fun y hy hmem =>
        Obeyed.only_active honly hintent y hy ((candidates_congr
          (hmoves.touchesOnly.tasks y (by simpa using hy)).1 _).mp hmem)
      have hz : t.Active z := Obeyed.active_of_candidate honly.1 hintent
      rcases h with rfl | ⟨x, hx, hst, hstopped⟩
      · refine Or.inr ⟨z, ⟨hz, fun y hy => ?_⟩, hmoves, hothers⟩
        exact by_contra (fun hne => Obeyed.only_active honly hintent y hne hy)
      · have hsame : z = x := by_contra (fun hne => hstopped z hne hz)
        subst hsame
        exact Or.inr ⟨z, hx, hst.trans (Allowance.controlling_closed _) hmoves, hothers⟩

end

/-- **A session of intents changes at most two tasks.**  Whatever the tasks are and whatever is said,
as long as no task is named, there are two tasks such that no other one was changed, in memory or in
the store; no operation and no lease was, and no capability was called.  Where no task is resumed,
nothing at all happens but to the task that was the only active one when the session began. -/
theorem session_touches_two (env : Env) (s : Sys) (intents : List ControlIntent) :
    (∃ x y, TouchesOnly [x, y] s (session env s intents)) ∧
      ((∀ intent ∈ intents, intent ≠ .resumeTask) → session env s intents = s ∨
        ∃ x, s.candidates .pauseTask = [x] ∧ TouchesOnly [x] s (session env s intents)) := by
  constructor
  · cases Obeyed.session env intents (Obeyed.ignored (s := s) rfl) with
    | ignored hsame =>
        rw [hsame]
        exact ⟨"", "", (Moves.refl : Moves (.controlling ["", ""]) s s).touchesOnly⟩
    | stopped x hmoves _ => exact ⟨x, x, (hmoves.controlling_mono (by simp)).touchesOnly⟩
    | resumed x hmoves _ _ => exact ⟨x, x, (hmoves.controlling_mono (by simp)).touchesOnly⟩
    | both x y hmoves _ => exact ⟨x, y, hmoves.touchesOnly⟩
  · intro hno
    refine (session_of_no_resume hno (Or.inl rfl)).imp_right (fun ⟨x, honly, hmoves⟩ => ?_)
    exact ⟨x, Sys.only_iff.mp honly, hmoves.touchesOnly⟩

/-- One task waits and one is paused. -/
def spokenTo : Sys where
  persistent := true
  tasks := (Table.empty.put { Small.task with taskId := "a", state := .waiting }).put
    { Small.task with taskId := "b", state := .paused }

/-- The waiting task is cancelled, which leaves the paused one to be resumed. -/
theorem session_touches_two_spokenTo :
    (∃ x y, TouchesOnly [x, y] spokenTo
        (session Small.env spokenTo [.cancelTask, .resumeTask, .pauseTask])) ∧
      (session Small.env spokenTo [.cancelTask, .resumeTask, .pauseTask]).tasks.rows.map
          (fun t => (t.taskId, t.state)) = [("a", .cancelled), ("b", .pausing)] ∧
      (session Small.env spokenTo [.cancelTask, .pauseTask] = spokenTo ∨
        ∃ x, spokenTo.candidates .pauseTask = [x] ∧
          TouchesOnly [x] spokenTo (session Small.env spokenTo [.cancelTask, .pauseTask])) :=
  ⟨(session_touches_two Small.env spokenTo _).1, by decide +kernel,
    (session_touches_two Small.env spokenTo _).2 (by decide)⟩

end LiandanluNative
