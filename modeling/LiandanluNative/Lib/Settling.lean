/-
# LiandanluNative.Lib.Settling — lists of steps that may be broken off and begun again.

A step may fail, and the steps after it are not taken then.  A list of steps is `Settling` if each
can be taken once those before it are done, is done after it was taken, finds nothing to do where it
is done already, and undoes no other.  Then all steps are done in the end, and the steps that were
taken before the list was begun again leave no trace (`Settling.run_resumed`).

The steps need settle states of one kind only (`kind`), which no step leaves.

Nothing here names a program.
-/
import LiandanluNative.Lib.Proc
import Mathlib.Data.List.Basic

namespace LiandanluNative.Lib

variable {ι σ : Type}

/-- Step after step; one that fails ends the run. -/
def runSteps (step : ι → σ → Option σ) : List ι → σ → σ
  | [], s => s
  | i :: steps, s =>
      match step i s with
      | none => s
      | some t => runSteps step steps t

/-- What each step does to the others and to itself, in states of a kind. -/
structure Settling (step : ι → σ → Option σ) (kind : σ → Prop) (done : ι → σ → Prop)
    (steps : List ι) : Prop where
  enabled : ∀ {before i later s}, steps = before ++ i :: later → kind s → (∀ j ∈ before, done j s) →
    ∃ t, step i s = some t ∧ done i t
  idle : ∀ {i s}, i ∈ steps → done i s → step i s = some s
  kept : ∀ {i j s t}, i ∈ steps → step i s = some t → done j s → done j t
  closed : ∀ {i s t}, i ∈ steps → kind s → step i s = some t → kind t

variable {step : ι → σ → Option σ} {kind : σ → Prop} {done : ι → σ → Prop} {steps : List ι}

/-- Steps that are done change nothing. -/
theorem runSteps_idle {s : σ} (h : ∀ i ∈ steps, step i s = some s) : runSteps step steps s = s := by
  induction steps with
  | nil => rfl
  | cons i steps ih =>
      rw [runSteps, h i List.mem_cons_self]
      exact ih (fun j hj => h j (List.mem_cons_of_mem _ hj))

/-- What no step leaves, a run does not. -/
theorem runSteps_within {R : σ → σ → Prop} (hR : Proc.Frame R)
    (h : ∀ i ∈ steps, ∀ s t, step i s = some t → R s t) (s : σ) : R s (runSteps step steps s) := by
  induction steps generalizing s with
  | nil => exact hR.refl s
  | cons i steps ih =>
      rw [runSteps]
      cases hstep : step i s with
      | none => exact hR.refl s
      | some t =>
          have hrest := ih (fun j hj => h j (List.mem_cons_of_mem _ hj)) t
          exact hR.trans (h i List.mem_cons_self s t hstep) hrest

namespace Settling

/-- No step in the middle fails, so that the rest begins where it ends. -/
theorem run_append (h : Settling step kind done steps) {middle : List ι} :
    ∀ {before later : List ι} {s : σ}, steps = before ++ (middle ++ later) → kind s →
      (∀ j ∈ before, done j s) →
      runSteps step (middle ++ later) s = runSteps step later (runSteps step middle s) ∧
        kind (runSteps step middle s) ∧
        ∀ j ∈ before ++ middle, done j (runSteps step middle s) := by
  induction middle with
  | nil =>
      intro before later s _ hkind hbefore
      rw [List.append_nil]
      exact ⟨rfl, hkind, hbefore⟩
  | cons i middle ih =>
      intro before later s hsplit hkind hbefore
      obtain ⟨t, hstep, hdone⟩ := h.enabled hsplit hkind hbefore
      have hi : i ∈ steps := by
        rw [hsplit]
        exact List.mem_append_right _ List.mem_cons_self
      have hbefore' : ∀ j ∈ before ++ [i], done j t := by
        intro j hj
        rcases List.mem_append.mp hj with hj | hj
        · exact h.kept hi hstep (hbefore j hj)
        · rwa [List.mem_singleton.mp hj]
      have hrest := ih (hsplit.trans (List.append_cons before i (middle ++ later)))
        (h.closed hi hkind hstep) hbefore'
      rw [← List.append_cons] at hrest
      simpa only [List.cons_append, runSteps, hstep] using hrest

/-- **In the end** every step is done. -/
theorem run_done (h : Settling step kind done steps) {s : σ} (hkind : kind s) :
    ∀ i ∈ steps, done i (runSteps step steps s) := by
  have hsplit : steps = [] ++ (steps ++ []) := (List.append_nil steps).symm
  obtain ⟨-, -, hdone⟩ := h.run_append hsplit hkind (fun _ hno => absurd hno List.not_mem_nil)
  exact hdone

/-- A second run changes nothing. -/
theorem run_twice (h : Settling step kind done steps) {s : σ} (hkind : kind s) :
    runSteps step steps (runSteps step steps s) = runSteps step steps s :=
  runSteps_idle (fun i hi => h.idle hi (h.run_done hkind i hi))

/-- **A run that was broken off** leaves no trace once there was a whole one. -/
theorem run_take (h : Settling step kind done steps) (n : ℕ) {s : σ} (hkind : kind s) :
    kind (runSteps step (steps.take n) s) ∧
      runSteps step steps (runSteps step (steps.take n) s) = runSteps step steps s := by
  have hsplit : steps = [] ++ (steps.take n ++ steps.drop n) := (List.take_append_drop n steps).symm
  have hnone : ∀ (s : σ), ∀ j ∈ ([] : List ι), done j s := fun _ _ hno => absurd hno List.not_mem_nil
  obtain ⟨hrun, hbroken, hdone⟩ := h.run_append hsplit hkind (hnone s)
  obtain ⟨hagain, -, -⟩ := h.run_append hsplit hbroken (hnone _)
  rw [List.take_append_drop] at hrun hagain
  have hidle := runSteps_idle (fun i hi => h.idle (List.mem_of_mem_take hi) (hdone i hi))
  refine ⟨hbroken, ?_⟩
  rw [hrun, hagain, hidle]

/-- **However often** it was broken off. -/
theorem run_resumed (h : Settling step kind done steps) (interrupted : List ℕ) {s : σ}
    (hkind : kind s) :
    kind (interrupted.foldl (fun t n => runSteps step (steps.take n) t) s) ∧
      runSteps step steps (interrupted.foldl (fun t n => runSteps step (steps.take n) t) s)
        = runSteps step steps s := by
  induction interrupted generalizing s with
  | nil => exact ⟨hkind, rfl⟩
  | cons n interrupted ih =>
      obtain ⟨hbroken, hrun⟩ := h.run_take n hkind
      obtain ⟨hlater, hresumed⟩ := ih hbroken
      exact ⟨hlater, hresumed.trans hrun⟩

end Settling

end LiandanluNative.Lib
