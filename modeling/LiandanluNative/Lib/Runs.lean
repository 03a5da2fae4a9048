/-
# LiandanluNative.Lib.Runs — runs of moves, and what holds all along them.

A run is a list of moves made one after the other by `exec`, which says what a move leaves behind
however it ends.  `Always P` is about the states of a run, `Each C` about its moves, each in the
state it is made in.  A program that keeps `P` only under a condition on its moves is accounted for
by one step lemma: `always_iff` turns "this move keeps `P` exactly when it meets `C`" into the same
equivalence for whole runs, next to an invariant that holds whatever the moves are.

Nothing here names a program.
-/
import Mathlib.Data.List.Infix

namespace LiandanluNative.Lib.Runs

variable {σ μ : Type} (exec : σ → μ → σ)

/-- The state after a list of moves. -/
def run (s : σ) (moves : List μ) : σ := moves.foldl exec s

/-- Every move meets the condition in the state it is made in. -/
def Each (C : σ → μ → Prop) : σ → List μ → Prop
  | _, [] => True
  | s, m :: moves => C s m ∧ Each C (exec s m) moves

/-- However far the run gets, the property holds. -/
def Always (P : σ → Prop) (s : σ) (moves : List μ) : Prop :=
  ∀ before, before <+: moves → P (run exec s before)

variable {exec}

@[simp] theorem run_nil (s : σ) : run exec s [] = s := rfl

@[simp] theorem run_cons (s : σ) (m : μ) (moves : List μ) :
    run exec s (m :: moves) = run exec (exec s m) moves := rfl

theorem run_append (s : σ) (before later : List μ) :
    run exec s (before ++ later) = run exec (run exec s before) later :=
  List.foldl_append

/-- What every move keeps, a run keeps. -/
theorem run_keeps {I : σ → Prop} (hstep : ∀ s m, I s → I (exec s m)) (moves : List μ) {s : σ}
    (hs : I s) : I (run exec s moves) := by
  induction moves generalizing s with
  | nil => exact hs
  | cons m moves ih => exact ih (hstep s m hs)

/-- What every move that meets the condition keeps, a run of such moves keeps. -/
theorem run_of_each {I : σ → Prop} {C : σ → μ → Prop}
    (hstep : ∀ s m, I s → C s m → I (exec s m)) {moves : List μ} {s : σ} (hs : I s)
    (hmoves : Each exec C s moves) : I (run exec s moves) := by
  induction moves generalizing s with
  | nil => exact hs
  | cons m moves ih => exact ih (hstep s m hs hmoves.1) hmoves.2

/-- **The rule for two runs of the same moves**: what relates the states before a move relates those
after it. -/
theorem run_related {σ' : Type} {exec' : σ' → μ → σ'} {R : σ → σ' → Prop} {C : σ → μ → Prop}
    (hstep : ∀ s t m, R s t → C s m → R (exec s m) (exec' t m)) {moves : List μ} {s : σ} {t : σ'}
    (hs : R s t) (hmoves : Each exec C s moves) : R (run exec s moves) (run exec' t moves) := by
  induction moves generalizing s t with
  | nil => exact hs
  | cons m moves ih => exact ih (hstep s t m hs hmoves.1) hmoves.2

/-- A condition that does not look at the state. -/
theorem each_iff_forall {C : μ → Prop} {s : σ} {moves : List μ} :
    Each exec (fun _ m => C m) s moves ↔ ∀ m ∈ moves, C m := by
  induction moves generalizing s with
  | nil => exact ⟨fun _ _ h => absurd h List.not_mem_nil, fun _ => trivial⟩
  | cons m moves ih =>
      show (C m ∧ Each exec (fun _ m => C m) (exec s m) moves) ↔ _
      rw [ih, List.forall_mem_cons]

/-- A move is made in the state that the moves before it have led to. -/
theorem each_iff_before {C : σ → μ → Prop} {s : σ} {moves : List μ} :
    Each exec C s moves ↔ ∀ before m, before ++ [m] <+: moves → C (run exec s before) m := by
  induction moves generalizing s with
  | nil =>
      refine iff_of_true trivial (fun before m h => ?_)
      exact absurd (List.prefix_nil.mp h) (List.append_ne_nil_of_right_ne_nil _ (by simp))
  | cons first moves ih =>
      show (C s first ∧ Each exec C (exec s first) moves) ↔ _
      rw [ih]
      constructor
      · rintro ⟨hfirst, hlater⟩ before m h
        cases before with
        | nil =>
            obtain ⟨rfl, _⟩ := List.cons_prefix_cons.mp h
            exact hfirst
        | cons head before =>
            obtain ⟨rfl, hrest⟩ := List.cons_prefix_cons.mp h
            exact hlater before m hrest
      · intro h
        refine ⟨h [] first (List.cons_prefix_cons.mpr ⟨rfl, List.nil_prefix⟩), ?_⟩
        intro before m hrest
        exact h (first :: before) m (List.cons_prefix_cons.mpr ⟨rfl, hrest⟩)

theorem always_cons {P : σ → Prop} {s : σ} {m : μ} {moves : List μ} :
    Always exec P s (m :: moves) ↔ P s ∧ Always exec P (exec s m) moves := by
  constructor
  · intro h
    refine ⟨h [] List.nil_prefix, fun before hbefore => ?_⟩
    exact h (m :: before) (List.cons_prefix_cons.mpr ⟨rfl, hbefore⟩)
  · rintro ⟨hnow, hlater⟩ before hbefore
    rcases List.prefix_cons_iff.mp hbefore with rfl | ⟨rest, rfl, hrest⟩
    · exact hnow
    · exact hlater rest hrest

theorem always_nil {P : σ → Prop} {s : σ} (hs : P s) : Always exec P s ([] : List μ) := by
  intro before hbefore
  rw [List.prefix_nil.mp hbefore]
  exact hs

/-- What every move that meets the condition keeps, holds all along a run of such moves. -/
theorem always_of_each {P : σ → Prop} {C : σ → μ → Prop}
    (hstep : ∀ s m, P s → C s m → P (exec s m)) {moves : List μ} {s : σ} (hs : P s)
    (hmoves : Each exec C s moves) : Always exec P s moves := by
  intro before hbefore
  refine run_of_each hstep hs (each_iff_before.mpr fun earlier m hearlier => ?_)
  exact each_iff_before.mp hmoves earlier m (hearlier.trans hbefore)

/-- **The rule for conditional safety.** Where an allowed move keeps `P` exactly when it meets `C`,
and keeps `I` anyway, `P` holds all along a run of them exactly when every move meets `C`. -/
theorem always_iff {I P : σ → Prop} {A C : σ → μ → Prop}
    (hkeep : ∀ s m, A s m → I s → P s → I (exec s m))
    (hstep : ∀ s m, A s m → I s → P s → (P (exec s m) ↔ C s m)) {moves : List μ} {s : σ}
    (hmoves : Each exec A s moves) (hs : I s) (hp : P s) :
    Always exec P s moves ↔ Each exec C s moves := by
  induction moves generalizing s with
  | nil => exact iff_of_true (always_nil hp) trivial
  | cons m moves ih =>
      obtain ⟨hm, hlater⟩ := hmoves
      have hkept := hkeep s m hm hs hp
      have hiff := hstep s m hm hs hp
      rw [always_cons, and_iff_right hp]
      show Always exec P (exec s m) moves ↔ C s m ∧ Each exec C (exec s m) moves
      constructor
      · intro h
        have hnext : P (exec s m) := h [] List.nil_prefix
        exact ⟨hiff.mp hnext, (ih hlater hkept hnext).mp h⟩
      · rintro ⟨hmove, hrest⟩
        exact (ih hlater hkept (hiff.mpr hmove)).mpr hrest

end LiandanluNative.Lib.Runs
