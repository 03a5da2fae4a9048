/-
# LiandanluNative.Lib.Versions — versions that tell whether something changed.

Optimistic concurrency control remembers the version it decided on and compares versions later,
never contents.  That is sound exactly when between the two states the versions only rose and an
unchanged version means an unchanged content (`Tracks`).  It composes, so it is proved for one step
at a time, and `of_raised` is the rule for a step that changes one content and raises its version.

Nothing here names a program.
-/
import Mathlib.Order.Basic

namespace LiandanluNative.Lib

variable {σ κ ν β : Type}

/-- From `s` to `t` no version fell, and what kept its version kept its content. -/
structure Tracks [LE ν] (version : σ → κ → ν) (content : σ → κ → β) (s t : σ) : Prop where
  le : ∀ k, version s k ≤ version t k
  same : ∀ k, version t k = version s k → content t k = content s k

namespace Tracks

variable [PartialOrder ν] {version : σ → κ → ν} {content : σ → κ → β}
  {s t u : σ}

protected theorem refl (s : σ) : Tracks version content s s := ⟨fun _ => le_rfl, fun _ _ => rfl⟩

protected theorem trans (h₁ : Tracks version content s t) (h₂ : Tracks version content t u) :
    Tracks version content s u where
  le k := (h₁.le k).trans (h₂.le k)
  same := by
    intro k heq
    -- a version that is back where it was never left
    have hst : version t k = version s k := le_antisymm (heq ▸ h₂.le k) (h₁.le k)
    have htu : version u k = version t k := heq.trans hst.symm
    exact (h₂.same k htu).trans (h₁.same k hst)

/-- Nothing that is versioned changed. -/
theorem of_eq (hversion : version t = version s) (hcontent : content t = content s) :
    Tracks version content s t where
  le k := (congrFun hversion k).ge
  same k _ := congrFun hcontent k

/-- The version of one content was raised, and the others were left alone. -/
theorem of_raised (k : κ) (hraised : version s k < version t k)
    (hother : ∀ k', k' ≠ k → version t k' = version s k' ∧ content t k' = content s k') :
    Tracks version content s t where
  le := by
    intro k'
    by_cases hk : k' = k
    · rw [hk]
      exact hraised.le
    · exact (hother k' hk).1.ge
  same := by
    intro k' heq
    by_cases hk : k' = k
    · rw [hk] at heq
      exact absurd heq hraised.ne'
    · exact (hother k' hk).2

end Tracks

end LiandanluNative.Lib
