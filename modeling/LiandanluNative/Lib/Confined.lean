/-
# LiandanluNative.Lib.Confined — edges that stay within the blocks of a partition.

A graph whose nodes are spread over places (tenants, workspaces, partitions) is confined when every
edge joins two placed nodes of one place.  Checking this where an edge is made is not enough: a node
that is put elsewhere takes its edges along.  `moved_iff` is the check that is missing there.

Nothing here names a program.
-/
import Mathlib.Logic.Function.Basic

namespace LiandanluNative.Lib

variable {κ ρ : Type} {place place' : κ → Option ρ} {edge edge' : κ → κ → Prop}

/-- Every edge joins two nodes of one place. -/
def Confined (place : κ → Option ρ) (edge : κ → κ → Prop) : Prop :=
  ∀ a b, edge a b → ∃ p, place a = some p ∧ place b = some p

/-- All nodes that an edge joins to `k`, either way round, are at `p`, except for `k`. -/
def NeighboursAt (place : κ → Option ρ) (edge : κ → κ → Prop) (k : κ) (p : ρ) : Prop :=
  ∀ b, b ≠ k → edge k b ∨ edge b k → place b = some p

namespace Confined

/-- Fewer edges, and places that are kept wherever there was one. -/
theorem of_sub (h : Confined place edge) (hplace : ∀ k p, place k = some p → place' k = some p)
    (hedge : ∀ a b, edge' a b → edge a b) : Confined place' edge' := by
  intro a b hab
  obtain ⟨p, ha, hb⟩ := h a b (hedge a b hab)
  exact ⟨p, hplace a p ha, hplace b p hb⟩

/-- An edge is added within a place. -/
theorem joined (h : Confined place edge) {a b : κ} {p : ρ} (ha : place a = some p)
    (hb : place b = some p) (hedge : ∀ x y, edge' x y → (x = a ∧ y = b) ∨ edge x y) :
    Confined place edge' := by
  intro x y hxy
  rcases hedge x y hxy with ⟨rfl, rfl⟩ | hold
  · exact ⟨p, ha, hb⟩
  · exact h x y hold

variable [DecidableEq κ]

/-- **A node that is put somewhere** must meet its neighbours there. -/
theorem moved_iff (h : Confined place edge) (k : κ) (p : ρ) :
    Confined (Function.update place k (some p)) edge ↔ NeighboursAt place edge k p := by
  constructor
  · intro hmoved b hb hnear
    rcases hnear with hout | hin
    · obtain ⟨q, hk, hq⟩ := hmoved k b hout
      rw [Function.update_self] at hk
      rw [Function.update_of_ne hb, ← hk] at hq
      exact hq
    · obtain ⟨q, hq, hk⟩ := hmoved b k hin
      rw [Function.update_self] at hk
      rw [Function.update_of_ne hb, ← hk] at hq
      exact hq
  · intro hnear a b hab
    by_cases ha : a = k
    · subst ha
      refine ⟨p, Function.update_self .., ?_⟩
      by_cases hb : b = a
      · rw [hb, Function.update_self]
      · rw [Function.update_of_ne hb, hnear b hb (Or.inl hab)]
    · by_cases hb : b = k
      · subst hb
        exact ⟨p, by rw [Function.update_of_ne ha, hnear a ha (Or.inr hab)],
          Function.update_self ..⟩
      · rw [Function.update_of_ne ha, Function.update_of_ne hb]
        exact h a b hab

end Confined

end LiandanluNative.Lib
