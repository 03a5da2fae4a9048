/-
# LiandanluNative.Lib.Yields — what repeated calls give out.

A queue, a cursor or a generator is called again and again: it gives out one item a call and in the
end nothing any more.  `Yields m s xs` says that the calls of `m` that start from `s` return exactly
the items of `xs`, in order, and after them always `none`.  It is proved along the list, from where
nothing is left (`nil`) one call at a time (`cons`).

Nothing here names a program.
-/
import LiandanluNative.Lib.Proc
import Mathlib.Data.List.Basic

namespace LiandanluNative.Lib.Proc

variable {ε σ α : Type} {m : EStateM ε σ (Option α)} {s t : σ}

/-- What the first `n` calls return, `none` for a call that raises. -/
def calls (m : EStateM ε σ (Option α)) : ℕ → σ → List (Option (Option α))
  | 0, _ => []
  | n + 1, s => returns m s :: calls m n (after m s)

/-- The calls of `m` return the items, and then `none`. -/
def Yields (m : EStateM ε σ (Option α)) (s : σ) (xs : List α) : Prop :=
  ∀ n, calls m n s = (xs.map (fun x => some (some x)) ++ List.replicate n (some none)).take n

namespace Yields

/-- Nothing is left, and nothing comes. -/
theorem nil (P : σ → Prop) (hstep : ∀ s, P s → ∃ t, m s = .ok none t ∧ P t) (hs : P s) :
    Yields m s [] := by
  intro n
  rw [List.map_nil, List.nil_append, List.take_replicate, Nat.min_self]
  induction n generalizing s with
  | zero => rfl
  | succ n ih =>
      obtain ⟨t, hrun, ht⟩ := hstep s hs
      rw [calls, returns_eq_some.mpr ⟨t, hrun⟩, after_of_ok hrun, ih ht, List.replicate_succ]

theorem cons {x : α} {xs : List α} (hrun : m s = .ok (some x) t) (h : Yields m t xs) :
    Yields m s (x :: xs) := by
  intro n
  cases n with
  | zero => rfl
  | succ n =>
      rw [calls, returns_eq_some.mpr ⟨t, hrun⟩, after_of_ok hrun, h n, List.map_cons,
        List.cons_append, List.take_succ_cons, List.replicate_succ', ← List.append_assoc]
      congr 1
      refine (List.take_append_of_le_length ?_).symm
      rw [List.length_append, List.length_replicate]
      exact Nat.le_add_left n _

end Yields

end LiandanluNative.Lib.Proc
