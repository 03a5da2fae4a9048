/-
# LiandanluNative.Lib.Floats — comparing floats, one of which is no number.

A float is a number of a linear order, or `none`: not-a-number, to which every comparison says no.
The infinities are numbers of the order, and the two zeros are one.  Numbers compare as they do in
their order (`lt_some`, `le_some`).  A float that is not at most a number may still not be above it,
as it may be none.

What a sum of two floats is, is up to who adds them: it is rounded, and two infinities may have none.
-/
import Mathlib.Order.Lattice

namespace LiandanluNative.Lib.Floats

variable {τ : Type} [LinearOrder τ]

/-- `a < b` -/
def lt : Option τ → Option τ → Bool
  | some a, some b => decide (a < b)
  | _, _ => false

/-- `a <= b` -/
def le : Option τ → Option τ → Bool
  | some a, some b => decide (a ≤ b)
  | _, _ => false

@[simp] theorem lt_some (a b : τ) : lt (some a) (some b) = decide (a < b) := rfl

@[simp] theorem le_some (a b : τ) : le (some a) (some b) = decide (a ≤ b) := rfl

/-- What is above a later number is above an earlier one. -/
theorem lt_of_le {a b : τ} {u : Option τ} (hab : a ≤ b) (h : lt (some b) u = true) :
    lt (some a) u = true := by
  cases u with
  | none => cases h
  | some u => exact decide_eq_true (lt_of_le_of_lt hab (of_decide_eq_true h))

end LiandanluNative.Lib.Floats
