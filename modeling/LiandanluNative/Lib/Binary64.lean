/-
# LiandanluNative.Lib.Binary64 — sums of floats.

A float is a multiple of the unit in the last place of its binade, with 53 bits of them.  A sum is
rounded to the nearest, and of two that are as near to the even one.  Infinities and NaN are left
out, so that floats are among the rationals: of sums within range nothing else is said.

A small summand can vanish: what is nearer to `x` than half a unit is rounded to `x`
(`round_of_close`).
-/
import Mathlib.Data.Int.Log
import Mathlib.Data.Rat.Floor
import Mathlib.Tactic.FieldSimp
import Mathlib.Tactic.Linarith

namespace LiandanluNative.Lib.Binary64

/-- The nearest integer, and the even one of two that are as near. -/
def roundEven (x : ℚ) : ℤ :=
  if x - ⌊x⌋ < 1 / 2 ∨ x - ⌊x⌋ = 1 / 2 ∧ Even ⌊x⌋ then ⌊x⌋ else ⌊x⌋ + 1

/-- The unit in the last place of the binade of `x`; below the normal numbers it gets no smaller. -/
def ulp (x : ℚ) : ℚ := 2 ^ max (Int.log 2 |x| - 52) (-1074)

/-- The float that stands for `x`. -/
def round (x : ℚ) : ℚ := roundEven (x / ulp x) * ulp x

/-- The sum of two floats. -/
def plus (x y : ℚ) : ℚ := round (x + y)

theorem ulp_pos (x : ℚ) : 0 < ulp x := zpow_pos two_pos _

/-- An integer nearer than a half is the one that is rounded to. -/
theorem roundEven_of_close {x : ℚ} {n : ℤ} (hclose : |x - n| < 1 / 2) : roundEven x = n := by
  obtain ⟨hbelow, habove⟩ := abs_lt.mp hclose
  unfold roundEven
  rcases le_or_gt (n : ℚ) x with hle | hlt
  · -- `n` is the floor, and the rest is less than a half
    have hfloor : ⌊x⌋ = n := by
      rw [Int.floor_eq_iff]
      exact ⟨hle, by linarith⟩
    rw [hfloor, if_pos (Or.inl (by linarith))]
  · -- the floor is the integer before `n`, and the rest is more than a half
    have hfloor : ⌊x⌋ = n - 1 := by
      rw [Int.floor_eq_iff]
      push_cast
      exact ⟨by linarith, by linarith⟩
    rw [hfloor, if_neg, sub_add_cancel]
    push_cast
    rintro (hless | ⟨hhalf, _⟩)
    · linarith
    · linarith

/-- A multiple of the unit nearer than half a unit is the float that is rounded to. -/
theorem round_of_close {x : ℚ} {n : ℤ} (hclose : |x - n * ulp x| < ulp x / 2) :
    round x = n * ulp x := by
  have hpos := ulp_pos x
  have hscaled : |x / ulp x - n| < 1 / 2 := by
    have hdiff : x / ulp x - n = (x - n * ulp x) / ulp x := by
      field_simp
    rw [hdiff, abs_div, abs_of_pos hpos, div_lt_iff₀ hpos]
    linarith
  rw [round, roundEven_of_close hscaled]

/-- Seven billionths of a second are less than half a unit of a time of today. -/
theorem plus_vanishes : plus 1700000000 (1 / 2 ^ 27) = 1700000000 := by
  have hulp : ulp (1700000000 + 1 / 2 ^ 27) = 1 / 2 ^ 22 := by decide +kernel
  have hclose : |(1700000000 + 1 / 2 ^ 27 : ℚ)
      - ((1700000000 * 2 ^ 22 : ℤ) : ℚ) * ulp (1700000000 + 1 / 2 ^ 27)|
        < ulp (1700000000 + 1 / 2 ^ 27) / 2 := by
    rw [hulp]
    decide +kernel
  have hround := round_of_close hclose
  rw [hulp] at hround
  exact hround.trans (by decide +kernel)

end LiandanluNative.Lib.Binary64
