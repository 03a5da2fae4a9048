/-
# LiandanluNative.Lib.Copies — a cell, and writers that write their copies of it back.

Each writer changes a copy of its own and then stores the copy whole, over whatever the cell has by
then.  So a copy has seen the changes of its writer and no others (`run_copy`), and the cell is the
copy of whoever wrote last (`run_cell`): what the others changed is in it only as far as the last
writer changed it too.

Nothing here names a program.
-/
import LiandanluNative.Lib.Runs
import Mathlib.Logic.Function.Basic

namespace LiandanluNative.Lib

open Runs

/-- A cell, and each writer's copy of it. -/
structure Copies (ι α : Type) where
  cell : α
  copy : ι → α

namespace Copies

variable {ι α μ : Type} [DecidableEq ι] (who : μ → ι) (step : α → μ → α)

/-- All copies are fresh. -/
def fresh (a : α) : Copies ι α := ⟨a, fun _ => a⟩

/-- One writer changes its copy, and stores it. -/
def write (c : Copies ι α) (m : μ) : Copies ι α where
  cell := step (c.copy (who m)) m
  copy := Function.update c.copy (who m) (step (c.copy (who m)) m)

/-- The moves of one writer. -/
def madeBy (i : ι) (moves : List μ) : List μ := moves.filter (fun m => decide (who m = i))

variable {who step}

theorem run_copy (c : Copies ι α) (moves : List μ) (i : ι) :
    (run (write who step) c moves).copy i
      = (madeBy who i moves).foldl step (c.copy i) := by
  induction moves generalizing c with
  | nil => rfl
  | cons m moves ih =>
      rw [run_cons, ih]
      unfold madeBy
      by_cases hi : who m = i
      · subst hi
        simp only [List.filter_cons, decide_true, if_true, List.foldl_cons, write,
          Function.update_self]
      · simp only [List.filter_cons, decide_eq_false hi, Bool.false_eq_true, if_false, write,
          Function.update_of_ne (Ne.symm hi)]

/-- **The last writer's copy is what stays.** -/
theorem run_cell (c : Copies ι α) (moves : List μ) :
    (run (write who step) c moves).cell = moves.getLast?.elim c.cell (fun last =>
      (madeBy who (who last) moves).foldl step (c.copy (who last))) := by
  rcases moves.eq_nil_or_concat with rfl | ⟨before, last, hsplit⟩
  · rfl
  · rw [List.concat_eq_append] at hsplit
    subst hsplit
    rw [List.getLast?_concat, Option.elim_some, ← run_copy, run_append]
    simp only [run_cons, run_nil, write, Function.update_self]

end Copies

end LiandanluNative.Lib
