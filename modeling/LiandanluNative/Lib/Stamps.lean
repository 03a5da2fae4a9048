/-
# LiandanluNative.Lib.Stamps — stamping things with an epoch that only rises.

What is made is stamped with the current epoch, so the stamps come out sorted and none is beyond it
(`Stamped`).  Stamps tell the things apart exactly when the epoch is raised between any two
(`nodup_concat`), and then every stamp but the last is behind the epoch (`lt_of_mem_dropLast`): a
comparison with the current epoch turns away whatever is not the newest.

Nothing here names a program.
-/
import Mathlib.Order.Basic
import Mathlib.Data.List.Basic
import Mathlib.Data.List.Nodup

namespace LiandanluNative.Lib

variable {τ : Type}

/-- Stamps in the order they were given, up to the current epoch. -/
structure Stamped [LE τ] (stamps : List τ) (epoch : τ) : Prop where
  sorted : stamps.Pairwise (· ≤ ·)
  le : ∀ stamp ∈ stamps, stamp ≤ epoch

namespace Stamped

variable [PartialOrder τ] {stamps : List τ} {epoch later : τ}

theorem nil (epoch : τ) : Stamped [] epoch :=
  ⟨List.Pairwise.nil, fun _ h => absurd h List.not_mem_nil⟩

/-- The epoch is raised. -/
theorem advance (h : Stamped stamps epoch) (hle : epoch ≤ later) : Stamped stamps later :=
  ⟨h.sorted, fun stamp hstamp => (h.le stamp hstamp).trans hle⟩

/-- A thing is stamped. -/
theorem stamp (h : Stamped stamps epoch) : Stamped (stamps ++ [epoch]) epoch where
  sorted := by
    refine List.pairwise_append.mpr ⟨h.sorted, List.pairwise_singleton _ _, ?_⟩
    intro earlier hearlier last hlast
    rw [List.mem_singleton.mp hlast]
    exact h.le earlier hearlier
  le := by
    intro stamp hstamp
    rcases List.mem_append.mp hstamp with hearlier | hlast
    · exact h.le stamp hearlier
    · exact (List.mem_singleton.mp hlast).le

/-- The last stamp is the largest. -/
theorem le_getLast? (h : Stamped stamps epoch) {last : τ} (hlast : stamps.getLast? = some last) :
    ∀ stamp ∈ stamps, stamp ≤ last := by
  obtain ⟨earlier, rfl⟩ := List.getLast?_eq_some_iff.mp hlast
  intro stamp hstamp
  rcases List.mem_append.mp hstamp with hearlier | hmem
  · exact (List.pairwise_append.mp h.sorted).2.2 stamp hearlier last (List.mem_singleton_self _)
  · exact (List.mem_singleton.mp hmem).le

/-- **A new stamp is different** exactly when the epoch was raised since the last one. -/
theorem nodup_concat (h : Stamped stamps epoch) (hnodup : stamps.Nodup) :
    (stamps ++ [epoch]).Nodup ↔ ∀ last, stamps.getLast? = some last → last < epoch := by
  rw [List.nodup_append_comm, List.singleton_append, List.nodup_cons]
  constructor
  · rintro ⟨hnew, _⟩ last hlast
    have hmem : last ∈ stamps := List.mem_of_getLast? hlast
    exact lt_of_le_of_ne (h.le last hmem) (fun heq => hnew (heq ▸ hmem))
  · refine fun hraised => ⟨fun hmem => ?_, hnodup⟩
    have hne : stamps ≠ [] := List.ne_nil_of_mem hmem
    have hlast : stamps.getLast? = some (stamps.getLast hne) := List.getLast?_eq_some_getLast hne
    exact absurd (h.le_getLast? hlast epoch hmem) (hraised _ hlast).not_ge

/-- Every stamp but the last is behind the epoch. -/
theorem lt_of_mem_dropLast (h : Stamped stamps epoch) (hnodup : stamps.Nodup) {stamp : τ}
    (hstamp : stamp ∈ stamps.dropLast) : stamp < epoch := by
  have hne : stamps ≠ [] := fun hnil => by
    rw [hnil] at hstamp
    exact List.not_mem_nil hstamp
  have hsplit : stamps.dropLast ++ [stamps.getLast hne] = stamps :=
    List.dropLast_append_getLast hne
  have hlast : stamps.getLast hne ≤ epoch := h.le _ (List.getLast_mem hne)
  have hsorted := h.sorted
  rw [← hsplit] at hsorted hnodup
  have hle : stamp ≤ stamps.getLast hne :=
    (List.pairwise_append.mp hsorted).2.2 stamp hstamp _ (List.mem_singleton_self _)
  have hdiffer : stamp ≠ stamps.getLast hne := fun heq =>
    (List.nodup_append.mp hnodup).2.2 stamp hstamp _ (List.mem_singleton_self _) heq
  exact lt_of_lt_of_le (lt_of_le_of_ne hle hdiffer) hlast

end Stamped

end LiandanluNative.Lib
