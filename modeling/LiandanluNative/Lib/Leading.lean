/-
# LiandanluNative.Lib.Leading — the item that is ahead of all others.

An item leads when its score exceeds every other score by a gap.  In the order of the scores that is
decided at the first two places: what is ahead of the second is ahead of all (`leads_iff_of_sorted`),
and nothing but the first can be.

Nothing here names a program.
-/
import Mathlib.Algebra.Order.Group.Defs
import Mathlib.Data.List.Perm.Basic

namespace LiandanluNative.Lib

variable {α β : Type} [AddCommGroup β] [LinearOrder β]

/-- The item is among the items, and ahead of every other by the gap. -/
def Leads (score : α → β) (gap : β) (items : List α) (a : α) : Prop :=
  a ∈ items ∧ ∀ b ∈ items, b ≠ a → score b + gap ≤ score a

variable {score : α → β} {gap : β} {items items' : List α} {a : α}

/-- The order of the items does not matter. -/
theorem Leads.perm (h : Leads score gap items a) (hperm : items.Perm items') :
    Leads score gap items' a :=
  ⟨hperm.subset h.1, fun b hb => h.2 b (hperm.symm.subset hb)⟩

variable [IsOrderedAddMonoid β]

/-- **In the order of the scores** the first item leads, if it is ahead of the second. -/
theorem leads_iff_of_sorted {first : α} {rest : List α} (hgap : 0 < gap)
    (hsorted : (first :: rest).Pairwise (fun b c => score c ≤ score b))
    (hnodup : (first :: rest).Nodup) :
    Leads score gap (first :: rest) a ↔
      a = first ∧ ∀ second ∈ rest.head?, score second + gap ≤ score first := by
  obtain ⟨hfirst, hrest⟩ := List.pairwise_cons.mp hsorted
  obtain ⟨hnew, -⟩ := List.nodup_cons.mp hnodup
  constructor
  · intro h
    have hsame : a = first := by
      by_contra hne
      have hin : a ∈ rest := (List.mem_cons.mp h.1).resolve_left hne
      have hahead : score first + gap ≤ score first :=
        (h.2 first List.mem_cons_self (Ne.symm hne)).trans (hfirst a hin)
      exact absurd hahead (not_le_of_gt (lt_add_of_pos_right _ hgap))
    subst hsame
    refine ⟨rfl, fun second hsecond => ?_⟩
    have hin : second ∈ rest := List.mem_of_mem_head? hsecond
    exact h.2 second (List.mem_cons_of_mem _ hin) (fun heq => hnew (heq ▸ hin))
  · rintro ⟨rfl, hsecond⟩
    refine ⟨List.mem_cons_self, fun b hb hne => ?_⟩
    have hin : b ∈ rest := (List.mem_cons.mp hb).resolve_left hne
    -- the second has the greatest score of the rest
    cases rest with
    | nil => exact absurd hin List.not_mem_nil
    | cons second rest =>
        have hle : score b ≤ score second := by
          rcases List.mem_cons.mp hin with rfl | hlater
          · exact le_rfl
          · exact (List.pairwise_cons.mp hrest).1 b hlater
        exact (add_le_add_left hle gap).trans (hsecond second rfl)

end LiandanluNative.Lib
