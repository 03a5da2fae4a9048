/-
# LiandanluNative.Lib.SortedBy — lists in the order of a key.

Sorting by a key that is different for different items has one result only, so a heap that is filled
item by item, a query with an `ORDER BY`, and a part of a larger sorted list agree as soon as they
have the same items.  The order is that of Mathlib's `insertionSort`.

Nothing here names a program.
-/
import Mathlib.Data.List.Sort
import Mathlib.Order.Basic

namespace LiandanluNative.Lib

variable {α κ : Type} {key : α → κ}

/-- No two items have one key. -/
def KeysDiffer (key : α → κ) (l : List α) : Prop := ∀ a ∈ l, ∀ b ∈ l, key a = key b → a = b

theorem KeysDiffer.sublist {l l' : List α} (h : KeysDiffer key l) (hl : l'.Sublist l) :
    KeysDiffer key l' :=
  fun a ha b hb => h a (hl.subset ha) b (hl.subset hb)

variable [LinearOrder κ]

/-- The list in the order of the key. -/
def sortedBy (key : α → κ) (l : List α) : List α := l.insertionSort (fun a b => key a ≤ key b)

instance total_key : Std.Total (fun a b : α => key a ≤ key b) :=
  ⟨fun a b => le_total (key a) (key b)⟩

instance trans_key : IsTrans α (fun a b => key a ≤ key b) := ⟨fun _ _ _ => le_trans⟩

theorem sortedBy_perm (key : α → κ) (l : List α) : (sortedBy key l).Perm l :=
  List.perm_insertionSort _ l

theorem mem_sortedBy {l : List α} {a : α} : a ∈ sortedBy key l ↔ a ∈ l :=
  (sortedBy_perm key l).mem_iff

theorem pairwise_sortedBy (key : α → κ) (l : List α) :
    (sortedBy key l).Pairwise (fun a b => key a ≤ key b) := List.pairwise_insertionSort _ l

/-- **There is one sorted list** of given items. -/
theorem eq_sortedBy {l l' : List α} (hkeys : KeysDiffer key l) (hperm : l'.Perm l)
    (hsorted : l'.Pairwise (fun a b => key a ≤ key b)) : l' = sortedBy key l := by
  have hp : l'.Perm (sortedBy key l) := hperm.trans (sortedBy_perm key l).symm
  refine hp.eq_of_pairwise (fun a b ha hb hab hba => ?_) hsorted (pairwise_sortedBy key l)
  exact hkeys a (hperm.subset ha) b (mem_sortedBy.mp hb) (le_antisymm hab hba)

/-- A part of a sorted list is sorted. -/
theorem filter_sortedBy {l : List α} (hkeys : KeysDiffer key l) (p : α → Bool) :
    (sortedBy key l).filter p = sortedBy key (l.filter p) :=
  eq_sortedBy (hkeys.sublist List.filter_sublist) ((sortedBy_perm key l).filter p)
    ((pairwise_sortedBy key l).filter p)

/-- Filling item by item is sorting. -/
theorem foldl_orderedInsert {l : List α} (hkeys : KeysDiffer key l) :
    l.foldl (fun sorted a => sorted.orderedInsert (fun a b => key a ≤ key b) a) []
      = sortedBy key l := by
  have hfill : ∀ l sorted : List α, sorted.Pairwise (fun a b => key a ≤ key b) →
      (l.foldl (fun sorted a => sorted.orderedInsert (fun a b => key a ≤ key b) a) sorted).Pairwise
          (fun a b => key a ≤ key b) ∧
        (l.foldl (fun sorted a => sorted.orderedInsert (fun a b => key a ≤ key b) a) sorted).Perm
          (l ++ sorted) := by
    intro l
    induction l with
    | nil => exact fun sorted h => ⟨h, .refl _⟩
    | cons a l ih =>
        intro sorted h
        obtain ⟨hpairwise, hperm⟩ := ih _ (h.orderedInsert a _)
        refine ⟨hpairwise, hperm.trans ?_⟩
        exact ((List.perm_orderedInsert _ a sorted).append_left l).trans List.perm_middle
  obtain ⟨hpairwise, hperm⟩ := hfill l [] List.Pairwise.nil
  rw [List.append_nil] at hperm
  exact eq_sortedBy hkeys hperm hpairwise

/-- Where one part comes before the rest, the list is the one and then the other. -/
theorem sortedBy_eq_append {l : List α} (hkeys : KeysDiffer key l) (p : α → Bool)
    (hfirst : ∀ a ∈ l, ∀ b ∈ l, p a = true → p b = false → key a ≤ key b) :
    sortedBy key l = sortedBy key (l.filter p) ++ sortedBy key (l.filter (fun a => !p a)) := by
  refine (eq_sortedBy hkeys ?_ ?_).symm
  · exact ((sortedBy_perm key _).append (sortedBy_perm key _)).trans (List.filter_append_perm p l)
  · refine List.pairwise_append.mpr ⟨pairwise_sortedBy key _, pairwise_sortedBy key _, ?_⟩
    intro a ha b hb
    obtain ⟨ha, hpa⟩ := List.mem_filter.mp (mem_sortedBy.mp ha)
    obtain ⟨hb, hpb⟩ := List.mem_filter.mp (mem_sortedBy.mp hb)
    exact hfirst a ha b hb hpa (by simpa using hpb)

end LiandanluNative.Lib
