/-
# LiandanluNative.Safety.Referents — what a stack of referents remembers, and what it resolves to.

`push` takes an item out, puts it in front and cuts the list at its 32nd place, so the stack is the
beginning of all referents ever pushed, each at its last push (`Lib.Recency`).  `resolve` looks at
the two best scores of a stable sort; that is enough to know that the best is ahead of every other
(`Lib.Leading`), and the order among equal scores never matters.
-/
import LiandanluNative.Context
import LiandanluNative.Lib.Leading
import LiandanluNative.Lib.Recency

namespace LiandanluNative

namespace ReferentStack

/-- The stack after the pushes, from an empty one. -/
def pushAll (history : List Referent) : ReferentStack :=
  history.foldl (fun stack pushed => stack.push pushed.objectRef pushed.source pushed.score) {}

/-- A push is a bump of the items. -/
theorem push_items (stack : ReferentStack) (pushed : Referent) :
    (stack.push pushed.objectRef pushed.source pushed.score).items
      = Lib.bump Referent.objectRef 32 stack.items pushed := rfl

/-- **The items** are the beginning of what was pushed, each at its last push. -/
theorem pushAll_items (history : List Referent) :
    (pushAll history).items = (Lib.recent Referent.objectRef history).take 32 := by
  -- by induction on the pushes, for a stack that already has items
  have hfold : ∀ (pushes : List Referent) (stack : ReferentStack),
      (pushes.foldl (fun stack pushed => stack.push pushed.objectRef pushed.source pushed.score)
          stack).items
        = pushes.foldl (Lib.bump Referent.objectRef 32) stack.items := by
    intro pushes
    induction pushes with
    | nil => exact fun stack => rfl
    | cons pushed pushes ih =>
        intro stack
        rw [List.foldl_cons, List.foldl_cons, ih, push_items]
  rw [pushAll, hfold, ← Lib.foldl_bump]

/-- The referents of the items, in their order. -/
theorem pushAll_refs (history : List Referent) :
    (pushAll history).items.map Referent.objectRef
      = (history.map Referent.objectRef).dedup.reverse.take 32 := by
  rw [pushAll_items, List.map_take, Lib.map_recent]

theorem pushAll_nodup (history : List Referent) :
    ((pushAll history).items.map Referent.objectRef).Nodup := by
  rw [pushAll_refs]
  exact (List.take_sublist _ _).nodup (List.nodup_reverse.mpr (List.nodup_dedup _))

/-- Another item is an item of another referent. -/
theorem ne_iff_of_nodup {items : List Referent} (hrefs : (items.map Referent.objectRef).Nodup)
    {a b : Referent} (ha : a ∈ items) (hb : b ∈ items) : b ≠ a ↔ b.objectRef ≠ a.objectRef := by
  constructor
  · exact fun hne heq => hne (List.inj_on_of_nodup_map hrefs hb ha heq)
  · rintro hne rfl
    exact hne rfl

/-- What `resolve` returns leads the items, and its score is no less than the minimum. -/
theorem resolve_eq_some_iff {stack : ReferentStack}
    (hrefs : (stack.items.map Referent.objectRef).Nodup) (minimum : ℚ) {ambiguityGap : ℚ}
    (hgap : 0 < ambiguityGap) (ref : String) :
    stack.resolve minimum ambiguityGap = some ref ↔
      ∃ item, Lib.Leads Referent.score ambiguityGap stack.items item ∧ minimum ≤ item.score ∧
        item.objectRef = ref := by
  have hperm : stack.ranked.Perm stack.items := List.perm_insertionSort _ _
  have hsorted : stack.ranked.Pairwise (fun a b => b.score ≤ a.score) := by
    have htotal : Std.Total (fun a b : Referent => b.score ≤ a.score) :=
      ⟨fun a b => le_total b.score a.score⟩
    have htrans : IsTrans Referent (fun a b => b.score ≤ a.score) :=
      ⟨fun _ _ _ hab hbc => hbc.trans hab⟩
    exact List.pairwise_insertionSort _ _
  have hnodup : stack.ranked.Nodup := hperm.nodup_iff.mpr (List.Nodup.of_map _ hrefs)
  unfold resolve
  cases hranked : stack.ranked with
  | nil =>
      rw [hranked] at hperm
      rw [← hperm.nil_eq]
      refine iff_of_false nofun ?_
      rintro ⟨item, ⟨hmem, -⟩, -⟩
      exact absurd hmem List.not_mem_nil
  | cons first rest =>
      rw [hranked] at hperm hsorted hnodup
      -- only the first can lead, and it leads all if it leads the second
      have hleads : ∀ item, Lib.Leads Referent.score ambiguityGap stack.items item ↔
          item = first ∧ ∀ second ∈ rest.head?, second.score + ambiguityGap ≤ first.score := by
        intro item
        rw [← Lib.leads_iff_of_sorted hgap hsorted hnodup]
        exact ⟨fun h => h.perm hperm.symm, fun h => h.perm hperm⟩
      have hclear : rest.head?.any
            (fun second => decide (first.score - second.score < ambiguityGap)) = false ↔
          ∀ second ∈ rest.head?, second.score + ambiguityGap ≤ first.score := by
        cases rest.head? with
        | none => simp
        | some second => simp [le_sub_iff_add_le']
      simp only [hleads]
      by_cases hlow : first.score < minimum
      · rw [if_pos hlow]
        refine iff_of_false nofun ?_
        rintro ⟨item, ⟨rfl, -⟩, hminimum, -⟩
        exact absurd hminimum (not_le_of_gt hlow)
      rw [if_neg hlow]
      by_cases hsecond : ∀ second ∈ rest.head?, second.score + ambiguityGap ≤ first.score
      · rw [hclear.mpr hsecond, if_neg Bool.false_ne_true]
        constructor
        · rintro ⟨⟩
          exact ⟨first, ⟨rfl, hsecond⟩, not_lt.mp hlow, rfl⟩
        · rintro ⟨item, ⟨rfl, -⟩, -, rfl⟩
          rfl
      · rw [if_pos (Bool.eq_true_of_not_eq_false (mt hclear.mp hsecond))]
        refine iff_of_false nofun ?_
        rintro ⟨item, ⟨-, hahead⟩, -⟩
        exact hsecond hahead

/-- **Referents resolve only when they are unambiguous.** After any pushes, the items are of
different referents; they are the 32 that were pushed last, in the order of their last push, each as
it was pushed then; and `resolve` returns a referent exactly if its score is at least the minimum
and exceeds that of every other item by at least the gap. -/
theorem resolve_pushAll_iff (history : List Referent) :
    ((pushAll history).items.map Referent.objectRef).Nodup ∧
    (pushAll history).items.map Referent.objectRef
      = (history.map Referent.objectRef).dedup.reverse.take 32 ∧
    (∀ item ∈ (pushAll history).items, ∃ before later, history = before ++ item :: later ∧
      ∀ pushed ∈ later, pushed.objectRef ≠ item.objectRef) ∧
    ∀ minimum ambiguityGap : ℚ, 0 < ambiguityGap → ∀ ref,
      (pushAll history).resolve minimum ambiguityGap = some ref ↔
        ∃ item ∈ (pushAll history).items, item.objectRef = ref ∧ minimum ≤ item.score ∧
          ∀ other ∈ (pushAll history).items, other.objectRef ≠ ref →
            ambiguityGap ≤ item.score - other.score := by
  have hrefs := pushAll_nodup history
  refine ⟨hrefs, pushAll_refs history, fun item hitem => ?_, fun minimum ambiguityGap hgap ref => ?_⟩
  · rw [pushAll_items] at hitem
    exact Lib.last_of_mem_recent (List.take_subset _ _ hitem)
  · rw [resolve_eq_some_iff hrefs minimum hgap]
    constructor
    · rintro ⟨item, ⟨hitem, hahead⟩, hminimum, rfl⟩
      refine ⟨item, hitem, rfl, hminimum, fun other hother hne => ?_⟩
      exact le_sub_iff_add_le'.mpr
        (hahead other hother ((ne_iff_of_nodup hrefs hitem hother).mpr hne))
    · rintro ⟨item, hitem, rfl, hminimum, hahead⟩
      refine ⟨item, ⟨hitem, fun other hother hne => ?_⟩, hminimum, rfl⟩
      exact le_sub_iff_add_le'.mp
        (hahead other hother ((ne_iff_of_nodup hrefs hitem hother).mp hne))

/-- The document was pushed before the page, and is ahead of it by the default gap. -/
theorem resolve_pushAll_small :
    (pushAll [⟨"doc", "click", 1⟩, ⟨"page", "gaze", 1 / 2⟩]).resolve (17 / 20) (3 / 25)
      = some "doc" := by
  refine ((resolve_pushAll_iff _).2.2.2 (17 / 20) (3 / 25) (by decide +kernel) "doc").mpr ?_
  refine ⟨⟨"doc", "click", 1⟩, List.mem_cons_of_mem _ List.mem_cons_self, rfl, by decide +kernel, ?_⟩
  intro other hother hne
  rcases List.mem_cons.mp hother with rfl | hother
  · decide +kernel
  · exact absurd (congrArg Referent.objectRef (List.mem_singleton.mp hother)) hne

end ReferentStack

end LiandanluNative
