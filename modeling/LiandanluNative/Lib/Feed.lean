/-
# LiandanluNative.Lib.Feed — a numbered log and the positions of its readers.

A feed is a log that grows at its end, where every new item is numbered above all numbers given so
far, and for each reader the number up to which it has read.  What a reader still has to read is
decided by its own position.  The positions and the log move independently, so a position may have
been set past the end of the log; `Since` is what a reader can count on until its position is moved
again, and `Since.mem_unread` says that a position within the log misses nothing that is added later.

Nothing here names a program.
-/
import LiandanluNative.Lib.Proc
import Mathlib.Data.List.Pairwise
import Mathlib.Algebra.Order.Group.Int

namespace LiandanluNative.Lib

open Proc

/-- The items, the greatest number given so far, and how far each reader has read. -/
structure Feed (κ α : Type) where
  items : List α
  last : ℤ
  position : κ → ℤ

namespace Feed

variable {κ α : Type} (number : α → ℤ)

/-- What the reader has still to read. -/
def unread (F : Feed κ α) (k : κ) : List α :=
  F.items.filter (fun a => decide (F.position k < number a))

/-- The items stand in the order of their numbers, and the last number is above none of them. -/
structure InOrder (F : Feed κ α) : Prop where
  increasing : F.items.Pairwise (fun a b => number a < number b)
  bound : ∀ a ∈ F.items, number a ≤ F.last

/-- Items were added, with new numbers, and no position moved. -/
structure Grows (F G : Feed κ α) : Prop where
  items : ∃ more, G.items = F.items ++ more ∧ ∀ a ∈ more, F.last < number a
  last : F.last ≤ G.last
  position : G.position = F.position

/-- The position of one reader moved, and nothing else. -/
structure Turns (k : κ) (F G : Feed κ α) : Prop where
  items : G.items = F.items
  last : G.last = F.last
  others : ∀ j, j ≠ k → G.position j = F.position j

/-- What a reader can count on as long as its own position is not moved: what was added since is
numbered above the log as it was. -/
structure Since (k : κ) (F G : Feed κ α) : Prop where
  added : ∀ a ∈ G.items, a ∈ F.items ∨ F.last < number a
  last : F.last ≤ G.last
  position : G.position k = F.position k

variable {number} {F G : Feed κ α} {k : κ}

theorem mem_unread {a : α} : a ∈ F.unread number k ↔ a ∈ F.items ∧ F.position k < number a := by
  simp only [unread, List.mem_filter, decide_eq_true_eq]

/-- A reader reads in the order of the numbers. -/
theorem InOrder.unread (h : F.InOrder number) (k : κ) :
    (F.unread number k).Pairwise (fun a b => number a < number b) :=
  h.increasing.filter _

/-! ## Moves -/

theorem frame_grows : Frame (Grows number : Feed κ α → Feed κ α → Prop) where
  refl _ := ⟨⟨[], (List.append_nil _).symm, fun _ h => absurd h List.not_mem_nil⟩, le_rfl, rfl⟩
  trans h₁ h₂ := by
    obtain ⟨more, hmore, hnew⟩ := h₁.items
    obtain ⟨later, hlater, hnewer⟩ := h₂.items
    refine ⟨⟨more ++ later, ?_, ?_⟩, h₁.last.trans h₂.last, h₂.position.trans h₁.position⟩
    · rw [hlater, hmore, List.append_assoc]
    · intro a ha
      rcases List.mem_append.mp ha with ha | ha
      · exact hnew a ha
      · exact h₁.last.trans_lt (hnewer a ha)

theorem Turns.refl (k : κ) (F : Feed κ α) : Turns k F F := ⟨rfl, rfl, fun _ _ => rfl⟩

/-- Another reader's turn is no matter of this one. -/
theorem Turns.unread_other (h : Turns k F G) {j : κ} (hj : j ≠ k) :
    G.unread number j = F.unread number j := by
  unfold Feed.unread
  rw [h.items, h.others j hj]

theorem frame_since (k : κ) : Frame (Since number k) where
  refl _ := ⟨fun _ h => Or.inl h, le_rfl, rfl⟩
  trans h₁ h₂ := by
    refine ⟨fun a ha => ?_, h₁.last.trans h₂.last, h₂.position.trans h₁.position⟩
    rcases h₂.added a ha with hold | hnew
    · exact h₁.added a hold
    · exact Or.inr (h₁.last.trans_lt hnew)

theorem Grows.since (h : Grows number F G) (k : κ) : Since number k F G := by
  obtain ⟨more, hitems, hmore⟩ := h.items
  refine ⟨fun a ha => ?_, h.last, congrFun h.position k⟩
  rw [hitems] at ha
  rcases List.mem_append.mp ha with hold | hnew
  · exact Or.inl hold
  · exact Or.inr (hmore a hnew)

theorem Turns.since (h : Turns k F G) {j : κ} (hj : j ≠ k) : Since number j F G where
  added _ ha := Or.inl (h.items ▸ ha)
  last := h.last.ge
  position := h.others j hj

/-! ## Nothing is missed -/

/-- **A position within the log misses nothing that is added later.** -/
theorem Since.mem_unread (h : Since number k F G) (hwithin : F.position k ≤ F.last) {a : α}
    (ha : a ∈ G.items) (hnew : a ∉ F.items) : a ∈ G.unread number k := by
  refine Feed.mem_unread.mpr ⟨ha, ?_⟩
  rw [h.position]
  rcases h.added a ha with hold | hafter
  · exact absurd hold hnew
  · exact hwithin.trans_lt hafter

/-- A position past the log misses the next item, if that has the next number. -/
theorem Since.not_mem_unread (h : Since number k F G) (hpast : F.last < F.position k) {a : α}
    (hnext : number a = F.last + 1) : a ∉ G.unread number k := by
  intro ha
  have hlt := (Feed.mem_unread.mp ha).2
  rw [h.position] at hlt
  omega

end Feed

end LiandanluNative.Lib
