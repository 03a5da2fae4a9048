/-
# LiandanluNative.Lib.Fencing — what expiring leases put in order.

A lease that runs out while its holder is still at work does not stop the holder; the next holder
may have started already.  What stops the first one is the generation its ticket carries, checked
against the book where the work takes effect.  `Fenced b used b'` is what that check buys over any
stretch of a run, from a book `b` to a book `b'`: whatever takes effect does so in the order of the
generations, with one owner for each.  No assumption is made about clocks, or about when a slot is
granted anew.
-/
import LiandanluNative.Lib.Lease

namespace LiandanluNative.Lib.Lease

variable {κ ω τ : Type}

/-! ## The order of the grants of a key

Grants of one key are ordered by their generation; within one generation the owner stays the same.
-/

/-- Not an earlier grant: a later generation, or the same one of the same owner. -/
def Follows (a b : ω × Int) : Prop := a.2 < b.2 ∨ (b.2 = a.2 ∧ b.1 = a.1)

theorem Follows.refl (a : ω × Int) : Follows a a := Or.inr ⟨rfl, rfl⟩

theorem Follows.trans {a b c : ω × Int} (hab : Follows a b) (hbc : Follows b c) : Follows a c := by
  rcases hab with hab | ⟨hgen, howner⟩
  · rcases hbc with hbc | ⟨hgen, _⟩
    · exact Or.inl (hab.trans hbc)
    · exact Or.inl (hgen ▸ hab)
  · rcases hbc with hbc | ⟨hgen', howner'⟩
    · exact Or.inl (hgen ▸ hbc)
    · exact Or.inr ⟨hgen'.trans hgen, howner'.trans howner⟩

/-- Who holds the slot, under which generation. -/
def Slot.holder (s : Slot ω τ) : ω × Int := (s.owner, s.generation)

/-- Who a ticket says it is. -/
def Ticket.holder (i : Ticket κ ω) : ω × Int := (i.owner, i.generation)

/-- The second ticket is not for an earlier grant of the same key. -/
def Ticket.Precedes (i j : Ticket κ ω) : Prop := i.key = j.key → Follows i.holder j.holder

/-- No slot is gone, or was given back to an earlier holder. -/
def Book.Later (b b' : Book κ ω τ) : Prop :=
  ∀ k s, b k = some s → ∃ s', b' k = some s' ∧ Follows s.holder s'.holder

theorem Book.Later.refl (b : Book κ ω τ) : b.Later b := fun _ s hs => ⟨s, hs, .refl _⟩

theorem Book.Later.trans {a b c : Book κ ω τ} (hab : a.Later b) (hbc : b.Later c) : a.Later c := by
  intro k s hs
  obtain ⟨s', hs', hfollows⟩ := hab k s hs
  obtain ⟨s'', hs'', hfollows'⟩ := hbc k s' hs'
  exact ⟨s'', hs'', hfollows.trans hfollows'⟩

/-! ## Stretches of a run

A stretch is fenced if the tickets used in it are in order among themselves, after the holders at
its start and not after those at its end.  So two stretches can be joined without a look inside.
-/

/-- From the book `b` to the book `b'` the tickets `used` were put to use, in this order. -/
structure Fenced (b : Book κ ω τ) (used : List (Ticket κ ω)) (b' : Book κ ω τ) : Prop where
  later : b.Later b'
  /-- No ticket is used after one of a later grant. -/
  ordered : used.Pairwise Ticket.Precedes
  /-- A ticket of a grant that was superseded before is not used. -/
  current : ∀ i ∈ used, ∀ s, b i.key = some s → Follows s.holder i.holder
  /-- What was used was granted by then. -/
  granted : ∀ i ∈ used, ∃ s, b' i.key = some s ∧ Follows i.holder s.holder

namespace Fenced

variable {b b' b'' : Book κ ω τ} {used used' : List (Ticket κ ω)}

theorem still (h : b.Later b') : Fenced b [] b' where
  later := h
  ordered := .nil
  current _ hi := absurd hi List.not_mem_nil
  granted _ hi := absurd hi List.not_mem_nil

theorem refl (b : Book κ ω τ) : Fenced b [] b := .still (.refl b)

/-- A ticket is used while the book holds it. -/
theorem use {i : Ticket κ ω} (h : b.Holds i) : Fenced b [i] b where
  later := .refl b
  ordered := List.pairwise_singleton _ _
  current j hj s hs := by
    obtain ⟨held, hheld, howner, hgeneration⟩ := h
    rw [List.mem_singleton.mp hj] at hs ⊢
    rw [hheld, Option.some.injEq] at hs
    exact Or.inr ⟨hs ▸ hgeneration.symm, hs ▸ howner.symm⟩
  granted j hj := by
    obtain ⟨held, hheld, howner, hgeneration⟩ := h
    rw [List.mem_singleton.mp hj]
    exact ⟨held, hheld, Or.inr ⟨hgeneration, howner⟩⟩

/-- **Stretches compose.** What is used in the second one comes after the book between the two, and
that after what was used in the first. -/
theorem trans (h : Fenced b used b') (h' : Fenced b' used' b'') : Fenced b (used ++ used') b'' where
  later := h.later.trans h'.later
  ordered := by
    refine List.pairwise_append.mpr ⟨h.ordered, h'.ordered, fun i hi j hj hkey => ?_⟩
    obtain ⟨s, hs, hfollows⟩ := h.granted i hi
    exact hfollows.trans (h'.current j hj s (hkey ▸ hs))
  current i hi s hs := by
    rcases List.mem_append.mp hi with hi | hi
    · exact h.current i hi s hs
    · obtain ⟨s', hs', hfollows⟩ := h.later i.key s hs
      exact hfollows.trans (h'.current i hi s' hs')
  granted i hi := by
    rcases List.mem_append.mp hi with hi | hi
    · obtain ⟨s, hs, hfollows⟩ := h.granted i hi
      obtain ⟨s', hs', hfollows'⟩ := h'.later i.key s hs
      exact ⟨s', hs', hfollows.trans hfollows'⟩
    · exact h'.granted i hi

end Fenced

/-! ## Books kept in tables -/

section

variable [DecidableEq κ] {ν : Type} {key : ν → κ} {slot : ν → Slot ω τ} {t : Table key}

/-- A row is written over one of an earlier holder, or of the same. -/
theorem Book.later_put (v : ν)
    (h : ∀ w, t.get? (key v) = some w → Follows (slot w).holder (slot v).holder) :
    (Book.ofTable slot t).Later (Book.ofTable slot (t.put v)) := by
  intro k s hs
  rw [Book.ofTable_put]
  by_cases hk : k = key v
  · subst hk
    obtain ⟨w, hw, rfl⟩ := Book.ofTable_eq_some.mp hs
    exact ⟨slot v, Book.write_self _ _ _, h w hw⟩
  · exact ⟨s, (Book.write_ne _ _ hk).trans hs, .refl _⟩

end

end LiandanluNative.Lib.Lease
