/-
# LiandanluNative.Lib.Splits — a run that is made by one of two others.

A program is run with checks put in at some of its steps, which let it go on or cut it short.  With
one set of checks and with the opposite one it is two programs, and where the program itself returns,
a step that is checked lets one of the two go on.  If a run meets one checked step at most, one of
the two is the run (`Splits`).

The results are of two kinds.  Of a result that is `free` no checked step was met, so both runs are
the run; of one that is `cut` one was, and one of them is.  The rules follow the program: up to the
checked step everything is `same`, the step itself is `checked`, and what follows it is the same
again (`bind`).

Nothing here names a program.
-/
import LiandanluNative.Lib.Proc

namespace LiandanluNative.Lib.Proc

variable {ε σ α β : Type}

/-- Where `m` returns something `free`, both others do, and where it returns something `cut`, one of
them does. -/
def Splits (free cut : α → Prop) (m m₁ m₂ : EStateM ε σ α) : Prop :=
  ∀ s a t, m s = .ok a t →
    (free a → m₁ s = .ok a t ∧ m₂ s = .ok a t) ∧ (cut a → m₁ s = .ok a t ∨ m₂ s = .ok a t)

namespace Splits

variable {free cut : α → Prop} {free' cut' : β → Prop} {m m₁ m₂ : EStateM ε σ α}

theorem same : Splits free cut m m m :=
  fun _ _ _ hrun => ⟨fun _ => ⟨hrun, hrun⟩, fun _ => Or.inl hrun⟩

/-- A step that is checked, after one that is not. -/
theorem checked {first : EStateM ε σ Unit} {check₁ check₂ : EStateM ε σ Unit} {rest : EStateM ε σ α}
    (hone : ∀ a, cut a → ∀ u, check₁ u = .ok () u ∨ check₂ u = .ok () u) :
    Splits (fun _ => False) cut (first >>= fun _ => rest)
      (first >>= fun _ => check₁ >>= fun _ => rest)
      (first >>= fun _ => check₂ >>= fun _ => rest) := by
  intro s a t hrun
  refine ⟨False.elim, fun ha => ?_⟩
  obtain ⟨⟨⟩, u, hfirst, hrest⟩ := bind_eq_ok.mp hrun
  rcases hone a ha u with hpassed | hpassed
  · exact Or.inl (bind_eq_ok.mpr ⟨_, u, hfirst, bind_eq_ok.mpr ⟨_, u, hpassed, hrest⟩⟩)
  · exact Or.inr (bind_eq_ok.mpr ⟨_, u, hfirst, bind_eq_ok.mpr ⟨_, u, hpassed, hrest⟩⟩)

/-- **One after the other.** What follows a free result may be checked, and what follows another is
the same and comes to nothing free. -/
theorem bind (free cut : α → Prop) {x x₁ x₂ : EStateM ε σ α} {f f₁ f₂ : α → EStateM ε σ β}
    (hx : Splits free cut x x₁ x₂)
    (hfree : ∀ a, free a → Splits free' cut' (f a) (f₁ a) (f₂ a))
    (hcut : ∀ a, ¬ free a → f₁ a = f a ∧ f₂ a = f a ∧
      ∀ s b t, f a s = .ok b t → ¬ free' b ∧ (cut' b → cut a)) :
    Splits free' cut' (x >>= f) (x₁ >>= f₁) (x₂ >>= f₂) := by
  intro s b t hrun
  obtain ⟨a, u, hxs, hfs⟩ := bind_eq_ok.mp hrun
  obtain ⟨hboth, hone⟩ := hx s a u hxs
  by_cases ha : free a
  · obtain ⟨h₁, h₂⟩ := hboth ha
    obtain ⟨hboth', hone'⟩ := hfree a ha u b t hfs
    refine ⟨fun hb => ?_, fun hb => ?_⟩
    · exact ⟨bind_eq_ok.mpr ⟨a, u, h₁, (hboth' hb).1⟩, bind_eq_ok.mpr ⟨a, u, h₂, (hboth' hb).2⟩⟩
    · exact (hone' hb).imp (fun h => bind_eq_ok.mpr ⟨a, u, h₁, h⟩)
        (fun h => bind_eq_ok.mpr ⟨a, u, h₂, h⟩)
  · obtain ⟨hf₁, hf₂, hresult⟩ := hcut a ha
    obtain ⟨hnot, hb⟩ := hresult u b t hfs
    refine ⟨fun hfree' => absurd hfree' hnot, fun hcut' => ?_⟩
    refine (hone (hb hcut')).imp (fun h₁ => ?_) (fun h₂ => ?_)
    · exact bind_eq_ok.mpr ⟨a, u, h₁, hf₁ ▸ hfs⟩
    · exact bind_eq_ok.mpr ⟨a, u, h₂, hf₂ ▸ hfs⟩

/-- After a step that is not checked. -/
theorem bind_same {x : EStateM ε σ α} {f f₁ f₂ : α → EStateM ε σ β}
    (hf : ∀ a, Splits free' cut' (f a) (f₁ a) (f₂ a)) :
    Splits free' cut' (x >>= f) (x >>= f₁) (x >>= f₂) :=
  bind (fun _ => True) (fun _ => True) same (fun a _ => hf a) (fun _ hnot => absurd trivial hnot)

/-- A checked step, and what it leads to. -/
theorem followed {x x₁ x₂ : EStateM ε σ Unit} {f : Unit → EStateM ε σ β}
    (hx : Splits (fun _ => False) (fun _ => True) x x₁ x₂)
    (hf : ∀ s b t, f () s = .ok b t → ¬ free' b) :
    Splits free' cut' (x >>= f) (x₁ >>= f) (x₂ >>= f) :=
  bind _ _ hx (fun _ hfree => hfree.elim)
    (fun _ _ => ⟨rfl, rfl, fun s b t hrun => ⟨hf s b t hrun, fun _ => trivial⟩⟩)

/-- A handler that is checked, for a body that is not. -/
theorem handling {handler handler₁ handler₂ : ε → EStateM ε σ α}
    (h : ∀ e, Splits free cut (handler e) (handler₁ e) (handler₂ e)) :
    Splits free cut (Proc.handling m handler) (Proc.handling m handler₁)
      (Proc.handling m handler₂) := by
  intro s a t hrun
  cases hm : m s with
  | ok a' t' =>
      have hsame : ∀ {k : ε → EStateM ε σ α}, Proc.handling m k s = .ok a' t' := by
        intro k
        simp only [Proc.handling, hm]
      cases hsame.symm.trans hrun
      exact ⟨fun _ => ⟨hsame, hsame⟩, fun _ => Or.inl hsame⟩
  | error e u =>
      have hraised : ∀ {k : ε → EStateM ε σ α}, Proc.handling m k s = k e u := by
        intro k
        simp only [Proc.handling, hm]
      rw [hraised] at hrun
      rw [hraised, hraised]
      exact h e u a t hrun

/-- A cleanup that is not checked. -/
theorem ensuring {skips : ε → Bool} {cleanup : EStateM ε σ Unit} (h : Splits free cut m m₁ m₂) :
    Splits free cut (Proc.ensuring skips m cleanup) (Proc.ensuring skips m₁ cleanup)
      (Proc.ensuring skips m₂ cleanup) := by
  intro s a t hrun
  have hreturned : ∀ {k : EStateM ε σ α} {b : α} {u : σ}, k s = .ok b u →
      Proc.ensuring skips k cleanup s = (cleanup >>= fun _ => pure b) u := by
    intro k b u hk
    simp only [Proc.ensuring, hk]
  cases hm : m s with
  | ok b u =>
      rw [hreturned hm] at hrun
      have hsame : b = a := by
        obtain ⟨⟨⟩, v, -, hpure⟩ := bind_eq_ok.mp hrun
        cases hpure
        rfl
      obtain ⟨hboth, hone⟩ := h s b u hm
      rw [hsame] at hboth hone hrun
      have hgoes : ∀ {k : EStateM ε σ α}, k s = .ok a u →
          Proc.ensuring skips k cleanup s = .ok a t := fun hk => (hreturned hk).trans hrun
      exact ⟨fun ha => ⟨hgoes (hboth ha).1, hgoes (hboth ha).2⟩,
        fun ha => (hone ha).imp hgoes hgoes⟩
  | error e u =>
      exfalso
      simp only [Proc.ensuring, hm] at hrun
      split at hrun
      · cases hrun
      · obtain ⟨⟨⟩, v, -, hthrow⟩ := bind_eq_ok.mp hrun
        cases hthrow

end Splits

end LiandanluNative.Lib.Proc
