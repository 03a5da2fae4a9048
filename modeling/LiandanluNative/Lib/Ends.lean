/-
# LiandanluNative.Lib.Ends — what a run ends in, by how it ends.

`after` forgets whether a run returned.  Where it matters, `Ends Q E m s` says that a run of `m`
from `s` that returns ends in `Q`, and one that raises in `E`.  There is one rule for each way of
building a computation, so a statement about a method is taken apart along its body.  `OnlyRaises`
is about the fault alone, and its rules are equivalences.

`Upholds` is the case of an invariant that one kind of fault may break: what is `fatal` leaves only
the part of the invariant that survives it.

Nothing here names a program.

A fact about how a method ends is proved by one pass over its body, and used by its callers through
`Ends.bind`: what the callee returns into is where the caller goes on, and what it raises into is
where the caller raises, unless it handles it.
-/
import LiandanluNative.Lib.Proc

namespace LiandanluNative.Lib.Proc

variable {ε σ α β : Type}

/-- A run of `m` from `s` returns into `Q`, or raises into `E`. -/
structure Ends (Q : α → σ → Prop) (E : ε → σ → Prop) (m : EStateM ε σ α) (s : σ) : Prop where
  returned : ∀ {a t}, m s = .ok a t → Q a t
  raised : ∀ {e t}, m s = .error e t → E e t

namespace Ends

variable {Q Q' : α → σ → Prop} {E E' : ε → σ → Prop} {m : EStateM ε σ α} {s : σ}

/-- What a run ends in may be said more weakly. -/
theorem mono (h : Ends Q E m s) (hQ : ∀ a t, Q a t → Q' a t) (hE : ∀ e t, E e t → E' e t) :
    Ends Q' E' m s :=
  ⟨fun hrun => hQ _ _ (h.returned hrun), fun hrun => hE _ _ (h.raised hrun)⟩

/-- A run that is known to return. -/
theorem of_ok {a : α} {t : σ} (hrun : m s = .ok a t) (h : Q a t) : Ends Q E m s := by
  refine ⟨fun hrun' => ?_, fun hrun' => ?_⟩
  · rw [hrun] at hrun'
    cases hrun'
    exact h
  · rw [hrun] at hrun'
    cases hrun'

/-- A run that is known to raise. -/
theorem of_error {e : ε} {t : σ} (hrun : m s = .error e t) (h : E e t) : Ends Q E m s := by
  refine ⟨fun hrun' => ?_, fun hrun' => ?_⟩
  · rw [hrun] at hrun'
    cases hrun'
  · rw [hrun] at hrun'
    cases hrun'
    exact h

theorem pure {a : α} (h : Q a s) : Ends Q E (Pure.pure a : EStateM ε σ α) s := of_ok rfl h

theorem throw {e : ε} (h : E e s) : Ends Q E (MonadExcept.throw e : EStateM ε σ α) s :=
  of_error rfl h

theorem get {Q : σ → σ → Prop} (h : Q s s) : Ends Q E (MonadState.get : EStateM ε σ σ) s :=
  of_ok rfl h

theorem modifying {Q : PUnit → σ → Prop} {f : σ → σ} (h : Q ⟨⟩ (f s)) :
    Ends Q E (modify f : EStateM ε σ PUnit) s :=
  of_ok rfl h

theorem bind {Q : β → σ → Prop} {f : α → EStateM ε σ β}
    (h : Ends (fun a t => Ends Q E (f a) t) E m s) : Ends Q E (m >>= f) s := by
  cases hrun : m s with
  | ok a t =>
      have hf := h.returned hrun
      have heq : (m >>= f) s = f a t := by
        simp only [Bind.bind, EStateM.bind, hrun]
      refine ⟨fun h' => hf.returned (heq.symm.trans h'), fun h' => hf.raised (heq.symm.trans h')⟩
  | error e t => exact of_error (after_bind_error hrun) (h.raised hrun)

/-- What `m` returns into is given. -/
theorem bind_with (R : α → σ → Prop) {Q : β → σ → Prop} {f : α → EStateM ε σ β} (hm : Ends R E m s)
    (hf : ∀ a t, R a t → Ends Q E (f a) t) : Ends Q E (m >>= f) s :=
  bind (hm.mono hf (fun _ _ ht => ht))

theorem handling {handler : ε → EStateM ε σ α}
    (h : Ends Q (fun e t => Ends Q E (handler e) t) m s) : Ends Q E (handling m handler) s := by
  cases hrun : m s with
  | ok a t => exact of_ok (by simp only [Proc.handling, hrun]) (h.returned hrun)
  | error e t =>
      have hf := h.raised hrun
      have heq : Proc.handling m handler s = handler e t := by simp only [Proc.handling, hrun]
      refine ⟨fun h' => hf.returned (heq.symm.trans h'), fun h' => hf.raised (heq.symm.trans h')⟩

/-- The cleanup runs after a return and after a fault that is not skipped. -/
theorem ensuring {skips : ε → Bool} {cleanup : EStateM ε σ Unit}
    (h : Ends (fun a t => Ends (fun _ u => Q a u) E cleanup t)
      (fun e t => (skips e = true → E e t) ∧
        (skips e = false → Ends (fun _ u => E e u) E cleanup t)) m s) :
    Ends Q E (ensuring skips m cleanup) s := by
  cases hrun : m s with
  | ok a t =>
      have hclean : Ends Q E (cleanup >>= fun _ => (Pure.pure a : EStateM ε σ α)) t :=
        bind ((h.returned hrun).mono (fun _ _ hQ => pure hQ) (fun _ _ hE => hE))
      have heq : Proc.ensuring skips m cleanup s
          = (cleanup >>= fun _ => (Pure.pure a : EStateM ε σ α)) t := by
        simp only [Proc.ensuring, hrun]
      exact ⟨fun h' => hclean.returned (heq.symm.trans h'),
        fun h' => hclean.raised (heq.symm.trans h')⟩
  | error e t =>
      obtain ⟨hskip, hrest⟩ := h.raised hrun
      cases hs : skips e with
      | true =>
          exact of_error (by simp only [Proc.ensuring, hrun, hs, if_true]) (hskip hs)
      | false =>
          have hclean : Ends Q E (cleanup >>= fun _ => (MonadExcept.throw e : EStateM ε σ α)) t :=
            bind ((hrest hs).mono (fun _ _ hE => throw hE) (fun _ _ hE => hE))
          have heq : Proc.ensuring skips m cleanup s
              = (cleanup >>= fun _ => (MonadExcept.throw e : EStateM ε σ α)) t := by
            simp only [Proc.ensuring, hrun, hs, Bool.false_eq_true, if_false]
          exact ⟨fun h' => hclean.returned (heq.symm.trans h'),
            fun h' => hclean.raised (heq.symm.trans h')⟩

/-- What holds however the body ends, and is kept by the cleanup. -/
theorem ensuring_kept {I : σ → Prop} {skips : ε → Bool} {cleanup : EStateM ε σ Unit}
    (h : Ends (fun _ t => I t) (fun _ t => I t) m s)
    (hclean : ∀ t, I t → Ends (fun _ u => I u) (fun _ u => I u) cleanup t) :
    Ends (fun _ t => I t) (fun _ t => I t) (Proc.ensuring skips m cleanup) s :=
  ensuring (h.mono (fun _ t ht => hclean t ht) (fun _ t ht => ⟨fun _ => ht, fun _ => hclean t ht⟩))

/-- Two facts about the ends of one run. -/
theorem and (h : Ends Q E m s) (h' : Ends Q' E' m s) :
    Ends (fun a t => Q a t ∧ Q' a t) (fun e t => E e t ∧ E' e t) m s :=
  ⟨fun hrun => ⟨h.returned hrun, h'.returned hrun⟩, fun hrun => ⟨h.raised hrun, h'.raised hrun⟩⟩

/-- What holds however a run ends holds of the state it leaves. -/
theorem after {P : σ → Prop} (h : Ends (fun _ t => P t) (fun _ t => P t) m s) : P (after m s) := by
  cases hrun : m s with
  | ok a t =>
      rw [after_of_ok hrun]
      exact h.returned hrun
  | error e t =>
      rw [after_of_error hrun]
      exact h.raised hrun

/-- And the other way round. -/
theorem of_after {P : σ → Prop} (h : P (Proc.after m s)) :
    Ends (fun _ t => P t) (fun _ t => P t) m s := by
  refine ⟨fun hrun => ?_, fun hrun => ?_⟩
  · rwa [after_of_ok hrun] at h
  · rwa [after_of_error hrun] at h

end Ends

/-! ## What a run may raise

Only the fault is asked about, and in exchange the rules are equivalences: a run raises nothing but
an `E` exactly if each of its parts does, from where it starts.
-/

/-- What a run of `m` from `s` raises, if it raises, is an `E`. -/
def OnlyRaises (E : ε → Prop) (m : EStateM ε σ α) (s : σ) : Prop := ∀ e t, m s = .error e t → E e

section

variable {E : ε → Prop} {m : EStateM ε σ α} {s : σ}

/-- A run that returns raises nothing. -/
theorem onlyRaises_of_ok {a : α} {t : σ} (hrun : m s = .ok a t) : OnlyRaises E m s := by
  intro e u hrun'
  cases hrun.symm.trans hrun'

/-- A run that is known to raise. -/
theorem onlyRaises_of_error {e : ε} {t : σ} (hrun : m s = .error e t) :
    OnlyRaises E m s ↔ E e := by
  refine ⟨fun h => h e t hrun, fun he e' t' hrun' => ?_⟩
  cases hrun.symm.trans hrun'
  exact he

/-- Where a run ends in tells what it raises. -/
theorem Ends.onlyRaises {Q : α → σ → Prop} {R : ε → σ → Prop} (h : Ends Q R m s)
    (hR : ∀ e t, R e t → E e) : OnlyRaises E m s := fun _ _ hrun => hR _ _ (h.raised hrun)

/-- Each step raises an `E` only. -/
theorem onlyRaises_bind {f : α → EStateM ε σ β} :
    OnlyRaises E (m >>= f) s ↔
      OnlyRaises E m s ∧ ∀ a t, m s = .ok a t → OnlyRaises E (f a) t := by
  cases hrun : m s with
  | ok a t =>
      have heq : (m >>= f) s = f a t := by simp only [Bind.bind, EStateM.bind, hrun]
      rw [OnlyRaises, heq]
      constructor
      · intro h
        refine ⟨onlyRaises_of_ok hrun, fun a' t' hsame => ?_⟩
        cases hsame
        exact h
      · exact fun h => h.2 a t rfl
  | error e t =>
      rw [onlyRaises_of_error (after_bind_error hrun), onlyRaises_of_error hrun]
      refine ⟨fun h => ⟨h, fun _ _ hreturned => ?_⟩, fun h => h.1⟩
      cases hreturned

/-- What a handled computation raises, its handler raised. -/
theorem onlyRaises_handling {handler : ε → EStateM ε σ α} :
    OnlyRaises E (handling m handler) s ↔
      ∀ e t, m s = .error e t → OnlyRaises E (handler e) t := by
  cases hrun : m s with
  | ok a t =>
      refine ⟨fun _ _ _ hraised => ?_, fun _ => onlyRaises_of_ok (a := a) (t := t) ?_⟩
      · cases hraised
      · simp only [handling, hrun]
  | error e t =>
      have heq : handling m handler s = handler e t := by simp only [handling, hrun]
      rw [OnlyRaises, heq]
      refine ⟨fun h e' t' hsame => ?_, fun h => h e t rfl⟩
      cases hsame
      exact h

end

/-! ## Invariants that a fault may break

A process that ends in the middle of a method leaves less than one that returns or raises.  Which
faults are fatal is a parameter, and so is what they leave.
-/

/-- What is left of an invariant `I` after a fault: all of it, or only `D` if the fault is fatal. -/
def Spared (fatal : ε → Bool) (I D : σ → Prop) (e : ε) (t : σ) : Prop :=
  if fatal e then D t else I t

/-- Every run of `m` keeps the invariant `I`, or leaves `D` where a fatal fault ended it. -/
def Upholds (fatal : ε → Bool) (I D : σ → Prop) (m : EStateM ε σ α) : Prop :=
  ∀ s, I s → Ends (fun _ t => I t) (Spared fatal I D) m s

section

variable {fatal : ε → Bool} {I D : σ → Prop}

/-- What is left depends on which kind of fault it was. -/
theorem spared_of {e : ε} {t : σ} (hI : fatal e = false → I t) (hD : fatal e = true → D t) :
    Spared fatal I D e t := by
  unfold Spared
  cases hfatal : fatal e with
  | true => exact hD hfatal
  | false => exact hI hfatal

namespace Upholds

theorem pure (a : α) : Upholds fatal I D (Pure.pure a : EStateM ε σ α) :=
  fun _ h => Ends.pure h

theorem get : Upholds fatal I D (MonadState.get : EStateM ε σ σ) := fun _ h => Ends.get h

theorem throw {e : ε} (hfatal : fatal e = false) :
    Upholds fatal I D (MonadExcept.throw e : EStateM ε σ α) := by
  refine fun _ h => Ends.throw (spared_of (fun _ => h) (fun hf => ?_))
  rw [hfatal] at hf
  cases hf

theorem modifying {f : σ → σ} (h : ∀ s, I s → I (f s)) :
    Upholds fatal I D (modify f : EStateM ε σ PUnit) :=
  fun s hs => Ends.modifying (h s hs)

theorem bind {m : EStateM ε σ α} {f : α → EStateM ε σ β} (hm : Upholds fatal I D m)
    (hf : ∀ a, Upholds fatal I D (f a)) : Upholds fatal I D (m >>= f) :=
  fun s hs => Ends.bind ((hm s hs).mono (fun a t ht => hf a t ht) (fun _ _ ht => ht))

/-- One run, and a cleanup that keeps the invariant. -/
theorem ensuring_at {m : EStateM ε σ α} {cleanup : EStateM ε σ Unit} {s : σ}
    (hm : Ends (fun _ t => I t) (Spared fatal I D) m s) (hclean : Upholds fatal I D cleanup) :
    Ends (fun _ t => I t) (Spared fatal I D) (Proc.ensuring fatal m cleanup) s := by
  refine Ends.ensuring (hm.mono (fun a t ht => hclean t ht) (fun e t ht => ?_))
  refine ⟨fun _ => ht, fun hfatal => ?_⟩
  unfold Spared at ht
  rw [hfatal] at ht
  refine (hclean t ht).mono (fun _ _ hu => spared_of (fun _ => hu) (fun hf => ?_)) (fun _ _ hu => hu)
  rw [hfatal] at hf
  cases hf

end Upholds

end

end LiandanluNative.Lib.Proc
