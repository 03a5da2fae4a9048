/-
# LiandanluNative.Lib.Unaware — computations that do not see a difference.

Let `R` relate states that differ in a part of them.  A computation is unaware of the difference if
from related states it comes to the same: the same answer or the same fault, in states that are
related again.  Every way of building a computation keeps it unaware, so it is proved once for each
primitive; where a computation reads the whole state, what it goes on with has to be the same for
both.

Nothing here names a program.
-/
import LiandanluNative.Lib.Proc

namespace LiandanluNative.Lib.Proc

variable {ε σ α β : Type}

/-- The same answer, or the same fault, in related states. -/
inductive SameResult (R : σ → σ → Prop) :
    EStateM.Result ε σ α → EStateM.Result ε σ α → Prop
  | returned (a : α) {s t : σ} (h : R s t) : SameResult R (.ok a s) (.ok a t)
  | raised (e : ε) {s t : σ} (h : R s t) : SameResult R (.error e s) (.error e t)

/-- From related states the computation comes to the same. -/
def Unaware (R : σ → σ → Prop) (m : EStateM ε σ α) : Prop :=
  ∀ s t, R s t → SameResult R (m s) (m t)

namespace Unaware

variable {R : σ → σ → Prop} {m : EStateM ε σ α}

protected theorem pure (a : α) : Unaware R (Pure.pure a : EStateM ε σ α) :=
  fun _ _ h => .returned a h

protected theorem throw (e : ε) : Unaware R (MonadExcept.throw e : EStateM ε σ α) :=
  fun _ _ h => .raised e h

theorem modifying {f : σ → σ} (hf : ∀ s t, R s t → R (f s) (f t)) :
    Unaware R (modify f : EStateM ε σ PUnit) := by
  intro s t h
  show SameResult R (.ok PUnit.unit (f s)) (.ok PUnit.unit (f t))
  exact .returned _ (hf s t h)

protected theorem bind {m : EStateM ε σ β} {f : β → EStateM ε σ α} (hm : Unaware R m)
    (hf : ∀ b, Unaware R (f b)) : Unaware R (m >>= f) := by
  intro s t h
  have hfirst := hm s t h
  simp only [Bind.bind, EStateM.bind]
  generalize m s = r, m t = r' at hfirst ⊢
  cases hfirst with
  | returned b h => exact hf b _ _ h
  | raised e h => exact .raised e h

/-- The whole state is read, but what is made of it is the same. -/
theorem get_bind {f : σ → EStateM ε σ α} (hf : ∀ s t, R s t → Unaware R (f s) ∧ f t = f s) :
    Unaware R (MonadState.get >>= f) := by
  intro s t h
  obtain ⟨hs, hsame⟩ := hf s t h
  show SameResult R (f s s) (f t t)
  rw [hsame]
  exact hs s t h

theorem handling {handler : ε → EStateM ε σ α} (hm : Unaware R m)
    (hhandler : ∀ e, Unaware R (handler e)) : Unaware R (handling m handler) := by
  intro s t h
  have hbody := hm s t h
  unfold Proc.handling
  generalize m s = r, m t = r' at hbody ⊢
  cases hbody with
  | returned a h => exact .returned a h
  | raised e h => exact hhandler e _ _ h

theorem ensuring {skips : ε → Bool} {cleanup : EStateM ε σ Unit} (hm : Unaware R m)
    (hcleanup : Unaware R cleanup) : Unaware R (ensuring skips m cleanup) := by
  intro s t h
  have hbody := hm s t h
  unfold Proc.ensuring
  generalize m s = r, m t = r' at hbody ⊢
  cases hbody with
  | returned a h => exact hcleanup.bind (fun _ => .pure a) _ _ h
  | raised e h =>
      dsimp only
      split
      · exact .raised e h
      · exact hcleanup.bind (fun _ => .throw e) _ _ h

/-- The states a computation leaves behind are related, however it ends. -/
theorem after (hm : Unaware R m) {s t : σ} (h : R s t) : R (after m s) (after m t) := by
  have hresult := hm s t h
  unfold Proc.after
  generalize m s = r, m t = r' at hresult ⊢
  cases hresult with
  | returned _ h => exact h
  | raised _ h => exact h

end Unaware

end LiandanluNative.Lib.Proc
