/-
# LiandanluNative.Lib.Proc — reasoning about stateful computations that may raise.

A method of a running program changes its state as it goes, and an exception does not undo what
was changed before it: core's `EStateM` without backtracking is exactly that.  This file adds the
rules a verification needs and core does not state.  `after m s` is the state a run of `m` leaves
behind, *however* it ends.  A `Frame` is a preorder on states ("nothing but the clock moved",
"this invariant survived"), and `Within R m` says that every run of `m` stays inside `R`; it is
closed under every way of building a computation, so a frame is proved once per primitive.
`after_bind` takes a run apart at its first step when a fact about one particular run is wanted.

Nothing here names a program.
-/
import Mathlib.Init

namespace LiandanluNative.Lib.Proc

variable {ε σ α β γ : Type}

/-! ## The state a run leaves behind

`after` is the state that a run leaves, whether it returned or raised; there is an equation for each
way of building a computation.
-/

/-- The state a run ends in, whether it returned or raised. -/
def after (m : EStateM ε σ α) (s : σ) : σ :=
  match m s with
  | .ok _ t => t
  | .error _ t => t

theorem after_of_ok {m : EStateM ε σ α} {s t : σ} {a : α} (h : m s = .ok a t) :
    after m s = t := by
  simp only [after, h]

theorem after_of_error {m : EStateM ε σ α} {s t : σ} {e : ε} (h : m s = .error e t) :
    after m s = t := by
  simp only [after, h]

/-- What a run returns, or `none` where it raises. -/
def returns (m : EStateM ε σ α) (s : σ) : Option α :=
  match m s with
  | .ok a _ => some a
  | .error _ _ => none

theorem returns_eq_some {m : EStateM ε σ α} {s : σ} {a : α} :
    returns m s = some a ↔ ∃ t, m s = .ok a t := by
  unfold returns
  cases m s <;> simp

@[simp] theorem after_pure (a : α) (s : σ) : after (pure a : EStateM ε σ α) s = s := rfl

@[simp] theorem after_throw (e : ε) (s : σ) : after (throw e : EStateM ε σ α) s = s := rfl

@[simp] theorem after_get (s : σ) : after (get : EStateM ε σ σ) s = s := rfl

@[simp] theorem after_modify (f : σ → σ) (s : σ) :
    after (modify f : EStateM ε σ PUnit) s = f s := rfl

/-- A run of `m >>= f` that returns is a run of `m` that returns followed by one of `f`. -/
theorem bind_eq_ok {m : EStateM ε σ α} {f : α → EStateM ε σ β} {s u : σ} {b : β} :
    (m >>= f) s = .ok b u ↔ ∃ a t, m s = .ok a t ∧ f a t = .ok b u := by
  show EStateM.bind m f s = .ok b u ↔ _
  unfold EStateM.bind
  cases hm : m s with
  | ok a t =>
      constructor
      · intro h
        exact ⟨a, t, rfl, h⟩
      · rintro ⟨a', t', hat, h⟩
        cases hat
        exact h
  | error e t => simp

theorem after_bind_ok {m : EStateM ε σ α} {f : α → EStateM ε σ β} {s t : σ} {a : α}
    (h : m s = .ok a t) : after (m >>= f) s = after (f a) t := by
  show (match EStateM.bind m f s with
    | .ok _ u => u
    | .error _ u => u) = _
  unfold EStateM.bind
  rw [h]
  rfl

/-- Only the answer is changed. -/
theorem after_bind_pure (m : EStateM ε σ α) (f : α → β) (s : σ) :
    after (m >>= fun a => pure (f a)) s = after m s := by
  show (match EStateM.bind m (fun a => EStateM.pure (f a)) s with
    | .ok _ u => u
    | .error _ u => u) = _
  unfold EStateM.bind after
  cases m s <;> rfl

theorem after_bind_error {m : EStateM ε σ α} {f : α → EStateM ε σ β} {s t : σ} {e : ε}
    (h : m s = .error e t) : (m >>= f) s = .error e t := by
  simp only [bind, EStateM.bind, h]

/-- A fact about the end of `m >>= f` follows from the runs in which `m` raises and, for those in
which it returns, from the rest of the computation. -/
theorem after_bind {P : σ → Prop} {m : EStateM ε σ α} {f : α → EStateM ε σ β} {s : σ}
    (raised : ∀ e t, m s = .error e t → P t)
    (returned : ∀ a t, m s = .ok a t → P (after (f a) t)) : P (after (m >>= f) s) := by
  cases hm : m s with
  | ok a t =>
      rw [after_bind_ok hm]
      exact returned a t hm
  | error e t =>
      have hrun : (m >>= f) s = .error e t := by
        simp only [bind, EStateM.bind, hm]
      rw [after_of_error hrun]
      exact raised e t hm

/-! ## Handlers and cleanup

`try … except` and `try … finally`, in terms of the state at the end: a state monad with exceptions
keeps what was changed before the exception.
-/

/-- `try body except e: handler e`: the handler starts from the state the body raised in. -/
def handling (body : EStateM ε σ α) (handler : ε → EStateM ε σ α) : EStateM ε σ α := fun s =>
  match body s with
  | .ok a t => .ok a t
  | .error e t => handler e t

/-- `try body finally cleanup`, where the cleanup is skipped for the faults `skips` names (the ones
that end the process instead of unwinding it). -/
def ensuring (skips : ε → Bool) (body : EStateM ε σ α) (cleanup : EStateM ε σ Unit) :
    EStateM ε σ α := fun s =>
  match body s with
  | .ok a t => (cleanup >>= fun _ => pure a) t
  | .error e t => if skips e then .error e t else (cleanup >>= fun _ => throw e) t

theorem after_handling {P : σ → Prop} {body : EStateM ε σ α} {handler : ε → EStateM ε σ α}
    {s : σ} (returned : ∀ a t, body s = .ok a t → P t)
    (raised : ∀ e t, body s = .error e t → P (after (handler e) t)) :
    P (after (handling body handler) s) := by
  cases hb : body s with
  | ok a t =>
      have hrun : handling body handler s = .ok a t := by simp only [handling, hb]
      rw [after_of_ok hrun]
      exact returned a t hb
  | error e t =>
      have hrun : after (handling body handler) s = after (handler e) t := by
        simp only [after, handling, hb]
      rw [hrun]
      exact raised e t hb

/-- What holds at the end of the body and is kept by the cleanup holds at the end of the whole. -/
theorem after_ensuring {P : σ → Prop} {skips : ε → Bool} {body : EStateM ε σ α}
    {cleanup : EStateM ε σ Unit} {s : σ} (hbody : P (after body s))
    (hclean : ∀ t, P t → P (after cleanup t)) : P (after (ensuring skips body cleanup) s) := by
  cases hb : body s with
  | ok a t =>
      rw [after_of_ok hb] at hbody
      have hrun : after (ensuring skips body cleanup) s
          = after (cleanup >>= fun _ => (pure a : EStateM ε σ α)) t := by
        simp only [after, ensuring, hb]
      rw [hrun]
      refine after_bind (fun e u hu => ?_) (fun _ u hu => ?_)
      · simpa only [after_of_error hu] using hclean t hbody
      · simpa only [after_pure, after_of_ok hu] using hclean t hbody
  | error e t =>
      rw [after_of_error hb] at hbody
      by_cases hskip : skips e
      · have hrun : ensuring skips body cleanup s = .error e t := by
          simp only [ensuring, hb, hskip, if_true]
        rwa [after_of_error hrun]
      · have hrun : after (ensuring skips body cleanup) s
            = after (cleanup >>= fun _ => (throw e : EStateM ε σ α)) t := by
          simp only [after, ensuring, hb, hskip, Bool.false_eq_true, if_false]
        rw [hrun]
        refine after_bind (fun e' u hu => ?_) (fun _ u hu => ?_)
        · simpa only [after_of_error hu] using hclean t hbody
        · simpa only [after_throw, after_of_ok hu] using hclean t hbody

/-! ## Frames

A frame is a relation of states that is reflexive and transitive.  A computation stays within it if
its parts do, so a method is taken apart along its body with one rule for each construct.
-/

/-- A preorder on states: what a computation is allowed to do to them. -/
structure Frame (R : σ → σ → Prop) : Prop where
  refl : ∀ s, R s s
  trans : ∀ {s t u}, R s t → R t u → R s u

/-- Every run of `m`, returning or raising, stays inside `R`. -/
def Within (R : σ → σ → Prop) (m : EStateM ε σ α) : Prop := ∀ s, R s (after m s)

/-- The states agree on what `f` reads. -/
def Fixes (f : σ → β) (s t : σ) : Prop := f t = f s

/-- The invariant survives. -/
def Keeps (I : σ → Prop) (s t : σ) : Prop := I s → I t

theorem frame_fixes (f : σ → β) : Frame (Fixes f) where
  refl _ := rfl
  trans h₁ h₂ := h₂.trans h₁

theorem frame_keeps (I : σ → Prop) : Frame (Keeps I) where
  refl _ h := h
  trans h₁ h₂ h := h₂ (h₁ h)

theorem Within.mono {R R' : σ → σ → Prop} {m : EStateM ε σ α} (h : Within R m)
    (himp : ∀ s t, R s t → R' s t) : Within R' m :=
  fun s => himp s _ (h s)

section FrameRules

variable {R : σ → σ → Prop}

theorem Within.of_ok {m : EStateM ε σ α} (h : Within R m) {s t : σ} {a : α}
    (hrun : m s = .ok a t) : R s t := by
  have hs := h s
  rwa [after_of_ok hrun] at hs

theorem Within.of_error {m : EStateM ε σ α} (h : Within R m) {s t : σ} {e : ε}
    (hrun : m s = .error e t) : R s t := by
  have hs := h s
  rwa [after_of_error hrun] at hs

theorem Frame.pure (hR : Frame R) (a : α) : Within R (Pure.pure a : EStateM ε σ α) :=
  fun s => hR.refl s

theorem Frame.throw (hR : Frame R) (e : ε) :
    Within R (MonadExcept.throw e : EStateM ε σ α) :=
  fun s => hR.refl s

theorem Frame.get (hR : Frame R) : Within R (MonadState.get : EStateM ε σ σ) :=
  fun s => hR.refl s

theorem within_modify {f : σ → σ} (h : ∀ s, R s (f s)) :
    Within R (modify f : EStateM ε σ PUnit) := h

theorem Frame.bind (hR : Frame R) {m : EStateM ε σ α} {f : α → EStateM ε σ β}
    (hm : Within R m) (hf : ∀ a, Within R (f a)) : Within R (m >>= f) := by
  intro s
  refine after_bind (P := R s) (fun e t ht => hm.of_error ht) (fun a t ht => ?_)
  exact hR.trans (hm.of_ok ht) (hf a t)

/-- The rule for one run of `m >>= f`: the rest is only looked at from where `m` returned. -/
theorem Frame.bind_at (hR : Frame R) {m : EStateM ε σ α} {f : α → EStateM ε σ β} {s : σ}
    (hm : R s (after m s)) (hf : ∀ a t, m s = .ok a t → R t (after (f a) t)) :
    R s (after (m >>= f) s) := by
  refine after_bind (P := R s) (fun e t ht => ?_) (fun a t ht => ?_)
  · rwa [after_of_error ht] at hm
  · rw [after_of_ok ht] at hm
    exact hR.trans hm (hf a t ht)

/-- What follows `m` is all that lies between where `m` ends and where the whole does. -/
theorem Frame.bind_rest (hR : Frame R) {m : EStateM ε σ α} {f : α → EStateM ε σ β}
    (hf : ∀ a, Within R (f a)) (s : σ) : R (after m s) (after (m >>= f) s) := by
  refine after_bind (P := R (after m s)) (fun e t ht => ?_) (fun a t ht => ?_)
  · rw [after_of_error ht]
    exact hR.refl t
  · rw [after_of_ok ht]
    exact hf a t

theorem Frame.handling (hR : Frame R) {body : EStateM ε σ α} {handler : ε → EStateM ε σ α}
    (hb : Within R body) (hh : ∀ e, Within R (handler e)) :
    Within R (handling body handler) := by
  intro s
  refine after_handling (P := R s) (fun a t ht => hb.of_ok ht) (fun e t ht => ?_)
  exact hR.trans (hb.of_error ht) (hh e t)

theorem Frame.forM (hR : Frame R) {f : α → EStateM ε σ PUnit} (hf : ∀ a, Within R (f a)) :
    ∀ xs : List α, Within R (xs.forM f)
  | [] => hR.pure _
  | x :: xs => by
      simp only [List.forM_eq_forM, List.forM_cons]
      exact hR.bind (hf x) (fun _ => hR.forM hf xs)

end FrameRules

end LiandanluNative.Lib.Proc
