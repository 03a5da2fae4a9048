/-
# LiandanluNative.Lib.Reading — reading a given number of items from a source of chunks.

A source gives at each call some items of those asked for: one at least, and none that was not asked
for (`Chunk`).  Reading goes on until all of them are there.  Whatever the chunks are, it reads what
lies ahead and no more (`readExactly_of_ahead`), and where less lies ahead than is wanted it takes
what there is and fails as the source fails (`readExactly_of_short`).

Nothing here names a program.
-/
import LiandanluNative.Lib.Proc
import Mathlib.Data.List.Basic

namespace LiandanluNative.Lib

variable {ε σ α β : Type}

/-- Some of `n` items, one at least. -/
abbrev Chunk (α : Type) (n : ℕ) : Type := { chunk : List α // chunk ≠ [] ∧ chunk.length ≤ n }

/-- The loop: what is still to be read, and what was read. Every chunk makes `remaining` smaller, so
that as many rounds as there are items suffice. -/
def readLoop (read : (n : ℕ) → EStateM ε σ (Chunk α n)) : ℕ → ℕ → List α → EStateM ε σ (List α)
  | 0, _, received => pure received
  | rounds + 1, remaining, received =>
      if remaining = 0 then pure received
      else do
        let chunk ← read remaining
        readLoop read rounds (remaining - chunk.val.length) (received ++ chunk.val)

/-- Read `count` items. -/
def readExactly (read : (n : ℕ) → EStateM ε σ (Chunk α n)) (count : ℕ) : EStateM ε σ (List α) :=
  readLoop read count count []

/-- A source of which it is known what lies ahead: it gives some of that, and leaves the rest and
`others` as they are. -/
structure Delivers (read : (n : ℕ) → EStateM ε σ (Chunk α n)) (ahead : σ → List α)
    (others : σ → β) : Prop where
  some : ∀ {s n}, 0 < n → ahead s ≠ [] → ∃ chunk t, read n s = .ok chunk t ∧
    ahead s = chunk.val ++ ahead t ∧ others t = others s

variable {read : (n : ℕ) → EStateM ε σ (Chunk α n)} {ahead : σ → List α} {others : σ → β}

theorem readLoop_of_ahead (h : Delivers read ahead others) :
    ∀ {rounds remaining s} (received : List α) {xs later : List α}, xs.length = remaining →
      remaining ≤ rounds → ahead s = xs ++ later →
      ∃ t, readLoop read rounds remaining received s = .ok (received ++ xs) t ∧ ahead t = later ∧
        others t = others s := by
  intro rounds
  induction rounds with
  | zero =>
      intro remaining s received xs later hlength hrounds hahead
      obtain rfl := Nat.le_zero.mp hrounds
      obtain rfl := List.eq_nil_of_length_eq_zero hlength
      refine ⟨s, ?_, hahead, rfl⟩
      rw [List.append_nil]
      rfl
  | succ rounds ih =>
      intro remaining s received xs later hlength hrounds hahead
      rw [readLoop]
      by_cases hzero : remaining = 0
      · subst hzero
        obtain rfl := List.eq_nil_of_length_eq_zero hlength
        refine ⟨s, ?_, hahead, rfl⟩
        rw [if_pos rfl, List.append_nil]
        rfl
      have hne : ahead s ≠ [] := by
        rw [hahead]
        refine List.append_ne_nil_of_left_ne_nil (fun hxs => hzero ?_) _
        rw [← hlength, hxs, List.length_nil]
      obtain ⟨chunk, t, hread, hchunk, hothers⟩ := h.some (Nat.pos_of_ne_zero hzero) hne
      -- the chunk is the beginning of what is wanted
      obtain ⟨rest, rfl⟩ : ∃ rest, xs = chunk.val ++ rest := by
        have hprefix := List.prefix_of_prefix_length_le ⟨ahead t, hchunk.symm⟩ ⟨later, hahead.symm⟩
          (by rw [hlength]; exact chunk.property.2)
        exact hprefix.imp (fun _ h => h.symm)
      have hrest : ahead t = rest ++ later := by
        rw [hahead, List.append_assoc] at hchunk
        exact (List.append_cancel_left hchunk).symm
      have hsome := List.length_pos_of_ne_nil chunk.property.1
      rw [List.length_append] at hlength
      obtain ⟨u, hrun, hahead', hothers'⟩ :=
        ih (received ++ chunk.val) (show rest.length = remaining - chunk.val.length by omega)
          (by omega) hrest
      refine ⟨u, ?_, hahead', hothers'.trans hothers⟩
      rw [if_neg hzero]
      simp only [bind, EStateM.bind, hread]
      rw [hrun, List.append_assoc]

/-- **Reading what lies ahead**, however it is cut into chunks. -/
theorem readExactly_of_ahead (h : Delivers read ahead others) {s : σ} {xs later : List α}
    (hahead : ahead s = xs ++ later) :
    ∃ t, readExactly read xs.length s = .ok xs t ∧ ahead t = later ∧ others t = others s :=
  readLoop_of_ahead h [] rfl (Nat.le_refl _) hahead

theorem readLoop_of_short (h : Delivers read ahead others) {E : ε → Prop}
    (hfails : ∀ {s n}, 0 < n → ahead s = [] →
      ∃ e t, read n s = .error e t ∧ E e ∧ ahead t = [] ∧ others t = others s) :
    ∀ {rounds s} (remaining) (received : List α), remaining ≤ rounds →
      (ahead s).length < remaining →
      ∃ e t, readLoop read rounds remaining received s = .error e t ∧ E e ∧ ahead t = [] ∧
        others t = others s := by
  intro rounds
  induction rounds with
  | zero => exact fun remaining received hrounds hshort => absurd hshort (by omega)
  | succ rounds ih =>
      intro s remaining received hrounds hshort
      rw [readLoop]
      have hpos : 0 < remaining := Nat.zero_lt_of_lt hshort
      -- either the source fails at once, or it gives some more of what is too little
      by_cases hnone : ahead s = []
      · obtain ⟨e, t, hread, he, hahead, hothers⟩ := hfails hpos hnone
        refine ⟨e, t, ?_, he, hahead, hothers⟩
        rw [if_neg (Nat.ne_of_gt hpos)]
        exact Proc.after_bind_error hread
      obtain ⟨chunk, t, hread, hchunk, hothers⟩ := h.some hpos hnone
      have hsome := List.length_pos_of_ne_nil chunk.property.1
      rw [hchunk, List.length_append] at hshort
      obtain ⟨e, u, hrun, he, hahead, hothers'⟩ :=
        ih (s := t) (remaining - chunk.val.length) (received ++ chunk.val) (by omega) (by omega)
      refine ⟨e, u, ?_, he, hahead, hothers'.trans hothers⟩
      rw [if_neg (Nat.ne_of_gt hpos)]
      simp only [bind, EStateM.bind, hread]
      exact hrun

/-- **Reading more than lies ahead** fails as the source does with nothing ahead. -/
theorem readExactly_of_short (h : Delivers read ahead others) {E : ε → Prop}
    (hfails : ∀ {s n}, 0 < n → ahead s = [] →
      ∃ e t, read n s = .error e t ∧ E e ∧ ahead t = [] ∧ others t = others s)
    {s : σ} {count : ℕ} (hshort : (ahead s).length < count) :
    ∃ e t, readExactly read count s = .error e t ∧ E e ∧ ahead t = [] ∧ others t = others s :=
  readLoop_of_short h hfails count [] (Nat.le_refl _) hshort

/-- A run of the loop only raises what the source raises. -/
theorem readLoop_raises {E : ε → Prop} (hread : ∀ {n s e t}, read n s = .error e t → E e) :
    ∀ {rounds remaining s e t} {received : List α},
      readLoop read rounds remaining received s = .error e t → E e := by
  intro rounds
  induction rounds with
  | zero =>
      intro remaining s e t received hrun
      cases hrun
  | succ rounds ih =>
      intro remaining s e t received hrun
      rw [readLoop] at hrun
      split at hrun
      · cases hrun
      · simp only [bind, EStateM.bind] at hrun
        split at hrun
        · exact ih hrun
        · rename_i e' u hfail
          cases hrun
          exact hread hfail

theorem readExactly_raises {E : ε → Prop} (hread : ∀ {n s e t}, read n s = .error e t → E e)
    {count : ℕ} {s t : σ} {e : ε} (hrun : readExactly read count s = .error e t) : E e :=
  readLoop_raises hread hrun

/-- What each chunk leaves inside a frame, the loop does. -/
theorem within_readLoop {R : σ → σ → Prop} (hR : Proc.Frame R)
    (hread : ∀ n, Proc.Within R (read n)) :
    ∀ rounds remaining received, Proc.Within R (readLoop read rounds remaining received) := by
  intro rounds
  induction rounds with
  | zero => exact fun _ received => hR.pure received
  | succ rounds ih =>
      intro remaining received
      rw [readLoop]
      split
      · exact hR.pure received
      · exact hR.bind (hread remaining) (fun chunk => ih _ _)

theorem within_readExactly {R : σ → σ → Prop} (hR : Proc.Frame R)
    (hread : ∀ n, Proc.Within R (read n)) (count : ℕ) : Proc.Within R (readExactly read count) :=
  within_readLoop hR hread count count []

end LiandanluNative.Lib
