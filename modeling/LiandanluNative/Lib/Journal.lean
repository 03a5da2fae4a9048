/-
# LiandanluNative.Lib.Journal — records that are told by a journal.

A journal is a list of entries, each about one record or about none.  An account (`Account`) says
what an entry makes of what was told of its record before; an entry that does not fit gives nothing,
and ends the story.  `Tells` is that every record is what the entries about it tell, in order, and
that of a record there is none of nothing is told: then the journal is enough to rebuild all of them.

Whoever appends an entry with each change of a record keeps `Tells` (`Tells.append`), whatever the
entries about other records are.

Nothing here names a program.
-/
import Mathlib.Data.List.Basic

namespace LiandanluNative.Lib

/-- Which record an entry is about, and what it makes of what was told before. -/
structure Account (ε κ ν : Type) where
  about : ε → Option κ
  start : ν
  apply : ν → ε → Option ν

namespace Account

variable {ε κ ν : Type} (A : Account ε κ ν)

/-- One entry after the other, from what is known. -/
def replay : ν → List ε → Option ν
  | v, [] => some v
  | v, e :: entries => (A.apply v e).bind (fun w => replay w entries)

theorem replay_append {A : Account ε κ ν} (v : ν) (before later : List ε) :
    A.replay v (before ++ later) = (A.replay v before).bind (fun w => A.replay w later) := by
  induction before generalizing v with
  | nil => rfl
  | cons e before ih =>
      show (A.apply v e).bind (fun w => A.replay w (before ++ later)) = _
      simp only [ih]
      exact (Option.bind_assoc _ _ _).symm

variable [DecidableEq κ]

/-- The entries about one record. -/
def entries (journal : List ε) (k : κ) : List ε :=
  journal.filter (fun e => decide (A.about e = some k))

/-- What the journal tells of one record. -/
def told (journal : List ε) (k : κ) : Option ν := A.replay A.start (A.entries journal k)

/-- Every record is what the journal tells, and nothing is told of the others. -/
structure Tells (journal : List ε) (records : κ → Option ν) : Prop where
  told : ∀ k v, records k = some v → A.told journal k = some v
  silent : ∀ k, records k = none → A.entries journal k = []

variable {A}

@[simp] theorem entries_append (before later : List ε) (k : κ) :
    A.entries (before ++ later) k = A.entries before k ++ A.entries later k :=
  List.filter_append ..

theorem entries_of_about {e : ε} {k : κ} (h : A.about e = some k) : A.entries [e] k = [e] := by
  simp [entries, h]

theorem entries_of_other {e : ε} {k : κ} (h : A.about e ≠ some k) : A.entries [e] k = [] := by
  simp [entries, h]

/-- Entries about nothing tell nothing. -/
theorem told_append_of_other {journal : List ε} {e : ε} {k : κ} (h : A.about e ≠ some k) :
    A.told (journal ++ [e]) k = A.told journal k := by
  rw [told, entries_append, entries_of_other h, List.append_nil, told]

/-- An entry about a record adds to what is told of it. -/
theorem told_append_of_about {journal : List ε} {e : ε} {k : κ} (h : A.about e = some k) :
    A.told (journal ++ [e]) k = (A.told journal k).bind (fun v => A.apply v e) := by
  rw [told, entries_append, entries_of_about h, replay_append, told]
  refine congrArg (Option.bind _) (funext (fun v => ?_))
  simp only [replay]
  exact Option.bind_fun_some _

namespace Tells

variable {journal : List ε} {records records' : κ → Option ν}

theorem nil : A.Tells [] (fun _ => none) where
  told _ _ h := nomatch h
  silent _ _ := rfl

theorem congr (h : A.Tells journal records) (heq : ∀ k, records' k = records k) :
    A.Tells journal records' where
  told k v hk := h.told k v ((heq k).symm.trans hk)
  silent k hk := h.silent k ((heq k).symm.trans hk)

/-- An entry about nobody. -/
theorem aside (h : A.Tells journal records) {e : ε} (hnone : A.about e = none) :
    A.Tells (journal ++ [e]) records where
  told k v hk := by
    rw [told_append_of_other (by simp [hnone])]
    exact h.told k v hk
  silent k hk := by
    rw [entries_append, h.silent k hk, entries_of_other (by simp [hnone])]
    rfl

/-- **A record is changed, or made, and the entry says so.** -/
theorem append (h : A.Tells journal records) {e : ε} {k : κ} {v : ν} (habout : A.about e = some k)
    (hnew : records' k = some v) (hothers : ∀ j, j ≠ k → records' j = records j)
    (hchanged : ∀ old, records k = some old → A.apply old e = some v)
    (hmade : records k = none → A.apply A.start e = some v) :
    A.Tells (journal ++ [e]) records' where
  told j w hj := by
    by_cases hjk : j = k
    · subst hjk
      rw [told_append_of_about habout]
      cases hnew.symm.trans hj
      cases hold : records j with
      | some old =>
          rw [h.told j old hold]
          exact hchanged old hold
      | none =>
          rw [Account.told, h.silent j hold]
          exact hmade hold
    · have hne : A.about e ≠ some j := fun heq => hjk (Option.some.inj (heq.symm.trans habout))
      rw [told_append_of_other hne]
      exact h.told j w ((hothers j hjk).symm.trans hj)
  silent j hj := by
    have hjk : j ≠ k := by
      rintro rfl
      cases hnew.symm.trans hj
    have hne : A.about e ≠ some j := fun heq => hjk (Option.some.inj (heq.symm.trans habout))
    rw [entries_append, entries_of_other hne, h.silent j ((hothers j hjk).symm.trans hj)]
    rfl

end Tells

end Account

end LiandanluNative.Lib
