/-
# LiandanluNative.Lib.Backlog — working through a log from stale lists.

A log grows at its end and is worked off from its front: its first `done` items are finished.  A
worker holds a list of items it read some time ago.  Since then the log may have grown and other
workers may have finished some of these items, or all of them; what remains true is that the list is
a run of consecutive items that starts no later than the first unfinished one (`Behind`).  Whoever
takes the next item of such a list meets either a finished item or exactly the first unfinished one
(`Behind.uncons`), so no worker can ever leave a gap.
-/
import Mathlib.Data.List.Basic

namespace LiandanluNative.Lib

variable {α : Type}

/-- A test that, once passed along the log, is passed from there on, keeps an end of the log. -/
theorem exists_append_filter {log : List α} {p : α → Bool}
    (hmono : log.Pairwise (fun a b => p a = true → p b = true)) :
    ∃ before, log = before ++ log.filter p ∧ ∀ a ∈ before, p a = false := by
  induction log with
  | nil => exact ⟨[], rfl, by simp⟩
  | cons a log ih =>
      obtain ⟨hhead, htail⟩ := List.pairwise_cons.mp hmono
      obtain ⟨before, hlog, hbefore⟩ := ih htail
      cases ha : p a with
      | true =>
          have hall : log.filter p = log := List.filter_eq_self.mpr (fun b hb => hhead b hb ha)
          exact ⟨[], by simp only [List.filter_cons, ha, if_true, hall, List.nil_append], by simp⟩
      | false =>
          refine ⟨a :: before, ?_, ?_⟩
          · simp only [List.filter_cons, ha, Bool.false_eq_true, if_false, List.cons_append]
            exact congrArg (a :: ·) hlog
          · intro b hb
            rcases List.mem_cons.mp hb with rfl | hb
            · exact ha
            · exact hbefore b hb

/-- `pending` is a run of consecutive items of `log` that starts within or right after the first
`done` of them. -/
def Behind (log : List α) (done : ℕ) (pending : List α) : Prop :=
  ∃ before rest, log = before ++ (pending ++ rest) ∧ before.length ≤ done

namespace Behind

variable {log pending : List α} {done : ℕ}

theorem nil : Behind log done [] := ⟨[], log, rfl, Nat.zero_le _⟩

/-- What a worker reads from a position it knows to be finished. -/
theorem read {start : ℕ} (h : start ≤ done) (n : ℕ) : Behind log done ((log.drop start).take n) := by
  refine ⟨log.take start, (log.drop start).drop n, ?_, ?_⟩
  · rw [List.take_append_drop, List.take_append_drop]
  · exact Nat.le_trans (List.length_take_le _ _) h

theorem readAll {start : ℕ} (h : start ≤ done) : Behind log done (log.drop start) := by
  have hall : Behind log done ((log.drop start).take (log.drop start).length) := read h _
  rwa [List.take_length] at hall

/-- A prefix of the list is still such a list. -/
theorem take (h : Behind log done pending) (n : ℕ) : Behind log done (pending.take n) := by
  obtain ⟨before, rest, rfl, hlen⟩ := h
  refine ⟨before, pending.drop n ++ rest, ?_, hlen⟩
  rw [← List.append_assoc (pending.take n), List.take_append_drop]

/-- The log grows. -/
theorem grow (h : Behind log done pending) (more : List α) : Behind (log ++ more) done pending := by
  obtain ⟨before, rest, rfl, hlen⟩ := h
  exact ⟨before, rest ++ more, by simp only [List.append_assoc], hlen⟩

/-- Others finish items. -/
theorem mono (h : Behind log done pending) {done' : ℕ} (hle : done ≤ done') :
    Behind log done' pending := by
  obtain ⟨before, rest, hlog, hlen⟩ := h
  exact ⟨before, rest, hlog, Nat.le_trans hlen hle⟩

/-- What is pending is in the log. -/
theorem mem_log {x : α} (h : Behind log done (x :: pending)) : x ∈ log := by
  obtain ⟨before, rest, hlog, _⟩ := h
  rw [hlog]
  exact List.mem_append_right _ List.mem_cons_self

/-- **No gap**: the next item is finished, or is the first unfinished one. -/
theorem uncons {x : α} (h : Behind log done (x :: pending)) :
    ((∃ i, i < done ∧ log[i]? = some x) ∧ Behind log done pending) ∨
    (log[done]? = some x ∧ Behind log (done + 1) pending) := by
  obtain ⟨before, rest, rfl, hlen⟩ := h
  have hx : (before ++ (x :: pending ++ rest))[before.length]? = some x := by
    rw [List.getElem?_append_right (Nat.le_refl _), Nat.sub_self]
    rfl
  have hnext : ∀ n, before.length < n → Behind (before ++ (x :: pending ++ rest)) n pending := by
    intro n hn
    refine ⟨before ++ [x], rest, by simp, ?_⟩
    rw [List.length_append, List.length_singleton]
    exact hn
  rcases Nat.lt_or_eq_of_le hlen with hlt | heq
  · exact Or.inl ⟨⟨before.length, hlt, hx⟩, hnext _ hlt⟩
  · exact Or.inr ⟨heq ▸ hx, hnext _ (Nat.lt_succ_of_le hlen)⟩

/-- A worker may also read by such a test. -/
theorem filter {p : α → Bool} (hmono : log.Pairwise (fun a b => p a = true → p b = true))
    (hrest : ∀ a ∈ log.drop done, p a = true) : Behind log done (log.filter p) := by
  obtain ⟨before, hlog, hbefore⟩ := exists_append_filter hmono
  refine ⟨before, [], by rw [List.append_nil]; exact hlog, ?_⟩
  by_contra hlen
  have hlt : done < before.length := Nat.lt_of_not_le hlen
  have hmem : before[done] ∈ log.drop done := by
    rw [hlog, List.drop_append_of_le_length (Nat.le_of_lt hlt)]
    refine List.mem_append_left _ ?_
    rw [List.drop_eq_getElem_cons hlt]
    exact List.mem_cons_self
  have hfalse := hbefore _ (List.getElem_mem hlt)
  rw [hrest _ hmem] at hfalse
  cases hfalse

end Behind

end LiandanluNative.Lib
