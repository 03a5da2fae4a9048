/-
# LiandanluNative.Lib.Recency — a list of the latest items, one for each key.

An item that comes in goes to the front and takes the place of an older one with its key; a list of
bounded length then drops what is past its end.  `recent` is the list without a bound.  The bound is
no matter of what happens at the front: a bounded list is always the beginning of the unbounded one
(`foldl_bump`), although an item that was dropped is no longer there to be replaced.

Nothing here names a program.
-/
import Mathlib.Data.List.Dedup
import Mathlib.Data.List.Induction

namespace LiandanluNative.Lib

variable {α κ : Type} [DecidableEq κ] (key : α → κ)

/-- The item goes to the front. -/
def toFront (items : List α) (a : α) : List α := a :: items.filter (fun b => decide (key b ≠ key a))

/-- The same in a list of at most `n` items. -/
def bump (n : ℕ) (items : List α) (a : α) : List α := (toFront key items a).take n

/-- The items that came in, the latest first, and of each key the latest only. -/
def recent (history : List α) : List α := history.foldl (toFront key) []

variable {key}

theorem recent_concat (history : List α) (a : α) :
    recent key (history ++ [a]) = toFront key (recent key history) a := by
  rw [recent, List.foldl_append]
  rfl

/-! ## Which items they are

Each key is there once, at the place of its last coming, with the item that came then.
-/

/-- Of a list of keys, a last one replaces those before it. -/
theorem dedup_concat (keys : List κ) (k : κ) :
    (keys ++ [k]).dedup = keys.dedup.filter (fun j => decide (j ≠ k)) ++ [k] := by
  induction keys with
  | nil => rfl
  | cons j keys ih =>
      rw [List.cons_append]
      by_cases hmem : j ∈ keys
      · rw [List.dedup_cons_of_mem (List.mem_append_left _ hmem), List.dedup_cons_of_mem hmem, ih]
      · rw [List.dedup_cons_of_notMem hmem]
        by_cases hlast : j = k
        · have hin : j ∈ keys ++ [k] := List.mem_append_right _ (List.mem_singleton.mpr hlast)
          have hout : ¬ decide (j ≠ k) = true := by simpa using hlast
          rw [List.dedup_cons_of_mem hin, List.filter_cons, if_neg hout, ih]
        · have hnot : j ∉ keys ++ [k] := by
            rw [List.mem_append, List.mem_singleton, not_or]
            exact ⟨hmem, hlast⟩
          have hin : decide (j ≠ k) = true := decide_eq_true hlast
          rw [List.dedup_cons_of_notMem hnot, List.filter_cons, if_pos hin, ih, List.cons_append]

/-- **The keys** are those that came in, in the order of their last coming. -/
theorem map_recent (history : List α) :
    (recent key history).map key = (history.map key).dedup.reverse := by
  induction history using List.reverseRecOn with
  | nil => rfl
  | append_singleton history a ih =>
      have hfilter : ((recent key history).filter (fun b => decide (key b ≠ key a))).map key
          = ((recent key history).map key).filter (fun j => decide (j ≠ key a)) := by
        rw [List.filter_map]
        rfl
      rw [recent_concat, toFront, List.map_cons, hfilter, ih, List.map_append, List.map_singleton,
        dedup_concat, List.reverse_append, List.filter_reverse]
      rfl

theorem nodup_recent (history : List α) : ((recent key history).map key).Nodup := by
  rw [map_recent, List.nodup_reverse]
  exact List.nodup_dedup _

/-- **Each item** is the last that came in under its key. -/
theorem last_of_mem_recent {history : List α} {item : α} (h : item ∈ recent key history) :
    ∃ before later, history = before ++ item :: later ∧ ∀ b ∈ later, key b ≠ key item := by
  induction history using List.reverseRecOn with
  | nil => exact absurd h List.not_mem_nil
  | append_singleton history a ih =>
      rw [recent_concat, toFront, List.mem_cons] at h
      rcases h with rfl | h
      · exact ⟨history, [], rfl, fun b hb => absurd hb List.not_mem_nil⟩
      · obtain ⟨hold, hother⟩ := List.mem_filter.mp h
        have hne : key item ≠ key a := of_decide_eq_true hother
        obtain ⟨before, later, rfl, hlater⟩ := ih hold
        refine ⟨before, later ++ [a], by rw [List.append_assoc, List.cons_append], ?_⟩
        intro b hb
        rcases List.mem_append.mp hb with hb | hb
        · exact hlater b hb
        · rw [List.mem_singleton.mp hb]
          exact hne.symm

/-! ## The bound

An item that was dropped is no longer there to be replaced; still the front of the list is the same
with a bound and without.
-/

/-- A key is taken out of a list it occurs in once at most: the first `n` items of what is left are
among the first `n + 1`. -/
theorem take_filter_take {items : List α} (hkeys : (items.map key).Nodup) (k : κ) (n : ℕ) :
    ((items.take (n + 1)).filter (fun b => decide (key b ≠ k))).take n
      = (items.filter (fun b => decide (key b ≠ k))).take n := by
  induction items generalizing n with
  | nil => rfl
  | cons b items ih =>
      obtain ⟨hfirst, hrest⟩ := List.nodup_cons.mp hkeys
      rw [List.take_succ_cons]
      by_cases hk : key b = k
      · -- nothing else is taken out
        have hothers : ∀ c ∈ items, decide (key c ≠ k) = true := by
          intro c hc
          refine decide_eq_true (fun heq => hfirst ?_)
          rw [hk, ← heq]
          exact List.mem_map_of_mem hc
        have hout : ¬ decide (key b ≠ k) = true := by simpa using hk
        rw [List.filter_cons, if_neg hout, List.filter_cons, if_neg hout,
          List.filter_eq_self.mpr hothers,
          List.filter_eq_self.mpr (fun c hc => hothers c (List.take_subset n items hc)),
          List.take_take, Nat.min_self]
      · have hin : decide (key b ≠ k) = true := decide_eq_true hk
        rw [List.filter_cons, if_pos hin, List.filter_cons, if_pos hin]
        cases n with
        | zero => rfl
        | succ n => rw [List.take_succ_cons, List.take_succ_cons, ih hrest n]

/-- **A bounded list** holds the beginning of the unbounded one. -/
theorem foldl_bump (n : ℕ) (history : List α) :
    history.foldl (bump key n) [] = (recent key history).take n := by
  induction history using List.reverseRecOn with
  | nil => exact List.take_nil.symm
  | append_singleton history a ih =>
      rw [List.foldl_append, List.foldl_cons, List.foldl_nil, ih, recent_concat, bump, toFront,
        toFront]
      cases n with
      | zero => rfl
      | succ n =>
          rw [List.take_succ_cons, List.take_succ_cons, take_filter_take (nodup_recent history)]

end LiandanluNative.Lib
