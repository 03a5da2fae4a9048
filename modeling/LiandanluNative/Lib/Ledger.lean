/-
# LiandanluNative.Lib.Ledger — what a log is to those who post to it and read it.

What is posted waits, is logged in order when it is flushed, and is numbered from one on without a
gap.  A reader reads what is numbered above its own position.  This is the purpose of a log; a
`Feed` that shows the same entries, with the same last number and positions, is read the same way
(`Shows.unread`).

Nothing here names a program.
-/
import LiandanluNative.Lib.Feed
import Mathlib.Data.List.Basic

namespace LiandanluNative.Lib

/-- The items with their numbers. -/
def numbered {α : Type} (log : List α) : List (ℤ × α) :=
  log.zipIdx.map (fun entry => ((entry.2 : ℤ) + 1, entry.1))

theorem numbered_concat {α : Type} (log : List α) (a : α) :
    numbered (log ++ [a]) = numbered log ++ [((log.length : ℤ) + 1, a)] := by
  simp [numbered, List.zipIdx_append]

theorem map_snd_numbered {α : Type} (log : List α) : (numbered log).map Prod.snd = log := by
  rw [numbered, List.map_map]
  exact List.zipIdx_map_fst 0 log

/-- What waits, what is logged, and how far each reader has read. -/
structure Ledger (κ α : Type) where
  waiting : List α := []
  log : List α := []
  position : κ → ℤ := fun _ => 0

namespace Ledger

variable {κ α : Type}

def post (L : Ledger κ α) (a : α) : Ledger κ α := { L with waiting := L.waiting ++ [a] }

def flush (L : Ledger κ α) : Ledger κ α := { L with waiting := [], log := L.log ++ L.waiting }

/-- A position is never moved back. -/
def acknowledge [DecidableEq κ] (L : Ledger κ α) (k : κ) (n : ℤ) : Ledger κ α :=
  { L with position := Function.update L.position k (max (L.position k) n) }

/-- What the reader has still to read. -/
def unread (L : Ledger κ α) (k : κ) : List (ℤ × α) :=
  (numbered L.log).filter (fun entry => decide (L.position k < entry.1))

/-- Who has acknowledged nothing reads everything. -/
theorem unread_of_zero {L : Ledger κ α} {k : κ} (h : L.position k = 0) :
    L.unread k = numbered L.log := by
  refine List.filter_eq_self.mpr (fun entry hentry => ?_)
  obtain ⟨item, _, rfl⟩ := List.mem_map.mp hentry
  rw [h, decide_eq_true_eq]
  omega

end Ledger

/-! ## Feeds -/

section

variable {κ α ε : Type} {number : ε → ℤ} {shown : ε → α}

/-- The feed has the log, the last number and the positions of the ledger. -/
structure Shows (number : ε → ℤ) (shown : ε → α) (F : Feed κ ε) (L : Ledger κ α) : Prop where
  items : F.items.map (fun e => (number e, shown e)) = numbered L.log
  last : F.last = L.log.length
  position : F.position = L.position

namespace Shows

variable {F G : Feed κ ε} {L : Ledger κ α}

/-- **Readers read the same.** -/
theorem unread (h : Shows number shown F L) (k : κ) :
    (F.unread number k).map (fun e => (number e, shown e)) = L.unread k := by
  rw [Ledger.unread, ← h.items, List.filter_map, ← h.position]
  rfl

theorem map_shown (h : Shows number shown F L) : F.items.map shown = L.log := by
  have hboth := congrArg (List.map Prod.snd) h.items
  rw [List.map_map, map_snd_numbered] at hboth
  exact hboth

/-- The next number, for one more item. -/
theorem concat (h : Shows number shown F L) {e : ε} (hitems : G.items = F.items ++ [e])
    (hnumber : number e = F.last + 1) (hlast : G.last = F.last + 1)
    (hposition : G.position = F.position) :
    Shows number shown G { L with log := L.log ++ [shown e] } where
  items := by
    rw [hitems, List.map_append, h.items, numbered_concat, List.map_singleton, hnumber, h.last]
  last := by
    rw [hlast, h.last, List.length_append, List.length_singleton]
    rfl
  position := hposition.trans h.position

/-- The last number is that of an item. -/
theorem exists_last (h : Shows number shown F L) :
    L.log = [] ∨ ∃ e ∈ F.items, number e = L.log.length := by
  rcases List.eq_nil_or_concat L.log with hempty | ⟨before, a, hlog⟩
  · exact Or.inl hempty
  · have hmem : ((before.length : ℤ) + 1, a) ∈ F.items.map (fun e => (number e, shown e)) := by
      rw [h.items, hlog, List.concat_eq_append, numbered_concat]
      exact List.mem_append_right _ (List.mem_singleton_self _)
    obtain ⟨e, he, heq⟩ := List.mem_map.mp hmem
    refine Or.inr ⟨e, he, (congrArg Prod.fst heq).trans ?_⟩
    rw [hlog, List.concat_eq_append, List.length_append, List.length_singleton]
    rfl

/-- What waits is not shown. -/
theorem posted (h : Shows number shown F L) (a : α) : Shows number shown F (L.post a) :=
  ⟨h.items, h.last, h.position⟩

/-- The position of one reader was moved on. -/
theorem acknowledged [DecidableEq κ] (h : Shows number shown F L) {k : κ} {n : ℤ}
    (hturns : F.Turns k G) (hmoved : G.position k = max (F.position k) n) :
    Shows number shown G (L.acknowledge k n) where
  items := (congrArg _ hturns.items).trans h.items
  last := hturns.last.trans h.last
  position := by
    funext j
    show G.position j = Function.update L.position k (max (L.position k) n) j
    by_cases hj : j = k
    · subst hj
      rw [hmoved, h.position, Function.update_self]
    · rw [hturns.others j hj, h.position, Function.update_of_ne hj]

end Shows

end

end LiandanluNative.Lib
