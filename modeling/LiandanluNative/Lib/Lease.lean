/-
# LiandanluNative.Lib.Lease — expiring leases fenced by a generation.

A book holds at most one slot for each key: who was granted the key last, under which generation,
and until when.  A key is granted again only once its slot has run out, and the new slot carries the
next generation; a slot is renewed only by a ticket that names it and only before it runs out; a
release makes it run out at once (its expiry becomes zero, and time is never below zero).

`History` adds what has happened so far: the tickets granted, and the tickets that have *ended*
(their slot was seen run out, they were released, or their key was granted anew).  Two facts hold of
every reachable history, whoever acts in whatever order with whatever tickets: the generations
granted for a key are `1, 2, 3, …` (`Reachable.generations`), and an ended ticket never validates
again (`Reachable.ended_invalid`).

A program usually keeps the book as a table of rows.  `Kept` says that a table, with what was
granted from it and what is gone, is accounted for by a reachable history; it has one rule for each
thing a program may do to a row, and the two facts again in terms of rows.
-/
import LiandanluNative.Lib.Table
import Mathlib.Order.Lattice
import Mathlib.Data.List.Range
import Mathlib.Logic.Function.Basic
import Mathlib.Data.Int.Order.Basic

namespace LiandanluNative.Lib.Lease

variable {κ ω τ : Type}

/-! ## Books, tickets, histories

A book has the last grant of each key, with its holder and when it ends; a ticket is what a holder
was given.  A history adds what was granted, and which tickets are gone.
-/

/-- The last grant of a key. -/
structure Slot (ω τ : Type) where
  owner : ω
  generation : Int
  expires : τ

/-- What a holder presents. -/
structure Ticket (κ ω : Type) where
  key : κ
  owner : ω
  generation : Int

/-- The slot of each key, if it was ever granted. -/
abbrev Book (κ ω τ : Type) := κ → Option (Slot ω τ)

/-- The generation of a key's slot, zero before the first grant. -/
def Book.generation (b : Book κ ω τ) (k : κ) : Int :=
  match b k with
  | none => 0
  | some s => s.generation

/-- The ticket names slot `s`. -/
def Ticket.Names (i : Ticket κ ω) (s : Slot ω τ) : Prop :=
  s.owner = i.owner ∧ s.generation = i.generation

/-- The ticket names the slot of its key. -/
def Book.Holds (b : Book κ ω τ) (i : Ticket κ ω) : Prop := ∃ s, b i.key = some s ∧ i.Names s

/-- The ticket names the slot of its key, and the slot has not run out at `t`. -/
def Book.Valid [LT τ] (b : Book κ ω τ) (i : Ticket κ ω) (t : τ) : Prop :=
  ∃ s, b i.key = some s ∧ i.Names s ∧ t < s.expires

/-- A book together with what has happened to it. -/
structure History (κ ω τ : Type) where
  book : Book κ ω τ
  now : τ
  granted : List (Ticket κ ω)
  ended : Ticket κ ω → Prop

section

variable [DecidableEq κ] [LinearOrder τ] [Zero τ]

/-- Nothing granted yet. -/
def History.fresh : History κ ω τ where
  book := fun _ => none
  now := 0
  granted := []
  ended := fun _ => False

/-- Write one slot. -/
def Book.write (b : Book κ ω τ) (k : κ) (s : Slot ω τ) : Book κ ω τ :=
  Function.update b k (some s)

/-- Time passes to `t`; the slots that have run out by then end their tickets. -/
def History.wait (h : History κ ω τ) (t : τ) : History κ ω τ :=
  { h with
    now := t
    ended := fun i => h.ended i ∨ ∃ s, h.book i.key = some s ∧ i.Names s ∧ s.expires ≤ t }

/-- Grant a key under its next generation, which ends the tickets the key was granted before. -/
def History.grant (h : History κ ω τ) (k : κ) (o : ω) (until_ : τ) : History κ ω τ :=
  { h with
    book := h.book.write k ⟨o, h.book.generation k + 1, until_⟩
    granted := h.granted ++ [⟨k, o, h.book.generation k + 1⟩]
    ended := fun i => h.ended i ∨ (i ∈ h.granted ∧ i.key = k) }

/-- Move the expiry of the slot a ticket names. -/
def History.renew (h : History κ ω τ) (i : Ticket κ ω) (until_ : τ) : History κ ω τ :=
  { h with book := h.book.write i.key ⟨i.owner, i.generation, until_⟩ }

/-- Let the slot a ticket names run out. -/
def History.release (h : History κ ω τ) (i : Ticket κ ω) : History κ ω τ :=
  { h with
    book := h.book.write i.key ⟨i.owner, i.generation, 0⟩
    ended := fun j => h.ended j ∨ j = i }

/-- What may happen next, and under which guard. -/
inductive Step (h : History κ ω τ) : History κ ω τ → Prop
  | wait (t : τ) (later : h.now ≤ t) : Step h (h.wait t)
  | grant (k : κ) (o : ω) (until_ : τ) (free : ∀ s, h.book k = some s → s.expires ≤ h.now) :
      Step h (h.grant k o until_)
  | renew (i : Ticket κ ω) (until_ : τ) (valid : h.book.Valid i h.now) : Step h (h.renew i until_)
  | release (i : Ticket κ ω) (holds : h.book.Holds i) : Step h (h.release i)

/-- The histories of all runs from the fresh one. -/
inductive Reachable : History κ ω τ → Prop
  | fresh : Reachable History.fresh
  | step {h h' : History κ ω τ} : Reachable h → Step h h' → Reachable h'

/-! ## The invariant

The generations granted on a key are counted from one, the book has the last of them, and a ticket
that is gone is dead: the book names a later grant, or its end has passed.
-/

/-- The ticket's generation is no longer ahead of its key's, and if it is the current one of its
owner, it has run out. -/
def Book.Dead (b : Book κ ω τ) (now : τ) (i : Ticket κ ω) : Prop :=
  ∃ s, b i.key = some s ∧ i.generation ≤ s.generation ∧ (i.Names s → s.expires ≤ now)

/-- The grants of a key, in order. -/
def History.grantsOf (h : History κ ω τ) (k : κ) : List (Ticket κ ω) :=
  h.granted.filter (fun i => decide (i.key = k))

structure Inv (h : History κ ω τ) : Prop where
  /-- Time is never below zero. -/
  nonneg : 0 ≤ h.now
  /-- The generations of a key run from one to that of its slot. -/
  generations : ∀ k, ∃ n : ℕ, h.book.generation k = n ∧
    (h.grantsOf k).map Ticket.generation = (List.range n).map (fun j : ℕ => (j : Int) + 1)
  /-- An ended ticket is dead. -/
  ended : ∀ i, h.ended i → h.book.Dead h.now i

omit [LinearOrder τ] [Zero τ] in
theorem Book.write_self (b : Book κ ω τ) (k : κ) (s : Slot ω τ) : b.write k s k = some s := by
  simp [Book.write]

omit [LinearOrder τ] [Zero τ] in
theorem Book.write_ne (b : Book κ ω τ) {k k' : κ} (s : Slot ω τ) (h : k' ≠ k) :
    b.write k s k' = b k' := by
  simp [Book.write, h]

theorem inv_fresh : Inv (History.fresh : History κ ω τ) where
  nonneg := le_refl _
  generations _ := ⟨0, rfl, rfl⟩
  ended _ h := h.elim

/-- A granted generation is at most its key's current one. -/
theorem Inv.granted_le {h : History κ ω τ} (hi : Inv h) {i : Ticket κ ω} (hmem : i ∈ h.granted) :
    i.generation ≤ h.book.generation i.key := by
  obtain ⟨n, hn, hmap⟩ := hi.generations i.key
  have hgen : i.generation ∈ (h.grantsOf i.key).map Ticket.generation :=
    List.mem_map.mpr ⟨i, by simp [History.grantsOf, hmem], rfl⟩
  rw [hmap, List.mem_map] at hgen
  obtain ⟨j, hj, hji⟩ := hgen
  rw [List.mem_range] at hj
  omega

omit [Zero τ] in
/-- A dead ticket stays dead when another slot takes its key's place, as long as that slot is of a
later generation, or is not ahead of the dead one's expiry. -/
theorem Book.Dead.write {b : Book κ ω τ} {now : τ} {i : Ticket κ ω} (hi : b.Dead now i) (k : κ)
    (s' : Slot ω τ)
    (hnext : ∀ s, b k = some s → i.generation ≤ s.generation → (i.Names s → s.expires ≤ now) →
      i.generation ≤ s'.generation ∧ (i.Names s' → s'.expires ≤ now)) :
    (b.write k s').Dead now i := by
  obtain ⟨s, hs, hgen, hexp⟩ := hi
  by_cases hk : i.key = k
  · subst hk
    obtain ⟨hgen', hexp'⟩ := hnext s hs hgen hexp
    exact ⟨s', b.write_self _ s', hgen', hexp'⟩
  · exact ⟨s, (b.write_ne s' hk).trans hs, hgen, hexp⟩

theorem inv_wait {h : History κ ω τ} (hi : Inv h) (t : τ) (later : h.now ≤ t) :
    Inv (h.wait t) where
  nonneg := hi.nonneg.trans later
  generations := hi.generations
  ended := by
    rintro i (hend | ⟨s, hs, hname, hexp⟩)
    · obtain ⟨s, hs, hgen, hexp⟩ := hi.ended i hend
      exact ⟨s, hs, hgen, fun hname => (hexp hname).trans later⟩
    · exact ⟨s, hs, hname.2.ge, fun _ => hexp⟩

theorem inv_grant {h : History κ ω τ} (hi : Inv h) (k : κ) (o : ω) (until_ : τ) :
    Inv (h.grant k o until_) where
  nonneg := hi.nonneg
  generations := by
    intro k'
    obtain ⟨n, hn, hmap⟩ := hi.generations k'
    by_cases hk : k' = k
    · subst hk
      refine ⟨n + 1, ?_, ?_⟩
      · simp only [History.grant, Book.generation, Book.write_self]
        show h.book.generation k' + 1 = _
        rw [hn]
        push_cast
        rfl
      · have hsplit : (h.grant k' o until_).grantsOf k'
            = h.grantsOf k' ++ [⟨k', o, h.book.generation k' + 1⟩] := by
          simp [History.grantsOf, History.grant]
        rw [hsplit, List.map_append, hmap, List.range_succ, List.map_append, hn]
        rfl
    · refine ⟨n, ?_, ?_⟩
      · simpa only [History.grant, Book.generation, Book.write_ne _ _ hk] using hn
      · have hsame : (h.grant k o until_).grantsOf k' = h.grantsOf k' := by
          simp [History.grantsOf, History.grant, Ne.symm hk]
        rw [hsame, hmap]
  ended := by
    rintro i (hend | ⟨hmem, rfl⟩)
    · refine (hi.ended i hend).write k _ (fun s hs hgen _ => ?_)
      have hcur : h.book.generation k = s.generation := by simp only [Book.generation, hs]
      refine ⟨by simp only [hcur]; omega, fun hname => ?_⟩
      -- the new slot is one generation ahead of any ended ticket, which therefore cannot name it
      have heq : h.book.generation k + 1 = i.generation := hname.2
      omega
    · have hle := hi.granted_le hmem
      refine ⟨_, h.book.write_self _ _, by simp only; omega, fun hname => ?_⟩
      have heq : h.book.generation i.key + 1 = i.generation := hname.2
      omega

/-- Writing a slot of the generation the key already has changes no key's generation. -/
theorem generations_write {h : History κ ω τ} (hi : Inv h) (k : κ) (s s' : Slot ω τ)
    (hs : h.book k = some s) (hgen : s'.generation = s.generation) :
    ∀ k', ∃ n : ℕ, (h.book.write k s').generation k' = n ∧
      (h.grantsOf k').map Ticket.generation = (List.range n).map (fun j : ℕ => (j : Int) + 1) := by
  intro k'
  obtain ⟨n, hn, hmap⟩ := hi.generations k'
  refine ⟨n, ?_, hmap⟩
  by_cases hk : k' = k
  · subst hk
    simp only [Book.generation, hs] at hn
    simp only [Book.generation, Book.write_self, hgen, hn]
  · simpa only [Book.generation, Book.write_ne _ _ hk] using hn

theorem inv_renew {h : History κ ω τ} (hi : Inv h) (i : Ticket κ ω) (until_ : τ)
    (valid : h.book.Valid i h.now) : Inv (h.renew i until_) where
  nonneg := hi.nonneg
  generations := by
    obtain ⟨s, hs, hname, _⟩ := valid
    exact generations_write hi i.key s _ hs hname.2.symm
  ended := by
    obtain ⟨s, hs, hname, hlive⟩ := valid
    intro j hend
    refine (hi.ended j hend).write i.key _ (fun s' hs' hgen hexp => ?_)
    have hss : s' = s := Option.some.inj (hs'.symm.trans hs)
    subst hss
    refine ⟨hname.2 ▸ hgen, fun hj => ?_⟩
    -- a dead ticket that named the renewed slot would have named it before, when it was unexpired
    have hjs : j.Names s' := ⟨hname.1.trans hj.1, hname.2.trans hj.2⟩
    exact absurd hlive (not_lt.mpr (hexp hjs))

theorem inv_release {h : History κ ω τ} (hi : Inv h) (i : Ticket κ ω) (holds : h.book.Holds i) :
    Inv (h.release i) where
  nonneg := hi.nonneg
  generations := by
    obtain ⟨s, hs, hname⟩ := holds
    exact generations_write hi i.key s _ hs hname.2.symm
  ended := by
    obtain ⟨s, hs, hname⟩ := holds
    rintro j (hend | rfl)
    · refine (hi.ended j hend).write i.key _ (fun s' hs' hgen _ => ?_)
      have hss : s' = s := Option.some.inj (hs'.symm.trans hs)
      subst hss
      exact ⟨hname.2 ▸ hgen, fun _ => hi.nonneg⟩
    · exact ⟨_, h.book.write_self _ _, le_refl _, fun _ => hi.nonneg⟩

theorem inv_step {h h' : History κ ω τ} (hi : Inv h) (st : Step h h') : Inv h' := by
  cases st with
  | wait t later => exact inv_wait hi t later
  | grant k o until_ free => exact inv_grant hi k o until_
  | renew i until_ valid => exact inv_renew hi i until_ valid
  | release i holds => exact inv_release hi i holds

theorem Reachable.inv {h : History κ ω τ} (hr : Reachable h) : Inv h := by
  induction hr with
  | fresh => exact inv_fresh
  | step _ st ih => exact inv_step ih st

/-! ## What every run guarantees -/

omit [DecidableEq κ] [Zero τ] in
theorem Book.Dead.invalid {b : Book κ ω τ} {now t : τ} {i : Ticket κ ω} (hi : b.Dead now i)
    (later : now ≤ t) : ¬ b.Valid i t := by
  obtain ⟨s, hs, _, hexp⟩ := hi
  rintro ⟨s', hs', hname, hlive⟩
  have hss : s' = s := Option.some.inj (hs'.symm.trans hs)
  subst hss
  exact absurd hlive (not_lt.mpr ((hexp hname).trans later))

/-- **Generations have no gap and no reuse**: the grants of a key carry `1, 2, 3, …`. -/
theorem Reachable.generations {h : History κ ω τ} (hr : Reachable h) (k : κ) :
    (h.grantsOf k).map Ticket.generation
      = (List.range (h.grantsOf k).length).map (fun j : ℕ => (j : Int) + 1) := by
  obtain ⟨n, _, hmap⟩ := hr.inv.generations k
  have hlen : (h.grantsOf k).length = n := by
    have hl := congrArg List.length hmap
    simpa using hl
  rw [hmap, hlen]

/-- **An ended ticket is gone**: it validates at no later time. -/
theorem Reachable.ended_invalid {h : History κ ω τ} (hr : Reachable h) {i : Ticket κ ω}
    (hend : h.ended i) {t : τ} (later : h.now ≤ t) : ¬ h.book.Valid i t :=
  (hr.inv.ended i hend).invalid later

end

/-! ## Books kept in tables

The rows of a table, seen as slots, are a book; a method that writes a row is then one of the steps
above.
-/

section

variable [DecidableEq κ] {ν : Type} {key : ν → κ}

/-- The book a table of lease rows is. -/
def Book.ofTable (slot : ν → Slot ω τ) (t : Table key) : Book κ ω τ := fun k => (t.get? k).map slot

theorem Book.ofTable_put (slot : ν → Slot ω τ) (t : Table key) (v : ν) :
    Book.ofTable slot (t.put v) = (Book.ofTable slot t).write (key v) (slot v) := by
  funext k
  by_cases hk : k = key v
  · subst hk
    rw [Book.write_self]
    simp only [Book.ofTable, Table.get?_put_self, Option.map_some]
  · rw [Book.write_ne _ _ hk]
    simp only [Book.ofTable, Table.get?_put_ne t (Ne.symm hk)]

theorem Book.ofTable_eq_some {slot : ν → Slot ω τ} {t : Table key} {k : κ} {s : Slot ω τ} :
    Book.ofTable slot t k = some s ↔ ∃ v, t.get? k = some v ∧ slot v = s :=
  Option.map_eq_some_iff

theorem Book.ofTable_of_get? {slot : ν → Slot ω τ} {t : Table key} {k : κ} {v : ν}
    (h : t.get? k = some v) : Book.ofTable slot t k = some (slot v) :=
  Book.ofTable_eq_some.mpr ⟨v, h, rfl⟩

variable [LinearOrder τ] [Zero τ]

/-- A reachable history accounts for the table, for the tickets granted from it, and for those that
are gone. -/
def Kept (slot : ν → Slot ω τ) (t : Table key) (now : τ) (granted : List (Ticket κ ω))
    (gone : Ticket κ ω → Prop) : Prop :=
  ∃ h : History κ ω τ, Reachable h ∧ h.book = Book.ofTable slot t ∧ h.now = now ∧
    h.granted = granted ∧ ∀ i, gone i → h.ended i

variable {slot : ν → Slot ω τ} {t : Table key} {now : τ} {granted : List (Ticket κ ω)}
  {gone : Ticket κ ω → Prop}

theorem Kept.fresh : Kept slot (Table.empty : Table key) 0 [] (fun _ => False) :=
  ⟨.fresh, .fresh, rfl, rfl, rfl, fun _ hi => hi⟩

/-- Fewer tickets may be called gone. -/
theorem Kept.mono (hk : Kept slot t now granted gone) {gone' : Ticket κ ω → Prop}
    (himp : ∀ i, gone' i → gone i) : Kept slot t now granted gone' := by
  obtain ⟨h, hr, hbook, hnow, hgranted, hgone⟩ := hk
  exact ⟨h, hr, hbook, hnow, hgranted, fun i hi => hgone i (himp i hi)⟩

theorem Kept.wait (hk : Kept slot t now granted gone) {ts : τ} (later : now ≤ ts) :
    Kept slot t ts granted (fun i => gone i ∨
      ∃ v, t.get? i.key = some v ∧ i.Names (slot v) ∧ (slot v).expires ≤ ts) := by
  obtain ⟨h, hr, hbook, rfl, hgranted, hgone⟩ := hk
  refine ⟨h.wait ts, hr.step (.wait ts later), hbook, rfl, hgranted, ?_⟩
  rintro i (hi | ⟨v, hv, hname, hexp⟩)
  · exact Or.inl (hgone i hi)
  · refine Or.inr ⟨slot v, ?_, hname, hexp⟩
    rw [hbook]
    exact Book.ofTable_of_get? hv

/-- Put in a row of the next generation, over a row that has run out. -/
theorem Kept.grant (hk : Kept slot t now granted gone) (v : ν)
    (free : ∀ w, t.get? (key v) = some w → (slot w).expires ≤ now)
    (next : (slot v).generation = (Book.ofTable slot t).generation (key v) + 1) :
    Kept slot (t.put v) now (granted ++ [⟨key v, (slot v).owner, (slot v).generation⟩])
      (fun i => gone i ∨ (i ∈ granted ∧ i.key = key v)) := by
  obtain ⟨h, hr, hbook, rfl, rfl, hgone⟩ := hk
  have hgen : h.book.generation (key v) + 1 = (slot v).generation := by
    rw [hbook, next]
  refine ⟨h.grant (key v) (slot v).owner (slot v).expires, hr.step (.grant _ _ _ ?_), ?_, rfl, ?_,
    fun i => Or.imp_left (hgone i)⟩
  · intro s hs
    rw [hbook] at hs
    obtain ⟨w, hw, rfl⟩ := Book.ofTable_eq_some.mp hs
    exact free w hw
  · rw [Book.ofTable_put, ← hbook]
    simp only [History.grant, hgen]
  · simp only [History.grant, hgen]

/-- Move the expiry of an unexpired row. -/
theorem Kept.renew (hk : Kept slot t now granted gone) (v : ν) {w : ν}
    (hw : t.get? (key v) = some w)
    (same : (slot v).owner = (slot w).owner ∧ (slot v).generation = (slot w).generation)
    (live : now < (slot w).expires) : Kept slot (t.put v) now granted gone := by
  obtain ⟨h, hr, hbook, rfl, hgranted, hgone⟩ := hk
  have hvalid : h.book.Valid ⟨key v, (slot v).owner, (slot v).generation⟩ h.now := by
    rw [hbook]
    exact ⟨slot w, Book.ofTable_of_get? hw, ⟨same.1.symm, same.2.symm⟩, live⟩
  refine ⟨h.renew _ (slot v).expires, hr.step (.renew _ _ hvalid), ?_, rfl, hgranted, hgone⟩
  rw [Book.ofTable_put, ← hbook]
  rfl

/-- Make a row run out. -/
theorem Kept.release (hk : Kept slot t now granted gone) (v : ν) {w : ν}
    (hw : t.get? (key v) = some w)
    (same : (slot v).owner = (slot w).owner ∧ (slot v).generation = (slot w).generation)
    (zero : (slot v).expires = 0) :
    Kept slot (t.put v) now granted
      (fun i => gone i ∨ i = ⟨key v, (slot v).owner, (slot v).generation⟩) := by
  obtain ⟨h, hr, hbook, rfl, hgranted, hgone⟩ := hk
  have hholds : h.book.Holds ⟨key v, (slot v).owner, (slot v).generation⟩ := by
    rw [hbook]
    exact ⟨slot w, Book.ofTable_of_get? hw, ⟨same.1.symm, same.2.symm⟩⟩
  refine ⟨h.release _, hr.step (.release _ hholds), ?_, rfl, hgranted, fun i => Or.imp_left (hgone i)⟩
  rw [Book.ofTable_put, ← hbook]
  simp only [History.release, ← zero]

theorem Kept.generations (hk : Kept slot t now granted gone) (k : κ) :
    (granted.filter (fun i => decide (i.key = k))).map Ticket.generation
      = (List.range (granted.filter (fun i => decide (i.key = k))).length).map
          (fun j : ℕ => (j : Int) + 1) := by
  obtain ⟨h, hr, _, _, rfl, _⟩ := hk
  exact hr.generations k

theorem Kept.gone_invalid (hk : Kept slot t now granted gone) {i : Ticket κ ω} (hgone : gone i)
    {ts : τ} (later : now ≤ ts) {v : ν} (hv : t.get? i.key = some v) (hname : i.Names (slot v)) :
    (slot v).expires ≤ ts := by
  obtain ⟨h, hr, hbook, rfl, _, hended⟩ := hk
  have hinvalid := hr.ended_invalid (hended i hgone) later
  rw [hbook] at hinvalid
  by_contra hlive
  exact hinvalid ⟨slot v, Book.ofTable_of_get? hv, hname, not_le.mp hlive⟩

end

end LiandanluNative.Lib.Lease
