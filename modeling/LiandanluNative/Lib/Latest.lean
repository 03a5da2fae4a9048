/-
# LiandanluNative.Lib.Latest — an index of the newest records.

Records are kept under their ids, and beside them an index says at which record each key stands.
Whoever adds a record moves the index along; nothing compares revisions when the index is read.  So
the index is right only as long as it is moved to the newest record each time: `newest_hold_iff` is
the one condition, and `newest_load` says that comparing on the way in, as a reload does, meets it.

Ids that are not `usable` stand for an id a program takes for a missing one.

Nothing here names a program.
-/
import LiandanluNative.Lib.Table
import Mathlib.Algebra.Order.Ring.Int

namespace LiandanluNative.Lib

/-- Records under their ids, and for each key the id of the record it stands at. -/
structure Index {ι ν : Type} (ident : ν → ι) (κ : Type) where
  records : Table ident
  latest : Table (Prod.fst : κ × ι → κ)

namespace Index

variable {ι κ ν : Type} [DecidableEq ι] [DecidableEq κ] {ident : ν → ι} (key : ν → κ)
  (revision : ν → ℤ) (usable : ι → Bool)

/-- The record a key stands at. -/
def current (x : Index ident κ) (k : κ) : Option ν :=
  match x.latest.get? k with
  | none => none
  | some entry => if usable entry.2 then x.records.get? entry.2 else none

/-- Take a record in, and let its key stand at it. -/
def hold (x : Index ident κ) (v : ν) : Index ident κ :=
  ⟨x.records.put v, x.latest.put (key v, ident v)⟩

/-- Take a record in, and let its key stand at it if it is newer than where the key stands. -/
def load (x : Index ident κ) (v : ν) : Index ident κ :=
  match (⟨x.records.put v, x.latest⟩ : Index ident κ).current usable (key v) with
  | none => x.hold key v
  | some w => if revision w < revision v then x.hold key v else ⟨x.records.put v, x.latest⟩

/-- Every key stands at a record of its own. -/
def Grounded (x : Index ident κ) : Prop :=
  ∀ entry ∈ x.latest.rows, ∃ w, x.records.get? entry.2 = some w ∧ key w = entry.1

/-- The key stands at a record that none of its records is newer than. -/
def Newest (x : Index ident κ) (k : κ) : Prop :=
  ∀ v ∈ x.records.rows, key v = k → ∃ w, x.current usable k = some w ∧ revision v ≤ revision w

/-- A record that is replaced had the same key. -/
def KeepsKey (x : Index ident κ) (v : ν) : Prop :=
  ∀ w ∈ x.records.rows, ident w = ident v → key w = key v

variable {key revision usable} {x : Index ident κ} {v : ν} {k : κ}

omit [DecidableEq κ] in
/-- An empty index is grounded, … -/
theorem grounded_empty : Grounded key (⟨.empty, .empty⟩ : Index ident κ) :=
  fun _ h => absurd h List.not_mem_nil

/-- … and every key is at its newest in it, as there is none. -/
theorem newest_empty : Newest key revision usable (⟨.empty, .empty⟩ : Index ident κ) k :=
  fun _ h => absurd h List.not_mem_nil

/-- A key stands at a record if the index has its id, the id is usable, and the record is there. -/
theorem current_eq_some {w : ν} (h : x.current usable k = some w) :
    ∃ entry, x.latest.get? k = some entry ∧ usable entry.2 = true ∧
      x.records.get? entry.2 = some w := by
  unfold current at h
  cases hentry : x.latest.get? k with
  | none =>
      rw [hentry] at h
      cases h
  | some entry =>
      rw [hentry] at h
      dsimp only at h
      split at h
      · rename_i husable
        exact ⟨entry, rfl, husable, h⟩
      · cases h

/-- The record a key stands at has that key. -/
theorem Grounded.current_key (hx : x.Grounded key) {w : ν} (h : x.current usable k = some w) :
    key w = k ∧ w ∈ x.records.rows := by
  obtain ⟨entry, hentry, _, hw⟩ := current_eq_some h
  obtain ⟨w', hw', hkey⟩ := hx entry (Table.mem_of_get? hentry)
  have hsame : w' = w := Option.some.inj (hw'.symm.trans hw)
  rw [← hsame, hkey]
  exact ⟨Table.key_of_get? hentry, Table.mem_of_get? hw'⟩

/-! ## Taking a record in

A record is put in the table, and its key then stands at it, whether it is the newest or not.
-/

omit [DecidableEq κ] in
/-- Taking a record in moves no other key. -/
theorem Grounded.get?_put (hx : x.Grounded key) (hv : x.KeepsKey key v) {entry : κ × ι}
    (hentry : entry ∈ x.latest.rows) :
    ∃ w, (x.records.put v).get? entry.2 = some w ∧ key w = entry.1 ∧
      (key v ≠ entry.1 → x.records.get? entry.2 = some w) := by
  obtain ⟨w, hw, hkey⟩ := hx entry hentry
  by_cases hid : ident v = entry.2
  · refine ⟨v, ?_, ?_, fun hne => absurd ?_ hne⟩
    · rw [Table.get?_put, if_pos hid]
    all_goals
      rw [← hkey]
      exact (hv w (Table.mem_of_get? hw) ((Table.key_of_get? hw).trans hid.symm)).symm
  · refine ⟨w, ?_, hkey, fun _ => hw⟩
    rw [Table.get?_put, if_neg hid]
    exact hw

omit [DecidableEq κ] in
/-- Replacing a record by one of its key keeps the index grounded. -/
theorem Grounded.put (hx : x.Grounded key) (hv : x.KeepsKey key v) :
    Grounded key (⟨x.records.put v, x.latest⟩ : Index ident κ) := by
  intro entry hentry
  obtain ⟨w, hw, hkey, _⟩ := hx.get?_put hv hentry
  exact ⟨w, hw, hkey⟩

/-- So does taking a record in. -/
theorem Grounded.hold (hx : x.Grounded key) (hv : x.KeepsKey key v) : (x.hold key v).Grounded key := by
  intro entry hentry
  rcases Table.mem_put.mp hentry with rfl | ⟨hold, _⟩
  · exact ⟨v, Table.get?_put_self _ _, rfl⟩
  · exact hx.put hv entry hold

/-- The other keys stand where they stood. -/
theorem Grounded.current_hold_of_ne (hx : x.Grounded key) (hv : x.KeepsKey key v)
    (hk : key v ≠ k) : (x.hold key v).current usable k = x.current usable k := by
  have hlatest : (x.latest.put (key v, ident v)).get? k = x.latest.get? k :=
    Table.get?_put_ne _ hk
  unfold current Index.hold
  dsimp only
  rw [hlatest]
  cases hentry : x.latest.get? k with
  | none => rfl
  | some entry =>
      dsimp only
      obtain ⟨w, hw, hkey, hold⟩ := hx.get?_put hv (Table.mem_of_get? hentry)
      have hne : key v ≠ entry.1 := by
        rw [Table.key_of_get? hentry]
        exact hk
      rw [hw, hold hne]

/-- A record that was taken in is where its key stands, if its id is usable. -/
theorem current_hold_self (husable : usable (ident v) = true) :
    (x.hold key v).current usable (key v) = some v := by
  have hlatest : (x.latest.put (key v, ident v)).get? (key v) = some (key v, ident v) :=
    Table.get?_put_self x.latest (key v, ident v)
  unfold current Index.hold
  dsimp only
  rw [hlatest]
  dsimp only
  rw [if_pos husable]
  exact Table.get?_put_self _ _

/-- Keys other than that of the record are at their newest as before. -/
theorem Newest.hold_of_ne (hn : Newest key revision usable x k) (hx : x.Grounded key)
    (hv : x.KeepsKey key v) (hk : key v ≠ k) :
    Newest key revision usable (x.hold key v) k := by
  intro w hw hkey
  rw [hx.current_hold_of_ne hv hk]
  rcases Table.mem_put.mp hw with rfl | ⟨hold, _⟩
  · exact absurd hkey hk
  · exact hn w hold hkey

/-- **The one condition.** After a record was taken in its key stands at the newest if and only if
no other record of the key is newer. -/
theorem newest_hold_iff (husable : usable (ident v) = true) :
    Newest key revision usable (x.hold key v) (key v) ↔
      ∀ w ∈ x.records.rows, key w = key v → ident w ≠ ident v → revision w ≤ revision v := by
  have hcurrent : (x.hold key v).current usable (key v) = some v := current_hold_self husable
  constructor
  · intro hn w hw hkey hid
    obtain ⟨u, hu, hle⟩ := hn w (Table.mem_put.mpr (Or.inr ⟨hw, hid⟩)) hkey
    rw [hcurrent] at hu
    cases hu
    exact hle
  · intro htop w hw hkey
    refine ⟨v, hcurrent, ?_⟩
    rcases Table.mem_put.mp hw with rfl | ⟨hold, hid⟩
    · exact le_rfl
    · exact htop w hold hkey hid

/-! ## Reloading

Records are taken in one by one, each compared with where its key stands, so afterwards the index is
right in whatever order they come.
-/

/-- The index after a record with an id of its own was taken in without moving it. -/
theorem current_put_of_fresh (hx : x.Grounded key)
    (hfresh : ∀ w ∈ x.records.rows, ident w ≠ ident v) (k : κ) :
    (⟨x.records.put v, x.latest⟩ : Index ident κ).current usable k = x.current usable k := by
  unfold current
  dsimp only
  cases hentry : x.latest.get? k with
  | none => rfl
  | some entry =>
      obtain ⟨w, hw, _⟩ := hx entry (Table.mem_of_get? hentry)
      have hne : ident v ≠ entry.2 := fun h =>
        hfresh w (Table.mem_of_get? hw) ((Table.key_of_get? hw).trans h.symm)
      dsimp only
      rw [Table.get?_put_ne _ hne]

/-- Comparing takes the record in as the newest, or adds it without moving the index. -/
theorem load_eq (revision : ν → ℤ) (usable : ι → Bool) (hx : x.Grounded key)
    (hfresh : ∀ w ∈ x.records.rows, ident w ≠ ident v) :
    (x.load key revision usable v = x.hold key v ∧
        ∀ w, x.current usable (key v) = some w → revision w < revision v) ∨
      (x.load key revision usable v = ⟨x.records.put v, x.latest⟩ ∧
        ∃ w, x.current usable (key v) = some w ∧ revision v ≤ revision w) := by
  unfold load
  rw [current_put_of_fresh hx hfresh]
  cases hw : x.current usable (key v) with
  | none => exact Or.inl ⟨rfl, fun w hw => by cases hw⟩
  | some w =>
      dsimp only
      split
      · rename_i hlt
        refine Or.inl ⟨rfl, fun u hu => ?_⟩
        cases hu
        exact hlt
      · rename_i hle
        exact Or.inr ⟨rfl, w, rfl, not_lt.mp hle⟩

/-- The records are the same, whether the index was moved or not. -/
theorem load_records (v : ν) : (x.load key revision usable v).records = x.records.put v := by
  unfold load
  split
  · rfl
  · split <;> rfl

/-- A grounded index stays so when a record is loaded. -/
theorem Grounded.load (hx : x.Grounded key) (hfresh : ∀ w ∈ x.records.rows, ident w ≠ ident v) :
    (x.load key revision usable v).Grounded key := by
  have hv : x.KeepsKey key v := fun w hw hid => absurd hid (hfresh w hw)
  rcases load_eq revision usable hx hfresh with ⟨heq, _⟩ | ⟨heq, _⟩
  · rw [heq]
    exact hx.hold hv
  · rw [heq]
    exact hx.put hv

/-- Comparing on the way in keeps the key at the newest. -/
theorem Newest.load (hn : Newest key revision usable x k) (hx : x.Grounded key)
    (hfresh : ∀ w ∈ x.records.rows, ident w ≠ ident v)
    (husable : key v = k → usable (ident v) = true) :
    Newest key revision usable (x.load key revision usable v) k := by
  have hv : x.KeepsKey key v := fun w hw hid => absurd hid (hfresh w hw)
  rcases load_eq revision usable hx hfresh with
    ⟨heq, hnewer⟩ | ⟨heq, w, hw, hle⟩
  · rw [heq]
    by_cases hk : key v = k
    · subst hk
      refine (newest_hold_iff (husable rfl)).mpr (fun w hw hkey _ => ?_)
      obtain ⟨u, hu, hle⟩ := hn w hw hkey
      exact hle.trans (hnewer u hu).le
    · exact hn.hold_of_ne hx hv hk
  · rw [heq]
    intro u hu hkey
    rw [current_put_of_fresh hx hfresh]
    rcases Table.mem_put.mp hu with rfl | ⟨hold, _⟩
    · subst hkey
      exact ⟨w, hw, hle⟩
    · exact hn u hold hkey

/-- A whole table taken in, record by record. -/
theorem load_all {vs : List ν} (hnodup : (vs.map ident).Nodup) :
    ∀ {x : Index ident κ}, x.Grounded key → (∀ v ∈ vs, ∀ w ∈ x.records.rows, ident w ≠ ident v) →
      (vs.foldl (load key revision usable) x).Grounded key ∧
        (∀ w, w ∈ (vs.foldl (load key revision usable) x).records.rows ↔
          w ∈ x.records.rows ∨ w ∈ vs) ∧
        ∀ k, (∀ v ∈ vs, key v = k → usable (ident v) = true) →
          Newest key revision usable x k →
            Newest key revision usable (vs.foldl (load key revision usable) x) k := by
  induction vs with
  | nil => exact fun hx _ => ⟨hx, fun w => by simp, fun _ _ hn => hn⟩
  | cons v vs ih =>
      intro x hx hfresh
      rw [List.map_cons, List.nodup_cons] at hnodup
      have hnew := hfresh v List.mem_cons_self
      have hloaded : (x.load key revision usable v).Grounded key := hx.load hnew
      obtain ⟨hground, hmem, hnewest⟩ := ih hnodup.2 hloaded (by
        intro u hu w hw
        rw [load_records] at hw
        rcases Table.mem_put.mp hw with rfl | ⟨hold, _⟩
        · exact fun heq => hnodup.1 (heq ▸ List.mem_map_of_mem hu)
        · exact hfresh u (List.mem_cons_of_mem v hu) w hold)
      refine ⟨hground, fun w => ?_, fun k husable hn => ?_⟩
      · rw [List.foldl_cons, hmem, load_records, Table.mem_put, List.mem_cons]
        constructor
        · rintro ((rfl | ⟨hold, _⟩) | hlater)
          · exact Or.inr (Or.inl rfl)
          · exact Or.inl hold
          · exact Or.inr (Or.inr hlater)
        · rintro (hold | rfl | hlater)
          · exact Or.inl (Or.inr ⟨hold, hnew w hold⟩)
          · exact Or.inl (Or.inl rfl)
          · exact Or.inr hlater
      · exact hnewest k (fun u hu => husable u (List.mem_cons_of_mem v hu))
          (hn.load hx hnew (husable v List.mem_cons_self))

/-! ## Amending a record -/

/-- A record is replaced by one with its id, key and revision. -/
theorem Newest.amend (hn : Newest key revision usable x k) {old : ν}
    (hold : x.records.get? (ident v) = some old) (hkey : key v = key old)
    (hrevision : revision v = revision old) :
    Newest key revision usable (⟨x.records.put v, x.latest⟩ : Index ident κ) k := by
  have hstands : ∀ w, x.current usable k = some w →
      ∃ w', (⟨x.records.put v, x.latest⟩ : Index ident κ).current usable k = some w' ∧
        revision w' = revision w := by
    intro w hw
    obtain ⟨entry, hentry, husable, hget⟩ := current_eq_some hw
    unfold current
    dsimp only
    rw [hentry]
    dsimp only
    rw [if_pos husable, Table.get?_put]
    by_cases hid : ident v = entry.2
    · rw [← hid, hold] at hget
      cases hget
      exact ⟨v, if_pos hid, hrevision⟩
    · exact ⟨w, (if_neg hid).trans hget, rfl⟩
  intro w hw hwk
  rcases Table.mem_put.mp hw with rfl | ⟨hmem, _⟩
  · obtain ⟨u, hu, hle⟩ := hn old (Table.mem_of_get? hold) (hkey.symm.trans hwk)
    obtain ⟨u', hu', hsame⟩ := hstands u hu
    exact ⟨u', hu', by rw [hrevision, hsame]; exact hle⟩
  · obtain ⟨u, hu, hle⟩ := hn w hmem hwk
    obtain ⟨u', hu', hsame⟩ := hstands u hu
    exact ⟨u', hu', by rw [hsame]; exact hle⟩

end Index

end LiandanluNative.Lib
