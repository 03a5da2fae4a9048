/-
# LiandanluNative.Lib.Table — rows under a primary key.

A SQL table with a primary key and an insertion-ordered dictionary are the same object: a list of
rows, no two of which carry the same key.  `Table key` keeps that as a field, so a table with a
duplicate key cannot be built.  `put` is the upsert (`INSERT … ON CONFLICT DO UPDATE`, or `d[k] =
v`): it replaces the row in place when the key is present and appends it otherwise; `putNew` is
`INSERT OR IGNORE`.

`get?_put` is the rewriting rule nearly every client uses; `put_rows_perm` and `sum_put` are those
for what is added up over a whole table.
-/
import Mathlib.Algebra.BigOperators.Group.List.Basic
import Mathlib.Data.List.Nodup
import Mathlib.Data.List.Perm.Basic

namespace LiandanluNative.Lib

/-- Rows in insertion order, at most one for each key. -/
structure Table {κ ν : Type} (key : ν → κ) where
  rows : List ν
  nodup : (rows.map key).Nodup

namespace Table

variable {κ ν : Type} {key : ν → κ}

/-- A table is its rows. -/
theorem ext {t u : Table key} (h : t.rows = u.rows) : t = u := by
  cases t
  cases u
  cases h
  rfl

/-- The table without rows. -/
def empty : Table key := ⟨[], List.nodup_nil⟩

@[simp] theorem empty_rows : (empty : Table key).rows = [] := rfl

instance : Inhabited (Table key) := ⟨empty⟩

/-- Two rows of a table under one key are one row. -/
theorem eq_of_key_eq (t : Table key) {v w : ν} (hv : v ∈ t.rows) (hw : w ∈ t.rows)
    (h : key v = key w) : v = w :=
  List.inj_on_of_nodup_map t.nodup hv hw h

/-- The rows under the key of a row are that row. -/
theorem filter_key [DecidableEq κ] {t : Table key} {v : ν} (hv : v ∈ t.rows) :
    t.rows.filter (fun r => decide (key r = key v)) = [v] := by
  obtain ⟨before, later, hsplit⟩ := List.append_of_mem hv
  have hnodup := t.nodup
  rw [hsplit, List.map_append, List.map_cons, List.nodup_append, List.nodup_cons] at hnodup
  have hbefore : before.filter (fun r => decide (key r = key v)) = [] := by
    refine List.filter_eq_nil_iff.mpr (fun r hr heq => ?_)
    exact hnodup.2.2 _ (List.mem_map_of_mem hr) _ List.mem_cons_self (of_decide_eq_true heq)
  have hlater : later.filter (fun r => decide (key r = key v)) = [] := by
    refine List.filter_eq_nil_iff.mpr (fun r hr heq => ?_)
    exact hnodup.2.1.1 (of_decide_eq_true heq ▸ List.mem_map_of_mem hr)
  have hself : decide (key v = key v) = true := decide_eq_true rfl
  rw [hsplit, List.filter_append,
    List.filter_cons_of_pos (p := fun r => decide (key r = key v)) hself, hbefore, hlater]
  rfl

/-- Rows without a common key differ. -/
theorem rows_nodup (t : Table key) : t.rows.Nodup := List.Nodup.of_map key t.nodup

variable [DecidableEq κ]

/-! ## Lookup

A table is a list of rows with different keys, so looking a key up and finding a row among the rows
are one thing.
-/

/-- The row under a key. -/
def get? (t : Table key) (k : κ) : Option ν := t.rows.find? (fun r => decide (key r = k))

@[simp] theorem get?_empty (k : κ) : (empty : Table key).get? k = none := rfl

/-- **Looking up** a key finds the one row that has it. -/
theorem get?_eq_some {t : Table key} {k : κ} {v : ν} :
    t.get? k = some v ↔ v ∈ t.rows ∧ key v = k := by
  constructor
  · intro h
    exact ⟨List.mem_of_find?_eq_some h, by simpa using List.find?_some h⟩
  · rintro ⟨hv, rfl⟩
    obtain ⟨w, hw⟩ : ∃ w, t.rows.find? (fun r => decide (key r = key v)) = some w := by
      rw [← Option.isSome_iff_exists, List.find?_isSome]
      exact ⟨v, hv, by simp⟩
    have hkey : key w = key v := by simpa using List.find?_some hw
    have hwv : w = v := t.eq_of_key_eq (List.mem_of_find?_eq_some hw) hv hkey
    rw [get?, hw, hwv]

/-- Nothing is found under a key that no row has. -/
theorem get?_eq_none {t : Table key} {k : κ} :
    t.get? k = none ↔ ∀ v ∈ t.rows, key v ≠ k := by
  simp [get?, List.find?_eq_none]

/-- What was found has the key that was asked for, and is a row. -/
theorem key_of_get? {t : Table key} {k : κ} {v : ν} (h : t.get? k = some v) : key v = k :=
  (get?_eq_some.mp h).2

theorem mem_of_get? {t : Table key} {k : κ} {v : ν} (h : t.get? k = some v) : v ∈ t.rows :=
  (get?_eq_some.mp h).1

/-- Every row is found under its key. -/
theorem get?_of_mem {t : Table key} {v : ν} (h : v ∈ t.rows) : t.get? (key v) = some v :=
  get?_eq_some.mpr ⟨h, rfl⟩

/-! ## Upsert

`put` writes a row over the one of its key, where that stands, or adds it at the end; `putNew`
leaves a row that is there alone.  The equations are those that later modules rewrite with.
-/

/-- `put` on the list of rows: replace in place, else append. -/
def putRow (key : ν → κ) (v : ν) : List ν → List ν
  | [] => [v]
  | r :: rs => if key r = key v then v :: rs else r :: putRow key v rs

/-- A row with a new key is appended. -/
theorem putRow_of_notMem {v : ν} :
    ∀ {rs : List ν}, key v ∉ rs.map key → putRow key v rs = rs ++ [v]
  | [], _ => rfl
  | r :: rs, h => by
      simp only [List.map_cons, List.mem_cons, not_or] at h
      simp only [putRow, if_neg (Ne.symm h.1), putRow_of_notMem h.2, List.cons_append]

/-- A row that replaces another leaves the keys and their order as they were. -/
theorem map_key_putRow_of_mem {v : ν} :
    ∀ {rs : List ν}, key v ∈ rs.map key → (putRow key v rs).map key = rs.map key
  | [], h => by simp at h
  | r :: rs, h => by
      by_cases hr : key r = key v
      · rw [putRow, if_pos hr, List.map_cons, List.map_cons, hr]
      · have hrs : key v ∈ rs.map key := by
          simp only [List.map_cons, List.mem_cons] at h
          exact h.resolve_left (Ne.symm hr)
        simp only [putRow, if_neg hr, List.map_cons, map_key_putRow_of_mem hrs]

/-- Either way the keys stay distinct. -/
theorem nodup_putRow {v : ν} {rs : List ν} (h : (rs.map key).Nodup) :
    ((putRow key v rs).map key).Nodup := by
  by_cases hv : key v ∈ rs.map key
  · rwa [map_key_putRow_of_mem hv]
  · rw [putRow_of_notMem hv, List.map_append]
    exact List.nodup_append.mpr ⟨h, by simp, by
      rintro a ha b hb rfl
      simp only [List.map_cons, List.map_nil, List.mem_singleton] at hb
      exact hv (hb ▸ ha)⟩

/-- Up to order, a put gives the row itself and the rows with another key. -/
theorem putRow_perm {v : ν} :
    ∀ {rs : List ν}, (rs.map key).Nodup →
      (putRow key v rs).Perm (v :: rs.filter (fun r => decide (key r ≠ key v)))
  | [], _ => List.Perm.refl _
  | r :: rs, h => by
      simp only [List.map_cons, List.nodup_cons] at h
      by_cases hr : key r = key v
      · have hrest : rs.filter (fun x => decide (key x ≠ key v)) = rs := by
          refine List.filter_eq_self.mpr (fun x hx => ?_)
          have hne : key x ≠ key v := fun hxv => h.1 (List.mem_map.mpr ⟨x, hx, hxv.trans hr.symm⟩)
          simpa using hne
        rw [putRow, if_pos hr, List.filter_cons_of_neg (by simp [hr]), hrest]
      · rw [putRow, if_neg hr, List.filter_cons_of_pos (by simp [hr])]
        exact ((putRow_perm h.2).cons r).trans (List.Perm.swap v r _)

/-- Insert the row, or replace the one that has its key. -/
def put (t : Table key) (v : ν) : Table key := ⟨putRow key v t.rows, nodup_putRow t.nodup⟩

/-- Insert the row unless its key is taken. -/
def putNew (t : Table key) (v : ν) : Table key :=
  match t.get? (key v) with
  | some _ => t
  | none => t.put v

/-- What is put, beside what has another key. -/
theorem put_rows_perm (t : Table key) (v : ν) :
    (t.put v).rows.Perm (v :: t.rows.filter (fun r => decide (key r ≠ key v))) :=
  putRow_perm t.nodup

/-- **The rows after a put** are that row and those with another key. -/
theorem mem_put {t : Table key} {v w : ν} :
    w ∈ (t.put v).rows ↔ w = v ∨ (w ∈ t.rows ∧ key w ≠ key v) := by
  rw [(t.put_rows_perm v).mem_iff]
  simp

/-- A sum over the rows changes by the new row and the row it replaces. -/
theorem sum_put {M : Type} [AddCommMonoid M] (t : Table key) (f : ν → M) (v : ν) :
    ((t.put v).rows.map f).sum + ((t.get? (key v)).map f).getD 0 = (t.rows.map f).sum + f v := by
  have hrows : ∀ rs : List ν, ((putRow key v rs).map f).sum
      + ((rs.find? (fun r => decide (key r = key v))).map f).getD 0 = (rs.map f).sum + f v := by
    intro rs
    induction rs with
    | nil => simp [putRow, add_comm]
    | cons r rs ih =>
        by_cases hr : key r = key v
        · simp [putRow, hr, add_comm, add_left_comm]
        · simp only [putRow, if_neg hr, List.map_cons, List.sum_cons, List.find?_cons,
            decide_eq_false hr, add_assoc, ih]
  exact hrows t.rows

/-- No key is lost. -/
theorem exists_mem_put {t : Table key} {v w : ν} (hw : w ∈ t.rows) :
    ∃ w' ∈ (t.put v).rows, key w' = key w := by
  by_cases h : key w = key v
  · exact ⟨v, mem_put.mpr (Or.inl rfl), h.symm⟩
  · exact ⟨w, mem_put.mpr (Or.inr ⟨hw, h⟩), rfl⟩

/-- **Looking up after a put.** -/
@[simp] theorem get?_put (t : Table key) (v : ν) (k : κ) :
    (t.put v).get? k = if key v = k then some v else t.get? k := by
  by_cases hk : key v = k
  · rw [if_pos hk]
    exact get?_eq_some.mpr ⟨mem_put.mpr (Or.inl rfl), hk⟩
  · rw [if_neg hk]
    cases hget : t.get? k with
    | some w =>
        obtain ⟨hw, hwk⟩ := get?_eq_some.mp hget
        have hne : key w ≠ key v := fun h => hk (h.symm.trans hwk)
        exact get?_eq_some.mpr ⟨mem_put.mpr (Or.inr ⟨hw, hne⟩), hwk⟩
    | none =>
        refine get?_eq_none.mpr (fun w hw => ?_)
        rcases mem_put.mp hw with rfl | ⟨hw, _⟩
        · exact hk
        · exact get?_eq_none.mp hget w hw

theorem get?_put_self (t : Table key) (v : ν) : (t.put v).get? (key v) = some v := by
  rw [get?_put, if_pos rfl]

theorem get?_put_ne (t : Table key) {v : ν} {k : κ} (h : key v ≠ k) :
    (t.put v).get? k = t.get? k := by
  rw [get?_put, if_neg h]

/-- Of two rows put under one key the later stands. -/
theorem put_put {t : Table key} {v w : ν} (h : key v = key w) : (t.put v).put w = t.put w := by
  refine ext ?_
  show putRow key w (putRow key v t.rows) = putRow key w t.rows
  induction t.rows with
  | nil => simp only [putRow, if_pos h]
  | cons r rs ih =>
      by_cases hr : key r = key v
      · simp only [putRow, if_pos hr, if_pos (hr.trans h), if_pos h]
      · have hr' : key r ≠ key w := fun heq => hr (heq.trans h.symm)
        simp only [putRow, if_neg hr, if_neg hr', ih]

/-- A row that is there already is no change. -/
theorem put_eq_self {t : Table key} {v : ν} (h : t.get? (key v) = some v) : t.put v = t := by
  have hrows : ∀ rs : List ν, rs.find? (fun r => decide (key r = key v)) = some v →
      putRow key v rs = rs := by
    intro rs hfind
    induction rs with
    | nil => cases hfind
    | cons r rs ih =>
        by_cases hkey : key r = key v
        · rw [List.find?_cons_of_pos (by simpa using hkey)] at hfind
          rw [putRow, if_pos hkey, Option.some.inj hfind]
        · rw [List.find?_cons_of_neg (by simpa using hkey)] at hfind
          rw [putRow, if_neg hkey, ih hfind]
  exact ext (hrows t.rows h)

/-- A row under a new key goes to the end. -/
theorem put_rows_of_get?_none {t : Table key} {v : ν} (h : t.get? (key v) = none) :
    (t.put v).rows = t.rows ++ [v] := by
  refine putRow_of_notMem (fun hv => ?_)
  obtain ⟨w, hw, hwv⟩ := List.mem_map.mp hv
  exact get?_eq_none.mp h w hw hwv

/-- A row under a taken key goes where the row it replaces was. -/
theorem putRow_of_split {r v : ν} {after : List ν} (hkey : key v = key r) :
    ∀ {before : List ν}, key r ∉ before.map key →
      putRow key v (before ++ r :: after) = before ++ v :: after
  | [], _ => by simp only [List.nil_append, putRow, hkey, if_true]
  | b :: before, h => by
      simp only [List.map_cons, List.mem_cons, not_or] at h
      rw [List.cons_append, putRow, if_neg (hkey ▸ Ne.symm h.1), putRow_of_split hkey h.2]
      rfl

/-- A row is replaced where it stands. -/
theorem put_rows_of_split {t : Table key} {before after : List ν} {r v : ν}
    (hrows : t.rows = before ++ r :: after) (hkey : key v = key r) :
    (t.put v).rows = before ++ v :: after := by
  have hnodup := t.nodup
  rw [hrows, List.map_append, List.map_cons] at hnodup
  have hbefore : key r ∉ before.map key := fun hr =>
    (List.nodup_append.mp hnodup).2.2 _ hr _ List.mem_cons_self rfl
  show putRow key v t.rows = _
  rw [hrows, putRow_of_split hkey hbefore]

/-- A row under a new key is counted once more. -/
theorem countP_put_of_get?_none {t : Table key} {v : ν} (p : ν → Bool)
    (h : t.get? (key v) = none) :
    (t.put v).rows.countP p = t.rows.countP p + if p v then 1 else 0 := by
  rw [put_rows_of_get?_none h, List.countP_append, List.countP_singleton]

/-- A row that replaces one that counts alike changes no count. -/
theorem countP_put_of_get?_some {t : Table key} {v w : ν} {p : ν → Bool}
    (h : t.get? (key v) = some w) (hp : p v = p w) :
    (t.put v).rows.countP p = t.rows.countP p := by
  obtain ⟨hw, hkey⟩ := get?_eq_some.mp h
  obtain ⟨before, later, hsplit⟩ := List.append_of_mem hw
  rw [put_rows_of_split hsplit hkey.symm, hsplit, List.countP_append, List.countP_append,
    List.countP_cons, List.countP_cons, hp]

/-- `putNew` puts a row whose key is new. -/
theorem putNew_of_get?_none {t : Table key} {v : ν} (h : t.get? (key v) = none) :
    t.putNew v = t.put v := by
  simp only [putNew, h]

/-- A row whose key is known is ignored by `putNew`. -/
theorem putNew_of_get?_some {t : Table key} {v w : ν} (h : t.get? (key v) = some w) :
    t.putNew v = t := by
  simp only [putNew, h]

/-- A taken key keeps its row. -/
theorem get?_putNew_of_some {t : Table key} {v w : ν} {k : κ} (h : t.get? k = some w) :
    (t.putNew v).get? k = some w := by
  cases hget : t.get? (key v) with
  | some _ => rw [putNew_of_get?_some hget, h]
  | none =>
      have hne : key v ≠ k := by
        rintro rfl
        cases hget.symm.trans h
      rw [putNew_of_get?_none hget, get?_put_ne t hne, h]

/-- Afterwards there is one in any case. -/
theorem get?_putNew_self (t : Table key) (v : ν) : ((t.putNew v).get? (key v)).isSome = true := by
  cases hget : t.get? (key v) with
  | some w => rw [get?_putNew_of_some hget, Option.isSome_some]
  | none => rw [putNew_of_get?_none hget, get?_put_self, Option.isSome_some]

theorem get?_putNew_eq_none {t : Table key} {v : ν} {k : κ} :
    (t.putNew v).get? k = none ↔ t.get? k = none ∧ key v ≠ k := by
  constructor
  · intro hnone
    have hold : t.get? k = none := by
      cases hget : t.get? k with
      | none => rfl
      | some w => exact absurd ((get?_putNew_of_some hget).symm.trans hnone) (by simp)
    refine ⟨hold, ?_⟩
    rintro rfl
    have hself := get?_putNew_self t v
    rw [hnone] at hself
    cases hself
  · rintro ⟨hnone, hne⟩
    cases hget : t.get? (key v) with
    | some w => rw [putNew_of_get?_some hget, hnone]
    | none => rw [putNew_of_get?_none hget, get?_put_ne t hne, hnone]

/-- In a table of bare keys, inserting is adding to a set. -/
theorem mem_putNew [DecidableEq ν] {t : Table (id : ν → ν)} {v w : ν} :
    w ∈ (t.putNew v).rows ↔ w = v ∨ w ∈ t.rows := by
  cases hget : t.get? (id v) with
  | some u =>
      obtain ⟨hu, rfl⟩ := get?_eq_some.mp hget
      rw [putNew_of_get?_some hget]
      exact ⟨Or.inr, fun h => h.elim (fun heq => heq ▸ hu) id⟩
  | none =>
      rw [putNew_of_get?_none hget, mem_put]
      refine or_congr_right ⟨And.left, fun hw => ⟨hw, ?_⟩⟩
      exact get?_eq_none.mp hget w hw

/-! ### Changing every row -/

/-- Change each row, and no key. -/
def amend (t : Table key) (f : ν → ν) (hkey : ∀ v, key (f v) = key v) : Table key where
  rows := t.rows.map f
  nodup := by
    have hkeys : key ∘ f = key := funext hkey
    rw [List.map_map, hkeys]
    exact t.nodup

/-- Changing all rows changes the one that is found. -/
theorem get?_amend (t : Table key) {f : ν → ν} (hkey : ∀ v, key (f v) = key v) (k : κ) :
    (t.amend f hkey).get? k = (t.get? k).map f := by
  unfold get? amend
  simp only [List.find?_map, Function.comp_def, hkey]

/-- The same table of other rows. -/
def translate {ξ : Type} {other : ξ → κ} (t : Table key) (f : ν → ξ)
    (hkey : ∀ v, other (f v) = key v) : Table other where
  rows := t.rows.map f
  nodup := by
    have hkeys : other ∘ f = key := funext hkey
    rw [List.map_map, hkeys]
    exact t.nodup

section

variable {ξ : Type} {other : ξ → κ} {f : ν → ξ}

/-- A table of other rows under the same keys finds the translated row. -/
theorem get?_translate (t : Table key) (hkey : ∀ v, other (f v) = key v) (k : κ) :
    (t.translate f hkey).get? k = (t.get? k).map f := by
  unfold get? translate
  simp only [List.find?_map, Function.comp_def, hkey]

/-- Translating and putting commute. -/
theorem putRow_map (hkey : ∀ v, other (f v) = key v) (v : ν) (rs : List ν) :
    putRow other (f v) (rs.map f) = (putRow key v rs).map f := by
  induction rs with
  | nil => rfl
  | cons r rs ih =>
      rw [List.map_cons, putRow, putRow, hkey, hkey, ih]
      split
      · rfl
      · rfl

theorem translate_put (t : Table key) (hkey : ∀ v, other (f v) = key v) (v : ν) :
    (t.put v).translate f hkey = (t.translate f hkey).put (f v) :=
  ext (putRow_map hkey v t.rows).symm

end

/-! ### Inserting many rows -/

section

variable {α : Type} {f : α → ν}

/-- What is there stays, whatever is put anew. -/
theorem get?_foldl_putNew_of_some {k : κ} {w : ν} : ∀ {xs : List α} {t : Table key},
    t.get? k = some w → (xs.foldl (fun t x => t.putNew (f x)) t).get? k = some w
  | [], _, h => h
  | _ :: _, _, h => by
      rw [List.foldl_cons]
      exact get?_foldl_putNew_of_some (get?_putNew_of_some h)

/-- The key of every inserted row is taken. -/
theorem get?_foldl_putNew {x : α} : ∀ {xs : List α} {t : Table key}, x ∈ xs →
    ((xs.foldl (fun t x => t.putNew (f x)) t).get? (key (f x))).isSome = true
  | y :: xs, t, h => by
      rcases List.mem_cons.mp h with rfl | h
      · obtain ⟨w, hw⟩ := Option.isSome_iff_exists.mp (t.get?_putNew_self (f x))
        rw [List.foldl_cons, get?_foldl_putNew_of_some hw, Option.isSome_some]
      · rw [List.foldl_cons]
        exact get?_foldl_putNew h

/-- Where every key is taken, nothing is inserted. -/
theorem foldl_putNew_of_some {t : Table key} : ∀ {xs : List α},
    (∀ x ∈ xs, (t.get? (key (f x))).isSome = true) → xs.foldl (fun t x => t.putNew (f x)) t = t
  | [], _ => rfl
  | x :: xs, h => by
      obtain ⟨w, hw⟩ := Option.isSome_iff_exists.mp (h x List.mem_cons_self)
      rw [List.foldl_cons, putNew_of_get?_some hw]
      exact foldl_putNew_of_some (fun y hy => h y (List.mem_cons_of_mem x hy))

end

end Table

end LiandanluNative.Lib
