/-
# LiandanluNative.Lib.WriteThrough — records held in memory and written through.

A program holds a record in memory, changes it there, and stores it at some of its steps; a failure
between the two leaves the row behind the memory.  `Moved may shows` bounds what a stretch of such
steps can do to one record and its row: `may m v` says that from the copy `m` (absent, or a record)
the program may get to `v`, and `shows v r` that `r` is a row stored from `v`.  The row ends where
it was or shows a record the copy may have got to, at whatever step the stretch stopped.

`TablesMoved` is the same over a table of records and the table of their rows.  `Moved.keeps` is the
rule clients use: what no permitted move undoes, and every stored row shows, survives in both
places.

Nothing here names a program.
-/
import LiandanluNative.Lib.Table

namespace LiandanluNative.Lib.WriteThrough

variable {κ ν δ : Type}

/-! ## One record

A record in memory and its row: the one is assigned to, the other is written from it, and a stretch
of a run may end between the two.
-/

/-- From the copy `m` and the row `d` to `m'` and `d'` by permitted moves. -/
structure Moved (may : Option ν → ν → Prop) (shows : ν → δ → Prop) (m : Option ν) (d : Option δ)
    (m' : Option ν) (d' : Option δ) : Prop where
  memory : m' = m ∨ ∃ v, m' = some v ∧ may m v
  durable : d' = d ∨ ∃ v r, d' = some r ∧ may m v ∧ shows v r

/-- Two permitted moves one after the other are one. -/
def Chains (may : Option ν → ν → Prop) : Prop := ∀ m v w, may m v → may (some v) w → may m w

section

variable {may may' : Option ν → ν → Prop} {shows : ν → δ → Prop} {m m' m'' : Option ν}
  {d d' d'' : Option δ}

theorem Moved.refl : Moved may shows m d m d := ⟨Or.inl rfl, Or.inl rfl⟩

theorem Moved.trans (hmay : Chains may) (h₁ : Moved may shows m d m' d')
    (h₂ : Moved may shows m' d' m'' d'') : Moved may shows m d m'' d'' := by
  have later : ∀ w, may m' w → may m w := by
    intro w hw
    rcases h₁.memory with rfl | ⟨v, rfl, hv⟩
    · exact hw
    · exact hmay m v w hv hw
  constructor
  · rcases h₂.memory with rfl | ⟨w, rfl, hw⟩
    · exact h₁.memory
    · exact Or.inr ⟨w, rfl, later w hw⟩
  · rcases h₂.durable with rfl | ⟨w, r, rfl, hw, hr⟩
    · exact h₁.durable
    · exact Or.inr ⟨w, r, rfl, later w hw, hr⟩

theorem Moved.mono (h : Moved may shows m d m' d') (himp : ∀ v, may m v → may' m v) :
    Moved may' shows m d m' d' := by
  constructor
  · exact h.memory.imp_right (fun ⟨v, hv, hmay⟩ => ⟨v, hv, himp v hmay⟩)
  · exact h.durable.imp_right (fun ⟨v, r, hr, hmay, hshow⟩ => ⟨v, r, hr, himp v hmay, hshow⟩)

/-- Where nothing is permitted, nothing happens. -/
theorem Moved.still (h : Moved may shows m d m' d') (hno : ∀ v, ¬ may m v) : m' = m ∧ d' = d := by
  constructor
  · exact h.memory.resolve_right (fun ⟨v, _, hv⟩ => hno v hv)
  · exact h.durable.resolve_right (fun ⟨v, _, _, hv, _⟩ => hno v hv)

/-- A property of a record that no permitted move undoes holds of the copy still. -/
theorem Moved.keeps_memory (h : Moved may shows m d m' d') {K : ν → Prop}
    (hkeep : ∀ v w, K v → may (some v) w → K w) (hm : ∃ v, m = some v ∧ K v) :
    ∃ v, m' = some v ∧ K v := by
  obtain ⟨v, rfl, hv⟩ := hm
  rcases h.memory with rfl | ⟨w, rfl, hw⟩
  · exact ⟨v, rfl, hv⟩
  · exact ⟨w, rfl, hkeep v w hv hw⟩

/-- It holds of the row still, if a row shows it. -/
theorem Moved.keeps_durable (h : Moved may shows m d m' d') {K : ν → Prop} {L : δ → Prop}
    (hkeep : ∀ v w, K v → may (some v) w → K w) (hshow : ∀ v r, K v → shows v r → L r)
    (hm : ∃ v, m = some v ∧ K v) (hd : ∃ r, d = some r ∧ L r) : ∃ r, d' = some r ∧ L r := by
  obtain ⟨v, rfl, hv⟩ := hm
  rcases h.durable with rfl | ⟨w, r, rfl, hw, hr⟩
  · exact hd
  · exact ⟨r, rfl, hshow w r (hkeep v w hv hw) hr⟩

end

/-! ## A table of records and the table of their rows -/

variable {key : ν → κ} {rowKey : δ → κ} [DecidableEq κ]

/-- Every record and its row moved as permitted under its key. -/
def TablesMoved (may : κ → Option ν → ν → Prop) (shows : ν → δ → Prop) (T : Table key)
    (D : Table rowKey) (T' : Table key) (D' : Table rowKey) : Prop :=
  ∀ k, Moved (may k) shows (T.get? k) (D.get? k) (T'.get? k) (D'.get? k)

variable {may : κ → Option ν → ν → Prop} {shows : ν → δ → Prop} {T T' T'' : Table key}
  {D D' D'' : Table rowKey}

theorem TablesMoved.refl : TablesMoved may shows T D T D := fun _ => Moved.refl

theorem TablesMoved.trans (hmay : ∀ k, Chains (may k)) (h₁ : TablesMoved may shows T D T' D')
    (h₂ : TablesMoved may shows T' D' T'' D'') : TablesMoved may shows T D T'' D'' :=
  fun k => (h₁ k).trans (hmay k) (h₂ k)

/-- A record is changed in memory, or added. -/
theorem TablesMoved.put {v : ν} (h : may (key v) (T.get? (key v)) v) :
    TablesMoved may shows T D (T.put v) D := by
  intro k
  rw [Table.get?_put]
  by_cases hk : key v = k
  · subst hk
    rw [if_pos rfl]
    exact ⟨Or.inr ⟨v, rfl, h⟩, Or.inl rfl⟩
  · rw [if_neg hk]
    exact Moved.refl

/-- The copy in memory is stored. -/
theorem TablesMoved.save {v : ν} {r : δ} (hv : T.get? (key v) = some v)
    (h : may (key v) (some v) v) (hshow : shows v r) (hkey : rowKey r = key v) :
    TablesMoved may shows T D T (D.put r) := by
  intro k
  rw [Table.get?_put]
  by_cases hk : rowKey r = k
  · rw [if_pos hk]
    rw [hkey] at hk
    subst hk
    rw [hv]
    exact ⟨Or.inl rfl, Or.inr ⟨v, r, rfl, h, hshow⟩⟩
  · rw [if_neg hk]
    exact Moved.refl

/-- **A property of records** that every permitted change upholds, whatever was there before, holds
of all of them and of their rows still. -/
theorem TablesMoved.upholds {K : ν → Prop} {L : δ → Prop} (h : TablesMoved may shows T D T' D')
    (hmay : ∀ m v, may (key v) m v → (∀ old, m = some old → K old) → K v)
    (hshow : ∀ v r, K v → shows v r → L r) (hkey : ∀ v r, shows v r → rowKey r = key v)
    (hT : ∀ v ∈ T.rows, K v) (hD : ∀ r ∈ D.rows, L r) :
    (∀ v ∈ T'.rows, K v) ∧ ∀ r ∈ D'.rows, L r := by
  have hold : ∀ k old, T.get? k = some old → K old :=
    fun k old hget => hT old (Table.mem_of_get? hget)
  constructor
  · intro v hv
    have hget : T'.get? (key v) = some v := Table.get?_of_mem hv
    rcases (h (key v)).memory with hsame | ⟨w, hw, hpermitted⟩
    · exact hT v (Table.mem_of_get? (hsame.symm.trans hget))
    · cases hget.symm.trans hw
      exact hmay _ _ hpermitted (hold _)
  · intro r hr
    have hget : D'.get? (rowKey r) = some r := Table.get?_of_mem hr
    rcases (h (rowKey r)).durable with hsame | ⟨w, row, hw, hpermitted, hshown⟩
    · exact hD r (Table.mem_of_get? (hsame.symm.trans hget))
    · cases hget.symm.trans hw
      rw [hkey w r hshown] at hpermitted
      exact hshow w r (hmay _ _ hpermitted (hold _)) hshown

end LiandanluNative.Lib.WriteThrough
