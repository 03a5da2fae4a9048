/-
# LiandanluNative.Lib.Replicas — several copies of one table of rows.

Each of several programs loads a table of rows, changes its copies, and stores them row by row; a
row is overwritten without a look at what it holds.  A row changed by one program leaves the copies
of the others `behind` until they load the table again.

Records carry a revision that every change raises.  The rule is `Step.keeps`: where only those write
that are not behind, a row is always replaced by a later one, made from a copy at least as recent.

Nothing here names a program.
-/
import Mathlib.Logic.Function.Basic
import Mathlib.Algebra.Order.Ring.Int

namespace LiandanluNative.Lib

variable {ι κ ν : Type}

/-! ## One record -/

/-- What a program may do to its copy `m` of a record and to the row `d`: nothing, change the copy
alone, or store a changed copy and perhaps change it further. -/
inductive Advances (rev : ν → ℤ) : Option ν → Option ν → Option ν → Option ν → Prop
  | still {m d : Option ν} : Advances rev m d m d
  | ahead {u v : ν} {d : Option ν} (later : rev u < rev v) : Advances rev (some u) d (some v) d
  | wrote {u v w : ν} {d : Option ν} (later : rev u < rev v) (last : rev v ≤ rev w) :
      Advances rev (some u) d (some w) (some v)

namespace Advances

variable {rev : ν → ℤ} {m d m' d' m'' d'' : Option ν}

/-- A copy that is no older than the row stays so. -/
theorem recent (h : Advances rev m d m' d')
    (hrecent : ∀ r, d = some r → ∃ u, m = some u ∧ rev r ≤ rev u) :
    ∀ r, d' = some r → ∃ u, m' = some u ∧ rev r ≤ rev u := by
  cases h with
  | still => exact hrecent
  | ahead later =>
      intro r hr
      obtain ⟨u, hu, hle⟩ := hrecent r hr
      cases hu
      exact ⟨_, rfl, hle.trans later.le⟩
  | wrote later last =>
      rintro r ⟨⟩
      exact ⟨_, rfl, last⟩

end Advances

/-! ## Tables

There is one table of rows, and each program has a table of copies.  Which copies are behind is kept
beside them, as no program can see it.
-/

/-- The copies of the programs, the rows, and which copies are behind: another program has changed
the row since the copy was loaded. -/
structure Replicas (ι κ ν : Type) where
  copies : ι → κ → Option ν
  rows : κ → Option ν
  behind : ι → κ → Prop

namespace Replicas

/-- What the `i`-th program may do to its copies and the rows. -/
inductive Step (rev : ν → ℤ) (i : ι) (r r' : Replicas ι κ ν) : Prop
  | works
      (advances : ∀ k, Advances rev (r.copies i k) (r.rows k) (r'.copies i k) (r'.rows k))
      (others : ∀ j, j ≠ i → r'.copies j = r.copies j)
      (current : ∀ k, r.behind i k → r'.behind i k)
      (behind : ∀ j k, j ≠ i → r.behind j k ∨ r'.rows k ≠ r.rows k → r'.behind j k)
  | loads
      (loaded : r'.copies i = r'.rows)
      (same : r'.rows = r.rows)
      (others : ∀ j, j ≠ i → r'.copies j = r.copies j)
      (behind : ∀ j k, j ≠ i → r.behind j k → r'.behind j k)

/-- A copy that is not behind is no older than the row. -/
def Recent (rev : ν → ℤ) (r : Replicas ι κ ν) : Prop :=
  ∀ i k, ¬ r.behind i k → ∀ d, r.rows k = some d → ∃ u, r.copies i k = some u ∧ rev d ≤ rev u

/-- No row is lost, goes back, or is replaced by one that was made from an older copy. -/
structure Keeps (rev : ν → ℤ) (i : ι) (r r' : Replicas ι κ ν) : Prop where
  revision : ∀ k d, r.rows k = some d → ∃ d', r'.rows k = some d' ∧ rev d ≤ rev d'
  basis : ∀ k d d', r.rows k = some d → r'.rows k = some d' → d' ≠ d →
    ∃ u, r.copies i k = some u ∧ rev d ≤ rev u ∧ rev u < rev d'

variable {rev : ν → ℤ} {i : ι} {r r' : Replicas ι κ ν}

/-- **One step.** Where the program is not behind on what it writes, recent copies stay recent and
no update is lost. -/
theorem Step.keeps (h : Step rev i r r') (hrecent : r.Recent rev)
    (hcurrent : ∀ k, r'.rows k ≠ r.rows k → ¬ r.behind i k) :
    r'.Recent rev ∧ Keeps rev i r r' := by
  cases h with
  | works advances others current behind =>
      refine ⟨fun j k hnot => ?_, ⟨fun k d hd => ?_, fun k d d' hd hd' hne => ?_⟩⟩
      · by_cases hj : j = i
        · subst hj
          exact (advances k).recent (hrecent j k (fun hb => hnot (current k hb)))
        · -- the row is as it was, or the copy is behind now
          have hsame : r'.rows k = r.rows k := by
            by_contra hchanged
            exact hnot (behind j k hj (Or.inr hchanged))
          rw [others j hj, hsame]
          exact hrecent j k (fun hb => hnot (behind j k hj (Or.inl hb)))
      · by_cases hsame : r'.rows k = r.rows k
        · exact ⟨d, hsame.trans hd, le_rfl⟩
        · obtain ⟨u, hu, hle⟩ := hrecent i k (hcurrent k hsame) d hd
          have hadvances := advances k
          rw [hu, hd] at hadvances
          -- only the advance of this row and this copy is left
          generalize r'.rows k = new at hadvances hsame ⊢
          generalize r'.copies i k = copy at hadvances
          cases hadvances with
          | still => exact absurd hd.symm hsame
          | ahead later => exact absurd hd.symm hsame
          | wrote later last => exact ⟨_, rfl, hle.trans later.le⟩
      -- a row that changed: the copy had the newest version, so what it wrote is later
      · have hsame : r'.rows k ≠ r.rows k := by
          rw [hd, hd']
          exact fun heq => hne (Option.some.inj heq)
        obtain ⟨u, hu, hle⟩ := hrecent i k (hcurrent k hsame) d hd
        refine ⟨u, hu, hle, ?_⟩
        have hadvances := advances k
        rw [hu, hd, hd'] at hadvances
        generalize r'.copies i k = copy at hadvances
        cases hadvances with
        | still => exact absurd rfl hne
        | ahead later => exact absurd rfl hne
        | wrote later last => exact later
  -- a load changes no row, and the copy that loaded is as new as the rows
  | loads loaded same others behind =>
      refine ⟨fun j k hnot d hd => ?_, ⟨fun k d hd => ⟨d, ?_, le_rfl⟩, fun k d d' hd hd' hne => ?_⟩⟩
      · by_cases hj : j = i
        · subst hj
          exact ⟨d, by rw [loaded, hd], le_rfl⟩
        · rw [others j hj]
          rw [same] at hd
          exact hrecent j k (fun hb => hnot (behind j k hj hb)) d hd
      · rw [same, hd]
      · rw [same, hd] at hd'
        exact absurd (Option.some.inj hd').symm hne

end Replicas

end LiandanluNative.Lib
