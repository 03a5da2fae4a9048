/-
# LiandanluNative.Safety.ResourceLeases — admission never overcommits.

Only an acquisition looks at the capacity; a renewal extends a lease unseen.  What carries the bound
through a renewal is that the lease was unexpired, hence already counted: the leases unexpired at
one time are among those unexpired at an earlier time (`Database.Fits.later`), and moving the expiry
of one of them changes no sum and no label (`Database.Fits.move`).  The identities follow the same
discipline as task leases do, and `Lib.Lease` accounts for them.
-/
import LiandanluNative.Lib.Lease
import LiandanluNative.Storage.ResourceLeases
import LiandanluNative.Safety.TaskLeases
import Mathlib.Algebra.BigOperators.Group.List.Basic
import Mathlib.Algebra.Order.BigOperators.Group.List

namespace LiandanluNative

open Lib Lib.Proc

/-! ## Histories of calls -/

/-- What names a lease: its task, owner and generation. -/
def ResourceLease.identity (l : ResourceLease) : LeaseIdentity := ⟨l.taskId, l.ownerId, l.generation⟩

inductive ResourceLeaseCall where
  | acquire (taskId ownerId : String) (request : ResourceRequest) (leaseSeconds : ℚ)
  | renew (lease : ResourceLease) (leaseSeconds : ℚ)
  | release (lease : ResourceLease)

/-- The database, the time of the last call, the leases returned by acquisitions in order, and the
identities that are gone. -/
structure ResourceLeaseHistory where
  db : Database
  now : ℚ
  issued : List ResourceLease
  gone : LeaseIdentity → Prop

namespace ResourceLeaseHistory

/-- A fresh database. -/
def fresh : ResourceLeaseHistory where
  db := {}
  now := 0
  issued := []
  gone := fun _ => False

/-- Time passes to `ts`: the identities whose row has expired by then are gone. -/
def tick (h : ResourceLeaseHistory) (ts : ℚ) : ResourceLeaseHistory :=
  { h with
    now := ts
    gone := fun i => h.gone i ∨ ∃ row, h.db.resourceLeases.get? i.key = some row ∧
      (row.ownerId = i.owner ∧ row.generation = i.generation) ∧ row.leaseUntil ≤ ts }

/-- A call at the present time. -/
def act (h : ResourceLeaseHistory) (capacity : ResourceCapacity) :
    ResourceLeaseCall → ResourceLeaseHistory
  | .acquire taskId ownerId request leaseSeconds =>
      match acquireResourceLease taskId ownerId request capacity leaseSeconds h.now h.db with
      | .ok (some lease) db =>
          { h with
            db := db
            issued := h.issued ++ [lease]
            gone := fun i => h.gone i ∨ ∃ l ∈ h.issued, l.taskId = lease.taskId ∧ l.identity = i }
      | .ok none db => { h with db := db }
      | .error _ db => { h with db := db }
  | .renew lease leaseSeconds =>
      { h with db := after (renewResourceLease lease leaseSeconds h.now) h.db }
  | .release lease =>
      match releaseResourceLease lease h.db with
      | .ok true db => { h with db := db, gone := fun i => h.gone i ∨ i = lease.identity }
      | .ok false db => { h with db := db }
      | .error _ db => { h with db := db }

/-- The histories of all runs of calls under one capacity, with non-decreasing timestamps. -/
inductive Reached (capacity : ResourceCapacity) : ResourceLeaseHistory → Prop
  | fresh : Reached capacity fresh
  | call {h : ResourceLeaseHistory} (before : Reached capacity h) (ts : ℚ) (later : h.now ≤ ts)
      (c : ResourceLeaseCall) : Reached capacity ((h.tick ts).act capacity c)

end ResourceLeaseHistory

/-! ## What a capacity holds

Sums and labels of a list of leases, whatever table they come from.
-/

/-- The leases together stay within the capacity, and no two tasks share a label. -/
structure ResourceCapacity.Holds (capacity : ResourceCapacity) (rows : List ResourceLease) :
    Prop where
  cpu : usedCpu rows ≤ capacity.cpuUnits
  memory : usedMemory rows ≤ capacity.memoryMb
  gpu : usedGpu rows ≤ capacity.gpuUnits
  labels : ∀ a ∈ rows, ∀ b ∈ rows, a.taskId ≠ b.taskId →
    ∀ label ∈ a.request.exclusiveLabels, label ∉ b.request.exclusiveLabels

namespace ResourceCapacity.Holds

variable {capacity : ResourceCapacity} {rows rows' : List ResourceLease}

/-- No leases take nothing. -/
theorem nil : capacity.Holds [] where
  cpu := Nat.zero_le _
  memory := Nat.zero_le _
  gpu := Nat.zero_le _
  labels _ ha := absurd ha List.not_mem_nil

/-- In which order leases are counted does not matter. -/
theorem perm (hh : capacity.Holds rows) (hperm : rows'.Perm rows) : capacity.Holds rows' where
  cpu := by rw [usedCpu, (hperm.map _).sum_eq]; exact hh.cpu
  memory := by rw [usedMemory, (hperm.map _).sum_eq]; exact hh.memory
  gpu := by rw [usedGpu, (hperm.map _).sum_eq]; exact hh.gpu
  labels a ha b hb := hh.labels a (hperm.mem_iff.mp ha) b (hperm.mem_iff.mp hb)

/-- Fewer leases take no more. -/
theorem sublist (hh : capacity.Holds rows) (hsub : rows'.Sublist rows) :
    capacity.Holds rows' where
  cpu := ((hsub.map _).sum_le_sum (fun _ _ => Nat.zero_le _)).trans hh.cpu
  memory := ((hsub.map _).sum_le_sum (fun _ _ => Nat.zero_le _)).trans hh.memory
  gpu := ((hsub.map _).sum_le_sum (fun _ _ => Nat.zero_le _)).trans hh.gpu
  labels a ha b hb := hh.labels a (hsub.subset ha) b (hsub.subset hb)

/-- Admitting a request that does not conflict. -/
theorem admits (hh : capacity.Holds rows) {lease : ResourceLease}
    (hconf : lease.request.conflicts capacity rows = false) : capacity.Holds (lease :: rows) := by
  simp only [ResourceRequest.conflicts, decide_eq_false_iff_not, not_or, not_lt, not_exists,
    not_and] at hconf
  obtain ⟨hcpu, hmemory, hgpu, hlabels⟩ := hconf
  have hdisjoint : ∀ row ∈ rows,
      ∀ label ∈ row.request.exclusiveLabels, label ∉ lease.request.exclusiveLabels :=
    fun row hrow label hlabel => hlabels label (List.mem_flatMap.mpr ⟨row, hrow, hlabel⟩)
  refine ⟨?_, ?_, ?_, ?_⟩
  · rw [usedCpu, List.map_cons, List.sum_cons, Nat.add_comm]
    exact hcpu
  · rw [usedMemory, List.map_cons, List.sum_cons, Nat.add_comm]
    exact hmemory
  · rw [usedGpu, List.map_cons, List.sum_cons, Nat.add_comm]
    exact hgpu
  · intro a ha b hb hne label hla hlb
    rcases List.mem_cons.mp ha with rfl | ha' <;> rcases List.mem_cons.mp hb with rfl | hb'
    · exact hne rfl
    · exact hdisjoint b hb' label hlb hla
    · exact hdisjoint a ha' label hla hlb
    · exact hh.labels a ha' b hb' hne label hla hlb

/-- Only the task and the request of a lease matter. -/
theorem replace {lease row : ResourceLease} (hh : capacity.Holds (row :: rows))
    (htask : lease.taskId = row.taskId) (hrequest : lease.request = row.request) :
    capacity.Holds (lease :: rows) := by
  refine ⟨?_, ?_, ?_, ?_⟩
  · simpa only [usedCpu, List.map_cons, hrequest] using hh.cpu
  · simpa only [usedMemory, List.map_cons, hrequest] using hh.memory
  · simpa only [usedGpu, List.map_cons, hrequest] using hh.gpu
  · -- look a lease up among the old rows: itself, or the row it replaces
    have hold : ∀ a ∈ lease :: rows, ∃ a' ∈ row :: rows,
        a'.taskId = a.taskId ∧ a'.request = a.request := by
      intro a ha
      rcases List.mem_cons.mp ha with rfl | ha
      · exact ⟨row, List.mem_cons_self, htask.symm, hrequest.symm⟩
      · exact ⟨a, List.mem_cons_of_mem _ ha, rfl, rfl⟩
    intro a ha b hb hne label hla hlb
    obtain ⟨a', ha', hat, har⟩ := hold a ha
    obtain ⟨b', hb', hbt, hbr⟩ := hold b hb
    rw [← har] at hla
    rw [← hbr] at hlb
    rw [← hat, ← hbt] at hne
    exact hh.labels a' ha' b' hb' hne label hla hlb

end ResourceCapacity.Holds

/-! ## The unexpired leases

Which rows count at a time, and how a write of one row changes them.
-/

/-- The unexpired leases. -/
def Database.activeLeases (db : Database) (t : ℚ) : List ResourceLease :=
  db.resourceLeases.rows.filter (fun row => decide (t < row.leaseUntil))

/-- What is unexpired later is unexpired now. -/
theorem Database.activeLeases_sublist (db : Database) {t t' : ℚ} (later : t ≤ t') :
    (db.activeLeases t').Sublist (db.activeLeases t) := by
  refine List.monotone_filter_right _ (fun row hrow => ?_)
  simp only [decide_eq_true_eq] at hrow ⊢
  exact later.trans_lt hrow

/-- The leases of other tasks are among all that are unexpired. -/
theorem Database.otherActiveLeases_sublist (db : Database) (t : ℚ) (taskId : String) :
    (db.otherActiveLeases t taskId).Sublist (db.activeLeases t) := by
  refine List.monotone_filter_right _ (fun row hrow => ?_)
  exact (Bool.and_eq_true_iff.mp hrow).1

/-- After an upsert the unexpired leases are the new row, if unexpired, and those of other tasks. -/
theorem Database.activeLeases_put (db : Database) (row : ResourceLease) (t : ℚ) :
    (Database.activeLeases { db with resourceLeases := db.resourceLeases.put row } t).Perm
      ((if t < row.leaseUntil then [row] else []) ++ db.otherActiveLeases t row.taskId) := by
  have hperm := (db.resourceLeases.put_rows_perm row).filter (fun r => decide (t < r.leaseUntil))
  rw [List.filter_cons, List.filter_filter] at hperm
  unfold Database.activeLeases Database.otherActiveLeases
  by_cases live : t < row.leaseUntil
  · rw [if_pos (decide_eq_true live)] at hperm
    rw [if_pos live]
    exact hperm
  · rw [if_neg (by simpa using live)] at hperm
    rw [if_neg live]
    exact hperm

/-- With an unexpired row, the unexpired leases are that row and those of other tasks. -/
theorem Database.activeLeases_split (db : Database) {row : ResourceLease} {t : ℚ}
    (hrow : row ∈ db.resourceLeases.rows) (live : t < row.leaseUntil) :
    (row :: db.otherActiveLeases t row.taskId).Perm (db.activeLeases t) := by
  have hsame : (db.resourceLeases.put row).rows.Perm db.resourceLeases.rows := by
    refine (List.perm_ext_iff_of_nodup (Table.rows_nodup _) (Table.rows_nodup _)).mpr (fun r => ?_)
    rw [Table.mem_put]
    constructor
    · rintro (rfl | ⟨hr, _⟩)
      · exact hrow
      · exact hr
    · intro hr
      by_cases hkey : r.taskId = row.taskId
      · exact Or.inl (Table.eq_of_key_eq _ hr hrow hkey)
      · exact Or.inr ⟨hr, hkey⟩
  have hput := db.activeLeases_put row t
  rw [if_pos live] at hput
  exact hput.symm.trans (hsame.filter _)

/-- The unexpired leases stay within the capacity and share no label. -/
def Database.Fits (db : Database) (capacity : ResourceCapacity) (t : ℚ) : Prop :=
  capacity.Holds (db.activeLeases t)

/-- So what fits now fits later, if nothing is admitted. -/
theorem Database.Fits.later {db : Database} {capacity : ResourceCapacity} {t t' : ℚ}
    (hf : db.Fits capacity t) (later : t ≤ t') : db.Fits capacity t' :=
  hf.sublist (db.activeLeases_sublist later)

/-- A lease that does not conflict with the unexpired leases of other tasks. -/
theorem Database.Fits.admits {db : Database} {capacity : ResourceCapacity} {t : ℚ}
    (hf : db.Fits capacity t) {lease : ResourceLease}
    (hconf : lease.request.conflicts capacity (db.otherActiveLeases t lease.taskId) = false) :
    Database.Fits { db with resourceLeases := db.resourceLeases.put lease } capacity t := by
  have hothers := hf.sublist (db.otherActiveLeases_sublist t lease.taskId)
  refine ResourceCapacity.Holds.perm ?_ (db.activeLeases_put lease t)
  split
  · exact hothers.admits hconf
  · exact hothers

/-- **Moving the expiry of an unexpired lease** admits nothing new. -/
theorem Database.Fits.move {db : Database} {capacity : ResourceCapacity} {t : ℚ}
    (hf : db.Fits capacity t) {row : ResourceLease} (hrow : row ∈ db.resourceLeases.rows)
    (live : t < row.leaseUntil) (until_ : ℚ) :
    Database.Fits
      { db with resourceLeases := db.resourceLeases.put { row with leaseUntil := until_ } }
      capacity t := by
  have hcounted : capacity.Holds (row :: db.otherActiveLeases t row.taskId) :=
    hf.perm (db.activeLeases_split hrow live)
  refine ResourceCapacity.Holds.perm ?_ (db.activeLeases_put { row with leaseUntil := until_ } t)
  split
  · exact hcounted.replace rfl rfl
  · exact hcounted.sublist (List.sublist_cons_self _ _)

/-- A lease that has run out counts for nothing. -/
theorem Database.Fits.expire {db : Database} {capacity : ResourceCapacity} {t : ℚ}
    (hf : db.Fits capacity t) {row : ResourceLease} (expired : row.leaseUntil ≤ t) :
    Database.Fits { db with resourceLeases := db.resourceLeases.put row } capacity t := by
  refine ResourceCapacity.Holds.perm ?_ (db.activeLeases_put row t)
  rw [if_neg (not_lt.mpr expired)]
  exact hf.sublist (db.otherActiveLeases_sublist t row.taskId)

/-! ## The invariant -/

/-- What the discipline of leases sees of a row. -/
def ResourceLease.slot (row : ResourceLease) : Lease.Slot String ℚ :=
  ⟨row.ownerId, row.generation, row.leaseUntil⟩

/-- The next generation is the one that the discipline counts to. -/
theorem Database.nextResourceGeneration_eq (db : Database) (taskId : String) :
    db.nextResourceGeneration taskId
      = (Lease.Book.ofTable ResourceLease.slot db.resourceLeases).generation taskId + 1 := by
  unfold Database.nextResourceGeneration Lease.Book.generation Lease.Book.ofTable
  cases db.resourceLeases.get? taskId <;> rfl

namespace ResourceLeaseHistory

/-- The unexpired leases fit, and the lease discipline accounts for the table. -/
structure Inv (capacity : ResourceCapacity) (h : ResourceLeaseHistory) : Prop where
  nonneg : 0 ≤ h.now
  fits : h.db.Fits capacity h.now
  kept : Lease.Kept ResourceLease.slot h.db.resourceLeases h.now
    (h.issued.map ResourceLease.identity) h.gone

variable {capacity : ResourceCapacity} {h : ResourceLeaseHistory}

/-- Time lets leases run out. -/
theorem Inv.tick (hi : h.Inv capacity) {ts : ℚ} (later : h.now ≤ ts) : (h.tick ts).Inv capacity where
  nonneg := hi.nonneg.trans later
  fits := hi.fits.later later
  kept := hi.kept.wait later

/-- An acquisition admits what fits beside the others, under the next generation. -/
theorem Inv.acquire (hi : h.Inv capacity) (taskId ownerId : String) (request : ResourceRequest)
    (leaseSeconds : ℚ) :
    (h.act capacity (.acquire taskId ownerId request leaseSeconds)).Inv capacity := by
  rcases acquireResourceLease_cases taskId ownerId request capacity leaseSeconds h.now h.db with
    ⟨e, hrun⟩ | hrun | ⟨lease, hrun, ⟨rfl, rfl, rfl⟩, hgen, _, hfree, hconf⟩
  · simpa only [act, hrun] using hi
  · simpa only [act, hrun] using hi
  · simp only [act, hrun]
    refine ⟨hi.nonneg, hi.fits.admits hconf, ?_⟩
    have hgrant := hi.kept.grant lease hfree (hgen.trans (h.db.nextResourceGeneration_eq _))
    rw [List.map_append, List.map_singleton]
    refine hgrant.mono (fun i => Or.imp_right ?_)
    rintro ⟨l, hl, hkey, rfl⟩
    exact ⟨List.mem_map_of_mem hl, hkey⟩

/-- A renewal moves the end of an unexpired lease. -/
theorem Inv.renew (hi : h.Inv capacity) (lease : ResourceLease) (leaseSeconds : ℚ) :
    (h.act capacity (.renew lease leaseSeconds)).Inv capacity := by
  rcases renewResourceLease_cases lease leaseSeconds h.now h.db with
    ⟨_, e, hrun⟩ | ⟨_, hrun⟩ | ⟨row, hrow, _, hlive, hrun⟩
  · simpa only [act, after_of_error hrun] using hi
  · simpa only [act, after_of_ok hrun] using hi
  · have hmem := Table.mem_of_get? hrow
    have hself := Table.get?_of_mem hmem
    simp only [act, after_of_ok hrun]
    exact ⟨hi.nonneg, hi.fits.move hmem hlive _, hi.kept.renew _ hself ⟨rfl, rfl⟩ hlive⟩

/-- A release lets a lease run out. -/
theorem Inv.release (hi : h.Inv capacity) (lease : ResourceLease) :
    (h.act capacity (.release lease)).Inv capacity := by
  rcases releaseResourceLease_cases lease h.db with hrun | ⟨row, hrow, hname, hrun⟩
  · simpa only [act, hrun] using hi
  · have hident : lease.identity = ⟨row.taskId, row.ownerId, row.generation⟩ := by
      rw [ResourceLease.identity, Table.key_of_get? hrow, hname.1, hname.2]
    have hself := Table.get?_of_mem (Table.mem_of_get? hrow)
    simp only [act, hrun, hident]
    exact ⟨hi.nonneg, hi.fits.expire hi.nonneg, hi.kept.release _ hself ⟨rfl, rfl⟩ rfl⟩

/-- So the invariant holds of every run. -/
theorem Reached.inv (hr : h.Reached capacity) : h.Inv capacity := by
  induction hr with
  | fresh => exact ⟨le_rfl, .nil, Lease.Kept.fresh⟩
  | call _ ts later c ih =>
      have htick := ih.tick later
      cases c with
      | acquire taskId ownerId request leaseSeconds =>
          exact htick.acquire taskId ownerId request leaseSeconds
      | renew lease leaseSeconds => exact htick.renew lease leaseSeconds
      | release lease => exact htick.release lease

/-! ## The guarantees -/

/-- The leases issued on a task, in order. -/
def issuedOn (h : ResourceLeaseHistory) (taskId : String) : List ResourceLease :=
  h.issued.filter (fun l => decide (l.taskId = taskId))

/-- The generations issued on a task are `1, 2, 3, …`. -/
theorem Reached.generations (hr : h.Reached capacity) (taskId : String) :
    (h.issuedOn taskId).map ResourceLease.generation
      = (List.range (h.issuedOn taskId).length).map (fun j : ℕ => (j : Int) + 1) := by
  have hgen := hr.inv.kept.generations taskId
  rw [List.filter_map, List.map_map, List.length_map] at hgen
  exact hgen

/-- An identity that is gone validates at no later time. -/
theorem Reached.gone_invalid (hr : h.Reached capacity) {i : LeaseIdentity} (hgone : h.gone i)
    {t : ℚ} (later : h.now ≤ t) :
    h.db.validateResourceLeaseIdentity i.key i.owner i.generation t = false := by
  rw [← Bool.not_eq_true, Database.validateResourceLeaseIdentity_iff]
  rintro ⟨row, hrow, hname, hlive⟩
  exact absurd hlive (not_lt.mpr (hr.inv.kept.gone_invalid hgone later hrow hname))

end ResourceLeaseHistory

end LiandanluNative
