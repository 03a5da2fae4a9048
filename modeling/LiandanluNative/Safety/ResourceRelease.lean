/-
# LiandanluNative.Safety.ResourceRelease — a step leaks no resource lease.

What a step acquires it acquires right before its `try`, whose `finally` releases it.  So whatever
the other calls of the step do, and whatever they do to leases that are not the step's: when the
step has returned or raised, its lease has run out, and the release wrote no other
(`step_releases`).  The calls are those of `Runtime.StepCalls`, of which the acquisition and the
release are the broker's and the rest is arbitrary.

A lease is freed (`FreedIn`) when no row names its holder that has not run out, and every other row
is as it was.  It does not matter whether the release found it: another owner may have acquired the
task since, with the next generation, and then there is nothing to release.  A step that comes to
its `try` without a lease, or returns before, wrote none, if its other calls write none.
-/
import LiandanluNative.Lib.Ends
import LiandanluNative.Runtime.Commits
import LiandanluNative.Runtime.Engine
import LiandanluNative.Runtime.StepCalls
import LiandanluNative.Runtime.StepMoves

namespace LiandanluNative

open Lib (Table)
open Lib.Proc

/-! ## A lease that is given back

Of all rows only the one of the task has changed, and it has run out; so it is valid no more and
counts for nothing.
-/

/-- The row is about the same task, owner and generation. -/
def ResourceLease.IsOf (row lease : ResourceLease) : Prop :=
  row.taskId = lease.taskId ∧ row.ownerId = lease.ownerId ∧ row.generation = lease.generation

/-- Only the row of the lease was written, and it has run out. -/
structure FreedIn (lease : ResourceLease) (rows rows' : Table ResourceLease.taskId) : Prop where
  expired : ∀ row ∈ rows'.rows, row.IsOf lease → row.leaseUntil = 0
  others : ∀ row, ¬ row.IsOf lease → (row ∈ rows'.rows ↔ row ∈ rows.rows)

/-- A table without the lease is left as it is. -/
theorem FreedIn.refl {lease : ResourceLease} {rows : Table ResourceLease.taskId}
    (h : ∀ row ∈ rows.rows, ¬ row.IsOf lease) : FreedIn lease rows rows :=
  ⟨fun row hrow hof => absurd hof (h row hrow), fun _ _ => Iff.rfl⟩

/-- Making the row of the lease run out frees it, and writes no other row. -/
theorem FreedIn.put {lease row : ResourceLease} {rows : Table ResourceLease.taskId}
    (hrow : row ∈ rows.rows) (hof : row.IsOf lease) :
    FreedIn lease rows (rows.put { row with leaseUntil := 0 }) := by
  constructor
  · intro other hother hsame
    rcases Table.mem_put.mp hother with rfl | ⟨_, hne⟩
    · rfl
    · exact absurd (hsame.1.trans hof.1.symm) hne
  · intro other hnot
    rw [Table.mem_put]
    constructor
    · rintro (rfl | ⟨hmem, -⟩)
      · exact absurd hof hnot
      · exact hmem
    · intro hmem
      refine Or.inr ⟨hmem, fun hsame => hnot ?_⟩
      rw [rows.eq_of_key_eq hmem hrow hsame]
      exact hof

/-- The leases the broker goes by: those of its store, or its own. -/
def Sys.resourceRows (s : Sys) (broker : ResourceBroker) : Table ResourceLease.taskId :=
  if broker.persistent then s.db.resourceLeases else broker.leases

/-- The leases that the broker counts against what another task asks for. -/
def Sys.countedLeases (s : Sys) (broker : ResourceBroker) (ts : ℚ) (taskId : String) :
    List ResourceLease :=
  if broker.persistent then s.db.otherActiveLeases ts taskId else broker.othersActive ts taskId

/-- What the release of a lease makes of the engine: the lease is no longer valid, nothing is
counted for it, and no other lease has been written. -/
structure Sys.GaveBack (lease : ResourceLease) (v t : Sys) : Prop where
  broker : ∃ before now, v.broker = some before ∧ t.broker = some now ∧
    now.persistent = before.persistent ∧ now.capacity = before.capacity ∧
    FreedIn lease (v.resourceRows before) (t.resourceRows now)
  rest : t =
    { v with
      db := { v.db with resourceLeases := t.db.resourceLeases }
      broker := t.broker
      boundaries := t.boundaries }

/-- A row that still names the holder of a freed lease has run out. -/
theorem FreedIn.held_expired {lease row : ResourceLease} {rows rows' : Table ResourceLease.taskId}
    (h : FreedIn lease rows rows') (hget : rows'.get? lease.taskId = some row)
    (hheld : row.heldBy lease.ownerId lease.generation = true) : row.leaseUntil = 0 :=
  h.expired row (Table.mem_of_get? hget)
    ⟨Table.key_of_get? hget, ResourceLease.heldBy_iff.mp hheld⟩

section

variable {lease : ResourceLease} {rows : Table ResourceLease.taskId} {t : Sys}
  {broker : ResourceBroker}

/-- A lease that ran out is validated neither by the store, -/
theorem FreedIn.validateIdentity (h : FreedIn lease rows (t.resourceRows broker))
    (hpersistent : broker.persistent = true) {ts : ℚ} (hts : 0 ≤ ts) :
    t.db.validateResourceLeaseIdentity lease.taskId lease.ownerId lease.generation ts = false := by
  unfold Sys.resourceRows at h
  rw [if_pos hpersistent] at h
  rw [← Bool.not_eq_true, Database.validateResourceLeaseIdentity_iff]
  rintro ⟨row, hget, hnamed, hlate⟩
  rw [h.held_expired hget (ResourceLease.heldBy_iff.mpr hnamed)] at hlate
  exact absurd hts (not_le_of_gt hlate)

/-- nor by the broker, -/
theorem FreedIn.validate (h : FreedIn lease rows (t.resourceRows broker)) {env : Env}
    (hclock : ∀ n, 0 ≤ env.clock n) :
    ∃ u, validateResources env broker lease t = .ok false u := by
  have hpast : ∀ row, (t.resourceRows broker).get? lease.taskId = some row →
      row.heldBy lease.ownerId lease.generation = true →
      decide (env.clock t.clockReads < row.leaseUntil) = false := by
    intro row hget hheld
    rw [h.held_expired hget hheld]
    exact decide_eq_false (not_lt_of_ge (hclock t.clockReads))
  unfold Sys.resourceRows at hpast
  cases hpersistent : broker.persistent with
  | true =>
      rw [if_pos hpersistent] at hpast
      have hinvalid : t.db.validateResourceLease lease (env.clock t.clockReads) = false := by
        unfold Database.validateResourceLease
        cases hget : t.db.resourceLeases.get? lease.taskId with
        | none => rfl
        | some row =>
            cases hheld : row.heldBy lease.ownerId lease.generation with
            | false => simp only [hheld, Bool.false_and]
            | true => simp only [hpast row hget hheld, Bool.and_false, Bool.false_and]
      refine ⟨{ t with clockReads := t.clockReads + 1 }, ?_⟩
      unfold validateResources
      simp only [hpersistent, if_true]
      show EStateM.Result.ok (t.db.validateResourceLease lease (env.clock t.clockReads)) _ = _
      rw [hinvalid]
  | false =>
      rw [hpersistent, if_neg Bool.false_ne_true] at hpast
      refine ⟨{ t with clockReads := t.clockReads + 1 }, ?_⟩
      unfold validateResources
      simp only [hpersistent, Bool.false_eq_true, if_false]
      cases hheld : broker.held lease with
      | none => rfl
      | some row =>
          obtain ⟨hget, hnamed⟩ := Option.filter_eq_some_iff.mp hheld
          show EStateM.Result.ok (decide (env.clock t.clockReads < row.leaseUntil)) _ = _
          rw [hpast row hget hnamed]

/-- and is not counted against another task. -/
theorem FreedIn.counted (h : FreedIn lease rows (t.resourceRows broker)) {ts : ℚ}
    (hts : 0 ≤ ts) (taskId : String) :
    ∀ counted ∈ t.countedLeases broker ts taskId, ¬ counted.IsOf lease := by
  intro counted hcounted hof
  have hmem : counted ∈ (t.resourceRows broker).rows ∧ ts < counted.leaseUntil := by
    unfold Sys.countedLeases at hcounted
    unfold Sys.resourceRows
    split at hcounted
    · rename_i hpersistent
      rw [if_pos hpersistent]
      obtain ⟨hmem, hlate⟩ := List.mem_filter.mp hcounted
      exact ⟨hmem, by simpa using (Bool.and_eq_true_iff.mp hlate).1⟩
    · rename_i hpersistent
      rw [if_neg hpersistent]
      obtain ⟨hmem, hlate⟩ := List.mem_filter.mp hcounted
      exact ⟨hmem, by simpa using (Bool.and_eq_true_iff.mp hlate).1⟩
  have hzero := h.expired counted hmem.1 hof
  rw [hzero] at hmem
  exact absurd hts (not_le_of_gt hmem.2)

end

/-! ## The release -/

/-- Either the table has no row for the lease, or the one under its task is it. -/
theorem FreedIn.refl_of_get? {lease : ResourceLease} {rows : Table ResourceLease.taskId}
    (h : ∀ row, rows.get? lease.taskId = some row →
      row.heldBy lease.ownerId lease.generation = false) : FreedIn lease rows rows := by
  refine FreedIn.refl (fun row hrow hof => ?_)
  have hget : rows.get? lease.taskId = some row := hof.1 ▸ Table.get?_of_mem hrow
  have hheld := ResourceLease.heldBy_iff.mpr hof.2
  rw [h row hget] at hheld
  cases hheld

/-- What `release` does to the table it goes by, however its row stands. -/
theorem releaseResourceLease_freed (lease : ResourceLease) (db : Database) :
    ∃ released rows, releaseResourceLease lease db = .ok released { db with resourceLeases := rows } ∧
      FreedIn lease db.resourceLeases rows := by
  unfold releaseResourceLease
  cases hget : db.resourceLeases.get? lease.taskId with
  | none =>
      refine ⟨false, db.resourceLeases, rfl, FreedIn.refl_of_get? (fun row hrow => ?_)⟩
      rw [hget] at hrow
      cases hrow
  | some row =>
      cases hheld : row.heldBy lease.ownerId lease.generation with
      | false =>
          refine ⟨false, db.resourceLeases, ?_, FreedIn.refl_of_get? (fun other hother => ?_)⟩
          · simp only [hheld, Bool.false_eq_true, if_false]
          · rw [hget] at hother
            cases hother
            exact hheld
      | true =>
          refine ⟨true, db.resourceLeases.put { row with leaseUntil := 0 }, ?_, ?_⟩
          · simp only [hheld, if_true]
          · exact FreedIn.put (Table.mem_of_get? hget)
              ⟨Table.key_of_get? hget, ResourceLease.heldBy_iff.mp hheld⟩

/-- **The release** gives the lease back, unless the process ends. -/
theorem ends_release {env : Env} {v : Sys} {broker : ResourceBroker} (hbroker : v.broker = some broker)
    (lease : ResourceLease) :
    Ends (fun _ t => v.GaveBack lease t) (fun fault _ => fault = .crash)
      (releaseResources env broker lease) v := by
  unfold releaseResources
  -- the store gives the lease back in one transaction, memory in its table
  cases hpersistent : broker.persistent with
  | true =>
      rw [if_pos rfl]
      obtain ⟨released, rows, hrun, hfreed⟩ := releaseResourceLease_freed lease v.db
      refine ends_store (fun e db hraised => ?_) (fun a db hok => ?_)
      · cases hrun.symm.trans hraised
      · cases hrun.symm.trans hok
        refine ⟨⟨⟨broker, broker, hbroker, hbroker, rfl, rfl, ?_⟩, rfl⟩, rfl⟩
        unfold Sys.resourceRows
        rw [if_pos hpersistent, if_pos hpersistent]
        exact hfreed
  | false =>
      rw [if_neg Bool.false_ne_true]
      have hrows : ∀ (u : Sys) (b : ResourceBroker), b.persistent = false →
          u.resourceRows b = b.leases := by
        intro u b hb
        unfold Sys.resourceRows
        rw [hb, if_neg Bool.false_ne_true]
      cases hheld : broker.held lease with
      -- the lease is not held any more: nothing is written, and no row with its identity is left
      | none =>
          refine Ends.pure ⟨⟨broker, broker, hbroker, hbroker, rfl, rfl, ?_⟩, rfl⟩
          rw [hrows v broker hpersistent]
          refine FreedIn.refl_of_get? (fun row hget => ?_)
          have hnone := Option.filter_eq_none_iff.mp hheld row hget
          simpa using hnone
      | some current =>
          -- it is held: its row is put back with an end of 0
          obtain ⟨hget, hnamed⟩ := Option.filter_eq_some_iff.mp hheld
          refine Ends.bind (Ends.modifying (Ends.pure ?_))
          refine ⟨⟨broker, _, hbroker, rfl, rfl, rfl, ?_⟩, rfl⟩
          rw [hrows v broker hpersistent, hrows _ { broker with
            leases := broker.leases.put { current with leaseUntil := 0 } } hpersistent]
          exact FreedIn.put (Table.mem_of_get? hget)
            ⟨Table.key_of_get? hget, ResourceLease.heldBy_iff.mp hnamed⟩

/-! ## The step

Up to its `try` a step may acquire a lease for its task; it writes no row of another one.
-/

/-- `self.resources`: whether there is a broker, which store it has and how much it gives out. Its
leases may change. -/
def Sys.brokerKind (s : Sys) : Option (Bool × ResourceCapacity) :=
  s.broker.map fun broker => (broker.persistent, broker.capacity)

/-- The calls under the `try` stay within a relation. -/
structure StepCalls.ActWithin (R : Sys → Sys → Prop) (calls : StepCalls) : Prop where
  wait : ∀ reason eventType, Within R (calls.wait reason eventType)
  update : ∀ state phase eventType actor, Within R (calls.update state phase eventType actor)
  settle : Within R calls.settle
  prepare : ∀ proposal expectedRevisions resourceLease,
    Within R (calls.prepare proposal expectedRevisions resourceLease)
  execute : ∀ operationId, Within R (calls.execute operationId)
  flush : Within R calls.flush

/-- Whatever else the calls under the `try` do, the runner keeps its broker. -/
abbrev StepCalls.KeepBroker (calls : StepCalls) : Prop := calls.ActWithin (Fixes Sys.brokerKind)

/-- The calls, with the broker's own acquisition and release among them. -/
def StepCalls.brokered (calls : StepCalls) (env : Env) (runner : Runner) (taskId : String)
    (manifest : ContextManifest) (taskLease : Option TaskLease) : StepCalls :=
  { calls with
    acquire := (StepCalls.real env runner taskId manifest taskLease).acquire
    release := (StepCalls.real env runner taskId manifest taskLease).release }

/-- What every call under the `try` stays within, all that is under it does. -/
theorem stepActWith_within {calls : StepCalls} {R : Sys → Sys → Prop} (hR : Frame R)
    (hcalls : calls.ActWithin R) (admitted : Admitted) : Within R (stepActWith calls admitted) := by
  have hsettled : ∀ operationId, Within R (settleStepWith calls operationId) := by
    intro operationId
    unfold settleStepWith
    refine hR.bind (within_getOperation hR operationId) (fun op => ?_)
    refine hR.bind (hcalls.update _ _ _ _) (fun _ => hR.bind hcalls.settle (fun _ => ?_))
    exact hR.bind hcalls.flush (fun _ => hR.pure _)
  have hexecuted : ∀ operationId, Within R (stepExecuteWith calls operationId) := by
    intro operationId
    unfold stepExecuteWith
    refine hR.bind (hcalls.update _ _ _ _) (fun _ => ?_)
    refine hR.bind (within_catching hR ?_ (fun _ => ?_)) (fun executed => ?_)
    · exact hR.bind (hcalls.execute operationId) (fun _ => hR.pure _)
    · exact hR.bind (hcalls.wait _ _) (fun _ => hR.pure _)
    · split
      · exact hsettled operationId
      · exact hR.pure _
  unfold stepActWith
  refine hR.bind (within_catching hR ?_ (fun e => ?_)) (fun prepared => ?_)
  · exact hR.bind (hcalls.prepare _ _ _) (fun _ => hR.pure _)
  · split
    · exact hR.bind (hcalls.wait _ _) (fun _ => hR.pure _)
    · exact hR.bind (hcalls.wait _ _) (fun _ => hR.pure _)
  · cases prepared with
    | inl exit => exact hR.pure _
    | inr operationId => exact hexecuted operationId

/-- The leases of the store and of the broker. -/
def Sys.leaseTables (s : Sys) :
    Table ResourceLease.taskId × Option (Table ResourceLease.taskId) :=
  (s.db.resourceLeases, s.broker.map ResourceBroker.leases)

/-- No lease of another task has been written, in the store or by the broker. -/
def Sys.OthersKept (taskId : String) (s t : Sys) : Prop :=
  ∀ row : ResourceLease, row.taskId ≠ taskId →
    (row ∈ t.db.resourceLeases.rows ↔ row ∈ s.db.resourceLeases.rows) ∧
    ((∃ now, t.broker = some now ∧ row ∈ now.leases.rows) ↔
      ∃ before, s.broker = some before ∧ row ∈ before.leases.rows)

/-- Where the tables of leases are as they were, so are the rows of others. -/
theorem Sys.othersKept_of_tables {taskId : String} {s t : Sys} (h : t.leaseTables = s.leaseTables) :
    s.OthersKept taskId t := by
  obtain ⟨hstored, hheld⟩ := Prod.mk.inj h
  have hlisted : ∀ (u : Sys) (row : ResourceLease),
      (∃ broker, u.broker = some broker ∧ row ∈ broker.leases.rows) ↔
        ∃ leases, u.broker.map ResourceBroker.leases = some leases ∧ row ∈ leases.rows := by
    intro u row
    cases u.broker with
    | none => simp
    | some broker => simp
  intro row _
  rw [hstored, hlisted, hlisted, hheld]
  exact ⟨Iff.rfl, Iff.rfl⟩

/-- What is kept twice is kept. -/
theorem Sys.OthersKept.trans {taskId : String} {s t u : Sys} (hst : s.OthersKept taskId t)
    (htu : t.OthersKept taskId u) : s.OthersKept taskId u := fun row hrow =>
  ⟨(htu row hrow).1.trans (hst row hrow).1, (htu row hrow).2.trans (hst row hrow).2⟩

/-- A lease that is put in writes over that of its own task only. -/
theorem mem_put_of_other {taskId : String} {lease row : ResourceLease}
    {rows : Table ResourceLease.taskId} (hown : lease.taskId = taskId) (hrow : row.taskId ≠ taskId) :
    row ∈ (rows.put lease).rows ↔ row ∈ rows.rows := by
  rw [Table.mem_put]
  constructor
  · rintro (rfl | ⟨hmem, -⟩)
    · exact absurd hown hrow
    · exact hmem
  · intro hmem
    exact Or.inr ⟨hmem, fun hsame => hrow (hsame.trans hown)⟩

/-- Nobody else writes a lease while the step runs. -/
structure StepCalls.KeepLeases (calls : StepCalls) : Prop
    extends calls.ActWithin (Fixes Sys.leaseTables) where
  nextAction : Within (Fixes Sys.leaseTables) calls.nextAction
  resolve : ∀ proposal, Within (Fixes Sys.leaseTables) (calls.resolve proposal)
  evaluate : ∀ proposal spec, Within (Fixes Sys.leaseTables) (calls.evaluate proposal spec)

section

variable {env : Env} {taskId ownerId : String} {broker : ResourceBroker} {request : ResourceRequest}
  {leaseSeconds : ℚ} {s : Sys}

/-- **The acquisition** leaves a lease of the task and a broker that gave it out, or the leases as
they were; those of other tasks it leaves in any case. -/
theorem ends_acquire (hbroker : s.broker = some broker) :
    Ends
      (fun acquired t => t.broker.isSome = true ∧ (acquired = none → t.leaseTables = s.leaseTables) ∧
        s.OthersKept taskId t ∧ ∀ lease, acquired = some lease → lease.taskId = taskId)
      (fun fault t => fault = .crash ∨ t.leaseTables = s.leaseTables)
      (acquireResources env broker taskId ownerId request leaseSeconds) s := by
  have hsome : s.broker.isSome = true := by rw [hbroker]; rfl
  unfold acquireResources
  split
  -- the checks of the arguments write nothing
  · exact Ends.throw (Or.inr rfl)
  split
  · exact Ends.throw (Or.inr rfl)
  split
  · exact Ends.pure ⟨hsome, fun _ => rfl, Sys.othersKept_of_tables rfl, nofun⟩
  refine Ends.bind (Ends.of_ok (rfl : readClock env s = _) ?_)
  split
  · -- a transaction that raises has written nothing, and one that gives nothing out neither
    refine ends_store (fun e db _ => Or.inr rfl)
      (fun a db hrun => ⟨⟨hsome, fun hnone => ?_, ?_⟩, Or.inl rfl⟩)
    · rcases acquireResourceLease_cases taskId ownerId request broker.capacity leaseSeconds
        (env.clock s.clockReads) s.db with ⟨e, h⟩ | h | ⟨lease, h, _⟩
      · cases h.symm.trans hrun
      · cases h.symm.trans hrun
        rfl
      · cases h.symm.trans hrun
        cases hnone
    · rcases acquireResourceLease_cases taskId ownerId request broker.capacity leaseSeconds
        (env.clock s.clockReads) s.db with ⟨e, h⟩ | h | ⟨lease, h, ⟨hown, _⟩, _⟩
      · cases h.symm.trans hrun
      · cases h.symm.trans hrun
        exact ⟨Sys.othersKept_of_tables rfl, nofun⟩
      · cases h.symm.trans hrun
        refine ⟨fun row hrow => ⟨mem_put_of_other hown hrow, Iff.rfl⟩, ?_⟩
        rintro _ ⟨⟩
        exact hown
  · split
    · exact Ends.pure ⟨hsome, fun _ => rfl, Sys.othersKept_of_tables rfl, nofun⟩
    -- without a store the lease is put into the broker
    · rename_i lease hgranted
      have hown := (ResourceBroker.grants_eq_some hgranted).1.1
      refine Ends.bind (Ends.modifying (Ends.pure ⟨rfl, ?_, fun row hrow => ⟨Iff.rfl, ?_⟩, ?_⟩))
      · rintro ⟨⟩
      · simp only [hbroker, Option.some.injEq, exists_eq_left']
        exact mem_put_of_other hown hrow
      · rintro _ ⟨⟩
        exact hown

end

section

variable (env : Env) (runner : Runner) (taskId : String) (manifest : ContextManifest)
  (taskLease : Option TaskLease) {calls : StepCalls}

/-- The leases are as they were, where nobody else writes them. -/
def StepCalls.LeasesKept (calls : StepCalls) (s t : Sys) : Prop :=
  calls.KeepLeases → t.leaseTables = s.leaseTables

/-- Keeping the leases, if the calls do, is a frame. -/
theorem StepCalls.frame_leasesKept (calls : StepCalls) : Frame calls.LeasesKept where
  refl _ _ := rfl
  trans h₁ h₂ hcalls := (h₂ hcalls).trans (h₁ hcalls)

/-- What fixes the tables of leases under that condition stays within it. -/
theorem StepCalls.within_leasesKept {α : Type} {m : M α}
    (h : calls.KeepLeases → Within (Fixes Sys.leaseTables) m) : Within calls.LeasesKept m :=
  fun s hcalls => h hcalls s

/-- What a step brings before its `try`: a broker, if it has a lease; and otherwise the leases as
it found them. -/
structure StepCalls.Brings (calls : StepCalls) (taskId : String) (s : Sys)
    (a : StepExit ⊕ Admitted) (t : Sys) : Prop where
  broker : (StepExit.leased a).isSome = true → t.broker.isSome = true
  tables : StepExit.leased a = none → calls.LeasesKept s t
  own : ∀ lease, StepExit.leased a = some lease → lease.taskId = taskId
  others : calls.KeepLeases → s.OthersKept taskId t

/-- A call whose end is that of what comes before the `try`. -/
theorem ends_brings {taskId : String} {α : Type} {s u : Sys} (hsu : calls.LeasesKept s u) {m : M α}
    (hm : calls.KeepLeases → Within (Fixes Sys.leaseTables) m) {f : α → M (StepExit ⊕ Admitted)}
    (hf : ∀ a v, calls.LeasesKept s v →
      Ends (calls.Brings taskId s) (fun fault t => fault = .crash ∨ calls.LeasesKept s t) (f a) v) :
    Ends (calls.Brings taskId s) (fun fault t => fault = .crash ∨ calls.LeasesKept s t) (m >>= f) u := by
  have hF := calls.frame_leasesKept
  refine Ends.bind ?_
  refine Ends.mono (Ends.of_after (StepCalls.within_leasesKept hm u)) (fun a v huv => ?_)
    (fun _ v huv => Or.inr (hF.trans hsu huv))
  exact hf a v (hF.trans hsu huv)

/-- A step that returns early has acquired nothing. -/
theorem ends_exit {taskId : String} {s u : Sys} (hsu : calls.LeasesKept s u) (exit : StepExit) :
    Ends (calls.Brings taskId s) (fun fault t => fault = .crash ∨ calls.LeasesKept s t)
      (pure (.inl exit) : M (StepExit ⊕ Admitted)) u :=
  Ends.pure ⟨nofun, fun _ => hsu, nofun, fun hkeep => Sys.othersKept_of_tables (hsu hkeep)⟩

/-- Before the `try` the broker is asked once, and what it grants is the row of the task of the
step. -/
theorem ends_stepAcquire {s u : Sys} (hsu : calls.LeasesKept s u) (spec : ActionSpec)
    (proposal : ActionProposal) (expectedRevisions : List (String × Int)) :
    Ends (calls.Brings taskId s) (fun fault t => fault = .crash ∨ calls.LeasesKept s t)
      (stepAcquire (calls.brokered env runner taskId manifest taskLease) spec proposal
        expectedRevisions taskLease) u := by
  have hF := calls.frame_leasesKept
  unfold stepAcquire
  refine Ends.bind (Ends.get ?_)
  split
  · -- nothing is asked for: the step comes to its `try` without a lease
    exact Ends.pure
      ⟨nofun, fun _ => hsu, nofun, fun hkeep => Sys.othersKept_of_tables (hsu hkeep)⟩
  cases taskLease with
  | none => exact ends_brings hsu (fun h => h.wait _ _) (fun _ v hv => ends_exit hv _)
  | some lease =>
      cases hbroker : u.broker with
      | none => exact ends_brings hsu (fun h => h.wait _ _) (fun _ v hv => ends_exit hv _)
      | some broker =>
          refine Ends.bind ?_
          refine Ends.mono (ends_acquire hbroker) (fun acquired v hv => ?_) (fun fault v hv => ?_)
          · cases acquired with
            | none =>
                have hkept : calls.LeasesKept s v := hF.trans hsu (fun _ => hv.2.1 rfl)
                exact ends_brings hkept (fun h => h.wait _ _) (fun _ w hw => ends_exit hw _)
            | some resourceLease =>
                refine Ends.pure ⟨fun _ => hv.1, ?_, hv.2.2.2, fun hkeep => ?_⟩
                · rintro ⟨⟩
                · exact (Sys.othersKept_of_tables (hsu hkeep)).trans hv.2.2.1
          · exact hv.imp_right (fun hsame => hF.trans hsu (fun _ => hsame))

/-- Up to the `try` a step changes leases only by that acquisition. -/
theorem ends_stepAdmit (s : Sys) :
    Ends (calls.Brings taskId s) (fun fault t => fault = .crash ∨ calls.LeasesKept s t)
      (stepAdmit (calls.brokered env runner taskId manifest taskLease) runner taskId manifest
        taskLease) s := by
  have hF := frame_fixes Sys.leaseTables
  have hsame := calls.frame_leasesKept.refl
  -- from the model on: calls that leave the lease tables alone, up to the acquisition
  have hdecide : ∀ u, calls.LeasesKept s u →
      Ends (calls.Brings taskId s) (fun fault t => fault = .crash ∨ calls.LeasesKept s t)
        (stepDecide (calls.brokered env runner taskId manifest taskLease) manifest taskLease) u := by
    intro u hu
    unfold stepDecide
    refine ends_brings hu (fun h => h.update _ _ _ _) (fun _ u hu => ?_)
    refine ends_brings hu (fun h => h.nextAction) (fun proposal u hu => ?_)
    refine ends_brings hu (fun h => h.resolve proposal) (fun spec u hu => ?_)
    refine ends_brings hu (fun _ => within_liftExcept hF _) (fun expectedRevisions u hu => ?_)
    refine ends_brings hu (fun h => h.update _ _ _ _) (fun _ u hu => ?_)
    refine ends_brings hu (fun h => h.evaluate proposal spec) (fun decision u hu => ?_)
    cases decision with
    | deny => exact ends_brings hu (fun h => h.update _ _ _ _) (fun _ v hv => ends_exit hv _)
    | requireConfirmation =>
        exact ends_brings hu (fun h => h.update _ _ _ _) (fun _ v hv => ends_exit hv _)
    | allow => exact ends_stepAcquire env runner taskId manifest taskLease hu _ _ _
  unfold stepAdmit
  refine ends_brings (hsame s) (fun _ => within_getTask hF taskId) (fun task u hu => ?_)
  refine Ends.bind (Ends.get ?_)
  split
  · exact Ends.throw (Or.inr hu)
  split
  · exact Ends.throw (Or.inr hu)
  split
  · exact ends_brings hu (fun h => h.wait _ _) (fun _ v hv => ends_exit hv _)
  split
  · exact ends_brings hu (fun h => h.settle) (fun _ v hv => ends_exit hv _)
  · exact hdecide u hu

/-! ## The guarantee

However the part under the `try` ends, the `finally` releases; what that raises itself is an end of
its own.
-/

/-- The method returned or raised, and left this. -/
def EndedIn {α : Type} (m : M α) (s t : Sys) : Prop :=
  (∃ a, m s = .ok a t) ∨ ∃ e, m s = .error (.raised e) t

/-- What holds of every end that is no crash holds of the one a step came to. -/
theorem EndedIn.of_ends {α : Type} {m : M α} {s t : Sys} {P : Sys → Prop}
    (h : Ends (fun _ t => P t) (fun fault t => fault = .crash ∨ P t) m s) (hended : EndedIn m s t) :
    P t := by
  rcases hended with ⟨a, hok⟩ | ⟨e, herror⟩
  · exact h.returned hok
  · rcases h.raised herror with hcrash | hP
    · cases hcrash
    · exact hP

/-- A step ended in its first part, by raising, or in the rest of it. -/
theorem EndedIn.bind_cases {α β : Type} {m : M α} {f : α → M β} {s t : Sys}
    (h : EndedIn (m >>= f) s t) :
    (∃ e, m s = .error (.raised e) t) ∨ ∃ a u, m s = .ok a u ∧ EndedIn (f a) u t := by
  cases hrun : m s with
  | ok a u =>
      have heq : (m >>= f) s = f a u := by simp only [bind, EStateM.bind, hrun]
      refine Or.inr ⟨a, u, rfl, ?_⟩
      rwa [EndedIn, heq] at h
  | error fault u =>
      have heq : (m >>= f) s = .error fault u := by simp only [bind, EStateM.bind, hrun]
      rw [EndedIn, heq] at h
      rcases h with ⟨a, hok⟩ | ⟨e, herror⟩
      · cases hok
      · cases herror
        exact Or.inl ⟨e, rfl⟩

/-- A body under the `finally` of a step. -/
theorem ends_withRelease {u : Sys} (hbroker : u.broker.isSome = true) {α : Type} {body : M α}
    (hbody : Within (Fixes Sys.brokerKind) body) (lease : ResourceLease) :
    Ends (fun _ t => ∃ v, EndedIn body u v ∧ v.GaveBack lease t)
      (fun fault t => fault = .crash ∨ ∃ v, EndedIn body u v ∧ v.GaveBack lease t)
      (withCleanup body ((StepCalls.real env runner taskId manifest taskLease).release lease)) u := by
  have hrelease : ∀ v, v.brokerKind = u.brokerKind →
      Ends (fun _ t => v.GaveBack lease t) (fun fault _ => fault = .crash)
        ((StepCalls.real env runner taskId manifest taskLease).release lease) v := by
    intro v hv
    have hsome : v.broker.isSome = true := by
      have hkind := congrArg Option.isSome hv
      simpa only [Sys.brokerKind, Option.isSome_map, hbroker] using hkind
    obtain ⟨broker, hfound⟩ := Option.isSome_iff_exists.mp hsome
    refine Ends.bind (Ends.get ?_)
    rw [hfound]
    exact Ends.bind ((ends_release hfound lease).mono (fun _ _ h => Ends.pure h) (fun _ _ h => h))
  -- the release runs where the body returned and where it raised, and not where the process ended
  refine Ends.ensuring ⟨fun {a v} hrun => ?_, fun {fault v} hrun => ?_⟩
  · refine (hrelease v (hbody.of_ok hrun)).mono (fun _ t ht => ?_) (fun _ _ hcrash => Or.inl hcrash)
    exact ⟨v, Or.inl ⟨a, hrun⟩, ht⟩
  · cases fault with
    | crash => exact ⟨fun _ => Or.inl rfl, nofun⟩
    | raised e =>
        refine ⟨nofun, fun _ => ?_⟩
        refine (hrelease v (hbody.of_error hrun)).mono (fun _ t ht => ?_)
          (fun _ _ hcrash => Or.inl hcrash)
        exact Or.inr ⟨v, Or.inr ⟨e, hrun⟩, ht⟩

/-- The lease is not valid, takes up nothing, and is the only one that was written. -/
structure Sys.Freed (lease : ResourceLease) (v t : Sys) : Prop where
  invalid : ∀ broker, t.broker = some broker → ∀ env : Env, (∀ n, 0 ≤ env.clock n) →
    ∃ u, validateResources env broker lease t = .ok false u
  unfenced : ∀ broker, t.broker = some broker → broker.persistent = true → ∀ ts, 0 ≤ ts →
    t.db.validateResourceLeaseIdentity lease.taskId lease.ownerId lease.generation ts = false
  uncounted : ∀ broker, t.broker = some broker → ∀ ts, 0 ≤ ts → ∀ other,
    ∀ counted ∈ t.countedLeases broker ts other, ¬ counted.IsOf lease
  others : ∀ before now, v.broker = some before → t.broker = some now → ∀ row, ¬ row.IsOf lease →
    (row ∈ (t.resourceRows now).rows ↔ row ∈ (v.resourceRows before).rows)
  rest : t =
    { v with
      db := { v.db with resourceLeases := t.db.resourceLeases }
      broker := t.broker
      boundaries := t.boundaries }

/-- A release that found the lease, or found it gone, leaves it freed. -/
theorem Sys.GaveBack.freed {lease : ResourceLease} {v t : Sys} (h : v.GaveBack lease t) :
    v.Freed lease t := by
  obtain ⟨⟨before, now, hbefore, hnow, -, -, hfreed⟩, hrest⟩ := h
  refine ⟨?_, ?_, ?_, ?_, hrest⟩
  · intro broker hbroker env hclock
    cases hnow.symm.trans hbroker
    exact hfreed.validate hclock
  · intro broker hbroker hpersistent ts hts
    cases hnow.symm.trans hbroker
    exact hfreed.validateIdentity hpersistent hts
  · intro broker hbroker ts hts other
    cases hnow.symm.trans hbroker
    exact hfreed.counted hts other
  · intro before' now' hbefore' hnow' row
    cases hbefore.symm.trans hbefore'
    cases hnow.symm.trans hnow'
    exact hfreed.others row

/-- A step that comes to its `try` with a lease. -/
theorem stepFinish_freed (hcalls : calls.KeepBroker) {admitted : Admitted} {lease : ResourceLease}
    {u t : Sys} (hlease : admitted.resourceLease = some lease) (hbroker : u.broker.isSome = true)
    (hended : EndedIn (stepFinish (calls.brokered env runner taskId manifest taskLease)
      (.inr admitted)) u t) :
    ∃ v, EndedIn (stepActWith (calls.brokered env runner taskId manifest taskLease) admitted) u v ∧
      v.Freed lease t := by
  have hact : Within (Fixes Sys.brokerKind)
      (stepActWith (calls.brokered env runner taskId manifest taskLease) admitted) :=
    stepActWith_within (frame_fixes _) ⟨hcalls.wait, hcalls.update, hcalls.settle, hcalls.prepare,
      hcalls.execute, hcalls.flush⟩ admitted
  simp only [stepFinish, hlease] at hended
  obtain ⟨v, hv, hback⟩ := EndedIn.of_ends
    (ends_withRelease env runner taskId manifest taskLease hbroker hact lease) hended
  exact ⟨v, hv, hback.freed⟩

/-- A step that comes to its end, or to its `try`, without one. -/
theorem stepFinish_kept (hkeep : calls.KeepLeases) {a : StepExit ⊕ Admitted} {u t : Sys}
    (hlease : StepExit.leased a = none)
    (hended : EndedIn (stepFinish (calls.brokered env runner taskId manifest taskLease) a) u t) :
    t.leaseTables = u.leaseTables := by
  have hF := frame_fixes Sys.leaseTables
  have hfinish : Within (Fixes Sys.leaseTables)
      (stepFinish (calls.brokered env runner taskId manifest taskLease) a) := by
    cases a with
    | inl exit => exact hF.pure exit
    | inr admitted =>
        have hnone : admitted.resourceLease = none := hlease
        simp only [stepFinish, hnone]
        exact stepActWith_within hF ⟨hkeep.wait, hkeep.update, hkeep.settle, hkeep.prepare,
          hkeep.execute, hkeep.flush⟩ admitted
  rcases hended with ⟨exit, hok⟩ | ⟨e, herror⟩
  · exact hfinish.of_ok hok
  · exact hfinish.of_error herror

/-- **A step leaks no resource lease.** Whatever its other calls do, when it has returned or raised:
a lease that it came to its `try` with is freed, in the state in which what is under the `try` has
ended; and if it came without one, it has written none.  On the way to the `try` it has written
nothing of another task. -/
theorem step_releases (hcalls : calls.KeepBroker) {s t : Sys}
    (hended : EndedIn (stepWith (calls.brokered env runner taskId manifest taskLease) runner taskId
      manifest taskLease) s t) :
    (∀ admitted u lease,
      stepAdmit (calls.brokered env runner taskId manifest taskLease) runner taskId manifest
          taskLease s = .ok (.inr admitted) u →
      admitted.resourceLease = some lease →
      lease.taskId = taskId ∧ (calls.KeepLeases → s.OthersKept taskId u) ∧
        ∃ v, EndedIn (stepActWith (calls.brokered env runner taskId manifest taskLease) admitted)
            u v ∧
          v.Freed lease t) ∧
    ((∀ admitted u,
      stepAdmit (calls.brokered env runner taskId manifest taskLease) runner taskId manifest
          taskLease s = .ok (.inr admitted) u →
      admitted.resourceLease = none) → calls.KeepLeases → t.leaseTables = s.leaseTables) := by
  have hadmits := @ends_stepAdmit env runner taskId manifest taskLease calls s
  -- the step ended before its try, or the try was entered or skipped
  rcases hended.bind_cases with ⟨e, hraised⟩ | ⟨a, u, hadmit, hfinish⟩
  · constructor
    · intro admitted u lease hadmitted
      cases hraised.symm.trans hadmitted
    · intro _ hkeep
      rcases hadmits.raised hraised with hcrash | hkept
      · cases hcrash
      · exact hkept hkeep
  · have hbrings := hadmits.returned hadmit
    constructor
    · intro admitted u' lease hadmitted hlease
      cases hadmit.symm.trans hadmitted
      have hbroker := hbrings.broker (Option.isSome_of_eq_some hlease)
      refine ⟨hbrings.own lease hlease, hbrings.others, ?_⟩
      exact stepFinish_freed env runner taskId manifest taskLease hcalls hlease hbroker hfinish
    -- no lease was acquired, so the tables are as they were before and after the try
    · intro hnone hkeep
      have hlease : StepExit.leased a = none := by
        cases a with
        | inl exit => rfl
        | inr admitted => exact hnone admitted u hadmit
      have hkept := stepFinish_kept env runner taskId manifest taskLease hkeep hlease hfinish
      exact hkept.trans (hbrings.tables hlease hkeep)

end

/-! ## The calls there are -/

/-- Anything may happen, but the resource leases and the broker stay. -/
def Allowance.unleased : Allowance := { Allowance.free with resources := False }

/-- Leaving the leases alone is closed: what does it twice does it. -/
theorem Allowance.unleased_closed : Allowance.unleased.Closed where
  task := fun _ _ _ _ _ _ => trivial
  operation := fun _ _ _ _ _ _ => trivial
  world := fun _ _ _ _ _ => trivial

/-- Moves that leave the leases alone leave their table and the broker. -/
theorem Moves.leases_eq {s t : Sys} (h : Moves .unleased s t) :
    t.db.resourceLeases = s.db.resourceLeases ∧ t.broker = s.broker :=
  h.resourceLeases.resolve_left id

/-- So they leave the leases of both modes. -/
theorem Moves.leaseTables_eq {s t : Sys} (h : Moves .unleased s t) :
    t.leaseTables = s.leaseTables := by
  rw [Sys.leaseTables, h.leases_eq.1, h.leases_eq.2]
  rfl

section

variable (env : Env) (runner : Runner) (taskId : String) (manifest : ContextManifest)
  (taskLease : Option TaskLease)

/-- The calls under the `try` leave the leases and the broker alone. -/
theorem StepCalls.real_actWithin {R : Sys → Sys → Prop} (hR : ∀ s t, Moves .unleased s t → R s t) :
    (real env runner taskId manifest taskLease).ActWithin R := by
  have hA := Allowance.unleased_closed
  have hworks : Allowance.unleased.Works taskId := .of_free (fun _ => trivial) (fun _ _ => trivial)
  have htouch := hworks.toTouches
  have hflush : Within (Moves .unleased) (flushOutbox env >>= fun _ => pure ()) :=
    (Moves.frame hA).bind (moves_flushOutbox hA env) (fun _ => (Moves.frame hA).pure _)
  constructor
  · intro reason eventType s
    exact hR _ _ (moves_waitTask hA env htouch _ _ (fun _ _ => trivial))
  · intro state phase eventType actor s
    exact hR _ _ (moves_updateRuntimeState hA env htouch _ _ _ _ (fun _ _ => trivial))
  · intro s
    exact hR _ _ (moves_settleControl hA env htouch _ _ (fun _ _ _ => trivial))
  · intro proposal expectedRevisions resourceLease s
    exact hR _ _ (moves_prepare hA env hworks (fun _ _ _ => trivial) _ _ _ _ s)
  · intro operationId s
    exact hR _ _ (moves_executeOperation hA env (fun _ _ _ => trivial)
      (fun _ _ _ _ _ _ _ => trivial))
  · intro s
    exact hR _ _ (hflush s)

/-- The calls that there are keep the broker of the runner. -/
theorem StepCalls.real_keepBroker : (real env runner taskId manifest taskLease).KeepBroker :=
  real_actWithin env runner taskId manifest taskLease
    (fun s t h => by rw [Fixes, Sys.brokerKind, h.leases_eq.2]; rfl)

/-- The calls that there are, other than the two, touch no lease. -/
theorem StepCalls.real_keepLeases : (real env runner taskId manifest taskLease).KeepLeases := by
  have hF := frame_fixes Sys.leaseTables
  exact { real_actWithin env runner taskId manifest taskLease (fun _ _ h => h.leaseTables_eq) with
    nextAction := fun s => Moves.leaseTables_eq (within_callOut (env.nextAction · manifest) s)
    resolve := fun proposal => hF.bind hF.get (fun s => within_liftExcept hF _)
    evaluate := fun proposal spec =>
      hF.bind (within_getTask hF taskId) (fun task => hF.pure _) }

end

/-! ## A small step -/

/-- An action that needs a processor, with a broker that has one, and no store. -/
def Small.brokeredStart : Sys :=
  { Small.start with
    persistent := false
    registry := Table.empty.put { Small.spec with resourceRequest := { cpuUnits := 1 } }
    broker := some { capacity := ⟨1, 0, 0⟩, persistent := false } }

/-- The calls of the example, without its broker. -/
def Small.restCalls : StepCalls :=
  StepCalls.real Small.env Small.runner "t" Small.manifest (some Small.lease)

/-- The same with the broker for its acquisition and its release. -/
def Small.brokeredCalls : StepCalls :=
  Small.restCalls.brokered Small.env Small.runner "t" Small.manifest (some Small.lease)

/-- A step of the small engine, over its calls. -/
def Small.brokeredStep : M StepExit :=
  stepWith Small.brokeredCalls Small.runner "t" Small.manifest (some Small.lease)

/-- The step of the example comes to an end. -/
theorem Small.brokeredStep_ended :
    EndedIn Small.brokeredStep Small.brokeredStart (after Small.brokeredStep Small.brokeredStart) := by
  have hreturned : (match Small.brokeredStep Small.brokeredStart with
      | .ok _ _ => true
      | .error _ _ => false) = true := by
    decide +kernel
  cases hrun : Small.brokeredStep Small.brokeredStart with
  | ok exit t =>
      rw [after_of_ok hrun]
      exact Or.inl ⟨exit, hrun⟩
  | error fault t =>
      rw [hrun] at hreturned
      cases hreturned

/-- The lease it acquired has run out. -/
theorem step_releases_small :
    ((after Small.brokeredStep Small.brokeredStart).broker.map fun broker =>
      broker.leases.rows.map fun lease => (lease.generation, lease.leaseUntil)) = some [(1, 0)] ∧
    (∀ admitted u lease,
      stepAdmit Small.brokeredCalls Small.runner "t" Small.manifest (some Small.lease)
        Small.brokeredStart = .ok (.inr admitted) u →
      admitted.resourceLease = some lease →
      lease.taskId = "t" ∧ (Small.restCalls.KeepLeases → Small.brokeredStart.OthersKept "t" u) ∧
        ∃ v, EndedIn (stepActWith Small.brokeredCalls admitted) u v ∧
          v.Freed lease (after Small.brokeredStep Small.brokeredStart)) ∧
    ((∀ admitted u,
      stepAdmit Small.brokeredCalls Small.runner "t" Small.manifest (some Small.lease)
        Small.brokeredStart = .ok (.inr admitted) u →
      admitted.resourceLease = none) →
      (after Small.brokeredStep Small.brokeredStart).leaseTables
        = Small.brokeredStart.leaseTables) := by
  obtain ⟨hfreed, hkept⟩ := step_releases Small.env Small.runner "t" Small.manifest
    (some Small.lease) (StepCalls.real_keepBroker _ _ _ _ _) Small.brokeredStep_ended
  exact ⟨by decide +kernel, hfreed, fun hnone => hkept hnone (StepCalls.real_keepLeases _ _ _ _ _)⟩

end LiandanluNative
