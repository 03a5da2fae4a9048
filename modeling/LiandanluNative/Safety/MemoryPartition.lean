/-
# LiandanluNative.Safety.MemoryPartition — whether records are kept in their partition.

A commit files a record under its partition and `latest` looks there, but the migration files every
legacy row under the workspace `legacy`.  For a row of scope `global` that is the wrong partition,
and no lookup finds it.  `partition_iff` says that without such a row the invariant holds for good;
that the record found for a global key is the newest is then a matter of `MemoryMove.Current` alone.
-/
import LiandanluNative.MemoryRuns
import LiandanluNative.Safety.MemoryMigration

namespace LiandanluNative

open Lib (Table)

/-! ## Where a run starts -/

/-- The tables of a fresh database, or those of a database with a legacy memory table. -/
def foundSchema : Option (List LegacyMemory) → MemorySchema
  | none => {}
  | some rows => legacySchema rows

/-- A pipeline's store on a database. -/
def MemorySys.opened (db : Database) : MemorySys where
  store := .fromPersistence db
  db := db

/-! ## The invariant -/

/-- The record is in the store or in its database. -/
def MemorySys.Stored (s : MemorySys) (r : MemoryRecord) : Prop :=
  r ∈ s.store.records.rows ∨ r ∈ s.db.memoryRecords.rows

/-- Every stored record is in its partition, a global one in `*`, and `latest` finds the newest of
them whatever workspace asks. -/
structure MemorySys.Partitioned (s : MemorySys) : Prop where
  partition : ∀ r, s.Stored r → r.workspaceId = memoryPartition r.workspaceId r.scope
  everywhere : ∀ r, s.Stored r → r.scope = "global" → r.workspaceId = "*"
  found : ∀ r, s.Stored r → r.scope = "global" → ∀ workspaceId, ∃ w,
    s.store.latest workspaceId "global" r.key r.kind = some w ∧ s.Stored w ∧
      w.scope = "global" ∧ w.key = r.key ∧ w.kind = r.kind ∧
      ∀ u, s.Stored u → u.scope = "global" → u.key = r.key → u.kind = r.kind →
        u.revision ≤ w.revision

/-- The keys of the scope `global`. -/
def GlobalKey (key : MemoryKey) : Prop := key.2.1 = "global"

/-- The record is in its partition, and a global one has an id the store can look up. -/
def MemoryRecord.InPartition (r : MemoryRecord) : Prop :=
  r.workspaceId = memoryPartition r.workspaceId r.scope ∧
    (r.scope = "global" → MemoryStore.usable r.memoryId = true)

theorem durable_inPartition (uuid : ℕ → String) : Durable uuid MemoryRecord.InPartition where
  congr := by
    rintro r r' hid hkey ⟨hpartition, husable⟩
    have hworkspace : r.workspaceId = r'.workspaceId := congrArg Prod.fst hkey
    have hscope : r.scope = r'.scope := congrArg (fun key => key.2.1) hkey
    rw [hworkspace, hscope] at hpartition
    rw [hid, hscope] at husable
    exact ⟨hpartition, husable⟩
  made candidate n previous :=
    ⟨(memoryPartition_idem candidate.workspaceId candidate.scope).symm,
      fun _ => newMemoryId_usable uuid n⟩

/-- A global record in its partition has the key `latest` looks under. -/
theorem MemoryRecord.InPartition.globalKey {r : MemoryRecord} (h : r.InPartition)
    (hscope : r.scope = "global") : r.memoryKey = ("*", "global", r.key, r.kind) := by
  have hworkspace : r.workspaceId = "*" := by
    rw [h.1, hscope]
    exact memoryPartition_global _
  unfold MemoryRecord.memoryKey
  rw [hworkspace, hscope]

/-- With every record in its partition, all that is left to say is that the global keys are at their
newest. -/
theorem partitioned_iff {uuid : ℕ → String} {s : MemorySys} (hs : s.Sound uuid)
    (he : s.Every MemoryRecord.InPartition) (hloaded : s.Loaded)
    (hpersistent : s.store.persistent = true) :
    s.Partitioned ↔ ∀ key, GlobalKey key → s.store.Newest key := by
  have hin : ∀ r, s.Stored r → r.InPartition :=
    fun r hr => hr.elim (he.store r) (he.rows r)
  constructor
  -- a global record is found from its own workspace, and the one found is the newest
  · intro h key hglobal r hr hkey
    have hscope : r.scope = "global" := by
      rw [← hkey] at hglobal
      exact hglobal
    obtain ⟨w, hw, _, _, _, _, htop⟩ := h.found r (Or.inl hr) hscope r.workspaceId
    refine ⟨w, ?_, htop r (Or.inl hr) hscope rfl rfl⟩
    rw [← hkey, (he.store r hr).globalKey hscope]
    unfold MemoryStore.latest at hw
    rw [memoryPartition_global] at hw
    exact hw
  · intro hnewest
    refine ⟨fun r hr => (hin r hr).1, fun r hr hscope => ?_, fun r hr hscope workspaceId => ?_⟩
    · rw [(hin r hr).1, hscope]
      exact memoryPartition_global _
    · -- a row of the database stands in the store too
      have hheld : ∀ u, s.Stored u → u.scope = "global" → ∃ u' ∈ s.store.records.rows,
          u'.memoryKey = ("*", "global", u.key, u.kind) ∧ u'.revision = u.revision := by
        rintro u (hu | hu) huScope
        · exact ⟨u, hu, (he.store u hu).globalKey huScope, rfl⟩
        · obtain ⟨u', hu', hid⟩ := hloaded hpersistent u hu
          obtain ⟨hkey, hrevision⟩ := hs.agree u' hu' u hu hid
          exact ⟨u', hu', hkey.trans ((he.rows u hu).globalKey huScope), hrevision⟩
      obtain ⟨r', hr', hkey', _⟩ := hheld r hr hscope
      obtain ⟨w, hw, _⟩ := hnewest ("*", "global", r.key, r.kind) rfl r' hr' hkey'
      obtain ⟨hwKey, hwMem⟩ := hs.grounded.current_key hw
      simp only [MemoryRecord.memoryKey, Prod.mk.injEq] at hwKey
      refine ⟨w, ?_, Or.inl hwMem, hwKey.2.1, hwKey.2.2.1, hwKey.2.2.2, ?_⟩
      · unfold MemoryStore.latest
        rw [memoryPartition_global]
        exact hw
      -- a newer stored record would have a key of the same partition
      · intro u hu huScope huKey huKind
        obtain ⟨u', hu', hkeyU, hrevision⟩ := hheld u hu huScope
        rw [huKey, huKind] at hkeyU
        obtain ⟨w', hw', hle⟩ := hnewest ("*", "global", r.key, r.kind) rfl u' hu' hkeyU
        cases hw.symm.trans hw'
        rw [← hrevision]
        exact hle

/-! ## From the first open on -/

/-- What an opened store knows of its database. -/
theorem opened_sound {uuid : ℕ → String} {P : MemoryRecord → Prop} {db : Database}
    (hfresh : ∀ n, ∀ row ∈ db.memoryRecords.rows, row.memoryId ≠ newMemoryId uuid n)
    (hP : ∀ row ∈ db.memoryRecords.rows, P row) :
    (MemorySys.opened db).Sound uuid ∧ (MemorySys.opened db).Every P ∧
      (MemorySys.opened db).Loaded := by
  obtain ⟨hground, hmem, _⟩ := fromPersistence_spec db
  refine ⟨⟨hground, ?_, ?_, ?_⟩, ⟨?_, hP⟩, ?_⟩
  · intro r hr row hrow heq
    rw [db.memoryRecords.eq_of_key_eq ((hmem r).mp hr) hrow heq]
    exact ⟨rfl, rfl⟩
  · exact fun n _ r hr => hfresh n r ((hmem r).mp hr)
  · exact fun n _ row hrow => hfresh n row hrow
  · exact fun r hr => hP r ((hmem r).mp hr)
  · exact fun _ row hrow => ⟨row, (hmem row).mpr hrow, rfl⟩

/-- The rows an open finds are those the migration copied. -/
theorem stored_foundSchema {found : Option (List LegacyMemory)} {interrupted : List ℕ}
    {r : MemoryRecord} :
    r ∈ (reopen (foundSchema found) interrupted).stored.rows ↔
      ∃ rows, found = some rows ∧ Copyable rows ∧ PastCopy interrupted ∧
        ∃ row ∈ rows, row.scoped = r := by
  cases found with
  | none =>
      have hnone : (reopen (foundSchema none) interrupted).stored.rows = [] :=
        congrArg Table.rows (stored_reopen_none none interrupted)
      rw [hnone]
      exact iff_of_false List.not_mem_nil (fun ⟨_, h, _⟩ => by cases h)
  | some rows =>
      obtain ⟨hpast, hlost⟩ := stored_reopen_legacy rows interrupted
      obtain ⟨hcopied, hrefused⟩ := copied_rows rows
      show r ∈ (reopen (legacySchema rows) interrupted).stored.rows ↔ _
      constructor
      · intro hr
        have hdone : PastCopy interrupted := by
          by_contra hnot
          rw [hlost hnot] at hr
          cases hr
        rw [hpast hdone] at hr
        have hcopyable : Copyable rows := by
          by_contra hnot
          rw [hrefused hnot] at hr
          cases hr
        rw [hcopied hcopyable] at hr
        exact ⟨rows, rfl, hcopyable, hdone, List.mem_map.mp hr⟩
      · rintro ⟨_, ⟨rfl⟩, hcopyable, hdone, hrow⟩
        rw [hpast hdone, hcopied hcopyable]
        exact List.mem_map.mpr hrow

/-- **Partitions, migrations included.** On a fresh database, or one whose legacy table was
migrated, every stored record is in its partition and `latest` finds the newest global one at each
moment of a run, if and only if no row of scope `global` was migrated and the commits to global keys
are current. -/
theorem partition_iff {uuid : ℕ → String} (huuid : Function.Injective uuid) (py : Builtins)
    (found : Option (List LegacyMemory)) (interrupted : List ℕ) (db : Database)
    (hdb : db.memoryRecords = (reopen (foundSchema found) interrupted).stored)
    (hfresh : ∀ n, ∀ row ∈ db.memoryRecords.rows, row.memoryId ≠ newMemoryId uuid n)
    (moves : List MemoryMove) :
    (∀ before, before <+: moves → (runMemory uuid py (.opened db) before).Partitioned) ↔
      (∀ rows, found = some rows → Copyable rows → PastCopy interrupted →
        ∀ row ∈ rows, row.scope ≠ "global") ∧
      CurrentRun uuid py GlobalKey (.opened db) moves := by
  have hrows : ∀ r, r ∈ db.memoryRecords.rows ↔ ∃ rows, found = some rows ∧ Copyable rows ∧
      PastCopy interrupted ∧ ∃ row ∈ rows, row.scoped = r := by
    intro r
    rw [hdb]
    exact stored_foundSchema
  have hP := durable_inPartition uuid
  -- without a global row the invariants hold at the start, and a run keeps them
  have hrun : (∀ rows, found = some rows → Copyable rows → PastCopy interrupted →
        ∀ row ∈ rows, row.scope ≠ "global") →
      ((∀ before, before <+: moves → (runMemory uuid py (.opened db) before).Partitioned) ↔
        CurrentRun uuid py GlobalKey (.opened db) moves) := by
    intro hnoglobal
    have hfiled : ∀ row ∈ db.memoryRecords.rows, row.InPartition := by
      intro r hr
      obtain ⟨rows, hfound, hcopyable, hdone, row, hrow, rfl⟩ := (hrows r).mp hr
      have hscope : row.scoped.scope ≠ "global" := hnoglobal rows hfound hcopyable hdone row hrow
      exact ⟨(if_neg hscope).symm, fun h => absurd h hscope⟩
    obtain ⟨hs, he, hloaded⟩ := opened_sound hfresh hfiled
    have hlatest := (fromPersistence_spec db).2.2
    have hnewest : ∀ key, GlobalKey key → (MemorySys.opened db).store.Newest key := by
      intro key hglobal
      refine hlatest key (fun row hrow hkey => (hfiled row hrow).2 ?_)
      rw [← hkey] at hglobal
      exact hglobal
    have hfoundKey : Found MemoryRecord.InPartition GlobalKey := fun r hr hglobal => hr.2 hglobal
    refine Iff.trans ?_ (newest_run_iff huuid hP hfoundKey hs he hnewest moves)
    refine forall₂_congr (fun before _ => ?_)
    obtain ⟨hs', he', hpersistent', hloaded'⟩ := runMemory_sound huuid hP hs he before
    exact partitioned_iff hs' he' (hloaded' hloaded) hpersistent'
  constructor
  · intro hall
    have hnoglobal : ∀ rows, found = some rows → Copyable rows → PastCopy interrupted →
        ∀ row ∈ rows, row.scope ≠ "global" := by
      intro rows hfound hcopyable hdone row hrow hscope
      have hstored : (MemorySys.opened db).Stored row.scoped :=
        Or.inr ((hrows _).mpr ⟨rows, hfound, hcopyable, hdone, row, hrow, rfl⟩)
      have hstar : "legacy" = "*" :=
        (hall [] List.nil_prefix).everywhere row.scoped hstored hscope
      exact absurd hstar (by decide)
    exact ⟨hnoglobal, (hrun hnoglobal).mp hall⟩
  · rintro ⟨hnoglobal, hcurrent⟩
    exact (hrun hnoglobal).mpr hcurrent

/-- A strategy of a legacy table. -/
def legacyStrategy (scope : String) : LegacyMemory where
  memoryId := "mem-old"
  kind := .strategy
  key := "order"
  value := .str "tests first"
  scope := scope
  sourceEventIds := ["e1"]
  confidence := some 1
  revision := 1
  strategyState := some .candidate

/-- A database that was opened once with a legacy table of one row. -/
def migratedDatabase (scope : String) : Database where
  memoryRecords := (reopen (foundSchema (some [legacyStrategy scope])) []).stored

/-- A strategy of a project is migrated and supported. -/
theorem partition_iff_project :
    (runMemory tallyId plainBuiltins (.opened (migratedDatabase "project:legacy"))
      [.support "mem-old" (some "e2") false, .read "memory" 100, .next]).Partitioned := by
  refine (partition_iff tallyId_injective plainBuiltins (some [legacyStrategy "project:legacy"]) []
    (migratedDatabase "project:legacy") rfl ?_ _).mpr ?_ _ List.prefix_rfl
  swap
  · refine ⟨?_, trivial, trivial, fun _ _ _ h => (by cases h), trivial⟩
    rintro rows ⟨rfl⟩ _ _ row hrow
    obtain rfl := List.mem_singleton.mp hrow
    decide
  · intro n row hrow heq
    obtain ⟨_, ⟨rfl⟩, _, _, row', hrow', rfl⟩ := stored_foundSchema.mp hrow
    obtain rfl := List.mem_singleton.mp hrow'
    have htext := congrArg String.toList heq
    simp [legacyStrategy, LegacyMemory.scoped, newMemoryId, String.toList_append] at htext

/-- A global strategy is migrated into the workspace `legacy`. -/
theorem partition_fails :
    ¬ ∀ scope, (MemorySys.opened (migratedDatabase scope)).Partitioned := by
  intro h
  have hstored : (MemorySys.opened (migratedDatabase "global")).Stored
      (legacyStrategy "global").scoped := by
    refine Or.inr (stored_foundSchema.mpr ⟨_, rfl, ?_, fun _ hnone => (by cases hnone), _,
      List.mem_singleton.mpr rfl, rfl⟩)
    exact ⟨List.nodup_singleton _, List.nodup_singleton _⟩
  have hstar : "legacy" = "*" := (h "global").everywhere _ hstored rfl
  exact absurd hstar (by decide)

end LiandanluNative
