/-
# LiandanluNative.Safety.LatestMemory — whether a memory store answers with the newest revision.

From a fresh store, with or without a database, `latest` returns the newest record of every key if
and only if every commit of the run is current (`latest_newest_iff`).  Replaying an event whose
record was superseded is the shortest run in which it does not.
-/
import LiandanluNative.MemoryRuns

namespace LiandanluNative

/-! ## The latest record is the newest -/

/-- The record has its partition, and an id the store can look up. -/
def MemoryRecord.Filed (r : MemoryRecord) : Prop :=
  r.workspaceId = memoryPartition r.workspaceId r.scope ∧ MemoryStore.usable r.memoryId = true

theorem durable_filed (uuid : ℕ → String) : Durable uuid MemoryRecord.Filed where
  congr := by
    rintro r r' hid hkey ⟨hpartition, husable⟩
    have hworkspace : r.workspaceId = r'.workspaceId := congrArg Prod.fst hkey
    have hscope : r.scope = r'.scope := congrArg (fun key => key.2.1) hkey
    rw [hworkspace, hscope] at hpartition
    rw [hid] at husable
    exact ⟨hpartition, husable⟩
  made candidate n previous :=
    ⟨(memoryPartition_idem candidate.workspaceId candidate.scope).symm, newMemoryId_usable uuid n⟩

/-- For every key that has records, `latest` returns one that no other is newer than. -/
def MemoryStore.LatestIsNewest (store : MemoryStore) : Prop :=
  ∀ workspaceId scope key kind,
    (∃ r ∈ store.records.rows, r.memoryKey = (workspaceId, scope, key, kind)) →
    ∃ w ∈ store.records.rows, store.latest workspaceId scope key kind = some w ∧
      w.memoryKey = (workspaceId, scope, key, kind) ∧
      ∀ r ∈ store.records.rows, r.memoryKey = (workspaceId, scope, key, kind) →
        r.revision ≤ w.revision

theorem latestIsNewest_iff {uuid : ℕ → String} {s : MemorySys} (hs : s.Sound uuid)
    (he : s.Every MemoryRecord.Filed) :
    s.store.LatestIsNewest ↔ ∀ key, True → s.store.Newest key := by
  -- a record is looked up under the partition it has
  have hlatest : ∀ r ∈ s.store.records.rows,
      s.store.latest r.workspaceId r.scope r.key r.kind = s.store.current r.memoryKey := by
    intro r hr
    unfold MemoryStore.latest
    rw [← (he.store r hr).1]
    rfl
  constructor
  · intro h key _ r hr hkey
    subst hkey
    obtain ⟨w, _, hw, _, htop⟩ := h r.workspaceId r.scope r.key r.kind ⟨r, hr, rfl⟩
    rw [hlatest r hr] at hw
    exact ⟨w, hw, htop r hr rfl⟩
  · rintro h workspaceId scope key kind ⟨r, hr, hkey⟩
    obtain ⟨w, hw, _⟩ := h r.memoryKey trivial r hr rfl
    obtain ⟨hwKey, hmem⟩ := hs.grounded.current_key hw
    have hfound := hlatest r hr
    simp only [MemoryRecord.memoryKey, Prod.mk.injEq] at hkey
    obtain ⟨rfl, rfl, rfl, rfl⟩ := hkey
    refine ⟨w, hmem, hfound.trans hw, hwKey, fun u hu huKey => ?_⟩
    obtain ⟨w', hw', hle⟩ := h r.memoryKey trivial u hu huKey
    cases hw.symm.trans hw'
    exact hle

theorem fresh_sound (uuid : ℕ → String) (P : MemoryRecord → Prop) (persistent : Bool) :
    MemorySys.Sound uuid { store := { persistent := persistent } } ∧
      MemorySys.Every P { store := { persistent := persistent } } := by
  refine ⟨⟨Lib.Index.grounded_empty, ?_, ?_, ?_⟩, ⟨?_, ?_⟩⟩
  · exact fun r hr => (by cases hr)
  · exact fun _ _ r hr => (by cases hr)
  · exact fun _ _ row hrow => (by cases hrow)
  · exact fun r hr => (by cases hr)
  · exact fun row hrow => (by cases hrow)

/-- **The latest memory is the newest revision, exactly as long as the commits are current.** From
a fresh store, with or without a database, `latest` returns the newest record of every key that has
one at each moment of a run, if and only if no commit that names its event takes in a record older
than one the store has of its key. -/
theorem latest_newest_iff {uuid : ℕ → String} (huuid : Function.Injective uuid) (py : Builtins)
    (persistent : Bool) (moves : List MemoryMove) :
    (∀ before, before <+: moves →
        (runMemory uuid py { store := { persistent := persistent } } before).store.LatestIsNewest) ↔
      CurrentRun uuid py (fun _ => True) { store := { persistent := persistent } } moves := by
  obtain ⟨hs, he⟩ := fresh_sound uuid MemoryRecord.Filed persistent
  have hP := durable_filed uuid
  refine Iff.trans ?_ (newest_run_iff huuid hP (fun r hr _ => hr.2) hs he
    (fun key _ => Lib.Index.newest_empty) moves)
  refine forall₂_congr (fun before _ => ?_)
  obtain ⟨hs', he', _, _⟩ := runMemory_sound  huuid hP hs he before
  exact latestIsNewest_iff hs' he'

/-- What a user said of the language to answer in. -/
def languageCandidate : MemoryCandidate where
  workspaceId := "w"
  kind := .fact
  key := "language"
  value := .str "en"
  scope := "workspace"
  sourceEventIds := ["evt"]
  confidence := some 1

/-- An event that was noted with the sequence number. -/
def languageEvent (sequence : Int) (eventId : String) : Event where
  sequence := sequence
  eventId := eventId
  workspaceId := "w"
  eventType := "memory.candidate"
  actor := "user"
  taskId := none
  operationId := none
  objectRefs := []
  payload := []
  causationId := none
  correlationId := none
  occurredAt := 0
  observedAt := 0

/-- A commit of an event and one without are both current. -/
theorem latest_newest_iff_once :
    (runMemory tallyId plainBuiltins { store := { persistent := true } }
      [.commit languageCandidate (some (languageEvent 1 "e1")),
        .commit languageCandidate none]).store.LatestIsNewest := by
  refine (latest_newest_iff tallyId_injective plainBuiltins true _).mpr ?_ _ List.prefix_rfl
  exact ⟨fun _ _ => ⟨fun _ _ h => (by cases h), fun _ _ _ _ _ hr => (by cases hr)⟩, trivial, trivial⟩

/-- Two events are committed, and the first of them again. -/
def replayedCommits : List MemoryMove :=
  [.commit languageCandidate (some (languageEvent 1 "e1")),
    .commit languageCandidate (some (languageEvent 2 "e2")),
    .commit languageCandidate (some (languageEvent 1 "e1"))]

/-- The replay takes `latest` back to the first record. -/
theorem latest_newest_fails :
    ¬ ∀ moves : List MemoryMove,
      (runMemory tallyId plainBuiltins { store := { persistent := true } }
        moves).store.LatestIsNewest := by
  intro h
  obtain ⟨w, _, hlatest, _, htop⟩ := h replayedCommits "w" "workspace" "language" .fact
    (by decide +kernel)
  have hfirst : ((runMemory tallyId plainBuiltins { store := { persistent := true } }
      replayedCommits).store.latest "w" "workspace" "language" .fact).map MemoryRecord.revision
      = some 1 := by
    decide +kernel
  have hsecond : ∃ r ∈ (runMemory tallyId plainBuiltins { store := { persistent := true } }
      replayedCommits).store.records.rows,
      r.memoryKey = ("w", "workspace", "language", .fact) ∧ r.revision = 2 := by
    decide +kernel
  obtain ⟨r, hr, hkey, hrevision⟩ := hsecond
  rw [hlatest, Option.map_some, Option.some.injEq] at hfirst
  have hle := htop r hr hkey
  omega

end LiandanluNative
