/-
# LiandanluNative.MemoryStore — `MemoryStore` of `memory.py`, and the pipeline that feeds it.

A store holds records and, beside them, at which record each key stands (`latest_by_key`).  With
persistence, a commit that names its source event is one transaction of the database, whose answer
the store then holds; every other commit is made in memory alone.  `MemorySys` is a store, its
database, and what `run_once` still has to handle; a run is a list of `MemoryMove`s.  A call that
raises leaves what it did before.
-/
import LiandanluNative.Lib.Latest
import LiandanluNative.Memory

namespace LiandanluNative

open Lib (Table)
open Lib.Proc

/-! ## The store

The records in memory with the index of `latest`, over the database where there is one.  A commit
takes its record from the database there, and builds it itself otherwise.
-/

structure MemoryStore where
  /-- Whether the store has a database. -/
  persistent : Bool
  records : Table MemoryRecord.memoryId := .empty
  latestByKey : Table (Prod.fst : MemoryKey × String → MemoryKey) := .empty
  processedEventIds : List String := []

namespace MemoryStore

/-- The two dictionaries as one. -/
def index (store : MemoryStore) : Lib.Index MemoryRecord.memoryId MemoryKey :=
  ⟨store.records, store.latestByKey⟩

/-- The truth value of an id. -/
def usable (memoryId : String) : Bool := decide (memoryId ≠ "")

/-- `self.records.get(memory_id) if memory_id else None`, with what `latest_by_key` has of the key:
an id that is false is taken for a missing one. -/
def current (store : MemoryStore) (key : MemoryKey) : Option MemoryRecord :=
  store.index.current usable key

/-- `records[…] = record; latest_by_key[…] = record.memory_id`, whatever the key stood at before. -/
def hold (store : MemoryStore) (record : MemoryRecord) : MemoryStore :=
  { store with
    records := store.records.put record
    latestByKey := store.latestByKey.put (record.memoryKey, record.memoryId) }

/-- `latest` -/
def latest (store : MemoryStore) (workspaceId scope key : String) (kind : MemoryKind) :
    Option MemoryRecord :=
  store.current (memoryPartition workspaceId scope, scope, key, kind)

/-- `from_persistence` -/
def fromPersistence (db : Database) : MemoryStore :=
  let index := db.loadMemoryRecords.foldl
    (Lib.Index.load MemoryRecord.memoryKey MemoryRecord.revision usable) ⟨.empty, .empty⟩
  { persistent := true, records := index.records, latestByKey := index.latest }

end MemoryStore

/-- A store, its database, and the events `run_once` of a consumer has read and not yet handled.
`ids` counts the identifiers given out. -/
structure MemorySys where
  store : MemoryStore
  db : Database := {}
  ids : ℕ := 0
  consumerId : String := "memory"
  pending : List Event := []

abbrev MemoryM (α : Type) := EStateM Exc MemorySys α

/-- `new_id("mem")` -/
def newMemoryId (uuid : ℕ → String) (n : ℕ) : String := "mem_" ++ uuid n

/-- Different readings of `uuid4` are different ids, … -/
theorem newMemoryId_injective {uuid : ℕ → String} (h : Function.Injective uuid) :
    Function.Injective (newMemoryId uuid) := by
  intro m n heq
  have htext := congrArg String.toList heq
  simp only [newMemoryId, String.toList_append, List.append_cancel_left_eq] at htext
  exact h (String.toList_injective htext)

/-- … none of which is empty. -/
theorem newMemoryId_usable (uuid : ℕ → String) (n : ℕ) :
    MemoryStore.usable (newMemoryId uuid n) = true := by
  refine decide_eq_true (fun h => ?_)
  have htext := congrArg String.toList h
  simp [newMemoryId, String.toList_append] at htext

section

variable (uuid : ℕ → String) (py : Builtins)

/-- `commit` -/
def commitMemory (candidate : MemoryCandidate) (sourceEvent : Option Event) :
    MemoryM (Option MemoryRecord) := fun s =>
  let memoryId := newMemoryId uuid s.ids
  if candidate.valid = false then
    .ok none s
  else
    match s.store.persistent, sourceEvent with
    | true, some event =>
        match processMemoryEvent event (some candidate.partitioned) memoryId s.db with
        | .error e db => .error e { s with db := db, ids := s.ids + 1 }
        | .ok none db => .ok none { s with db := db, ids := s.ids + 1 }
        | .ok (some record) db =>
            .ok (some record) { s with store := s.store.hold record, db := db, ids := s.ids + 1 }
    -- held and returned, and written nowhere
    | _, _ =>
        let record := candidate.partitioned.record memoryId
          (s.store.current candidate.partitioned.memoryKey)
        .ok (some record) { s with store := s.store.hold record, ids := s.ids + 1 }

/-- `process_ignored_event` -/
def processIgnoredEvent (event : Event) : MemoryM Unit := fun s =>
  if s.store.persistent then
    match processMemoryEvent event none "" s.db with
    | .error e db => .error e { s with db := db }
    | .ok _ db => .ok () { s with db := db }
  else
    .ok ()
      { s with
        store :=
          { s.store with
            processedEventIds := s.store.processedEventIds.insert event.eventId } }

/-- The record once `add_strategy_support` has counted its evidence, or `none` where it raises. -/
def MemoryRecord.supported (record : MemoryRecord) (evidenceEventId : Option String)
    (userConfirmed : Bool) : Option MemoryRecord :=
  let counted :=
    match evidenceEventId with
    | some eventId =>
        if eventId ∉ record.supportEventIds then
          some
            { record with
              supportEventIds := record.supportEventIds ++ [eventId]
              supportCount := record.supportCount + 1 }
        else
          some record
    | none => if userConfirmed then some record else none
  counted.map fun record =>
    if userConfirmed ∨ 3 ≤ record.supportCount then { record with strategyState := some .promoted }
    else if 2 ≤ record.supportCount then { record with strategyState := some .supported }
    else record

/-- `add_strategy_support`.  The record in memory is changed in place, and only then saved. -/
def addStrategySupport (memoryId : String) (evidenceEventId : Option String)
    (userConfirmed : Bool) : MemoryM Unit := fun s =>
  match s.store.records.get? memoryId with
  | none => .error ⟨.keyError, memoryId⟩ s
  | some record =>
      if record.kind ≠ .strategy then
        .error ⟨.valueError, "not a strategy memory"⟩ s
      else
        match record.supported evidenceEventId userConfirmed with
        | none =>
            .error
              ⟨.valueError, "strategy support requires evidence_event_id or user confirmation"⟩ s
        | some supported =>
            -- the record of the store, not its row, is what was counted on
            let s := { s with
              store := { s.store with records := s.store.records.put supported } }
            if s.store.persistent then
              match saveMemoryRecord supported s.db with
              | .error e db => .error e { s with db := db }
              | .ok _ db => .ok () { s with db := db }
            else
              .ok () s

/-! ## The pipeline -/

/-- What `run_once` does with one event: its candidate is committed, or the event is ignored.  The
answer is whether it was committed. -/
def handleEvent (event : Event) : MemoryM Bool := do
  match candidateFromEvent py event with
  | .error e => throw e
  | .ok none =>
      processIgnoredEvent event
      return false
  | .ok (some candidate) =>
      match ← commitMemory uuid candidate (some event) with
      -- not valid, or its receipt names no record
      | none =>
          processIgnoredEvent event
          return false
      | some _ => return true

/-- `events.ack` -/
def ackEvent (sequence : Int) : MemoryM Unit := fun s =>
  match ackEventConsumer s.consumerId sequence s.db with
  | .error e db => .error e { s with db := db }
  | .ok _ db => .ok () { s with db := db }

/-- The loop body of `run_once`. -/
def processEvent (event : Event) (events : List Event) : MemoryM Bool := do
  modify fun s => { s with pending := events }
  let committed ← handleEvent uuid py event
  ackEvent event.sequence
  return committed

/-- The loop of `run_once`: how many events were committed, and how many ignored. -/
def processEvents : List Event → MemoryM (ℕ × ℕ)
  | [] => pure (0, 0)
  | event :: events => do
      let committed ← processEvent uuid py event events
      let (rest, ignored) ← processEvents events
      return if committed then (rest + 1, ignored) else (rest, ignored + 1)

/-- `read_after(consumer_id)[:limit]` -/
def MemorySys.read (s : MemorySys) (consumerId : String) (limit : Int) : MemorySys :=
  { s with consumerId := consumerId, pending := sliceTo limit (s.db.readEventsAfter consumerId) }

/-- `run_once`: how many events were scanned, committed and ignored. -/
def runOnce (consumerId : String) (limit : Int) : MemoryM (ℕ × ℕ × ℕ) := do
  modify (MemorySys.read · consumerId limit)
  let s ← get
  let (committed, ignored) ← processEvents uuid py s.pending
  return (s.pending.length, committed, ignored)

/-- One event of `run_once`; an exception ends the call. -/
def MemorySys.next (s : MemorySys) : MemorySys :=
  match s.pending with
  | [] => s
  | event :: events =>
      match processEvent uuid py event events s with
      | .ok _ t => t
      | .error _ t => { t with pending := [] }

/-! ## Runs -/

/-- A call to the store, a part of `run_once`, or the log growing.  `run_once` is cut into its
events, so that a run may stop after any of them. -/
inductive MemoryMove where
  | commit (candidate : MemoryCandidate) (sourceEvent : Option Event)
  | ignore (event : Event)
  | support (memoryId : String) (evidenceEventId : Option String) (userConfirmed : Bool)
  /-- `run_once` reads its events. -/
  | read (consumerId : String) (limit : Int)
  /-- It handles the next of them. -/
  | next
  /-- A delivery inserts an event. -/
  | log (row : OutboxRow) (eventId : String) (observedAt : ℚ)
  /-- The process ends, and a new one starts. -/
  | reload

/-- The state after a move, however it ended. -/
def MemoryMove.exec (s : MemorySys) : MemoryMove → MemorySys
  | .commit candidate sourceEvent => after (commitMemory uuid candidate sourceEvent) s
  | .ignore event => after (processIgnoredEvent event) s
  | .support memoryId evidenceEventId userConfirmed =>
      after (addStrategySupport memoryId evidenceEventId userConfirmed) s
  | .read consumerId limit => s.read consumerId limit
  | .next => s.next uuid py
  | .log row eventId observedAt => { s with db := s.db.insertEvent row eventId observedAt }
  | .reload =>
      { s with
        store := if s.store.persistent then .fromPersistence s.db else { persistent := false }
        pending := [] }

/-- The state after a list of moves. -/
def runMemory (s : MemorySys) (moves : List MemoryMove) : MemorySys :=
  moves.foldl (MemoryMove.exec uuid py) s

/-! ## How the calls can end

One inductive type for each method lists its ends, with the state that each leaves; all results on
runs go by these.
-/

/-- How a commit can leave the state. -/
inductive CommitEnd (candidate : MemoryCandidate) (sourceEvent : Option Event) (s : MemorySys) :
    MemorySys → Prop
  | invalid (h : candidate.valid = false) : CommitEnd candidate sourceEvent s s
  /-- The database refused the record, or answered that the event was ignored. -/
  | refused (event : Event) (valid : candidate.valid = true) (persistent : s.store.persistent = true)
      (named : sourceEvent = some event) (db : Database)
      (run : (∃ e, processMemoryEvent event (some candidate.partitioned)
          (newMemoryId uuid s.ids) s.db = .error e db) ∨
        processMemoryEvent event (some candidate.partitioned) (newMemoryId uuid s.ids) s.db
          = .ok none db) :
      CommitEnd candidate sourceEvent s { s with db := db, ids := s.ids + 1 }
  /-- The database answered with a record. -/
  | answered (event : Event) (valid : candidate.valid = true)
      (persistent : s.store.persistent = true) (named : sourceEvent = some event)
      (record : MemoryRecord) (db : Database)
      (run : processMemoryEvent event (some candidate.partitioned) (newMemoryId uuid s.ids) s.db
        = .ok (some record) db) :
      CommitEnd candidate sourceEvent s
        { s with store := s.store.hold record, db := db, ids := s.ids + 1 }
  /-- The record was made in memory. -/
  | held (valid : candidate.valid = true)
      (unnamed : s.store.persistent = false ∨ sourceEvent = none) (record : MemoryRecord)
      (built : record = candidate.partitioned.record (newMemoryId uuid s.ids)
        (s.store.current candidate.partitioned.memoryKey)) :
      CommitEnd candidate sourceEvent s
        { s with store := s.store.hold record, ids := s.ids + 1 }

/-- **A commit** ends in one of these ways, … -/
theorem commitMemory_cases (candidate : MemoryCandidate) (sourceEvent : Option Event)
    (s : MemorySys) :
    CommitEnd uuid candidate sourceEvent s (after (commitMemory uuid candidate sourceEvent) s) := by
  unfold after commitMemory
  dsimp only
  by_cases hvalid : candidate.valid = false
  · rw [if_pos hvalid]
    exact .invalid hvalid
  rw [if_neg hvalid]
  rw [Bool.not_eq_false] at hvalid
  cases hpersistent : s.store.persistent with
  | false => exact .held hvalid (Or.inl hpersistent) _ rfl
  | true =>
      cases sourceEvent with
      | none => exact .held hvalid (Or.inr rfl) _ rfl
      | some event =>
          dsimp only
          cases hrun : processMemoryEvent event (some candidate.partitioned)
              (newMemoryId uuid s.ids) s.db with
          | error e db => exact .refused event hvalid hpersistent rfl db (Or.inl ⟨e, hrun⟩)
          | ok record db =>
              cases record with
              | none => exact .refused event hvalid hpersistent rfl db (Or.inr hrun)
              | some record => exact .answered event hvalid hpersistent rfl record db hrun

/-- How an ignored event can leave the state. -/
inductive IgnoreEnd (event : Event) (s : MemorySys) : MemorySys → Prop
  | durable (persistent : s.store.persistent = true) :
      IgnoreEnd event s { s with db := after (processMemoryEvent event none "") s.db }
  | volatile (persistent : s.store.persistent = false) (ids : List String) :
      IgnoreEnd event s { s with store := { s.store with processedEventIds := ids } }

/-- … an ignored event in one of those, … -/
theorem processIgnoredEvent_cases (event : Event) (s : MemorySys) :
    IgnoreEnd event s (after (processIgnoredEvent event) s) := by
  cases hpersistent : s.store.persistent with
  | true =>
      have hafter : after (processIgnoredEvent event) s
          = { s with db := after (processMemoryEvent event none "") s.db } := by
        unfold after processIgnoredEvent
        rw [hpersistent, if_pos rfl]
        cases processMemoryEvent event none "" s.db <;> rfl
      rw [hafter]
      exact .durable hpersistent
  | false =>
      have hafter : after (processIgnoredEvent event) s
          = { s with
              store :=
                { s.store with
                  processedEventIds := s.store.processedEventIds.insert event.eventId } } := by
        unfold after processIgnoredEvent
        rw [hpersistent]
        rfl
      rw [hafter]
      exact .volatile hpersistent _

/-- How `add_strategy_support` can leave the state. -/
inductive SupportEnd (s : MemorySys) : MemorySys → Prop
  | refused : SupportEnd s s
  | counted (record supported : MemoryRecord) (evidenceEventId : Option String)
      (userConfirmed : Bool) (found : s.store.records.get? record.memoryId = some record)
      (counted : record.supported evidenceEventId userConfirmed = some supported) (db : Database)
      (saved : (s.store.persistent = false ∧ db = s.db) ∨
        s.store.persistent = true ∧ db = after (saveMemoryRecord supported) s.db) :
      SupportEnd s { s with
        store := { s.store with records := s.store.records.put supported }
        db := db }

/-- … and a support in one of these. -/
theorem addStrategySupport_cases (memoryId : String) (evidenceEventId : Option String)
    (userConfirmed : Bool) (s : MemorySys) :
    SupportEnd s (after (addStrategySupport memoryId evidenceEventId userConfirmed) s) := by
  -- three checks may raise, before anything is changed
  have hraised : ∀ e, addStrategySupport memoryId evidenceEventId userConfirmed s = .error e s →
      SupportEnd s (after (addStrategySupport memoryId evidenceEventId userConfirmed) s) := by
    intro e he
    rw [after_of_error he]
    exact .refused
  cases hfound : s.store.records.get? memoryId with
  | none => exact hraised _ (by simp only [addStrategySupport, hfound]; rfl)
  | some record =>
      by_cases hkind : record.kind ≠ .strategy
      · exact hraised _ (by simp only [addStrategySupport, hfound, if_pos hkind]; rfl)
      cases hcounted : record.supported evidenceEventId userConfirmed with
      | none => exact hraised _ (by simp only [addStrategySupport, hfound, if_neg hkind, hcounted]; rfl)
      | some supported =>
          have hid : record.memoryId = memoryId := Table.key_of_get? hfound
          -- memory is changed first, and then the store where there is one
          cases hpersistent : s.store.persistent with
          | false =>
              have hafter : after (addStrategySupport memoryId evidenceEventId userConfirmed) s
                  = { s with
                      store := { s.store with records := s.store.records.put supported } } := by
                simp only [after, addStrategySupport, hfound, if_neg hkind, hcounted, hpersistent,
                  Bool.false_eq_true, if_false]
              rw [hafter]
              exact .counted record supported _ _ (hid ▸ hfound) hcounted s.db
                (Or.inl ⟨hpersistent, rfl⟩)
          | true =>
              have hafter : after (addStrategySupport memoryId evidenceEventId userConfirmed) s
                  = { s with
                      store := { s.store with records := s.store.records.put supported }
                      db := after (saveMemoryRecord supported) s.db } := by
                simp only [after, addStrategySupport, hfound, if_neg hkind, hcounted, hpersistent,
                  if_true]
                cases saveMemoryRecord supported s.db <;> rfl
              rw [hafter]
              exact .counted record supported _ _ (hid ▸ hfound) hcounted _
                (Or.inr ⟨hpersistent, rfl⟩)

/-- What is left of `run_once` is its own. -/
theorem processEvent_pending (event : Event) (events : List Event) (s : MemorySys) :
    (after (processEvent uuid py event events) s).pending = events := by
  have hF := frame_fixes MemorySys.pending
  have hignore : Within (Fixes MemorySys.pending) (processIgnoredEvent event) := by
    intro t
    have hend := processIgnoredEvent_cases event t
    generalize after (processIgnoredEvent event) t = u at hend ⊢
    cases hend <;> rfl
  have hcommit : ∀ candidate,
      Within (Fixes MemorySys.pending) (commitMemory uuid candidate (some event)) := by
    intro candidate t
    have hend := commitMemory_cases uuid candidate (some event) t
    generalize after (commitMemory uuid candidate (some event)) t = u at hend ⊢
    cases hend <;> rfl
  have hhandle : Within (Fixes MemorySys.pending) (handleEvent uuid py event) := by
    unfold handleEvent
    split
    · exact hF.throw _
    · exact hF.bind hignore (fun _ => hF.pure _)
    · refine hF.bind (hcommit _) (fun record => ?_)
      cases record with
      | none => exact hF.bind hignore (fun _ => hF.pure _)
      | some record => exact hF.pure _
  have hack : Within (Fixes MemorySys.pending) (ackEvent event.sequence) := by
    intro t
    unfold Fixes after ackEvent
    cases ackEventConsumer t.consumerId event.sequence t.db <;> rfl
  exact (hF.bind hhandle (fun _ => hF.bind hack (fun _ => hF.pure _))) { s with pending := events }

/-- What `run_once` leaves behind is what its parts leave behind, one after the other. -/
theorem runOnce_eq (s : MemorySys) (consumerId : String) (limit : Int) :
    { after (runOnce uuid py consumerId limit) s with pending := [] } = runMemory uuid py s
      (.read consumerId limit ::
        List.replicate (s.read consumerId limit).pending.length .next) := by
  -- with nothing pending a further move does nothing
  have hdone : ∀ (n : ℕ) (t : MemorySys), t.pending = [] →
      runMemory uuid py t (List.replicate n .next) = t := by
    intro n t ht
    induction n with
    | zero => rfl
    | succ n ih =>
        have hnext : t.next uuid py = t := by simp only [MemorySys.next, ht]
        rw [List.replicate_succ]
        show runMemory uuid py (t.next uuid py) _ = t
        rw [hnext, ih]
  -- the loop takes as many moves as there are events, or is cut short by one that raises
  have hloop : ∀ (events : List Event) (t : MemorySys), t.pending = events →
      { after (processEvents uuid py events) t with pending := [] }
        = runMemory uuid py t (List.replicate events.length .next) := by
    intro events
    induction events with
    | nil =>
        intro t ht
        show { t with pending := [] } = t
        rw [← ht]
    | cons event events ih =>
        intro t ht
        have hpending := processEvent_pending uuid py event events t
        rw [List.length_cons, List.replicate_succ]
        show _ = runMemory uuid py (t.next uuid py) (List.replicate events.length .next)
        unfold MemorySys.next processEvents
        rw [ht]
        dsimp only
        cases hrun : processEvent uuid py event events t with
        | ok committed u =>
            rw [after_of_ok hrun] at hpending
            rw [after_bind_ok hrun, after_bind_pure]
            exact ih u hpending
        | error e u =>
            rw [after_of_error (after_bind_error hrun)]
            exact (hdone _ _ rfl).symm
  have hread : after (runOnce uuid py consumerId limit) s
      = after (processEvents uuid py (s.read consumerId limit).pending)
          (s.read consumerId limit) :=
    after_bind_pure _ _ _
  rw [hread]
  exact hloop _ _ rfl

end

end LiandanluNative
