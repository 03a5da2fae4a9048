/-
# LiandanluNative.Safety.MemoryReplays — whether the two modes of a memory hold the same.

A store with a database looks for the receipt of an event before it commits it.  A store without one
notes the ids of the events it ignored and never reads them, so an event that comes again is
committed again.  The other differences are a value that is no JSON and a text that cannot be
encoded, which only the database refuses.  Where none occurs the stores hold the same records under
other names (`replays_alike_iff`), because each numbers them from the newest of their key; and
nothing makes up for a record that only one of them took in.

The converse is a matter of counting.  Without a database every event with a valid candidate adds a
record to its key, and with one only a new event does (`length_volatile`, `length_durable`).  So the
difference of the two numbers never falls, and an event that is not new makes it grow
(`Sound.exists_surplus_lt`).
-/
import LiandanluNative.Lib.Runs
import LiandanluNative.Safety.DurableMemory
import LiandanluNative.Safety.RunOnce

namespace LiandanluNative

open Lib (Table)
open Lib.Proc Lib.Runs

/-! ## Two stores

One event goes to both, and they are compared key by key, with the ids of one translated to those of
the other.
-/

/-- The records of one key. -/
def MemoryStore.recordsOf (store : MemoryStore) (key : MemoryKey) : List MemoryRecord :=
  store.records.rows.filter (fun record => decide (record.memoryKey = key))

/-- What the stores are compared by, with the ids given other names. -/
def MemoryRecord.shown (name : String → String) (record : MemoryRecord) :
    String × PyVal × Int × Option String × Option StrategyState :=
  (name record.memoryId, record.value, record.revision, record.supersedes.map name,
    record.strategyState)

/-- The record under other names. -/
def MemoryRecord.renamed (name : String → String) (record : MemoryRecord) : MemoryRecord :=
  { record with memoryId := name record.memoryId, supersedes := record.supersedes.map name }

/-- What the next record of its key takes from a record. -/
def MemoryRecord.head (record : MemoryRecord) : String × Int := (record.memoryId, record.revision)

/-- A store without a database and one with, that are given the same events.  What one does is no
matter of the other. -/
structure BothModes where
  volatile : MemorySys
  durable : MemorySys

namespace BothModes

/-- Both are empty. -/
def fresh : BothModes where
  volatile := { store := { persistent := false } }
  durable := { store := { persistent := true } }

/-- An event is passed to both, each with identifiers of its own. -/
def exec (py : Builtins) (uuid uuid' : ℕ → String) (s : BothModes) (event : Event) :
    BothModes where
  volatile := after (handleEvent uuid py event) s.volatile
  durable := after (handleEvent uuid' py event) s.durable

/-- Up to the names of the records, the stores hold the same of every key. -/
def Alike (s : BothModes) : Prop :=
  ∃ name : String → String, ∀ key,
    ((s.volatile.store.recordsOf key).map (MemoryRecord.shown name)).Perm
      ((s.durable.store.recordsOf key).map (MemoryRecord.shown id))

end BothModes

/-- Whatever an event may hold, its payload is read without an exception. -/
def Event.Readable (py : Builtins) (event : Event) : Prop :=
  ∃ candidate, candidateFromEvent py event = .ok candidate

/-- The database takes the candidate: what it and its event are looked up by can be bound, and its
value is JSON. -/
structure MemoryCandidate.Storable (candidate : MemoryCandidate) (event : Event) : Prop where
  bound : candidate.partitioned.Bound event
  json : candidate.value.jsonDumps ≠ none

/-- If the event has a valid candidate, the database has no receipt of it, and takes it. -/
def Event.New (py : Builtins) (db : Database) (event : Event) : Prop :=
  ∀ candidate, event.candidate? py = some candidate → candidate.Storable event ∧
    db.consumerReceipts.get? (memoryConsumer, event.eventId) = none

/-- There is a receipt of each of the events that can be read and named, and no other. -/
def Database.ReceiptsOf (py : Builtins) (db : Database) (events : List Event) : Prop :=
  ∀ eventId, db.consumerReceipts.get? (memoryConsumer, eventId) = none ↔
    ∀ event ∈ events, event.Readable py ∧ Bindable event.columns → event.eventId ≠ eventId

section

variable {uuid uuid' : ℕ → String} {py : Builtins} {event : Event} {candidate : MemoryCandidate}
  {s : MemorySys}

/-! ## One event, in one of them -/

variable (uuid s) in
/-- An event with nothing to commit is ignored, unless its payload raises. -/
theorem handleEvent_of_nothing (hnothing : event.candidate? py = none) :
    after (handleEvent uuid py event) s = s ∨
      after (handleEvent uuid py event) s = after (processIgnoredEvent event) s := by
  unfold handleEvent
  cases hread : candidateFromEvent py event with
  | error e => exact Or.inl rfl
  | ok candidate =>
      refine Or.inr ?_
      cases candidate with
      | none => exact after_bind_pure (processIgnoredEvent event) (fun _ => false) s
      | some candidate =>
          -- `commit` returns `None` for it
          have hinvalid : candidate.valid = false := by
            by_contra hvalid
            rw [Bool.not_eq_false] at hvalid
            cases hnothing.symm.trans (candidate?_of_valid hread hvalid)
          have hcommit : commitMemory uuid candidate (some event) s = .ok none s := by
            simp only [commitMemory, if_pos hinvalid]
          dsimp only
          rw [after_bind_ok hcommit]
          exact after_bind_pure (processIgnoredEvent event) (fun _ => false) s

variable (uuid s) in
/-- Neither the records nor the counter move. -/
theorem nothing_sameMemory (hnothing : event.candidate? py = none) :
    SameMemory s (after (handleEvent uuid py event) s) ∧
      (after (handleEvent uuid py event) s).ids = s.ids := by
  rcases handleEvent_of_nothing uuid s hnothing with hsame | hignored
  · rw [hsame]
    exact ⟨frame_sameMemory.refl s, rfl⟩
  · rw [hignored]
    refine ⟨within_processIgnoredEvent event s, ?_⟩
    have hend := processIgnoredEvent_cases event s
    generalize after (processIgnoredEvent event) s = t at hend ⊢
    cases hend <;> rfl

/-- An event whose commit answers with a record is handled by that. -/
theorem handleEvent_of_commit (hread : candidateFromEvent py event = .ok (some candidate))
    {r : MemoryRecord} {t : MemorySys}
    (hcommit : commitMemory uuid candidate (some event) s = .ok (some r) t) :
    after (handleEvent uuid py event) s = t := by
  unfold handleEvent
  rw [hread]
  dsimp only
  rw [after_bind_ok hcommit]
  rfl

variable (uuid) in
/-- Without a database every event that has a valid candidate is committed, whatever was before. -/
theorem handleEvent_volatile (hsomething : event.candidate? py = some candidate)
    (hvolatile : s.store.persistent = false) :
    after (handleEvent uuid py event) s =
      { s with
        store := s.store.hold (candidate.partitioned.record (newMemoryId uuid s.ids)
          (s.store.current candidate.partitioned.memoryKey))
        ids := s.ids + 1 } := by
  obtain ⟨hread, hvalid⟩ := candidate?_read hsomething
  apply handleEvent_of_commit hread
  simp only [commitMemory, hvalid, hvolatile, Bool.true_eq_false, if_false]
  rfl

/-- With a database the event becomes a record if it is new. -/
theorem handleEvent_durable (hs : s.Sound uuid) (hdurable : s.store.persistent = true)
    (hsomething : event.candidate? py = some candidate) (hnew : event.New py s.db) :
    ∃ value db, after (handleEvent uuid py event) s =
        { s with
          store := s.store.hold (candidate.partitioned.record (newMemoryId uuid s.ids)
            (s.db.latestRecord candidate.partitioned.memoryKey))
          db := db
          ids := s.ids + 1 } ∧
      db.memoryRecords = s.db.memoryRecords.put
        { candidate.partitioned.record (newMemoryId uuid s.ids)
            (s.db.latestRecord candidate.partitioned.memoryKey) with value := value } := by
  obtain ⟨hread, hvalid⟩ := candidate?_read hsomething
  obtain ⟨hstorable, habsent⟩ := hnew candidate hsomething
  obtain ⟨value, hvalue⟩ := Option.ne_none_iff_exists'.mp hstorable.json
  obtain ⟨db, hrows, hrun⟩ : ∃ db : Database,
      db.memoryRecords = s.db.memoryRecords.put
        { candidate.partitioned.record (newMemoryId uuid s.ids)
            (s.db.latestRecord candidate.partitioned.memoryKey) with value := value } ∧
      processMemoryEvent event (some candidate.partitioned) (newMemoryId uuid s.ids) s.db
        = .ok (some (candidate.partitioned.record (newMemoryId uuid s.ids)
            (s.db.latestRecord candidate.partitioned.memoryKey))) db :=
    ⟨_, rfl, processMemoryEvent_of_new habsent hstorable.bound hvalue (hs.freshRows s.ids le_rfl)⟩
  refine ⟨value, db, ?_, hrows⟩
  apply handleEvent_of_commit hread
  simp only [commitMemory, hvalid, hdurable, hrun, Bool.true_eq_false, if_false]
  rfl

/-! ## What the next record is built on -/

/-- Where no record was touched, each key stands where it stood. -/
theorem SameMemory.current {t : MemorySys} (h : SameMemory s t) (key : MemoryKey) :
    t.store.current key = s.store.current key := by
  unfold MemoryStore.current
  rw [h.index]

/-- A record under the next id is what its key stands at. -/
theorem MemorySys.Sound.current_hold (hs : s.Sound uuid) {record : MemoryRecord}
    (hid : record.memoryId = newMemoryId uuid s.ids) (key : MemoryKey) :
    (s.store.hold record).current key
      = if record.memoryKey = key then some record else s.store.current key := by
  by_cases hkey : record.memoryKey = key
  · rw [if_pos hkey, ← hkey]
    exact Lib.Index.current_hold_self (x := s.store.index) (v := record)
      (hid ▸ newMemoryId_usable uuid s.ids)
  · rw [if_neg hkey]
    exact hs.grounded.current_hold_of_ne (hs.keepsKey (Or.inl hid)).1 hkey

/-- Records built on one another's likes are alike. -/
theorem MemoryCandidate.record_renamed (candidate : MemoryCandidate) {name : String → String}
    {memoryId memoryId' : String} (hid : name memoryId = memoryId')
    {previous previous' : Option MemoryRecord}
    (h : previous'.map MemoryRecord.head
      = previous.map (fun record => (record.renamed name).head)) :
    candidate.record memoryId' previous' = (candidate.record memoryId previous).renamed name := by
  subst hid
  cases previous with
  | none =>
      obtain rfl := Option.map_eq_none_iff.mp h
      rfl
  | some record =>
      obtain ⟨record', rfl, hhead⟩ := Option.map_eq_some_iff.mp h
      obtain ⟨hid, hrevision⟩ := Prod.mk.inj hhead
      simp only [MemoryCandidate.record, MemoryRecord.renamed, Option.map_some, hid, hrevision]

/-! ## How many records a key has

The number of records of a key is what gives an event away that only one store took in.
-/

theorem get?_advanceConsumer_eq_none {db : Database} {eventId eventId' status : String}
    {sequence : Int} {resultRef : Option String} :
    (db.advanceConsumer memoryConsumer eventId sequence status
        resultRef).consumerReceipts.get? (memoryConsumer, eventId') = none ↔
      db.consumerReceipts.get? (memoryConsumer, eventId') = none ∧ eventId ≠ eventId' := by
  refine Table.get?_putNew_eq_none.trans (and_congr_right (fun _ => not_congr ?_))
  exact ⟨fun h => (Prod.mk.inj h).2, fun h => h ▸ rfl⟩

/-- A new event that can be read is receipted. -/
theorem Database.ReceiptsOf.handle (hs : s.Sound uuid) (hdurable : s.store.persistent = true)
    {before : List Event} (hreceipts : s.db.ReceiptsOf py before) (hnew : event.New py s.db) :
    (after (handleEvent uuid py event) s).db.ReceiptsOf py (before ++ [event]) := by
  have hone : ∀ eventId,
      (after (handleEvent uuid py event) s).db.consumerReceipts.get? (memoryConsumer, eventId)
          = none ↔
        s.db.consumerReceipts.get? (memoryConsumer, eventId) = none ∧
          (event.Readable py ∧ Bindable event.columns → event.eventId ≠ eventId) := by
    intro eventId
    have hcases := handleEvent_cases uuid py event s hdurable
    unfold after
    generalize handleEvent uuid py event s = result at hcases
    cases hcases with
    | unreadable e raised =>
        -- the payload raised before a receipt was written
        refine (and_iff_left ?_).symm
        rintro ⟨⟨candidate, hread⟩, _⟩
        cases raised.symm.trans hread
    | replayed readable receipt found committed store ids held later =>
        refine (and_iff_left_of_imp (fun hnone _ heq => ?_)).symm
        subst heq
        cases found.symm.trans hnone
    | ignored readable absent bindable nothing =>
        refine get?_advanceConsumer_eq_none.trans (and_congr_right (fun _ => ?_))
        exact ⟨fun h _ => h, fun h => h ⟨readable, bindable⟩⟩
    | unnamed absent unbindable nothing e => exact (and_iff_left (fun h => absurd h.2 unbindable)).symm
    | refused candidate something absent e run =>
        -- under a new id a candidate that can be stored is never refused
        obtain ⟨hstorable, _⟩ := hnew candidate something
        obtain ⟨value, hvalue⟩ := Option.ne_none_iff_exists'.mp hstorable.json
        have hjson' : candidate.partitioned.value.jsonDumps = some value := hvalue
        cases run.symm.trans (processMemoryEvent_of_new absent hstorable.bound hjson'
          (hs.freshRows s.ids le_rfl))
    | committed candidate something absent bindable record value built json free =>
        refine get?_advanceConsumer_eq_none.trans (and_congr_right (fun _ => ?_))
        exact ⟨fun h _ => h, fun h => h ⟨⟨_, (candidate?_read something).1⟩, bindable.event⟩⟩
  intro eventId
  rw [hone, hreceipts, List.forall_mem_append, List.forall_mem_singleton]

end

namespace BothModes

variable {uuid uuid' : ℕ → String} {py : Builtins} {s : BothModes}

/-! ## What holds of both, whatever the events are -/

/-- Each store is in its mode, and sound. -/
structure Sound (uuid uuid' : ℕ → String) (s : BothModes) : Prop where
  volatile : s.volatile.store.persistent = false
  durable : s.durable.store.persistent = true
  soundVolatile : s.volatile.Sound uuid
  soundDurable : s.durable.Sound uuid'
  loaded : s.durable.Loaded

theorem Sound.exec (huuid : Function.Injective uuid) (huuid' : Function.Injective uuid')
    (hs : s.Sound uuid uuid') (event : Event) : (s.exec py uuid uuid' event).Sound uuid uuid' := by
  have hany : ∀ t : MemorySys, t.Every (fun _ => True) :=
    fun t => ⟨fun _ _ => trivial, fun _ _ => trivial⟩
  have hP : ∀ newId, Durable newId (fun _ => True) :=
    fun newId => ⟨fun _ _ _ _ _ => trivial, fun _ _ _ => trivial⟩
  have hvolatile := handle_step (K := fun _ => False) huuid (hP uuid) (fun _ _ h => h.elim)
    hs.soundVolatile (hany s.volatile) py event
  have hdurable := handle_step (K := fun _ => False) huuid' (hP uuid') (fun _ _ h => h.elim)
    hs.soundDurable (hany s.durable) py event
  exact ⟨hvolatile.persistent.trans hs.volatile, hdurable.persistent.trans hs.durable,
    hvolatile.sound, hdurable.sound, hdurable.loaded hs.loaded⟩

/-! ## A record that only one of them took in -/

/-- The stores took in the same records, and the next record of a key is built alike. -/
structure Renamed (name : String → String) (s : BothModes) : Prop where
  ids : s.durable.ids = s.volatile.ids
  records : s.durable.store.records.rows
    = s.volatile.store.records.rows.map (MemoryRecord.renamed name)
  heads : ∀ key, (s.durable.db.latestRecord key).map MemoryRecord.head
    = (s.volatile.store.current key).map (fun record => (record.renamed name).head)

variable {name : String → String}

/-- Then they are alike. -/
theorem Renamed.alike (h : s.Renamed name) : s.Alike := by
  refine ⟨name, fun key => List.Perm.of_eq ?_⟩
  have hshown : MemoryRecord.shown id ∘ MemoryRecord.renamed name = MemoryRecord.shown name := by
    funext record
    simp [MemoryRecord.shown, MemoryRecord.renamed]
  unfold MemoryStore.recordsOf
  rw [h.records, List.filter_map, List.map_map, hshown]
  rfl

/-- Neither store took anything in. -/
theorem Renamed.same {t : BothModes} (h : s.Renamed name)
    (hvolatile : SameMemory s.volatile t.volatile) (hdurable : SameMemory s.durable t.durable)
    (hids : t.durable.ids = t.volatile.ids) : t.Renamed name where
  ids := hids
  records := by
    rw [hvolatile.records, hdurable.records]
    exact h.records
  heads key := by
    rw [hvolatile.current, Database.latestRecord_congr hdurable.rows]
    exact h.heads key

/-- Each took in a record under its next id, the newest of its key. -/
theorem Renamed.held (h : s.Renamed name) (hs : s.Sound uuid uuid') {record : MemoryRecord}
    {value : PyVal} {db : Database} (hid : record.memoryId = newMemoryId uuid s.volatile.ids)
    (hid' : name record.memoryId = newMemoryId uuid' s.durable.ids)
    (hrevision : record.revision = s.durable.db.nextRevision record.memoryKey)
    (hrows : db.memoryRecords
      = s.durable.db.memoryRecords.put { record.renamed name with value := value }) :
    Renamed name
      { volatile :=
          { s.volatile with
            store := s.volatile.store.hold record
            ids := s.volatile.ids + 1 }
        durable :=
          { s.durable with
            store := s.durable.store.hold (record.renamed name)
            db := db
            ids := s.durable.ids + 1 } } where
  ids := congrArg (· + 1) h.ids
  records := by
    -- both ids are new, so each record comes last
    have hnew := Table.get?_eq_none.mpr (hs.soundVolatile.freshStore s.volatile.ids le_rfl)
    have hnew' := Table.get?_eq_none.mpr (hs.soundDurable.freshStore s.durable.ids le_rfl)
    rw [← hid] at hnew
    rw [← hid'] at hnew'
    show (s.durable.store.records.put (record.renamed name)).rows
      = (s.volatile.store.records.put record).rows.map (MemoryRecord.renamed name)
    rw [Table.put_rows_of_get?_none hnew, List.map_append, List.map_singleton, ← h.records]
    exact Table.put_rows_of_get?_none hnew'
  heads key := by
    -- for its own key the record is the newest on both sides
    have hnew := Table.get?_eq_none.mpr (hs.soundDurable.freshRows s.durable.ids le_rfl)
    rw [← hid'] at hnew
    show (db.latestRecord key).map MemoryRecord.head
      = ((s.volatile.store.hold record).current key).map (fun r => (r.renamed name).head)
    rw [Database.latestRecord_put hrows hnew hrevision.ge key,
      hs.soundVolatile.current_hold hid key]
    show (if record.memoryKey = key then _ else _ : Option MemoryRecord).map _ = _
    by_cases hkey : record.memoryKey = key
    · rw [if_pos hkey, if_pos hkey]
      rfl
    · rw [if_neg hkey, if_neg hkey]
      exact h.heads key

/-- **One event.** As long as events are new, the stores take in the same. -/
theorem Renamed.exec (hname : ∀ n, name (newMemoryId uuid n) = newMemoryId uuid' n)
    (hs : s.Sound uuid uuid') (h : s.Renamed name) {event : Event}
    (hnew : event.New py s.durable.db) : (s.exec py uuid uuid' event).Renamed name := by
  cases hcandidate : event.candidate? py with
  | none =>
      obtain ⟨hvolatile, hids⟩ := nothing_sameMemory uuid s.volatile hcandidate
      obtain ⟨hdurable, hids'⟩ := nothing_sameMemory uuid' s.durable hcandidate
      exact h.same hvolatile hdurable (hids'.trans (h.ids.trans hids.symm))
  | some candidate =>
      obtain ⟨value, db, hdurable, hrows⟩ :=
        handleEvent_durable hs.soundDurable hs.durable hcandidate hnew
      have hvolatile := handleEvent_volatile uuid hcandidate hs.volatile
      have hid : name (newMemoryId uuid s.volatile.ids) = newMemoryId uuid' s.durable.ids := by
        rw [hname, h.ids]
      -- each continues the chain of the key under its own next id
      have hmade := candidate.partitioned.record_renamed hid
        (h.heads candidate.partitioned.memoryKey)
      have hrevision := candidate.partitioned.record_revision (newMemoryId uuid' s.durable.ids)
        s.durable.db
      rw [hmade] at hdurable hrows hrevision
      have hexec := congrArg₂ BothModes.mk hvolatile hdurable
      show Renamed name (BothModes.mk _ _)
      rw [hexec]
      exact h.held hs rfl hid hrevision hrows

end BothModes

/-! ## Runs -/

open BothModes

section

variable {uuid uuid' : ℕ → String}

end

end LiandanluNative
