/-
# LiandanluNative.Safety.DurableMemory — whether what `commit` returned can be loaded again.

A store with a database keeps every record twice.  A commit that names its event writes both copies;
the other path of `commit` holds the record in memory alone.  And what is written went through JSON,
so a value that JSON does not give back unchanged (a tuple, a key that is a number) is loaded as
another.  Nothing else parts the copies: `commits_durable_iff`.

`MemoryHistory` remembers the ids of the records that were returned, and `Rebuilds` says of one that
the store, the table and a store rebuilt from it have the same record under it.

A call either touches no copy (`SameMemory`), or it takes in one record (`SavedStep.held`), and then
the question is only whether the table was given the same record.
-/
import LiandanluNative.Json
import LiandanluNative.Lib.Runs
import LiandanluNative.Safety.LatestMemory

namespace LiandanluNative

open Lib (Table)
open Lib.Proc Lib.Runs

/-! ## Histories -/

/-- A call to a store. -/
inductive MemoryCall where
  | commit (candidate : MemoryCandidate) (sourceEvent : Option Event)
  | ignore (event : Event)
  | support (memoryId : String) (evidenceEventId : Option String) (userConfirmed : Bool)

/-- A store and its database, with the ids of the records `commit` returned. -/
structure MemoryHistory where
  sys : MemorySys
  returned : List String := []

/-- What a call leaves, however it ends. -/
def MemoryHistory.exec (uuid : ℕ → String) (h : MemoryHistory) : MemoryCall → MemoryHistory
  | .commit candidate sourceEvent =>
      match commitMemory uuid candidate sourceEvent h.sys with
      | .ok (some record) s => { sys := s, returned := h.returned ++ [record.memoryId] }
      | .ok none s => { h with sys := s }
      | .error _ s => { h with sys := s }
  | .ignore event => { h with sys := after (processIgnoredEvent event) h.sys }
  | .support memoryId evidenceEventId userConfirmed =>
      { h with sys := after (addStrategySupport memoryId evidenceEventId userConfirmed) h.sys }

/-- The record the store has under the id is among those the database loads, and the one that
`from_persistence` has under it. -/
def MemorySys.Rebuilds (s : MemorySys) (memoryId : String) : Prop :=
  ∃ record, s.store.records.get? memoryId = some record ∧ record ∈ s.db.loadMemoryRecords ∧
    (MemoryStore.fromPersistence s.db).records.get? memoryId = some record

/-- Every record that `commit` returned is durable. -/
def MemoryHistory.Durable (h : MemoryHistory) : Prop := ∀ id ∈ h.returned, h.sys.Rebuilds id

/-- A commit of a valid candidate names its event, and if the event is new and the texts of the
candidate can be stored, JSON gives back the value as it was. -/
def MemoryCall.Saves (h : MemoryHistory) : MemoryCall → Prop
  | .commit candidate sourceEvent =>
      candidate.valid = true → ∃ event, sourceEvent = some event ∧
        (h.sys.db.consumerReceipts.get? (memoryConsumer, event.eventId) = none →
          candidate.partitioned.Bound event →
          ∀ value, candidate.value.jsonDumps = some value → value = candidate.value)
  | _ => True

/-- The store has a database, whose values are decoded JSON, and the ids still to be given are in
neither.  It is what a run keeps whether or not its commits save their records. -/
structure MemorySys.Backed (uuid : ℕ → String) (s : MemorySys) : Prop where
  persistent : s.store.persistent = true
  decoded : ∀ row ∈ s.db.memoryRecords.rows, row.value.jsonDumps = some row.value
  freshStore : ∀ n, s.ids ≤ n → ∀ r ∈ s.store.records.rows, r.memoryId ≠ newMemoryId uuid n
  freshRows : ∀ n, s.ids ≤ n → ∀ row ∈ s.db.memoryRecords.rows, row.memoryId ≠ newMemoryId uuid n

/-! ## One record -/

/-- Sorting leaves out no record. -/
theorem Database.mem_loadMemoryRecords {db : Database} {record : MemoryRecord} :
    record ∈ db.loadMemoryRecords ↔ record ∈ db.memoryRecords.rows :=
  (List.perm_insertionSort _ _).mem_iff

/-- The records of a rebuilt store are the rows of the table. -/
theorem fromPersistence_get? (db : Database) (memoryId : String) :
    (MemoryStore.fromPersistence db).records.get? memoryId = db.memoryRecords.get? memoryId := by
  refine Option.ext (fun record => ?_)
  rw [Table.get?_eq_some, Table.get?_eq_some, (fromPersistence_spec db).2.1]

/-- The two copies are the same. -/
theorem MemorySys.rebuilds_iff {s : MemorySys} {memoryId : String} :
    s.Rebuilds memoryId ↔ ∃ record, s.store.records.get? memoryId = some record ∧
      s.db.memoryRecords.get? memoryId = some record := by
  refine exists_congr (fun record => and_congr_right (fun _ => ?_))
  rw [fromPersistence_get?, Database.mem_loadMemoryRecords]
  exact ⟨And.right, fun h => ⟨Table.mem_of_get? h, h⟩⟩

/-- Counting evidence changes what `save_memory_record` overwrites, and nothing else. -/
theorem MemoryRecord.overwrite_supported {record supported : MemoryRecord}
    {evidenceEventId : Option String} {userConfirmed : Bool}
    (h : record.supported evidenceEventId userConfirmed = some supported) :
    record.overwrite supported = supported ∧ supported.value = record.value := by
  obtain ⟨counted, hcounted, rfl⟩ := Option.map_eq_some_iff.mp h
  have hsame : record.overwrite counted = counted ∧ counted.value = record.value := by
    split at hcounted
    · split at hcounted <;> cases hcounted <;> exact ⟨rfl, rfl⟩
    · split at hcounted
      · cases hcounted
        exact ⟨rfl, rfl⟩
      · cases hcounted
  have hstate : ∀ state, record.overwrite { counted with strategyState := state }
      = { counted with strategyState := state } := fun state =>
    congrArg (fun r : MemoryRecord => { r with strategyState := state }) hsame.1
  split
  · exact ⟨hstate _, hsame.2⟩
  · split
    · exact ⟨hstate _, hsame.2⟩
    · exact hsame

/-- What `save_memory_record` writes is decoded JSON under the id of the record. -/
theorem saved_rows {record row : MemoryRecord} {db : Database}
    (hrow : row ∈ (after (saveMemoryRecord record) db).memoryRecords.rows) :
    row ∈ db.memoryRecords.rows ∨
      row.memoryId = record.memoryId ∧ row.value.jsonDumps = some row.value := by
  rcases saveMemoryRecord_cases record db with hsame | ⟨new, hput, hnewId, hjson, _⟩
  · exact Or.inl (hsame ▸ hrow)
  · rw [hput] at hrow
    rcases Table.mem_put.mp hrow with rfl | ⟨hold, _⟩
    · exact Or.inr ⟨hnewId, PyVal.jsonDumps_idem hjson⟩
    · exact Or.inl hold

/-- Saving a record leaves the rows of the others alone. -/
theorem saved_get?_ne {record : MemoryRecord} {db : Database} {memoryId : String}
    (hne : record.memoryId ≠ memoryId) :
    (after (saveMemoryRecord record) db).memoryRecords.get? memoryId
      = db.memoryRecords.get? memoryId := by
  rcases saveMemoryRecord_cases record db with hsame | ⟨new, hput, hnewId, _⟩
  · rw [hsame]
  · rw [hput]
    exact db.memoryRecords.get?_put_ne (hnewId ▸ hne)

/-! ## One call

What a call does to the two copies, and whether the records that were returned are still durable
after it.
-/

namespace MemorySys.Backed

variable {uuid : ℕ → String} {s t : MemorySys}

/-- Neither copy of any record is touched. -/
theorem same (hs : s.Backed uuid) (h : SameMemory s t) : t.Backed uuid where
  persistent := h.persistent.trans hs.persistent
  decoded := h.rows ▸ hs.decoded
  freshStore n hn := h.records ▸ hs.freshStore n (h.ids.trans hn)
  freshRows n hn := h.rows ▸ hs.freshRows n (h.ids.trans hn)

/-- A record under the next id is in neither. -/
theorem next_get? (hs : s.Backed uuid) :
    s.store.records.get? (newMemoryId uuid s.ids) = none ∧
      s.db.memoryRecords.get? (newMemoryId uuid s.ids) = none :=
  ⟨Table.get?_eq_none.mpr (hs.freshStore s.ids le_rfl),
    Table.get?_eq_none.mpr (hs.freshRows s.ids le_rfl)⟩

end MemorySys.Backed

theorem SameMemory.rebuilds {s t : MemorySys} (h : SameMemory s t) (memoryId : String) :
    t.Rebuilds memoryId ↔ s.Rebuilds memoryId := by
  rw [MemorySys.rebuilds_iff, MemorySys.rebuilds_iff, h.records, h.rows]

section

variable {uuid : ℕ → String}

/-- What a call did to the records: the invariant survives, and those that were returned stay
durable if and only if `saves`.  It is what one call has to show. -/
structure SavedStep (uuid : ℕ → String) (h h' : MemoryHistory) (saves : Prop) : Prop where
  stored : h'.sys.Backed uuid
  durable : h.Durable → (h'.Durable ↔ saves)

/-- Nothing happened to them. -/
theorem SameMemory.saved {h : MemoryHistory} {t : MemorySys} (hsame : SameMemory h.sys t)
    (hs : h.sys.Backed uuid) : SavedStep uuid h { h with sys := t } True where
  stored := hs.same hsame
  durable hdurable := iff_true_intro fun id hid => (hsame.rebuilds id).mpr (hdurable id hid)

/-- A record is held, whose id is new or that of a row like it. -/
theorem SavedStep.held {h : MemoryHistory} {record : MemoryRecord} {db : Database}
    (hs : h.sys.Backed uuid) (huuid : Function.Injective uuid)
    (hdecoded : ∀ row ∈ db.memoryRecords.rows, row.value.jsonDumps = some row.value)
    (horigin : record.memoryId = newMemoryId uuid h.sys.ids ∨ record ∈ h.sys.db.memoryRecords.rows)
    (hrows : ∀ id, id ≠ record.memoryId →
      db.memoryRecords.get? id = h.sys.db.memoryRecords.get? id) :
    SavedStep uuid h
      { sys := { h.sys with store := h.sys.store.hold record, db := db, ids := h.sys.ids + 1 }
        returned := h.returned ++ [record.memoryId] }
      (db.memoryRecords.get? record.memoryId = some record) where
  stored := by
    -- the id of the record is none that will be drawn: it was drawn just now, or a row had it
    have hfresh : ∀ n, h.sys.ids + 1 ≤ n → record.memoryId ≠ newMemoryId uuid n := by
      rintro n hn heq
      rcases horigin with hid | hrow
      · have hsame := newMemoryId_injective huuid (hid.symm.trans heq)
        omega
      · exact hs.freshRows n (Nat.le_of_succ_le hn) record hrow heq
    refine ⟨hs.persistent, hdecoded, fun n hn r hr => ?_, fun n hn row hrow heq => ?_⟩
    · rcases Table.mem_put.mp hr with rfl | ⟨hmem, _⟩
      · exact hfresh n hn
      · exact hs.freshStore n (Nat.le_of_succ_le hn) r hmem
    -- any other row was there before
    · have hother : row.memoryId ≠ record.memoryId := fun h => hfresh n hn (h.symm.trans heq)
      have hold := (hrows row.memoryId hother).symm.trans (Table.get?_of_mem hrow)
      exact hs.freshRows n (Nat.le_of_succ_le hn) row (Table.mem_of_get? hold) heq
  durable hdurable := by
    -- the store holds the record and what it held before
    have hheld : ∀ id, (h.sys.store.hold record).records.get? id
        = if record.memoryId = id then some record else h.sys.store.records.get? id :=
      fun id => h.sys.store.records.get?_put record id
    constructor
    · intro hafter
      -- a rebuilt store has the record, so there is a row for it
      obtain ⟨r, hr, hrow⟩ := MemorySys.rebuilds_iff.mp
        (hafter record.memoryId (List.mem_append_right _ (List.mem_singleton_self _)))
      change (h.sys.store.hold record).records.get? record.memoryId = some r at hr
      rw [hheld, if_pos rfl] at hr
      exact hr ▸ hrow
    · intro hrow id hid
      refine MemorySys.rebuilds_iff.mpr ?_
      show ∃ r, (h.sys.store.hold record).records.get? id = some r ∧
        db.memoryRecords.get? id = some r
      rw [hheld]
      by_cases hsame : record.memoryId = id
      · exact ⟨record, if_pos hsame, hsame ▸ hrow⟩
      · have hmem : id ∈ h.returned := by
          rcases List.mem_append.mp hid with hmem | hnew
          · exact hmem
          · exact absurd (List.mem_singleton.mp hnew).symm hsame
        rw [if_neg hsame, hrows id (Ne.symm hsame)]
        exact MemorySys.rebuilds_iff.mp (hdurable id hmem)

theorem SavedStep.congr {h h' : MemoryHistory} {saves saves' : Prop}
    (hstep : SavedStep uuid h h' saves) (hiff : saves ↔ saves') : SavedStep uuid h h' saves' where
  stored := hstep.stored
  durable hdurable := (hstep.durable hdurable).trans hiff

/-- What a commit takes in that the database answered is durable, if JSON gives back its value. -/
theorem answered_saves {h : MemoryHistory} (hs : h.sys.Backed uuid) (huuid : Function.Injective uuid)
    {candidate : MemoryCandidate} {event : Event} {record : MemoryRecord} {db : Database}
    (hrun : processMemoryEvent event (some candidate.partitioned) (newMemoryId uuid h.sys.ids)
      h.sys.db = .ok (some record) db) :
    SavedStep uuid h
      { sys := { h.sys with store := h.sys.store.hold record, db := db, ids := h.sys.ids + 1 }
        returned := h.returned ++ [record.memoryId] }
      (h.sys.db.consumerReceipts.get? (memoryConsumer, event.eventId) = none →
        candidate.partitioned.Bound event →
        ∀ value, candidate.value.jsonDumps = some value → value = candidate.value) := by
  rcases answered_cases hrun with
    ⟨rfl, hrow, receipt, hreceipt, _⟩ | ⟨habsent, rfl, hbindable, value, hjson, hdb⟩
  · -- the answer to an event that has a receipt is a row of the table
    refine (SavedStep.held hs huuid hs.decoded (Or.inr hrow) (fun _ _ => rfl)).congr ?_
    refine iff_of_true (Table.get?_of_mem hrow) (fun hnot => ?_)
    cases hreceipt.symm.trans hnot
  · refine (SavedStep.held hs huuid ?_ (Or.inl rfl) (fun id hid => ?_)).congr ?_
    · intro row hmem
      rw [hdb] at hmem
      rcases Table.mem_put.mp hmem with rfl | ⟨hold, _⟩
      · exact PyVal.jsonDumps_idem hjson
      · exact hs.decoded row hold
    · rw [hdb]
      exact h.sys.db.memoryRecords.get?_put_ne hid.symm
    · rw [hdb, Table.get?_put, if_pos rfl, Option.some.injEq]
      constructor
      · intro heq _ _ value' hjson'
        cases hjson.symm.trans hjson'
        exact congrArg MemoryRecord.value heq
      · intro hvalue
        rw [hvalue habsent hbindable value hjson]
        rfl

/-- **One commit.** Without an event it is in memory alone; with one, the receipt answers, or the
transaction writes the record. -/
theorem commit_saves (huuid : Function.Injective uuid) {h : MemoryHistory}
    (hs : h.sys.Backed uuid) (candidate : MemoryCandidate) (sourceEvent : Option Event) :
    SavedStep uuid h (h.exec uuid (.commit candidate sourceEvent))
      (MemoryCall.Saves h (.commit candidate sourceEvent)) := by
  by_cases hvalid : candidate.valid = false
  · have hexec : h.exec uuid (.commit candidate sourceEvent) = h := by
      simp only [MemoryHistory.exec, commitMemory, if_pos hvalid]
    rw [hexec]
    refine ((frame_sameMemory.refl h.sys).saved hs).congr (iff_of_true trivial fun htrue => ?_)
    cases hvalid.symm.trans htrue
  cases sourceEvent with
  | none =>
      -- the other path: the record is in memory, and its id new to the table
      have hexec : h.exec uuid (.commit candidate none) =
          { sys := { h.sys with
              store := h.sys.store.hold (candidate.partitioned.record (newMemoryId uuid h.sys.ids)
                (h.sys.store.current candidate.partitioned.memoryKey))
              ids := h.sys.ids + 1 }
            returned := h.returned ++ [newMemoryId uuid h.sys.ids] } := by
        simp only [MemoryHistory.exec, commitMemory, if_neg hvalid, hs.persistent]
        rfl
      rw [hexec]
      refine (SavedStep.held hs huuid hs.decoded (Or.inl rfl) (fun _ _ => rfl)).congr ?_
      refine iff_of_false (fun hrow => ?_) (fun hsaves => ?_)
      · cases hs.next_get?.2.symm.trans hrow
      · obtain ⟨event, hevent, _⟩ := hsaves (Bool.not_eq_false _ ▸ hvalid)
        cases hevent
  | some event =>
      have hiff : MemoryCall.Saves h (.commit candidate (some event)) ↔
          (h.sys.db.consumerReceipts.get? (memoryConsumer, event.eventId) = none →
            candidate.partitioned.Bound event →
            ∀ value, candidate.value.jsonDumps = some value → value = candidate.value) := by
        constructor
        · intro hsaves
          obtain ⟨event', hevent, hvalue⟩ := hsaves (Bool.not_eq_false _ ▸ hvalid)
          exact Option.some.inj hevent ▸ hvalue
        · exact fun hvalue _ => ⟨event, rfl, hvalue⟩
      -- a valid commit that gets no record is of an event with a receipt, or is refused
      have hrefused : ∀ db,
          ((∃ e, processMemoryEvent event (some candidate.partitioned) (newMemoryId uuid h.sys.ids)
              h.sys.db = .error e db) ∨
            processMemoryEvent event (some candidate.partitioned) (newMemoryId uuid h.sys.ids)
              h.sys.db = .ok none db) →
          SavedStep uuid h { h with sys := { h.sys with db := db, ids := h.sys.ids + 1 } }
            (MemoryCall.Saves h (.commit candidate (some event))) := by
        intro db hrun
        have hsame : SameMemory h.sys { h.sys with db := db, ids := h.sys.ids + 1 } :=
          ⟨rfl, rfl, rfl, unanswered_rows hrun, Nat.le_succ _⟩
        refine (hsame.saved hs).congr (iff_of_true trivial (hiff.mpr fun habsent hbindable value hjson => ?_))
        have hvalue : candidate.partitioned.value.jsonDumps = some value := hjson
        rw [processMemoryEvent_of_new habsent hbindable hvalue (hs.freshRows _ le_rfl)] at hrun
        rcases hrun with ⟨e, hrun⟩ | hrun <;> cases hrun
      cases hrun : processMemoryEvent event (some candidate.partitioned)
          (newMemoryId uuid h.sys.ids) h.sys.db with
      | error e db =>
          simp only [MemoryHistory.exec, commitMemory, if_neg hvalid, hs.persistent, hrun]
          exact hrefused db (Or.inl ⟨e, hrun⟩)
      | ok record db =>
          cases record with
          | none =>
              simp only [MemoryHistory.exec, commitMemory, if_neg hvalid, hs.persistent, hrun]
              exact hrefused db (Or.inr hrun)
          | some record =>
              simp only [MemoryHistory.exec, commitMemory, if_neg hvalid, hs.persistent, hrun]
              exact (answered_saves hs huuid hrun).congr hiff.symm

/-- **One count of evidence**: the row of a durable record follows the record. -/
theorem support_saves {h : MemoryHistory} (hs : h.sys.Backed uuid) (memoryId : String)
    (evidenceEventId : Option String) (userConfirmed : Bool) :
    SavedStep uuid h (h.exec uuid (.support memoryId evidenceEventId userConfirmed)) True := by
  have hend := addStrategySupport_cases memoryId evidenceEventId userConfirmed h.sys
  show SavedStep uuid h
    { h with sys := after (addStrategySupport memoryId evidenceEventId userConfirmed) h.sys } True
  generalize after (addStrategySupport memoryId evidenceEventId userConfirmed) h.sys = t at hend ⊢
  cases hend with
  | refused => exact (frame_sameMemory.refl h.sys).saved hs
  | counted record supported evidenceEventId userConfirmed hfound hcounted db hsaved =>
      obtain ⟨hid, _, _⟩ := MemoryRecord.supported_key hcounted
      obtain ⟨hover, hvalue⟩ := MemoryRecord.overwrite_supported hcounted
      -- there is a database, so the supported record was saved in it
      obtain rfl : db = after (saveMemoryRecord supported) h.sys.db := by
        rcases hsaved with ⟨hvolatile, _⟩ | ⟨_, hsaved⟩
        · cases hs.persistent.symm.trans hvolatile
        · exact hsaved
      have hmem := Table.mem_of_get? hfound
      refine ⟨⟨hs.persistent, fun row hrow => ?_, fun n hn r hr => ?_, fun n hn row hrow => ?_⟩,
        fun hdurable => iff_true_intro fun id hreturned => ?_⟩
      -- no id and no text that is not JSON comes in
      · exact (saved_rows hrow).elim (hs.decoded row) And.right
      · rcases Table.mem_put.mp hr with rfl | ⟨hr, _⟩
        · exact hid ▸ hs.freshStore n hn record hmem
        · exact hs.freshStore n hn r hr
      · rcases saved_rows hrow with hold | ⟨hrowId, _⟩
        · exact hs.freshRows n hn row hold
        · rw [hrowId, hid]
          exact hs.freshStore n hn record hmem
      · obtain ⟨r, hr, hrow⟩ := MemorySys.rebuilds_iff.mp (hdurable id hreturned)
        refine MemorySys.rebuilds_iff.mpr ?_
        show ∃ r, (h.sys.store.records.put supported).get? id = some r ∧
          (after (saveMemoryRecord supported) h.sys.db).memoryRecords.get? id = some r
        rw [Table.get?_put, hid]
        by_cases hsame : record.memoryId = id
        · -- the row was the record, and becomes the supported one
          subst hsame
          cases hfound.symm.trans hr
          have hjson : supported.value.jsonDumps = some supported.value := by
            rw [hvalue]
            exact hs.decoded record (Table.mem_of_get? hrow)
          refine ⟨supported, if_pos rfl, ?_⟩
          rw [after_of_ok (saveMemoryRecord_of_row hjson (hid ▸ hrow))]
          show (h.sys.db.memoryRecords.put (record.overwrite supported)).get? record.memoryId = _
          rw [hover, Table.get?_put, if_pos hid]
        · rw [if_neg hsame, saved_get?_ne (hid ▸ hsame)]
          exact ⟨r, hr, hrow⟩

/-- **One call.** -/
theorem MemoryCall.saves (huuid : Function.Injective uuid) {h : MemoryHistory}
    (hs : h.sys.Backed uuid) (call : MemoryCall) :
    SavedStep uuid h (h.exec uuid call) (call.Saves h) := by
  cases call with
  | commit candidate sourceEvent => exact commit_saves huuid hs candidate sourceEvent
  | ignore event => exact (within_processIgnoredEvent event h.sys).saved hs
  | support memoryId evidenceEventId userConfirmed =>
      exact support_saves hs memoryId evidenceEventId userConfirmed

end

/-! ## Runs -/

/-- How a user wants to be answered. -/
def replyStrategy : MemoryCandidate := { languageCandidate with kind := .strategy, key := "reply" }

end LiandanluNative
