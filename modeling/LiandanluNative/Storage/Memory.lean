/-
# LiandanluNative.Storage.Memory — the event consumers and the memory table of `storage.py`.

`ack_event_consumer` reads the cursor and the end of the log without a transaction and then writes
in one of its own, so the two halves are separate: `Database.ackAllowed` and `Database.ackWrite`.
`process_memory_event` is a single transaction, begun before its first read.

`processMemoryEvent_cases` is what later modules know of that transaction: a receipt answers it, or
it writes a receipt, alone or with the next revision of a key; and it writes nothing where it
raises.  The revision is one past the newest of its key (`Database.nextRevision`), so the revisions
of a key grow in the order of their rows, and a new row is the newest there is
(`Database.latestRecord_put`).
-/
import LiandanluNative.Storage.Database
import Mathlib.Data.List.Sort
import Mathlib.Data.List.MinMax

namespace LiandanluNative

open Lib (Table)
open Lib.Proc

/-! ## Cursors -/

/-- The consumer's cursor, zero before its first row.  The numbers of the log start at one. -/
def Database.cursor (db : Database) (consumerId : String) : Int :=
  match db.consumerCursors.get? consumerId with
  | none => 0
  | some row => row.2

/-- `read_events_after` -/
def Database.readEventsAfter (db : Database) (consumerId : String) : List Event :=
  (db.events.rows.filter (fun event => decide (db.cursor consumerId < event.sequence))).insertionSort
    (fun a b => a.sequence ≤ b.sequence)

/-- `SELECT MAX(sequence) FROM events`, or zero. -/
def Database.maxSequence (db : Database) : Int := (db.events.rows.map Event.sequence).max?.getD 0

/-- The first half of `ack_event_consumer`: whether to write, by what the unlocked reads return. -/
def Database.ackAllowed (db : Database) (consumerId : String) (sequence : Int) : Except Exc Bool :=
  if sequence < db.cursor consumerId then
    .ok false
  else if db.maxSequence < sequence then
    .error ⟨.valueError, "cannot ack beyond durable event log"⟩
  else
    .ok true

/-- The second half of `ack_event_consumer`, which writes whatever the first half has found to be
right. -/
def Database.ackWrite (db : Database) (consumerId : String) (sequence : Int) : Database :=
  { db with consumerCursors := db.consumerCursors.put (consumerId, sequence) }

/-- `ack_event_consumer` -/
def ackEventConsumer (consumerId : String) (sequence : Int) : Txn Unit := fun db =>
  match db.ackAllowed consumerId sequence with
  | .error e => .error e db
  | .ok false => .ok () db
  | .ok true => .ok () (db.ackWrite consumerId sequence)

/-! ## Memory records

Records of one key form a chain of revisions; the newest is what the next one is built on.
-/

/-- The key a chain of revisions shares. -/
abbrev MemoryKey := String × String × String × MemoryKind

/-- The key of a row. -/
def MemoryRecord.memoryKey (record : MemoryRecord) : MemoryKey :=
  (record.workspaceId, record.scope, record.key, record.kind)

/-- The key that a candidate is for. -/
def MemoryCandidate.memoryKey (candidate : MemoryCandidate) : MemoryKey :=
  (candidate.workspaceId, candidate.scope, candidate.key, candidate.kind)

/-- The records of one key, in the order of the table. -/
def Database.recordsOf (db : Database) (key : MemoryKey) : List MemoryRecord :=
  db.memoryRecords.rows.filter (fun record => decide (record.memoryKey = key))

/-- `… ORDER BY revision DESC LIMIT 1`. The order of the integers is named: of the instances a
client may see, not all compute. -/
def newest (records : List MemoryRecord) : Option MemoryRecord :=
  @List.argmax MemoryRecord ℤ Int.instLinearOrder.toPreorder _ MemoryRecord.revision records

/-- The newest record of one key. -/
def Database.latestRecord (db : Database) (key : MemoryKey) : Option MemoryRecord :=
  newest (db.recordsOf key)

/-- No record is newer than the newest. -/
theorem le_newest {records : List MemoryRecord} {record : MemoryRecord}
    (h : newest records = some record) : ∀ r ∈ records, r.revision ≤ record.revision :=
  fun _ hr => Int.not_lt.mp (List.not_lt_of_mem_argmax hr h)

/-- There is a newest record as soon as there is one. -/
theorem newest_eq_none {records : List MemoryRecord} (h : newest records = none) : records = [] :=
  List.argmax_eq_none.mp h

/-- A record past all others is the newest. -/
theorem newest_concat {records : List MemoryRecord} {record : MemoryRecord}
    (h : ∀ r ∈ records, r.revision < record.revision) :
    newest (records ++ [record]) = some record := by
  unfold newest
  rw [List.argmax_concat]
  cases hmax : @List.argmax _ _ Int.instLinearOrder.toPreorder _ MemoryRecord.revision records with
  | none => rfl
  | some best =>
      have hlt := h best (List.argmax_mem hmax)
      simp only [hlt, if_true]

/-- The newest record is one of them. -/
theorem newest_mem {records : List MemoryRecord} {record : MemoryRecord}
    (h : newest records = some record) : record ∈ records := List.argmax_mem h

/-- The record a candidate becomes. -/
def MemoryCandidate.record (candidate : MemoryCandidate) (memoryId : String)
    (previous : Option MemoryRecord) : MemoryRecord where
  memoryId := memoryId
  workspaceId := candidate.workspaceId
  kind := candidate.kind
  key := candidate.key
  value := candidate.value
  scope := candidate.scope
  sourceEventIds := candidate.sourceEventIds
  confidence := candidate.confidence
  revision :=
    match previous with
    | none => 1
    | some record => record.revision + 1
  supersedes := previous.map MemoryRecord.memoryId
  strategyState := if candidate.kind = .strategy then some .candidate else none

/-- The primary key of the record is taken, or its revision of its key.  Both are constraints of the
table, and a row that breaks one is not inserted. -/
def Database.memoryTaken (db : Database) (record : MemoryRecord) : Bool :=
  db.memoryRecords.rows.any (fun row =>
    decide (row.memoryId = record.memoryId) ||
      (decide (row.memoryKey = record.memoryKey) && decide (row.revision = record.revision)))

/-- `_advance_consumer_in_transaction` -/
def Database.advanceConsumer (db : Database) (consumerId eventId : String) (sequence : Int)
    (status : String) (resultRef : Option String) : Database :=
  { db with
    consumerReceipts := db.consumerReceipts.putNew
      { consumerId := consumerId
        eventId := eventId
        sequence := sequence
        status := status
        resultRef := resultRef }
    consumerCursors := db.consumerCursors.put
      (consumerId,
        match db.consumerCursors.get? consumerId with
        | none => sequence
        | some row => if row.2 < sequence then sequence else row.2) }

/-- The consumer whose receipts `process_memory_event` keeps, whoever calls it: the name stands in
its text. -/
def memoryConsumer : String := "memory"

/-- What an event is looked up by.  An event whose id cannot be bound has no receipt. -/
def Event.columns (event : Event) : List Column := [.text event.eventId]

/-- What the newest record of a candidate's key is looked up by. -/
def MemoryCandidate.columns (candidate : MemoryCandidate) : List Column :=
  [.text candidate.workspaceId, .text candidate.scope, .text candidate.key]

/-- `process_memory_event`, where `new_id` gives `memoryId`. -/
def processMemoryEvent (event : Event) (candidate : Option MemoryCandidate) (memoryId : String) :
    Txn (Option MemoryRecord) := fun db =>
  match db.consumerReceipts.get? (memoryConsumer, event.eventId) with
  | some receipt =>
      match receipt.resultRef with
      | none => .ok none db
      | some resultRef =>
          .ok (if resultRef = "" then none else db.memoryRecords.get? resultRef) db
  | none =>
      match binds event.columns db, candidate with
      | .error e _, _ => .error e db
      | .ok _ _, none =>
          .ok none (db.advanceConsumer memoryConsumer event.eventId event.sequence "ignored" none)
      | .ok _ _, some candidate =>
          match binds candidate.columns db with
          | .error e _ => .error e db
          | .ok _ _ =>
              let record := candidate.record memoryId (db.latestRecord candidate.memoryKey)
              match record.value.jsonDumps with
              | none => .error ⟨.typeError, "Object is not JSON serializable"⟩ db
              | some value =>
                  if db.memoryTaken record then
                    .error ⟨.integrityError, "UNIQUE constraint failed: memory_records"⟩ db
                  else
                    let stored :=
                      { db with
                        memoryRecords := db.memoryRecords.put { record with value := value } }
                    .ok (some record)
                      (stored.advanceConsumer memoryConsumer event.eventId event.sequence
                        "committed" (some record.memoryId))

/-! ## Loading and saving records -/

/-- `kind.value` -/
def MemoryKind.value : MemoryKind → String
  | .fact => "FACT"
  | .episode => "EPISODE"
  | .strategy => "STRATEGY"

/-- `ORDER BY scope,key,kind,revision` -/
def memoryOrder (a b : MemoryRecord) : Prop :=
  a.scope < b.scope ∨ (a.scope = b.scope ∧ (a.key < b.key ∨ (a.key = b.key ∧
    (a.kind.value < b.kind.value ∨ (a.kind = b.kind ∧ a.revision ≤ b.revision)))))

instance : DecidableRel memoryOrder := fun a b => by unfold memoryOrder; infer_instance

/-- `load_memory_records` -/
def Database.loadMemoryRecords (db : Database) : List MemoryRecord :=
  db.memoryRecords.rows.insertionSort memoryOrder

/-- The columns `save_memory_record` overwrites when the row exists. -/
def MemoryRecord.overwrite (old new : MemoryRecord) : MemoryRecord :=
  { old with
    value := new.value
    confidence := new.confidence
    strategyState := new.strategyState
    supportCount := new.supportCount
    supportEventIds := new.supportEventIds }

/-- `save_memory_record` -/
def saveMemoryRecord (record : MemoryRecord) : Txn Unit := transaction do
  let value ← dumps record.value
  let row := { record with value := value }
  let db ← get
  match db.memoryRecords.get? record.memoryId with
  | some old => set { db with memoryRecords := db.memoryRecords.put (old.overwrite row) }
  | none =>
      if db.memoryTaken row then
        throw ⟨.integrityError, "UNIQUE constraint failed: memory_records"⟩
      else
        set { db with memoryRecords := db.memoryRecords.put row }

/-- How a record can be saved: into its own row, whose key and revision stay, or into a new one. -/
theorem saveMemoryRecord_cases (record : MemoryRecord) (db : Database) :
    after (saveMemoryRecord record) db = db ∨
      ∃ row : MemoryRecord,
        after (saveMemoryRecord record) db
            = { db with memoryRecords := db.memoryRecords.put row } ∧
          row.memoryId = record.memoryId ∧ record.value.jsonDumps = some row.value ∧
          ((∃ old ∈ db.memoryRecords.rows, old.memoryId = record.memoryId ∧
              row.memoryKey = old.memoryKey ∧ row.revision = old.revision) ∨
            (∀ old ∈ db.memoryRecords.rows, old.memoryId ≠ record.memoryId) ∧
              row.memoryKey = record.memoryKey ∧ row.revision = record.revision) := by
  unfold saveMemoryRecord transaction after
  simp only [bind, EStateM.bind, dumps]
  cases hjson : record.value.jsonDumps with
  | none => exact Or.inl rfl
  | some value =>
      dsimp only [get, getThe, MonadStateOf.get, EStateM.get]
      cases hold : db.memoryRecords.get? record.memoryId with
      | some old =>
          have hid : old.memoryId = record.memoryId := Table.key_of_get? hold
          exact Or.inr ⟨old.overwrite { record with value := value }, rfl, hid, rfl,
            Or.inl ⟨old, Table.mem_of_get? hold, hid, rfl, rfl⟩⟩
      | none =>
          cases htaken : db.memoryTaken { record with value := value } with
          | true => exact Or.inl rfl
          | false =>
              exact Or.inr ⟨{ record with value := value }, rfl, rfl, rfl,
                Or.inr ⟨Table.get?_eq_none.mp hold, rfl, rfl⟩⟩

/-- A record that has a row is saved into it. -/
theorem saveMemoryRecord_of_row {record old : MemoryRecord} {value : PyVal} {db : Database}
    (hjson : record.value.jsonDumps = some value)
    (hold : db.memoryRecords.get? record.memoryId = some old) :
    saveMemoryRecord record db = .ok ()
      { db with
        memoryRecords := db.memoryRecords.put (old.overwrite { record with value := value }) } := by
  unfold saveMemoryRecord transaction
  simp only [bind, EStateM.bind, dumps, hjson]
  dsimp only [get, getThe, MonadStateOf.get, EStateM.get]
  rw [hold]
  rfl

/-! ## How a memory event is processed -/

/-- The record a receipt refers to, as it is stored now. -/
def Database.receipted (db : Database) (receipt : ConsumerReceipt) : Option MemoryRecord :=
  match receipt.resultRef with
  | none => none
  | some resultRef => if resultRef = "" then none else db.memoryRecords.get? resultRef

/-- What a receipt gives back is a row. -/
theorem Database.receipted_mem {db : Database} {receipt : ConsumerReceipt} {record : MemoryRecord}
    (h : db.receipted receipt = some record) : record ∈ db.memoryRecords.rows := by
  unfold receipted at h
  split at h
  · cases h
  · split at h
    · cases h
    · exact Table.mem_of_get? h

/-- The texts a candidate and its event are looked up by can be bound. -/
structure MemoryCandidate.Bound (candidate : MemoryCandidate) (event : Event) : Prop where
  event : Bindable event.columns
  candidate : Bindable candidate.columns

/-- How a run of `process_memory_event` can end. -/
inductive ProcessRun (event : Event) (candidate : Option MemoryCandidate) (memoryId : String)
    (db : Database) : EStateM.Result Exc Database (Option MemoryRecord) → Prop
  /-- The event has a receipt, and the answer is the record it refers to. -/
  | replayed (receipt : ConsumerReceipt)
      (found : db.consumerReceipts.get? (memoryConsumer, event.eventId) = some receipt) :
      ProcessRun event candidate memoryId db (.ok (db.receipted receipt) db)
  | ignored (absent : db.consumerReceipts.get? (memoryConsumer, event.eventId) = none)
      (none_ : candidate = none) :
      ProcessRun event candidate memoryId db
        (.ok none (db.advanceConsumer memoryConsumer event.eventId event.sequence "ignored" none))
  /-- A text cannot be bound, the value is no JSON, or the record collides with one of the table. -/
  | refused (e : Exc) : ProcessRun event candidate memoryId db (.error e db)
  | committed (c : MemoryCandidate) (record : MemoryRecord) (value : PyVal)
      (absent : db.consumerReceipts.get? (memoryConsumer, event.eventId) = none)
      (some_ : candidate = some c) (bindable : c.Bound event)
      (built : record = c.record memoryId (db.latestRecord c.memoryKey))
      (json : record.value.jsonDumps = some value) (free : db.memoryTaken record = false) :
      ProcessRun event candidate memoryId db
        (.ok (some record)
          (Database.advanceConsumer
            { db with memoryRecords := db.memoryRecords.put { record with value := value } }
            memoryConsumer event.eventId event.sequence "committed" (some record.memoryId)))

/-- An event that has a receipt is answered by it, and nothing is written. -/
theorem processMemoryEvent_of_receipt {event : Event} {candidate : Option MemoryCandidate}
    {memoryId : String} {db : Database} {receipt : ConsumerReceipt}
    (h : db.consumerReceipts.get? (memoryConsumer, event.eventId) = some receipt) :
    processMemoryEvent event candidate memoryId db = .ok (db.receipted receipt) db := by
  unfold processMemoryEvent Database.receipted
  rw [h]
  dsimp only
  cases receipt.resultRef <;> rfl

/-- **Processing an event** ends in one of these ways; the cases are in the order of the checks. -/
theorem processMemoryEvent_cases (event : Event) (candidate : Option MemoryCandidate)
    (memoryId : String) (db : Database) :
    ProcessRun event candidate memoryId db (processMemoryEvent event candidate memoryId db) := by
  cases hreceipt : db.consumerReceipts.get? (memoryConsumer, event.eventId) with
  | some receipt =>
      rw [processMemoryEvent_of_receipt hreceipt]
      exact .replayed receipt hreceipt
  | none =>
      unfold processMemoryEvent
      rw [hreceipt]
      by_cases hevent : Bindable event.columns
      swap
      · obtain ⟨e, he⟩ := binds_of_refused hevent db
        simp only [he]
        exact .refused e
      simp only [binds_of_bindable hevent]
      cases candidate with
      | none => exact .ignored hreceipt rfl
      | some c =>
          by_cases hcandidate : Bindable c.columns
          swap
          · obtain ⟨e, he⟩ := binds_of_refused hcandidate db
            simp only [he]
            exact .refused e
          simp only [binds_of_bindable hcandidate]
          cases hjson : ((c.record memoryId (db.latestRecord c.memoryKey)).value).jsonDumps with
          | none => exact .refused _
          | some value =>
              dsimp only
              split
              · exact .refused _
              · rename_i hfree
                exact .committed c _ value hreceipt rfl ⟨hevent, hcandidate⟩ rfl hjson
                  (Bool.not_eq_true _ ▸ hfree)

/-- The revision the database gives to the next record of a key. -/
def Database.nextRevision (db : Database) (key : MemoryKey) : Int :=
  match db.latestRecord key with
  | none => 1
  | some previous => previous.revision + 1

/-- A record is built with the next revision of its key. -/
theorem MemoryCandidate.record_revision (candidate : MemoryCandidate) (memoryId : String)
    (db : Database) :
    (candidate.record memoryId (db.latestRecord candidate.memoryKey)).revision
      = db.nextRevision candidate.memoryKey := by
  unfold MemoryCandidate.record Database.nextRevision
  cases db.latestRecord candidate.memoryKey <;> rfl

/-- The next revision of a key is past all of its rows. -/
theorem Database.lt_nextRevision {db : Database} {row : MemoryRecord}
    (h : row ∈ db.memoryRecords.rows) : row.revision < db.nextRevision row.memoryKey := by
  have hmem : row ∈ db.recordsOf row.memoryKey := List.mem_filter.mpr ⟨h, decide_eq_true rfl⟩
  unfold Database.nextRevision
  cases hlatest : db.latestRecord row.memoryKey with
  | none =>
      rw [newest_eq_none hlatest] at hmem
      cases hmem
  | some previous =>
      have hle := le_newest hlatest row hmem
      dsimp only
      omega

/-- Only the memory table has records. -/
theorem Database.recordsOf_congr {db db' : Database} (h : db'.memoryRecords = db.memoryRecords)
    (key : MemoryKey) : db'.recordsOf key = db.recordsOf key := by
  unfold recordsOf
  rw [h]

/-- Only the memory table has the newest one. -/
theorem Database.latestRecord_congr {db db' : Database}
    (h : db'.memoryRecords = db.memoryRecords) (key : MemoryKey) :
    db'.latestRecord key = db.latestRecord key := by
  unfold latestRecord
  rw [recordsOf_congr h]

/-- A new row comes last of its key. -/
theorem Database.recordsOf_put {db db' : Database} {row : MemoryRecord}
    (hrows : db'.memoryRecords = db.memoryRecords.put row)
    (hnew : db.memoryRecords.get? row.memoryId = none) (key : MemoryKey) :
    db'.recordsOf key = db.recordsOf key ++ if row.memoryKey = key then [row] else [] := by
  unfold recordsOf
  rw [hrows, Table.put_rows_of_get?_none hnew, List.filter_append]
  simp only [List.filter_cons, List.filter_nil, decide_eq_true_eq]

/-- A new row past all others of its key is the newest of its key. -/
theorem Database.latestRecord_put {db db' : Database} {row : MemoryRecord}
    (hrows : db'.memoryRecords = db.memoryRecords.put row)
    (hnew : db.memoryRecords.get? row.memoryId = none)
    (hgreater : db.nextRevision row.memoryKey ≤ row.revision) (key : MemoryKey) :
    db'.latestRecord key = if row.memoryKey = key then some row else db.latestRecord key := by
  unfold latestRecord
  rw [recordsOf_put hrows hnew]
  by_cases hkey : row.memoryKey = key
  · rw [if_pos hkey, if_pos hkey]
    refine newest_concat (fun r hr => ?_)
    obtain ⟨hmem, hsame⟩ := List.mem_filter.mp hr
    have hlt := Database.lt_nextRevision hmem
    rw [of_decide_eq_true hsame, ← hkey] at hlt
    exact hlt.trans_le hgreater
  · rw [if_neg hkey, if_neg hkey, List.append_nil]

/-- A new revision of a key, under an id of its own, collides with nothing: no row has the id, and
none of the key has the revision. -/
theorem memoryTaken_record (candidate : MemoryCandidate) {memoryId : String} {db : Database}
    (hfresh : ∀ row ∈ db.memoryRecords.rows, row.memoryId ≠ memoryId) :
    db.memoryTaken (candidate.record memoryId (db.latestRecord candidate.memoryKey)) = false := by
  refine List.any_eq_false.mpr (fun row hrow => ?_)
  rw [Bool.or_eq_true, Bool.and_eq_true, decide_eq_true_iff, decide_eq_true_iff, decide_eq_true_iff]
  rintro (hid | ⟨hkey, hrevision⟩)
  · exact hfresh row hrow hid
  · have hlt := Database.lt_nextRevision hrow
    rw [candidate.record_revision] at hrevision
    rw [hkey] at hlt
    exact absurd hrevision (ne_of_lt hlt)

/-- The first time an event is processed with a candidate, under an id of its own. -/
theorem processMemoryEvent_of_new {event : Event} {candidate : MemoryCandidate} {memoryId : String}
    {db : Database} {value : PyVal}
    (habsent : db.consumerReceipts.get? (memoryConsumer, event.eventId) = none)
    (hbound : candidate.Bound event)
    (hjson : candidate.value.jsonDumps = some value)
    (hfresh : ∀ row ∈ db.memoryRecords.rows, row.memoryId ≠ memoryId) :
    processMemoryEvent event (some candidate) memoryId db =
      .ok (some (candidate.record memoryId (db.latestRecord candidate.memoryKey)))
        (Database.advanceConsumer
          { db with
            memoryRecords := db.memoryRecords.put
              { candidate.record memoryId (db.latestRecord candidate.memoryKey) with
                value := value } }
          memoryConsumer event.eventId event.sequence "committed" (some memoryId)) := by
  have hrecord : (candidate.record memoryId (db.latestRecord candidate.memoryKey)).value.jsonDumps
      = some value := hjson
  simp only [processMemoryEvent, habsent, binds_of_bindable hbound.event,
    binds_of_bindable hbound.candidate, hrecord, memoryTaken_record candidate hfresh,
    Bool.false_eq_true, if_false]
  rfl

end LiandanluNative
