/-
# LiandanluNative.Storage.Outbox — `dispatch_event_outbox` of `storage.py`.

The method reads the pending rows before its transaction has begun (the first statement that writes
begins it), so what it delivers may have been read some time ago: `Database.pendingOutbox` is the
read, `transaction (dispatchRows …)` the write, and `dispatchEventOutbox` the two in one go, as a
store with a single connection runs them.

An insertion into `events` that is ignored because its event id is taken still uses up a sequence
number.
-/
import LiandanluNative.Storage.Database
import Mathlib.Data.List.Sort

namespace LiandanluNative

open Lib (Table)

/-- What the delivery reads and writes. -/
def Database.outboxPart (db : Database) :
    Table OutboxRow.outboxId × Int × Table Event.sequence × Int :=
  (db.eventOutbox, db.outboxSequence, db.events, db.eventSequence)

/-- `SELECT * FROM event_outbox WHERE dispatched=0 ORDER BY outbox_id LIMIT ?`, where a negative
limit is none. -/
def Database.pendingOutbox (db : Database) (limit : Int) : List OutboxRow :=
  let rows := (db.eventOutbox.rows.filter (fun row => !row.dispatched)).insertionSort
    (fun a b => a.outboxId ≤ b.outboxId)
  if limit < 0 then rows else rows.take limit.toNat

/-- `row["event_id"] or new_id("evt")` -/
def OutboxRow.deliveredId (row : OutboxRow) (newId : String) : String :=
  match row.eventId with
  | none => newId
  | some eventId => if eventId = "" then newId else eventId

/-- The event a row is delivered as; `occurred_at` zero counts as missing. -/
def OutboxRow.event (row : OutboxRow) (sequence : Int) (eventId : String) (observedAt : ℚ) :
    Event where
  sequence := sequence
  eventId := eventId
  workspaceId := row.workspaceId
  eventType := row.eventType
  actor := row.actor
  taskId := row.taskId
  operationId := row.operationId
  objectRefs := row.objectRefs
  payload := row.payload
  causationId := row.causationId
  correlationId := row.correlationId
  occurredAt := if row.occurredAt = 0 then observedAt else row.occurredAt
  observedAt := observedAt
  learningAllowed := row.learningAllowed

/-- `UPDATE event_outbox SET … WHERE outbox_id=?` -/
def Database.updateOutbox (db : Database) (outboxId : Int) (set : OutboxRow → OutboxRow) :
    Database :=
  match db.eventOutbox.get? outboxId with
  | none => db
  | some row => { db with eventOutbox := db.eventOutbox.put (set row) }

/-- `SELECT * FROM events WHERE event_id=?` -/
def Database.eventById (db : Database) (eventId : String) : Option Event :=
  db.events.rows.find? (fun event => decide (event.eventId = eventId))

/-- `INSERT OR IGNORE INTO events`, where `event_id` is unique. -/
def Database.insertEvent (db : Database) (row : OutboxRow) (eventId : String) (observedAt : ℚ) :
    Database :=
  match db.eventById eventId with
  | some _ => { db with eventSequence := db.eventSequence + 1 }
  | none =>
      { db with
        eventSequence := db.eventSequence + 1
        events := db.events.put (row.event (db.eventSequence + 1) eventId observedAt) }

/-- The log is in the order of its sequence numbers, and no id occurs twice in it. -/
structure Database.LogOrdered (db : Database) : Prop where
  sequences : db.events.rows.Pairwise (fun a b => a.sequence < b.sequence)
  positive : ∀ event ∈ db.events.rows, 0 < event.sequence
  bound : ∀ event ∈ db.events.rows, event.sequence ≤ db.eventSequence
  nonneg : 0 ≤ db.eventSequence
  ids : (db.events.rows.map Event.eventId).Nodup

theorem Database.logOrdered_fresh : Database.LogOrdered {} where
  sequences := .nil
  positive _ h := absurd h List.not_mem_nil
  bound _ h := absurd h List.not_mem_nil
  nonneg := le_rfl
  ids := .nil

/-- Only the log and its counter matter. -/
theorem Database.LogOrdered.congr {db db' : Database} (ho : db.LogOrdered)
    (hevents : db'.events = db.events) (hseq : db'.eventSequence = db.eventSequence) :
    db'.LogOrdered := by
  refine ⟨?_, ?_, ?_, hseq ▸ ho.nonneg, ?_⟩ <;> rw [hevents]
  · exact ho.sequences
  · exact ho.positive
  · rw [hseq]
    exact ho.bound
  · exact ho.ids

theorem Database.eventById_eq_none {db : Database} {eventId : String} :
    db.eventById eventId = none ↔ ∀ event ∈ db.events.rows, event.eventId ≠ eventId := by
  simp [Database.eventById, List.find?_eq_none]

/-- An event with the next sequence number comes last in the table. -/
theorem Database.LogOrdered.put_rows {db : Database} (ho : db.LogOrdered) {event : Event}
    (hseq : event.sequence = db.eventSequence + 1) :
    (db.events.put event).rows = db.events.rows ++ [event] := by
  refine Table.put_rows_of_get?_none (Table.get?_eq_none.mpr (fun old hold heq => ?_))
  have hle := ho.bound old hold
  have hsame : old.sequence = event.sequence := heq
  omega

/-- The log stays ordered when an event with the next number and an id of its own is appended. -/
theorem Database.LogOrdered.snoc {db : Database} (ho : db.LogOrdered) {event : Event}
    (hseq : event.sequence = db.eventSequence + 1) (hfresh : db.eventById event.eventId = none) :
    Database.LogOrdered
      { db with eventSequence := db.eventSequence + 1, events := db.events.put event } := by
  have happend := ho.put_rows hseq
  have hnonneg := ho.nonneg
  -- an event of the new log is an old one or has the new number
  have hmem : ∀ other ∈ db.events.rows ++ [event],
      other ∈ db.events.rows ∨ other.sequence = db.eventSequence + 1 := by
    intro other hother
    rcases List.mem_append.mp hother with hold | hnew
    · exact Or.inl hold
    · rw [List.mem_singleton.mp hnew]
      exact Or.inr hseq
  refine ⟨?_, ?_, ?_, ?_, ?_⟩
  · rw [happend]
    refine List.pairwise_append.mpr ⟨ho.sequences, List.pairwise_singleton _ _, ?_⟩
    intro old hold new hnew
    rw [List.mem_singleton.mp hnew]
    have hle := ho.bound old hold
    omega
  · rw [happend]
    intro other hother
    rcases hmem other hother with hold | hnew
    · exact ho.positive other hold
    · omega
  · rw [happend]
    intro other hother
    show other.sequence ≤ db.eventSequence + 1
    rcases hmem other hother with hold | hnew
    · have hle := ho.bound other hold
      omega
    · omega
  · show 0 ≤ db.eventSequence + 1
    omega
  · rw [happend, List.map_append]
    refine List.nodup_append.mpr ⟨ho.ids, List.nodup_singleton _, ?_⟩
    intro a ha b hb
    obtain ⟨old, hold, rfl⟩ := List.mem_map.mp ha
    rw [List.map_singleton, List.mem_singleton] at hb
    rw [hb]
    exact Database.eventById_eq_none.mp hfresh old hold

/-- An insertion appends the event, or finds its id taken. -/
theorem Database.LogOrdered.insertEvent {db : Database} (ho : db.LogOrdered) (row : OutboxRow)
    (eventId : String) (observedAt : ℚ) :
    (db.insertEvent row eventId observedAt).LogOrdered ∧
    (((∃ event, db.eventById eventId = some event) ∧
        (db.insertEvent row eventId observedAt).events = db.events) ∨
      (db.eventById eventId = none ∧
        (db.insertEvent row eventId observedAt).events.rows
          = db.events.rows ++ [row.event (db.eventSequence + 1) eventId observedAt])) := by
  cases hfound : db.eventById eventId with
  | some event =>
      -- the number is used up all the same
      simp only [Database.insertEvent, hfound]
      refine ⟨⟨ho.sequences, ho.positive, ?_, ?_, ho.ids⟩, Or.inl ⟨⟨event, rfl⟩, trivial⟩⟩
      · intro old hold
        have hle := ho.bound old hold
        simp only
        omega
      · have hnonneg := ho.nonneg
        simp only
        omega
  | none =>
      simp only [Database.insertEvent, hfound]
      exact ⟨ho.snoc rfl hfound, Or.inr ⟨trivial, ho.put_rows rfl⟩⟩

/-- The body of the delivery loop. -/
def dispatchRow (row : OutboxRow) (newId : String) (observedAt : ℚ) : Txn Event := do
  let eventId := row.deliveredId newId
  if row.eventId.isNone then
    modify (Database.updateOutbox · row.outboxId (fun r => { r with eventId := some eventId }))
  else
    pure ()
  modify (Database.insertEvent · row eventId observedAt)
  modify (Database.updateOutbox · row.outboxId (fun r => { r with dispatched := true }))
  let db ← get
  match db.eventById eventId with
  | some event => pure event
  | none => throw ⟨.typeError, "NoneType object is not subscriptable"⟩

/-- The delivery loop. `newId` and `observedAt` are what `new_id` and `now` give for each row. -/
def dispatchRows (newId : Int → String) (observedAt : Int → ℚ) :
    List OutboxRow → Txn (List Event)
  | [] => pure []
  | row :: rows => do
      let event ← dispatchRow row (newId row.outboxId) (observedAt row.outboxId)
      let events ← dispatchRows newId observedAt rows
      return event :: events

/-- What was inserted is found, whether or not its id was taken. -/
theorem Database.eventById_insertEvent (db : Database) (row : OutboxRow) (eventId : String)
    (observedAt : ℚ) :
    ∃ event, (db.insertEvent row eventId observedAt).eventById eventId = some event := by
  refine Option.ne_none_iff_exists'.mp (fun hnone => ?_)
  have hall := Database.eventById_eq_none.mp hnone
  unfold Database.insertEvent at hall
  split at hall
  · rename_i event hfound
    unfold Database.eventById at hfound
    have hid := List.find?_some hfound
    exact hall event (List.mem_of_find?_eq_some hfound) (of_decide_eq_true hid)
  · exact hall (row.event (db.eventSequence + 1) eventId observedAt)
      (Table.mem_put.mpr (Or.inl rfl)) rfl

/-- Looking an event up is not about the outbox. -/
theorem Database.eventById_updateOutbox (db : Database) (outboxId : Int)
    (set : OutboxRow → OutboxRow) (eventId : String) :
    (db.updateOutbox outboxId set).eventById eventId = db.eventById eventId := by
  unfold Database.updateOutbox Database.eventById
  split <;> rfl

/-- `dispatch_event_outbox` -/
def dispatchEventOutbox (limit : Int) (newId : Int → String) (observedAt : Int → ℚ) :
    Txn (List Event) := do
  let db ← get
  transaction (dispatchRows newId observedAt (db.pendingOutbox limit))

end LiandanluNative
