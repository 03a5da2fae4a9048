/-
# LiandanluNative.Safety.OutboxDelivery — every outbox row becomes one event, in order.

Any number of connections enqueue and deliver.  A delivery works from rows it read earlier;
meanwhile others may have delivered some of them, and new rows may have come.  The invariant splits
the outbox into the rows already delivered and the rest, says that the event log carries the
messages of the former (`Delivered`), and that what each connection holds is `Behind` that split.
One delivered row keeps it (`Delivered.dispatchRow`): it is an old one, and ignored, or the first of
the rest, and appended.
-/
import LiandanluNative.Lib.Backlog
import LiandanluNative.Storage.Outbox

namespace LiandanluNative

open Lib Lib.Proc

/-! ## Messages

What a row of the outbox and the event it becomes have in common.
-/

/-- What an outbox row and its event have in common: everything but their places and the time an
event was observed at. -/
structure Message where
  eventId : Option String
  workspaceId : String
  eventType : String
  actor : String
  taskId : Option String
  operationId : Option String
  objectRefs : List String
  payload : List (PyKey × PyVal)
  causationId : Option String
  correlationId : Option String
  learningAllowed : Bool

/-- What a row of the outbox tells, whatever became of it. -/
def OutboxRow.message (row : OutboxRow) : Message where
  eventId := row.eventId
  workspaceId := row.workspaceId
  eventType := row.eventType
  actor := row.actor
  taskId := row.taskId
  operationId := row.operationId
  objectRefs := row.objectRefs
  payload := row.payload
  causationId := row.causationId
  correlationId := row.correlationId
  learningAllowed := row.learningAllowed

/-- What an event of the log tells, without its place there. -/
def Event.message (event : Event) : Message where
  eventId := some event.eventId
  workspaceId := event.workspaceId
  eventType := event.eventType
  actor := event.actor
  taskId := event.taskId
  operationId := event.operationId
  objectRefs := event.objectRefs
  payload := event.payload
  causationId := event.causationId
  correlationId := event.correlationId
  learningAllowed := event.learningAllowed

/-- The event a row becomes tells what the row did. -/
theorem OutboxRow.message_event {row : OutboxRow} {eventId : String}
    (hid : row.eventId = some eventId)
    (sequence : Int) (observedAt : ℚ) :
    (row.event sequence eventId observedAt).message = row.message := by
  simp only [Event.message, OutboxRow.message, OutboxRow.event, hid]

/-! ## Connections -/

/-- A transaction that writes an outbox row. -/
inductive EnqueueCall where
  | event (fields : EventFields)
  | task (task : Task) (fields : EventFields)
  | operation (op : Operation) (fields : EventFields)
  | taskAndOperation (task : Task) (op : Operation) (fields : EventFields)

/-- The transaction that a call of the store makes: the row is written with the change it tells of,
or for itself. -/
def EnqueueCall.run (eventId : String) (occurredAt : ℚ) : EnqueueCall → Txn String
  | .event fields => enqueueEventOutbox fields eventId occurredAt
  | .task t fields => saveTaskWithOutboxEvent t fields eventId occurredAt
  | .operation op fields => saveOperationWithOutboxEvent op fields eventId occurredAt
  | .taskAndOperation t op fields =>
      saveTaskAndOperationWithOutboxEvent t op fields eventId occurredAt

/-- The database, and the rows each connection has read and not yet delivered.  What was read may be
old by the time it is delivered. -/
structure OutboxSystem where
  db : Database
  selected : ℕ → List OutboxRow

namespace OutboxSystem

/-- A fresh database that nobody has read. -/
def fresh : OutboxSystem := ⟨{}, fun _ => []⟩

/-- One connection makes its next move.  An event id is fresh if no row has it; a delivery is one
transaction, which is committed or rolled back as a whole. -/
inductive Step (s : OutboxSystem) : OutboxSystem → Prop
  | enqueue (call : EnqueueCall) (eventId : String) (occurredAt : ℚ) (nonempty : eventId ≠ "")
      (unused : ∀ row ∈ s.db.eventOutbox.rows, row.eventId ≠ some eventId) :
      Step s { s with db := after (call.run eventId occurredAt) s.db }
  | select (connection : ℕ) (limit : Int) :
      Step s { s with selected := Function.update s.selected connection (s.db.pendingOutbox limit) }
  | deliver (connection : ℕ) (newId : Int → String) (observedAt : Int → ℚ) :
      Step s
        { db := after
            (transaction (dispatchRows newId observedAt (s.selected connection))) s.db
          selected := Function.update s.selected connection [] }
  | rollBack (connection : ℕ) :
      Step s { s with selected := Function.update s.selected connection [] }

/-- The states that any interleaving of enqueues and deliveries leads to from an empty database. -/
inductive Reached : OutboxSystem → Prop
  | fresh : Reached fresh
  | step {s s' : OutboxSystem} (before : Reached s) (next : Step s s') : Reached s'

end OutboxSystem

/-! ## The invariant

The log is what the delivered rows say, in their order; and what a connection has read and not
delivered is still behind it.
-/

/-- The outbox consists of the rows `done`, whose messages the event log carries in order, followed
by the rows `todo`, which nobody has delivered.  Ids are given in order, so the two halves are also
the older and the newer rows. -/
structure Delivered (db : Database) (done todo : List OutboxRow) : Prop where
  rows : db.eventOutbox.rows = done ++ todo
  sent : ∀ row ∈ done, row.dispatched = true
  unsent : ∀ row ∈ todo, row.dispatched = false
  outboxIds : (done ++ todo).Pairwise (fun a b => a.outboxId < b.outboxId)
  outboxBound : ∀ row ∈ done ++ todo, row.outboxId ≤ db.outboxSequence
  named : ∀ row ∈ done ++ todo, ∃ eventId, eventId ≠ "" ∧ row.eventId = some eventId
  names : ((done ++ todo).map OutboxRow.eventId).Nodup
  ordered : db.LogOrdered
  log : db.events.rows.map Event.message = done.map OutboxRow.message

/-- The row as it was before it was delivered. -/
def OutboxRow.pristine (row : OutboxRow) : OutboxRow := { row with dispatched := false }

/-- The outbox, whatever has been delivered of it. -/
def Database.backlog (db : Database) : List OutboxRow := db.eventOutbox.rows.map OutboxRow.pristine

/-- A row that was not sent is as it was written. -/
theorem OutboxRow.pristine_of_unsent {row : OutboxRow} (h : row.dispatched = false) :
    row.pristine = row := by
  cases row
  simp only at h
  subst h
  rfl

namespace Delivered

variable {db : Database} {done todo : List OutboxRow}

/-- Only the outbox and the event log matter. -/
theorem congr (hd : Delivered db done todo) {db' : Database}
    (houtbox : db'.eventOutbox = db.eventOutbox) (hseq : db'.outboxSequence = db.outboxSequence)
    (hevents : db'.events = db.events) (hevseq : db'.eventSequence = db.eventSequence) :
    Delivered db' done todo where
  rows := houtbox ▸ hd.rows
  sent := hd.sent
  unsent := hd.unsent
  outboxIds := hd.outboxIds
  outboxBound := hseq ▸ hd.outboxBound
  named := hd.named
  names := hd.names
  ordered := hd.ordered.congr hevents hevseq
  log := hevents ▸ hd.log

/-- The event of a delivered row is in the log. -/
theorem event_of_sent (hd : Delivered db done todo) {row : OutboxRow} (hrow : row ∈ done) :
    ∃ event ∈ db.events.rows, event.message = row.message := by
  have hmem : row.message ∈ db.events.rows.map Event.message := by
    rw [hd.log]
    exact List.mem_map_of_mem hrow
  exact List.mem_map.mp hmem

/-- An event in the log is that of a delivered row. -/
theorem sent_of_event (hd : Delivered db done todo) {event : Event}
    (hevent : event ∈ db.events.rows) : ∃ row ∈ done, row.message = event.message := by
  have hmem : event.message ∈ done.map OutboxRow.message := by
    rw [← hd.log]
    exact List.mem_map_of_mem hevent
  exact List.mem_map.mp hmem

/-- No undelivered row has its event id in the log. -/
theorem unsent_not_logged (hd : Delivered db done todo) {row : OutboxRow} (hrow : row ∈ todo)
    {event : Event} (hevent : event ∈ db.events.rows) : row.eventId ≠ some event.eventId := by
  intro heq
  obtain ⟨other, hother, hmessage⟩ := hd.sent_of_event hevent
  have hid : other.eventId = some event.eventId := congrArg Message.eventId hmessage
  have hnodup := hd.names
  rw [List.map_append] at hnodup
  exact (List.nodup_append.mp hnodup).2.2 _ (List.mem_map_of_mem hother) _
    (List.mem_map_of_mem hrow) (hid.trans heq.symm)

/-- A new row goes to the end of the outbox. -/
theorem enqueue (hd : Delivered db done todo) {row : OutboxRow}
    (hid : row.outboxId = db.outboxSequence + 1) (hsent : row.dispatched = false)
    (hname : ∃ eventId, eventId ≠ "" ∧ row.eventId = some eventId)
    (unused : ∀ other ∈ db.eventOutbox.rows, other.eventId ≠ row.eventId) :
    (db.eventOutbox.put row).rows = db.eventOutbox.rows ++ [row] ∧
    Delivered
      { db with
        outboxSequence := db.outboxSequence + 1
        eventOutbox := db.eventOutbox.put row } done (todo ++ [row]) := by
  have hnew : db.eventOutbox.get? row.outboxId = none := by
    refine Table.get?_eq_none.mpr (fun other hother heq => ?_)
    rw [hd.rows] at hother
    have hle := hd.outboxBound other hother
    omega
  have hrows : (db.eventOutbox.put row).rows = db.eventOutbox.rows ++ [row] :=
    Table.put_rows_of_get?_none hnew
  have hall : done ++ (todo ++ [row]) = (done ++ todo) ++ [row] := (List.append_assoc ..).symm
  -- a new row has the greatest id, so the order by id stays
  have hbelow : ∀ other ∈ done ++ todo, other.outboxId < row.outboxId := by
    intro other hother
    have hle := hd.outboxBound other hother
    omega
  refine ⟨hrows, ⟨?_, hd.sent, ?_, ?_, ?_, ?_, ?_, hd.ordered.congr rfl rfl, hd.log⟩⟩
  · rw [hall, ← hd.rows]
    exact hrows
  · intro other hother
    rcases List.mem_append.mp hother with hother | hother
    · exact hd.unsent other hother
    · rw [List.mem_singleton.mp hother]
      exact hsent
  · rw [hall]
    refine List.pairwise_append.mpr ⟨hd.outboxIds, List.pairwise_singleton _ _, ?_⟩
    intro other hother last hlast
    rw [List.mem_singleton.mp hlast]
    exact hbelow other hother
  · rw [hall]
    intro other hother
    show other.outboxId ≤ db.outboxSequence + 1
    rcases List.mem_append.mp hother with hother | hother
    · have hle := hd.outboxBound other hother
      omega
    · rw [List.mem_singleton.mp hother]
      omega
  · rw [hall]
    intro other hother
    rcases List.mem_append.mp hother with hother | hother
    · exact hd.named other hother
    · rw [List.mem_singleton.mp hother]
      exact hname
  · rw [hall, List.map_append]
    -- no row has its event id
    refine List.nodup_append.mpr ⟨hd.names, List.nodup_singleton _, ?_⟩
    intro a ha b hb
    obtain ⟨other, hother, rfl⟩ := List.mem_map.mp ha
    rw [List.map_singleton, List.mem_singleton] at hb
    rw [hb]
    rw [← hd.rows] at hother
    exact unused other hother

/-- The rows a connection reads are the first of the rest, as many as its limit lets it have. -/
theorem pendingOutbox (hd : Delivered db done todo) (limit : Int) :
    db.pendingOutbox limit = if limit < 0 then todo else todo.take limit.toNat := by
  have hfilter : db.eventOutbox.rows.filter (fun row => !row.dispatched) = todo := by
    have hsent : done.filter (fun row => !row.dispatched) = [] :=
      List.filter_eq_nil_iff.mpr (fun row hrow => by simp [hd.sent row hrow])
    have hunsent : todo.filter (fun row => !row.dispatched) = todo :=
      List.filter_eq_self.mpr (fun row hrow => by simp [hd.unsent row hrow])
    rw [hd.rows, List.filter_append, hsent, hunsent, List.nil_append]
  have hsorted : todo.Pairwise (fun a b => a.outboxId ≤ b.outboxId) :=
    (List.pairwise_append.mp hd.outboxIds).2.1.imp le_of_lt
  simp only [Database.pendingOutbox, hfilter, hsorted.insertionSort_eq]

/-- The rows after those delivered are the rest. -/
theorem backlog_drop (hd : Delivered db done todo) : db.backlog.drop done.length = todo := by
  have htodo : todo.map OutboxRow.pristine = todo := by
    refine (List.map_congr_left (fun row hrow => ?_)).trans (List.map_id _)
    exact OutboxRow.pristine_of_unsent (hd.unsent row hrow)
  rw [Database.backlog, hd.rows, List.map_append, htodo]
  exact List.drop_left' (List.length_map _)

/-- What a delivery reads is the front of the rest. -/
theorem behind_pendingOutbox (hd : Delivered db done todo) (limit : Int) :
    Behind db.backlog done.length (db.pendingOutbox limit) := by
  have hall : Behind db.backlog done.length todo := by
    have hread : Behind db.backlog done.length (db.backlog.drop done.length) :=
      Behind.readAll (le_refl done.length)
    rwa [hd.backlog_drop] at hread
  rw [hd.pendingOutbox]
  split
  · exact hall
  · exact hall.take _

/-! ## Delivering one row

A row that another connection has delivered by now is found in the log by its id and left out; the
next one that waits is added.
-/

/-- The database after the delivery of a named row. -/
def deliver (db : Database) (row : OutboxRow) (eventId : String) (observedAt : ℚ) : Database :=
  (db.insertEvent row eventId observedAt).updateOutbox row.outboxId
    (fun r => { r with dispatched := true })

/-- A row that has an id is delivered, and the event of its id is read back; that there was none
would be a TypeError of the source. -/
theorem dispatchRow_run {row : OutboxRow} {eventId : String} (hne : eventId ≠ "")
    (hid : row.eventId = some eventId) (newId : String) (observedAt : ℚ) (db : Database) :
    dispatchRow row newId observedAt db
      = match (deliver db row eventId observedAt).eventById eventId with
        | some event => .ok event (deliver db row eventId observedAt)
        | none =>
            .error ⟨.typeError, "NoneType object is not subscriptable"⟩
              (deliver db row eventId observedAt) := by
  have hdelivered : row.deliveredId newId = eventId := by
    simp only [OutboxRow.deliveredId, hid, if_neg hne]
  have hrun : dispatchRow row newId observedAt db
      = (match (deliver db row eventId observedAt).eventById eventId with
        | some event => (pure event : Txn Event)
        | none => throw (⟨.typeError, "NoneType object is not subscriptable"⟩ : Exc))
          (deliver db row eventId observedAt) := by
    unfold dispatchRow
    rw [hdelivered, hid]
    rfl
  rw [hrun]
  cases (deliver db row eventId observedAt).eventById eventId <;> rfl

/-- Where an event has an id, one is found under it. -/
theorem eventById_of_mem {events : List Event} {event : Event} (hevent : event ∈ events) :
    ∃ found, events.find? (fun e => decide (e.eventId = event.eventId)) = some found := by
  rw [← Option.isSome_iff_exists, List.find?_isSome]
  exact ⟨event, hevent, by simp⟩

/-- A row that was delivered meanwhile: its event is found, and the insertion ignored. -/
theorem deliver_sent (hd : Delivered db done todo) {row sent : OutboxRow} (hsent : sent ∈ done)
    (hrow : sent.pristine = row) {eventId : String} (hid : row.eventId = some eventId)
    (observedAt : ℚ) :
    (deliver db row eventId observedAt).eventOutbox.rows = db.eventOutbox.rows ∧
    (∃ event, (deliver db row eventId observedAt).eventById eventId = some event) ∧
    Delivered (deliver db row eventId observedAt) done todo := by
  subst hrow
  obtain ⟨event, hevent, hmessage⟩ := hd.event_of_sent hsent
  have hname : event.eventId = eventId := by
    have heq : some event.eventId = sent.eventId := congrArg Message.eventId hmessage
    exact Option.some.inj (heq.trans hid)
  obtain ⟨found, hfound⟩ : ∃ found, db.eventById eventId = some found :=
    hname ▸ eventById_of_mem hevent
  have hmem : sent ∈ db.eventOutbox.rows := by
    rw [hd.rows]
    exact List.mem_append_left _ hsent
  have hget : db.eventOutbox.get? sent.pristine.outboxId = some sent := Table.get?_of_mem hmem
  have hset : ({ sent with dispatched := true } : OutboxRow) = sent := by
    have htrue := hd.sent sent hsent
    cases sent
    simp only at htrue
    subst htrue
    rfl
  have hput : (db.eventOutbox.put sent) = db.eventOutbox := by
    obtain ⟨before, rest, hsplit⟩ := List.append_of_mem hmem
    exact Table.ext ((Table.put_rows_of_split hsplit rfl).trans hsplit.symm)
  have hdeliver : deliver db sent.pristine eventId observedAt
      = db.insertEvent sent.pristine eventId observedAt := by
    simp only [deliver, Database.insertEvent, hfound, Database.updateOutbox, hget, hset, hput]
  rw [hdeliver]
  obtain ⟨ho, _⟩ := hd.ordered.insertEvent sent.pristine eventId observedAt
  simp only [Database.insertEvent, hfound] at ho ⊢
  exact ⟨trivial, ⟨found, hfound⟩, ⟨hd.rows, hd.sent, hd.unsent, hd.outboxIds, hd.outboxBound,
    hd.named, hd.names, ho, hd.log⟩⟩

/-- Delivering the first undelivered row appends its event, and marks the row. -/
theorem deliver_of_next {next : OutboxRow} (hd : Delivered db done (next :: todo))
    {eventId : String} (hid : next.pristine.eventId = some eventId) (observedAt : ℚ) :
    db.eventById eventId = none ∧
      deliver db next.pristine eventId observedAt
        = { db with
            eventSequence := db.eventSequence + 1
            events := db.events.put (next.pristine.event (db.eventSequence + 1) eventId observedAt)
            eventOutbox := db.eventOutbox.put { next with dispatched := true } } := by
  have hfresh : db.eventById eventId = none := by
    refine Database.eventById_eq_none.mpr ?_
    rintro event hevent rfl
    exact hd.unsent_not_logged List.mem_cons_self hevent hid
  have hget : db.eventOutbox.get? next.pristine.outboxId = some next := by
    refine Table.get?_of_mem (v := next) ?_
    rw [hd.rows]
    exact List.mem_append_right _ List.mem_cons_self
  refine ⟨hfresh, ?_⟩
  simp only [deliver, Database.insertEvent, hfresh, Database.updateOutbox, hget]

/-- Whatever does not read the mark is the same of the marked rows. -/
theorem map_marked {next : OutboxRow} {β : Type} (f : OutboxRow → β)
    (hf : f { next with dispatched := true } = f next) :
    (done ++ { next with dispatched := true } :: todo).map f = (done ++ next :: todo).map f := by
  rw [List.map_append, List.map_cons, hf, List.map_append, List.map_cons]

/-- Marking the next row as sent leaves the ids of all rows. -/
theorem mem_marked {next row : OutboxRow}
    (hrow : row ∈ done ++ { next with dispatched := true } :: todo) :
    ∃ old ∈ done ++ next :: todo, old.outboxId = row.outboxId ∧ old.eventId = row.eventId := by
  rcases List.mem_append.mp hrow with hrow | hrow
  · exact ⟨row, List.mem_append_left _ hrow, rfl, rfl⟩
  · rcases List.mem_cons.mp hrow with rfl | hrow
    · exact ⟨next, List.mem_append_right _ List.mem_cons_self, rfl, rfl⟩
    · exact ⟨row, List.mem_append_right _ (List.mem_cons_of_mem _ hrow), rfl, rfl⟩

/-- The first undelivered row: its event is appended, and the row marked. -/
theorem deliver_next {row next : OutboxRow} (hd : Delivered db done (next :: todo))
    (hrow : next.pristine = row) {eventId : String} (hid : row.eventId = some eventId)
    (observedAt : ℚ) :
    (deliver db row eventId observedAt).eventOutbox.rows
      = done ++ { next with dispatched := true } :: todo ∧
    (∃ event, (deliver db row eventId observedAt).eventById eventId = some event) ∧
    Delivered (deliver db row eventId observedAt) (done ++ [{ next with dispatched := true }])
      todo := by
  subst hrow
  obtain ⟨hfresh, hdeliver⟩ := hd.deliver_of_next hid observedAt
  set event := next.pristine.event (db.eventSequence + 1) eventId observedAt
  obtain ⟨ho, ⟨⟨_, htaken⟩, _⟩ | ⟨_, hevents⟩⟩ :=
    hd.ordered.insertEvent next.pristine eventId observedAt
  · rw [hfresh] at htaken
    cases htaken
  simp only [Database.insertEvent, hfresh] at ho hevents
  -- the row is marked where it stands
  have hrows : (db.eventOutbox.put { next with dispatched := true }).rows
      = done ++ { next with dispatched := true } :: todo :=
    Table.put_rows_of_split hd.rows rfl
  rw [hdeliver]
  refine ⟨hrows, ?_, ?_⟩
  · have hmem : event ∈ (db.events.put event).rows := by
      rw [hevents]
      exact List.mem_append_right _ (List.mem_singleton_self _)
    exact eventById_of_mem hmem
  -- so the two halves of the outbox are cut one row further
  have hall : done ++ [{ next with dispatched := true }] ++ todo
      = done ++ { next with dispatched := true } :: todo := by
    rw [List.append_assoc, List.singleton_append]
  refine ⟨by rw [hall]; exact hrows, ?_, fun r hr => hd.unsent r (List.mem_cons_of_mem _ hr),
    ?_, ?_, ?_, ?_, ho.congr rfl rfl, ?_⟩
  · intro r hr
    rcases List.mem_append.mp hr with hr | hr
    · exact hd.sent r hr
    · rw [List.mem_singleton.mp hr]
  · have hids := List.pairwise_map.mpr hd.outboxIds
    rw [← map_marked OutboxRow.outboxId rfl] at hids
    rw [hall]
    exact List.pairwise_map.mp hids
  · rw [hall]
    intro r hr
    obtain ⟨old, hold, hrid, _⟩ := mem_marked hr
    rw [← hrid]
    exact hd.outboxBound old hold
  · rw [hall]
    intro r hr
    obtain ⟨old, hold, _, hrname⟩ := mem_marked hr
    rw [← hrname]
    exact hd.named old hold
  · rw [hall, map_marked OutboxRow.eventId rfl]
    exact hd.names
  · show ((db.events.put event).rows).map Event.message = _
    -- its event tells what the row did
    have hmessage : event.message = ({ next with dispatched := true } : OutboxRow).message :=
      OutboxRow.message_event hid _ _
    rw [hevents, List.map_append, List.map_append, hd.log, List.map_singleton, List.map_singleton,
      hmessage]

/-- **One row delivered.** It returns, and the invariant holds again with the row among the
delivered ones; the rest of the list is as far behind as before.  A row that somebody else has
delivered is told by the id of its event. -/
theorem dispatchRow (hd : Delivered db done todo) {row : OutboxRow} {rest : List OutboxRow}
    (hb : Behind db.backlog done.length (row :: rest)) (newId : String) (observedAt : ℚ) :
    ∃ event db' done' todo', LiandanluNative.dispatchRow row newId observedAt db = .ok event db' ∧
      Delivered db' done' todo' ∧ db'.backlog = db.backlog ∧ done.length ≤ done'.length ∧
      Behind db'.backlog done'.length rest := by
  have hback : db.backlog = (done ++ todo).map OutboxRow.pristine := by rw [Database.backlog, hd.rows]
  rcases hb.uncons with ⟨⟨i, hi, hrow⟩, hrest⟩ | ⟨hrow, hrest⟩
  · rw [hback, List.getElem?_map, List.getElem?_append_left hi, Option.map_eq_some_iff] at hrow
    obtain ⟨sent, hsent, hpristine⟩ := hrow
    have hmem : sent ∈ done := List.mem_of_getElem? hsent
    obtain ⟨eventId, hne, hname⟩ := hd.named sent (List.mem_append_left _ hmem)
    have hid : row.eventId = some eventId := hpristine ▸ hname
    obtain ⟨hrows, ⟨event, hevent⟩, hd'⟩ := hd.deliver_sent hmem hpristine hid observedAt
    refine ⟨event, _, done, todo, ?_, hd', by rw [Database.backlog, hrows]; rfl, le_refl _, ?_⟩
    · rw [dispatchRow_run hne hid, hevent]
    · rw [Database.backlog, hrows]
      exact hrest
  · rw [hback, List.getElem?_map, List.getElem?_append_right (le_refl _), Nat.sub_self,
      Option.map_eq_some_iff] at hrow
    obtain ⟨next, hnext, hpristine⟩ := hrow
    obtain ⟨todo, rfl⟩ : ∃ todo', todo = next :: todo' := by
      cases todo with
      | nil => cases hnext
      | cons first todo' => exact ⟨todo', by cases hnext; rfl⟩
    obtain ⟨eventId, hne, hname⟩ := hd.named next (List.mem_append_right _ List.mem_cons_self)
    have hid : row.eventId = some eventId := hpristine ▸ hname
    obtain ⟨hrows, ⟨event, hevent⟩, hd'⟩ := hd.deliver_next hpristine hid observedAt
    have hback' : Database.backlog (deliver db row eventId observedAt) = db.backlog := by
      rw [Database.backlog, hrows, hback, List.map_append, List.map_cons, List.map_append,
        List.map_cons]
      rfl
    refine ⟨event, _, _, todo, ?_, hd', hback', by simp, ?_⟩
    · rw [dispatchRow_run hne hid, hevent]
    · rw [hback', List.length_append, List.length_singleton]
      exact hrest

/-- The delivery loop, by induction on the rows read: each of them is behind when its turn comes. -/
theorem dispatchRows (newId : Int → String) (observedAt : Int → ℚ) :
    ∀ {rows : List OutboxRow} {db : Database} {done todo : List OutboxRow},
      Delivered db done todo → Behind db.backlog done.length rows →
      ∃ events db' done' todo',
        LiandanluNative.dispatchRows newId observedAt rows db = .ok events db' ∧
        Delivered db' done' todo' ∧ db'.backlog = db.backlog ∧ done.length ≤ done'.length
  | [], db, done, todo, hd, _ => ⟨[], db, done, todo, rfl, hd, rfl, le_refl _⟩
  | row :: rows, db, done, todo, hd, hb => by
      obtain ⟨event, db₁, done₁, todo₁, hrun₁, hd₁, hback₁, hlen₁, hb₁⟩ :=
        hd.dispatchRow hb (newId row.outboxId) (observedAt row.outboxId)
      obtain ⟨events, db₂, done₂, todo₂, hrun₂, hd₂, hback₂, hlen₂⟩ :=
        dispatchRows newId observedAt hd₁ hb₁
      refine ⟨event :: events, db₂, done₂, todo₂, ?_, hd₂, hback₂.trans hback₁, hlen₁.trans hlen₂⟩
      exact bind_eq_ok.mpr ⟨event, db₁, hrun₁, bind_eq_ok.mpr ⟨events, db₂, hrun₂, rfl⟩⟩

end Delivered

/-! ## Writing a row -/

/-- The outbox part is as before, or one row longer. -/
def Enqueued (eventId : String) (db db' : Database) : Prop :=
  db'.outboxPart = db.outboxPart ∨
  ∃ row : OutboxRow, row.outboxId = db.outboxSequence + 1 ∧ row.dispatched = false ∧
    row.eventId = some eventId ∧
    db'.outboxPart
      = (db.eventOutbox.put row, db.outboxSequence + 1, db.events, db.eventSequence)

/-- A transaction that does something elsewhere and then inserts a row. -/
theorem enqueued_of_insert {α : Type} {before : Txn α} (fields : α → EventFields)
    (hbefore : Within (Fixes Database.outboxPart) before) (eventId : String) (occurredAt : ℚ)
    (db : Database) :
    Enqueued eventId db
      (after (transaction (before >>= fun a => insertOutbox (fields a) eventId occurredAt)) db) := by
  cases hrun : (before >>= fun a => insertOutbox (fields a) eventId occurredAt) db with
  | error e db' =>
      have hrollback : transaction
          (before >>= fun a => insertOutbox (fields a) eventId occurredAt) db = .error e db := by
        simp only [transaction, hrun]
      rw [after_of_error hrollback]
      exact Or.inl rfl
  | ok result db' =>
      have hcommit : transaction
          (before >>= fun a => insertOutbox (fields a) eventId occurredAt) db
            = .ok result db' := by
        simp only [transaction, hrun]
      rw [after_of_ok hcommit]
      obtain ⟨a, db₁, h₁, h₂⟩ := bind_eq_ok.mp hrun
      have hpart : db₁.outboxPart = db.outboxPart := hbefore.of_ok h₁
      simp only [Database.outboxPart, Prod.mk.injEq] at hpart
      obtain ⟨houtbox, hseq, hevents, hevseq⟩ := hpart
      obtain ⟨payload, db₂, h₃, h₄⟩ := bind_eq_ok.mp h₂
      -- encoding the payload reads only
      have hdumps : db₂ = db₁ := by
        unfold dumpsItems at h₃
        cases hjson : PyVal.jsonDumpsItems (fields a).payload with
        | none =>
            rw [hjson] at h₃
            cases h₃
        | some column =>
            rw [hjson] at h₃
            cases h₃
            rfl
      subst hdumps
      cases h₄
      right
      refine ⟨(fields a).row (db₂.outboxSequence + 1) eventId occurredAt payload, ?_, rfl, rfl, ?_⟩
      · rw [← hseq]
        rfl
      · simp only [Database.outboxPart, houtbox, hseq, hevents, hevseq]

/-- Each of these transactions adds at most one row, at the end, and leaves the log alone. -/
theorem EnqueueCall.enqueued (call : EnqueueCall) (eventId : String) (occurredAt : ℚ)
    (db : Database) : Enqueued eventId db (after (call.run eventId occurredAt) db) := by
  have hF := frame_fixes Database.outboxPart
  cases call with
  | event fields =>
      exact enqueued_of_insert (fun _ => fields) (hF.pure PUnit.unit) eventId occurredAt db
  | task t fields =>
      refine enqueued_of_insert (fun _ => _) ?_ eventId occurredAt db
      exact within_upsertTask t (fun _ _ => rfl)
  | operation op fields =>
      refine enqueued_of_insert (fun _ => _) ?_ eventId occurredAt db
      exact within_upsertOperation hF op (fun _ _ => rfl)
  | taskAndOperation t op fields =>
      have hboth : Within (Fixes Database.outboxPart)
          (upsertTask t >>= fun _ => upsertOperation op) :=
        hF.bind (within_upsertTask t (fun _ _ => rfl))
          (fun _ => within_upsertOperation hF op (fun _ _ => rfl))
      have henq := enqueued_of_insert
        (fun _ =>
          { fields with
            taskId := some t.taskId
            operationId := some op.operationId
            objectRefs := op.objectRefs }) hboth eventId occurredAt db
      rw [bind_assoc] at henq
      exact henq

/-- A row that comes is one more of the rest, so the split stays where it was. -/
theorem Delivered.enqueued {db db' : Database} {done todo : List OutboxRow}
    (hd : Delivered db done todo) {eventId : String} (nonempty : eventId ≠ "")
    (unused : ∀ row ∈ db.eventOutbox.rows, row.eventId ≠ some eventId)
    (henq : Enqueued eventId db db') :
    ∃ todo', Delivered db' done todo' ∧ ∃ more, db'.backlog = db.backlog ++ more := by
  rcases henq with hpart | ⟨row, hid, hsent, hname, hpart⟩
  · simp only [Database.outboxPart, Prod.mk.injEq] at hpart
    obtain ⟨houtbox, hseq, hevents, hevseq⟩ := hpart
    refine ⟨todo, hd.congr houtbox hseq hevents hevseq, [], ?_⟩
    rw [Database.backlog, houtbox, List.append_nil]
    rfl
  · simp only [Database.outboxPart, Prod.mk.injEq] at hpart
    obtain ⟨houtbox, hseq, hevents, hevseq⟩ := hpart
    rw [← hname] at unused
    obtain ⟨hrows, hd'⟩ := hd.enqueue hid hsent ⟨eventId, nonempty, hname⟩ unused
    refine ⟨todo ++ [row], hd'.congr houtbox hseq hevents hevseq, [row.pristine], ?_⟩
    rw [Database.backlog, houtbox, hrows, List.map_append]
    rfl

/-! ## The system -/

namespace OutboxSystem

/-- The outbox splits into what is delivered and what is not, and every connection is behind that
split: what it holds begins, after rows that were delivered meanwhile, where the rest begins. -/
def Inv (s : OutboxSystem) : Prop :=
  ∃ done todo, Delivered s.db done todo ∧
    ∀ connection, Behind s.db.backlog done.length (s.selected connection)

/-- An empty outbox is split before its first row. -/
theorem inv_fresh : Inv fresh := by
  refine ⟨[], [], ?_, fun _ => Behind.nil⟩
  exact ⟨rfl, by simp, by simp, .nil, by simp, by simp, .nil, Database.logOrdered_fresh, rfl⟩

/-- A connection reads, or forgets, what is no further ahead than the delivered rows. -/
theorem Inv.select {s : OutboxSystem} {done todo : List OutboxRow} (hd : Delivered s.db done todo)
    (hb : ∀ connection, Behind s.db.backlog done.length (s.selected connection)) (connection : ℕ)
    {rows : List OutboxRow} (hrows : Behind s.db.backlog done.length rows) :
    Inv { s with selected := Function.update s.selected connection rows } := by
  refine ⟨done, todo, hd, fun c => ?_⟩
  by_cases hc : c = connection
  · subst hc
    simpa only [Function.update_self] using hrows
  · simpa only [Function.update_of_ne hc] using hb c

/-- **One step.** An enqueue, a read or a delivered row, of whichever connection, keeps the
invariant. -/
theorem Inv.step {s s' : OutboxSystem} (hi : Inv s) (next : Step s s') : Inv s' := by
  obtain ⟨done, todo, hd, hb⟩ := hi
  cases next with
  | enqueue call eventId occurredAt nonempty unused =>
      obtain ⟨todo', hd', more, hmore⟩ :=
        hd.enqueued nonempty unused (call.enqueued eventId occurredAt s.db)
      refine ⟨done, todo', hd', fun c => ?_⟩
      simp only [hmore]
      exact (hb c).grow more
  | select connection limit =>
      exact Inv.select hd hb connection (hd.behind_pendingOutbox limit)
  | deliver connection newId observedAt =>
      obtain ⟨events, db', done', todo', hrun, hd', hback, hlen⟩ :=
        hd.dispatchRows newId observedAt (hb connection)
      have hcommit : transaction (dispatchRows newId observedAt (s.selected connection)) s.db
          = .ok events db' := by
        simp only [transaction, hrun]
      rw [after_of_ok hcommit]
      refine Inv.select (s := ⟨db', s.selected⟩) hd' (fun c => ?_) connection Behind.nil
      rw [hback]
      exact (hb c).mono hlen
  | rollBack connection => exact Inv.select hd hb connection Behind.nil

/-- So it holds wherever the connections have got to. -/
theorem Reached.inv {s : OutboxSystem} (hr : Reached s) : Inv s := by
  induction hr with
  | fresh => exact inv_fresh
  | step _ next ih => exact ih.step next

end OutboxSystem

/-! ## The guarantees -/

/-- The event log, as it is read: ordered by sequence. -/
def Database.eventLog (db : Database) : List Event :=
  db.events.rows.insertionSort (fun a b => a.sequence ≤ b.sequence)

/-- The outbox ordered by id. -/
def Database.outboxLog (db : Database) : List OutboxRow :=
  db.eventOutbox.rows.insertionSort (fun a b => a.outboxId ≤ b.outboxId)

namespace Delivered

variable {db : Database} {done todo : List OutboxRow}

/-- The log is in the order of its numbers. -/
theorem eventLog (hd : Delivered db done todo) : db.eventLog = db.events.rows :=
  (hd.ordered.sequences.imp le_of_lt).insertionSort_eq

/-- So is the outbox. -/
theorem outboxLog (hd : Delivered db done todo) : db.outboxLog = done ++ todo := by
  rw [Database.outboxLog, hd.rows]
  exact (hd.outboxIds.imp le_of_lt).insertionSort_eq

/-- The rows marked as sent are the delivered ones, and only these. -/
theorem dispatched_iff (hd : Delivered db done todo) {row : OutboxRow}
    (hrow : row ∈ done ++ todo) : row.dispatched = true ↔ row ∈ done := by
  constructor
  · intro htrue
    rcases List.mem_append.mp hrow with hdone | htodo
    · exact hdone
    · rw [hd.unsent row htodo] at htrue
      cases htrue
  · exact hd.sent row

/-- A row has an event exactly when it was delivered. -/
theorem logged_iff (hd : Delivered db done todo) {row : OutboxRow} (hrow : row ∈ done ++ todo) :
    (∃ event ∈ db.events.rows, row.eventId = some event.eventId) ↔ row ∈ done := by
  constructor
  · rintro ⟨event, hevent, hid⟩
    rcases List.mem_append.mp hrow with hdone | htodo
    · exact hdone
    · exact absurd hid (hd.unsent_not_logged htodo hevent)
  · intro hdone
    obtain ⟨event, hevent, hmessage⟩ := hd.event_of_sent hdone
    exact ⟨event, hevent, (congrArg Message.eventId hmessage).symm⟩

end Delivered

/-- **Outbox delivery.** Whatever the connections do, and wherever a delivery is rolled back: a row
has at most one event; it is marked exactly when its event is in the log; the marked rows are a
prefix of the outbox; and the log carries their messages, in outbox order. -/
theorem outbox_delivery {s : OutboxSystem} (hr : s.Reached) :
    (∀ row ∈ s.db.eventOutbox.rows, ∀ a ∈ s.db.events.rows, ∀ b ∈ s.db.events.rows,
      row.eventId = some a.eventId → row.eventId = some b.eventId → a = b) ∧
    (∀ row ∈ s.db.eventOutbox.rows, row.dispatched = true ↔
      ∃ event ∈ s.db.events.rows, row.eventId = some event.eventId) ∧
    (∀ a ∈ s.db.eventOutbox.rows, ∀ b ∈ s.db.eventOutbox.rows, a.outboxId ≤ b.outboxId →
      b.dispatched = true → a.dispatched = true) ∧
    s.db.eventLog.map Event.message
      = (s.db.outboxLog.filter OutboxRow.dispatched).map OutboxRow.message := by
  obtain ⟨done, todo, hd, _⟩ := hr.inv
  have hrows : ∀ row, row ∈ s.db.eventOutbox.rows ↔ row ∈ done ++ todo := by
    intro row
    rw [hd.rows]
  refine ⟨?_, ?_, ?_, ?_⟩
  · intro row _ a ha b hb hida hidb
    have hid : a.eventId = b.eventId := Option.some.inj (hida.symm.trans hidb)
    exact List.inj_on_of_nodup_map hd.ordered.ids ha hb hid
  · intro row hrow
    rw [hrows] at hrow
    rw [hd.dispatched_iff hrow, hd.logged_iff hrow]
  · intro a ha b hb hle hsent
    rw [hrows] at ha hb
    rw [hd.dispatched_iff hb] at hsent
    rw [hd.dispatched_iff ha]
    rcases List.mem_append.mp ha with hdone | htodo
    · exact hdone
    · have hlt := (List.pairwise_append.mp hd.outboxIds).2.2 b hsent a htodo
      omega
  · have hsent : done.filter OutboxRow.dispatched = done :=
      List.filter_eq_self.mpr hd.sent
    have hunsent : todo.filter OutboxRow.dispatched = [] :=
      List.filter_eq_nil_iff.mpr (fun row hrow => by simp [hd.unsent row hrow])
    rw [hd.eventLog, hd.outboxLog, List.filter_append, hsent, hunsent, List.append_nil, hd.log]

/-- Two rows, read by two connections, the second of which reads one row only. -/
def raceSystem : OutboxSystem where
  db := after (EnqueueCall.run "evt_2" 2 (.event ⟨"task.queued", "user", "w", none, none, [], [],
      none, none, true⟩))
    (after (EnqueueCall.run "evt_1" 1 (.event ⟨"task.created", "user", "w", none, none, [], [],
      none, none, true⟩)) {})
  selected := fun _ => []

/-- Both connections deliver what they read. -/
def racedSystem : OutboxSystem :=
  let both : ℕ → List OutboxRow :=
    Function.update (Function.update raceSystem.selected 0 (raceSystem.db.pendingOutbox 100)) 1
      (raceSystem.db.pendingOutbox 1)
  let db := after (transaction (dispatchRows (fun _ => "") (fun _ => 3) (both 0))) raceSystem.db
  { db := after
      (transaction (dispatchRows (fun _ => "") (fun _ => 4) (Function.update both 0 [] 1))) db
    selected := Function.update (Function.update both 0 []) 1 [] }

/-- Two connections that read the same two rows deliver each of them once. -/
theorem outbox_delivery_raced :
    racedSystem.db.events.rows.map Event.eventId = ["evt_1", "evt_2"] ∧
    ∀ row ∈ racedSystem.db.eventOutbox.rows, row.dispatched = true ↔
      ∃ event ∈ racedSystem.db.events.rows, row.eventId = some event.eventId := by
  have hr : racedSystem.Reached :=
    ((((OutboxSystem.Reached.fresh.step
      (.enqueue (.event ⟨"task.created", "user", "w", none, none, [], [], none, none, true⟩)
        "evt_1" 1 (by decide) (by simp [OutboxSystem.fresh]))).step
      (.enqueue (.event ⟨"task.queued", "user", "w", none, none, [], [], none, none, true⟩)
        "evt_2" 2 (by decide) (by decide))).step
      (.select 0 100)).step (.select 1 1)).step (.deliver 0 (fun _ => "") (fun _ => 3)) |>.step
      (.deliver 1 (fun _ => "") (fun _ => 4))
  exact ⟨by decide +kernel, (outbox_delivery hr).2.1⟩

end LiandanluNative
