/-
# LiandanluNative.Runtime.Events — the event facade of `events.py`.

With a store the durable outbox and event tables are the only authority; the lists in memory serve
an engine without one.
-/
import LiandanluNative.System
import LiandanluNative.Storage.Memory

namespace LiandanluNative

section

variable (env : Env)

/-- `enqueue_outbox` -/
def enqueueOutbox (fields : EventFields) : M String := do
  let s ← get
  if s.persistent then
    let eventId ← newId env "evt"
    let occurredAt ← readClock env
    store env (enqueueEventOutbox fields eventId occurredAt)
  else
    let outboxId ← newId env "outbox"
    modify fun s => { s with outbox := s.outbox ++ [(outboxId, fields)] }
    return outboxId

/-- The event an outbox item becomes. -/
def EventFields.event (fields : EventFields) (sequence : Int) (eventId : String) (ts : ℚ) :
    Event where
  sequence := sequence
  eventId := eventId
  workspaceId := fields.workspaceId
  eventType := fields.eventType
  actor := fields.actor
  taskId := fields.taskId
  operationId := fields.operationId
  objectRefs := fields.objectRefs
  payload := fields.payload
  causationId := fields.causationId
  correlationId := fields.correlationId
  occurredAt := ts
  observedAt := ts
  learningAllowed := fields.learningAllowed

/-- The loop of `flush_outbox` without a store. -/
def emitAll : List (String × EventFields) → M (List Event)
  | [] => pure []
  | item :: pending => do
      let ts ← readClock env
      let eventId ← newId env "evt"
      let s ← get
      let event := item.2.event (s.events.length + 1) eventId ts
      modify fun s => { s with events := s.events ++ [event] }
      let emitted ← emitAll pending
      return event :: emitted

/-- `dispatch_event_outbox` with its default limit; the rows draw their times and ids in order. -/
def dispatchOutbox : M (List Event) := do
  let s ← get
  let rows := s.db.pendingOutbox 100
  let position := fun outboxId : Int => rows.findIdx (fun row => decide (row.outboxId = outboxId))
  modify fun s =>
    { s with clockReads := s.clockReads + rows.length, ids := s.ids + rows.length }
  store env (dispatchRows (fun outboxId => env.newId "evt" (s.ids + position outboxId))
    (fun outboxId => env.clock (s.clockReads + position outboxId)) rows)

/-- `flush_outbox` -/
def flushOutbox : M (List Event) := do
  let s ← get
  if s.persistent then
    dispatchOutbox env
  else
    modify fun s => { s with outbox := [] }
    emitAll env s.outbox

/-- `self._cursors.get(consumer_id, 0)` -/
def Sys.localCursor (s : Sys) (consumerId : String) : Int :=
  match s.cursors.get? consumerId with
  | none => 0
  | some row => row.2

/-- `read_after` -/
def Sys.readAfter (s : Sys) (consumerId : String) : List Event :=
  if s.persistent then
    s.db.readEventsAfter consumerId
  else
    s.events.filter (fun event => decide (s.localCursor consumerId < event.sequence))

/-- `ack`, where the list in memory has no end that it would be compared with. -/
def ack (consumerId : String) (sequence : Int) : M Unit := do
  let s ← get
  if s.persistent then
    store env (ackEventConsumer consumerId sequence)
  else if s.localCursor consumerId ≤ sequence then
    modify fun s => { s with cursors := s.cursors.put (consumerId, sequence) }
  else
    pure ()

end

end LiandanluNative
