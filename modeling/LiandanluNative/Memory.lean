/-
# LiandanluNative.Memory — candidates and the pipeline of `memory.py`.

`MemoryPipeline.run_once` is cut at its calls to the store: a pipeline holds the events it still has
to handle and what it is about to do with the first of them (`PipelineTask`), and each move is one
call (`PipelineMove`).  The moves of one pipeline in order are a run of `run_once`; several
pipelines move in any order, and one that crashes forgets what it held.
-/
import LiandanluNative.Storage.Memory
import LiandanluNative.Storage.Outbox
import LiandanluNative.Lib.Proc

namespace LiandanluNative

open Lib.Proc

/-! ## Candidates

How an event becomes a candidate, and which candidates `commit` takes.
-/

/-- `memory_partition` -/
def memoryPartition (workspaceId scope : String) : String :=
  if scope = "global" then "*" else workspaceId

theorem memoryPartition_idem (workspaceId scope : String) :
    memoryPartition (memoryPartition workspaceId scope) scope = memoryPartition workspaceId scope := by
  unfold memoryPartition
  split <;> rfl

theorem memoryPartition_global (workspaceId : String) :
    memoryPartition workspaceId "global" = "*" := if_pos rfl

/-- Converting the payload of a candidate event. `none` is one of the exceptions the source catches.
-/
def convertPayload (py : Builtins) (payload : List (PyKey × PyVal)) :
    Except Exc (Option (MemoryKind × String × String × Option ℚ)) :=
  match PyVal.item? "kind" payload, PyVal.item? "key" payload, PyVal.item? "scope" payload with
  | some kind, some key, some scope =>
      match MemoryKind.parse (py.str kind) with
      | none => .ok none
      | some kind =>
          match py.float (PyVal.lookup "confidence" (.float (some 1)) payload) with
          | .ok confidence => .ok (some (kind, py.str key, py.str scope, confidence))
          | .error e =>
              if e.kind = .keyError ∨ e.kind = .typeError ∨ e.kind = .valueError then .ok none
              else .error e
  | _, _, _ => .ok none

/-- `_candidate_from_event` -/
def candidateFromEvent (py : Builtins) (event : Event) : Except Exc (Option MemoryCandidate) :=
  if event.eventType ≠ "memory.candidate" ∨ event.learningAllowed = false then
    .ok none
  else
    match convertPayload py event.payload with
    | .error e => .error e
    | .ok none => .ok none
    | .ok (some (kind, key, scope, confidence)) =>
        if key = "" ∨ scope = "" then
          .ok none
        else
          let flagged := PyVal.lookup "explicit_user_statement" (.bool false) event.payload
          .ok (some
            { workspaceId := event.workspaceId
              kind := kind
              key := key
              value := PyVal.lookup "value" .none event.payload
              scope := scope
              sourceEventIds := [event.eventId]
              confidence := confidence
              explicitUserStatement := flagged.truthy && decide (event.actor = "user") })

/-- `_validate` -/
def MemoryCandidate.valid (candidate : MemoryCandidate) : Bool :=
  !candidate.sourceEventIds.isEmpty && decide (candidate.workspaceId ≠ "") &&
    (match candidate.confidence with
      | none => false
      | some confidence => decide (0 ≤ confidence) && decide (confidence ≤ 1)) &&
    !(decide (candidate.scope = "global") && !candidate.explicitUserStatement)

/-- The candidate `commit` hands to the store. -/
def MemoryCandidate.partitioned (candidate : MemoryCandidate) : MemoryCandidate :=
  { candidate with workspaceId := memoryPartition candidate.workspaceId candidate.scope }

/-! ## The pipeline

`run_once`, cut at its calls to the store.  Several pipelines over one database move in any order,
one call at a time.
-/

/-- `events[:limit]` -/
def sliceTo {α : Type} (limit : Int) (xs : List α) : List α :=
  if limit < 0 then xs.take (xs.length - limit.natAbs) else xs.take limit.toNat

/-- What a pipeline is about to do. -/
inductive PipelineTask where
  /-- Handle the first of the events. -/
  | handle (events : List Event)
  /-- `commit` returned `None`: have the event ignored. -/
  | ignore (event : Event) (events : List Event)
  /-- Acknowledge the event. -/
  | ack (event : Event) (events : List Event)
  /-- Write the acknowledgement that was found to be allowed. -/
  | writeAck (event : Event) (events : List Event)

/-- One call to the store. `py` are the built-ins, `memoryId` what `new_id` gives. -/
def PipelineTask.move (py : Builtins) (consumerId memoryId : String) (db : Database) :
    PipelineTask → PipelineTask × Database
  | .handle [] => (.handle [], db)
  | .handle (event :: events) =>
      match candidateFromEvent py event with
      | .error _ => (.handle [], db)
      | .ok candidate =>
          match candidate.filter MemoryCandidate.valid with
          | none =>
              match processMemoryEvent event none memoryId db with
              | .error _ db' => (.handle [], db')
              | .ok _ db' => (.ack event events, db')
          | some candidate =>
              match processMemoryEvent event (some candidate.partitioned) memoryId db with
              | .error _ db' => (.handle [], db')
              | .ok none db' => (.ignore event events, db')
              | .ok (some _) db' => (.ack event events, db')
  | .ignore event events =>
      match processMemoryEvent event none memoryId db with
      | .error _ db' => (.handle [], db')
      | .ok _ db' => (.ack event events, db')
  | .ack event events =>
      match db.ackAllowed consumerId event.sequence with
      | .error _ => (.handle [], db)
      | .ok false => (.handle events, db)
      | .ok true => (.writeAck event events, db)
  | .writeAck event events => (.handle events, db.ackWrite consumerId event.sequence)

/-- The pipelines over one database, each with its own connection. -/
structure PipelineSystem where
  db : Database
  pipelines : ℕ → PipelineTask

/-- A pipeline does something, or the event log grows. -/
inductive PipelineStep (py : Builtins) (consumerId : ℕ → String) (s : PipelineSystem) :
    PipelineSystem → Prop
  /-- A delivery inserts an event. -/
  | log (row : OutboxRow) (eventId : String) (observedAt : ℚ) :
      PipelineStep py consumerId s { s with db := s.db.insertEvent row eventId observedAt }
  /-- `run_once` reads the events after its cursor. -/
  | read (i : ℕ) (limit : Int) :
      PipelineStep py consumerId s
        { s with
          pipelines := Function.update s.pipelines i
            (.handle (sliceTo limit (s.db.readEventsAfter (consumerId i)))) }
  /-- The next call of a run. -/
  | move (i : ℕ) (memoryId : String) :
      PipelineStep py consumerId s
        { db := ((s.pipelines i).move py (consumerId i) memoryId s.db).2
          pipelines := Function.update s.pipelines i
            ((s.pipelines i).move py (consumerId i) memoryId s.db).1 }
  /-- The process of a pipeline ends. -/
  | crash (i : ℕ) :
      PipelineStep py consumerId s
        { s with pipelines := Function.update s.pipelines i (.handle []) }

/-- The states of all runs from a fresh database. -/
inductive PipelineReached (py : Builtins) (consumerId : ℕ → String) : PipelineSystem → Prop
  | fresh : PipelineReached py consumerId ⟨{}, fun _ => .handle []⟩
  | step {s s' : PipelineSystem} (before : PipelineReached py consumerId s)
      (next : PipelineStep py consumerId s s') : PipelineReached py consumerId s'

end LiandanluNative
