/-
# LiandanluNative.Safety.LearningGate — what `run_once` may learn, and from whom.

Whatever a pipeline stores it learnt from one event that allowed it (`LearntFrom`).  And what it
knows of a key in the end is a function of the log: `lessons` are the candidates of its events for
the key, in their order, and `latest` has the last of them, as often revised as there are lessons
(`Learned`).  The lessons for a key of a workspace come from the events of that workspace, so two
logs that agree on these lead to the same memory, whatever else is in them.

That memory is a function of the log is an invariant of the pipeline, with the events up to the
cursor as the log so far: an event that is ignored teaches nothing, one that is committed adds the
last of the lessons for its key, and one that was handled before, which its receipt tells, is not
handled again.  From it the comparison of two runs follows without one of them being looked at: both
know what the lessons of their logs say, and the lessons are the same.
-/
import LiandanluNative.Json
import LiandanluNative.Lib.Runs
import LiandanluNative.Safety.PoisonEvents

namespace LiandanluNative

open Lib (Table)
open Lib.Proc Lib.Runs

/-! ## Runs of a pipeline

A pipeline over a log that grows, with restarts and with events that raise.
-/

/-- The log grows, `run_once` is called, or the process starts again.  A process that starts again
has what its database has. -/
inductive LearningMove where
  | log (row : OutboxRow) (eventId : String) (observedAt : ℚ)
  | runOnce (limit : Int)
  | restart

/-- A pipeline of a consumer over a fresh database: what `new_id` gives it, and what happens. -/
structure PipelineRun where
  uuid : ℕ → String
  consumerId : String
  moves : List LearningMove

namespace PipelineRun

/-- The state after a move, however it ended. -/
def exec (r : PipelineRun) (py : Builtins) (s : MemorySys) : LearningMove → MemorySys
  | .log row eventId observedAt => { s with db := s.db.insertEvent row eventId observedAt }
  | .runOnce limit => after (LiandanluNative.runOnce r.uuid py r.consumerId limit) s
  | .restart => { s with store := .fromPersistence s.db }

/-- Where it starts. -/
def start (r : PipelineRun) : MemorySys where
  store := { persistent := true }
  consumerId := r.consumerId

/-- Where it ends. -/
def finish (r : PipelineRun) (py : Builtins) : MemorySys := run (r.exec py) r.start r.moves

/-- The log holds JSON objects, and `run_once` does not raise: the second half is about the state
the call is made in. -/
def Smooth (r : PipelineRun) (py : Builtins) (s : MemorySys) : LearningMove → Prop
  | .log row _ _ => PyVal.Decoded row.payload
  | .runOnce limit => ∃ result t, LiandanluNative.runOnce r.uuid py r.consumerId limit s
      = .ok result t
  | .restart => True

/-- The log was processed to its end, and `run_once` never raised.  Only such runs are compared,
since one that stopped at an event knows less than its log says. -/
structure Processed (r : PipelineRun) (py : Builtins) : Prop where
  smooth : Each (r.exec py) (r.Smooth py) r.start r.moves
  finished : (r.finish py).db.readEventsAfter r.consumerId = []

/-- The record is in the store or in the database. -/
def Stores (r : PipelineRun) (py : Builtins) (record : MemoryRecord) : Prop :=
  record ∈ (r.finish py).store.records.rows ∨ record ∈ (r.finish py).db.memoryRecords.rows

end PipelineRun

/-! ## The gate

Every record of the database comes from an event that allowed learning: a commit is the only call
that adds one, and it is handed over the candidate of an event.
-/

/-- The event allows to learn the record: it is a candidate that may be learnt from, and what is
global was said by a user. -/
structure MemoryRecord.LearntFrom (record : MemoryRecord) (event : Event) : Prop where
  eventType : event.eventType = "memory.candidate"
  learningAllowed : event.learningAllowed = true
  sourceEventIds : record.sourceEventIds = [event.eventId]
  confidence : ∃ confidence, record.confidence = some confidence ∧ 0 ≤ confidence ∧ confidence ≤ 1
  workspace : record.scope ≠ "global" → record.workspaceId = event.workspaceId
  global : record.scope = "global" → event.actor = "user" ∧
    (PyVal.lookup "explicit_user_statement" (.bool false) event.payload).truthy = true

/-- Every record was learnt from an event of the log, in memory and in the database:
`from_persistence` takes the rows as they are. -/
structure MemorySys.Gated (log : List Event) (s : MemorySys) : Prop where
  persistent : s.store.persistent = true
  ordered : s.db.LogOrdered
  events : s.db.events.rows = log
  store : ∀ record ∈ s.store.records.rows, ∃ event ∈ log, record.LearntFrom event
  rows : ∀ record ∈ s.db.memoryRecords.rows, ∃ event ∈ log, record.LearntFrom event

section

variable {uuid : ℕ → String} {py : Builtins}

/-- What the candidate of an event becomes was learnt from it, whatever value is stored. -/
theorem learntFrom_record {event : Event} {candidate : MemoryCandidate}
    (h : event.candidate? py = some candidate) (memoryId : String) (previous : Option MemoryRecord)
    (value : PyVal) :
    MemoryRecord.LearntFrom
      { candidate.partitioned.record memoryId previous with value := value } event := by
  obtain ⟨hof, hvalid⟩ := candidate?_eq_some h
  unfold MemoryCandidate.valid at hvalid
  simp only [Bool.and_eq_true] at hvalid
  obtain ⟨⟨⟨_, _⟩, hconfidence⟩, hglobal⟩ := hvalid
  refine ⟨hof.eventType, hof.learningAllowed, hof.sourceEventIds, ?_, fun hscope => ?_,
    fun hscope => ?_⟩
  · show ∃ confidence, candidate.confidence = some confidence ∧ 0 ≤ confidence ∧ confidence ≤ 1
    cases hrange : candidate.confidence with
    | none =>
        rw [hrange] at hconfidence
        cases hconfidence
    | some confidence =>
        rw [hrange] at hconfidence
        simp only [Bool.and_eq_true, decide_eq_true_iff] at hconfidence
        exact ⟨confidence, rfl, hconfidence⟩
  · show memoryPartition candidate.workspaceId candidate.scope = event.workspaceId
    have hlocal : candidate.scope ≠ "global" := hscope
    unfold memoryPartition
    rw [if_neg hlocal, hof.workspaceId]
  · have hexplicit : candidate.explicitUserStatement = true := by
      by_contra hnot
      have hscope : candidate.scope = "global" := hscope
      simp [hscope, hnot] at hglobal
    exact (hof.explicit hexplicit).symm

namespace MemorySys.Gated

variable {log : List Event} {s : MemorySys}

/-- Nothing is stored. -/
theorem same (hs : s.Gated log) {t : MemorySys} (hstore : t.store = s.store)
    (hrows : t.db.memoryRecords = s.db.memoryRecords) (hevents : t.db.events = s.db.events)
    (hsequence : t.db.eventSequence = s.db.eventSequence) : t.Gated log where
  persistent := hstore ▸ hs.persistent
  ordered := hs.ordered.congr hevents hsequence
  events := by rw [hevents, hs.events]
  store := hstore ▸ hs.store
  rows := hrows ▸ hs.rows

variable (uuid py) in
/-- **One event that is handled**, however that ends: the only place where a record is made. -/
theorem handleEvent (hs : s.Gated log) {event : Event} (hevent : event ∈ log) :
    (after (LiandanluNative.handleEvent uuid py event) s).Gated log := by
  have hcases := handleEvent_cases uuid py event s hs.persistent
  unfold after
  generalize LiandanluNative.handleEvent uuid py event s = result at hcases
  cases hcases with
  | unreadable e _ => exact hs
  | replayed _ receipt _ committed store ids held _ =>
      -- what a receipt brings back is a row, learnt before
      rcases held with rfl | ⟨record, hrecord, rfl⟩
      · exact hs.same rfl rfl rfl rfl
      · refine ⟨hs.persistent, hs.ordered, hs.events, fun r hr => ?_, hs.rows⟩
        rcases Table.mem_put.mp hr with rfl | ⟨hold, _⟩
        · exact hs.rows _ hrecord
        · exact hs.store r hold
  | ignored _ _ _ _ => exact hs.same rfl rfl rfl rfl
  | unnamed _ _ _ e => exact hs
  | refused candidate _ _ e _ => exact hs.same rfl rfl rfl rfl
  | committed candidate hsomething _ _ record value hbuilt _ _ =>
      subst hbuilt
      refine ⟨hs.persistent, hs.ordered.congr rfl rfl, hs.events, fun r hr => ?_, fun row hrow => ?_⟩
      · rcases Table.mem_put.mp hr with rfl | ⟨hold, _⟩
        · exact ⟨event, hevent, learntFrom_record hsomething _ _ candidate.value⟩
        · exact hs.store r hold
      · rcases Table.mem_put.mp hrow with rfl | ⟨hold, _⟩
        · exact ⟨event, hevent, learntFrom_record hsomething _ _ value⟩
        · exact hs.rows row hold

/-- Acknowledging moves a cursor. -/
theorem ackEvent (hs : s.Gated log) (sequence : Int) :
    (after (LiandanluNative.ackEvent sequence) s).Gated log := by
  unfold after LiandanluNative.ackEvent ackEventConsumer
  cases s.db.ackAllowed s.consumerId sequence with
  | error e => exact hs.same rfl rfl rfl rfl
  | ok allowed =>
      cases allowed with
      | false => exact hs.same rfl rfl rfl rfl
      | true => exact hs.same rfl rfl rfl rfl

variable (uuid py) in
/-- **One event**, however it ends. -/
theorem processEvent (hs : s.Gated log) {event : Event} (hevent : event ∈ log)
    (rest : List Event) :
    (after (LiandanluNative.processEvent uuid py event rest) s).Gated log := by
  have hread : MemorySys.Gated log { s with pending := rest } := hs.same rfl rfl rfl rfl
  have hhandle := hread.handleEvent uuid py hevent
  show MemorySys.Gated log (after (LiandanluNative.handleEvent uuid py event >>= fun committed =>
    LiandanluNative.ackEvent event.sequence >>= fun _ => pure committed) { s with pending := rest })
  refine after_bind (P := MemorySys.Gated log) (fun e t hraised => ?_)
    (fun committed t hhandled => ?_)
  · exact after_of_error hraised ▸ hhandle
  · rw [after_bind_pure]
    exact (after_of_ok hhandled ▸ hhandle).ackEvent event.sequence

variable (uuid py) in
/-- **The loop**, however it ends. -/
theorem processEvents (events : List Event) (hs : s.Gated log)
    (hevents : ∀ event ∈ events, event ∈ log) :
    (after (LiandanluNative.processEvents uuid py events) s).Gated log := by
  induction events generalizing s with
  | nil => exact hs
  | cons event events ih =>
      have hone := hs.processEvent uuid py (hevents event List.mem_cons_self)
        events
      unfold LiandanluNative.processEvents
      refine after_bind (P := MemorySys.Gated log) (fun e t hraised => ?_)
        (fun committed t hprocessed => ?_)
      · exact after_of_error hraised ▸ hone
      · refine after_bind (P := MemorySys.Gated log) (fun e u hraised => ?_)
          (fun counts u hrest => ?_)
        · exact after_of_error hraised ▸ ih (after_of_ok hprocessed ▸ hone)
            (fun other hother => hevents other (List.mem_cons_of_mem _ hother))
        · exact after_of_ok hrest ▸ ih (after_of_ok hprocessed ▸ hone)
            (fun other hother => hevents other (List.mem_cons_of_mem _ hother))

end MemorySys.Gated

/-- **One move.** -/
theorem PipelineRun.exec_gated (r : PipelineRun) {s : MemorySys}
    (hs : s.Gated s.db.events.rows) (move : LearningMove) :
    (r.exec py s move).Gated (r.exec py s move).db.events.rows := by
  cases move with
  | log row eventId observedAt =>
      obtain ⟨hordered, hinsert⟩ := hs.ordered.insertEvent row eventId observedAt
      -- the log has grown, and the memory tables are as they were
      have hgrows : ∀ event ∈ s.db.events.rows,
          event ∈ (s.db.insertEvent row eventId observedAt).events.rows := by
        intro event hevent
        rcases hinsert with ⟨_, hsame⟩ | ⟨_, happend⟩
        · exact hsame ▸ hevent
        · exact happend ▸ List.mem_append_left _ hevent
      have hrows : (s.db.insertEvent row eventId observedAt).memoryRecords = s.db.memoryRecords := by
        unfold Database.insertEvent
        cases s.db.eventById eventId <;> rfl
      refine ⟨hs.persistent, hordered, rfl, fun record hrecord => ?_, fun record hrecord => ?_⟩
      · obtain ⟨event, hevent, hlearnt⟩ := hs.store record hrecord
        exact ⟨event, hgrows event hevent, hlearnt⟩
      · obtain ⟨event, hevent, hlearnt⟩ := hs.rows record (hrows ▸ hrecord)
        exact ⟨event, hgrows event hevent, hlearnt⟩
  | runOnce limit =>
      have hread : (s.read r.consumerId limit).Gated s.db.events.rows := hs.same rfl rfl rfl rfl
      -- what a read gives are events of the log
      have hevents : ∀ event ∈ (s.read r.consumerId limit).pending, event ∈ s.db.events.rows := by
        intro event hevent
        obtain ⟨rest, hread⟩ := exists_sliceTo_append limit (s.db.readEventsAfter r.consumerId)
        have hmem : event ∈ s.db.readEventsAfter r.consumerId :=
          hread ▸ List.mem_append_left _ hevent
        rw [Database.readEventsAfter_eq hs.ordered] at hmem
        exact List.mem_of_mem_filter hmem
      have hloop := hread.processEvents r.uuid py _ hevents
      have hafter : r.exec py s (.runOnce limit)
          = after (processEvents r.uuid py (s.read r.consumerId limit).pending)
              (s.read r.consumerId limit) :=
        after_bind_pure _ _ _
      rw [hafter, hloop.events]
      exact hloop
  | restart =>
      refine ⟨rfl, hs.ordered, rfl, fun record hrecord => ?_, hs.rows⟩
      exact hs.rows record (((fromPersistence_spec s.db).2.1 record).mp hrecord)

/-- Whatever happens, what is stored was learnt from an event of the log. -/
theorem PipelineRun.stores_learnt (r : PipelineRun) {record : MemoryRecord}
    (h : r.Stores py record) :
    ∃ event ∈ (r.finish py).db.events.rows, record.LearntFrom event := by
  have hgated : (r.finish py).Gated (r.finish py).db.events.rows := by
    refine run_keeps (I := fun s : MemorySys => s.Gated s.db.events.rows)
      (fun s move hs => r.exec_gated hs move) r.moves ?_
    exact ⟨rfl, Database.logOrdered_fresh, rfl, fun _ h => absurd h List.not_mem_nil,
      fun _ h => absurd h List.not_mem_nil⟩
  exact h.elim (hgated.store record) (hgated.rows record)

end

/-! ## Lessons

What the log teaches is a function of its events: a lesson for each that allows learning and has a
valid candidate.
-/

/-- What is learnt from an event. -/
structure Lesson where
  key : MemoryKey
  value : PyVal
  confidence : Option ℚ

/-- What `run_once` reads of an event: where it happened, what kind it is, who did it, whether it
may be learnt from, and its payload.  Ids and numbers are left out, so two logs may have different
ones. -/
def Event.content (event : Event) : Event where
  sequence := 0
  eventId := ""
  workspaceId := event.workspaceId
  eventType := event.eventType
  actor := event.actor
  taskId := none
  operationId := none
  objectRefs := []
  payload := event.payload
  causationId := none
  correlationId := none
  occurredAt := 0
  observedAt := 0
  learningAllowed := event.learningAllowed

/-- What a candidate teaches: its key, and what is to be stored under it. -/
def MemoryCandidate.lesson (candidate : MemoryCandidate) : Lesson where
  key := candidate.partitioned.memoryKey
  value := candidate.value
  confidence := candidate.confidence

/-- What an event teaches, if it may be learnt from and its candidate is valid. -/
def Event.lesson? (py : Builtins) (event : Event) : Option Lesson :=
  (event.candidate? py).map MemoryCandidate.lesson

/-- The lessons of a log for a key. -/
def lessons (py : Builtins) (log : List Event) (key : MemoryKey) : List Lesson :=
  (log.filterMap (Event.lesson? py)).filter (fun lesson => decide (lesson.key = key))

/-- The value, the revision and the confidence that some lessons for a key leave: the last lesson,
and how many there were. -/
def Lesson.tells (told : List Lesson) : Option (PyVal × Int × Option ℚ) :=
  told.getLast?.map fun last => (last.value, (told.length : Int), last.confidence)

/-- Of a record, what the next lesson for its key is compared with. -/
def MemoryRecord.told (record : MemoryRecord) : PyVal × Int × Option ℚ :=
  (record.value, record.revision, record.confidence)

section

variable {py : Builtins}

/-- The lesson is in the content of the event; its id and its place in the log do not matter. -/
theorem lesson?_content (event : Event) : event.content.lesson? py = event.lesson? py := by
  unfold Event.lesson? Event.candidate? candidateFromEvent Event.content
  dsimp only
  split_ifs
  · rfl
  · cases convertPayload py event.payload with
    | error e => rfl
    | ok converted =>
        cases converted with
        | none => rfl
        | some fields =>
            obtain ⟨kind, key, scope, confidence⟩ := fields
            dsimp only
            by_cases hempty : key = "" ∨ scope = ""
            · rw [if_pos hempty, if_pos hempty]
            · rw [if_neg hempty, if_neg hempty]
              unfold MemoryCandidate.valid
              dsimp only
              rw [List.isEmpty_cons, List.isEmpty_cons]
              split_ifs
              · rfl
              · rfl

/-- A lesson for a key of a workspace comes from an event of the workspace: only a global candidate
leaves its own. -/
theorem lesson?_workspace {event : Event} {lesson : Lesson} {workspaceId scope key : String}
    {kind : MemoryKind} (h : event.lesson? py = some lesson)
    (hkey : lesson.key = (workspaceId, scope, key, kind)) (hscope : scope ≠ "global") :
    event.workspaceId = workspaceId := by
  obtain ⟨candidate, hcandidate, rfl⟩ := Option.map_eq_some_iff.mp h
  obtain ⟨hof, _⟩ := candidate?_eq_some hcandidate
  have hparts : memoryPartition candidate.workspaceId candidate.scope = workspaceId ∧
      candidate.scope = scope := by
    simp only [MemoryCandidate.lesson, MemoryCandidate.memoryKey, MemoryCandidate.partitioned,
      Prod.mk.injEq] at hkey
    exact ⟨hkey.1, hkey.2.1⟩
  obtain ⟨hpartition, rfl⟩ := hparts
  unfold memoryPartition at hpartition
  rw [if_neg hscope] at hpartition
  exact hof.workspaceId.symm.trans hpartition

/-- The events of other workspaces teach nothing about it. -/
theorem lessons_filter (log : List Event) {workspaceId scope : String} (hscope : scope ≠ "global")
    (key : String) (kind : MemoryKind) :
    lessons py (log.filter (fun event => decide (event.workspaceId = workspaceId)))
        (workspaceId, scope, key, kind)
      = lessons py log (workspaceId, scope, key, kind) := by
  unfold lessons
  induction log with
  | nil => rfl
  | cons event log ih =>
      by_cases hevent : event.workspaceId = workspaceId
      · rw [List.filter_cons, if_pos (decide_eq_true hevent)]
        cases hlesson : event.lesson? py with
        | none => rw [List.filterMap_cons_none hlesson, List.filterMap_cons_none hlesson, ih]
        | some lesson =>
            rw [List.filterMap_cons_some hlesson, List.filterMap_cons_some hlesson,
              List.filter_cons, List.filter_cons, ih]
      · rw [List.filter_cons, if_neg (by simpa using hevent), ih]
        cases hlesson : event.lesson? py with
        | none => rw [List.filterMap_cons_none hlesson]
        | some lesson =>
            have hother : ¬ lesson.key = (workspaceId, scope, key, kind) := fun hkey =>
              hevent (lesson?_workspace hlesson hkey hscope)
            rw [List.filterMap_cons_some hlesson, List.filter_cons,
              if_neg (by simpa using hother)]

/-- Only what `run_once` reads of the events matters. -/
theorem lessons_content (log : List Event) (key : MemoryKey) :
    lessons py (log.map Event.content) key = lessons py log key := by
  unfold lessons
  rw [List.filterMap_map]
  congr 2
  exact funext lesson?_content

/-- One more event adds its lesson, if it has one for the key. -/
theorem lessons_concat (log : List Event) (event : Event) (key : MemoryKey) :
    lessons py (log ++ [event]) key = lessons py log key
      ++ (event.lesson? py).toList.filter (fun lesson => decide (lesson.key = key)) := by
  unfold lessons
  rw [List.filterMap_append, List.filter_append]
  cases hlesson : event.lesson? py with
  | none => rw [List.filterMap_cons_none hlesson]; rfl
  | some lesson => rw [List.filterMap_cons_some hlesson]; rfl

end

/-! ## What is known

The newest record of a key has the last lesson for it, and has been revised as often as there are
lessons.
-/

/-- The last of the lessons is what is told, revised as often as there are lessons. -/
theorem Lesson.tells_concat (told : List Lesson) (lesson : Lesson) :
    Lesson.tells (told ++ [lesson])
      = some (lesson.value, (told.length : Int) + 1, lesson.confidence) := by
  unfold tells
  rw [List.getLast?_concat, List.length_append, List.length_singleton]
  push_cast
  rfl

/-- The database and the store know of every key what the events taught, and the receipts are of
these events.  `done` are the events up to the cursor. -/
structure MemorySys.Learned (py : Builtins) (s : MemorySys) (done : List Event) : Prop where
  grounded : s.store.index.Grounded MemoryRecord.memoryKey
  backed : ∀ r ∈ s.store.records.rows, ∃ row ∈ s.db.memoryRecords.rows, row.memoryId = r.memoryId
  usable : ∀ row ∈ s.db.memoryRecords.rows, MemoryStore.usable row.memoryId = true
  revisions : ∀ a ∈ s.db.memoryRecords.rows, ∀ b ∈ s.db.memoryRecords.rows,
    a.memoryKey = b.memoryKey → a.revision = b.revision → a = b
  receipts : ∀ receipt ∈ s.db.consumerReceipts.rows, ∃ event ∈ done,
    receipt.eventId = event.eventId
  stored : ∀ key, (s.db.latestRecord key).map MemoryRecord.told
    = Lesson.tells (lessons py done key)
  held : ∀ key, (s.store.current key).map MemoryRecord.told = Lesson.tells (lessons py done key)

/-- The next revision of a key counts its lessons. -/
theorem nextRevision_eq {db : Database} {key : MemoryKey} {told : List Lesson}
    (h : (db.latestRecord key).map MemoryRecord.told = Lesson.tells told) :
    db.nextRevision key = (told.length : Int) + 1 := by
  rcases told.eq_nil_or_concat with rfl | ⟨before, last, hsplit⟩
  · have hnone : db.latestRecord key = none := Option.map_eq_none_iff.mp h
    simp only [Database.nextRevision, hnone, List.length_nil, Nat.cast_zero, zero_add]
  · rw [List.concat_eq_append] at hsplit
    subst hsplit
    rw [Lesson.tells_concat] at h
    obtain ⟨record, hrecord, htold⟩ := Option.map_eq_some_iff.mp h
    have hrevision : record.revision = (before.length : Int) + 1 :=
      congrArg (fun told => told.2.1) htold
    simp only [Database.nextRevision, hrecord, hrevision, List.length_append,
      List.length_singleton]
    push_cast
    rfl

namespace MemorySys.Learned

variable {uuid : ℕ → String} {py : Builtins} {s : MemorySys} {done unread : List Event}
  {event : Event}

/-- Neither memory nor receipts are touched. -/
theorem same (hl : s.Learned py done) {t : MemorySys} (hstore : t.store = s.store)
    (hrows : t.db.memoryRecords = s.db.memoryRecords)
    (hreceipts : t.db.consumerReceipts = s.db.consumerReceipts) : t.Learned py done := by
  refine ⟨hstore ▸ hl.grounded, ?_, hrows ▸ hl.usable, hrows ▸ hl.revisions,
    hreceipts ▸ hl.receipts, fun key => ?_, fun key => ?_⟩
  · rw [hstore, hrows]
    exact hl.backed
  · rw [Database.latestRecord_congr hrows]
    exact hl.stored key
  · rw [hstore]
    exact hl.held key

/-- An event without a lesson is past. -/
theorem passed (hl : s.Learned py done) (hnothing : event.candidate? py = none) {t : MemorySys}
    (hstore : t.store = s.store) (hrows : t.db.memoryRecords = s.db.memoryRecords)
    (hreceipts : ∀ receipt ∈ t.db.consumerReceipts.rows, ∃ other ∈ done ++ [event],
      receipt.eventId = other.eventId) : t.Learned py (done ++ [event]) := by
  have hlessons : ∀ key, lessons py (done ++ [event]) key = lessons py done key := by
    intro key
    rw [lessons_concat, Event.lesson?, hnothing]
    exact List.append_nil _
  refine ⟨hstore ▸ hl.grounded, ?_, hrows ▸ hl.usable, hrows ▸ hl.revisions, hreceipts,
    fun key => ?_, fun key => ?_⟩
  · rw [hstore, hrows]
    exact hl.backed
  · rw [hlessons, Database.latestRecord_congr hrows]
    exact hl.stored key
  · rw [hlessons, hstore]
    exact hl.held key

/-- The lesson of an event is learnt: its record is the next of its key, in the table and in memory,
and leaves the other keys as they are. -/
theorem learn (hl : s.Learned py done) {candidate : MemoryCandidate}
    (hcandidate : event.candidate? py = some candidate) {record : MemoryRecord}
    (hbuilt : record = candidate.partitioned.record (newMemoryId uuid s.ids)
      (s.db.latestRecord candidate.partitioned.memoryKey))
    (hfree : s.db.memoryTaken record = false) {t : MemorySys}
    (hstore : t.store = s.store.hold record)
    (hrows : t.db.memoryRecords = s.db.memoryRecords.put record)
    (hreceipts : ∀ receipt ∈ t.db.consumerReceipts.rows, ∃ other ∈ done ++ [event],
      receipt.eventId = other.eventId) : t.Learned py (done ++ [event]) := by
  have hkey : record.memoryKey = candidate.lesson.key := by
    rw [hbuilt]
    rfl
  have hid : MemoryStore.usable record.memoryId = true := by
    rw [hbuilt]
    exact newMemoryId_usable uuid s.ids
  have hrevision : record.revision = s.db.nextRevision record.memoryKey := by
    rw [hbuilt]
    exact candidate.partitioned.record_revision _ _
  have hfresh : ∀ row ∈ s.db.memoryRecords.rows, row.memoryId ≠ record.memoryId := by
    intro row hrow heq
    have hnot := List.any_eq_false.mp hfree row hrow
    simp only [heq, decide_true, Bool.true_or, not_true] at hnot
  have hlater : ∀ row ∈ s.db.memoryRecords.rows, row.memoryKey = record.memoryKey →
      row.revision < record.revision := by
    intro row hrow hsame
    rw [hrevision, ← hsame]
    exact Database.lt_nextRevision hrow
  have hkeeps : s.store.index.KeepsKey MemoryRecord.memoryKey record := by
    intro r hr heq
    obtain ⟨row, hrow, hrowId⟩ := hl.backed r hr
    exact absurd (hrowId.trans heq) (hfresh row hrow)
  have htold : record.told = (candidate.lesson.value,
      ((lessons py done record.memoryKey).length : Int) + 1, candidate.lesson.confidence) := by
    have hcount := hrevision.trans (nextRevision_eq (hl.stored record.memoryKey))
    unfold MemoryRecord.told
    rw [hcount, hbuilt]
    rfl
  -- the key of the record has one more lesson, the others have theirs
  have hlessons : ∀ key, Lesson.tells (lessons py (done ++ [event]) key)
      = if record.memoryKey = key then some record.told
        else Lesson.tells (lessons py done key) := by
    intro key
    rw [lessons_concat, Event.lesson?, hcandidate, Option.map_some, Option.toList_some]
    by_cases hsame : record.memoryKey = key
    · subst hsame
      rw [if_pos rfl, List.filter_cons, if_pos (decide_eq_true hkey.symm), List.filter_nil,
        Lesson.tells_concat, htold]
    · rw [if_neg hsame, List.filter_cons, if_neg (by simpa [← hkey] using hsame), List.filter_nil,
        List.append_nil]
  refine ⟨?_, fun r hr => ?_, fun row hrow => ?_, fun a ha b hb hsame heq => ?_, hreceipts,
    fun key => ?_, fun key => ?_⟩
  · rw [hstore]
    exact hl.grounded.hold hkeeps
  · rw [hstore] at hr
    rw [hrows]
    rcases Table.mem_put.mp hr with rfl | ⟨hr, _⟩
    · exact ⟨_, Table.mem_put.mpr (Or.inl rfl), rfl⟩
    · obtain ⟨row, hrow, hrowId⟩ := hl.backed r hr
      exact ⟨row, Table.mem_put.mpr (Or.inr ⟨hrow, hfresh row hrow⟩), hrowId⟩
  · rw [hrows] at hrow
    rcases Table.mem_put.mp hrow with rfl | ⟨hold, _⟩
    · exact hid
    · exact hl.usable row hold
  · rw [hrows] at ha hb
    rcases Table.mem_put.mp ha with rfl | ⟨hold, _⟩ <;>
      rcases Table.mem_put.mp hb with rfl | ⟨hold', _⟩
    · rfl
    · exact absurd heq (hlater b hold' hsame.symm).ne'
    · exact absurd heq (hlater a hold hsame).ne
    · exact hl.revisions a hold b hold' hsame heq
  · rw [Database.latestRecord_put hrows (Table.get?_eq_none.mpr hfresh) hrevision.ge, hlessons]
    split
    · rfl
    · exact hl.stored key
  · rw [hstore, hlessons]
    by_cases hsame : record.memoryKey = key
    · subst hsame
      rw [if_pos rfl]
      exact congrArg (Option.map MemoryRecord.told)
        (Lib.Index.current_hold_self (x := s.store.index) hid)
    · rw [if_neg hsame, ← hl.held key]
      exact congrArg (Option.map MemoryRecord.told)
        (hl.grounded.current_hold_of_ne hkeeps hsame)

/-- The receipts after one more is given. -/
theorem receipts_advance (hl : s.Learned py done) {db : Database}
    (hreceipts : db.consumerReceipts = s.db.consumerReceipts) (status : String)
    (resultRef : Option String) :
    ∀ receipt ∈ (db.advanceConsumer memoryConsumer event.eventId event.sequence status
      resultRef).consumerReceipts.rows, ∃ other ∈ done ++ [event],
        receipt.eventId = other.eventId := by
  intro receipt hreceipt
  change receipt ∈ (db.consumerReceipts.putNew
    ⟨memoryConsumer, event.eventId, event.sequence, status, resultRef⟩).rows at hreceipt
  have hold : receipt ∈ s.db.consumerReceipts.rows →
      ∃ other ∈ done ++ [event], receipt.eventId = other.eventId := by
    intro hmem
    obtain ⟨other, hother, hid⟩ := hl.receipts receipt hmem
    exact ⟨other, List.mem_append_left _ hother, hid⟩
  rw [hreceipts] at hreceipt
  cases hget : s.db.consumerReceipts.get? (memoryConsumer, event.eventId) with
  | some old =>
      rw [Table.putNew_of_get?_some hget] at hreceipt
      exact hold hreceipt
  | none =>
      rw [Table.putNew_of_get?_none hget] at hreceipt
      rcases Table.mem_put.mp hreceipt with rfl | ⟨hmem, _⟩
      · exact ⟨event, List.mem_append_right _ (List.mem_singleton_self _), rfl⟩
      · exact hold hmem

/-- An unread event was not processed before: receipts are of the events that were read. -/
theorem absent (hl : s.Learned py done) (hw : s.Working done (event :: unread)) :
    s.db.consumerReceipts.get? (memoryConsumer, event.eventId) = none := by
  refine Table.get?_eq_none.mpr (fun receipt hreceipt hkey => ?_)
  obtain ⟨other, hother, hid⟩ := hl.receipts receipt hreceipt
  have hids := hw.ordered.ids
  rw [hw.place.log, List.map_append, List.nodup_append] at hids
  have heq : other.eventId = event.eventId := hid.symm.trans (Prod.mk.inj hkey).2
  exact hids.2.2 _ (List.mem_map_of_mem hother) _ (List.mem_map_of_mem List.mem_cons_self) heq

/-- **One event that is processed.** -/
theorem next (hl : s.Learned py done) (hw : s.Working done (event :: unread))
    (hjson : PyVal.Decoded event.payload) {rest : List Event} {committed : Bool} {t : MemorySys}
    (hrun : processEvent uuid py event rest s = .ok committed t) :
    t.Learned py (done ++ [event]) := by
  obtain ⟨_, u, hhandled, rfl⟩ := hw.next hrun
  generalize hresult : (EStateM.Result.ok committed u : EStateM.Result Exc MemorySys Bool) = result
    at hhandled
  cases hhandled with
  | unreadable e _ => cases hresult
  | unnamed _ _ _ e => cases hresult
  | refused candidate _ _ e _ => cases hresult
  | replayed _ receipt hfound _ _ _ _ _ => cases (hl.absent hw).symm.trans hfound
  | ignored _ _ _ hnothing =>
      cases hresult
      exact hl.passed hnothing rfl rfl (hl.receipts_advance rfl _ _)
  | committed candidate hsomething _ _ record value hbuilt hvalue hfree =>
      cases hresult
      have hrecord : record.value = PyVal.lookup "value" .none event.payload := by
        rw [hbuilt]
        exact (candidate?_eq_some hsomething).1.value
      have hsame : value = record.value := by
        rw [hrecord, lookup_jsonDumps hjson, Option.some.injEq] at hvalue
        rw [hrecord, hvalue]
      subst hsame
      exact hl.learn hsomething hbuilt hfree rfl rfl (hl.receipts_advance rfl _ _)

/-- **Starting again**: the store that is hydrated knows what the database knows. -/
theorem restart (hl : s.Learned py done) :
    MemorySys.Learned py { s with store := .fromPersistence s.db } done := by
  obtain ⟨hground, hmem, hnewest⟩ := fromPersistence_spec s.db
  refine ⟨hground, fun r hr => ⟨r, (hmem r).mp hr, rfl⟩, hl.usable, hl.revisions, hl.receipts,
    hl.stored, fun key => ?_⟩
  -- the record a loaded store takes as current has a row
  have hcurrent : ∀ w, (MemoryStore.fromPersistence s.db).current key = some w →
      w ∈ s.db.recordsOf key := by
    intro w hw
    obtain ⟨hkey, hrow⟩ := hground.current_key hw
    exact List.mem_filter.mpr ⟨(hmem w).mp hrow, decide_eq_true hkey⟩
  rw [← hl.stored key]
  congr 1
  show (MemoryStore.fromPersistence s.db).current key = s.db.latestRecord key
  cases hlatest : s.db.latestRecord key with
  | none =>
      refine Option.eq_none_iff_forall_ne_some.mpr (fun w hw => ?_)
      have hmem := hcurrent w hw
      rw [newest_eq_none hlatest] at hmem
      cases hmem
  | some row =>
      obtain ⟨hrow, hkey⟩ := List.mem_filter.mp (newest_mem hlatest)
      rw [decide_eq_true_iff] at hkey
      obtain ⟨w, hw, hle⟩ := hnewest key (fun r hr _ => hl.usable r hr) row ((hmem row).mpr hrow)
        hkey
      obtain ⟨hwRow, hwKey⟩ := List.mem_filter.mp (hcurrent w hw)
      rw [decide_eq_true_iff] at hwKey
      -- neither of the two is newer than the other, so they are one
      have hge := le_newest hlatest w (hcurrent w hw)
      rw [hl.revisions row hrow w hwRow (hkey.trans hwKey.symm) (le_antisymm hle hge)]
      exact hw

end MemorySys.Learned

/-! ## Runs that do not raise

A run that has processed its log knows what the lessons of the log say; so two logs with the same
lessons for a workspace lead to the same memory of it.
-/

/-- The pipeline has its place in the log, and knows what the events up to it taught.  `done` and
`unread` are the log, cut at the cursor. -/
structure PipelineRun.Taught (r : PipelineRun) (py : Builtins) (done unread : List Event)
    (s : MemorySys) : Prop where
  working : s.Working done unread
  learned : s.Learned py done
  json : ∀ event ∈ s.db.events.rows, PyVal.Decoded event.payload
  cursor_le : s.db.cursor s.consumerId ≤ s.db.eventSequence
  consumerId : s.consumerId = r.consumerId

namespace PipelineRun.Taught

variable {r : PipelineRun} {py : Builtins} {s : MemorySys} {done unread : List Event}

/-- **One event that is processed.** -/
theorem next {event : Event} (h : r.Taught py done (event :: unread) s) {rest : List Event}
    {committed : Bool} {t : MemorySys}
    (hrun : processEvent r.uuid py event rest s = .ok committed t) :
    r.Taught py (done ++ [event]) unread t := by
  have hevent : event ∈ s.db.events.rows := by
    rw [h.working.place.log]
    exact List.mem_append_right _ List.mem_cons_self
  have hlearned := h.learned.next h.working (h.json event hevent) hrun
  obtain ⟨hworking, u, hhandled, rfl⟩ := h.working.next hrun
  have hhandles := hhandled.handles h.working.positive h.working.persistent
  refine ⟨hworking, hlearned, fun other hother => h.json other ?_, ?_,
    hhandles.consumerId.trans h.consumerId⟩
  · change other ∈ u.db.events.rows at hother
    rw [hhandles.events] at hother
    exact hother
  · have hconsumer : u.consumerId = s.consumerId := hhandles.consumerId
    show (u.db.ackWrite s.consumerId event.sequence).cursor u.consumerId ≤ u.db.eventSequence
    rw [hconsumer, Database.cursor_ackWrite, if_pos rfl, hhandles.eventSequence]
    exact h.working.ordered.bound event hevent

/-- The log grows. -/
theorem log (h : r.Taught py done unread s) {row : OutboxRow} (hrow : PyVal.Decoded row.payload)
    (eventId : String) (observedAt : ℚ) :
    ∃ unread', r.Taught py done unread'
      { s with db := s.db.insertEvent row eventId observedAt } := by
  obtain ⟨hordered, hinsert⟩ := h.working.ordered.insertEvent row eventId observedAt
  have hkept : (s.db.insertEvent row eventId observedAt).memoryRecords = s.db.memoryRecords ∧
      (s.db.insertEvent row eventId observedAt).consumerReceipts = s.db.consumerReceipts ∧
      (s.db.insertEvent row eventId observedAt).consumerCursors = s.db.consumerCursors ∧
      s.db.eventSequence ≤ (s.db.insertEvent row eventId observedAt).eventSequence := by
    unfold Database.insertEvent
    cases s.db.eventById eventId with
    | none => exact ⟨rfl, rfl, rfl, Int.le_add_one le_rfl⟩
    | some event => exact ⟨rfl, rfl, rfl, Int.le_add_one le_rfl⟩
  -- logging touches the events alone, and the sequence does not fall
  obtain ⟨hrows, hreceipts, hcursors, hsequence⟩ := hkept
  have hcursor : (s.db.insertEvent row eventId observedAt).cursor s.consumerId
      = s.db.cursor s.consumerId := Database.cursor_congr hcursors s.consumerId
  have hlearned : MemorySys.Learned py
      { s with db := s.db.insertEvent row eventId observedAt } done :=
    h.learned.same rfl hrows hreceipts
  have hle : (s.db.insertEvent row eventId observedAt).cursor s.consumerId
      ≤ (s.db.insertEvent row eventId observedAt).eventSequence := by
    rw [hcursor]
    exact h.cursor_le.trans hsequence
  rcases hinsert with ⟨_, hsame⟩ | ⟨_, happend⟩
  -- an event id the log has: nothing more is unread
  · refine ⟨unread, ⟨⟨hordered, h.working.persistent, ?_⟩, hlearned, ?_, hle, h.consumerId⟩⟩
    · refine ⟨hsame ▸ h.working.place.log, ?_, ?_⟩
      · rw [hcursor]
        exact h.working.place.done_le
      · rw [hcursor]
        exact h.working.place.lt_unread
    · exact hsame ▸ h.json
  · -- the new event is past every cursor
    refine ⟨unread ++ [row.event (s.db.eventSequence + 1) eventId observedAt],
      ⟨⟨hordered, h.working.persistent, ?_⟩, hlearned, ?_, hle, h.consumerId⟩⟩
    · refine ⟨?_, ?_, fun event hevent => ?_⟩
      · rw [happend, h.working.place.log, List.append_assoc]
      · rw [hcursor]
        exact h.working.place.done_le
      · rw [hcursor]
        rcases List.mem_append.mp hevent with hold | hnew
        · exact h.working.place.lt_unread event hold
        · rw [List.mem_singleton.mp hnew]
          exact Int.lt_add_one_of_le h.cursor_le
    · intro event hevent
      change event ∈ (s.db.insertEvent row eventId observedAt).events.rows at hevent
      rw [happend] at hevent
      rcases List.mem_append.mp hevent with hold | hnew
      · exact h.json event hold
      · rw [List.mem_singleton.mp hnew]
        exact hrow

/-- **One move that does not raise.** -/
theorem exec (h : r.Taught py done unread s) (move : LearningMove) (hsmooth : r.Smooth py s move) :
    ∃ done' unread', r.Taught py done' unread' (r.exec py s move) := by
  cases move with
  | log row eventId observedAt => exact ⟨done, h.log hsmooth eventId observedAt⟩
  | restart =>
      have hworking : MemorySys.Working { s with store := .fromPersistence s.db } done unread :=
        ⟨h.working.ordered, rfl, h.working.place⟩
      exact ⟨done, unread, hworking, h.learned.restart, h.json, h.cursor_le, h.consumerId⟩
  | runOnce limit =>
      obtain ⟨result, t, hrun⟩ := hsmooth
      have hafter : r.exec py s (.runOnce limit) = t := after_of_ok hrun
      obtain ⟨counts, hevents, _⟩ := runOnce_eq_ok.mp hrun
      have hplace := h.working.place
      rw [h.consumerId] at hplace
      obtain ⟨later, hread⟩ := exists_sliceTo_append limit (s.db.readEventsAfter r.consumerId)
      rw [hplace.read h.working.ordered] at hread
      have hstart : r.Taught py done ((s.read r.consumerId limit).pending ++ later)
          (s.read r.consumerId limit) := by
        have hpending : (s.read r.consumerId limit).pending = sliceTo limit unread :=
          congrArg (sliceTo limit) (hplace.read h.working.ordered)
        rw [hpending, ← hread]
        refine ⟨⟨h.working.ordered, h.working.persistent, hplace⟩, h.learned.same rfl rfl rfl,
          h.json, ?_, rfl⟩
        exact h.consumerId ▸ h.cursor_le
      rw [hafter]
      exact ⟨_, _, processEvents_rule (I := r.Taught py) (fun _ _ _ _ _ _ _ htaught => htaught.next)
        _ hstart hevents⟩

end PipelineRun.Taught

/-- **What a run knows in the end**: of every key, the last lesson of its log, as often revised as
there are lessons. -/
theorem PipelineRun.Processed.current {r : PipelineRun} {py : Builtins} (h : r.Processed py)
    (key : MemoryKey) : ((r.finish py).store.current key).map MemoryRecord.told
      = Lesson.tells (lessons py (r.finish py).db.events.rows key) := by
  have hstart : ∃ done unread, r.Taught py done unread r.start := by
    refine ⟨[], [], ⟨Database.logOrdered_fresh, rfl, ⟨rfl, ?_, ?_⟩⟩, ?_, ?_, le_rfl, rfl⟩
    · exact fun _ h => absurd h List.not_mem_nil
    · exact fun _ h => absurd h List.not_mem_nil
    · exact ⟨Lib.Index.grounded_empty, fun _ h => absurd h List.not_mem_nil,
        fun _ h => absurd h List.not_mem_nil, fun _ h => absurd h List.not_mem_nil,
        fun _ h => absurd h List.not_mem_nil, fun _ => rfl, fun _ => rfl⟩
    · exact fun _ h => absurd h List.not_mem_nil
  obtain ⟨done, unread, htaught⟩ :=
    run_of_each (I := fun s => ∃ done unread, r.Taught py done unread s)
      (fun s move ⟨_, _, htaught⟩ hsmooth => htaught.exec move hsmooth) hstart h.smooth
  change r.Taught py done unread (r.finish py) at htaught
  have hplace := htaught.working.place
  rw [htaught.consumerId] at hplace
  have hfinished := h.finished
  rw [hplace.read htaught.working.ordered] at hfinished
  rw [htaught.learned.held key, hplace.log, hfinished, List.append_nil]

/-- The logs agree on the events of the workspace, in their order, as far as `run_once` reads them.
-/
def AgreeOn (workspaceId : String) (log log' : List Event) : Prop :=
  (log.filter (fun event => decide (event.workspaceId = workspaceId))).map Event.content
    = (log'.filter (fun event => decide (event.workspaceId = workspaceId))).map Event.content

/-- Logs that agree on a workspace have the same lessons for its keys. -/
theorem AgreeOn.lessons {py : Builtins} {workspaceId scope : String} {log log' : List Event}
    (h : AgreeOn workspaceId log log') (hscope : scope ≠ "global") (key : String)
    (kind : MemoryKind) :
    LiandanluNative.lessons py log (workspaceId, scope, key, kind)
      = LiandanluNative.lessons py log' (workspaceId, scope, key, kind) := by
  rw [← lessons_filter log hscope, ← lessons_content, h, lessons_content, lessons_filter log' hscope]

/-- **The gate and the walls.** In every run of a pipeline from a fresh database, whatever is stored
was learnt from an event of the log that allowed it, under that event's workspace, or globally if a
user said so.  And of two runs that never raise and process their logs to the end, if the logs agree
on the events of a workspace, the latest memory of every key of the workspace that is not global has
the same value, revision and confidence after both. -/
theorem learning_gated_isolated (py : Builtins) :
    (∀ (r : PipelineRun) (record : MemoryRecord), r.Stores py record →
        ∃ event ∈ (r.finish py).db.events.rows, record.LearntFrom event) ∧
      ∀ (r r' : PipelineRun) (workspaceId : String), r.Processed py → r'.Processed py →
        AgreeOn workspaceId (r.finish py).db.events.rows (r'.finish py).db.events.rows →
        ∀ (scope key : String) (kind : MemoryKind), scope ≠ "global" →
          ((r.finish py).store.latest workspaceId scope key kind).map MemoryRecord.told
            = ((r'.finish py).store.latest workspaceId scope key kind).map MemoryRecord.told := by
  refine ⟨fun r record h => r.stores_learnt h, fun r r' workspaceId h h' hagree scope key kind
    hscope => ?_⟩
  have hpartition : memoryPartition workspaceId scope = workspaceId := if_neg hscope
  unfold MemoryStore.latest
  rw [hpartition, h.current, h'.current, hagree.lessons hscope]

/-- A user names the language for a workspace. -/
def languageRow (workspaceId language : String) : OutboxRow where
  outboxId := 1
  eventId := none
  workspaceId := workspaceId
  eventType := "memory.candidate"
  actor := "user"
  taskId := none
  operationId := none
  objectRefs := []
  payload :=
    [(.str "kind", .str "FACT"), (.str "key", .str "language"), (.str "scope", .str "workspace"),
      (.str "value", .str language)]
  causationId := none
  correlationId := none
  occurredAt := 0
  learningAllowed := true
  dispatched := false

/-- The payload of the example is one that JSON gives back. -/
theorem languageRow_decoded (workspaceId language : String) :
    PyVal.Decoded (languageRow workspaceId language).payload := by
  refine ⟨?_, ?_, ?_⟩
  · simp [languageRow]
  · simp [languageRow]
  · simp [languageRow, PyVal.jsonDumps]

/-- The language is named once. -/
def quietRun : PipelineRun where
  uuid := tallyId
  consumerId := "memory"
  moves := [.log (languageRow "w" "en") "e1" 1, .runOnce 100, .restart]

/-- The same, with other workspaces around it. -/
def busyRun : PipelineRun where
  uuid := tallyId
  consumerId := "memory"
  moves :=
    [.log (languageRow "v" "de") "e1" 1, .runOnce 100, .log (languageRow "w" "en") "e2" 1,
      .log (languageRow "v" "fr") "e3" 1, .runOnce 100]

/-- Whether a call returns. -/
def MemoryM.returns {α : Type} (m : MemoryM α) (s : MemorySys) : Bool :=
  match m s with
  | .ok _ _ => true
  | .error _ _ => false

/-- A call that returns, as evaluated, has a result. -/
theorem MemoryM.exists_ok {α : Type} {m : MemoryM α} {s : MemorySys}
    (h : MemoryM.returns m s = true) : ∃ a t, m s = .ok a t := by
  unfold MemoryM.returns at h
  cases hrun : m s with
  | ok a t => exact ⟨a, t, rfl⟩
  | error e t =>
      rw [hrun] at h
      cases h

/-- The run of the quiet workspace alone went through. -/
theorem quietRun_processed : quietRun.Processed plainBuiltins where
  smooth := ⟨languageRow_decoded "w" "en", MemoryM.exists_ok (by decide +kernel), trivial, trivial⟩
  finished := List.isEmpty_iff.mp (by decide +kernel)

/-- So did the run in which the other workspace is busy. -/
theorem busyRun_processed : busyRun.Processed plainBuiltins where
  smooth := ⟨languageRow_decoded "v" "de", MemoryM.exists_ok (by decide +kernel),
    languageRow_decoded "w" "en", languageRow_decoded "v" "fr",
    MemoryM.exists_ok (by decide +kernel), trivial⟩
  finished := List.isEmpty_iff.mp (by decide +kernel)

/-- The quiet workspace learns the same, whatever goes on in the other. -/
theorem learning_gated_isolated_busy :
    ((quietRun.finish plainBuiltins).store.latest "w" "workspace" "language" .fact).map
        MemoryRecord.told
      = ((busyRun.finish plainBuiltins).store.latest "w" "workspace" "language" .fact).map
        MemoryRecord.told :=
  (learning_gated_isolated plainBuiltins).2 quietRun busyRun "w" quietRun_processed
    busyRun_processed (by rfl) "workspace" "language" .fact (by decide)

end LiandanluNative
