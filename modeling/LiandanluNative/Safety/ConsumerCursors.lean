/-
# LiandanluNative.Safety.ConsumerCursors — cursors under concurrent acknowledgements.

`ack_event_consumer` reads the cursor, reads the end of the log, and writes, and other connections
may come in between.  An `AckStage` is how far one connection has come with it; a `ConsumerMove` is
one read or one transaction of some connection.  No cursor ever gets past the log.  Whether cursors
only move forward is decided by the writes alone: the transactional advance takes the greater of the
two positions, the write of an acknowledgement takes its own, however old the reads that allowed it.
-/
import LiandanluNative.Storage.Memory
import LiandanluNative.Storage.Outbox

namespace LiandanluNative

open Lib (Table)
open Lib.Proc

/-! ## Connections

Acknowledging is two reads and a write, and another connection may come in between.
-/

/-- How far a connection has come with an acknowledgement. -/
inductive AckStage where
  | idle
  /-- The cursor was read, and the sequence is not below it. -/
  | begun (consumerId : String) (sequence : Int)
  /-- The end of the log was read, and the sequence is not beyond it. -/
  | allowed (consumerId : String) (sequence : Int)

/-- The connections over one database. -/
structure ConsumerSystem where
  db : Database := {}
  stages : ℕ → AckStage := fun _ => .idle

/-- One read or one transaction of a connection, or the log growing. -/
inductive ConsumerMove where
  /-- A delivery inserts an event. -/
  | log (row : OutboxRow) (eventId : String) (observedAt : ℚ)
  /-- `ack_event_consumer` is called and reads the cursor. -/
  | readCursor (connection : ℕ) (consumerId : String) (sequence : Int)
  /-- It reads the end of the log. -/
  | readEnd (connection : ℕ)
  /-- It writes. -/
  | write (connection : ℕ)
  /-- `process_memory_event` of the event the log holds under the sequence. -/
  | process (sequence : Int) (candidate : Option MemoryCandidate) (memoryId : String)
  /-- The process of a connection ends. -/
  | crash (connection : ℕ)

namespace ConsumerSystem

/-- The connection goes on to another stage. -/
def enter (s : ConsumerSystem) (connection : ℕ) (stage : AckStage) : ConsumerSystem :=
  { s with stages := Function.update s.stages connection stage }

end ConsumerSystem

/-- The state after a move. -/
def ConsumerMove.exec (s : ConsumerSystem) : ConsumerMove → ConsumerSystem
  | .log row eventId observedAt => { s with db := s.db.insertEvent row eventId observedAt }
  | .readCursor connection consumerId sequence =>
      if sequence < s.db.cursor consumerId then s.enter connection .idle
      else s.enter connection (.begun consumerId sequence)
  | .readEnd connection =>
      match s.stages connection with
      | .begun consumerId sequence =>
          if s.db.maxSequence < sequence then s.enter connection .idle
          else s.enter connection (.allowed consumerId sequence)
      | _ => s
  | .write connection =>
      match s.stages connection with
      | .allowed consumerId sequence =>
          { s.enter connection .idle with db := s.db.ackWrite consumerId sequence }
      | _ => s
  | .process sequence candidate memoryId =>
      match s.db.events.get? sequence with
      | none => s
      | some event => { s with db := after (processMemoryEvent event candidate memoryId) s.db }
  | .crash connection => s.enter connection .idle

theorem exec_write {s : ConsumerSystem} {connection : ℕ} {consumerId : String} {sequence : Int}
    (h : s.stages connection = .allowed consumerId sequence) :
    ConsumerMove.exec s (.write connection)
      = { s.enter connection .idle with db := s.db.ackWrite consumerId sequence } := by
  simp only [ConsumerMove.exec, h]

/-- The state after a list of moves. -/
def runMoves (s : ConsumerSystem) (moves : List ConsumerMove) : ConsumerSystem :=
  moves.foldl ConsumerMove.exec s

theorem runMoves_append (s : ConsumerSystem) (before later : List ConsumerMove) :
    runMoves s (before ++ later) = runMoves (runMoves s before) later :=
  List.foldl_append

/-- The three parts of `ack_event_consumer`, one right after the other, are the method. -/
theorem ack_in_one_go (s : ConsumerSystem) (connection : ℕ) (consumerId : String) (sequence : Int) :
    (runMoves s [.readCursor connection consumerId sequence, .readEnd connection,
      .write connection]).db = after (ackEventConsumer consumerId sequence) s.db := by
  simp only [runMoves, List.foldl_cons, List.foldl_nil, ConsumerMove.exec]
  unfold ackEventConsumer Database.ackAllowed after
  by_cases hbelow : sequence < s.db.cursor consumerId
  · simp [hbelow, ConsumerSystem.enter]
  by_cases hbeyond : s.db.maxSequence < sequence
  · simp [hbelow, hbeyond, ConsumerSystem.enter]
  · simp [hbelow, hbeyond, ConsumerSystem.enter]

/-! ## The end of the log -/

namespace Database

variable {db : Database}

theorem le_maxSequence {event : Event} (h : event ∈ db.events.rows) :
    event.sequence ≤ db.maxSequence := by
  have hmem : event.sequence ∈ db.events.rows.map Event.sequence := List.mem_map_of_mem h
  obtain ⟨last, hlast⟩ := Option.isSome_iff_exists.mp (List.isSome_max?_of_mem hmem)
  rw [maxSequence, hlast]
  exact (List.max?_eq_some_iff.mp hlast).2 _ hmem

theorem LogOrdered.maxSequence_nonneg (ho : db.LogOrdered) : 0 ≤ db.maxSequence := by
  unfold maxSequence
  cases hlast : (db.events.rows.map Event.sequence).max? with
  | none => exact le_rfl
  | some last =>
      obtain ⟨event, hevent, rfl⟩ := List.mem_map.mp (List.max?_eq_some_iff.mp hlast).1
      exact (ho.positive event hevent).le

theorem LogOrdered.maxSequence_le {db' : Database} (ho : db'.LogOrdered)
    (hkept : ∀ event ∈ db.events.rows, event ∈ db'.events.rows) :
    db.maxSequence ≤ db'.maxSequence := by
  rw [maxSequence]
  cases hlast : (db.events.rows.map Event.sequence).max? with
  | none => exact ho.maxSequence_nonneg
  | some last =>
      obtain ⟨event, hevent, rfl⟩ := List.mem_map.mp (List.max?_eq_some_iff.mp hlast).1
      exact le_maxSequence (hkept event hevent)

/-- Of a log in order nothing needs sorting. -/
theorem readEventsAfter_eq (ho : db.LogOrdered) (consumerId : String) :
    db.readEventsAfter consumerId = db.events.rows.filter
      (fun event => decide (db.cursor consumerId < event.sequence)) := by
  have hsorted : (db.events.rows.filter
      (fun event => decide (db.cursor consumerId < event.sequence))).Pairwise
        (fun a b => a.sequence ≤ b.sequence) :=
    (ho.sequences.imp le_of_lt).sublist List.filter_sublist
  rw [readEventsAfter, hsorted.insertionSort_eq]

/-! ## What the transactions do to a cursor -/

theorem cursor_congr {db' : Database} (h : db'.consumerCursors = db.consumerCursors)
    (consumerId : String) : db'.cursor consumerId = db.cursor consumerId := by
  unfold cursor
  rw [h]

theorem cursor_ackWrite (consumerId : String) (sequence : Int) (other : String) :
    (db.ackWrite consumerId sequence).cursor other
      = if consumerId = other then sequence else db.cursor other := by
  unfold cursor ackWrite
  rw [Table.get?_put]
  by_cases h : consumerId = other
  · rw [if_pos h, if_pos h]
  · rw [if_neg h, if_neg h]

/-- The transactional advance takes the greater of the two positions. -/
theorem cursor_advanceConsumer {sequence : Int} (hpositive : 0 < sequence)
    (consumerId eventId status : String) (resultRef : Option String) (other : String) :
    (db.advanceConsumer consumerId eventId sequence status resultRef).cursor other
      = if consumerId = other then max (db.cursor other) sequence else db.cursor other := by
  unfold cursor advanceConsumer
  rw [Table.get?_put]
  by_cases h : consumerId = other
  · subst h
    rw [if_pos rfl, if_pos rfl]
    cases db.consumerCursors.get? consumerId with
    | none => exact (max_eq_right hpositive.le).symm
    | some row =>
        dsimp only
        split
        · rename_i hlt
          exact (max_eq_right hlt.le).symm
        · rename_i hle
          exact (max_eq_left (not_lt.mp hle)).symm
  · rw [if_neg h, if_neg h]

/-- `process_memory_event` leaves the cursors alone, or advances the one of the memory consumer. -/
theorem processMemoryEvent_cursor (event : Event) (candidate : Option MemoryCandidate)
    (memoryId : String) (hpositive : 0 < event.sequence) :
    (after (processMemoryEvent event candidate memoryId) db).events = db.events ∧
    (after (processMemoryEvent event candidate memoryId) db).eventSequence = db.eventSequence ∧
    ((∀ other,
        (after (processMemoryEvent event candidate memoryId) db).cursor other = db.cursor other) ∨
      ∀ other, (after (processMemoryEvent event candidate memoryId) db).cursor other
        = if memoryConsumer = other then max (db.cursor other) event.sequence
          else db.cursor other) := by
  have hrun := processMemoryEvent_cases event candidate memoryId db
  unfold after
  generalize processMemoryEvent event candidate memoryId db = result at hrun
  cases hrun with
  | replayed receipt _ => exact ⟨rfl, rfl, Or.inl fun _ => rfl⟩
  | ignored _ _ => exact ⟨rfl, rfl, Or.inr fun other => cursor_advanceConsumer hpositive _ _ _ _ other⟩
  | refused e => exact ⟨rfl, rfl, Or.inl fun _ => rfl⟩
  | committed c record value _ _ _ _ _ _ =>
      refine ⟨rfl, rfl, Or.inr fun other => ?_⟩
      exact (cursor_advanceConsumer hpositive _ _ _ _ other).trans rfl

end Database

/-! ## Timely writes

A write is timely if no transaction has moved the cursor past its sequence since the reads that
allowed it.  Timely or not, it stays within the log; only a timely one is sure to move forward.
-/

/-- The write of an acknowledgement is timely when no transaction has moved the cursor past its
sequence since the reads that allowed it. -/
def ConsumerMove.Timely (s : ConsumerSystem) : ConsumerMove → Prop
  | .write connection => ∀ consumerId sequence,
      s.stages connection = .allowed consumerId sequence → s.db.cursor consumerId ≤ sequence
  | _ => True

/-- Every write of the run is timely. -/
def Timely (s : ConsumerSystem) : List ConsumerMove → Prop
  | [] => True
  | move :: moves => move.Timely s ∧ Timely (move.exec s) moves

theorem timely_append {s : ConsumerSystem} {before later : List ConsumerMove} :
    Timely s (before ++ later) ↔ Timely s before ∧ Timely (runMoves s before) later := by
  induction before generalizing s with
  | nil => exact (and_iff_right trivial).symm
  | cons move before ih =>
      show (_ ∧ Timely (move.exec s) (before ++ later)) ↔
        (_ ∧ Timely (move.exec s) before) ∧ Timely (runMoves (move.exec s) before) later
      rw [ih, and_assoc]

/-- The log is in order, every cursor is within it, and so is every sequence about to be written. -/
structure WithinLog (s : ConsumerSystem) : Prop where
  ordered : s.db.LogOrdered
  cursors : ∀ consumerId, s.db.cursor consumerId ≤ s.db.maxSequence
  allowed : ∀ connection consumerId sequence,
    s.stages connection = .allowed consumerId sequence → sequence ≤ s.db.maxSequence

namespace WithinLog

variable {s : ConsumerSystem}

theorem fresh : WithinLog {} where
  ordered := Database.logOrdered_fresh
  cursors _ := le_rfl
  allowed _ _ _ h := by cases h

/-- A connection goes on, and the database stays as it is. -/
theorem enter (h : WithinLog s) (connection : ℕ) {stage : AckStage}
    (hstage : ∀ consumerId sequence,
      stage = .allowed consumerId sequence → sequence ≤ s.db.maxSequence) :
    WithinLog (s.enter connection stage) where
  ordered := h.ordered
  cursors := h.cursors
  allowed := by
    intro other consumerId sequence hother
    change Function.update s.stages connection stage other = _ at hother
    by_cases hsame : other = connection
    · rw [hsame, Function.update_self] at hother
      exact hstage consumerId sequence hother
    · rw [Function.update_of_ne hsame] at hother
      exact h.allowed other consumerId sequence hother

/-- The database changes: the log keeps its events, and each cursor stays within it. -/
theorem change (h : WithinLog s) {db : Database} (ho : db.LogOrdered)
    (hkept : ∀ event ∈ s.db.events.rows, event ∈ db.events.rows)
    (hcursors : ∀ consumerId, db.cursor consumerId ≤ db.maxSequence) :
    WithinLog { s with db := db } where
  ordered := ho
  cursors := hcursors
  allowed connection consumerId sequence hstage :=
    (h.allowed connection consumerId sequence hstage).trans (ho.maxSequence_le hkept)

end WithinLog

/-- What a move may do: the log grows, and cursors move forward. -/
structure Forward (s t : ConsumerSystem) : Prop where
  events : ∀ event ∈ s.db.events.rows, event ∈ t.db.events.rows
  cursors : ∀ consumerId, s.db.cursor consumerId ≤ t.db.cursor consumerId

theorem frame_forward : Frame Forward where
  refl _ := ⟨fun _ h => h, fun _ => le_rfl⟩
  trans h₁ h₂ := ⟨fun event h => h₂.events event (h₁.events event h),
    fun consumerId => (h₁.cursors consumerId).trans (h₂.cursors consumerId)⟩

/-- Logging an event leaves the cursors where they are. -/
theorem WithinLog.log {s : ConsumerSystem} (h : WithinLog s) (row : OutboxRow)
    (eventId : String) (observedAt : ℚ) :
    WithinLog { s with db := s.db.insertEvent row eventId observedAt } ∧
      Forward s { s with db := s.db.insertEvent row eventId observedAt } := by
  obtain ⟨ho, hgrown⟩ := h.ordered.insertEvent row eventId observedAt
  have hkept : ∀ event ∈ s.db.events.rows,
      event ∈ (s.db.insertEvent row eventId observedAt).events.rows := by
    intro event hevent
    rcases hgrown with ⟨_, hsame⟩ | ⟨_, happend⟩
    · rw [hsame]
      exact hevent
    · rw [happend]
      exact List.mem_append_left _ hevent
  have hcursor : ∀ consumerId,
      (s.db.insertEvent row eventId observedAt).cursor consumerId = s.db.cursor consumerId := by
    intro consumerId
    refine Database.cursor_congr ?_ consumerId
    unfold Database.insertEvent
    split <;> rfl
  refine ⟨h.change ho hkept (fun consumerId => ?_), ⟨hkept, fun consumerId => ?_⟩⟩
  · rw [hcursor]
    exact (h.cursors consumerId).trans (ho.maxSequence_le hkept)
  · exact (hcursor consumerId).ge

/-- Handling an event of the log moves a cursor to it at most. -/
theorem WithinLog.process {s : ConsumerSystem} (h : WithinLog s) {event : Event}
    (hmem : event ∈ s.db.events.rows) (candidate : Option MemoryCandidate) (memoryId : String) :
    WithinLog { s with db := after (processMemoryEvent event candidate memoryId) s.db } ∧
      Forward s { s with db := after (processMemoryEvent event candidate memoryId) s.db } := by
  obtain ⟨hevents, hseq, hcursor⟩ := @Database.processMemoryEvent_cursor s.db event
    candidate memoryId (h.ordered.positive event hmem)
  have ho := h.ordered.congr hevents hseq
  have hkept : ∀ e ∈ s.db.events.rows,
      e ∈ (after (processMemoryEvent event candidate memoryId) s.db).events.rows := by
    intro e he
    rw [hevents]
    exact he
  have hmax := ho.maxSequence_le hkept
  refine ⟨h.change ho hkept (fun other => ?_), ⟨hkept, fun other => ?_⟩⟩
  · have hbound := (h.cursors other).trans hmax
    rcases hcursor with hsame | hadvance
    · rw [hsame other]
      exact hbound
    · rw [hadvance other]
      split
      · exact max_le hbound ((Database.le_maxSequence hmem).trans hmax)
      · exact hbound
  · rcases hcursor with hsame | hadvance
    · exact (hsame other).ge
    · show _ ≤ (after (processMemoryEvent event candidate memoryId) s.db).cursor other
      rw [hadvance other]
      split
      · exact le_max_left _ _
      · exact le_rfl

/-- A consumer that was let through writes its cursor: within the log, whatever it is by then. -/
theorem WithinLog.write {s : ConsumerSystem} (h : WithinLog s) {connection : ℕ}
    {consumerId : String} {sequence : Int}
    (hstage : s.stages connection = .allowed consumerId sequence) :
    WithinLog { s with db := s.db.ackWrite consumerId sequence } := by
  refine h.change (h.ordered.congr rfl rfl) (fun _ he => he) (fun other => ?_)
  rw [Database.cursor_ackWrite]
  split
  · exact h.allowed connection consumerId sequence hstage
  · exact h.cursors other

/-- **One move.** It keeps the cursors within the log, and moves them forward if it is timely. -/
theorem ConsumerMove.exec_within {s : ConsumerSystem} (h : WithinLog s) (move : ConsumerMove) :
    WithinLog (move.exec s) ∧ (move.Timely s → Forward s (move.exec s)) := by
  have hstill := frame_forward.refl s
  -- a connection that becomes idle has no sequence in hand
  have hidle : ∀ connection, WithinLog (s.enter connection .idle) ∧
      Forward s (s.enter connection .idle) := fun connection =>
    ⟨h.enter connection (fun _ _ hidle => by cases hidle), ⟨hstill.events, hstill.cursors⟩⟩
  cases move with
  | log row eventId observedAt =>
      obtain ⟨hwithin, hforward⟩ := h.log row eventId observedAt
      exact ⟨hwithin, fun _ => hforward⟩
  | readCursor connection consumerId sequence =>
      simp only [ConsumerMove.exec]
      split
      · exact ⟨(hidle connection).1, fun _ => (hidle connection).2⟩
      · refine ⟨h.enter connection (fun _ _ hstage => by cases hstage), fun _ => ?_⟩
        exact ⟨hstill.events, hstill.cursors⟩
  | readEnd connection =>
      simp only [ConsumerMove.exec]
      split
      · rename_i consumerId sequence hstage
        split
        · exact ⟨(hidle connection).1, fun _ => (hidle connection).2⟩
        · rename_i hwithin
          refine ⟨h.enter connection ?_, fun _ => ⟨hstill.events, hstill.cursors⟩⟩
          rintro _ _ ⟨⟩
          exact not_lt.mp hwithin
      · exact ⟨h, fun _ => hstill⟩
  | write connection =>
      simp only [ConsumerMove.exec]
      split
      · rename_i consumerId sequence hstage
        -- a write is the one move that may set a cursor back, unless it is timely
        refine ⟨(h.write hstage).enter connection (fun _ _ hidle => by cases hidle), ?_⟩
        intro htimely
        refine ⟨hstill.events, fun other => ?_⟩
        show s.db.cursor other ≤ (s.db.ackWrite consumerId sequence).cursor other
        rw [Database.cursor_ackWrite]
        split
        · rename_i hsame
          rw [← hsame]
          exact htimely consumerId sequence hstage
        · exact le_rfl
      · exact ⟨h, fun _ => hstill⟩
  | process sequence candidate memoryId =>
      simp only [ConsumerMove.exec]
      cases hevent : s.db.events.get? sequence with
      | none => exact ⟨h, fun _ => hstill⟩
      | some event =>
          obtain ⟨hwithin, hforward⟩ := h.process (Table.mem_of_get? hevent) candidate memoryId
          exact ⟨hwithin, fun _ => hforward⟩
  | crash connection => exact ⟨(hidle connection).1, fun _ => (hidle connection).2⟩

theorem runMoves_within {s : ConsumerSystem} (h : WithinLog s) (moves : List ConsumerMove) :
    WithinLog (runMoves s moves) ∧ (Timely s moves → Forward s (runMoves s moves)) := by
  induction moves generalizing s with
  | nil => exact ⟨h, fun _ => frame_forward.refl s⟩
  | cons move moves ih =>
      obtain ⟨hmove, hforward⟩ := move.exec_within h
      obtain ⟨hrest, hlater⟩ := ih hmove
      refine ⟨hrest, fun htimely => ?_⟩
      exact frame_forward.trans (hforward htimely.1) (hlater htimely.2)

/-! ## Cursors only move forward -/

/-- From each moment of a run on, the cursor of the consumer never decreases, never exceeds the
greatest event sequence, and no event at or below it is read again. -/
def CursorAdvances (consumerId : String) (moves : List ConsumerMove) : Prop :=
  ∀ before later : List ConsumerMove, before <+: later → later <+: moves →
    (runMoves {} before).db.cursor consumerId ≤ (runMoves {} later).db.cursor consumerId ∧
    (runMoves {} later).db.cursor consumerId ≤ (runMoves {} later).db.maxSequence ∧
    ∀ event ∈ (runMoves {} later).db.readEventsAfter consumerId,
      (runMoves {} before).db.cursor consumerId < event.sequence

theorem mem_readEventsAfter {db : Database} {consumerId : String} {event : Event}
    (h : event ∈ db.readEventsAfter consumerId) : db.cursor consumerId < event.sequence := by
  rw [Database.readEventsAfter, List.mem_insertionSort, List.mem_filter] at h
  exact of_decide_eq_true h.2

/-- **Cursors move forward in a run exactly if its writes are timely.**  Whatever the interleaving
of acknowledgements, memory transactions and deliveries over any number of connections, every
consumer's cursor never decreases, stays within the log, and hides what was acknowledged, if and
only if each write of an acknowledgement finds the cursor not past its sequence. -/
theorem cursors_advance_iff (moves : List ConsumerMove) :
    (∀ consumerId, CursorAdvances consumerId moves) ↔ Timely {} moves := by
  constructor
  · intro hadvances
    -- a write that is late takes its cursor back
    have hmoves : ∀ before move later, moves = before ++ move :: later →
        move.Timely (runMoves {} before) := by
      rintro before move later rfl
      cases move with
      | write connection =>
          intro consumerId sequence hstage
          have hstep := (hadvances consumerId before (before ++ [.write connection])
            (List.prefix_append _ _) (by simp)).1
          rw [runMoves_append] at hstep
          change _ ≤ (ConsumerMove.exec (runMoves {} before) (.write connection)).db.cursor consumerId
            at hstep
          rw [exec_write hstage] at hstep
          change _ ≤ ((runMoves {} before).db.ackWrite consumerId sequence).cursor consumerId at hstep
          rwa [Database.cursor_ackWrite, if_pos rfl] at hstep
      | _ => trivial
    suffices hall : ∀ before later, moves = before ++ later → Timely {} before by
      exact hall moves [] (List.append_nil _).symm
    intro before
    induction before using List.reverseRecOn with
    | nil => exact fun _ _ => trivial
    | append_singleton before move ih =>
        intro later hsplit
        rw [List.append_assoc] at hsplit
        exact timely_append.mpr ⟨ih _ hsplit, hmoves before move later hsplit, trivial⟩
  · rintro htimely consumerId before later ⟨between, rfl⟩ ⟨rest, rfl⟩
    have hbetween := (timely_append.mp (timely_append.mp htimely).1).2
    have hbefore := (runMoves_within WithinLog.fresh before).1
    obtain ⟨hlater, hforward⟩ := runMoves_within hbefore between
    rw [runMoves_append]
    have hle := (hforward hbetween).cursors consumerId
    refine ⟨hle, hlater.cursors consumerId, fun event hevent => ?_⟩
    exact hle.trans_lt (mem_readEventsAfter hevent)

/-- A row for the counterexample to deliver. -/
def noticeRow : OutboxRow :=
  EventFields.row { eventType := "task.created", actor := "engine" } 1 "evt" 1 []

/-- Two connections acknowledge two events of one consumer; the one that read first writes last, and
the cursor goes back. -/
theorem cursors_advance_fails :
    ¬ ∀ (moves : List ConsumerMove) (consumerId : String), CursorAdvances consumerId moves := by
  intro h
  have hlate := (h
    ([.log noticeRow "e1" 1, .log noticeRow "e2" 1, .readCursor 0 "ui" 1, .readEnd 0,
      .readCursor 1 "ui" 2, .readEnd 1, .write 1] ++ [.write 0]) "ui" _ _
    (List.prefix_append _ _) List.prefix_rfl).1
  revert hlate
  decide +kernel

end LiandanluNative
