/-
# LiandanluNative.Safety.RunOnce — how `run_once` works through the log.

A consumer has a place in the log: the events up to its cursor are `done`, the others `unread`.
What `run_once` reads is the front of the unread events, and each of them that is handled and
acknowledged moves the place on by one (`Working.next`).

`Handled` says how one event can be handled by a store that has a database; everything else about a
run is an induction over its events.  The place is what carries it: as the numbers of the log grow,
an acknowledged number is that of the last event done, and the read that follows begins with the
next.  An exception ends the run at its event, with all events before it done and acknowledged.

What comes of it for poisoned events, for the projection of a log and for events that are replayed is
told in `Safety.PoisonEvents`, `Safety.MemoryProjection` and `Safety.MemoryReplays`.

The cases of `Handled` are those of one event: it cannot be read, it was processed before, it has no
valid candidate, or it has one that the database takes or refuses.  Four of them return, and each of
the four leaves a receipt (`Handled.handles`); the other three raise and leave the database as it
was.
-/
import LiandanluNative.Lib.Backlog
import LiandanluNative.MemoryRuns
import LiandanluNative.Safety.ConsumerCursors

namespace LiandanluNative

open Lib (Table)
open Lib.Proc

/-! ## The place of a consumer

The log is cut in two by the cursor.  Reading gives the front of what is unread, and acknowledging
the next event moves the cut by one.
-/

/-- The events up to the cursor, and those after it. -/
structure Database.Place (db : Database) (consumerId : String) (done unread : List Event) : Prop where
  log : db.events.rows = done ++ unread
  done_le : ∀ event ∈ done, event.sequence ≤ db.cursor consumerId
  lt_unread : ∀ event ∈ unread, db.cursor consumerId < event.sequence

namespace Database

variable {db : Database} {consumerId : String} {done unread : List Event}

/-- Every consumer has a place: the numbers of the log grow, so the cursor cuts it in two. -/
theorem exists_place (ho : db.LogOrdered) (consumerId : String) :
    ∃ done, db.Place consumerId done (db.readEventsAfter consumerId) := by
  rw [readEventsAfter_eq ho]
  have hmono : db.events.rows.Pairwise (fun a b =>
      decide (db.cursor consumerId < a.sequence) = true →
        decide (db.cursor consumerId < b.sequence) = true) :=
    ho.sequences.imp fun hab ha => decide_eq_true ((of_decide_eq_true ha).trans hab)
  obtain ⟨done, hlog, hdone⟩ := Lib.exists_append_filter hmono
  refine ⟨done, hlog, fun event hevent => ?_, fun event hevent => ?_⟩
  · exact not_lt.mp (of_decide_eq_false (hdone event hevent))
  · exact of_decide_eq_true (List.mem_filter.mp hevent).2

/-- What is read is what is unread. -/
theorem Place.read (h : db.Place consumerId done unread) (ho : db.LogOrdered) :
    db.readEventsAfter consumerId = unread := by
  have hdone : done.filter (fun event => decide (db.cursor consumerId < event.sequence)) = [] :=
    List.filter_eq_nil_iff.mpr fun event hevent hlt =>
      absurd (of_decide_eq_true hlt) (not_lt.mpr (h.done_le event hevent))
  have hunread : unread.filter (fun event => decide (db.cursor consumerId < event.sequence))
      = unread :=
    List.filter_eq_self.mpr fun event hevent => decide_eq_true (h.lt_unread event hevent)
  rw [readEventsAfter_eq ho, h.log, List.filter_append, hdone, hunread, List.nil_append]

/-- The next event is acknowledged. -/
theorem Place.next {event : Event} {db' : Database} (ho : db.LogOrdered)
    (h : db.Place consumerId done (event :: unread)) (hevents : db'.events = db.events)
    (hcursor : db'.cursor consumerId = event.sequence) :
    db'.Place consumerId (done ++ [event]) unread := by
  have hsorted := ho.sequences
  rw [h.log] at hsorted
  obtain ⟨_, hrest, hcross⟩ := List.pairwise_append.mp hsorted
  refine ⟨by rw [hevents, h.log, List.append_assoc, List.singleton_append], ?_, ?_⟩
  · intro other hother
    rw [hcursor]
    rcases List.mem_append.mp hother with hbefore | hnow
    · exact (hcross other hbefore event List.mem_cons_self).le
    · exact (List.mem_singleton.mp hnow ▸ le_rfl)
  · intro other hother
    rw [hcursor]
    exact (List.pairwise_cons.mp hrest).1 other hother

/-- The next event is in the log, so it can be acknowledged. -/
theorem Place.le_maxSequence {event : Event} (h : db.Place consumerId done (event :: unread)) :
    event.sequence ≤ db.maxSequence := by
  refine Database.le_maxSequence ?_
  rw [h.log]
  exact List.mem_append_right _ List.mem_cons_self

end Database

/-- A slice is the front of the list, for a negative limit too, which counts from the end. -/
theorem exists_sliceTo_append {α : Type} (limit : Int) (xs : List α) :
    ∃ rest, xs = sliceTo limit xs ++ rest := by
  unfold sliceTo
  split
  · exact ⟨_, (List.take_append_drop _ xs).symm⟩
  · exact ⟨_, (List.take_append_drop _ xs).symm⟩

section

variable {uuid : ℕ → String} {py : Builtins}

/-! ## One event -/

/-- The candidate of an event, if it is one that `commit` accepts.  For an invalid one `commit`
returns `None`, and the event is ignored like one that has none. -/
def Event.candidate? (py : Builtins) (event : Event) : Option MemoryCandidate :=
  match candidateFromEvent py event with
  | .ok (some candidate) => if candidate.valid then some candidate else none
  | _ => none

/-- What the candidate of an event has of the event.  A statement counts as the user's only if the
event says so and was the user's. -/
structure CandidateOf (py : Builtins) (event : Event) (candidate : MemoryCandidate) : Prop where
  eventType : event.eventType = "memory.candidate"
  learningAllowed : event.learningAllowed = true
  workspaceId : candidate.workspaceId = event.workspaceId
  value : candidate.value = PyVal.lookup "value" .none event.payload
  sourceEventIds : candidate.sourceEventIds = [event.eventId]
  explicit : candidate.explicitUserStatement = true →
    (PyVal.lookup "explicit_user_statement" (.bool false) event.payload).truthy = true ∧
      event.actor = "user"

/-- What the conversion returns is a candidate of the event. -/
theorem candidateOf_of_ok {event : Event} {candidate : MemoryCandidate}
    (h : candidateFromEvent py event = .ok (some candidate)) : CandidateOf py event candidate := by
  unfold candidateFromEvent at h
  split at h
  · cases h
  rename_i hlearnable
  rw [not_or, ne_eq, not_not, Bool.not_eq_false] at hlearnable
  split at h
  · cases h
  · cases h
  split at h
  · cases h
  cases h
  refine ⟨hlearnable.1, hlearnable.2, rfl, rfl, rfl, fun hexplicit => ?_⟩
  rw [Bool.and_eq_true, decide_eq_true_iff] at hexplicit
  exact hexplicit

/-- How a store with a database can handle an event. -/
inductive Handled (uuid : ℕ → String) (py : Builtins) (event : Event) (s : MemorySys) :
    EStateM.Result Exc MemorySys Bool → Prop
  /-- Its payload raises. -/
  | unreadable (e : Exc) (raised : candidateFromEvent py event = .error e) :
      Handled uuid py event s (.error e s)
  /-- It was processed before. -/
  | replayed (readable : ∃ candidate, candidateFromEvent py event = .ok candidate)
      (receipt : ConsumerReceipt)
      (found : s.db.consumerReceipts.get? (memoryConsumer, event.eventId) = some receipt)
      (committed : Bool) (store : MemoryStore) (ids : ℕ)
      (held : store = s.store ∨
        ∃ record ∈ s.db.memoryRecords.rows, store = s.store.hold record) (later : s.ids ≤ ids) :
      Handled uuid py event s (.ok committed { s with store := store, ids := ids })
  /-- It has no valid candidate. -/
  | ignored (readable : ∃ candidate, candidateFromEvent py event = .ok candidate)
      (absent : s.db.consumerReceipts.get? (memoryConsumer, event.eventId) = none)
      (bindable : Bindable event.columns) (nothing : event.candidate? py = none) :
      Handled uuid py event s (.ok false
        { s with
          db := s.db.advanceConsumer memoryConsumer event.eventId event.sequence "ignored" none })
  /-- It has none, and its id cannot be bound. -/
  | unnamed (absent : s.db.consumerReceipts.get? (memoryConsumer, event.eventId) = none)
      (unbindable : ¬ Bindable event.columns) (nothing : event.candidate? py = none) (e : Exc) :
      Handled uuid py event s (.error e s)
  /-- The database refuses its candidate. -/
  | refused (candidate : MemoryCandidate) (something : event.candidate? py = some candidate)
      (absent : s.db.consumerReceipts.get? (memoryConsumer, event.eventId) = none) (e : Exc)
      (run : processMemoryEvent event (some candidate.partitioned) (newMemoryId uuid s.ids) s.db
        = .error e s.db) :
      Handled uuid py event s (.error e { s with ids := s.ids + 1 })
  /-- Its candidate becomes a record. -/
  | committed (candidate : MemoryCandidate) (something : event.candidate? py = some candidate)
      (absent : s.db.consumerReceipts.get? (memoryConsumer, event.eventId) = none)
      (bindable : candidate.partitioned.Bound event) (record : MemoryRecord) (value : PyVal)
      (built : record = candidate.partitioned.record (newMemoryId uuid s.ids)
        (s.db.latestRecord candidate.partitioned.memoryKey))
      (json : record.value.jsonDumps = some value) (free : s.db.memoryTaken record = false) :
      Handled uuid py event s (.ok true
        { s with
          store := s.store.hold record
          db := Database.advanceConsumer
            { s.db with memoryRecords := s.db.memoryRecords.put { record with value := value } }
            memoryConsumer event.eventId event.sequence "committed" (some record.memoryId)
          ids := s.ids + 1 })

/-- Ignoring an event raises only over its id. -/
theorem processIgnoredEvent_eq (event : Event) {s : MemorySys}
    (hpersistent : s.store.persistent = true) :
    (∃ receipt, s.db.consumerReceipts.get? (memoryConsumer, event.eventId) = some receipt ∧
        processIgnoredEvent event s = .ok () s) ∨
      s.db.consumerReceipts.get? (memoryConsumer, event.eventId) = none ∧
        ((Bindable event.columns ∧ processIgnoredEvent event s = .ok ()
            { s with
              db := s.db.advanceConsumer memoryConsumer event.eventId event.sequence "ignored"
                none }) ∨
          (¬ Bindable event.columns ∧ ∃ e, processIgnoredEvent event s = .error e s)) := by
  cases hreceipt : s.db.consumerReceipts.get? (memoryConsumer, event.eventId) with
  | some receipt =>
      refine Or.inl ⟨receipt, rfl, ?_⟩
      simp only [processIgnoredEvent, hpersistent, if_true, processMemoryEvent_of_receipt hreceipt]
  | none =>
      refine Or.inr ⟨rfl, ?_⟩
      by_cases hevent : Bindable event.columns
      · refine Or.inl ⟨hevent, ?_⟩
        simp only [processIgnoredEvent, hpersistent, if_true, processMemoryEvent, hreceipt,
          binds_of_bindable hevent]
      · obtain ⟨e, he⟩ := binds_of_refused hevent s.db
        refine Or.inr ⟨hevent, e, ?_⟩
        simp only [processIgnoredEvent, hpersistent, if_true, processMemoryEvent, hreceipt, he]

/-- A candidate that an event has was read without an exception and passes `_validate`. -/
theorem candidate?_read {event : Event} {candidate : MemoryCandidate}
    (h : event.candidate? py = some candidate) :
    candidateFromEvent py event = .ok (some candidate) ∧ candidate.valid = true := by
  unfold Event.candidate? at h
  split at h
  · rename_i hread
    split at h
    · rename_i hvalid
      cases h
      exact ⟨hread, hvalid⟩
    · cases h
  · cases h

/-- So an event with a candidate allowed learning, and the candidate is what its payload says. -/
theorem candidate?_eq_some {event : Event} {candidate : MemoryCandidate}
    (h : event.candidate? py = some candidate) :
    CandidateOf py event candidate ∧ candidate.valid = true := by
  obtain ⟨hread, hvalid⟩ := candidate?_read h
  exact ⟨candidateOf_of_ok hread, hvalid⟩

/-- Reading and validating are all there is to having a candidate. -/
theorem candidate?_of_valid {event : Event} {candidate : MemoryCandidate}
    (h : candidateFromEvent py event = .ok (some candidate)) (hvalid : candidate.valid = true) :
    event.candidate? py = some candidate := by
  simp only [Event.candidate?, h, hvalid, if_true]

/-- Ignoring an event without a valid candidate. -/
theorem ignore_handled {event : Event} {s : MemorySys} (hpersistent : s.store.persistent = true)
    (hreadable : ∃ candidate, candidateFromEvent py event = .ok candidate)
    (hnothing : event.candidate? py = none) :
    Handled uuid py event s ((processIgnoredEvent event >>= fun _ => pure false) s) := by
  rcases processIgnoredEvent_eq event hpersistent with
    ⟨receipt, hfound, hrun⟩ | ⟨habsent, ⟨hevent, hrun⟩ | ⟨hevent, e, hrun⟩⟩
  · simp only [bind, EStateM.bind, hrun]
    exact .replayed hreadable receipt hfound false s.store s.ids (Or.inl rfl) le_rfl
  · simp only [bind, EStateM.bind, hrun]
    exact .ignored hreadable habsent hevent hnothing
  · simp only [bind, EStateM.bind, hrun]
    exact .unnamed habsent hevent hnothing e

variable (uuid py) in
/-- **One event.** With a database an event is ignored and noted, committed by the transaction that
looks at its receipt, or stopped by an exception; nothing else can happen to it. -/
theorem handleEvent_cases (event : Event) (s : MemorySys) (hpersistent : s.store.persistent = true) :
    Handled uuid py event s (handleEvent uuid py event s) := by
  unfold handleEvent
  cases hread : candidateFromEvent py event with
  | error e => exact .unreadable e hread
  | ok candidate =>
      cases candidate with
      | none =>
          exact ignore_handled hpersistent ⟨none, hread⟩ (by simp only [Event.candidate?, hread])
      | some candidate =>
          have hreadable : ∃ candidate, candidateFromEvent py event = .ok candidate := ⟨_, hread⟩
          dsimp only
          -- `commit` returns `None` for an invalid candidate, and the event is ignored
          by_cases hvalid : candidate.valid = false
          · have hcommit : commitMemory uuid candidate (some event) s = .ok none s := by
              simp only [commitMemory, if_pos hvalid]
            have hnothing : event.candidate? py = none := by
              simp only [Event.candidate?, hread, hvalid, Bool.false_eq_true, if_false]
            have hhandled : Handled uuid py event s
                ((processIgnoredEvent event >>= fun _ => pure false) s) :=
              ignore_handled hpersistent hreadable hnothing
            simp only [bind, EStateM.bind, hcommit] at hhandled ⊢
            exact hhandled
          have hsomething := candidate?_of_valid hread (Bool.not_eq_false _ ▸ hvalid)
          cases hreceipt : s.db.consumerReceipts.get? (memoryConsumer, event.eventId) with
          | some receipt =>
              have hrun : processMemoryEvent event (some candidate.partitioned)
                  (newMemoryId uuid s.ids) s.db = .ok (s.db.receipted receipt) s.db :=
                processMemoryEvent_of_receipt hreceipt
              -- the receipt answers: with its record, or with nothing
              cases hrecord : s.db.receipted receipt with
              | none =>
                  have hcommit : commitMemory uuid candidate (some event) s
                      = .ok none { s with ids := s.ids + 1 } := by
                    simp only [commitMemory, if_neg hvalid, hpersistent, hrun, hrecord]
                  have hignore : processIgnoredEvent event { s with ids := s.ids + 1 }
                      = .ok () { s with ids := s.ids + 1 } := by
                    simp only [processIgnoredEvent, hpersistent, if_true,
                      processMemoryEvent_of_receipt hreceipt]
                  simp only [bind, EStateM.bind, hcommit, hignore]
                  exact .replayed hreadable receipt hreceipt false s.store (s.ids + 1)
                    (Or.inl rfl) (Nat.le_succ _)
              | some record =>
                  have hcommit : commitMemory uuid candidate (some event) s
                      = .ok (some record)
                        { s with store := s.store.hold record, ids := s.ids + 1 } := by
                    simp only [commitMemory, if_neg hvalid, hpersistent, hrun, hrecord]
                  simp only [bind, EStateM.bind, hcommit]
                  exact .replayed hreadable receipt hreceipt true (s.store.hold record) (s.ids + 1)
                    (Or.inr ⟨record, Database.receipted_mem hrecord, rfl⟩) (Nat.le_succ _)
          | none =>
              have hcases := processMemoryEvent_cases event (some candidate.partitioned)
                (newMemoryId uuid s.ids) s.db
              generalize hrun : processMemoryEvent event (some candidate.partitioned)
                (newMemoryId uuid s.ids) s.db = result at hcases
              cases hcases with
              | replayed receipt found => cases hreceipt.symm.trans found
              | ignored _ hnone => cases hnone
              | refused e =>
                  -- the transaction is rolled back, but an id was drawn
                  have hcommit : commitMemory uuid candidate (some event) s
                      = .error e { s with ids := s.ids + 1 } := by
                    simp only [commitMemory, if_neg hvalid, hpersistent, hrun]
                  simp only [bind, EStateM.bind, hcommit]
                  exact .refused candidate hsomething hreceipt e hrun
              | committed c record value habsent hsome hbindable hbuilt hjson hfree =>
                  cases hsome
                  simp only [bind, EStateM.bind, commitMemory, if_neg hvalid, hpersistent, hrun]
                  exact .committed candidate hsomething habsent hbindable record value hbuilt hjson
                    hfree

/-- What handling an event does to the log, the cursors and the receipts. -/
structure Handles (event : Event) (s t : MemorySys) : Prop where
  events : t.db.events = s.db.events
  eventSequence : t.db.eventSequence = s.db.eventSequence
  persistent : t.store.persistent = true
  consumerId : t.consumerId = s.consumerId
  cursor : ∀ consumerId, t.db.cursor consumerId ≤ max (s.db.cursor consumerId) event.sequence
  receipt : (t.db.consumerReceipts.get? (memoryConsumer, event.eventId)).isSome = true
  receipts : ∀ eventId, eventId ≠ event.eventId →
    t.db.consumerReceipts.get? (memoryConsumer, eventId)
      = s.db.consumerReceipts.get? (memoryConsumer, eventId)

/-- The event gets its receipt, and the cursor of the consumer is at it. -/
theorem handles_advance {event : Event} (hpositive : 0 < event.sequence) {s t : MemorySys}
    {db : Database} {status : String} {resultRef : Option String}
    (hdb : t.db = db.advanceConsumer memoryConsumer event.eventId event.sequence status resultRef)
    (hevents : db.events = s.db.events) (hsequence : db.eventSequence = s.db.eventSequence)
    (hcursors : db.consumerCursors = s.db.consumerCursors)
    (hreceipts : db.consumerReceipts = s.db.consumerReceipts)
    (hpersistent : t.store.persistent = true) (hconsumer : t.consumerId = s.consumerId) :
    Handles event s t where
  events := by rw [hdb]; exact hevents
  eventSequence := by rw [hdb]; exact hsequence
  persistent := hpersistent
  consumerId := hconsumer
  cursor consumerId := by
    rw [hdb, Database.cursor_advanceConsumer hpositive, Database.cursor_congr hcursors]
    split
    · exact le_rfl
    · exact le_max_left _ _
  receipt := by
    rw [hdb]
    exact Table.get?_putNew_self db.consumerReceipts ⟨memoryConsumer, event.eventId, _, _, _⟩
  receipts eventId hne := by
    rw [hdb, ← hreceipts]
    show (db.consumerReceipts.putNew
      ⟨memoryConsumer, event.eventId, event.sequence, status, resultRef⟩).get? _ = _
    cases hget : db.consumerReceipts.get? (memoryConsumer, event.eventId) with
    | some old => rw [Table.putNew_of_get?_some hget]
    | none =>
        rw [Table.putNew_of_get?_none hget]
        exact Table.get?_put_ne _ (fun heq => hne (Prod.mk.inj heq).2.symm)

/-- What one event leaves behind, whichever way it was handled without an exception, is what the
induction over the events goes on from: its receipt, and the log and the cursors as they were. -/
theorem Handled.handles {event : Event} {s t : MemorySys} {committed : Bool}
    (h : Handled uuid py event s (.ok committed t)) (hpositive : 0 < event.sequence)
    (hpersistent : s.store.persistent = true) : Handles event s t := by
  generalize hresult : (EStateM.Result.ok committed t : EStateM.Result Exc MemorySys Bool) = result
    at h
  cases h with
  | unreadable e _ => cases hresult
  | unnamed _ _ _ e => cases hresult
  | refused candidate _ _ e _ => cases hresult
  | replayed _ receipt found committed store ids held _ =>
      cases hresult
      have hsame : store.persistent = true := by
        rcases held with rfl | ⟨record, _, rfl⟩
        · exact hpersistent
        · exact hpersistent
      exact ⟨rfl, rfl, hsame, rfl, fun _ => le_max_left _ _, by rw [found]; rfl, fun _ _ => rfl⟩
  | ignored _ _ _ _ =>
      cases hresult
      exact handles_advance hpositive rfl rfl rfl rfl rfl hpersistent rfl
  | committed candidate _ _ _ record value _ _ _ =>
      cases hresult
      exact handles_advance hpositive rfl rfl rfl rfl rfl hpersistent rfl

/-! ## The events of one call

The loop over what was read, by induction on it, for whatever each processed event moves on by one.
-/

/-- A store with a database, whose consumer has a place in the log. -/
structure MemorySys.Working (s : MemorySys) (done unread : List Event) : Prop where
  ordered : s.db.LogOrdered
  persistent : s.store.persistent = true
  place : s.db.Place s.consumerId done unread

namespace MemorySys.Working

variable {s t : MemorySys} {done unread : List Event} {event : Event} {committed : Bool}

/-- The sequence numbers of the log start after zero, where the cursors do. -/
theorem positive (hw : s.Working done (event :: unread)) : 0 < event.sequence := by
  refine hw.ordered.positive event ?_
  rw [hw.place.log]
  exact List.mem_append_right _ List.mem_cons_self

/-- An event that was handled is acknowledged. -/
theorem processEvent_eq (hw : s.Working done (event :: unread)) {rest : List Event}
    (hrun : handleEvent uuid py event { s with pending := rest } = .ok committed t) :
    processEvent uuid py event rest s = .ok committed
      { t with db := t.db.ackWrite s.consumerId event.sequence } := by
  have hcases := handleEvent_cases uuid py event { s with pending := rest }
    hw.persistent
  rw [hrun] at hcases
  have hhandles := hcases.handles hw.positive hw.persistent
  have hbelow : ¬ event.sequence < t.db.cursor t.consumerId := by
    have hcursor := hhandles.cursor t.consumerId
    have hunread := hw.place.lt_unread event List.mem_cons_self
    rw [hhandles.consumerId] at hcursor ⊢
    rw [not_lt]
    exact hcursor.trans (max_le hunread.le le_rfl)
  have hbeyond : ¬ t.db.maxSequence < event.sequence := by
    have hmax : t.db.maxSequence = s.db.maxSequence := by
      unfold Database.maxSequence
      rw [hhandles.events]
    rw [hmax, not_lt]
    exact hw.place.le_maxSequence
  have hack : ackEvent event.sequence t = .ok ()
      { t with db := t.db.ackWrite t.consumerId event.sequence } := by
    simp only [ackEvent, ackEventConsumer, Database.ackAllowed, if_neg hbelow, if_neg hbeyond]
  have hconsumer : t.consumerId = s.consumerId := hhandles.consumerId
  rw [← hconsumer]
  unfold processEvent
  exact bind_eq_ok.mpr ⟨_, _, rfl, bind_eq_ok.mpr ⟨_, _, hrun, bind_eq_ok.mpr ⟨_, _, hack, rfl⟩⟩⟩

/-- **One event.** An event that is processed was handled, and the place of the consumer is past
it. -/
theorem next (hw : s.Working done (event :: unread)) {rest : List Event}
    (hrun : processEvent uuid py event rest s = .ok committed t) :
    t.Working (done ++ [event]) unread ∧
      ∃ u, Handled uuid py event { s with pending := rest } (.ok committed u) ∧
        t = { u with db := u.db.ackWrite s.consumerId event.sequence } := by
  have hcases := handleEvent_cases uuid py event { s with pending := rest }
    hw.persistent
  cases hhandle : handleEvent uuid py event { s with pending := rest } with
  | error e u =>
      have hraised : (handleEvent uuid py event >>= fun committed =>
          ackEvent event.sequence >>= fun _ => pure committed) { s with pending := rest }
          = .error e u := after_bind_error hhandle
      cases hraised.symm.trans hrun
  | ok committed' u =>
      cases (hw.processEvent_eq hhandle).symm.trans hrun
      rw [hhandle] at hcases
      have hhandles := hcases.handles hw.positive hw.persistent
      refine ⟨⟨?_, hhandles.persistent, ?_⟩, u, hcases, rfl⟩
      · exact hw.ordered.congr hhandles.events hhandles.eventSequence
      · have hconsumer : u.consumerId = s.consumerId := hhandles.consumerId
        rw [hconsumer]
        refine hw.place.next hw.ordered hhandles.events ?_
        exact (Database.cursor_ackWrite s.consumerId event.sequence s.consumerId).trans (if_pos rfl)

end MemorySys.Working

/-- **The rule for the loop of `run_once`**: what every event that is processed moves on by one, a
loop that returns moves on by all of its events. -/
theorem processEvents_rule {I : List Event → List Event → MemorySys → Prop}
    (hstep : ∀ done event unread rest s committed t, I done (event :: unread) s →
      processEvent uuid py event rest s = .ok committed t → I (done ++ [event]) unread t)
    (events : List Event) {done later : List Event} {s t : MemorySys} {counts : ℕ × ℕ}
    (hs : I done (events ++ later) s) (hrun : processEvents uuid py events s = .ok counts t) :
    I (done ++ events) later t := by
  induction events generalizing done s counts with
  | nil =>
      cases hrun
      rw [List.append_nil]
      exact hs
  | cons event events ih =>
      unfold processEvents at hrun
      obtain ⟨committed, u, hevent, hrest⟩ := bind_eq_ok.mp hrun
      obtain ⟨rest, v, hevents, hlast⟩ := bind_eq_ok.mp hrest
      cases hlast
      have hnext := ih (hstep done event (events ++ later) events s committed u hs hevent) hevents
      rw [List.append_assoc, List.singleton_append] at hnext
      exact hnext

/-- What `run_once` comes to. -/
theorem runOnce_eq_ok {s t : MemorySys} {consumerId : String} {limit : Int}
    {result : ℕ × ℕ × ℕ} : runOnce uuid py consumerId limit s = .ok result t ↔
      ∃ counts, processEvents uuid py (s.read consumerId limit).pending (s.read consumerId limit)
          = .ok counts t ∧ result = ((s.read consumerId limit).pending.length, counts) := by
  have hrun : runOnce uuid py consumerId limit s
      = (processEvents uuid py (s.read consumerId limit).pending >>= fun counts =>
          pure ((s.read consumerId limit).pending.length, counts)) (s.read consumerId limit) := rfl
  rw [hrun, bind_eq_ok]
  constructor
  · rintro ⟨counts, u, hevents, hresult⟩
    cases hresult
    exact ⟨counts, hevents, rfl⟩
  · rintro ⟨counts, hevents, rfl⟩
    exact ⟨counts, t, hevents, rfl⟩

end

end LiandanluNative
