/-
# LiandanluNative.Safety.EventAcks — what an acknowledgement hides.

An event store is a feed: the store's tables or the lists in memory, read through the cursors of the
consumers.  With a store an acknowledgement past the end of the log is refused; the lists in memory
take any number, and a cursor that was set past the end hides the events that are logged up to it.
Nothing else ever hides an event that is logged after an acknowledgement: `acks_skip_nothing_iff`
says that whole runs of both modes are free of it exactly if no sequence number acknowledged in
memory was greater than the number of events logged by then.

A feed has a last number and a position for each reader (`Lib.Feed`).  The calls of the store do one
of two things to it: an acknowledgement turns the position of one reader, and everything else makes
the log grow.  In the library a reader whose position is within the log misses nothing that is
added; here it is shown that the two modes keep their logs as such a feed.
-/
import LiandanluNative.Lib.Feed
import LiandanluNative.Lib.Runs
import LiandanluNative.Runtime.Engine
import LiandanluNative.Safety.ConsumerCursors
import LiandanluNative.Safety.LegacyOutbox

namespace LiandanluNative

open Lib Lib.Proc Lib.Runs

/-! ## The event store as a feed

A feed has a log and a position for each consumer (`Lib.Feed`).  The tables of a store are one, and
so are the lists of an engine without a store.
-/

/-- The tables of the store: the log, the last number given out, and the cursors. -/
def Database.feed (db : Database) : Feed String Event where
  items := db.events.rows
  last := db.eventSequence
  position := db.cursor

/-- The lists in memory give out the numbers from one on, without a gap. -/
def Sys.feed (s : Sys) : Feed String Event :=
  if s.persistent then s.db.feed
  else { items := s.events, last := s.events.length, position := s.localCursor }

/-- What has been logged, in the store or in memory. -/
def Sys.log (s : Sys) : List Event := s.feed.items

/-- The log is in the order of its sequence numbers, and none of them is above the last one given
out. -/
structure Sys.LogInOrder (s : Sys) : Prop where
  stored : s.persistent = true → s.db.LogOrdered
  feed : s.feed.InOrder Event.sequence

/-- No cursor is past the end of the log. -/
def Sys.CursorsWithin (s : Sys) : Prop := ∀ consumerId, s.feed.position consumerId ≤ s.feed.last

/-- With a store the feed is that of its tables, … -/
theorem Sys.feed_of_persistent {s : Sys} (h : s.persistent = true) : s.feed = s.db.feed := by
  rw [Sys.feed, if_pos h]

/-- … and without one that of the lists. -/
theorem Sys.feed_of_memory {s : Sys} (h : s.persistent = false) :
    s.feed = { items := s.events, last := s.events.length, position := s.localCursor } := by
  rw [Sys.feed, if_neg (by simp [h])]

/-- Tables that are in order are a feed in order. -/
theorem Database.LogOrdered.feed {db : Database} (h : db.LogOrdered) :
    db.feed.InOrder Event.sequence := ⟨h.sequences, h.bound⟩

theorem Sys.logInOrder_of_persistent {s : Sys} (h : s.persistent = true) (ho : s.db.LogOrdered) :
    s.LogInOrder := by
  refine ⟨fun _ => ho, ?_⟩
  rw [Sys.feed_of_persistent h]
  exact ho.feed

theorem Sys.logInOrder_of_memory {s : Sys} (h : s.persistent = false)
    (hfeed : s.feed.InOrder Event.sequence) : s.LogInOrder :=
  ⟨fun hpersistent => by simp [h] at hpersistent, hfeed⟩

/-- A new event store has an empty log, and cursors at zero. -/
theorem Sys.logInOrder_fresh (persistent : Bool) (world : WorldModel) :
    Sys.LogInOrder { persistent := persistent, world := world } ∧
    Sys.CursorsWithin { persistent := persistent, world := world } := by
  cases persistent with
  | true =>
      refine ⟨Sys.logInOrder_of_persistent rfl Database.logOrdered_fresh, fun consumerId => ?_⟩
      exact le_rfl
  | false =>
      refine ⟨Sys.logInOrder_of_memory rfl ⟨.nil, fun _ h => ?_⟩, fun consumerId => ?_⟩
      · exact absurd h List.not_mem_nil
      · exact le_rfl

/-- **What a consumer reads is what it has unread**, in either mode. -/
theorem Sys.LogInOrder.readAfter {s : Sys} (h : s.LogInOrder) (consumerId : String) :
    s.readAfter consumerId = s.feed.unread Event.sequence consumerId := by
  unfold Sys.readAfter Feed.unread
  by_cases hpersistent : s.persistent = true
  · rw [if_pos hpersistent, Database.readEventsAfter_eq (h.stored hpersistent),
      Sys.feed_of_persistent hpersistent]
    rfl
  · rw [if_neg hpersistent, Sys.feed_of_memory (by simpa using hpersistent)]

/-! ## The calls -/

/-- A call of the event store. -/
inductive EventCall where
  | enqueueOutbox (fields : EventFields)
  | flushOutbox
  | readAfter (consumerId : String)
  | ack (consumerId : String) (sequence : Int)

/-- The state after a call, however it ends. -/
def EventCall.exec (env : Env) (s : Sys) : EventCall → Sys
  | .enqueueOutbox fields => after (LiandanluNative.enqueueOutbox env fields) s
  | .flushOutbox => after (LiandanluNative.flushOutbox env) s
  | .readAfter _ => s
  | .ack consumerId sequence => after (LiandanluNative.ack env consumerId sequence) s

/-- What a call may do to the feed: an acknowledgement moves a cursor, the others log. -/
def EventCall.Moves (s t : Sys) : EventCall → Prop
  | .ack consumerId _ => s.feed.Turns consumerId t.feed
  | _ => s.feed.Grows Event.sequence t.feed

section

variable {env : Env} {s t : Sys}

/-! ## Logging

What is logged comes after all that is there, in either mode: a row of the table has the next
number, and an item of the list stands last.
-/

/-- The log grows and stays in order, in the mode it is kept in.  What is in the log stays there
under its number. -/
structure Logs (s t : Sys) : Prop where
  mode : t.persistent = s.persistent
  ordered : s.LogInOrder → t.LogInOrder
  grows : s.LogInOrder → s.feed.Grows Event.sequence t.feed

/-- Logging twice is logging. -/
theorem frame_logs : Frame Logs where
  refl s := ⟨rfl, id, fun _ => Feed.frame_grows.refl s.feed⟩
  trans h₁ h₂ :=
    ⟨h₂.mode.trans h₁.mode, h₂.ordered ∘ h₁.ordered,
      fun h => Feed.frame_grows.trans (h₁.grows h) (h₂.grows (h₁.ordered h))⟩

/-- The part of the state the feed is read from. -/
theorem Logs.of_eq (hmode : t.persistent = s.persistent) (hevents : t.events = s.events)
    (hcursors : t.cursors = s.cursors) (hstored : t.db.events = s.db.events)
    (hsequence : t.db.eventSequence = s.db.eventSequence)
    (hconsumers : t.db.consumerCursors = s.db.consumerCursors) : Logs s t := by
  have hlocal : t.localCursor = s.localCursor := by
    funext consumerId
    rw [Sys.localCursor, hcursors, Sys.localCursor]
  have hfeed : t.feed = s.feed := by
    unfold Sys.feed Database.feed
    rw [hmode, hevents, hlocal, hstored, hsequence, funext (Database.cursor_congr hconsumers)]
  refine ⟨hmode, fun h => ⟨fun hpersistent => ?_, hfeed ▸ h.feed⟩, fun _ => ?_⟩
  · exact (h.stored (hmode ▸ hpersistent)).congr hstored hsequence
  · rw [hfeed]
    exact Feed.frame_grows.refl s.feed

/-- Queueing an event for the log leaves the log alone. -/
theorem logs_enqueueOutbox (env : Env) (fields : EventFields) :
    Within Logs (enqueueOutbox env fields) := by
  have hF := frame_logs
  have hread : Within Logs (readClock env) := fun s => Logs.of_eq rfl rfl rfl rfl rfl rfl
  have hid : ∀ kind, Within Logs (newId env kind) := fun kind s => Logs.of_eq rfl rfl rfl rfl rfl rfl
  unfold enqueueOutbox
  refine hF.bind hF.get (fun s => ?_)
  split
  · refine hF.bind (hid _) (fun eventId => hF.bind hread (fun occurredAt => fun t => ?_))
    obtain ⟨n, hn⟩ := after_store env t (enqueueEventOutbox fields eventId occurredAt)
    have hfix : Within (Fixes fun db : Database => (db.events, db.eventSequence, db.consumerCursors))
        (transaction (enqueueEventOutbox fields eventId occurredAt)) :=
      within_transaction (frame_fixes _) (within_transaction (frame_fixes _)
        (within_insertOutbox (frame_fixes _) fields eventId occurredAt (fun _ _ _ => rfl)))
    have hsame := hfix t.db
    simp only [Fixes, Prod.mk.injEq] at hsame
    rw [hn]
    exact Logs.of_eq rfl rfl rfl hsame.1 hsame.2.1 hsame.2.2
  · refine hF.bind (hid _) (fun outboxId => hF.bind (within_modify (fun s => ?_)) (fun _ => hF.pure _))
    exact Logs.of_eq rfl rfl rfl rfl rfl rfl

/-- A delivery uses up one number, and leaves the cursors alone. -/
theorem Database.delivering_feed (db : Database) (row : OutboxRow) (newId : String)
    (observedAt : ℚ) :
    (db.delivering row newId observedAt).eventSequence = db.eventSequence + 1 ∧
    (db.delivering row newId observedAt).consumerCursors = db.consumerCursors := by
  have hupdate : ∀ (d : Database) set, (d.updateOutbox row.outboxId set).eventSequence
        = d.eventSequence ∧
      (d.updateOutbox row.outboxId set).consumerCursors = d.consumerCursors := by
    intro d set
    unfold Database.updateOutbox
    split <;> exact ⟨rfl, rfl⟩
  -- a duplicate uses up its number too
  have hinsert : ∀ (d : Database) eventId, (d.insertEvent row eventId observedAt).eventSequence
        = d.eventSequence + 1 ∧
      (d.insertEvent row eventId observedAt).consumerCursors = d.consumerCursors := by
    intro d eventId
    unfold Database.insertEvent
    split <;> exact ⟨rfl, rfl⟩
  have hnaming : (db.naming row newId).eventSequence = db.eventSequence ∧
      (db.naming row newId).consumerCursors = db.consumerCursors := by
    unfold Database.naming
    split
    · exact hupdate db _
    · exact ⟨rfl, rfl⟩
  unfold Database.delivering
  rw [(hupdate _ _).1, (hupdate _ _).2, (hinsert _ _).1, (hinsert _ _).2, hnaming.1, hnaming.2]
  exact ⟨rfl, rfl⟩

/-- A delivery logs its event, or finds it logged: a row that was delivered before keeps the event
it was given. -/
theorem Database.LogOrdered.grows_delivering {db : Database} (ho : db.LogOrdered) (row : OutboxRow)
    (newId : String) (observedAt : ℚ) :
    (db.delivering row newId observedAt).LogOrdered ∧
    db.feed.Grows Event.sequence (db.delivering row newId observedAt).feed := by
  obtain ⟨hordered, hcases⟩ := ho.delivering row newId observedAt
  obtain ⟨hsequence, hconsumers⟩ := db.delivering_feed row newId observedAt
  refine ⟨hordered, ?_, ?_, funext (Database.cursor_congr hconsumers)⟩
  · rcases hcases with ⟨_, hsame⟩ | ⟨_, hlonger⟩
    · refine ⟨[], ?_, fun _ h => absurd h List.not_mem_nil⟩
      show (db.delivering row newId observedAt).events.rows = db.events.rows ++ []
      rw [hsame, List.append_nil]
    · refine ⟨_, hlonger, fun event hevent => ?_⟩
      rw [List.mem_singleton.mp hevent]
      show db.eventSequence < db.eventSequence + 1
      omega
  · show db.eventSequence ≤ (db.delivering row newId observedAt).eventSequence
    omega

/-- So does a transaction that delivers the rows it has read. -/
theorem Database.LogOrdered.grows_dispatchRows (newId : Int → String) (observedAt : Int → ℚ)
    (rows : List OutboxRow) {db : Database} (ho : db.LogOrdered) :
    (after (transaction (dispatchRows newId observedAt rows)) db).LogOrdered ∧
    db.feed.Grows Event.sequence
      (after (transaction (dispatchRows newId observedAt rows)) db).feed := by
  suffices hrun : ∃ events next, dispatchRows newId observedAt rows db = .ok events next ∧
      next.LogOrdered ∧ db.feed.Grows Event.sequence next.feed by
    obtain ⟨events, next, hok, hnext⟩ := hrun
    have hcommit : transaction (dispatchRows newId observedAt rows) db = .ok events next := by
      simp only [transaction, hok]
    rwa [after_of_ok hcommit]
  induction rows generalizing db with
  | nil => exact ⟨[], db, rfl, ho, Feed.frame_grows.refl _⟩
  | cons row rows ih =>
      obtain ⟨event, hrow⟩ :=
        dispatchRow_eq_ok row (newId row.outboxId) (observedAt row.outboxId) db
      obtain ⟨hordered, hgrows⟩ :=
        ho.grows_delivering row (newId row.outboxId) (observedAt row.outboxId)
      obtain ⟨events, next, hrest, hnext, hlater⟩ := ih hordered
      refine ⟨event :: events, next, ?_, hnext, Feed.frame_grows.trans hgrows hlater⟩
      exact bind_eq_ok.mpr ⟨event, _, hrow, bind_eq_ok.mpr ⟨events, next, hrest, rfl⟩⟩

/-! ## Logging in memory -/

/-- The lists in memory when one item of the outbox has become an event: its number is the length of
the list, and one more. -/
def Sys.emitting (s : Sys) (env : Env) (item : String × EventFields) : Sys :=
  { s with
    clockReads := s.clockReads + 1
    ids := s.ids + 1
    events := s.events ++
      [item.2.event (s.events.length + 1) (env.newId "evt" s.ids) (env.clock s.clockReads)] }

theorem after_emitAll_cons (env : Env) (s : Sys) (item : String × EventFields)
    (pending : List (String × EventFields)) :
    after (emitAll env (item :: pending)) s = after (emitAll env pending) (s.emitting env item) := by
  -- the clock, the id and the list are read and written without fail
  exact after_bind_pure (emitAll env pending) _ (s.emitting env item)

/-- An event gets the number after the last. -/
theorem Sys.LogInOrder.emitting (h : s.LogInOrder) (hmemory : s.persistent = false) (env : Env)
    (item : String × EventFields) :
    (s.emitting env item).LogInOrder ∧
    s.feed.Grows Event.sequence (s.emitting env item).feed := by
  have hfeed := Sys.feed_of_memory hmemory
  have hnext := Sys.feed_of_memory (s := s.emitting env item) hmemory
  have hbound : ∀ event ∈ s.events, event.sequence ≤ s.events.length := by
    have hall := h.feed.bound
    rwa [hfeed] at hall
  have hincreasing : s.events.Pairwise (fun a b => a.sequence < b.sequence) := by
    have hall := h.feed.increasing
    rwa [hfeed] at hall
  have hlength : ((s.emitting env item).events.length : ℤ) = s.events.length + 1 := by
    simp [Sys.emitting]
  refine ⟨Sys.logInOrder_of_memory hmemory ?_, ?_⟩
  · rw [hnext, hlength]
    refine ⟨List.pairwise_append.mpr ⟨hincreasing, List.pairwise_singleton _ _, ?_⟩, ?_⟩
    · intro old hold new hnew
      rw [List.mem_singleton.mp hnew]
      have hle := hbound old hold
      show old.sequence < s.events.length + 1
      omega
    · intro event hevent
      show event.sequence ≤ s.events.length + 1
      rcases List.mem_append.mp hevent with hold | hnew
      · have hle := hbound event hold
        omega
      · rw [List.mem_singleton.mp hnew]
        exact le_rfl
  · rw [hfeed, hnext, hlength]
    refine ⟨⟨_, rfl, fun event hevent => ?_⟩, ?_, rfl⟩
    · rw [List.mem_singleton.mp hevent]
      show (s.events.length : ℤ) < s.events.length + 1
      omega
    · show (s.events.length : ℤ) ≤ s.events.length + 1
      omega

theorem Sys.LogInOrder.emitAll (h : s.LogInOrder) (hmemory : s.persistent = false) (env : Env)
    (pending : List (String × EventFields)) : Logs s (after (emitAll env pending) s) := by
  induction pending generalizing s with
  | nil => exact frame_logs.refl s
  | cons item pending ih =>
      obtain ⟨hordered, hgrows⟩ := h.emitting hmemory env item
      have hemit : Logs s (s.emitting env item) := ⟨rfl, fun _ => hordered, fun _ => hgrows⟩
      rw [after_emitAll_cons]
      exact frame_logs.trans hemit (ih hordered hmemory)

/-- In memory the outbox is taken as a whole, and its items become events one by one. -/
theorem after_flushOutbox_memory (env : Env) (hmemory : s.persistent = false) :
    after (flushOutbox env) s = after (emitAll env s.outbox) { s with outbox := [] } := by
  have hget : (get : M Sys) s = .ok s s := rfl
  unfold flushOutbox
  rw [after_bind_ok hget, if_neg (by simp [hmemory])]
  rfl

/-- **Flushing logs**, in memory item by item, with a store in transactions of which any may be the
last. -/
theorem Sys.LogInOrder.flushOutbox (h : s.LogInOrder) (env : Env) :
    Logs s (after (flushOutbox env) s) := by
  by_cases hpersistent : s.persistent = true
  · have hget : (get : M Sys) s = .ok s s := rfl
    unfold LiandanluNative.flushOutbox dispatchOutbox
    rw [after_bind_ok hget, if_pos hpersistent, after_bind_ok hget]
    dsimp only
    -- the rows take their times and ids, and are delivered in one transaction
    set drawn : Sys := { s with
      clockReads := s.clockReads + (s.db.pendingOutbox 100).length
      ids := s.ids + (s.db.pendingOutbox 100).length } with hdrawn
    have hdraw : ∀ f : Unit → M (List Event),
        after (modify (fun t : Sys => { t with
          clockReads := t.clockReads + (s.db.pendingOutbox 100).length
          ids := t.ids + (s.db.pendingOutbox 100).length }) >>= f) s = after (f ()) drawn :=
      fun f => rfl
    rw [hdraw]
    obtain ⟨n, hn⟩ := after_store env drawn (dispatchRows _ _ (s.db.pendingOutbox 100))
    rw [hn]
    obtain ⟨hordered, hgrows⟩ := (h.stored hpersistent).grows_dispatchRows _ _ _
    refine ⟨rfl, fun _ => Sys.logInOrder_of_persistent hpersistent hordered, fun _ => ?_⟩
    rw [Sys.feed_of_persistent hpersistent, Sys.feed_of_persistent (by exact hpersistent)]
    exact hgrows
  · have hmemory : s.persistent = false := by simpa using hpersistent
    have hempty : Logs s { s with outbox := [] } := Logs.of_eq rfl rfl rfl rfl rfl rfl
    rw [after_flushOutbox_memory env hmemory]
    exact frame_logs.trans hempty ((hempty.ordered h).emitAll hmemory env s.outbox)

/-! ## Acknowledging -/

/-- The store writes the cursor, or leaves everything as it is. -/
theorem Database.after_ack (db : Database) (consumerId : String) (sequence : Int) :
    after (transaction (ackEventConsumer consumerId sequence)) db = db ∨
    (sequence ≤ db.maxSequence ∧
      after (transaction (ackEventConsumer consumerId sequence)) db
        = db.ackWrite consumerId sequence) := by
  unfold transaction ackEventConsumer Database.ackAllowed after
  by_cases hbelow : sequence < db.cursor consumerId
  · simp [hbelow]
  by_cases hbeyond : db.maxSequence < sequence
  · simp [hbelow, hbeyond]
  · exact Or.inr ⟨not_lt.mp hbeyond, by simp [hbelow, hbeyond]⟩

/-- The numbers that were given out include the greatest in the log. -/
theorem Database.LogOrdered.maxSequence_le_last {db : Database} (ho : db.LogOrdered) :
    db.maxSequence ≤ db.eventSequence := by
  unfold Database.maxSequence
  cases hlast : (db.events.rows.map Event.sequence).max? with
  | none => exact ho.nonneg
  | some last =>
      obtain ⟨event, hevent, rfl⟩ := List.mem_map.mp (List.max?_eq_some_iff.mp hlast).1
      exact ho.bound event hevent

/-- The cursor that is written is turned, and no other. -/
theorem Database.turns_ackWrite (db : Database) (consumerId : String) (sequence : Int) :
    db.feed.Turns consumerId (db.ackWrite consumerId sequence).feed := by
  refine ⟨rfl, rfl, fun other hother => ?_⟩
  show (db.ackWrite consumerId sequence).cursor other = db.cursor other
  rw [Database.cursor_ackWrite, if_neg (Ne.symm hother)]

/-- With a store an acknowledgement is its transaction, … -/
theorem after_ack_store (env : Env) (hpersistent : s.persistent = true) (consumerId : String)
    (sequence : Int) :
    ∃ n, after (ack env consumerId sequence) s
      = { s with
          db := after (transaction (ackEventConsumer consumerId sequence)) s.db
          boundaries := n } := by
  have hget : (get : M Sys) s = .ok s s := rfl
  unfold ack
  rw [after_bind_ok hget, if_pos hpersistent]
  exact after_store env s _

/-- … and in memory an assignment, unless the cursor is ahead of it. -/
theorem after_ack_memory (env : Env) (hmemory : s.persistent = false) (consumerId : String)
    (sequence : Int) :
    after (ack env consumerId sequence) s
      = if s.localCursor consumerId ≤ sequence then
          { s with cursors := s.cursors.put (consumerId, sequence) }
        else s := by
  have hget : (get : M Sys) s = .ok s s := rfl
  unfold ack
  rw [after_bind_ok hget, if_neg (by simp [hmemory])]
  split <;> rfl

/-- The cursor in memory that was written, and the others. -/
theorem Sys.localCursor_put (s : Sys) (consumerId : String) (sequence : Int) (other : String) :
    Sys.localCursor { s with cursors := s.cursors.put (consumerId, sequence) } other
      = if consumerId = other then sequence else s.localCursor other := by
  unfold Sys.localCursor
  dsimp only
  rw [Table.get?_put]
  by_cases h : consumerId = other
  · rw [if_pos h, if_pos h]
  · rw [if_neg h, if_neg h]

/-- **An acknowledgement moves the cursor of its consumer, and nothing else.** -/
theorem Sys.LogInOrder.acks (h : s.LogInOrder) (env : Env) (consumerId : String) (sequence : Int) :
    (after (ack env consumerId sequence) s).persistent = s.persistent ∧
    (after (ack env consumerId sequence) s).LogInOrder ∧
    s.feed.Turns consumerId (after (ack env consumerId sequence) s).feed := by
  by_cases hpersistent : s.persistent = true
  · obtain ⟨n, hn⟩ := after_ack_store env hpersistent consumerId sequence
    have hordered := h.stored hpersistent
    rw [hn, Sys.feed_of_persistent hpersistent, Sys.feed_of_persistent (by exact hpersistent)]
    rcases s.db.after_ack consumerId sequence with hsame | ⟨_, hwrite⟩
    · rw [hsame]
      exact ⟨rfl, Sys.logInOrder_of_persistent hpersistent hordered, Feed.Turns.refl _ _⟩
    · rw [hwrite]
      refine ⟨rfl, Sys.logInOrder_of_persistent hpersistent (hordered.congr rfl rfl), ?_⟩
      exact s.db.turns_ackWrite consumerId sequence
  · have hmemory : s.persistent = false := by simpa using hpersistent
    rw [after_ack_memory env hmemory]
    split
    · have hwritten := Sys.feed_of_memory
        (s := { s with cursors := s.cursors.put (consumerId, sequence) }) hmemory
      have hfeed := h.feed
      rw [Sys.feed_of_memory hmemory] at hfeed
      refine ⟨rfl, Sys.logInOrder_of_memory hmemory ?_, ?_⟩
      · rw [hwritten]
        exact ⟨hfeed.increasing, hfeed.bound⟩
      · rw [hwritten, Sys.feed_of_memory hmemory]
        refine ⟨rfl, rfl, fun other hother => ?_⟩
        show Sys.localCursor _ other = s.localCursor other
        rw [Sys.localCursor_put, if_neg (Ne.symm hother)]
    · exact ⟨rfl, h, Feed.Turns.refl _ _⟩

/-- In memory it moves the cursor to any number that is greater, -/
theorem position_ack_memory (env : Env) (hmemory : s.persistent = false) (consumerId : String)
    (sequence : Int) :
    (after (ack env consumerId sequence) s).feed.position consumerId
      = max (s.feed.position consumerId) sequence := by
  rw [after_ack_memory env hmemory, Sys.feed_of_memory hmemory]
  split
  · rename_i hle
    rw [Sys.feed_of_memory (by exact hmemory), max_eq_right hle]
    show Sys.localCursor _ consumerId = sequence
    rw [Sys.localCursor_put, if_pos rfl]
  · rename_i hlt
    rw [Sys.feed_of_memory hmemory, max_eq_left (not_le.mp hlt).le]

/-- and with a store to none past the end: a number above the greatest in the log is refused with an
exception. -/
theorem Sys.LogInOrder.position_ack_store (h : s.LogInOrder) (env : Env)
    (hpersistent : s.persistent = true) (consumerId : String) (sequence : Int)
    (hwithin : s.feed.position consumerId ≤ s.feed.last) :
    (after (ack env consumerId sequence) s).feed.position consumerId ≤ s.feed.last := by
  obtain ⟨n, hn⟩ := after_ack_store env hpersistent consumerId sequence
  rw [hn, Sys.feed_of_persistent (by exact hpersistent)]
  rw [Sys.feed_of_persistent hpersistent] at hwithin ⊢
  rcases s.db.after_ack consumerId sequence with hsame | ⟨hle, hwrite⟩
  · rwa [hsame]
  · rw [hwrite]
    show (s.db.ackWrite consumerId sequence).cursor consumerId ≤ s.db.eventSequence
    rw [Database.cursor_ackWrite, if_pos rfl]
    exact hle.trans (h.stored hpersistent).maxSequence_le_last

/-! ## One call -/

/-- What a call of the event store may do. -/
theorem EventCall.moves (h : s.LogInOrder) (env : Env) (call : EventCall) :
    (call.exec env s).persistent = s.persistent ∧ (call.exec env s).LogInOrder ∧
    call.Moves s (call.exec env s) := by
  have hlogs : ∀ {t : Sys}, Logs s t →
      t.persistent = s.persistent ∧ t.LogInOrder ∧ s.feed.Grows Event.sequence t.feed :=
    fun hst => ⟨hst.mode, hst.ordered h, hst.grows h⟩
  cases call with
  | enqueueOutbox fields => exact hlogs (logs_enqueueOutbox env fields s)
  | flushOutbox => exact hlogs (h.flushOutbox env)
  | readAfter consumerId => exact hlogs (frame_logs.refl s)
  | ack consumerId sequence => exact h.acks env consumerId sequence

/-- The acknowledged number is one that was logged, as the store makes sure.  In memory it may be
any up to the number of events there are. -/
def EventCall.Logged (s : Sys) : EventCall → Prop
  | .ack _ sequence => s.persistent = true ∨ sequence ≤ s.events.length
  | _ => True

/-- A call that acknowledges nothing but what was logged leaves no cursor past the end. -/
theorem EventCall.cursorsWithin (h : s.LogInOrder) (hwithin : s.CursorsWithin) (env : Env)
    {call : EventCall} (hlogged : call.Logged s) : (call.exec env s).CursorsWithin := by
  have hgrows : ∀ {t : Sys}, s.feed.Grows Event.sequence t.feed → t.CursorsWithin := by
    intro t ht consumerId
    rw [ht.position]
    exact (hwithin consumerId).trans ht.last
  obtain ⟨_, _, hmoves⟩ := EventCall.moves h env call
  cases call with
  | enqueueOutbox fields => exact hgrows hmoves
  | flushOutbox => exact hgrows hmoves
  | readAfter consumerId => exact hgrows hmoves
  | ack consumerId sequence =>
      have hturns : s.feed.Turns consumerId
          (after (LiandanluNative.ack env consumerId sequence) s).feed := hmoves
      intro other
      show (after (LiandanluNative.ack env consumerId sequence) s).feed.position other
        ≤ (after (LiandanluNative.ack env consumerId sequence) s).feed.last
      rw [hturns.last]
      by_cases hother : other = consumerId
      · subst hother
        by_cases hpersistent : s.persistent = true
        · exact h.position_ack_store env hpersistent other sequence (hwithin other)
        · have hmemory : s.persistent = false := by simpa using hpersistent
          have hle : sequence ≤ s.events.length := hlogged.resolve_left hpersistent
          have hlast : s.feed.last = s.events.length := by rw [Sys.feed_of_memory hmemory]
          rw [position_ack_memory env hmemory, hlast]
          exact max_le (hlast ▸ hwithin other) hle
      · rw [hturns.others other hother]
        exact hwithin other

/-! ## Runs -/

/-- The log stays in order. -/
theorem Sys.LogInOrder.run (h : s.LogInOrder) (env : Env) (calls : List EventCall) :
    (run (EventCall.exec env) s calls).persistent = s.persistent ∧
    (run (EventCall.exec env) s calls).LogInOrder :=
  run_keeps (I := fun t : Sys => t.persistent = s.persistent ∧ t.LogInOrder)
    (fun t call ht => by
      obtain ⟨hmode, hordered, _⟩ := EventCall.moves ht.2 env call
      exact ⟨hmode.trans ht.1, hordered⟩) calls ⟨rfl, h⟩

/-- What a consumer can count on until its next acknowledgement. -/
theorem Sys.LogInOrder.since (h : s.LogInOrder) (env : Env) (consumerId : String)
    {calls : List EventCall} (hcalls : ∀ sequence, EventCall.ack consumerId sequence ∉ calls) :
    s.feed.Since Event.sequence consumerId (Lib.Runs.run (EventCall.exec env) s calls).feed := by
  have hF : Frame (Feed.Since Event.sequence consumerId) := Feed.frame_since consumerId
  induction calls generalizing s with
  | nil => exact hF.refl _
  | cons call calls ih =>
      obtain ⟨_, hordered, hmoves⟩ := EventCall.moves h env call
      have hrest := ih hordered (fun sequence hmem => hcalls sequence (List.mem_cons_of_mem _ hmem))
      refine hF.trans ?_ hrest
      have hgrows : ∀ {t : Sys}, s.feed.Grows Event.sequence t.feed →
          s.feed.Since Event.sequence consumerId t.feed := fun ht => ht.since consumerId
      cases call with
      | enqueueOutbox fields => exact hgrows hmoves
      | flushOutbox => exact hgrows hmoves
      | readAfter other => exact hgrows hmoves
      | ack other sequence =>
          have hturns : s.feed.Turns other
              (EventCall.exec env s (.ack other sequence)).feed := hmoves
          refine hturns.since fun hsame => ?_
          subst hsame
          exact hcalls sequence List.mem_cons_self

/-- Whatever is called until the consumer acknowledges again, it reads every event that was logged
meanwhile.  This is asked of all continuations, since the event that is skipped may come much later.
-/
def Sys.SkipsNothing (env : Env) (s : Sys) (consumerId : String) : Prop :=
  ∀ between : List EventCall, (∀ sequence, EventCall.ack consumerId sequence ∉ between) →
    ∀ event ∈ (run (EventCall.exec env) s between).log, event ∉ s.log →
      event ∈ (run (EventCall.exec env) s between).readAfter consumerId

/-- What the consumers of a run may rely on, at each of its moments. -/
structure ReadsAll (env : Env) (s : Sys) (calls : List EventCall) : Prop where
  /-- They read in the order of the sequence numbers, -/
  ordered : ∀ before, before <+: calls → ∀ consumerId,
    ((run (EventCall.exec env) s before).readAfter consumerId).Pairwise
      (fun a b => a.sequence < b.sequence)
  /-- what others acknowledge does not change what they read, -/
  apart : ∀ before consumerId sequence, before ++ [.ack consumerId sequence] <+: calls →
    ∀ other, other ≠ consumerId →
      (run (EventCall.exec env) s (before ++ [.ack consumerId sequence])).readAfter other
        = (run (EventCall.exec env) s before).readAfter other
  /-- and what they acknowledge skips nothing that is logged later. -/
  later : ∀ before consumerId sequence, before ++ [.ack consumerId sequence] <+: calls →
    (run (EventCall.exec env) s (before ++ [.ack consumerId sequence])).SkipsNothing env consumerId

/-- A consumer whose cursor is within the log misses nothing. -/
theorem Sys.LogInOrder.skipsNothing (h : s.LogInOrder) (env : Env) {consumerId : String}
    (hwithin : s.feed.position consumerId ≤ s.feed.last) : s.SkipsNothing env consumerId := by
  intro between hbetween event hevent hnew
  rw [(h.run env between).2.readAfter]
  exact (h.since env consumerId hbetween).mem_unread hwithin hevent hnew

/-- Flushing an outbox that is not empty logs an event with the next number. -/
theorem Sys.LogInOrder.exists_next (h : s.LogInOrder) (hmemory : s.persistent = false) (env : Env)
    {item : String × EventFields} {pending : List (String × EventFields)}
    (houtbox : s.outbox = item :: pending) :
    ∃ event ∈ (after (LiandanluNative.flushOutbox env) s).log,
      event.sequence = s.events.length + 1 := by
  have hempty : Logs s { s with outbox := [] } := Logs.of_eq rfl rfl rfl rfl rfl rfl
  obtain ⟨hordered, _⟩ := (hempty.ordered h).emitting hmemory env item
  rw [after_flushOutbox_memory env hmemory, houtbox, after_emitAll_cons]
  obtain ⟨more, hmore, _⟩ :=
    ((hordered.emitAll hmemory env pending).grows hordered).items
  refine ⟨item.2.event (s.events.length + 1) (env.newId "evt" s.ids) (env.clock s.clockReads), ?_,
    rfl⟩
  unfold Sys.log
  rw [hmore, Sys.feed_of_memory (by exact hmemory)]
  exact List.mem_append_left _ (List.mem_append_right _ (List.mem_singleton.mpr rfl))

/-- A consumer whose cursor is past the end misses the event that is logged next, with whatever
number up to the cursor. -/
theorem Sys.LogInOrder.not_skipsNothing (h : s.LogInOrder) (hmemory : s.persistent = false)
    (env : Env) {consumerId : String} (hpast : s.feed.last < s.feed.position consumerId) :
    ¬ s.SkipsNothing env consumerId := by
  intro hskips
  have hlast : s.feed.last = s.events.length := by rw [Sys.feed_of_memory hmemory]
  -- whatever the outbox holds, an event is queued, so that the flush has one to log
  let fields : EventFields := { eventType := "task.created", actor := "engine" }
  have hqueue := logs_enqueueOutbox env fields s
  have hmode : (after (enqueueOutbox env fields) s).persistent = false := hqueue.mode.trans hmemory
  have hwaiting : ∃ item, (after (enqueueOutbox env fields) s).outbox = s.outbox ++ [item] ∧
      (after (enqueueOutbox env fields) s).events = s.events := by
    have hget : (get : M Sys) s = .ok s s := rfl
    unfold enqueueOutbox
    rw [after_bind_ok hget, if_neg (by simp [hmemory])]
    exact ⟨_, rfl, rfl⟩
  obtain ⟨item, houtbox, hevents⟩ := hwaiting
  obtain ⟨first, pending, hfirst⟩ : ∃ first pending, s.outbox ++ [item] = first :: pending := by
    cases s.outbox with
    | nil => exact ⟨item, [], rfl⟩
    | cons first rest => exact ⟨first, rest ++ [item], rfl⟩
  obtain ⟨event, hevent, hnext⟩ :=
    (hqueue.ordered h).exists_next hmode env (houtbox.trans hfirst)
  rw [hevents, ← hlast] at hnext
  have hnew : event ∉ s.log := by
    intro hold
    have hle := h.feed.bound event hold
    omega
  have hcalls : ∀ sequence,
      EventCall.ack consumerId sequence ∉ [EventCall.enqueueOutbox fields, .flushOutbox] := by
    intro sequence
    simp
  have hread := hskips _ hcalls event hevent hnew
  rw [(h.run env _).2.readAfter] at hread
  exact (h.since env consumerId hcalls).not_mem_unread hpast hnext hread

/-- **An acknowledgement skips nothing that is logged later, exactly if it is of what was logged.**
From a log in order with every cursor within it, in either mode and whatever is queued, flushed,
read and acknowledged: the consumers read in order, undisturbed by each other, and nothing logged
after an acknowledgement is skipped, if and only if every number acknowledged in memory is at most
the number of events in the list at that moment. -/
theorem acks_skip_nothing_iff (env : Env) {s : Sys} (h : s.LogInOrder) (hwithin : s.CursorsWithin)
    (calls : List EventCall) :
    ReadsAll env s calls ↔ Each (EventCall.exec env) EventCall.Logged s calls := by
  rw [each_iff_before]
  constructor
  · intro hreads before call hfront
    cases call with
    | ack consumerId sequence =>
        obtain ⟨hmode, hordered⟩ := h.run env before
        by_contra hahead
        -- in memory, and past the end: the consumer misses what is logged next
        obtain ⟨hmemory, hpast⟩ := not_or.mp hahead
        have hmemory : (run (EventCall.exec env) s before).persistent = false := by
          simpa using hmemory
        obtain ⟨hmode', hordered', hturns⟩ := hordered.acks env consumerId sequence
        have hskips := hreads.later before consumerId sequence hfront
        rw [run_append] at hskips
        refine hordered'.not_skipsNothing (hmode'.trans hmemory) env ?_ hskips
        rw [hturns.last, position_ack_memory env hmemory, Sys.feed_of_memory hmemory]
        exact lt_max_of_lt_right (not_le.mp hpast)
    | _ => trivial
  · intro hlogged
    refine ⟨fun before _ consumerId => ?_, fun before consumerId sequence _ other hother => ?_,
      fun before consumerId sequence hfront => ?_⟩
    · have hordered := (h.run env before).2
      rw [hordered.readAfter]
      exact hordered.feed.unread consumerId
    · have hordered := (h.run env before).2
      obtain ⟨_, hordered', hturns⟩ := hordered.acks env consumerId sequence
      rw [run_append]
      show (after (ack env consumerId sequence) (run (EventCall.exec env) s before)).readAfter other
        = _
      rw [hordered'.readAfter, hordered.readAfter]
      exact hturns.unread_other hother
    · have hreached : Each (EventCall.exec env) EventCall.Logged s
          (before ++ [.ack consumerId sequence]) :=
        each_iff_before.mpr fun earlier call hearlier =>
          hlogged earlier call (hearlier.trans hfront)
      have hkept := run_of_each (I := fun t : Sys => t.LogInOrder ∧ t.CursorsWithin)
        (fun t call ht hcall => ⟨(EventCall.moves ht.1 env call).2.1,
          EventCall.cursorsWithin ht.1 ht.2 env hcall⟩) ⟨h, hwithin⟩ hreached
      exact hkept.1.skipsNothing env (hkept.2 consumerId)

end

/-- Two events, acknowledged one by one. -/
def Small.ackedInTurn : List EventCall :=
  [.enqueueOutbox { eventType := "task.created", actor := "engine" }, .flushOutbox, .ack "memory" 1,
    .enqueueOutbox { eventType := "task.state_changed", actor := "runtime" }, .flushOutbox,
    .readAfter "memory", .ack "memory" 2]

theorem acks_skip_nothing_small :
    ReadsAll Small.env { persistent := false } Small.ackedInTurn := by
  obtain ⟨hordered, hwithin⟩ := Sys.logInOrder_fresh false {}
  refine (acks_skip_nothing_iff Small.env hordered hwithin Small.ackedInTurn).mpr ?_
  refine ⟨trivial, trivial, Or.inr ?_, trivial, trivial, trivial, Or.inr ?_, trivial⟩
  · decide +kernel
  · decide +kernel

/-- In memory the fifth event can be acknowledged before there is a first: the first is then logged,
and its consumer does not read it. -/
theorem acks_skip_nothing_fails :
    ¬ ∀ (env : Env) (persistent : Bool) (calls : List EventCall),
      ReadsAll env { persistent := persistent } calls := by
  intro h
  let between : List EventCall :=
    [.enqueueOutbox { eventType := "task.created", actor := "engine" }, .flushOutbox]
  have hskips := (h Small.env false [.ack "memory" 5]).later [] "memory" 5 List.prefix_rfl between
    (fun sequence => by simp [between])
  let acked := run (EventCall.exec Small.env) { persistent := false } [.ack "memory" 5]
  have hlogged : (run (EventCall.exec Small.env) acked between).log.length = 1 := by decide +kernel
  have hread : (run (EventCall.exec Small.env) acked between).readAfter "memory" = [] :=
    List.eq_nil_of_length_eq_zero (by decide +kernel)
  obtain ⟨event, hevent⟩ := List.length_eq_one_iff.mp hlogged
  have hnone := hskips event (hevent ▸ List.mem_singleton.mpr rfl) List.not_mem_nil
  rw [List.nil_append] at hnone
  exact List.not_mem_nil (hread ▸ hnone)

end LiandanluNative
