/-
# LiandanluNative.Safety.EventModes — one event store, kept in memory or in a database.

The tests of the program run on the lists in memory, and an engine on the tables of a store.  Both
are one ledger to those who post to it and read it: `event_stores_refine` says so of any calls for
the lists, and for the tables of calls which post what JSON gives back, flush no more than a hundred
waiting events at a time and acknowledge nothing beyond the log.  The texts of these must be ones
that SQLite can encode, those of events and the names of consumers: it raises where the lists take
any.  Ids and times are not compared: a list dates an event when it is flushed, a store when it is
posted.

The ledger is that of `Lib.Ledger`: what was logged, what waits, and how far each reader got. 
Either mode keeps it in its own way (`KeptInMemory`, `KeptInStore`): the lists have the waiting
events in the outbox, and the tables have them behind the delivered ones, with their numbers given
out later.
-/
import LiandanluNative.Lib.Ledger
import LiandanluNative.Safety.EventAcks
import LiandanluNative.Safety.OutboxDrains

namespace LiandanluNative

open Lib Lib.Proc Lib.Runs

/-- The consumer `all_events` reads as; its name is in the text of the method. -/
def auditConsumer : String := "__audit_no_ack__"

/-- `all_events` -/
def Sys.allEvents (s : Sys) : List Event :=
  if s.persistent then s.db.readEventsAfter auditConsumer else s.events

/-! ## The ledger of an event store

What a call is to the ledger, and what a store asks of a call for it to be that.
-/

/-- A message, whatever its id is. -/
def Message.anonymous (message : Message) : Message := { message with eventId := none }

/-- What a call posts. -/
def EventFields.anonymous (fields : EventFields) : Message :=
  (fields.message "" fields.payload).anonymous

def Event.anonymous (event : Event) : Message := event.message.anonymous

/-- An event as a reader compares it: its number, and the message without its id. -/
def Event.entry (event : Event) : ℤ × Message := (event.sequence, event.anonymous)

/-- What a call is to the ledger. -/
def EventCall.apply (ledger : Ledger String Message) : EventCall → Ledger String Message
  | .enqueueOutbox fields => ledger.post fields.anonymous
  | .flushOutbox => ledger.flush
  | .readAfter _ => ledger
  | .ack consumerId sequence => ledger.acknowledge consumerId sequence

/-- The texts of an event that are not written in JSON. -/
def EventFields.columns (fields : EventFields) : List Column :=
  [.text fields.workspaceId, .text fields.eventType, .text fields.actor]
    ++ (fields.taskId.toList ++ fields.operationId.toList ++ fields.causationId.toList
      ++ fields.correlationId.toList).map .text

/-- What a store asks of a call. -/
def EventCall.Fits (ledger : Ledger String Message) : EventCall → Prop
  | .enqueueOutbox fields =>
      Bindable fields.columns ∧ PyVal.jsonDumpsItems fields.payload = some fields.payload
  | .flushOutbox => ledger.waiting.length ≤ 100
  | .readAfter consumerId => Bindable [.text consumerId]
  | .ack consumerId sequence =>
      Bindable [.text consumerId, .int sequence] ∧ sequence ≤ ledger.log.length

/-- What a store asks of the ids that are drawn, and of the name it is read by. -/
structure StoredUnder (env : Env) (consumerId : String) : Prop where
  drawn : Function.Injective env.uuid
  encoded : ∀ n, encodable (env.uuid n) = true
  reader : Bindable [.text consumerId]

/-! ## The lists

Without a store nothing is refused, so every call is one on the ledger.
-/

/-- The lists in memory keep the ledger: the outbox has what waits, and the feed what a reader is
shown. -/
structure KeptInMemory (s : Sys) (ledger : Ledger String Message) : Prop where
  mode : s.persistent = false
  ordered : s.LogInOrder
  waiting : s.outbox.map (fun item => item.2.anonymous) = ledger.waiting
  shows : Shows Event.sequence Event.anonymous s.feed ledger

namespace KeptInMemory

variable {env : Env} {s : Sys} {ledger : Ledger String Message}

/-- **Each item** of the outbox is logged with the next number. -/
theorem emitAll (env : Env) (pending : List (String × EventFields)) :
    ∀ {s : Sys} {ledger : Ledger String Message}, s.persistent = false →
      Shows Event.sequence Event.anonymous s.feed ledger →
      Shows Event.sequence Event.anonymous (after (LiandanluNative.emitAll env pending) s).feed
        { ledger with log := ledger.log ++ pending.map (fun item => item.2.anonymous) } ∧
        (after (LiandanluNative.emitAll env pending) s).outbox = s.outbox := by
  induction pending with
  | nil =>
      intro s ledger _ h
      rw [List.map_nil, List.append_nil]
      exact ⟨h, rfl⟩
  | cons item pending ih =>
      intro s ledger hmode h
      have hfeed := Sys.feed_of_memory hmode
      have hmode' : (s.emitting env item).persistent = false := hmode
      have hnext := Sys.feed_of_memory hmode'
      have hone : Shows Event.sequence Event.anonymous (s.emitting env item).feed
          { ledger with log := ledger.log ++ [item.2.anonymous] } := by
        refine h.concat (e := item.2.event (s.events.length + 1) (env.newId "evt" s.ids)
          (env.clock s.clockReads)) ?_ ?_ ?_ ?_
        · rw [hnext, hfeed]
          rfl
        · rw [hfeed]
          rfl
        · rw [hnext, hfeed]
          simp [Sys.emitting]
        · rw [hnext, hfeed]
          rfl
      obtain ⟨hrest, houtbox⟩ := ih hmode' hone
      rw [after_emitAll_cons]
      rw [List.append_assoc, List.singleton_append] at hrest
      exact ⟨hrest, houtbox⟩

theorem after_enqueueOutbox_memory (env : Env) (hmode : s.persistent = false)
    (fields : EventFields) :
    after (enqueueOutbox env fields) s
      = { s with
          ids := s.ids + 1
          outbox := s.outbox ++ [(env.newId "outbox" s.ids, fields)] } := by
  have hget : (get : M Sys) s = .ok s s := rfl
  unfold enqueueOutbox
  rw [after_bind_ok hget, if_neg (by simp [hmode])]
  rfl

/-- An event is queued behind those that wait. -/
theorem enqueueOutbox (h : KeptInMemory s ledger) (env : Env) (fields : EventFields) :
    KeptInMemory (after (LiandanluNative.enqueueOutbox env fields) s)
      (ledger.post fields.anonymous) := by
  have hordered := (logs_enqueueOutbox env fields s).ordered h.ordered
  have hshows := h.shows.posted fields.anonymous
  have hafter := after_enqueueOutbox_memory env h.mode fields
  rw [Sys.feed_of_memory h.mode] at hshows
  rw [hafter] at hordered ⊢
  refine ⟨h.mode, hordered, ?_, ?_⟩
  · rw [List.map_append, h.waiting]
    rfl
  · rw [Sys.feed_of_memory (by exact h.mode)]
    exact hshows

/-- What waits is logged. -/
theorem flushOutbox (h : KeptInMemory s ledger) (env : Env) :
    KeptInMemory (after (LiandanluNative.flushOutbox env) s) ledger.flush := by
  have hlogs := h.ordered.flushOutbox env
  have hshows : Shows Event.sequence Event.anonymous (Sys.feed { s with outbox := [] }) ledger := by
    rw [Sys.feed_of_memory (by exact h.mode)]
    exact Sys.feed_of_memory h.mode ▸ h.shows
  obtain ⟨hlogged, houtbox⟩ := emitAll env s.outbox (s := { s with outbox := [] }) h.mode hshows
  rw [h.waiting] at hlogged
  refine ⟨hlogs.mode.trans h.mode, hlogs.ordered h.ordered, ?_, ?_⟩
  · rw [after_flushOutbox_memory env h.mode, houtbox]
    rfl
  · rw [after_flushOutbox_memory env h.mode]
    exact ⟨hlogged.items, hlogged.last, hlogged.position⟩

/-- A cursor moves on. -/
theorem ack (h : KeptInMemory s ledger) (env : Env) (consumerId : String) (sequence : Int) :
    KeptInMemory (after (LiandanluNative.ack env consumerId sequence) s)
      (ledger.acknowledge consumerId sequence) := by
  obtain ⟨hmode, hordered, hturns⟩ := h.ordered.acks env consumerId sequence
  have hmoved := position_ack_memory env h.mode consumerId sequence
  refine ⟨hmode.trans h.mode, hordered, ?_, h.shows.acknowledged hturns hmoved⟩
  rw [after_ack_memory env h.mode]
  split <;> exact h.waiting

/-- **Every call** on the lists is one on the ledger. -/
theorem exec (h : KeptInMemory s ledger) (env : Env) (call : EventCall) :
    KeptInMemory (call.exec env s) (call.apply ledger) := by
  cases call with
  | enqueueOutbox fields => exact h.enqueueOutbox env fields
  | flushOutbox => exact h.flushOutbox env
  | readAfter consumerId => exact h
  | ack consumerId sequence => exact h.ack env consumerId sequence

/-- A consumer reads what the ledger has for it. -/
theorem reads (h : KeptInMemory s ledger) (consumerId : String) :
    (s.readAfter consumerId).map Event.entry = ledger.unread consumerId := by
  rw [h.ordered.readAfter]
  exact h.shows.unread consumerId

/-- **Every run** from new lists is one on a new ledger. -/
theorem run (env : Env) (calls : List EventCall) :
    KeptInMemory (Runs.run (EventCall.exec env) { persistent := false } calls)
      (Runs.run EventCall.apply {} calls) := by
  have hfresh : KeptInMemory { persistent := false } {} :=
    ⟨rfl, (Sys.logInOrder_fresh false {}).1, rfl, ⟨rfl, rfl, rfl⟩⟩
  exact run_related (C := fun _ _ => True) (fun s ledger call h _ => h.exec env call) hfresh
    (each_iff_forall.mpr (fun _ _ => trivial))

end KeptInMemory

/-! ## The store

With a store a call has to fit: what cannot be written raises, and no more than a hundred events are
delivered at a time.
-/

/-- The tables keep the ledger: the outbox has what is logged and then what waits. -/
structure KeptInStore (env : Env) (s : Sys) (ledger : Ledger String Message) : Prop where
  mode : s.persistent = true
  posted : Posted env s.ids s.db
  messages : s.db.messages.map Message.anonymous = ledger.log ++ ledger.waiting
  shows : Shows Event.sequence Event.anonymous s.db.feed ledger

namespace Delivered

variable {db : Database} {done todo : List OutboxRow} {ledger : Ledger String Message}

/-- The first row that waits is logged with the next number. -/
theorem shown_next {next : OutboxRow} (hd : Delivered db done (next :: todo))
    (hshows : Shows Event.sequence Event.anonymous db.feed ledger) (newId : String)
    (observedAt : ℚ) :
    ∃ event db', LiandanluNative.dispatchRow next newId observedAt db = .ok event db' ∧
      Delivered db' (done ++ [{ next with dispatched := true }]) todo ∧
      Shows Event.sequence Event.anonymous db'.feed
        { ledger with log := ledger.log ++ [next.message.anonymous] } := by
  have hpristine : next.pristine = next :=
    OutboxRow.pristine_of_unsent (hd.unsent next List.mem_cons_self)
  obtain ⟨eventId, hne, hid⟩ := hd.named next (List.mem_append_right _ List.mem_cons_self)
  obtain ⟨_, ⟨event, hevent⟩, hd'⟩ := hd.deliver_next hpristine hid observedAt
  refine ⟨event, _, by rw [dispatchRow_run hne hid, hevent], hd', ?_⟩
  obtain ⟨_, hdeliver⟩ := hd.deliver_of_next (hpristine.symm ▸ hid) observedAt
  rw [hpristine] at hdeliver
  rw [hdeliver]
  let logged := next.event (db.eventSequence + 1) eventId observedAt
  have hcontent : logged.anonymous = next.message.anonymous :=
    congrArg Message.anonymous (OutboxRow.message_event hid _ _)
  rw [← hcontent]
  exact hshows.concat (hd.ordered.put_rows rfl) rfl rfl rfl

/-- **All rows that were read** are logged, in the order they wait in. -/
theorem shown_first {first : List OutboxRow} (hd : Delivered db done (first ++ todo))
    (hshows : Shows Event.sequence Event.anonymous db.feed ledger) (newId : Int → String)
    (observedAt : Int → ℚ) :
    ∃ events db', LiandanluNative.dispatchRows newId observedAt first db = .ok events db' ∧
      Shows Event.sequence Event.anonymous db'.feed
        { ledger with log := ledger.log ++ first.map (fun row => row.message.anonymous) } := by
  have hlogged : done.map (fun row => row.message.anonymous) = ledger.log := by
    rw [← hshows.map_shown]
    have hlog := congrArg (List.map Message.anonymous) hd.log
    rw [List.map_map, List.map_map] at hlog
    exact hlog.symm
  obtain ⟨events, db', hrun, _, hall⟩ :=
    Delivered.dispatch_first (I := fun db' done' => Shows Event.sequence Event.anonymous db'.feed
        { ledger with log := done'.map (fun row => row.message.anonymous) })
      (fun hnext hshown newId observedAt => by
        rw [List.map_append]
        exact hnext.shown_next hshown newId observedAt) newId observedAt hd (hlogged ▸ hshows)
  refine ⟨events, db', hrun, ?_⟩
  rw [List.map_append, List.map_map, hlogged] at hall
  exact hall

end Delivered

/-- An acknowledgement within the log is never refused. -/
theorem Database.cursor_ack (db : Database) (consumerId : String) {sequence : Int}
    (hlogged : sequence ≤ db.maxSequence) :
    (after (transaction (ackEventConsumer consumerId sequence)) db).cursor consumerId
      = max (db.cursor consumerId) sequence := by
  unfold transaction ackEventConsumer Database.ackAllowed after
  by_cases hbelow : sequence < db.cursor consumerId
  · simp [hbelow, hbelow.le]
  · simp [hbelow, not_lt.mpr hlogged, Database.cursor_ackWrite, not_lt.mp hbelow]

namespace KeptInStore

variable {env : Env} {s : Sys} {ledger : Ledger String Message}

/-- The rows that wait have what waits. -/
theorem waiting (h : KeptInStore env s ledger) :
    ∃ done todo, Delivered s.db done todo ∧
      todo.map (fun row => row.message.anonymous) = ledger.waiting := by
  obtain ⟨done, todo, hd⟩ := h.posted.split
  refine ⟨done, todo, hd, ?_⟩
  have hlogged : (done.map OutboxRow.message).map Message.anonymous = ledger.log := by
    rw [← hd.log, List.map_map]
    exact h.shows.map_shown
  have hall := h.messages
  rw [Database.messages, hd.rows, List.map_append, List.map_append, hlogged, List.map_map] at hall
  exact List.append_cancel_left hall

/-- The greatest number in the log is that of its last event. -/
theorem maxSequence (h : KeptInStore env s ledger) : s.db.maxSequence = ledger.log.length := by
  obtain ⟨done, todo, hd⟩ := h.posted.split
  refine le_antisymm (h.shows.last ▸ hd.ordered.maxSequence_le_last) ?_
  rcases h.shows.exists_last with hempty | ⟨event, hevent, hlast⟩
  · rw [hempty]
    exact hd.ordered.maxSequence_nonneg
  · exact hlast ▸ Database.le_maxSequence hevent

/-- An event is queued behind those that wait. -/
theorem enqueueOutbox (h : KeptInStore env s ledger) (hinj : Function.Injective env.uuid)
    {fields : EventFields} (hfits : PyVal.jsonDumpsItems fields.payload = some fields.payload) :
    KeptInStore env (after (LiandanluNative.enqueueOutbox env fields) s)
      (ledger.post fields.anonymous) := by
  obtain ⟨hposted, hmessages⟩ :=
    h.posted.withEvent hinj fields (env.clock s.clockReads) fields.payload
  have hinsert := insertOutbox_eq fields (env.newId "evt" s.ids) (env.clock s.clockReads) s.db hfits
  have hget : (get : M Sys) s = .ok s s := rfl
  let drawn : Sys := { s with ids := s.ids + 1, clockReads := s.clockReads + 1 }
  have hdraw : after (LiandanluNative.enqueueOutbox env fields) s
      = after (store env (enqueueEventOutbox fields (env.newId "evt" s.ids)
        (env.clock s.clockReads))) drawn := by
    unfold LiandanluNative.enqueueOutbox
    rw [after_bind_ok hget, if_pos h.mode]
    rfl
  obtain ⟨n, hn⟩ := after_store env drawn
    (enqueueEventOutbox fields (env.newId "evt" s.ids) (env.clock s.clockReads))
  have hcommit : transaction (enqueueEventOutbox fields (env.newId "evt" s.ids)
      (env.clock s.clockReads)) s.db = _ := transaction_of_ok (transaction_of_ok hinsert)
  rw [hdraw, hn, after_of_ok hcommit]
  refine ⟨h.mode, hposted, ?_, h.shows.posted fields.anonymous⟩
  rw [hmessages, List.map_append, h.messages, List.append_assoc]
  rfl

/-- What waits is logged, if it is no more than is read. -/
theorem flushOutbox (h : KeptInStore env s ledger) (hfits : ledger.waiting.length ≤ 100) :
    KeptInStore env (after (LiandanluNative.flushOutbox env) s) ledger.flush := by
  obtain ⟨done, todo, hd, hwaiting⟩ := h.waiting
  have hread : s.db.pendingOutbox 100 = todo := by
    rw [hd.pendingOutbox]
    refine List.take_of_length_le ?_
    rw [← hwaiting, List.length_map] at hfits
    exact hfits
  obtain ⟨newId, observedAt, n, hn⟩ := after_flushOutbox_store env h.mode
  have hsplit : Delivered s.db done (todo ++ []) := (List.append_nil todo).symm ▸ hd
  obtain ⟨events, db, hrun, hshows⟩ := hsplit.shown_first h.shows newId observedAt
  have hposts : Posts s.db (after (transaction (dispatchRows newId observedAt
      (s.db.pendingOutbox 100))) s.db) := .delivered 100 newId observedAt
  obtain ⟨hposted, hmessages⟩ :=
    h.posted.posts hposts (Nat.le_add_right s.ids (s.db.pendingOutbox 100).length)
  rw [hn]
  refine ⟨h.mode, hposted, ?_, ?_⟩
  · rw [hmessages, h.messages]
    exact (List.append_nil _).symm
  · rw [hread, after_of_ok (transaction_of_ok hrun)]
    rw [hwaiting] at hshows
    exact ⟨hshows.items, hshows.last, hshows.position⟩

/-- A cursor moves on within the log. -/
theorem ack (h : KeptInStore env s ledger) (consumerId : String) {sequence : Int}
    (hfits : sequence ≤ ledger.log.length) :
    KeptInStore env (after (LiandanluNative.ack env consumerId sequence) s)
      (ledger.acknowledge consumerId sequence) := by
  obtain ⟨n, hn⟩ := after_ack_store env h.mode consumerId sequence
  have hmoved := s.db.cursor_ack consumerId (h.maxSequence ▸ hfits)
  have hwritten := s.db.after_ack consumerId sequence
  rw [hn]
  set db := after (transaction (ackEventConsumer consumerId sequence)) s.db
  have hpart : db.outboxPart = s.db.outboxPart ∧ s.db.feed.Turns consumerId db.feed := by
    rcases hwritten with hsame | ⟨_, hwrite⟩
    · rw [hsame]
      exact ⟨rfl, Feed.Turns.refl _ _⟩
    · rw [hwrite]
      exact ⟨rfl, s.db.turns_ackWrite consumerId sequence⟩
  obtain ⟨hposted, hmessages⟩ := h.posted.elsewhere hpart.1 le_rfl
  exact ⟨h.mode, hposted, hmessages ▸ h.messages, h.shows.acknowledged hpart.2 hmoved⟩

/-- **Every call that fits** is one on the ledger. -/
theorem exec (h : KeptInStore env s ledger) (hinj : Function.Injective env.uuid)
    (call : EventCall) (hfits : call.Fits ledger) :
    KeptInStore env (call.exec env s) (call.apply ledger) := by
  cases call with
  | enqueueOutbox fields => exact h.enqueueOutbox hinj hfits.2
  | flushOutbox => exact h.flushOutbox hfits
  | readAfter consumerId => exact h
  | ack consumerId sequence => exact h.ack consumerId hfits.2

/-- A consumer reads what the ledger has for it. -/
theorem reads (h : KeptInStore env s ledger) (consumerId : String) :
    (s.readAfter consumerId).map Event.entry = ledger.unread consumerId := by
  obtain ⟨done, todo, hd⟩ := h.posted.split
  rw [(Sys.logInOrder_of_persistent h.mode hd.ordered).readAfter, Sys.feed_of_persistent h.mode]
  exact h.shows.unread consumerId

/-- **Every run that fits** from a new store is one on a new ledger. -/
theorem run (hinj : Function.Injective env.uuid) {calls : List EventCall}
    (hfits : Each EventCall.apply EventCall.Fits {} calls) :
    KeptInStore env (Runs.run (EventCall.exec env) { persistent := true } calls)
      (Runs.run EventCall.apply {} calls) := by
  have hfresh : KeptInStore env { persistent := true } {} :=
    ⟨rfl, .fresh env 0, rfl, ⟨rfl, rfl, rfl⟩⟩
  exact run_related (R := fun ledger s => KeptInStore env s ledger) (C := EventCall.Fits)
    (fun ledger s call h hcall => h.exec hinj call hcall) hfresh hfits

end KeptInStore

/-! ## Both -/

/-- **The lists in memory and the tables of a store are one ledger.**  Whatever is posted, flushed,
read and acknowledged, a consumer of the lists reads what the ledger has for it.  So does a consumer
of the store, at whatever boundaries the process ends, if the ids that are drawn differ and the calls
fit: what is posted is what JSON gives back, no more than a hundred events wait at a flush, no number
beyond the log is acknowledged, and SQLite can encode the texts. -/
theorem event_stores_refine (env : Env) (calls : List EventCall) (consumerId : String) :
    let expected := (run EventCall.apply {} calls).unread consumerId
    ((run (EventCall.exec env) { persistent := false } calls).readAfter consumerId).map
        Event.entry = expected ∧
      (StoredUnder env consumerId → Each EventCall.apply EventCall.Fits {} calls →
        ((run (EventCall.exec env) { persistent := true } calls).readAfter consumerId).map
          Event.entry = expected) := by
  intro expected
  exact ⟨(KeptInMemory.run env calls).reads consumerId,
    fun hstored hfits => (KeptInStore.run hstored.drawn hfits).reads consumerId⟩

/-- Only an acknowledgement moves a position. -/
theorem EventCall.position_apply (ledger : Ledger String Message) {call : EventCall}
    {consumerId : String} (hcall : ∀ sequence, call ≠ .ack consumerId sequence) :
    (call.apply ledger).position consumerId = ledger.position consumerId := by
  cases call with
  | ack other sequence =>
      refine Function.update_of_ne (fun hsame => ?_) _ _
      exact hcall sequence (hsame ▸ rfl)
  | _ => rfl

/-- **All events** are the whole log in either mode, as long as nobody acknowledges under the name
they are read by from a store. -/
theorem all_events_whole (env : Env) (calls : List EventCall)
    (hcalls : ∀ call ∈ calls, ∀ sequence, call ≠ .ack auditConsumer sequence) :
    let log := numbered (run EventCall.apply {} calls).log
    (run (EventCall.exec env) { persistent := false } calls).allEvents.map Event.entry = log ∧
      (StoredUnder env auditConsumer → Each EventCall.apply EventCall.Fits {} calls →
        (run (EventCall.exec env) { persistent := true } calls).allEvents.map Event.entry
          = log) := by
  intro log
  refine ⟨?_, fun hstored hfits => ?_⟩
  · have hend := KeptInMemory.run env calls
    rw [Sys.allEvents, if_neg (by simp [hend.mode])]
    have hitems := hend.shows.items
    rw [Sys.feed_of_memory hend.mode] at hitems
    exact hitems
  · have hend := KeptInStore.run hstored.drawn hfits
    have hstep : ∀ (ledger : Ledger String Message) (call : EventCall),
        ledger.position auditConsumer = 0 → (∀ sequence, call ≠ .ack auditConsumer sequence) →
        (call.apply ledger).position auditConsumer = 0 :=
      fun ledger call h hcall => (EventCall.position_apply ledger hcall).trans h
    have hread := hend.reads auditConsumer
    rw [Ledger.unread_of_zero (run_of_each hstep rfl (each_iff_forall.mpr hcalls)), Sys.readAfter,
      if_pos hend.mode] at hread
    rw [Sys.allEvents, if_pos hend.mode]
    exact hread

/-- Of three events the first was acknowledged. -/
def Small.ackedOnce : List EventCall :=
  [.enqueueOutbox { eventType := "task.created", actor := "engine", taskId := some "task_1" },
    .enqueueOutbox
      { eventType := "task.state_changed", actor := "runtime",
        payload := [(.str "reason", .str "waiting"), (.str "revision", .int 2)] },
    .flushOutbox, .ack "memory" 1,
    .enqueueOutbox { eventType := "task.state_changed", actor := "runtime" }, .flushOutbox]

theorem event_stores_refine_small :
    let expected := (run EventCall.apply {} Small.ackedOnce).unread "memory"
    ((run (EventCall.exec Small.env) { persistent := true } Small.ackedOnce).readAfter
      "memory").map Event.entry = expected ∧ expected.map Prod.fst = [2, 3] := by
  have hfits : Each EventCall.apply EventCall.Fits {} Small.ackedOnce := by
    refine ⟨⟨by decide +kernel, rfl⟩, ⟨by decide +kernel, rfl⟩, ?_, ⟨by decide +kernel, ?_⟩,
      ⟨by decide +kernel, rfl⟩, ?_, trivial⟩
    · show 2 ≤ 100
      omega
    · show (1 : ℤ) ≤ 2
      omega
    · show 1 ≤ 100
      omega
  have hstored : StoredUnder Small.env "memory" :=
    ⟨tallyId_injective, Small.encodable_tallyId, by decide +kernel⟩
  exact ⟨(event_stores_refine Small.env Small.ackedOnce "memory").2 hstored hfits,
    by decide +kernel⟩

end LiandanluNative
