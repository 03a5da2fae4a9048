/-
# LiandanluNative.Safety.PostedEvents — the journal an engine keeps in its outbox and its event log.

`Safety.OutboxDelivery` is about connections that do nothing but write rows and deliver them.  An
engine does a good deal between; all that its calls do to the outbox is to deliver from it (`Posts`)
or to add a row under an id of its own (`Database.withEvent`).  Both keep `Posted`: the log has the
messages of the rows up to some point, and the rows from there on wait.  So the log followed by the
waiting rows is one list that only grows at its end, the journal.
-/
import LiandanluNative.Runtime.Aside
import LiandanluNative.Runtime.Commits
import LiandanluNative.Safety.OutboxDelivery

namespace LiandanluNative

open Lib Lib.Proc

/-- The messages of the outbox. -/
def Database.messages (db : Database) : List Message := db.eventOutbox.rows.map OutboxRow.message

/-- What the event log carries, and then what waits in the outbox, as a reader of the store finds
them. -/
def Database.journal (db : Database) : List Message :=
  db.eventLog.map Event.message ++
    (db.outboxLog.filter (fun row => !row.dispatched)).map OutboxRow.message

/-- The message of an event that is inserted. -/
def EventFields.message (fields : EventFields) (eventId : String) (payload : List (PyKey × PyVal)) :
    Message where
  eventId := some eventId
  workspaceId := fields.workspaceId
  eventType := fields.eventType
  actor := fields.actor
  taskId := fields.taskId
  operationId := fields.operationId
  objectRefs := fields.objectRefs
  payload := payload
  causationId := fields.causationId
  correlationId := fields.correlationId
  learningAllowed := fields.learningAllowed

/-- Wherever the delivery has got to, the journal is the outbox. -/
theorem Delivered.journal {db : Database} {done todo : List OutboxRow}
    (hd : Delivered db done todo) : db.journal = db.messages := by
  have hsent : done.filter (fun row => !row.dispatched) = [] :=
    List.filter_eq_nil_iff.mpr (fun row hrow => by simp [hd.sent row hrow])
  have hunsent : todo.filter (fun row => !row.dispatched) = todo :=
    List.filter_eq_self.mpr (fun row hrow => by simp [hd.unsent row hrow])
  rw [Database.journal, Database.messages, hd.eventLog, hd.outboxLog, hd.log, List.filter_append,
    hsent, hunsent, List.nil_append, hd.rows, List.map_append]

/-- The messages do not show what was delivered. -/
theorem Database.messages_of_backlog {db db' : Database} (h : db'.backlog = db.backlog) :
    db'.messages = db.messages := by
  have hpristine : ∀ db : Database, db.messages = db.backlog.map OutboxRow.message := by
    intro db
    rw [Database.backlog, List.map_map]
    rfl
  rw [hpristine, hpristine, h]

/-- A delivery moves the split, and no message. -/
theorem Delivered.posts {db db' : Database} (hposts : Posts db db') :
    ∀ {done todo : List OutboxRow}, Delivered db done todo →
      ∃ done' todo', Delivered db' done' todo' ∧ db'.backlog = db.backlog := by
  induction hposts with
  | elsewhere same =>
      intro done todo hd
      simp only [Database.outboxPart, Prod.mk.injEq] at same
      obtain ⟨houtbox, hseq, hevents, hevseq⟩ := same
      refine ⟨done, todo, hd.congr houtbox hseq hevents hevseq, ?_⟩
      rw [Database.backlog, houtbox, Database.backlog]
  | @delivered db limit newId observedAt =>
      intro done todo hd
      obtain ⟨events, db', done', todo', hrun, hd', hback, _⟩ :=
        hd.dispatchRows newId observedAt (hd.behind_pendingOutbox limit)
      have hcommit : transaction
          (LiandanluNative.dispatchRows newId observedAt (db.pendingOutbox limit)) db = .ok events db' := by
        simp only [transaction, hrun]
      rw [after_of_ok hcommit]
      exact ⟨done', todo', hd', hback⟩
  | trans _ _ ih₁ ih₂ =>
      intro done todo hd
      obtain ⟨done₁, todo₁, hd₁, hback₁⟩ := ih₁ hd
      obtain ⟨done₂, todo₂, hd₂, hback₂⟩ := ih₂ hd₁
      exact ⟨done₂, todo₂, hd₂, hback₂.trans hback₁⟩

/-- The outbox of an engine whose next id is the `ids`-th. -/
structure Posted (env : Env) (ids : ℕ) (db : Database) : Prop where
  split : ∃ done todo, Delivered db done todo
  names : ∀ message ∈ db.messages, ∃ n < ids, message.eventId = some (env.newId "evt" n)

namespace Posted

variable {env : Env} {ids ids' : ℕ} {db db' : Database}

theorem fresh (env : Env) (ids : ℕ) : Posted env ids {} where
  split := ⟨[], [], rfl, by simp, by simp, .nil, by simp, by simp, .nil, Database.logOrdered_fresh,
    rfl⟩
  names _ h := absurd h List.not_mem_nil

theorem journal (h : Posted env ids db) : db.journal = db.messages := by
  obtain ⟨done, todo, hd⟩ := h.split
  exact hd.journal

/-- **Delivering** changes no message. -/
theorem posts (h : Posted env ids db) (hposts : Posts db db') (hids : ids ≤ ids') :
    Posted env ids' db' ∧ db'.messages = db.messages := by
  obtain ⟨done, todo, hd⟩ := h.split
  obtain ⟨done', todo', hd', hback⟩ := Delivered.posts hposts hd
  have hmessages := Database.messages_of_backlog hback
  refine ⟨⟨⟨done', todo', hd'⟩, fun message hmem => ?_⟩, hmessages⟩
  rw [hmessages] at hmem
  obtain ⟨n, hn, hid⟩ := h.names message hmem
  exact ⟨n, hn.trans_le hids, hid⟩

/-- The rest of the database may be anything. -/
theorem elsewhere (h : Posted env ids db) (hpart : db'.outboxPart = db.outboxPart)
    (hids : ids ≤ ids') : Posted env ids' db' ∧ db'.messages = db.messages :=
  h.posts (.elsewhere hpart) hids

/-- **An event** goes to the end of the journal. -/
theorem withEvent (h : Posted env ids db) (hinj : Function.Injective env.uuid)
    (fields : EventFields) (occurredAt : ℚ) (payload : List (PyKey × PyVal)) :
    Posted env (ids + 1) (db.withEvent fields (env.newId "evt" ids) occurredAt payload) ∧
      (db.withEvent fields (env.newId "evt" ids) occurredAt payload).messages
        = db.messages ++ [fields.message (env.newId "evt" ids) payload] := by
  obtain ⟨done, todo, hd⟩ := h.split
  let row := fields.row (db.outboxSequence + 1) (env.newId "evt" ids) occurredAt payload
  have hnonempty : env.newId "evt" ids ≠ "" := by
    intro heq
    have hlength := congrArg String.length heq
    simp [Env.newId] at hlength
  have hunused : ∀ other ∈ db.eventOutbox.rows, other.eventId ≠ row.eventId := by
    intro other hother heq
    obtain ⟨n, hn, hid⟩ := h.names other.message (List.mem_map_of_mem hother)
    have hsame : env.newId "evt" n = env.newId "evt" ids :=
      Option.some.inj (hid.symm.trans heq)
    exact hn.ne (env.newId_injective hinj "evt" hsame)
  have hname : ∃ eventId, eventId ≠ "" ∧ row.eventId = some eventId := ⟨_, hnonempty, rfl⟩
  obtain ⟨hrows, hd'⟩ := hd.enqueue rfl rfl hname hunused
  have hmessages : (db.withEvent fields (env.newId "evt" ids) occurredAt payload).messages
      = db.messages ++ [fields.message (env.newId "evt" ids) payload] := by
    show (db.eventOutbox.put row).rows.map OutboxRow.message = _
    rw [hrows, List.map_append]
    rfl
  refine ⟨⟨⟨done, todo ++ [row], hd'.congr rfl rfl rfl rfl⟩, fun message hmem => ?_⟩, hmessages⟩
  rw [hmessages] at hmem
  rcases List.mem_append.mp hmem with hold | hnew
  · obtain ⟨n, hn, hid⟩ := h.names message hold
    exact ⟨n, hn.trans (Nat.lt_succ_self _), hid⟩
  · rw [List.mem_singleton.mp hnew]
    exact ⟨ids, Nat.lt_succ_self _, rfl⟩

end Posted

end LiandanluNative
