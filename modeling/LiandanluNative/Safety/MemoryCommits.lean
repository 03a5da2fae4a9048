/-
# LiandanluNative.Safety.MemoryCommits — every event is committed once, in order.

Pipelines share a cursor that one of them may read stale and another move back.  What a pipeline
holds is therefore only known to be `Behind` the receipted events: the first `done` of the log.  The
receipt table carries exactly these (`Receipted`); no cursor is past them; and the memory table grew
by at most one record for each of them, in their order (`Recorded`).  Whoever processes an event
meets one with a receipt, and nothing happens, or the first without, and both tables grow by it.

The records of one key form a `RevisionChain`: since a new record is built from the latest one
inside the transaction that inserts it, its revision and its link continue the chain.

A call is one transaction, so pipelines interleave call by call.  A call on an event that has its
receipt changes at most a cursor, so the only calls that grow the tables are those on the first
event without one; and whoever makes such a call, with whatever limit and cursor, makes the same of
it.
-/
import LiandanluNative.Lib.Backlog
import LiandanluNative.Memory
import LiandanluNative.Safety.ConsumerCursors

namespace LiandanluNative

open Lib Lib.Proc

/-! ## Revision chains

The records of a key have the revisions one, two, three and so on, and each supersedes the one
before it.
-/

/-- Revisions count from one, and each supersedes the one before.  The rows of a key are in the
order of their insertion, which is that of the chain. -/
inductive RevisionChain : List MemoryRecord → Prop
  | nil : RevisionChain []
  | first (r : MemoryRecord) (revision : r.revision = 1) (supersedes : r.supersedes = none) :
      RevisionChain [r]
  | next {rs : List MemoryRecord} {last : MemoryRecord} (before : RevisionChain (rs ++ [last]))
      (r : MemoryRecord) (revision : r.revision = last.revision + 1)
      (supersedes : r.supersedes = some last.memoryId) : RevisionChain (rs ++ [last] ++ [r])

namespace RevisionChain

/-- The revisions of a chain count up from one. -/
theorem revisions {rs : List MemoryRecord} (hc : RevisionChain rs) :
    rs.map MemoryRecord.revision = (List.range rs.length).map (fun j : ℕ => (j : Int) + 1) := by
  induction hc with
  | nil => rfl
  | first r revision _ => simp [revision]
  | @next rs last _ r revision _ ih =>
      have hlast : last.revision = (rs.length : Int) + 1 := by
        rw [List.map_append, List.length_append, List.length_singleton, List.range_succ,
          List.map_append] at ih
        exact List.singleton_inj.mp (List.append_inj' ih rfl).2
      have hlength : (rs ++ [last] ++ [r]).length = (rs ++ [last]).length + 1 :=
        List.length_append
      rw [List.map_append, ih, hlength, List.range_succ, List.map_append, List.map_singleton,
        List.map_singleton, revision, hlast, List.length_append, List.length_singleton]
      push_cast
      rfl

/-- So they increase, and a record is the newest of its key where its row is the last. -/
theorem increasing {rs : List MemoryRecord} (hc : RevisionChain rs) :
    rs.Pairwise (fun a b => a.revision < b.revision) := by
  have hmap : (rs.map MemoryRecord.revision).Pairwise (· < ·) := by
    rw [hc.revisions]
    refine List.pairwise_map.mpr (List.pairwise_lt_range.imp ?_)
    intro a b hab
    omega
  exact List.pairwise_map.mp hmap

/-- The latest record is the last of the chain. -/
theorem newest_append {rs : List MemoryRecord} {last : MemoryRecord}
    (hc : RevisionChain (rs ++ [last])) : newest (rs ++ [last]) = some last := by
  have hbelow := (List.pairwise_append.mp hc.increasing).2.2
  exact newest_concat fun r hr => hbelow r hr last (List.mem_singleton_self last)

/-- A record built from the latest one continues the chain: with the revision after it, and a link
to it. -/
theorem snoc {rs : List MemoryRecord} (hc : RevisionChain rs) {r : MemoryRecord}
    (revision : r.revision = match newest rs with
      | none => 1
      | some record => record.revision + 1)
    (supersedes : r.supersedes
      = (newest rs).map MemoryRecord.memoryId) :
    RevisionChain (rs ++ [r]) := by
  rcases rs.eq_nil_or_concat with rfl | ⟨before, last, hsplit⟩
  · exact .first r revision supersedes
  · rw [List.concat_eq_append] at hsplit
    subst hsplit
    rw [hc.newest_append] at revision supersedes
    exact .next hc r revision supersedes

/-- The first of a chain supersedes nothing. -/
theorem supersedes_first {rs : List MemoryRecord} (hc : RevisionChain rs) :
    ∀ r ∈ rs, r.revision = 1 → r.supersedes = none := by
  induction hc with
  | nil => exact fun r hr => absurd hr List.not_mem_nil
  | first r _ supersedes =>
      intro r' hr' _
      rw [List.mem_singleton.mp hr']
      exact supersedes
  | @next rs last before r revision _ ih =>
      intro r' hr' hone
      rcases List.mem_append.mp hr' with hr' | hr'
      · exact ih r' hr' hone
      · -- a successor's revision is at least two
        have hpos : 1 ≤ last.revision := by
          have hmem : last.revision ∈ (rs ++ [last]).map MemoryRecord.revision :=
            List.mem_map_of_mem (List.mem_append_right _ (List.mem_singleton_self _))
          rw [before.revisions, List.mem_map] at hmem
          obtain ⟨j, _, hj⟩ := hmem
          omega
        rw [List.mem_singleton.mp hr'] at hone
        omega

/-- Every other one supersedes the one before it. -/
theorem supersedes_next {rs : List MemoryRecord} (hc : RevisionChain rs) :
    ∀ a ∈ rs, ∀ b ∈ rs, b.revision = a.revision + 1 → b.supersedes = some a.memoryId := by
  induction hc with
  | nil => exact fun a ha => absurd ha List.not_mem_nil
  | first r _ _ =>
      intro a ha b hb hrev
      rw [List.mem_singleton.mp ha, List.mem_singleton.mp hb] at hrev
      omega
  | @next rs last before r revision supersedes ih =>
      -- the last record of a chain has the greatest revision, and alone has it
      have hle : ∀ a ∈ rs ++ [last], a.revision ≤ last.revision ∧
          (a.revision = last.revision → a = last) := by
        intro a ha
        rcases List.mem_append.mp ha with ha | ha
        · have hlt := (List.pairwise_append.mp before.increasing).2.2 a ha last
            (List.mem_singleton_self _)
          exact ⟨hlt.le, fun heq => absurd heq hlt.ne⟩
        · rw [List.mem_singleton.mp ha]
          exact ⟨le_rfl, fun _ => rfl⟩
      intro a ha b hb hrev
      -- either record may be one of the old ones or the new last one
      rcases List.mem_append.mp ha with ha | ha <;> rcases List.mem_append.mp hb with hb | hb
      · exact ih a ha b hb hrev
      · rw [List.mem_singleton.mp hb] at hrev ⊢
        have heq : a = last := (hle a ha).2 (by omega)
        rw [heq]
        exact supersedes
      · rw [List.mem_singleton.mp ha] at hrev
        have hbound := (hle b hb).1
        omega
      · rw [List.mem_singleton.mp ha, List.mem_singleton.mp hb] at hrev
        omega

end RevisionChain

/-! ## The invariant

The receipts are those of the first events of the log, and the records come from some of these; what
a pipeline holds is behind them.
-/

/-- The receipts are those of the first `done` events, in order, and no cursor is past them.  So a
consumer can be at an event that has a receipt, but never beyond one that has none. -/
structure Receipted (db : Database) (done : ℕ) : Prop where
  ordered : db.LogOrdered
  within : done ≤ db.events.rows.length
  receipts : db.consumerReceipts.rows.map ConsumerReceipt.key
    = (db.events.rows.take done).map (fun event => (memoryConsumer, event.eventId))
  cursors : ∀ row ∈ db.consumerCursors.rows, row.2 ≤ db.eventSequence ∧
    ∀ event ∈ db.events.rows.drop done, row.2 < event.sequence

/-- The records come from some of the first `done` events, one from each and in their order, and
those of one key form a chain. -/
structure Recorded (db : Database) (done : ℕ) : Prop where
  sources : ∃ events : List Event, events.Sublist (db.events.rows.take done) ∧
    db.memoryRecords.rows.map MemoryRecord.sourceEventIds
      = events.map (fun event => [event.eventId])
  chains : ∀ key, RevisionChain (db.recordsOf key)

/-- What a pipeline holds, seen from a log whose first `done` events have receipts: events it has
read in some earlier state, and in the last two cases an event that was handled. -/
def PipelineTask.Held (log : List Event) (done : ℕ) : PipelineTask → Prop
  | .handle events => Behind log done events
  | .ignore event events => Behind log done (event :: events)
  | .ack event events => event ∈ log.take done ∧ Behind log done events
  | .writeAck event events => event ∈ log.take done ∧ Behind log done events

namespace Receipted

variable {db : Database} {done : ℕ}

/-- Two events of the log with one id are one event. -/
theorem eq_of_id (hr : Receipted db done) {a b : Event} (ha : a ∈ db.events.rows)
    (hb : b ∈ db.events.rows) (hid : a.eventId = b.eventId) : a = b :=
  List.inj_on_of_nodup_map hr.ordered.ids ha hb hid

/-- An event has a receipt exactly if it is among the first that were done. -/
theorem receipt_iff (hr : Receipted db done) {event : Event} (hevent : event ∈ db.events.rows) :
    (∃ receipt, db.consumerReceipts.get? (memoryConsumer, event.eventId) = some receipt) ↔
      event ∈ db.events.rows.take done := by
  have hkeys : (memoryConsumer, event.eventId) ∈ db.consumerReceipts.rows.map ConsumerReceipt.key ↔
      event ∈ db.events.rows.take done := by
    rw [hr.receipts, List.mem_map]
    constructor
    · rintro ⟨other, hother, hkey⟩
      have hid : other.eventId = event.eventId := (Prod.mk.inj hkey).2
      exact hr.eq_of_id (List.mem_of_mem_take hother) hevent hid ▸ hother
    · intro hmem
      exact ⟨event, hmem, rfl⟩
  rw [← hkeys, List.mem_map]
  constructor
  · rintro ⟨receipt, hget⟩
    exact ⟨receipt, Table.get?_eq_some.mp hget⟩
  · rintro ⟨receipt, hmem, hkey⟩
    exact ⟨receipt, Table.get?_eq_some.mpr ⟨hmem, hkey⟩⟩

/-- The first event without a receipt has none. -/
theorem next_notMem {event : Event}
    (hnext : db.events.rows[done]? = some event) : event ∉ db.events.rows.take done := by
  intro hmem
  obtain ⟨i, hi, hget⟩ := List.mem_iff_getElem.mp hmem
  rw [List.length_take] at hi
  rw [List.getElem_take] at hget
  obtain ⟨hlt, hnext⟩ := List.getElem?_eq_some_iff.mp hnext
  have hij : i = done :=
    (List.Nodup.getElem_inj_iff (Table.rows_nodup db.events)).mp (hget.trans hnext.symm)
  omega

/-- The next event without a receipt is one of the log. -/
theorem next_mem {event : Event} (hnext : db.events.rows[done]? = some event) :
    event ∈ db.events.rows := List.mem_of_getElem? hnext

/-- What a consumer reads is behind the receipts: its cursor is at one of the events that were done,
or before them. -/
theorem behind_read (hr : Receipted db done) (consumerId : String) :
    Behind db.events.rows done (db.readEventsAfter consumerId) := by
  rw [Database.readEventsAfter_eq hr.ordered]
  refine Behind.filter ?_ ?_
  · refine hr.ordered.sequences.imp (fun {a b} hab ha => ?_)
    rw [decide_eq_true_eq] at ha ⊢
    exact ha.trans hab
  · intro event hevent
    rw [decide_eq_true_eq, Database.cursor]
    cases hrow : db.consumerCursors.get? consumerId with
    | none => exact hr.ordered.positive event (List.mem_of_mem_drop hevent)
    | some row => exact (hr.cursors row (Table.mem_of_get? hrow)).2 event hevent

/-- The log grows. -/
theorem grow (hr : Receipted db done) {db' : Database} (ho : db'.LogOrdered)
    {more : List Event} (hevents : db'.events.rows = db.events.rows ++ more)
    (hmore : ∀ event ∈ more, db.eventSequence < event.sequence)
    (hseq : db.eventSequence ≤ db'.eventSequence)
    (hreceipts : db'.consumerReceipts = db.consumerReceipts)
    (hcursors : db'.consumerCursors = db.consumerCursors) : Receipted db' done where
  ordered := ho
  within := by
    rw [hevents, List.length_append]
    exact hr.within.trans (Nat.le_add_right _ _)
  receipts := by rw [hreceipts, hevents, List.take_append_of_le_length hr.within, hr.receipts]
  cursors := by
    rw [hcursors, hevents, List.drop_append_of_le_length hr.within]
    intro row hrow
    obtain ⟨hbound, hrest⟩ := hr.cursors row hrow
    refine ⟨hbound.trans hseq, fun event hevent => ?_⟩
    rcases List.mem_append.mp hevent with hold | hnew
    · exact hrest event hold
    · exact hbound.trans_lt (hmore event hnew)

/-- An event with a receipt comes before every one without. -/
theorem lt_of_receipted (hr : Receipted db done) {a b : Event}
    (ha : a ∈ db.events.rows.take done) (hb : b ∈ db.events.rows.drop done) :
    a.sequence < b.sequence := by
  have hsorted := hr.ordered.sequences
  rw [← List.take_append_drop done db.events.rows] at hsorted
  exact (List.pairwise_append.mp hsorted).2.2 a ha b hb

/-- Acknowledging an event that has a receipt, whatever the cursor is by then: it may move it back,
and never past the receipts. -/
theorem ackWrite (hr : Receipted db done) {event : Event}
    (hevent : event ∈ db.events.rows.take done) (consumerId : String) :
    Receipted (db.ackWrite consumerId event.sequence) done where
  ordered := hr.ordered.congr rfl rfl
  within := hr.within
  receipts := hr.receipts
  cursors := by
    intro row hrow
    rcases Table.mem_put.mp hrow with rfl | ⟨hold, _⟩
    · exact ⟨hr.ordered.bound event (List.mem_of_mem_take hevent),
        fun later hlater => hr.lt_of_receipted hevent hlater⟩
    · exact hr.cursors row hold

/-- Giving the first event without a receipt its receipt. -/
theorem advance (hr : Receipted db done) {event : Event}
    (hnext : db.events.rows[done]? = some event) (status : String) (resultRef : Option String) :
    Receipted (db.advanceConsumer memoryConsumer event.eventId event.sequence status resultRef)
      (done + 1) := by
  obtain ⟨hlt, hget⟩ := List.getElem?_eq_some_iff.mp hnext
  -- the event is the first without a receipt
  have hnone : db.consumerReceipts.get? (memoryConsumer, event.eventId) = none := by
    rw [Option.eq_none_iff_forall_ne_some]
    intro receipt hreceipt
    exact next_notMem hnext ((hr.receipt_iff (next_mem hnext)).mp ⟨receipt, hreceipt⟩)
  have hafter : event ∈ db.events.rows.take (done + 1) := by
    rw [List.take_add_one, hnext]
    exact List.mem_append_right _ (List.mem_singleton_self event)
  refine ⟨hr.ordered.congr rfl rfl, hlt, ?_, ?_⟩
  -- the receipts get one row more
  · have hput := Table.put_rows_of_get?_none
      (v := (⟨memoryConsumer, event.eventId, event.sequence, status, resultRef⟩ :
        ConsumerReceipt)) hnone
    show ((db.consumerReceipts.putNew _).rows).map ConsumerReceipt.key = _
    rw [Table.putNew_of_get?_none hnone, hput, List.map_append, hr.receipts]
    show _ = (db.events.rows.take (done + 1)).map _
    rw [List.take_add_one, hnext, List.map_append]
    rfl
  · intro row hrow
    have hsub : ∀ later ∈ db.events.rows.drop (done + 1), later ∈ db.events.rows.drop done := by
      intro later hlater
      rw [List.drop_eq_getElem_cons hlt]
      exact List.mem_cons_of_mem _ hlater
    have hlater : ∀ later ∈ db.events.rows.drop (done + 1), event.sequence < later.sequence := by
      intro later hlater
      have hsorted := hr.ordered.sequences
      rw [← List.take_append_drop (done + 1) db.events.rows] at hsorted
      exact (List.pairwise_append.mp hsorted).2.2 event hafter later hlater
    have hown := hr.ordered.bound event (next_mem hnext)
    rcases Table.mem_put.mp hrow with rfl | ⟨hold, _⟩
    · cases hcursor : db.consumerCursors.get? memoryConsumer with
      | none => exact ⟨hown, hlater⟩
      | some old =>
          obtain ⟨hbound, hrest⟩ := hr.cursors old (Table.mem_of_get? hcursor)
          -- the cursor moves to the event, unless it is further already
          by_cases hmoves : old.2 < event.sequence
          · simp only [hmoves, if_true]
            exact ⟨hown, hlater⟩
          · simp only [hmoves, if_false]
            exact ⟨hbound, fun later hmem => hrest later (hsub later hmem)⟩
    · obtain ⟨hbound, hrest⟩ := hr.cursors row hold
      exact ⟨hbound, fun later hmem => hrest later (hsub later hmem)⟩

end Receipted

namespace Recorded

variable {db : Database} {done : ℕ}

/-- Events and receipts may come as they like. -/
theorem mono (hm : Recorded db done) {db' : Database} {done' : ℕ}
    (hrecords : db'.memoryRecords = db.memoryRecords)
    (hevents : (db.events.rows.take done).Sublist (db'.events.rows.take done')) :
    Recorded db' done' where
  sources := by
    obtain ⟨events, hsub, hmap⟩ := hm.sources
    exact ⟨events, hsub.trans hevents, by rw [hrecords]; exact hmap⟩
  chains key := by
    rw [Database.recordsOf_congr hrecords]
    exact hm.chains key

/-- A record built from the latest of its key, for the next event. -/
theorem insert (hm : Recorded db done) {event : Event}
    (hnext : db.events.rows[done]? = some event) {candidate : MemoryCandidate}
    (hsource : candidate.sourceEventIds = [event.eventId]) {memoryId : String} (value : PyVal)
    {record : MemoryRecord}
    (hrecord : record
      = { candidate.record memoryId (db.latestRecord candidate.memoryKey) with value := value })
    (hfree : db.memoryRecords.get? memoryId = none) :
    Recorded { db with memoryRecords := db.memoryRecords.put record } (done + 1) := by
  have hid : record.memoryId = memoryId := by rw [hrecord]; rfl
  rw [← hid] at hfree
  refine ⟨?_, fun key => ?_⟩
  · obtain ⟨events, hsub, hmap⟩ := hm.sources
    -- the event the record comes from is the next one of the log
    refine ⟨events ++ [event], ?_, ?_⟩
    · show (events ++ [event]).Sublist (db.events.rows.take (done + 1))
      rw [List.take_add_one, hnext]
      exact hsub.append (List.Sublist.refl _)
    · rw [Table.put_rows_of_get?_none hfree, List.map_append, List.map_append, hmap,
        List.map_singleton, List.map_singleton, hrecord]
      exact congrArg (fun ids => _ ++ [ids]) hsource
  -- and in its chain the record follows the newest
  · rw [Database.recordsOf_put rfl hfree]
    split
    · rename_i hkey
      have hcandidate : candidate.memoryKey = key := by
        rw [← hkey, hrecord]
        rfl
      refine (hm.chains key).snoc ?_ ?_
      · rw [hrecord, hcandidate]
        rfl
      · rw [hrecord, hcandidate]
        rfl
    · rw [List.append_nil]
      exact hm.chains key

end Recorded

/-! ## One call -/

/-- What a call does to the database and to what the caller still holds: the log stays, the
receipted prefix may have grown.  It is by one event at most, but nothing depends on that. -/
structure Advanced (db : Database) (done : ℕ) (db' : Database) (done' : ℕ) : Prop where
  events : db'.events = db.events
  grown : done ≤ done'
  receipted : Receipted db' done'
  recorded : Recorded db' done'

/-- An event with a receipt is in the receipted prefix, and what comes after it is as far behind. -/
theorem Receipted.of_receipt {db : Database} {done : ℕ} (hr : Receipted db done) {event : Event}
    {events : List Event} (hb : Behind db.events.rows done (event :: events))
    {receipt : ConsumerReceipt}
    (hreceipt : db.consumerReceipts.get? (memoryConsumer, event.eventId) = some receipt) :
    event ∈ db.events.rows.take done ∧ Behind db.events.rows done events := by
  have htake := (hr.receipt_iff hb.mem_log).mp ⟨receipt, hreceipt⟩
  refine ⟨htake, ?_⟩
  rcases hb.uncons with ⟨_, hrest⟩ | ⟨hnext, _⟩
  · exact hrest
  · exact absurd htake (next_notMem hnext)

/-- An event without a receipt is the next one of the log. -/
theorem Receipted.of_absent {db : Database} {done : ℕ} (hr : Receipted db done) {event : Event}
    {events : List Event} (hb : Behind db.events.rows done (event :: events))
    (habsent : db.consumerReceipts.get? (memoryConsumer, event.eventId) = none) :
    db.events.rows[done]? = some event ∧ event ∈ db.events.rows.take (done + 1) ∧
      Behind db.events.rows (done + 1) events := by
  rcases hb.uncons with ⟨⟨i, hi, hget⟩, _⟩ | ⟨hnext, hrest⟩
  · have htake : event ∈ db.events.rows.take done :=
      List.mem_of_getElem? ((List.getElem?_take_of_lt hi).trans hget)
    obtain ⟨receipt, hsome⟩ := (hr.receipt_iff hb.mem_log).mpr htake
    rw [habsent] at hsome
    cases hsome
  · refine ⟨hnext, ?_, hrest⟩
    rw [List.take_add_one, hnext]
    exact List.mem_append_right _ (List.mem_singleton_self event)

/-- Storing a record leaves log and receipts as they are. -/
theorem Receipted.putRecord {db : Database} {done : ℕ} (hr : Receipted db done)
    (record : MemoryRecord) :
    Receipted { db with memoryRecords := db.memoryRecords.put record } done :=
  hr.grow (hr.ordered.congr rfl rfl) (List.append_nil _).symm
    (fun _ hmore => absurd hmore List.not_mem_nil) le_rfl rfl rfl

/-- The id of a record that collides with nothing is not taken. -/
theorem get?_of_free {db : Database} {record : MemoryRecord}
    (hfree : db.memoryTaken record = false) :
    db.memoryRecords.get? record.memoryId = none := by
  refine Table.get?_eq_none.mpr (fun row hrow hid => ?_)
  have huntaken := List.any_eq_false.mp hfree row hrow
  rw [Bool.or_eq_true, not_or] at huntaken
  exact huntaken.1 (decide_eq_true hid)

/-- **One event processed.** If the call returns, the event has its receipt, and the events after it
are as far behind as before.  If it raises, the transaction is rolled back. -/
theorem processMemoryEvent_advances {db : Database} {done : ℕ} (hr : Receipted db done)
    (hm : Recorded db done) {event : Event} {events : List Event}
    (hb : Behind db.events.rows done (event :: events)) {candidate : Option MemoryCandidate}
    (hsource : ∀ c, candidate = some c → c.sourceEventIds = [event.eventId]) (memoryId : String) :
    (∃ e, processMemoryEvent event candidate memoryId db = .error e db) ∨
    ∃ record db' done', processMemoryEvent event candidate memoryId db = .ok record db' ∧
      Advanced db done db' done' ∧ event ∈ db'.events.rows.take done' ∧
      Behind db'.events.rows done' events := by
  have hrun := processMemoryEvent_cases event candidate memoryId db
  generalize processMemoryEvent event candidate memoryId db = result at hrun
  cases hrun with
  | refused e => exact Or.inl ⟨e, rfl⟩
  | replayed receipt hreceipt =>
      obtain ⟨htake, hrest⟩ := hr.of_receipt hb hreceipt
      exact Or.inr ⟨_, db, done, rfl, ⟨rfl, le_rfl, hr, hm⟩, htake, hrest⟩
  | ignored habsent _ =>
      obtain ⟨hnext, htake, hrest⟩ := hr.of_absent hb habsent
      refine Or.inr ⟨none, _, done + 1, rfl, ⟨rfl, Nat.le_succ done, hr.advance hnext _ _, ?_⟩,
        htake, hrest⟩
      exact hm.mono rfl (List.take_sublist_take_left (Nat.le_succ done))
  | committed c record value habsent hsome _ hbuilt _ hfree =>
      obtain ⟨hnext, htake, hrest⟩ := hr.of_absent hb habsent
      subst hbuilt
      have hunused : db.memoryRecords.get? memoryId = none := get?_of_free hfree
      have hinsert := hm.insert hnext (hsource c hsome) value rfl hunused
      refine Or.inr ⟨_, _, done + 1, rfl, ⟨rfl, Nat.le_succ done, ?_, ?_⟩, htake, hrest⟩
      · exact (hr.putRecord _).advance hnext _ _
      · exact hinsert.mono rfl (List.Sublist.refl _)

/-- A candidate names the event it came from. -/
theorem candidateFromEvent_source {py : Builtins} {event : Event} {candidate : MemoryCandidate}
    (h : candidateFromEvent py event = .ok (some candidate)) :
    candidate.sourceEventIds = [event.eventId] := by
  unfold candidateFromEvent at h
  split at h
  · cases h
  · split at h
    · cases h
    · cases h
    · split at h
      · cases h
      · cases h
        rfl

namespace PipelineTask

/-- What a pipeline holds is still behind when more events have come and more were done. -/
theorem Held.mono {log more : List Event} {done done' : ℕ} (hle : done ≤ done') :
    ∀ {task : PipelineTask}, task.Held log done → task.Held (log ++ more) done'
  | .handle _, h => (h.grow more).mono hle
  | .ignore _ _, h => (h.grow more).mono hle
  | .ack _ _, h => ⟨mem_take_append h.1 hle, (h.2.grow more).mono hle⟩
  | .writeAck _ _, h => ⟨mem_take_append h.1 hle, (h.2.grow more).mono hle⟩
where
  mem_take_append {log more : List Event} {done done' : ℕ} {event : Event}
      (h : event ∈ log.take done) (hle : done ≤ done') : event ∈ (log ++ more).take done' := by
    have hmem := List.take_subset_take_left log hle h
    rw [List.take_append]
    exact List.mem_append_left _ hmem

/-- Having the event ignored is one call, wherever it is made. -/
theorem ignore_advances (py : Builtins) (consumerId memoryId : String) {db : Database} {done : ℕ}
    (hr : Receipted db done) (hm : Recorded db done) {event : Event} {events : List Event}
    (hb : Behind db.events.rows done (event :: events)) :
    ∃ done', Advanced db done ((ignore event events).move py consumerId memoryId db).2 done' ∧
      ((ignore event events).move py consumerId memoryId db).1.Held db.events.rows done' := by
  simp only [move]
  have hnone : ∀ c : MemoryCandidate, none = some c → c.sourceEventIds = [event.eventId] :=
    fun c hc => by cases hc
  rcases processMemoryEvent_advances hr hm hb hnone memoryId with
    ⟨e, hrun⟩ | ⟨record, db', done', hrun, hadv, htake, hrest⟩
  · rw [hrun]
    exact ⟨done, ⟨rfl, le_rfl, hr, hm⟩, Behind.nil⟩
  · rw [hrun]
    rw [hadv.events] at htake hrest
    exact ⟨done', hadv, htake, hrest⟩

/-- Handling the first event: its candidate is committed, or it is left to be ignored.  A conversion
that raises ends the pipeline there, with nothing changed. -/
theorem handle_advances (py : Builtins) (consumerId memoryId : String) {db : Database} {done : ℕ}
    (hr : Receipted db done) (hm : Recorded db done) {event : Event} {events : List Event}
    (hb : Behind db.events.rows done (event :: events)) :
    ∃ done', Advanced db done ((handle (event :: events)).move py consumerId memoryId db).2 done' ∧
      ((handle (event :: events)).move py consumerId memoryId db).1.Held db.events.rows done' := by
  have hstay : Advanced db done db done := ⟨rfl, le_rfl, hr, hm⟩
  simp only [move]
  cases hcandidate : candidateFromEvent py event with
  | error e => exact ⟨done, hstay, Behind.nil⟩
  | ok candidate =>
      simp only
      cases hvalid : candidate.filter MemoryCandidate.valid with
      | none => exact ignore_advances py consumerId memoryId hr hm hb
      | some valid =>
          obtain ⟨rfl, _⟩ := Option.filter_eq_some_iff.mp hvalid
          have hsource : ∀ c, some valid.partitioned = some c →
              c.sourceEventIds = [event.eventId] := by
            intro c hc
            cases hc
            have hid := candidateFromEvent_source hcandidate
            exact hid
          simp only
          rcases processMemoryEvent_advances hr hm hb hsource memoryId with
            ⟨e, hrun⟩ | ⟨record, db', done', hrun, hadv, htake, hrest⟩
          · rw [hrun]
            exact ⟨done, hstay, Behind.nil⟩
          · rw [hrun]
            rw [hadv.events] at htake hrest
            cases record with
            | none => exact ⟨done', hadv, Behind.mono hb hadv.grown⟩
            | some record => exact ⟨done', hadv, htake, hrest⟩

/-- **One move** of a pipeline keeps the invariant and what the pipeline holds. -/
theorem move_advances (py : Builtins) (consumerId memoryId : String) {db : Database} {done : ℕ}
    (hr : Receipted db done) (hm : Recorded db done) {task : PipelineTask}
    (hheld : task.Held db.events.rows done) :
    ∃ done', Advanced db done (task.move py consumerId memoryId db).2 done' ∧
      (task.move py consumerId memoryId db).1.Held db.events.rows done' := by
  have hstay : Advanced db done db done := ⟨rfl, le_rfl, hr, hm⟩
  cases task with
  | handle events =>
      cases events with
      | nil => exact ⟨done, hstay, Behind.nil⟩
      | cons event events => exact handle_advances py consumerId memoryId hr hm hheld
  | ignore event events => exact ignore_advances py consumerId memoryId hr hm hheld
  | ack event events =>
      obtain ⟨htake, hrest⟩ := hheld
      simp only [move]
      cases db.ackAllowed consumerId event.sequence with
      | error e => exact ⟨done, hstay, Behind.nil⟩
      | ok allowed =>
          cases allowed with
          | false => exact ⟨done, hstay, hrest⟩
          | true => exact ⟨done, hstay, htake, hrest⟩
  | writeAck event events =>
      obtain ⟨htake, hrest⟩ := hheld
      refine ⟨done, ⟨rfl, le_rfl, hr.ackWrite htake consumerId, ?_⟩, hrest⟩
      exact hm.mono rfl (List.Sublist.refl _)

end PipelineTask

/-! ## The system

Any number of pipelines, each with what it holds; a move of one leaves what the others hold as good
as it was.
-/

/-- Receipts, records and what every pipeline holds agree on how far the log has been worked off.
How far that is, `done`, is the same for all of them. -/
def PipelineSystem.Inv (s : PipelineSystem) : Prop :=
  ∃ done, Receipted s.db done ∧ Recorded s.db done ∧
    ∀ i, (s.pipelines i).Held s.db.events.rows done

/-- A new database, with no pipeline at work, meets the invariant. -/
theorem PipelineSystem.inv_fresh : Inv ⟨{}, fun _ => .handle []⟩ := by
  refine ⟨0, ⟨Database.logOrdered_fresh, le_rfl, rfl, ?_⟩, ⟨⟨[], .slnil, rfl⟩, fun _ => .nil⟩,
    fun _ => Behind.nil⟩
  exact fun row hrow => absurd hrow List.not_mem_nil

/-- One pipeline goes on to something else. -/
theorem PipelineSystem.Inv.switch {db : Database} {pipelines : ℕ → PipelineTask} {done : ℕ}
    (hr : Receipted db done) (hm : Recorded db done)
    (hheld : ∀ i, (pipelines i).Held db.events.rows done) (i : ℕ) {task : PipelineTask}
    (htask : task.Held db.events.rows done) :
    PipelineSystem.Inv ⟨db, Function.update pipelines i task⟩ := by
  refine ⟨done, hr, hm, fun j => ?_⟩
  by_cases hj : j = i
  · subst hj
    simpa only [Function.update_self] using htask
  · simpa only [Function.update_of_ne hj] using hheld j

/-- A pipeline that takes fewer events than it read is behind as well. -/
theorem Behind.sliceTo {log pending : List Event} {done : ℕ} (h : Behind log done pending)
    (limit : Int) : Behind log done (LiandanluNative.sliceTo limit pending) := by
  unfold LiandanluNative.sliceTo
  split
  · exact h.take _
  · exact h.take _

/-- **One step** of any pipeline, at whatever it is, keeps the invariant: an event is logged, a
pipeline reads, makes its next move, or crashes and is forgotten. -/
theorem PipelineSystem.Inv.step {py : Builtins} {consumerId : ℕ → String} {s s' : PipelineSystem}
    (hi : s.Inv) (next : PipelineStep py consumerId s s') : s'.Inv := by
  obtain ⟨done, hr, hm, hheld⟩ := hi
  cases next with
  | log row eventId observedAt =>
      obtain ⟨ho, hcases⟩ := hr.ordered.insertEvent row eventId observedAt
      -- the log has grown by one event or by none
      obtain ⟨more, hevents, hmore⟩ : ∃ more,
          (s.db.insertEvent row eventId observedAt).events.rows = s.db.events.rows ++ more ∧
          ∀ event ∈ more, s.db.eventSequence < event.sequence := by
        rcases hcases with ⟨_, hsame⟩ | ⟨_, happend⟩
        · refine ⟨[], by rw [hsame, List.append_nil], ?_⟩
          exact fun event hevent => absurd hevent List.not_mem_nil
        · refine ⟨_, happend, fun event hevent => ?_⟩
          rw [List.mem_singleton.mp hevent]
          exact lt_add_one s.db.eventSequence
      have hother : (s.db.insertEvent row eventId observedAt).consumerReceipts
            = s.db.consumerReceipts ∧
          (s.db.insertEvent row eventId observedAt).consumerCursors = s.db.consumerCursors ∧
          (s.db.insertEvent row eventId observedAt).memoryRecords = s.db.memoryRecords ∧
          s.db.eventSequence ≤ (s.db.insertEvent row eventId observedAt).eventSequence := by
        unfold Database.insertEvent
        cases s.db.eventById eventId <;>
          exact ⟨rfl, rfl, rfl, (lt_add_one s.db.eventSequence).le⟩
      obtain ⟨hreceipts, hcursors, hrecords, hseq⟩ := hother
      refine ⟨done, hr.grow ho hevents hmore hseq hreceipts hcursors, hm.mono hrecords ?_,
        fun i => ?_⟩
      · rw [hevents, List.take_append_of_le_length hr.within]
      · simp only [hevents]
        exact (hheld i).mono le_rfl
  | read i limit =>
      exact PipelineSystem.Inv.switch hr hm hheld i
        (Behind.sliceTo (hr.behind_read (consumerId i)) limit)
  | move i memoryId =>
      -- a move may receipt an event, and the other pipelines stay behind
      obtain ⟨done', hadv, htask⟩ :=
        PipelineTask.move_advances py (consumerId i) memoryId hr hm (hheld i)
      rw [← hadv.events] at htask
      refine PipelineSystem.Inv.switch hadv.receipted hadv.recorded (fun j => ?_) i htask
      rw [hadv.events, ← List.append_nil s.db.events.rows]
      exact (hheld j).mono hadv.grown
  | crash i => exact PipelineSystem.Inv.switch hr hm hheld i Behind.nil

/-- So it holds wherever the pipelines have got to. -/
theorem PipelineReached.inv {py : Builtins} {consumerId : ℕ → String} {s : PipelineSystem}
    (hr : PipelineReached py consumerId s) : s.Inv := by
  induction hr with
  | fresh => exact PipelineSystem.inv_fresh
  | step _ next ih => exact ih.step next

/-! ## The guarantees -/

/-- Of two events of a sublist of the log, the sequences stand in the order of the sublist. -/
theorem Receipted.sources_increasing {db : Database} {done : ℕ} (hr : Receipted db done)
    {events : List Event} (hsub : events.Sublist (db.events.rows.take done))
    (hmap : db.memoryRecords.rows.map MemoryRecord.sourceEventIds
      = events.map (fun event => [event.eventId])) :
    db.memoryRecords.rows.Pairwise (fun a b =>
      ∀ ea ∈ db.events.rows, ∀ eb ∈ db.events.rows, a.sourceEventIds = [ea.eventId] →
        b.sourceEventIds = [eb.eventId] → ea.sequence < eb.sequence) := by
  have hin : events.Sublist db.events.rows := hsub.trans (List.take_sublist _ _)
  have hids : (events.map (fun event => [event.eventId])).Pairwise (fun xs ys =>
      ∀ ea ∈ db.events.rows, ∀ eb ∈ db.events.rows, xs = [ea.eventId] → ys = [eb.eventId] →
        ea.sequence < eb.sequence) := by
    refine List.pairwise_map.mpr ((hr.ordered.sequences.sublist hin).imp_of_mem ?_)
    intro a b ha hb hlt ea hea eb heb haid hbid
    have hsamea : a = ea := hr.eq_of_id (hin.subset ha) hea (List.singleton_inj.mp haid)
    have hsameb : b = eb := hr.eq_of_id (hin.subset hb) heb (List.singleton_inj.mp hbid)
    rw [← hsamea, ← hsameb]
    exact hlt
  rw [← hmap] at hids
  exact List.pairwise_map.mp hids

/-- Along a chain, what holds of earlier and later rows holds of lower and higher revisions. -/
theorem RevisionChain.of_lt {rs : List MemoryRecord} (hc : RevisionChain rs)
    {R : MemoryRecord → MemoryRecord → Prop} (hR : rs.Pairwise R) :
    ∀ a ∈ rs, ∀ b ∈ rs, a.revision < b.revision → R a b := by
  have hforward : rs.Pairwise (fun a b => a.revision < b.revision → R a b) := by
    refine hR.imp ?_
    intro a b hab _
    exact hab
  have hbackward : rs.Pairwise (flip (fun a b => a.revision < b.revision → R a b)) :=
    hc.increasing.imp (fun hab hba => absurd hba (lt_asymm hab))
  intro a ha b hb
  exact List.Pairwise.forall_of_forall_of_flip (fun c _ h => absurd h (lt_irrefl c.revision))
    hforward hbackward ha hb

/-- **Exactly-once memory commits.** Whatever the pipelines do, from whatever stale cursors, with
whatever limits and wherever they crash: an event has at most one receipt and at most one record,
and every record is that of an event; the events with a receipt are a prefix of the log; the
revisions of a key are `1, …, n`, the first supersedes nothing and each other one its predecessor;
and along them the source events come later and later. -/
theorem memory_commits_once {py : Builtins} {consumerId : ℕ → String} {s : PipelineSystem}
    (hr : PipelineReached py consumerId s) :
    (∀ event ∈ s.db.events.rows, ∀ a ∈ s.db.consumerReceipts.rows,
      ∀ b ∈ s.db.consumerReceipts.rows, a.eventId = event.eventId → b.eventId = event.eventId →
        a = b) ∧
    (∀ event ∈ s.db.events.rows, ∀ a ∈ s.db.memoryRecords.rows, ∀ b ∈ s.db.memoryRecords.rows,
      event.eventId ∈ a.sourceEventIds → event.eventId ∈ b.sourceEventIds → a = b) ∧
    (∀ record ∈ s.db.memoryRecords.rows, ∃ event ∈ s.db.events.rows,
      record.sourceEventIds = [event.eventId]) ∧
    (∀ a ∈ s.db.events.rows, ∀ b ∈ s.db.events.rows, a.sequence ≤ b.sequence →
      (∃ receipt ∈ s.db.consumerReceipts.rows, receipt.eventId = b.eventId) →
      ∃ receipt ∈ s.db.consumerReceipts.rows, receipt.eventId = a.eventId) ∧
    (∀ key, (s.db.recordsOf key).map MemoryRecord.revision
      = (List.range (s.db.recordsOf key).length).map (fun j : ℕ => (j : Int) + 1)) ∧
    (∀ key, ∀ r ∈ s.db.recordsOf key, r.revision = 1 → r.supersedes = none) ∧
    (∀ key, ∀ a ∈ s.db.recordsOf key, ∀ b ∈ s.db.recordsOf key, b.revision = a.revision + 1 →
      b.supersedes = some a.memoryId) ∧
    (∀ key, ∀ a ∈ s.db.recordsOf key, ∀ b ∈ s.db.recordsOf key, a.revision < b.revision →
      ∀ ea ∈ s.db.events.rows, ∀ eb ∈ s.db.events.rows, a.sourceEventIds = [ea.eventId] →
        b.sourceEventIds = [eb.eventId] → ea.sequence < eb.sequence) := by
  obtain ⟨done, hrec, hm, _⟩ := hr.inv
  obtain ⟨events, hsub, hmap⟩ := hm.sources
  -- a record is that of the event it names, which is one of the receipted
  have hsource : ∀ record ∈ s.db.memoryRecords.rows, ∃ event ∈ s.db.events.rows,
      record.sourceEventIds = [event.eventId] := by
    intro record hrecord
    have hmem : record.sourceEventIds ∈ events.map (fun event => [event.eventId]) := by
      rw [← hmap]
      exact List.mem_map_of_mem hrecord
    obtain ⟨event, hevent, hid⟩ := List.mem_map.mp hmem
    exact ⟨event, List.mem_of_mem_take (hsub.subset hevent), hid.symm⟩
  -- there are no receipts but those of the memory consumer
  have hconsumer : ∀ receipt ∈ s.db.consumerReceipts.rows, receipt.consumerId = memoryConsumer := by
    intro receipt hreceipt
    have hmem : receipt.key ∈ s.db.consumerReceipts.rows.map ConsumerReceipt.key :=
      List.mem_map_of_mem hreceipt
    rw [hrec.receipts] at hmem
    obtain ⟨event, _, hkey⟩ := List.mem_map.mp hmem
    exact (congrArg Prod.fst hkey).symm
  have hreceipt : ∀ event ∈ s.db.events.rows,
      (∃ receipt ∈ s.db.consumerReceipts.rows, receipt.eventId = event.eventId) ↔
        event ∈ s.db.events.rows.take done := by
    intro event hevent
    rw [← hrec.receipt_iff hevent]
    constructor
    · rintro ⟨receipt, hmem, hid⟩
      refine ⟨receipt, Table.get?_eq_some.mpr ⟨hmem, ?_⟩⟩
      rw [ConsumerReceipt.key, hconsumer receipt hmem, hid]
    · rintro ⟨receipt, hget⟩
      obtain ⟨hmem, hkey⟩ := Table.get?_eq_some.mp hget
      exact ⟨receipt, hmem, congrArg Prod.snd hkey⟩
  refine ⟨?_, ?_, hsource, ?_, fun key => (hm.chains key).revisions,
    fun key => (hm.chains key).supersedes_first, fun key => (hm.chains key).supersedes_next, ?_⟩
  -- one receipt: its key is the event
  · intro event _ a ha b hb hida hidb
    refine s.db.consumerReceipts.eq_of_key_eq ha hb ?_
    rw [ConsumerReceipt.key, ConsumerReceipt.key, hconsumer a ha, hconsumer b hb, hida, hidb]
  -- one record: the sources of the records are different events
  · intro event _ a ha b hb hina hinb
    obtain ⟨ea, _, hida⟩ := hsource a ha
    obtain ⟨eb, _, hidb⟩ := hsource b hb
    have hnodup : (s.db.memoryRecords.rows.map MemoryRecord.sourceEventIds).Nodup := by
      rw [hmap]
      have hids := hrec.ordered.ids.sublist ((hsub.trans (List.take_sublist _ _)).map Event.eventId)
      have hlists := hids.map (fun (x y : String) (h : [x] = [y]) => List.singleton_inj.mp h)
      rwa [List.map_map] at hlists
    refine List.inj_on_of_nodup_map hnodup ha hb ?_
    rw [hida, List.mem_singleton] at hina
    rw [hidb, List.mem_singleton] at hinb
    rw [hida, hidb, ← hina, ← hinb]
  -- what has a receipt is a front of the log
  · intro a ha b hb hle hb'
    rw [hreceipt b hb] at hb'
    rw [hreceipt a ha]
    rw [← List.take_append_drop done s.db.events.rows] at ha
    rcases List.mem_append.mp ha with htake | hdrop
    · exact htake
    · exact absurd hle (not_le.mpr (hrec.lt_of_receipted hb' hdrop))
  -- later in a chain is later in the log
  · intro key a ha b hb hlt
    have hrows := hrec.sources_increasing hsub hmap
    exact (hm.chains key).of_lt (hrows.sublist List.filter_sublist) a ha b hb hlt

/-- The outbox row of a memory candidate. -/
def candidateRow : OutboxRow where
  outboxId := 1
  eventId := some "evt_1"
  workspaceId := "w"
  eventType := "memory.candidate"
  actor := "user"
  taskId := none
  operationId := none
  objectRefs := []
  payload := PyVal.payload
    [("kind", .str "FACT"), ("key", .str "editor"), ("scope", .str "workspace"),
    ("value", .str "vim")]
  causationId := none
  correlationId := none
  occurredAt := 1
  learningAllowed := true
  dispatched := false

/-- Two pipelines read the one event and both handle it. -/
def sharedPipelines : PipelineSystem :=
  let db : Database := Database.insertEvent {} candidateRow "evt_1" 1
  let read : ℕ → PipelineTask :=
    Function.update
      (Function.update (fun _ => .handle []) 0 (.handle (sliceTo 100 (db.readEventsAfter "memory")))) 1
      (.handle (sliceTo 100 (db.readEventsAfter "memory")))
  let first := (read 0).move plainBuiltins "memory" "mem_1" db
  let tasks := Function.update read 0 first.1
  let second := (tasks 1).move plainBuiltins "memory" "mem_2" first.2
  ⟨second.2, Function.update tasks 1 second.1⟩

/-- Two pipelines that both read the same event store one record of it. -/
theorem memory_commits_once_shared :
    (sharedPipelines.db.recordsOf ("w", "workspace", "editor", .fact)).map MemoryRecord.memoryId
      = ["mem_1"] ∧
    (sharedPipelines.db.recordsOf ("w", "workspace", "editor", .fact)).map MemoryRecord.revision
      = (List.range (sharedPipelines.db.recordsOf ("w", "workspace", "editor", .fact)).length).map
          (fun j : ℕ => (j : Int) + 1) := by
  have hr : PipelineReached plainBuiltins (fun _ => "memory") sharedPipelines :=
    ((((PipelineReached.fresh.step (.log candidateRow "evt_1" 1)).step (.read 0 100)).step
      (.read 1 100)).step (.move 0 "mem_1")).step (.move 1 "mem_2")
  exact ⟨by decide +kernel, (memory_commits_once hr).2.2.2.2.1 _⟩

end LiandanluNative
