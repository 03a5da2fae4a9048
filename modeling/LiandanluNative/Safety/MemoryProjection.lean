/-
# LiandanluNative.Safety.MemoryProjection — memory as a projection of the event log.

What the memory of a workspace should be is a function of its events: read them in order, and let
each candidate that is valid be remembered after what is known of its key.  The pipelines compute
this in pieces, from whatever stale cursors, beside each other and with crashes in between; the
memory table is nevertheless, but for the ids, the projection of the events that have receipts
(`memory_projects`), and so the newest record of a key is what the last of them has said.
-/
import LiandanluNative.Safety.MemoryCommits
import LiandanluNative.Safety.RunOnce

namespace LiandanluNative

open Lib Lib.Proc

/-! ## The projection

What the records are to be, as a function of the log alone.
-/

/-- A record but for the ids that were drawn for it and for the one before it: what two runs over
one log have in common. -/
def MemoryRecord.content (record : MemoryRecord) : MemoryRecord :=
  { record with memoryId := "", supersedes := none }

/-- What becomes of what is known when the candidate is remembered: the value is what comes back
from the database, and the revision counts what is known of the key. -/
def remember (known : List MemoryRecord) (candidate : MemoryCandidate) : List MemoryRecord :=
  known ++ [{ candidate.record "" none with
    value := candidate.value.jsonDumps.getD .none
    revision :=
      (known.countP (fun record => decide (record.memoryKey = candidate.memoryKey)) : ℕ) + 1 }]

/-- What an event adds to what is known. -/
def learn (py : Builtins) (known : List MemoryRecord) (event : Event) : List MemoryRecord :=
  match event.candidate? py with
  | none => known
  | some candidate => remember known candidate.partitioned

/-- **What a log of events says is to be remembered.** -/
def projection (py : Builtins) (log : List Event) : List MemoryRecord := log.foldl (learn py) []

section

variable {py : Builtins} {db : Database} {done : ℕ}

/-- One more event adds what it teaches. -/
theorem projection_concat (log : List Event) (event : Event) :
    projection py (log ++ [event]) = learn py (projection py log) event := by
  simp only [projection, List.foldl_append, List.foldl_cons, List.foldl_nil]

/-! ## One event

A new event adds its record to the database as it does to the projection; one with a receipt adds
none to either.
-/

/-- The receipts are counted by the events they are of. -/
theorem Receipted.count (hr : Receipted db done) : db.consumerReceipts.rows.length = done := by
  have hlength := congrArg List.length hr.receipts
  rw [List.length_map, List.length_map, List.length_take, min_eq_left hr.within] at hlength
  exact hlength

/-- The memory table is the projection of the events that have receipts, in the order of the log. -/
def Projected (py : Builtins) (db : Database) : Prop :=
  db.memoryRecords.rows.map MemoryRecord.content
    = projection py (db.events.rows.take db.consumerReceipts.rows.length)

/-- The next revision counts what is stored of the key. -/
theorem Recorded.revision (hm : Recorded db done) (candidate : MemoryCandidate) (memoryId : String) :
    (candidate.record memoryId (db.latestRecord candidate.memoryKey)).revision
      = ((db.recordsOf candidate.memoryKey).length : Int) + 1 := by
  have hchain := hm.chains candidate.memoryKey
  rcases (db.recordsOf candidate.memoryKey).eq_nil_or_concat with hnil | ⟨before, last, hsplit⟩
  · rw [Database.latestRecord, hnil]
    rfl
  · rw [List.concat_eq_append] at hsplit
    rw [hsplit] at hchain
    rw [Database.latestRecord, hsplit, hchain.newest_append]
    show last.revision + 1 = _
    have hrevisions := hchain.revisions
    rw [List.map_append, List.length_append, List.length_singleton, List.range_succ,
      List.map_append] at hrevisions
    rw [List.singleton_inj.mp (List.append_inj' hrevisions rfl).2, List.length_append,
      List.length_singleton, Nat.cast_add, Nat.cast_one]

/-- How many records of a key the projection has. -/
theorem Projected.countP (hp : Projected py db) (key : MemoryKey) :
    (projection py (db.events.rows.take db.consumerReceipts.rows.length)).countP
        (fun record => decide (record.memoryKey = key))
      = (db.recordsOf key).length := by
  rw [← hp, List.countP_map, Database.recordsOf, ← List.countP_eq_length_filter]
  rfl

/-- **One event processed**, with its candidate or, once it has a receipt, with any. -/
theorem Projected.process (hp : Projected py db) (hr : Receipted db done) (hm : Recorded db done)
    {event : Event} {events : List Event} (hb : Behind db.events.rows done (event :: events))
    {candidate : Option MemoryCandidate}
    (hcandidate : (∃ receipt,
        db.consumerReceipts.get? (memoryConsumer, event.eventId) = some receipt) ∨
      candidate = (event.candidate? py).map MemoryCandidate.partitioned) (memoryId : String) :
    Projected py (after (processMemoryEvent event candidate memoryId) db) := by
  have hrun := processMemoryEvent_cases event candidate memoryId db
  have hfresh : db.consumerReceipts.get? (memoryConsumer, event.eventId) = none →
      candidate = (event.candidate? py).map MemoryCandidate.partitioned := by
    intro hnone
    rcases hcandidate with ⟨receipt, hsome⟩ | hcandidate
    · cases hnone.symm.trans hsome
    · exact hcandidate
  unfold after
  generalize processMemoryEvent event candidate memoryId db = result at hrun
  cases hrun with
  | refused e => exact hp
  | replayed receipt hreceipt => exact hp
  | ignored habsent hnone =>
      obtain ⟨hnext, _, _⟩ := hr.of_absent hb habsent
      have hnothing : event.candidate? py = none :=
        Option.map_eq_none_iff.mp ((hfresh habsent).symm.trans hnone)
      have hcount := (hr.advance hnext "ignored" none).count
      show db.memoryRecords.rows.map MemoryRecord.content = projection py (db.events.rows.take _)
      rw [hcount, hp, hr.count, List.take_add_one, hnext]
      show _ = projection py (db.events.rows.take done ++ [event])
      rw [projection_concat, learn, hnothing]
  | committed c record value habsent hsome _ hbuilt hjson hfree =>
      obtain ⟨hnext, _, _⟩ := hr.of_absent hb habsent
      obtain ⟨candidate, hlearned, rfl⟩ :=
        Option.map_eq_some_iff.mp ((hfresh habsent).symm.trans hsome)
      subst hbuilt
      let row : MemoryRecord :=
        { candidate.partitioned.record memoryId (db.latestRecord candidate.partitioned.memoryKey) with
          value := value }
      have hunused : db.memoryRecords.get? row.memoryId = none := get?_of_free hfree
      have hcount := ((hr.putRecord row).advance hnext "committed" (some row.memoryId)).count
      show (db.memoryRecords.put row).rows.map MemoryRecord.content
        = projection py (db.events.rows.take _)
      rw [hcount, Table.put_rows_of_get?_none hunused, List.map_append, hp, hr.count,
        List.take_add_one, hnext]
      show _ = projection py (db.events.rows.take done ++ [event])
      rw [projection_concat, learn, hlearned]
      -- the row is what the projection remembers of the event
      have hvalue : candidate.partitioned.value.jsonDumps = some value := hjson
      have hrevision := hm.revision candidate.partitioned memoryId
      have hknown := hp.countP candidate.partitioned.memoryKey
      rw [hr.count] at hknown
      refine congrArg (_ ++ [·]) ?_
      show { candidate.partitioned.record "" none with
        value := value
        revision := (candidate.partitioned.record memoryId
          (db.latestRecord candidate.partitioned.memoryKey)).revision } = _
      rw [hrevision, hvalue, hknown]
      rfl

end

/-! ## The system -/

/-- An event is only left to be ignored once it has a receipt. -/
def PipelineTask.Late (db : Database) : PipelineTask → Prop
  | .ignore event _ => ∃ receipt,
      db.consumerReceipts.get? (memoryConsumer, event.eventId) = some receipt
  | _ => True

/-- What the induction over a run carries beside the receipts. -/
structure PipelineSystem.Projects (py : Builtins) (s : PipelineSystem) : Prop where
  projected : Projected py s.db
  late : ∀ i, (s.pipelines i).Late s.db

namespace PipelineTask

variable {py : Builtins} {db : Database} {done : ℕ}

/-- A receipt that is there stays there. -/
theorem receipt_stays {event : Event} {candidate : Option MemoryCandidate} {memoryId : String}
    {key : String × String} (h : ∃ receipt, db.consumerReceipts.get? key = some receipt) :
    ∃ receipt, (after (processMemoryEvent event candidate memoryId) db).consumerReceipts.get? key
      = some receipt := by
  have hadvanced : ∀ (db' : Database) (status : String) (resultRef : Option String),
      db'.consumerReceipts = db.consumerReceipts →
      ∃ receipt, (db'.advanceConsumer memoryConsumer event.eventId event.sequence status
        resultRef).consumerReceipts.get? key = some receipt := by
    intro db' status resultRef hsame
    show ∃ receipt, (db'.consumerReceipts.putNew _).get? key = some receipt
    rw [hsame]
    obtain ⟨receipt, hreceipt⟩ := h
    exact ⟨receipt, Table.get?_putNew_of_some hreceipt⟩
  have hrun := processMemoryEvent_cases event candidate memoryId db
  unfold after
  generalize processMemoryEvent event candidate memoryId db = result at hrun
  cases hrun with
  | refused e => exact h
  | replayed receipt hreceipt => exact h
  | ignored habsent hnone => exact hadvanced db _ _ rfl
  | committed c record value habsent hsome _ hbuilt hjson hfree => exact hadvanced _ _ _ rfl

/-- A candidate that was not committed is that of an event that has a receipt. -/
theorem receipted_of_none {event : Event} {candidate : MemoryCandidate} {memoryId : String}
    {db' : Database} (h : processMemoryEvent event (some candidate) memoryId db = .ok none db') :
    ∃ receipt, db'.consumerReceipts.get? (memoryConsumer, event.eventId) = some receipt := by
  have hrun := processMemoryEvent_cases event (some candidate) memoryId db
  generalize processMemoryEvent event (some candidate) memoryId db = result at hrun h
  cases hrun with
  | refused e => cases h
  | replayed receipt hreceipt =>
      obtain ⟨_, rfl⟩ := EStateM.Result.ok.inj h
      exact ⟨receipt, hreceipt⟩
  | ignored habsent hnone => cases hnone
  | committed c record value habsent hsome _ hbuilt hjson hfree => cases h

/-- What the pipeline reads of an event is what the projection does. -/
theorem candidate?_of_read {event : Event} {candidate : Option MemoryCandidate}
    (h : candidateFromEvent py event = .ok candidate) :
    event.candidate? py = candidate.filter MemoryCandidate.valid := by
  unfold Event.candidate?
  rw [h]
  cases candidate with
  | none => rfl
  | some candidate =>
      dsimp only
      cases hvalid : candidate.valid <;> simp [Option.filter, hvalid]

/-- What one call leaves: the table is still the projection, no receipt is gone, and what is left to
be ignored has one.  It is put together from the transactions of the call. -/
structure Keeps (py : Builtins) (db : Database) (next : PipelineTask × Database) : Prop where
  projected : Projected py next.2
  late : next.1.Late next.2
  receipts : ∀ key, (∃ receipt, db.consumerReceipts.get? key = some receipt) →
    ∃ receipt, next.2.consumerReceipts.get? key = some receipt

/-- A call to the store that may give the event a receipt. -/
theorem Keeps.of_process (hp : Projected py db) (hr : Receipted db done) (hm : Recorded db done)
    {event : Event} {events : List Event} (hb : Behind db.events.rows done (event :: events))
    {candidate : Option MemoryCandidate}
    (hcandidate : (∃ receipt,
        db.consumerReceipts.get? (memoryConsumer, event.eventId) = some receipt) ∨
      candidate = (event.candidate? py).map MemoryCandidate.partitioned)
    {memoryId : String} {next : PipelineTask} {db' : Database}
    (hafter : after (processMemoryEvent event candidate memoryId) db = db') (hnext : next.Late db') :
    Keeps py db (next, db') := by
  subst hafter
  exact ⟨hp.process hr hm hb hcandidate memoryId, hnext, fun _ h => receipt_stays h⟩

/-- **One call** of a pipeline. -/
theorem move_keeps (consumerId memoryId : String) (hp : Projected py db) (hr : Receipted db done)
    (hm : Recorded db done) {task : PipelineTask} (hheld : task.Held db.events.rows done)
    (hlate : task.Late db) : Keeps py db (task.move py consumerId memoryId db) := by
  -- a move that does not touch the database only changes what the task is at
  have hstay : ∀ {next : PipelineTask}, next.Late db → Keeps py db (next, db) :=
    fun hnext => ⟨hp, hnext, fun _ h => h⟩
  cases task with
  | handle events =>
      cases events with
      | nil => exact hstay trivial
      | cons event events =>
          simp only [move]
          -- a payload that raises ends the call, and nothing is written
          cases hread : candidateFromEvent py event with
          | error e => exact hstay trivial
          | ok candidate =>
              have hlearned := candidate?_of_read hread
              simp only
              cases hvalid : candidate.filter MemoryCandidate.valid with
              -- no valid candidate: the transaction is handed none, and the event teaches nothing
              | none =>
                  have hnone : none = (event.candidate? py).map MemoryCandidate.partitioned := by
                    rw [hlearned, hvalid, Option.map_none]
                  simp only
                  cases hrun : processMemoryEvent event none memoryId db with
                  | error e db' =>
                      exact .of_process hp hr hm hheld (Or.inr hnone) (after_of_error hrun) trivial
                  | ok answer db' =>
                      exact .of_process hp hr hm hheld (Or.inr hnone) (after_of_ok hrun) trivial
              -- a valid one: the transaction is handed what the log says the event teaches
              | some valid =>
                  have hsome : some valid.partitioned
                      = (event.candidate? py).map MemoryCandidate.partitioned := by
                    rw [hlearned, hvalid, Option.map_some]
                  simp only
                  cases hrun : processMemoryEvent event (some valid.partitioned) memoryId db with
                  | error e db' =>
                      exact .of_process hp hr hm hheld (Or.inr hsome) (after_of_error hrun) trivial
                  | ok answer db' =>
                      have hkeeps := @Keeps.of_process py db done hp hr hm event events hheld _
                        (Or.inr hsome) memoryId
                      cases answer with
                      | none => exact hkeeps (after_of_ok hrun) (receipted_of_none hrun)
                      | some record => exact hkeeps (after_of_ok hrun) trivial
  | ignore event events =>
      simp only [move]
      cases hrun : processMemoryEvent event none memoryId db with
      | error e db' => exact .of_process hp hr hm hheld (Or.inl hlate) (after_of_error hrun) trivial
      | ok answer db' => exact .of_process hp hr hm hheld (Or.inl hlate) (after_of_ok hrun) trivial
  | ack event events =>
      simp only [move]
      -- an ack reads first, and its write is another move
      cases db.ackAllowed consumerId event.sequence with
      | error e => exact hstay trivial
      | ok allowed => cases allowed <;> exact hstay trivial
  | writeAck event events => exact ⟨hp, trivial, fun _ h => h⟩

end PipelineTask

/-- **One step** of any pipeline keeps the table the projection. -/
theorem PipelineSystem.Projects.step {py : Builtins} {consumerId : ℕ → String}
    {s s' : PipelineSystem} (hs : s.Projects py) (hinv : s.Inv)
    (next : PipelineStep py consumerId s s') : s'.Projects py := by
  obtain ⟨done, hr, hm, hheld⟩ := hinv
  -- a pipeline that is given events to handle has nothing to ignore
  have hhandle : ∀ (i : ℕ) (events : List Event) (j : ℕ),
      (Function.update s.pipelines i (.handle events) j).Late s.db := by
    intro i events j
    by_cases hj : j = i
    · rw [hj, Function.update_self]
      trivial
    · rw [Function.update_of_ne hj]
      exact hs.late j
  cases next with
  | log row eventId observedAt =>
      obtain ⟨_, hcases⟩ := hr.ordered.insertEvent row eventId observedAt
      have hother :
          (s.db.insertEvent row eventId observedAt).consumerReceipts = s.db.consumerReceipts ∧
            (s.db.insertEvent row eventId observedAt).memoryRecords = s.db.memoryRecords := by
        unfold Database.insertEvent
        cases s.db.eventById eventId <;> exact ⟨rfl, rfl⟩
      have htake : (s.db.insertEvent row eventId observedAt).events.rows.take done
          = s.db.events.rows.take done := by
        rcases hcases with ⟨_, hsame⟩ | ⟨_, happend⟩
        · rw [hsame]
        · rw [happend, List.take_append_of_le_length hr.within]
      refine ⟨?_, fun i => ?_⟩
      · have hp := hs.projected
        unfold Projected at hp ⊢
        rw [hr.count] at hp
        rw [hother.1, hother.2, hr.count, htake]
        exact hp
      · have hlate := hs.late i
        cases htask : s.pipelines i with
        | ignore event events =>
            rw [htask] at hlate
            obtain ⟨receipt, hreceipt⟩ := hlate
            exact ⟨receipt, hother.1.symm ▸ hreceipt⟩
        | _ => trivial
  | read i limit => exact ⟨hs.projected, hhandle i _⟩
  | crash i => exact ⟨hs.projected, hhandle i []⟩
  | move i memoryId =>
      have hkeeps := PipelineTask.move_keeps (consumerId i) memoryId hs.projected hr hm (hheld i)
        (hs.late i)
      refine ⟨hkeeps.projected, fun j => ?_⟩
      show (Function.update s.pipelines i _ j).Late _
      by_cases hj : j = i
      · rw [hj, Function.update_self]
        exact hkeeps.late
      · rw [Function.update_of_ne hj]
        have hlate := hs.late j
        cases htask : s.pipelines j with
        | ignore event events =>
            rw [htask] at hlate
            exact hkeeps.receipts _ hlate
        | _ => trivial

/-- So it is wherever the pipelines have got to. -/
theorem PipelineReached.projects {py : Builtins} {consumerId : ℕ → String} {s : PipelineSystem}
    (hr : PipelineReached py consumerId s) : s.Projects py := by
  induction hr with
  | fresh => exact ⟨rfl, fun _ => trivial⟩
  | step before next ih => exact ih.step before.inv next

/-- **Memory is a projection of the event log.**  Whatever the pipelines do, from whatever stale
cursors, with whatever limits and wherever they crash: there is a prefix of the log such that the
events with receipts are those of the prefix, the memory table is, but for the ids, the projection of
the prefix, and the newest record of a key is the last one the projection has of it. -/
theorem memory_projects {py : Builtins} {consumerId : ℕ → String} {s : PipelineSystem}
    (hs : PipelineReached py consumerId s) :
    ∃ seen, seen <+: s.db.events.rows ∧
      (∀ event ∈ s.db.events.rows, event ∈ seen ↔
        ∃ receipt, s.db.consumerReceipts.get? (memoryConsumer, event.eventId) = some receipt) ∧
      s.db.memoryRecords.rows.map MemoryRecord.content = projection py seen ∧
      ∀ key, (s.db.latestRecord key).map MemoryRecord.content
        = ((projection py seen).filter (fun record => decide (record.memoryKey = key))).getLast? := by
  obtain ⟨done, hr, hm, _⟩ := hs.inv
  have hp := hs.projects.projected
  unfold Projected at hp
  rw [hr.count] at hp
  refine ⟨s.db.events.rows.take done, List.take_prefix _ _,
    fun event hevent => (hr.receipt_iff hevent).symm, hp, fun key => ?_⟩
  have hfilter : (projection py (s.db.events.rows.take done)).filter
      (fun record => decide (record.memoryKey = key))
        = (s.db.recordsOf key).map MemoryRecord.content := by
    rw [← hp, List.filter_map]
    rfl
  rw [hfilter, List.getLast?_map]
  -- the newest record is the last of its chain
  have hchain := hm.chains key
  refine congrArg (Option.map MemoryRecord.content) ?_
  rcases (s.db.recordsOf key).eq_nil_or_concat with hnil | ⟨before, last, hsplit⟩
  · rw [Database.latestRecord, hnil]
    rfl
  · rw [List.concat_eq_append] at hsplit
    rw [hsplit] at hchain
    rw [Database.latestRecord, hsplit, hchain.newest_append, List.getLast?_concat]

/-- Two pipelines handled the one event; it is remembered once. -/
theorem memory_projects_shared :
    (∃ seen, seen <+: sharedPipelines.db.events.rows ∧
      sharedPipelines.db.memoryRecords.rows.map MemoryRecord.content
        = projection plainBuiltins seen) ∧
      (projection plainBuiltins sharedPipelines.db.events.rows).map
        (fun record => (record.key, record.revision)) = [("editor", 1)] := by
  have hr : PipelineReached plainBuiltins (fun _ => "memory") sharedPipelines :=
    ((((PipelineReached.fresh.step (.log candidateRow "evt_1" 1)).step (.read 0 100)).step
      (.read 1 100)).step (.move 0 "mem_1")).step (.move 1 "mem_2")
  obtain ⟨seen, hprefix, _, hrows, _⟩ := memory_projects hr
  exact ⟨⟨seen, hprefix, hrows⟩, by decide +kernel⟩

end LiandanluNative
