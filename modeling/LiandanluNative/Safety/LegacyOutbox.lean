/-
# LiandanluNative.Safety.LegacyOutbox — outbox rows without an event id, and two dispatchers.

A row written before the outbox had the column `event_id` is given an id when it is delivered, and
`INSERT OR IGNORE` recognises a second delivery by that id.  But the row a dispatcher works from was
read before its transaction began: a copy read while another dispatcher had not yet committed still
has no id, is given a second one, and becomes a second event.

So what yields a second event is a copy of a row that has been delivered since it was read, and
nothing else: `legacy_once_iff` says this of whole runs, on any number of connections.

`Dispatched` relates any state of a run to the database that nobody had delivered from: what is left
of its outbox, and what has come of the rest.  One row keeps it (`Dispatched.delivering`), the loop
does by induction over the rows, and a run by induction over its moves.
-/
import LiandanluNative.Lib.Runs
import LiandanluNative.Safety.OutboxDelivery

namespace LiandanluNative

open Lib Lib.Proc Lib.Runs

/-! ## What a delivery adds to the log

A delivery names the row if it has no name, inserts the event under that name if there is none yet,
and marks the row.
-/

/-- `row["event_id"]` is missing, as the migration leaves it, or empty.  Only such a row is given an
id. -/
def OutboxRow.Unnamed (row : OutboxRow) : Prop := row.eventId = none ∨ row.eventId = some ""

/-- A row without a name is delivered under the new id. -/
theorem OutboxRow.deliveredId_of_unnamed {row : OutboxRow} (h : row.Unnamed) (newId : String) :
    row.deliveredId newId = newId := by
  rcases h with h | h <;> simp [deliveredId, h]

/-- A named row keeps its name. -/
theorem OutboxRow.deliveredId_of_named {row : OutboxRow} (h : ¬ row.Unnamed) (newId : String) :
    row.eventId = some (row.deliveredId newId) := by
  cases hid : row.eventId with
  | none => exact absurd (Or.inl hid) h
  | some eventId =>
      have hne : eventId ≠ "" := by
        rintro rfl
        exact h (Or.inr hid)
      simp only [deliveredId, hid, if_neg hne]

/-- The database when a row has been given its id. -/
def Database.naming (db : Database) (row : OutboxRow) (newId : String) : Database :=
  if row.eventId.isNone then
    db.updateOutbox row.outboxId (fun r => { r with eventId := some (row.deliveredId newId) })
  else db

/-- The database when a row has been delivered. -/
def Database.delivering (db : Database) (row : OutboxRow) (newId : String) (observedAt : ℚ) :
    Database :=
  ((db.naming row newId).insertEvent row (row.deliveredId newId) observedAt).updateOutbox
    row.outboxId (fun r => { r with dispatched := true })

/-- The loop's body always comes to its end, since what was inserted is found. -/
theorem dispatchRow_eq_ok (row : OutboxRow) (newId : String) (observedAt : ℚ) (db : Database) :
    ∃ event, dispatchRow row newId observedAt db
      = .ok event (db.delivering row newId observedAt) := by
  obtain ⟨event, hfound⟩ := Database.eventById_insertEvent (db.naming row newId) row
    (row.deliveredId newId) observedAt
  have hfound' : (db.delivering row newId observedAt).eventById (row.deliveredId newId)
      = some event := by
    rw [Database.delivering, Database.eventById_updateOutbox]
    exact hfound
  -- after the row has its id, inserting, marking and looking up are three steps
  have hnamed : db.naming row newId = if row.eventId.isNone then
      db.updateOutbox row.outboxId (fun r => { r with eventId := some (row.deliveredId newId) })
    else db := rfl
  refine ⟨event, ?_⟩
  unfold dispatchRow
  by_cases hnone : row.eventId.isNone
  · rw [if_pos hnone] at hnamed ⊢
    refine bind_eq_ok.mpr ⟨(), db.naming row newId, hnamed ▸ rfl, bind_eq_ok.mpr ⟨(), _, rfl,
      bind_eq_ok.mpr ⟨(), db.delivering row newId observedAt, rfl,
        bind_eq_ok.mpr ⟨_, db.delivering row newId observedAt, rfl, ?_⟩⟩⟩⟩
    rw [hfound']
    rfl
  · rw [if_neg hnone] at hnamed ⊢
    refine bind_eq_ok.mpr ⟨(), _, rfl, bind_eq_ok.mpr ⟨(), db.delivering row newId observedAt, ?_,
      bind_eq_ok.mpr ⟨_, db.delivering row newId observedAt, rfl, ?_⟩⟩⟩
    · rw [Database.delivering, hnamed]
      rfl
    · rw [hfound']
      rfl

/-- What the log has grown by when a row was delivered, with the row's id: one event, or nothing if
its id was taken. -/
def Database.grown (db next : Database) (row : OutboxRow) : List (Int × Event) :=
  (next.events.rows.drop db.events.rows.length).map (fun event => (row.outboxId, event))

/-- What a delivery adds to the log, row by row. -/
def yieldedBy (newId : Int → String) (observedAt : Int → ℚ) :
    List OutboxRow → Database → List (Int × Event)
  | [], _ => []
  | row :: rows, db =>
      let next := after (dispatchRow row (newId row.outboxId) (observedAt row.outboxId)) db
      db.grown next row ++ yieldedBy newId observedAt rows next

/-- The new ids of the rows differ from each other, from those in the log and from the names of the
rows themselves. -/
structure NamesFresh (db : Database) (newId : Int → String) (rows : List OutboxRow) : Prop where
  apart : (rows.map (fun row => newId row.outboxId)).Nodup
  logged : ∀ row ∈ rows, ∀ event ∈ db.events.rows, event.eventId ≠ newId row.outboxId
  names : ∀ row ∈ rows, ∀ other ∈ rows, other.eventId ≠ some (newId row.outboxId)

/-! ## Runs of dispatchers

Each connection reads rows and delivers them later, in a transaction of its own; between the two any
other may move.
-/

/-- The connections, with a record of which outbox row each event of the log came from.  The record
is kept for the statement; no dispatcher reads it. -/
structure DispatchSystem extends OutboxSystem where
  yielded : List (Int × Event)

/-- The parts of `dispatch_event_outbox`: its reading, and its transaction, which commits what the
last reading found or is rolled back. -/
inductive Dispatch where
  | select (connection : ℕ) (limit : Int)
  | deliver (connection : ℕ) (newId : Int → String) (observedAt : Int → ℚ)
  | rollBack (connection : ℕ)

namespace DispatchSystem

/-- A database whose outbox nobody has read yet. -/
def started (db : Database) : DispatchSystem := ⟨⟨db, fun _ => []⟩, []⟩

def exec (s : DispatchSystem) : Dispatch → DispatchSystem
  | .select connection limit =>
      { s with selected := Function.update s.selected connection (s.db.pendingOutbox limit) }
  | .deliver connection newId observedAt =>
      { db := after (transaction (dispatchRows newId observedAt (s.selected connection))) s.db
        selected := Function.update s.selected connection []
        yielded := s.yielded ++ yieldedBy newId observedAt (s.selected connection) s.db }
  | .rollBack connection => { s with selected := Function.update s.selected connection [] }

/-- `new_id` gives ids that are not in use. -/
def NewIds (s : DispatchSystem) : Dispatch → Prop
  | .deliver connection newId _ => NamesFresh s.db newId (s.selected connection)
  | _ => True

/-- Every row without an id that the transaction delivers is in the outbox as it was read: nobody
has delivered it since. -/
def Unspent (s : DispatchSystem) : Dispatch → Prop
  | .deliver connection _ _ =>
      ∀ row ∈ s.selected connection, row.Unnamed → row ∈ s.db.eventOutbox.rows
  | _ => True

/-- No outbox row has yielded two events. -/
def Once (s : DispatchSystem) : Prop := (s.yielded.map Prod.fst).Nodup

end DispatchSystem

/-! ## One row

What the three statements of a delivery do to the row, to the others and to the log.
-/

/-- Updating a row changes that row and no other. -/
theorem Database.get?_updateOutbox (db : Database) (outboxId : Int) {set : OutboxRow → OutboxRow}
    (hset : ∀ row, (set row).outboxId = row.outboxId) (k : Int) :
    (db.updateOutbox outboxId set).eventOutbox.get? k
      = if k = outboxId then (db.eventOutbox.get? k).map set else db.eventOutbox.get? k := by
  unfold Database.updateOutbox
  split
  · rename_i hnone
    by_cases hk : k = outboxId
    · rw [if_pos hk, hk, hnone]
      rfl
    · rw [if_neg hk]
  · rename_i row hfound
    have hkey : (set row).outboxId = outboxId := (hset row).trans (Table.key_of_get? hfound)
    show (db.eventOutbox.put (set row)).get? k = _
    rw [Table.get?_put, hkey]
    by_cases hk : k = outboxId
    · rw [if_pos hk, if_pos hk.symm, hk, hfound]
      rfl
    · rw [if_neg hk, if_neg (Ne.symm hk)]

/-- Naming a row is no matter of the log. -/
theorem Database.naming_log (db : Database) (row : OutboxRow) (newId : String) :
    (db.naming row newId).events = db.events ∧
    (db.naming row newId).eventSequence = db.eventSequence := by
  unfold Database.naming Database.updateOutbox
  split
  · split <;> exact ⟨rfl, rfl⟩
  · exact ⟨rfl, rfl⟩

/-- Only the row that is delivered changes, -/
theorem Database.mem_delivering_of_ne (db : Database) {row stored : OutboxRow}
    (hne : stored.outboxId ≠ row.outboxId) (newId : String) (observedAt : ℚ) :
    stored ∈ (db.delivering row newId observedAt).eventOutbox.rows
      ↔ stored ∈ db.eventOutbox.rows := by
  have hnaming : (db.naming row newId).eventOutbox.get? stored.outboxId
      = db.eventOutbox.get? stored.outboxId := by
    unfold Database.naming
    split
    · rw [Database.get?_updateOutbox, if_neg hne]
      exact fun _ => rfl
    · rfl
  have hget : (db.delivering row newId observedAt).eventOutbox.get? stored.outboxId
      = db.eventOutbox.get? stored.outboxId := by
    rw [Database.delivering, Database.get?_updateOutbox, if_neg hne, ← hnaming]
    · unfold Database.insertEvent
      split <;> rfl
    · exact fun _ => rfl
  constructor
  · intro hmem
    exact Table.mem_of_get? (hget ▸ Table.get?_of_mem hmem)
  · intro hmem
    exact Table.mem_of_get? (hget.trans (Table.get?_of_mem hmem))

/-- and it is marked. -/
theorem Database.dispatched_of_mem_delivering {db : Database} {row stored : OutboxRow}
    {newId : String} {observedAt : ℚ}
    (hmem : stored ∈ (db.delivering row newId observedAt).eventOutbox.rows)
    (hsame : stored.outboxId = row.outboxId) : stored.dispatched = true := by
  have hget := Table.get?_of_mem hmem
  rw [Database.delivering, Database.get?_updateOutbox, if_pos hsame, Option.map_eq_some_iff] at hget
  · obtain ⟨before, _, hstored⟩ := hget
    rw [← hstored]
  · exact fun _ => rfl

/-- So of the rows that waited, the others still do. -/
theorem Database.mem_delivering_iff (db : Database) {row other : OutboxRow}
    (hkey : other.outboxId = row.outboxId → other = row) (hwaiting : other.dispatched = false)
    (newId : String) (observedAt : ℚ) :
    other ∈ (db.delivering row newId observedAt).eventOutbox.rows
      ↔ other ∈ db.eventOutbox.rows ∧ other ≠ row := by
  by_cases hsame : other.outboxId = row.outboxId
  · refine iff_of_false (fun hmem => ?_) (fun h => h.2 (hkey hsame))
    have htrue := Database.dispatched_of_mem_delivering hmem hsame
    rw [hwaiting] at htrue
    cases htrue
  · have hne : other ≠ row := by
      rintro rfl
      exact hsame rfl
    rw [Database.mem_delivering_of_ne db hsame, and_iff_left hne]

/-- The log is as before if the row's id is taken, and otherwise one event longer. -/
theorem Database.LogOrdered.delivering {db : Database} (ho : db.LogOrdered) (row : OutboxRow)
    (newId : String) (observedAt : ℚ) :
    (db.delivering row newId observedAt).LogOrdered ∧
    (((∃ event, db.eventById (row.deliveredId newId) = some event) ∧
        (db.delivering row newId observedAt).events = db.events) ∨
      (db.eventById (row.deliveredId newId) = none ∧
        (db.delivering row newId observedAt).events.rows
          = db.events.rows
            ++ [row.event (db.eventSequence + 1) (row.deliveredId newId) observedAt])) := by
  obtain ⟨hevents, hseq⟩ := db.naming_log row newId
  obtain ⟨hordered, hcases⟩ :=
    (ho.congr hevents hseq).insertEvent row (row.deliveredId newId) observedAt
  have hsame : (db.delivering row newId observedAt).events
        = ((db.naming row newId).insertEvent row (row.deliveredId newId) observedAt).events ∧
      (db.delivering row newId observedAt).eventSequence = ((db.naming row newId).insertEvent row
        (row.deliveredId newId) observedAt).eventSequence := by
    unfold Database.delivering Database.updateOutbox
    split <;> exact ⟨rfl, rfl⟩
  have hby : (db.naming row newId).eventById (row.deliveredId newId)
      = db.eventById (row.deliveredId newId) := by
    unfold Database.eventById
    rw [hevents]
  rw [hby, hevents, hseq] at hcases
  rw [hsame.1]
  exact ⟨hordered.congr hsame.1 hsame.2, hcases⟩

/-- Nothing, where the log is as it was. -/
theorem Database.grown_of_eq {db next : Database} (h : next.events = db.events) (row : OutboxRow) :
    db.grown next row = [] := by
  rw [grown, h, List.drop_length, List.map_nil]

/-- The event, where the log is one longer. -/
theorem Database.grown_of_snoc {db next : Database} {event : Event}
    (h : next.events.rows = db.events.rows ++ [event]) (row : OutboxRow) :
    db.grown next row = [(row.outboxId, event)] := by
  rw [grown, h, List.drop_left, List.map_singleton]

/-- The new ids of the other rows stay fresh. -/
theorem NamesFresh.delivering {db : Database} {newId : Int → String} {row : OutboxRow}
    {rows : List OutboxRow} (hf : NamesFresh db newId (row :: rows)) (ho : db.LogOrdered)
    (observedAt : ℚ) :
    NamesFresh (db.delivering row (newId row.outboxId) observedAt) newId rows := by
  obtain ⟨happart, hrest⟩ := List.nodup_cons.mp hf.apart
  refine ⟨hrest, ?_, ?_⟩
  · intro other hother event hevent
    rcases (ho.delivering row (newId row.outboxId) observedAt).2 with ⟨_, hsame⟩ | ⟨_, hlonger⟩
    · rw [hsame] at hevent
      exact hf.logged other (List.mem_cons_of_mem _ hother) event hevent
    · rw [hlonger, List.mem_append, List.mem_singleton] at hevent
      rcases hevent with hold | rfl
      · exact hf.logged other (List.mem_cons_of_mem _ hother) event hold
      · -- the event just added has the row's name, or its new id
        show row.deliveredId (newId row.outboxId) ≠ newId other.outboxId
        by_cases hun : row.Unnamed
        · rw [OutboxRow.deliveredId_of_unnamed hun]
          intro heq
          exact happart (List.mem_map.mpr ⟨other, hother, heq.symm⟩)
        · intro heq
          refine hf.names other (List.mem_cons_of_mem _ hother) row List.mem_cons_self ?_
          rw [← heq]
          exact OutboxRow.deliveredId_of_named hun _
  · intro a ha b hb
    exact hf.names a (List.mem_cons_of_mem _ ha) b (List.mem_cons_of_mem _ hb)

/-- An event that is found is found in a longer log. -/
theorem Database.eventById_of_prefix {db next : Database} {more : List Event}
    (h : next.events.rows = db.events.rows ++ more) {eventId : String} {event : Event}
    (hfound : db.eventById eventId = some event) : next.eventById eventId = some event := by
  unfold Database.eventById at hfound ⊢
  rw [h, List.find?_append, hfound]
  rfl

/-! ## The invariant -/

/-- What dispatchers have made of a database: the rows nobody has delivered are those there were; a
row without an id is one of them exactly as long as it has yielded nothing; and a named row that
has yielded an event is known by its name. -/
structure Dispatched (start db : Database) (yielded : List (Int × Event)) : Prop where
  ordered : db.LogOrdered
  log : db.events.rows = start.events.rows ++ yielded.map Prod.snd
  waiting : ∀ row ∈ db.eventOutbox.rows, row.dispatched = false → row ∈ start.eventOutbox.rows
  unnamed : ∀ row ∈ start.eventOutbox.rows, row.dispatched = false → row.Unnamed →
    (row ∈ db.eventOutbox.rows ↔ row.outboxId ∉ yielded.map Prod.fst)
  named : ∀ row ∈ start.eventOutbox.rows, row.outboxId ∈ yielded.map Prod.fst →
    ∀ eventId, eventId ≠ "" → row.eventId = some eventId →
    ∃ event, db.eventById eventId = some event

/-- What a connection holds of the rows that were waiting. -/
structure HoldsRows (start : Database) (rows : List OutboxRow) : Prop where
  waiting : ∀ row ∈ rows, row ∈ start.eventOutbox.rows ∧ row.dispatched = false
  ids : (rows.map OutboxRow.outboxId).Nodup

theorem HoldsRows.nil {start : Database} : HoldsRows start [] :=
  ⟨fun _ h => absurd h List.not_mem_nil, .nil⟩

/-- A connection reads rows that are still waiting, each once. -/
theorem Dispatched.holds {start db : Database} {yielded : List (Int × Event)}
    (hd : Dispatched start db yielded) (limit : Int) : HoldsRows start (db.pendingOutbox limit) := by
  have hperm := List.perm_insertionSort (fun a b : OutboxRow => a.outboxId ≤ b.outboxId)
    (db.eventOutbox.rows.filter (fun row => !row.dispatched))
  have hsub : ∀ rows, rows.Sublist
      ((db.eventOutbox.rows.filter (fun row => !row.dispatched)).insertionSort
        (fun a b => a.outboxId ≤ b.outboxId)) → HoldsRows start rows := by
    intro rows hrows
    refine ⟨fun row hrow => ?_, ?_⟩
    · obtain ⟨hmem, hwaiting⟩ := List.mem_filter.mp (hperm.mem_iff.mp (hrows.subset hrow))
      have hfalse : row.dispatched = false := by simpa using hwaiting
      exact ⟨hd.waiting row hmem hfalse, hfalse⟩
    · refine (hrows.map OutboxRow.outboxId).nodup ((hperm.map OutboxRow.outboxId).nodup_iff.mpr ?_)
      exact (List.filter_sublist.map OutboxRow.outboxId).nodup db.eventOutbox.nodup
  unfold Database.pendingOutbox
  dsimp only
  split
  · exact hsub _ (List.Sublist.refl _)
  · exact hsub _ (List.take_sublist _ _)

namespace Dispatched

variable {start db : Database} {yielded : List (Int × Event)}

/-- Before the first delivery. -/
theorem refl (ho : start.LogOrdered) : Dispatched start start [] where
  ordered := ho
  log := by simp
  waiting _ hrow _ := hrow
  unnamed row hrow _ _ := by simp [hrow]
  named _ _ h := by simp at h

/-- A row that finds its id free has yielded nothing, if it has a name; if not, it has yielded nothing
as long as nobody has delivered it. -/
theorem first_yield_iff (hd : Dispatched start db yielded) {row : OutboxRow}
    (hrow : row ∈ start.eventOutbox.rows) (hwaiting : row.dispatched = false) {newId : String}
    (hfree : db.eventById (row.deliveredId newId) = none) :
    row.outboxId ∉ yielded.map Prod.fst ↔ (row.Unnamed → row ∈ db.eventOutbox.rows) := by
  by_cases hun : row.Unnamed
  · rw [← hd.unnamed row hrow hwaiting hun]
    exact ⟨fun h _ => h, fun h => h hun⟩
  · refine iff_of_true (fun hyield => ?_) (fun h => absurd h hun)
    have hid := OutboxRow.deliveredId_of_named hun newId
    have hne : row.deliveredId newId ≠ "" := by
      intro hempty
      exact hun (Or.inr (hempty ▸ hid))
    obtain ⟨found, hfound⟩ := hd.named row hrow hyield _ hne hid
    rw [hfree] at hfound
    cases hfound

/-- **One row.** It yields an event, unless it has a name that is taken. -/
theorem delivering (hd : Dispatched start db yielded) {row : OutboxRow}
    (hrow : row ∈ start.eventOutbox.rows) (hwaiting : row.dispatched = false) {newId : String}
    (hnew : row.Unnamed → db.eventById newId = none) (observedAt : ℚ) :
    Dispatched start (db.delivering row newId observedAt)
      (yielded ++ db.grown (db.delivering row newId observedAt) row) ∧
    (((yielded ++ db.grown (db.delivering row newId observedAt) row).map Prod.fst).Nodup ↔
      (yielded.map Prod.fst).Nodup ∧ (row.Unnamed → row ∈ db.eventOutbox.rows)) := by
  obtain ⟨hordered, hcases⟩ := hd.ordered.delivering row newId observedAt
  -- a row that is still waiting is one that nobody has delivered, and not this one
  have hothers : ∀ other ∈ start.eventOutbox.rows, other.dispatched = false →
      (other ∈ (db.delivering row newId observedAt).eventOutbox.rows
        ↔ other ∈ db.eventOutbox.rows ∧ other ≠ row) := by
    intro other hother hfalse
    exact db.mem_delivering_iff (start.eventOutbox.eq_of_key_eq hother hrow) hfalse _ _
  have hwaits : ∀ stored ∈ (db.delivering row newId observedAt).eventOutbox.rows,
      stored.dispatched = false → stored ∈ start.eventOutbox.rows := by
    intro stored hstored hfalse
    by_cases hsame : stored.outboxId = row.outboxId
    · rw [Database.dispatched_of_mem_delivering hstored hsame] at hfalse
      cases hfalse
    · exact hd.waiting stored ((Database.mem_delivering_of_ne db hsame _ _).mp hstored) hfalse
  rcases hcases with ⟨⟨event, htaken⟩, hevents⟩ | ⟨hfree, hevents⟩
  · -- the id is taken, which a new one is not
    have hnamed : ¬ row.Unnamed := by
      intro hun
      rw [OutboxRow.deliveredId_of_unnamed hun, hnew hun] at htaken
      cases htaken
    rw [Database.grown_of_eq hevents, List.append_nil]
    refine ⟨⟨hordered, ?_, hwaits, ?_, ?_⟩, ?_⟩
    · rw [hevents]
      exact hd.log
    · intro other hother hfalse hun
      rw [hothers other hother hfalse, ← hd.unnamed other hother hfalse hun]
      exact and_iff_left (fun heq => hnamed (heq ▸ hun))
    · intro other hother hyield eventId hne hid
      obtain ⟨found, hfound⟩ := hd.named other hother hyield eventId hne hid
      refine ⟨found, @Database.eventById_of_prefix _ _ [] ?_ _ _ hfound⟩
      rw [hevents, List.append_nil]
    · exact (and_iff_left (fun hun => absurd hun hnamed)).symm
  · -- the id is free, and the log grows by one event of this row
    rw [Database.grown_of_snoc hevents]
    refine ⟨⟨hordered, ?_, hwaits, ?_, ?_⟩, ?_⟩
    · rw [hevents, hd.log, List.append_assoc, List.map_append]
      rfl
    · intro other hother hfalse hun
      rw [hothers other hother hfalse, hd.unnamed other hother hfalse hun]
      by_cases heq : other = row
      · simp [heq]
      · have hid : other.outboxId ≠ row.outboxId := by
          intro hsame
          exact heq (start.eventOutbox.eq_of_key_eq hother hrow hsame)
        simp [heq, hid]
    · intro other hother hyield eventId hne hid
      rw [List.map_append, List.mem_append] at hyield
      rcases hyield with hbefore | hnow
      · obtain ⟨found, hfound⟩ := hd.named other hother hbefore eventId hne hid
        exact ⟨found, Database.eventById_of_prefix hevents hfound⟩
      · have hsame : other.outboxId = row.outboxId := by simpa using hnow
        have heq : other = row := start.eventOutbox.eq_of_key_eq hother hrow hsame
        have hname : row.deliveredId newId = eventId := by
          rw [← heq]
          simp only [OutboxRow.deliveredId, hid, if_neg hne]
        refine Option.ne_none_iff_exists'.mp (fun hnone => ?_)
        have hlast : row.event (db.eventSequence + 1) (row.deliveredId newId) observedAt
            ∈ (db.delivering row newId observedAt).events.rows := by
          rw [hevents]
          exact List.mem_append_right _ (List.mem_singleton.mpr rfl)
        exact Database.eventById_eq_none.mp hnone _ hlast hname
    · rw [← hd.first_yield_iff hrow hwaiting hfree, List.map_append, List.map_singleton,
        List.nodup_append_comm, List.singleton_append, List.nodup_cons, and_comm]

/-- The loop, by induction on the rows read. -/
theorem dispatchRows {newId : Int → String} (observedAt : Int → ℚ) :
    ∀ {rows : List OutboxRow} {db : Database} {yielded : List (Int × Event)},
      Dispatched start db yielded → HoldsRows start rows → NamesFresh db newId rows →
      ∃ events db', LiandanluNative.dispatchRows newId observedAt rows db = .ok events db' ∧
        Dispatched start db' (yielded ++ yieldedBy newId observedAt rows db) ∧
        (((yielded ++ yieldedBy newId observedAt rows db).map Prod.fst).Nodup ↔
          (yielded.map Prod.fst).Nodup ∧
          ∀ row ∈ rows, row.Unnamed → row ∈ db.eventOutbox.rows)
  | [], db, yielded, hd, _, _ => by
      refine ⟨[], db, rfl, ?_, ?_⟩
      · rw [yieldedBy, List.append_nil]
        exact hd
      · simp [yieldedBy]
  | row :: rows, db, yielded, hd, hholds, hfresh => by
      obtain ⟨hrow, hwaiting⟩ := hholds.waiting row List.mem_cons_self
      obtain ⟨hid, hids⟩ := List.nodup_cons.mp hholds.ids
      -- a row without an event id is given one that the log does not have
      have hnew : row.Unnamed → db.eventById (newId row.outboxId) = none := fun _ =>
        Database.eventById_eq_none.mpr (hfresh.logged row List.mem_cons_self)
      -- the first row is delivered, and what was promised of the rest still holds
      obtain ⟨hd₁, hone⟩ := hd.delivering hrow hwaiting hnew (observedAt row.outboxId)
      obtain ⟨event, hrun⟩ :=
        dispatchRow_eq_ok row (newId row.outboxId) (observedAt row.outboxId) db
      have hrest : HoldsRows start rows :=
        ⟨fun other hother => hholds.waiting other (List.mem_cons_of_mem _ hother), hids⟩
      obtain ⟨events, db', hrun', hd', hall⟩ :=
        dispatchRows observedAt hd₁ hrest (hfresh.delivering hd.ordered (observedAt row.outboxId))
      -- what is yielded: the event of the first row, if the log grew by one, and what the rest
      -- yields
      have hyield : yieldedBy newId observedAt (row :: rows) db
          = db.grown (db.delivering row (newId row.outboxId) (observedAt row.outboxId)) row
            ++ yieldedBy newId observedAt rows
              (db.delivering row (newId row.outboxId) (observedAt row.outboxId)) := by
        rw [yieldedBy, after_of_ok hrun]
      rw [hyield, ← List.append_assoc]
      refine ⟨event :: events, db', ?_, hd', ?_⟩
      · exact bind_eq_ok.mpr ⟨event, _, hrun, bind_eq_ok.mpr ⟨events, db', hrun', rfl⟩⟩
      · -- the other rows are where they were
        have hothers : ∀ other ∈ rows,
            (other ∈ (db.delivering row (newId row.outboxId)
                (observedAt row.outboxId)).eventOutbox.rows ↔ other ∈ db.eventOutbox.rows) := by
          intro other hother
          refine db.mem_delivering_of_ne (fun hsame => hid ?_) _ _
          rw [← hsame]
          exact List.mem_map.mpr ⟨other, hother, rfl⟩
        rw [hall, hone, and_assoc, List.forall_mem_cons]
        refine and_congr_right (fun _ => and_congr_right (fun _ => ?_))
        exact forall₂_congr (fun other hother => imp_congr_right (fun _ => hothers other hother))

end Dispatched

/-! ## The system -/

namespace DispatchSystem

variable {start : Database} {s : DispatchSystem}

/-- The log comes from the outbox, and what the connections hold was waiting at the start. -/
def Inv (start : Database) (s : DispatchSystem) : Prop :=
  Dispatched start s.db s.yielded ∧ ∀ connection, HoldsRows start (s.selected connection)

theorem Inv.started (ho : start.LogOrdered) : Inv start (started start) :=
  ⟨Dispatched.refl ho, fun _ => HoldsRows.nil⟩

/-- What one connection holds is no matter of the others. -/
theorem holds_update {selected : ℕ → List OutboxRow}
    (hs : ∀ connection, HoldsRows start (selected connection)) (connection : ℕ) {rows : List OutboxRow}
    (hrows : HoldsRows start rows) (c : ℕ) :
    HoldsRows start (Function.update selected connection rows c) := by
  by_cases hc : c = connection
  · subst hc
    rwa [Function.update_self]
  · rw [Function.update_of_ne hc]
    exact hs c

/-- **One move.** -/
theorem Inv.exec (hi : Inv start s) (move : Dispatch) (hnew : s.NewIds move) :
    Inv start (s.exec move) ∧ ((s.exec move).Once ↔ s.Once ∧ s.Unspent move) := by
  obtain ⟨hd, hs⟩ := hi
  cases move with
  | select connection limit =>
      exact ⟨⟨hd, holds_update hs connection (hd.holds limit)⟩, (and_iff_left trivial).symm⟩
  | rollBack connection =>
      exact ⟨⟨hd, holds_update hs connection HoldsRows.nil⟩, (and_iff_left trivial).symm⟩
  | deliver connection newId observedAt =>
      obtain ⟨events, db', hrun, hd', honce⟩ := hd.dispatchRows observedAt (hs connection) hnew
      have hcommit : transaction (dispatchRows newId observedAt (s.selected connection)) s.db
          = .ok events db' := by
        simp only [transaction, hrun]
      refine ⟨⟨?_, holds_update hs connection HoldsRows.nil⟩, honce⟩
      show Dispatched start
        (after (transaction (dispatchRows newId observedAt (s.selected connection))) s.db) _
      rw [after_of_ok hcommit]
      exact hd'

end DispatchSystem

/-- **Legacy rows.** From any database, in every run of dispatchers on any number of connections,
the log is what was there followed by what the outbox rows yielded, and no row yields two events
exactly as long as every transaction finds its rows without an id as they were read. -/
theorem legacy_once_iff {start : Database} (hlog : start.LogOrdered) {moves : List Dispatch}
    (hnew : Each DispatchSystem.exec DispatchSystem.NewIds (DispatchSystem.started start) moves) :
    (run DispatchSystem.exec (DispatchSystem.started start) moves).db.events.rows
      = start.events.rows ++
        (run DispatchSystem.exec (DispatchSystem.started start) moves).yielded.map Prod.snd ∧
    (Always DispatchSystem.exec DispatchSystem.Once (DispatchSystem.started start) moves ↔
      Each DispatchSystem.exec DispatchSystem.Unspent (DispatchSystem.started start) moves) := by
  have hi := DispatchSystem.Inv.started hlog
  refine ⟨?_, ?_⟩
  · exact (run_of_each (fun s m hs hm => (hs.exec m hm).1) hi hnew).1.log
  · refine always_iff (fun s m hm hs _ => (hs.exec m hm).1) ?_ hnew hi List.nodup_nil
    intro s m hm hs honce
    rw [(hs.exec m hm).2, and_iff_right honce]

/-- An outbox with one row from before the column `event_id`, as the migration leaves it. -/
def migratedOutbox : Database where
  outboxSequence := 1
  eventOutbox := Table.empty.put
    { outboxId := 1, eventId := none, workspaceId := "system", eventType := "task.created",
      actor := "engine", taskId := some "task_1", operationId := none, objectRefs := [],
      payload := [], causationId := none, correlationId := none, occurredAt := 0,
      learningAllowed := true, dispatched := false }

theorem migratedOutbox_ordered : migratedOutbox.LogOrdered :=
  Database.logOrdered_fresh.congr rfl rfl

/-- One dispatcher after the other. -/
theorem legacy_once_small :
    Always DispatchSystem.exec DispatchSystem.Once (DispatchSystem.started migratedOutbox)
      [.select 0 100, .deliver 0 (fun _ => "evt_a") (fun _ => 5), .select 1 100,
        .deliver 1 (fun _ => "evt_b") (fun _ => 6)] := by
  refine (legacy_once_iff migratedOutbox_ordered ?_).2.mpr ?_
  · refine ⟨trivial, ?_, trivial, ?_, trivial⟩
    · exact ⟨by decide +kernel, by decide +kernel, by decide +kernel⟩
    · exact ⟨by decide +kernel, by decide +kernel, by decide +kernel⟩
  · refine ⟨trivial, ?_, trivial, ?_, trivial⟩
    · intro row hrow _
      exact hrow
    · intro row hrow _
      -- the second dispatcher finds nothing to deliver
      have hnone : ((((DispatchSystem.started migratedOutbox).exec (.select 0 100)).exec
          (.deliver 0 (fun _ => "evt_a") (fun _ => 5))).exec (.select 1 100)).selected 1 = [] :=
        List.isEmpty_iff.mp (by decide +kernel)
      rw [hnone] at hrow
      exact absurd hrow List.not_mem_nil

/-- The second dispatcher has read the row before the first one's transaction began: one row of the
outbox, two events. -/
theorem legacy_once_fails :
    ¬ ∀ (start : Database) (moves : List Dispatch), start.LogOrdered →
      Each DispatchSystem.exec DispatchSystem.NewIds (DispatchSystem.started start) moves →
      Always DispatchSystem.exec DispatchSystem.Once (DispatchSystem.started start) moves := by
  intro h
  have honce := h migratedOutbox
    [.select 0 100, .select 1 100, .deliver 0 (fun _ => "evt_a") (fun _ => 5),
      .deliver 1 (fun _ => "evt_b") (fun _ => 6)]
    migratedOutbox_ordered
    ⟨trivial, trivial, ⟨by decide +kernel, by decide +kernel, by decide +kernel⟩,
      ⟨by decide +kernel, by decide +kernel, by decide +kernel⟩, trivial⟩
    _ (List.prefix_refl _)
  revert honce
  show ¬ (List.map Prod.fst _).Nodup
  decide +kernel

end LiandanluNative
