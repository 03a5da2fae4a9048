/-
# LiandanluNative.MemoryRuns — what a run of calls leaves in a memory store.

`latest_by_key` is moved by whoever takes a record in, and only a reload compares revisions.  A
commit made in memory builds on the record its key stands at, so it is the newest; a commit that
names its event takes in what the database answers, which may be a record that was superseded since,
or one the database numbered without knowing of those made in memory.  `MemoryMove.Current` says
that it is not, and nothing else is needed (`newest_run_iff`).

The invariant `Sound` relates a store to its database record by record; it holds whatever happens.
What concerns one key only is stated for the keys of a set `K`, and what concerns ids and keys only
for a property `P` of records.
-/
import LiandanluNative.MemoryStore

namespace LiandanluNative

open Lib (Table)
open Lib.Proc

/-! ## The invariant

`Sound` is what every run keeps; whether each key stands at its newest record is kept by some calls
only, and `MemoryMove.Current` says by which.
-/

/-- The index points where it should, a record that is also in the database agrees with its row, and
the ids still to be given are in neither. -/
structure MemorySys.Sound (uuid : ℕ → String) (s : MemorySys) : Prop where
  grounded : s.store.index.Grounded MemoryRecord.memoryKey
  agree : ∀ r ∈ s.store.records.rows, ∀ row ∈ s.db.memoryRecords.rows, r.memoryId = row.memoryId →
    r.memoryKey = row.memoryKey ∧ r.revision = row.revision
  freshStore : ∀ n, s.ids ≤ n → ∀ r ∈ s.store.records.rows, r.memoryId ≠ newMemoryId uuid n
  freshRows : ∀ n, s.ids ≤ n → ∀ row ∈ s.db.memoryRecords.rows, row.memoryId ≠ newMemoryId uuid n

/-- Every record of the store and of the database has the property: the two are kept together, as a
commit or a reload takes records from the one to the other. -/
structure MemorySys.Every (P : MemoryRecord → Prop) (s : MemorySys) : Prop where
  store : ∀ r ∈ s.store.records.rows, P r
  rows : ∀ row ∈ s.db.memoryRecords.rows, P row

/-- A store with a database has what the database has. -/
def MemorySys.Loaded (s : MemorySys) : Prop :=
  s.store.persistent = true → ∀ row ∈ s.db.memoryRecords.rows,
    ∃ r ∈ s.store.records.rows, r.memoryId = row.memoryId

/-- The property is one of the id and the key, and a committed candidate has it.  Counting evidence
and storing a value change neither, so nothing takes the property away. -/
structure Durable (uuid : ℕ → String) (P : MemoryRecord → Prop) : Prop where
  congr : ∀ r r' : MemoryRecord, r.memoryId = r'.memoryId → r.memoryKey = r'.memoryKey → P r → P r'
  made : ∀ (candidate : MemoryCandidate) (n : ℕ) (previous : Option MemoryRecord),
    P (candidate.partitioned.record (newMemoryId uuid n) previous)

/-- The key stands at the newest of the records the store has of it, which is what `current` then
answers with. -/
abbrev MemoryStore.Newest (store : MemoryStore) (key : MemoryKey) : Prop :=
  store.index.Newest MemoryRecord.memoryKey MemoryRecord.revision MemoryStore.usable key

/-- No record the store has of the key is newer. -/
def MemoryStore.NoneNewer (store : MemoryStore) (key : MemoryKey) (revision : Int) : Prop :=
  ∀ r ∈ store.records.rows, r.memoryKey = key → r.revision ≤ revision

/-- What a commit that names its event will take in, if its key is in `K`, is not older than what
the store has: the record the event was committed to before, or else the next revision of the
candidate's key.  It is asked of the state before the commit, and only where the commit would be
answered with a record. -/
def CommitCurrent (K : MemoryKey → Prop) (s : MemorySys) (candidate : MemoryCandidate)
    (event : Event) : Prop :=
  s.store.persistent = true → candidate.valid = true →
    (∀ receipt record, s.db.consumerReceipts.get? (memoryConsumer, event.eventId) = some receipt →
      s.db.receipted receipt = some record → K record.memoryKey →
      s.store.NoneNewer record.memoryKey record.revision) ∧
    (s.db.consumerReceipts.get? (memoryConsumer, event.eventId) = none →
      candidate.partitioned.Bound event → candidate.value.jsonDumps ≠ none →
      K candidate.partitioned.memoryKey →
      s.store.NoneNewer candidate.partitioned.memoryKey
        (s.db.nextRevision candidate.partitioned.memoryKey))

/-- The same for each kind of move; only commits that name their event are concerned. -/
def MemoryMove.Current (py : Builtins) (K : MemoryKey → Prop) (s : MemorySys) : MemoryMove → Prop
  | .commit candidate (some event) => CommitCurrent K s candidate event
  | .next => ∀ event events candidate, s.pending = event :: events →
      candidateFromEvent py event = .ok (some candidate) → CommitCurrent K s candidate event
  | _ => True

/-! ## One call

A call leaves the records alone (`SameMemory`), or it takes one in, or amends one that is there; a
reload is a case of its own.  The lemmas about the parts of the invariant go by these cases.
-/

/-- The store and the records of the database are the same, and no id is taken back: what calls
leave behind that are about receipts and cursors only. -/
structure SameMemory (s t : MemorySys) : Prop where
  persistent : t.store.persistent = s.store.persistent
  records : t.store.records = s.store.records
  latest : t.store.latestByKey = s.store.latestByKey
  rows : t.db.memoryRecords = s.db.memoryRecords
  ids : s.ids ≤ t.ids

/-- One such call after another is such a call. -/
theorem frame_sameMemory : Frame SameMemory where
  refl _ := ⟨rfl, rfl, rfl, rfl, le_rfl⟩
  trans h₁ h₂ := ⟨h₂.persistent.trans h₁.persistent, h₂.records.trans h₁.records,
    h₂.latest.trans h₁.latest, h₂.rows.trans h₁.rows, h₁.ids.trans h₂.ids⟩

namespace SameMemory

variable {s t : MemorySys}

/-- The index over them is then the same. -/
theorem index (h : SameMemory s t) : t.store.index = s.store.index := by
  unfold MemoryStore.index
  rw [h.records, h.latest]

/-- A sound store stays sound. -/
theorem sound (h : SameMemory s t) {uuid : ℕ → String} (hs : s.Sound uuid) : t.Sound uuid where
  grounded := by
    rw [h.index]
    exact hs.grounded
  agree := by
    rw [h.records, h.rows]
    exact hs.agree
  freshStore := by
    rw [h.records]
    exact fun n hn => hs.freshStore n (h.ids.trans hn)
  freshRows := by
    rw [h.rows]
    exact fun n hn => hs.freshRows n (h.ids.trans hn)

/-- What every record has, every record still has. -/
theorem every (h : SameMemory s t) {P : MemoryRecord → Prop} (hs : s.Every P) : t.Every P where
  store := by
    rw [h.records]
    exact hs.store
  rows := by
    rw [h.rows]
    exact hs.rows

/-- A store that had all the rows has them all. -/
theorem loaded (h : SameMemory s t) (hs : s.Loaded) : t.Loaded := by
  unfold MemorySys.Loaded
  rw [h.persistent, h.records, h.rows]
  exact hs

/-- A key is at its newest just where it was. -/
theorem newest (h : SameMemory s t) {key : MemoryKey} :
    t.store.Newest key ↔ s.store.Newest key := by
  unfold MemoryStore.Newest
  rw [h.index]

end SameMemory

section

variable {uuid : ℕ → String} {P : MemoryRecord → Prop} {K : MemoryKey → Prop} {s : MemorySys}

/-- What the database answers with is a row of its own, or a new one. -/
theorem answered_cases {event : Event} {candidate : MemoryCandidate} {memoryId : String}
    {record : MemoryRecord} {db db' : Database}
    (h : processMemoryEvent event (some candidate) memoryId db = .ok (some record) db') :
    (db' = db ∧ record ∈ db.memoryRecords.rows ∧
      ∃ receipt, db.consumerReceipts.get? (memoryConsumer, event.eventId) = some receipt ∧
        db.receipted receipt = some record) ∨
    (db.consumerReceipts.get? (memoryConsumer, event.eventId) = none ∧
      record = candidate.record memoryId (db.latestRecord candidate.memoryKey) ∧
      candidate.Bound event ∧ ∃ value, record.value.jsonDumps = some value ∧
        db'.memoryRecords = db.memoryRecords.put { record with value := value }) := by
  have hrun := processMemoryEvent_cases event (some candidate) memoryId db
  rw [h] at hrun
  generalize hresult : (EStateM.Result.ok (some record) db' :
    EStateM.Result Exc Database (Option MemoryRecord)) = result at hrun
  cases hrun with
  | replayed receipt found =>
      simp only [EStateM.Result.ok.injEq] at hresult
      obtain ⟨hrecord, rfl⟩ := hresult
      exact Or.inl ⟨rfl, Database.receipted_mem hrecord.symm, receipt, found, hrecord.symm⟩
  | ignored _ hnone => cases hnone
  | refused e => cases hresult
  | committed c made value absent hsome bindable built json free =>
      cases hsome
      simp only [EStateM.Result.ok.injEq, Option.some.injEq] at hresult
      obtain ⟨rfl, rfl⟩ := hresult
      exact Or.inr ⟨absent, built, bindable, value, json, rfl⟩

/-- A call that answers with no record leaves the records of the database alone. -/
theorem unanswered_rows {event : Event} {candidate : Option MemoryCandidate} {memoryId : String}
    {db db' : Database}
    (h : (∃ e, processMemoryEvent event candidate memoryId db = .error e db') ∨
      processMemoryEvent event candidate memoryId db = .ok none db') :
    db'.memoryRecords = db.memoryRecords := by
  have hrun := processMemoryEvent_cases event candidate memoryId db
  generalize processMemoryEvent event candidate memoryId db = result at h hrun
  cases hrun with
  | replayed receipt found =>
      rcases h with ⟨e, h⟩ | h
      · cases h
      · simp only [EStateM.Result.ok.injEq] at h
        rw [h.2]
  | ignored absent hnone =>
      rcases h with ⟨e, h⟩ | h
      · cases h
      · cases h
        rfl
  | refused e =>
      rcases h with ⟨e', h⟩ | h
      · cases h
        rfl
      · cases h
  | committed c made value absent hsome bindable built json free =>
      rcases h with ⟨e, h⟩ | h
      · cases h
      · cases h

/-- Where a valid commit is refused, or answered with no record, the condition asks nothing: the
event has a receipt without a record, a text cannot be stored, or the value is no JSON.  A new
revision of the newest row of a key, under a new id, is never taken. -/
theorem MemorySys.Sound.refused_current (hs : s.Sound uuid) {event : Event}
    {candidate : MemoryCandidate} {db' : Database}
    (h : (∃ e, processMemoryEvent event (some candidate.partitioned) (newMemoryId uuid s.ids) s.db
          = .error e db') ∨
      processMemoryEvent event (some candidate.partitioned) (newMemoryId uuid s.ids) s.db
        = .ok none db') :
    CommitCurrent K s candidate event := by
  intro _ _
  constructor
  · intro receipt record hreceipt hrecord _
    rw [processMemoryEvent_of_receipt hreceipt, hrecord] at h
    rcases h with ⟨e, h⟩ | h <;> cases h
  · intro hreceipt hbindable hjson _
    obtain ⟨value, hvalue⟩ := Option.ne_none_iff_exists'.mp hjson
    have hpartitioned : candidate.partitioned.value.jsonDumps = some value := hvalue
    rw [processMemoryEvent_of_new hreceipt hbindable hpartitioned (hs.freshRows s.ids le_rfl)] at h
    rcases h with ⟨e, h⟩ | h <;> cases h

/-- A record the store may take in, while the database goes to `db'`: it has the next id or is a row
of the database, and the rows of `db'` are old ones or like the record (but for its value, which the
database has as JSON gives it back). -/
structure MemorySys.Takes (uuid : ℕ → String) (s : MemorySys) (record : MemoryRecord)
    (db' : Database) : Prop where
  origin : record.memoryId = newMemoryId uuid s.ids ∨ record ∈ s.db.memoryRecords.rows
  rows : ∀ row ∈ db'.memoryRecords.rows, row ∈ s.db.memoryRecords.rows ∨
    (row.memoryId = record.memoryId ∧ row.memoryKey = record.memoryKey ∧
      row.revision = record.revision)

/-- A new record may go to the database with the value as JSON has it. -/
theorem MemorySys.Takes.saved {record : MemoryRecord} {value : PyVal} {db' : Database}
    (hid : record.memoryId = newMemoryId uuid s.ids)
    (hdb : db'.memoryRecords = s.db.memoryRecords.put { record with value := value }) :
    s.Takes uuid record db' := by
  refine ⟨Or.inl hid, fun row hrow => ?_⟩
  rw [hdb] at hrow
  rcases Table.mem_put.mp hrow with rfl | ⟨hold, _⟩
  · exact Or.inr ⟨rfl, rfl, rfl⟩
  · exact Or.inl hold

/-- No other record stands under the id of a record under the next id, or of a row. -/
theorem MemorySys.Sound.keepsKey (hs : s.Sound uuid) {record : MemoryRecord}
    (h : record.memoryId = newMemoryId uuid s.ids ∨ record ∈ s.db.memoryRecords.rows) :
    s.store.index.KeepsKey MemoryRecord.memoryKey record ∧
      ∀ r ∈ s.store.records.rows, r.memoryId = record.memoryId → r.revision = record.revision := by
  rcases h with hid | hrow
  · have hnot : ∀ r ∈ s.store.records.rows, r.memoryId ≠ record.memoryId := by
      intro r hr heq
      exact hs.freshStore s.ids le_rfl r hr (heq.trans hid)
    exact ⟨fun r hr heq => absurd heq (hnot r hr), fun r hr heq => absurd heq (hnot r hr)⟩
  · exact ⟨fun r hr heq => (hs.agree r hr record hrow heq).1,
      fun r hr heq => (hs.agree r hr record hrow heq).2⟩

/-- The id of a record that is taken in is not given again. -/
theorem MemorySys.Sound.taken_fresh (huuid : Function.Injective uuid) (hs : s.Sound uuid)
    {record : MemoryRecord}
    (h : record.memoryId = newMemoryId uuid s.ids ∨ record ∈ s.db.memoryRecords.rows) (n : ℕ)
    (hn : s.ids + 1 ≤ n) : record.memoryId ≠ newMemoryId uuid n := by
  rcases h with hid | hrow
  · intro heq
    have hsame := newMemoryId_injective huuid (hid.symm.trans heq)
    omega
  · exact hs.freshRows n (Nat.le_of_succ_le hn) record hrow

/-- The store stays sound when it takes such a record in: the index points at it, it agrees with its
row, and the next id is a new one. -/
theorem MemorySys.Sound.hold (huuid : Function.Injective uuid) (hs : s.Sound uuid)
    {record : MemoryRecord} {db' : Database} (h : s.Takes uuid record db') :
    MemorySys.Sound uuid
      { s with store := s.store.hold record, db := db', ids := s.ids + 1 } := by
  have hheld : ∀ r ∈ (s.store.hold record).records.rows,
      r = record ∨ (r ∈ s.store.records.rows ∧ r.memoryId ≠ record.memoryId) :=
    fun r hr => Table.mem_put.mp hr
  have hfresh := hs.taken_fresh huuid h.origin
  refine ⟨hs.grounded.hold (hs.keepsKey h.origin).1, ?_, ?_, ?_⟩
  · intro r hr row hrow heq
    rcases hheld r hr with rfl | ⟨hmem, hne⟩ <;>
      rcases h.rows row hrow with hold | ⟨hid, hkey, hrevision⟩
    · -- an old row under the id of the record is the record
      rcases h.origin with hnew | hrecord
      · exact absurd (heq.symm.trans hnew) (hs.freshRows s.ids le_rfl row hold)
      · rw [s.db.memoryRecords.eq_of_key_eq hrecord hold heq]
        exact ⟨rfl, rfl⟩
    · exact ⟨hkey.symm, hrevision.symm⟩
    · exact hs.agree r hmem row hold heq
    · exact absurd (heq.trans hid) hne
  · intro n hn r hr
    rcases hheld r hr with rfl | ⟨hmem, _⟩
    · exact hfresh n hn
    · exact hs.freshStore n (Nat.le_of_succ_le hn) r hmem
  · intro n hn row hrow
    rcases h.rows row hrow with hold | ⟨hid, _⟩
    · exact hs.freshRows n (Nat.le_of_succ_le hn) row hold
    · rw [hid]
      exact hfresh n hn

/-- **One record taken in.** The keys stay at their newest if and only if nothing newer than the
record is held: the key of the record is moved to it, and no other key is touched. -/
theorem MemorySys.Sound.newest_hold (hs : s.Sound uuid) (hnewest : ∀ key, K key → s.store.Newest key)
    {record : MemoryRecord}
    (hrecord : record.memoryId = newMemoryId uuid s.ids ∨ record ∈ s.db.memoryRecords.rows)
    (husable : K record.memoryKey → MemoryStore.usable record.memoryId = true) :
    (∀ key, K key → (s.store.hold record).Newest key) ↔
      (K record.memoryKey → s.store.NoneNewer record.memoryKey record.revision) := by
  obtain ⟨hkeeps, hsame⟩ := hs.keepsKey hrecord
  have hiff : K record.memoryKey → ((s.store.hold record).Newest record.memoryKey ↔
      ∀ r ∈ s.store.records.rows, r.memoryKey = record.memoryKey → r.memoryId ≠ record.memoryId →
        r.revision ≤ record.revision) :=
    fun hK => Lib.Index.newest_hold_iff (x := s.store.index) (husable hK)
  constructor
  · intro hafter hK r hr hkey
    by_cases hid : r.memoryId = record.memoryId
    · exact (hsame r hr hid).le
    · exact (hiff hK).mp (hafter record.memoryKey hK) r hr hkey hid
  · intro hnone key hK
    by_cases hkey : record.memoryKey = key
    · subst hkey
      exact (hiff hK).mpr (fun r hr heq _ => hnone hK r hr heq)
    · exact (hnewest key hK).hold_of_ne hs.grounded hkeeps hkey

/-- What a commit made in memory builds on is the newest record of its key. -/
theorem noneNewer_record {candidate : MemoryCandidate} {memoryId : String}
    (hnewest : s.store.Newest candidate.memoryKey) :
    s.store.NoneNewer candidate.memoryKey
      (candidate.record memoryId (s.store.current candidate.memoryKey)).revision := by
  intro r hr hkey
  obtain ⟨w, hw, hle⟩ := hnewest r hr hkey
  rw [show s.store.current candidate.memoryKey = some w from hw]
  show r.revision ≤ w.revision + 1
  omega

/-- What the keys of `K` need of the records: an id the store can look up. -/
def Found (P : MemoryRecord → Prop) (K : MemoryKey → Prop) : Prop :=
  ∀ record, P record → K record.memoryKey → MemoryStore.usable record.memoryId = true

/-- The invariants survive, and the keys of `K` stay at their newest if and only if `current`.
Every kind of move is one, for a condition of its own. -/
structure MemoryStep (uuid : ℕ → String) (P : MemoryRecord → Prop) (K : MemoryKey → Prop)
    (s t : MemorySys) (current : Prop) : Prop where
  sound : t.Sound uuid
  every : t.Every P
  persistent : t.store.persistent = s.store.persistent
  loaded : s.Loaded → t.Loaded
  newest : (∀ key, K key → s.store.Newest key) → ((∀ key, K key → t.store.Newest key) ↔ current)

/-- What leaves the memory alone is a step without a condition. -/
theorem SameMemory.step {t : MemorySys} (h : SameMemory s t) (hs : s.Sound uuid) (he : s.Every P) :
    MemoryStep uuid P K s t True where
  sound := h.sound hs
  every := h.every he
  persistent := h.persistent
  loaded := h.loaded
  newest hnewest := iff_true_intro (fun key hK => h.newest.mpr (hnewest key hK))

/-- It may come before a step, … -/
theorem SameMemory.then_step {t u : MemorySys} {current : Prop} (h : SameMemory s t)
    (ht : MemoryStep uuid P K t u current) : MemoryStep uuid P K s u current where
  sound := ht.sound
  every := ht.every
  persistent := ht.persistent.trans h.persistent
  loaded hs := ht.loaded (h.loaded hs)
  newest hnewest := ht.newest (fun key hK => h.newest.mpr (hnewest key hK))

/-- … and after one. -/
theorem MemoryStep.then_same {t u : MemorySys} {current : Prop}
    (h : MemoryStep uuid P K s t current) (hu : SameMemory t u) : MemoryStep uuid P K s u current where
  sound := hu.sound h.sound
  every := hu.every h.every
  persistent := hu.persistent.trans h.persistent
  loaded hs := hu.loaded (h.loaded hs)
  newest hnewest := Iff.trans (forall₂_congr fun _ _ => hu.newest) (h.newest hnewest)

/-- What the keys staying at their newest comes to may be said in other words. -/
theorem MemoryStep.congr {t : MemorySys} {current current' : Prop}
    (h : MemoryStep uuid P K s t current)
    (hiff : (∀ key, K key → s.store.Newest key) → (current ↔ current')) :
    MemoryStep uuid P K s t current' :=
  { h with newest := fun hnewest => (h.newest hnewest).trans (hiff hnewest) }

/-- **Taking a record in** is a step, on the condition that nothing newer is held. -/
theorem hold_step (huuid : Function.Injective uuid) (hP : Durable uuid P) (hfound : Found P K)
    (hs : s.Sound uuid) (he : s.Every P) {record : MemoryRecord} {db' : Database}
    (hrecord : P record) (h : s.Takes uuid record db') :
    MemoryStep uuid P K s { s with store := s.store.hold record, db := db', ids := s.ids + 1 }
      (K record.memoryKey → s.store.NoneNewer record.memoryKey record.revision) where
  sound := hs.hold huuid h
  every := by
    constructor
    · intro r hr
      rcases Table.mem_put.mp hr with rfl | ⟨hmem, _⟩
      · exact hrecord
      · exact he.store r hmem
    · intro row hrow
      rcases h.rows row hrow with hold | ⟨hid, hkey, _⟩
      · exact he.rows row hold
      · exact hP.congr record row hid.symm hkey.symm hrecord
  persistent := rfl
  loaded := by
    intro hloaded hp row hrow
    rcases h.rows row hrow with hold | ⟨hid, _⟩
    · -- the record replaces none under another id
      obtain ⟨r, hr, heq⟩ := hloaded hp row hold
      obtain ⟨r', hr', heq'⟩ := Table.exists_mem_put (v := record) hr
      exact ⟨r', hr', heq'.trans heq⟩
    · exact ⟨record, Table.mem_put.mpr (Or.inl rfl), hid.symm⟩
  newest hnewest := hs.newest_hold hnewest h.origin (hfound record hrecord)

/-- What a commit takes in that the database answered: the record of a receipt, or a record the
database numbered. -/
theorem answered_step (huuid : Function.Injective uuid) (hP : Durable uuid P) (hfound : Found P K)
    (hs : s.Sound uuid) (he : s.Every P) {candidate : MemoryCandidate} {event : Event}
    (hvalid : candidate.valid = true) (hpersistent : s.store.persistent = true)
    {record : MemoryRecord} {db : Database}
    (hrun : processMemoryEvent event (some candidate.partitioned) (newMemoryId uuid s.ids) s.db
      = .ok (some record) db) :
    MemoryStep uuid P K s { s with store := s.store.hold record, db := db, ids := s.ids + 1 }
      (CommitCurrent K s candidate event) := by
  rcases answered_cases hrun with
    ⟨rfl, hrow, receipt, hreceipt, hrecord⟩ | ⟨habsent, rfl, hbindable, value, hjson, hdb⟩
  · refine (hold_step huuid hP hfound hs he (he.rows record hrow)
      ⟨Or.inr hrow, fun _ => Or.inl⟩).congr (fun _ => ?_)
    constructor
    · intro hnone _ _
      refine ⟨fun receipt' record' hreceipt' hrecord' => ?_, fun hnot => ?_⟩
      · cases hreceipt.symm.trans hreceipt'
        cases hrecord.symm.trans hrecord'
        exact hnone
      · cases hreceipt.symm.trans hnot
    · exact fun hcurrent => (hcurrent hpersistent hvalid).1 receipt record hreceipt hrecord
  · refine (hold_step huuid hP hfound hs he (hP.made candidate s.ids _)
      (.saved rfl hdb)).congr (fun _ => ?_)
    rw [candidate.partitioned.record_revision]
    constructor
    · intro hnone _ _
      refine ⟨fun receipt' _ hreceipt' => ?_, fun _ _ _ => hnone⟩
      cases habsent.symm.trans hreceipt'
    · intro hcurrent
      refine (hcurrent hpersistent hvalid).2 habsent hbindable (fun hnot => ?_)
      cases hnot.symm.trans hjson

/-- **One commit**, however it ends: refused, made in memory, or made by the database.  Only the
last can take in something old. -/
theorem commit_step (huuid : Function.Injective uuid) (hP : Durable uuid P) (hfound : Found P K)
    (hs : s.Sound uuid) (he : s.Every P) (candidate : MemoryCandidate)
    (sourceEvent : Option Event) :
    MemoryStep uuid P K s (after (commitMemory uuid candidate sourceEvent) s)
      (∀ event, sourceEvent = some event → CommitCurrent K s candidate event) := by
  have hend := commitMemory_cases uuid candidate sourceEvent s
  generalize after (commitMemory uuid candidate sourceEvent) s = t at hend ⊢
  cases hend with
  | invalid hvalid =>
      refine ((frame_sameMemory.refl s).step hs he).congr (fun _ => ?_)
      refine iff_of_true trivial (fun event _ _ hv => ?_)
      cases hvalid.symm.trans hv
  | refused event hvalid hpersistent hnamed db hrun =>
      have hsame : SameMemory s { s with db := db, ids := s.ids + 1 } :=
        ⟨rfl, rfl, rfl, unanswered_rows hrun, Nat.le_succ _⟩
      refine (hsame.step hs he).congr (fun _ => iff_of_true trivial ?_)
      rintro _ hevent
      cases hnamed.symm.trans hevent
      exact hs.refused_current hrun
  | answered event hvalid hpersistent hnamed record db hrun =>
      refine (answered_step huuid hP hfound hs he hvalid hpersistent hrun).congr (fun _ => ?_)
      constructor
      · rintro hcurrent _ hevent
        cases hnamed.symm.trans hevent
        exact hcurrent
      · exact fun hcurrent => hcurrent event hnamed
  | held hvalid hunnamed record hbuilt =>
      subst hbuilt
      refine (hold_step huuid hP hfound hs he (hP.made candidate s.ids _)
        ⟨Or.inl rfl, fun _ => Or.inl⟩).congr (fun hnewest => iff_of_true ?_ ?_)
      · -- it was built on what its key stands at
        exact fun hK => noneNewer_record (hnewest _ hK)
      · intro event hevent hpersistent
        rcases hunnamed with hvolatile | hnone
        · cases hvolatile.symm.trans hpersistent
        · cases hnone.symm.trans hevent

/-- Ignoring an event leaves the records alone. -/
theorem within_processIgnoredEvent (event : Event) :
    Within SameMemory (processIgnoredEvent event) := by
  intro s
  have hend := processIgnoredEvent_cases event s
  generalize after (processIgnoredEvent event) s = t at hend ⊢
  cases hend with
  | durable hpersistent =>
      refine ⟨rfl, rfl, rfl, ?_, le_rfl⟩
      have hrun := processMemoryEvent_cases event none "" s.db
      show (after (processMemoryEvent event none "") s.db).memoryRecords = _
      unfold after
      generalize processMemoryEvent event none "" s.db = result at hrun
      cases hrun with
      | replayed receipt found => rfl
      | ignored absent hnone => rfl
      | refused e => rfl
      | committed c record value absent hsome bindable built json free => cases hsome
  | volatile hpersistent ids => exact ⟨rfl, rfl, rfl, rfl, le_rfl⟩

/-- So does acknowledging one. -/
theorem within_ackEvent (sequence : Int) : Within SameMemory (ackEvent sequence) := by
  intro s
  unfold after ackEvent ackEventConsumer
  cases s.db.ackAllowed s.consumerId sequence with
  | error e => exact frame_sameMemory.refl s
  | ok allowed =>
      cases allowed with
      | false => exact frame_sameMemory.refl s
      | true => exact ⟨rfl, rfl, rfl, rfl, le_rfl⟩

/-- Counting evidence changes neither key nor revision. -/
theorem MemoryRecord.supported_key {record supported : MemoryRecord}
    {evidenceEventId : Option String} {userConfirmed : Bool}
    (h : record.supported evidenceEventId userConfirmed = some supported) :
    supported.memoryId = record.memoryId ∧ supported.memoryKey = record.memoryKey ∧
      supported.revision = record.revision := by
  obtain ⟨counted, hcounted, rfl⟩ := Option.map_eq_some_iff.mp h
  have hsame : counted.memoryId = record.memoryId ∧ counted.memoryKey = record.memoryKey ∧
      counted.revision = record.revision := by
    split at hcounted
    · split at hcounted <;> cases hcounted <;> exact ⟨rfl, rfl, rfl⟩
    · split at hcounted
      · cases hcounted
        exact ⟨rfl, rfl, rfl⟩
      · cases hcounted
  split
  · exact hsame
  · split <;> exact hsame

/-- **One count of evidence** changes a record where it is, in memory and in its row, and moves no
key. -/
theorem support_step (hP : Durable uuid P) (hs : s.Sound uuid) (he : s.Every P) (memoryId : String)
    (evidenceEventId : Option String) (userConfirmed : Bool) :
    MemoryStep uuid P K s (after (addStrategySupport memoryId evidenceEventId userConfirmed) s)
      True := by
  have hend := addStrategySupport_cases memoryId evidenceEventId userConfirmed s
  generalize after (addStrategySupport memoryId evidenceEventId userConfirmed) s = t at hend ⊢
  cases hend with
  | refused => exact (frame_sameMemory.refl s).step hs he
  | counted record supported evidenceEventId userConfirmed hfound hcounted db hsaved =>
      have hmem := Table.mem_of_get? hfound
      obtain ⟨hid, hkey, hrevision⟩ := MemoryRecord.supported_key hcounted
      have hPsupported : P supported := hP.congr record _ hid.symm hkey.symm (he.store record hmem)
      have hkeeps : s.store.index.KeepsKey MemoryRecord.memoryKey supported := by
        intro r hr heq
        rw [s.store.records.eq_of_key_eq hr hmem (heq.trans hid)]
        exact hkey.symm
      -- what is saved is the row of the record, or a row like the record itself
      have hrows : ∀ row ∈ db.memoryRecords.rows, row ∈ s.db.memoryRecords.rows ∨
          (row.memoryId = record.memoryId ∧ row.memoryKey = record.memoryKey ∧
            row.revision = record.revision) := by
        intro row hrow
        rcases hsaved with ⟨_, rfl⟩ | ⟨_, hsaved⟩
        · exact Or.inl hrow
        rcases saveMemoryRecord_cases supported s.db with
          hsame | ⟨new, hput, hnewId, _, hnew⟩
        · rw [hsaved, hsame] at hrow
          exact Or.inl hrow
        · rw [hsaved, hput] at hrow
          rcases Table.mem_put.mp hrow with rfl | ⟨hold, _⟩
          · refine Or.inr ⟨hnewId.trans hid, ?_⟩
            rcases hnew with ⟨old, hold, holdId, holdKey, holdRevision⟩ | ⟨_, hnewKey, hnewRevision⟩
            · obtain ⟨hsameKey, hsameRevision⟩ :=
                hs.agree record hmem old hold (hid.symm.trans holdId.symm)
              exact ⟨holdKey.trans hsameKey.symm, holdRevision.trans hsameRevision.symm⟩
            · exact ⟨hnewKey.trans hkey, hnewRevision.trans hrevision⟩
          · exact Or.inl hold
      refine ⟨⟨hs.grounded.put hkeeps, ?_, ?_, ?_⟩, ⟨?_, ?_⟩, rfl, ?_, ?_⟩
      · intro r hr row hrow heq
        rcases Table.mem_put.mp hr with rfl | ⟨hr, hne⟩ <;>
          rcases hrows row hrow with hrow | ⟨hrowId, hrowKey, hrowRevision⟩
        · rw [hkey, hrevision]
          exact hs.agree record hmem row hrow (hid.symm.trans heq)
        · exact ⟨hkey.trans hrowKey.symm, hrevision.trans hrowRevision.symm⟩
        · exact hs.agree r hr row hrow heq
        · exact absurd (heq.trans (hrowId.trans hid.symm)) hne
      · intro n hn r hr
        rcases Table.mem_put.mp hr with rfl | ⟨hr, _⟩
        · rw [hid]
          exact hs.freshStore n hn record hmem
        · exact hs.freshStore n hn r hr
      · intro n hn row hrow
        rcases hrows row hrow with hrow | ⟨hrowId, _⟩
        · exact hs.freshRows n hn row hrow
        · rw [hrowId]
          exact hs.freshStore n hn record hmem
      · intro r hr
        rcases Table.mem_put.mp hr with rfl | ⟨hr, _⟩
        · exact hPsupported
        · exact he.store r hr
      · intro row hrow
        rcases hrows row hrow with hrow | ⟨hrowId, hrowKey, _⟩
        · exact he.rows row hrow
        · exact hP.congr record row hrowId.symm hrowKey.symm (he.store record hmem)
      · intro hloaded hp row hrow
        rcases hrows row hrow with hold | ⟨hrowId, _⟩
        · obtain ⟨r, hr, heq⟩ := hloaded hp row hold
          obtain ⟨r', hr', heq'⟩ := Table.exists_mem_put (v := supported) hr
          exact ⟨r', hr', heq'.trans heq⟩
        · exact ⟨supported, Table.mem_put.mpr (Or.inl rfl), hid.trans hrowId.symm⟩
      · exact fun hnewest => iff_true_intro fun key hK =>
          (hnewest key hK).amend (hid ▸ hfound) hkey hrevision

/-- What `from_persistence` returns: the rows of the table, with every key at its newest. -/
theorem fromPersistence_spec (db : Database) :
    (MemoryStore.fromPersistence db).index.Grounded MemoryRecord.memoryKey ∧
      (∀ r, r ∈ (MemoryStore.fromPersistence db).records.rows ↔ r ∈ db.memoryRecords.rows) ∧
      ∀ key, (∀ row ∈ db.memoryRecords.rows, row.memoryKey = key →
          MemoryStore.usable row.memoryId = true) →
        (MemoryStore.fromPersistence db).Newest key := by
  have hperm : db.loadMemoryRecords.Perm db.memoryRecords.rows := List.perm_insertionSort _ _
  have hnodup := (hperm.map MemoryRecord.memoryId).nodup_iff.mpr db.memoryRecords.nodup
  obtain ⟨hground, hmem, hnewest⟩ := @Lib.Index.load_all _ _ _ _ _ MemoryRecord.memoryId
    MemoryRecord.memoryKey MemoryRecord.revision MemoryStore.usable _ hnodup ⟨.empty, .empty⟩
    Lib.Index.grounded_empty (fun _ _ _ hw => (by cases hw))
  refine ⟨hground, fun r => (hmem r).trans ?_, fun key husable => ?_⟩
  · rw [hperm.mem_iff]
    exact ⟨fun h => h.resolve_left List.not_mem_nil, Or.inr⟩
  · exact hnewest key (fun row hrow => husable row (hperm.mem_iff.mp hrow)) Lib.Index.newest_empty

/-- **Reloading.** Every key is at its newest, because `from_persistence` compares.  So a reload
needs no condition, and mends what commits have left behind. -/
theorem reload_step (hfound : Found P K) (hs : s.Sound uuid) (he : s.Every P) :
    MemoryStep uuid P K s (MemoryMove.exec uuid py s .reload) True := by
  cases hpersistent : s.store.persistent with
  | false =>
      have hexec : MemoryMove.exec uuid py s .reload
          = { s with store := { persistent := false }, pending := [] } := by
        simp only [MemoryMove.exec, hpersistent, Bool.false_eq_true, if_false]
      rw [hexec]
      exact ⟨⟨Lib.Index.grounded_empty, fun r hr => (by cases hr), fun _ _ r hr => (by cases hr),
        hs.freshRows⟩, ⟨fun r hr => (by cases hr), he.rows⟩,
        hpersistent.symm, fun _ hp => (by cases hp),
        fun _ => iff_true_intro fun _ _ => Lib.Index.newest_empty⟩
  | true =>
      have hexec : MemoryMove.exec uuid py s .reload
          = { s with store := .fromPersistence s.db, pending := [] } := by
        simp only [MemoryMove.exec, hpersistent, if_true]
      rw [hexec]
      obtain ⟨hground, hmem, hnewest⟩ := fromPersistence_spec s.db
      refine ⟨⟨hground, ?_, ?_, hs.freshRows⟩, ⟨fun r hr => he.rows r ((hmem r).mp hr), he.rows⟩,
        hpersistent.symm, fun _ _ row hrow => ⟨row, (hmem row).mpr hrow, rfl⟩,
        fun _ => iff_true_intro fun key hK =>
          hnewest key (fun row hrow hkey => hfound row (he.rows row hrow) (hkey ▸ hK))⟩
      · intro r hr row hrow heq
        rw [s.db.memoryRecords.eq_of_key_eq ((hmem r).mp hr) hrow heq]
        exact ⟨rfl, rfl⟩
      · exact fun n hn r hr => hs.freshRows n hn r ((hmem r).mp hr)

/-- **One event**: its commit, if it has a candidate, is all that matters. -/
theorem handle_step (huuid : Function.Injective uuid) (hP : Durable uuid P) (hfound : Found P K)
    (hs : s.Sound uuid) (he : s.Every P) (py : Builtins) (event : Event) :
    MemoryStep uuid P K s (after (handleEvent uuid py event) s)
      (∀ candidate, candidateFromEvent py event = .ok (some candidate) →
        CommitCurrent K s candidate event) := by
  have hF := frame_sameMemory
  -- without a candidate nothing is committed
  have hidle : (∀ candidate, candidateFromEvent py event ≠ .ok (some candidate)) →
      SameMemory s (after (handleEvent uuid py event) s) →
      MemoryStep uuid P K s (after (handleEvent uuid py event) s)
        (∀ candidate, candidateFromEvent py event = .ok (some candidate) →
          CommitCurrent K s candidate event) := by
    intro hnone hsame
    refine (hsame.step hs he).congr (fun _ => iff_of_true trivial ?_)
    exact fun candidate hcandidate => absurd hcandidate (hnone candidate)
  cases hcandidate : candidateFromEvent py event with
  | error e =>
      rw [hcandidate] at hidle
      refine hidle (fun candidate h => by cases h) ?_
      unfold handleEvent
      rw [hcandidate]
      exact hF.throw e s
  | ok candidate =>
      rw [hcandidate] at hidle
      cases candidate with
      | none =>
          refine hidle (fun candidate h => by cases h) ?_
          unfold handleEvent
          rw [hcandidate]
          exact hF.bind (within_processIgnoredEvent event) (fun _ => hF.pure _) s
      | some candidate =>
          have hcommit := commit_step huuid hP hfound hs he candidate (some event)
          have hrest : SameMemory (after (commitMemory uuid candidate (some event)) s)
              (after (handleEvent uuid py event) s) := by
            unfold handleEvent
            rw [hcandidate]
            refine hF.bind_rest (fun record => ?_) s
            cases record with
            | none => exact hF.bind (within_processIgnoredEvent event) (fun _ => hF.pure _)
            | some record => exact hF.pure _
          refine (hcommit.then_same hrest).congr (fun _ => ?_)
          constructor
          · rintro h _ ⟨⟩
            exact h event rfl
          · rintro h _ ⟨⟩
            exact h candidate rfl

/-- **One event of `run_once`** is handled, and acknowledged. -/
theorem next_step (huuid : Function.Injective uuid) (hP : Durable uuid P) (hfound : Found P K)
    (hs : s.Sound uuid) (he : s.Every P) :
    MemoryStep uuid P K s (MemoryMove.exec uuid py s .next) (MemoryMove.Current py K s .next) := by
  have hF := frame_sameMemory
  cases hpending : s.pending with
  | nil =>
      have hexec : MemoryMove.exec uuid py s .next = s := by
        simp only [MemoryMove.exec, MemorySys.next, hpending]
      have hcurrent : MemoryMove.Current py K s .next ↔ True :=
        iff_true_intro (fun _ _ _ h => by cases hpending.symm.trans h)
      rw [hexec, hcurrent]
      exact (hF.refl s).step hs he
  | cons event events =>
      have hread : SameMemory s { s with pending := events } := ⟨rfl, rfl, rfl, rfl, le_rfl⟩
      have hlast : SameMemory
          (after (handleEvent uuid py event) { s with pending := events })
          (MemoryMove.exec uuid py s .next) := by
        have hrest := hF.bind_rest (m := handleEvent uuid py event)
          (fun committed => hF.bind (within_ackEvent event.sequence) (fun _ => hF.pure committed))
          { s with pending := events }
        refine hF.trans hrest ?_
        simp only [MemoryMove.exec, MemorySys.next, hpending]
        show SameMemory (after (processEvent uuid py event events) s) _
        unfold after
        cases processEvent uuid py event events s with
        | ok committed t => exact hF.refl t
        | error e t => exact ⟨rfl, rfl, rfl, rfl, le_rfl⟩
      have hhandle := handle_step huuid hP hfound (hread.sound hs) (hread.every he) py event
      refine (hread.then_step (hhandle.then_same hlast)).congr (fun _ => ?_)
      constructor
      · intro h event' events' candidate hpending' hcandidate
        cases hpending.symm.trans hpending'
        exact h candidate hcandidate
      · exact fun h candidate hcandidate => h event events candidate hpending hcandidate

/-- **One move** is a step, on the condition that it is current. -/
theorem MemoryMove.step (huuid : Function.Injective uuid) (hP : Durable uuid P)
    (hfound : Found P K) (hs : s.Sound uuid) (he : s.Every P) (py : Builtins) (move : MemoryMove) :
    MemoryStep uuid P K s (move.exec uuid py s) (move.Current py K s) := by
  have hF := frame_sameMemory
  cases move with
  | commit candidate sourceEvent =>
      have hstep := commit_step huuid hP hfound hs he candidate sourceEvent
      refine hstep.congr (fun _ => ?_)
      cases sourceEvent with
      | none => exact iff_of_true (fun _ h => by cases h) trivial
      | some event => exact ⟨fun h => h event rfl, fun h event' heq => Option.some.inj heq ▸ h⟩
  | ignore event => exact (within_processIgnoredEvent event s).step hs he
  | support memoryId evidenceEventId userConfirmed =>
      exact support_step hP hs he memoryId evidenceEventId userConfirmed
  | read consumerId limit =>
      exact SameMemory.step ⟨rfl, rfl, rfl, rfl, le_rfl⟩ hs he
  | next => exact next_step huuid hP hfound hs he
  | log row eventId observedAt =>
      refine SameMemory.step ⟨rfl, rfl, rfl, ?_, le_rfl⟩ hs he
      show (s.db.insertEvent row eventId observedAt).memoryRecords = _
      unfold Database.insertEvent
      cases s.db.eventById eventId <;> rfl
  | reload => exact reload_step hfound hs he

/-! ## Runs -/

/-- Every move of the run is current. -/
def CurrentRun (uuid : ℕ → String) (py : Builtins) (K : MemoryKey → Prop) (s : MemorySys) :
    List MemoryMove → Prop
  | [] => True
  | move :: moves => move.Current py K s ∧ CurrentRun uuid py K (move.exec uuid py s) moves

/-- What holds after a whole run, whatever its moves were. -/
theorem runMemory_sound (huuid : Function.Injective uuid) (hP : Durable uuid P)
    (hs : s.Sound uuid) (he : s.Every P) (moves : List MemoryMove) :
    (runMemory uuid py s moves).Sound uuid ∧ (runMemory uuid py s moves).Every P ∧
      (runMemory uuid py s moves).store.persistent = s.store.persistent ∧
      (s.Loaded → (runMemory uuid py s moves).Loaded) := by
  induction moves generalizing s with
  | nil => exact ⟨hs, he, rfl, id⟩
  | cons move moves ih =>
      have hstep := move.step (K := fun _ => False) huuid hP (fun _ _ h => h.elim) hs he py
      obtain ⟨hsound, hevery, hpersistent, hloaded⟩ := ih hstep.sound hstep.every
      exact ⟨hsound, hevery, hpersistent.trans hstep.persistent,
        fun h => hloaded (hstep.loaded h)⟩

/-- **A whole run.** The keys of `K` are at their newest at each moment if and only if every move is
current.  One move that is not leaves a key at an older record right after it. -/
theorem newest_run_iff (huuid : Function.Injective uuid) (hP : Durable uuid P)
    (hfound : Found P K) (hs : s.Sound uuid) (he : s.Every P)
    (hnewest : ∀ key, K key → s.store.Newest key) (moves : List MemoryMove) :
    (∀ before, before <+: moves → ∀ key, K key → (runMemory uuid py s before).store.Newest key) ↔
      CurrentRun uuid py K s moves := by
  induction moves generalizing s with
  | nil =>
      refine iff_of_true (fun before hbefore => ?_) trivial
      rw [List.prefix_nil.mp hbefore]
      exact hnewest
  | cons move moves ih =>
      have hstep := move.step huuid hP hfound hs he py
      constructor
      · intro hall
        have hone := hall [move] (by simp)
        have hcurrent := (hstep.newest hnewest).mp hone
        exact ⟨hcurrent, (ih hstep.sound hstep.every hone).mp
          (fun before hbefore => hall (move :: before) (List.cons_prefix_cons.mpr ⟨rfl, hbefore⟩))⟩
      · rintro ⟨hcurrent, hrest⟩ before hbefore
        cases before with
        | nil => exact hnewest
        | cons first before =>
            obtain ⟨rfl, htail⟩ := List.cons_prefix_cons.mp hbefore
            exact (ih hstep.sound hstep.every ((hstep.newest hnewest).mpr hcurrent)).mpr hrest
              before htail

end

end LiandanluNative
