/-
# LiandanluNative.StrategyTally — what a strategy record counts.

`add_strategy_support` counts an event id once and then sets the state by the count, unless the user
confirmed: a call that does not raise leaves the state its own count earns, or PROMOTED
(`supported_eq_some`).  So every record that a store or its database ever has is tallied: its count
is one more than the ids it lists, and its state the one that the count earns, or PROMOTED where the
user confirmed it (`tallied_run`).

The one more is the event the record was learnt from, which is among its sources and not among the
ids that support it.  The invariant is about memory and rows together, as either may be ahead of the
other: a call that raises between its change of the record and the save leaves a record in memory
whose row is older, and both are tallied.
-/
import LiandanluNative.Lib.Runs
import LiandanluNative.MemoryRuns

namespace LiandanluNative

open Lib (Table)
open Lib.Proc Lib.Runs

/-! ## One count

A call of `add_strategy_support` adds to the sources of a record, and the number of distinct ones
decides its state.
-/

/-- The state that a count of supports earns: two are enough for SUPPORTED, three for PROMOTED. -/
def StrategyState.earned (supportCount : Int) : StrategyState :=
  if 3 ≤ supportCount then .promoted else if 2 ≤ supportCount then .supported else .candidate

namespace MemoryRecord

/-- The evidence is counted, if there is any and it is new.  Evidence that was counted before is
passed over, so an event is no better evidence for being handed over twice. -/
def counted (record : MemoryRecord) (evidenceEventId : Option String) : MemoryRecord :=
  match evidenceEventId with
  | some eventId =>
      if eventId ∉ record.supportEventIds then
        { record with
          supportEventIds := record.supportEventIds ++ [eventId]
          supportCount := record.supportCount + 1 }
      else record
  | none => record

/-- A record that lists every event once and counts one more, the event it was learnt from. -/
structure CountsDistinct (record : MemoryRecord) : Prop where
  nodup : record.supportEventIds.Nodup
  count : record.supportCount = 1 + (record.supportEventIds.length : Int)

variable {record next : MemoryRecord} {evidenceEventId : Option String} {userConfirmed : Bool}

/-- Counting adds the one id, if it was not counted before. -/
theorem mem_counted (record : MemoryRecord) (evidenceEventId : Option String) (eventId : String) :
    eventId ∈ (record.counted evidenceEventId).supportEventIds ↔
      eventId ∈ record.supportEventIds ∨ evidenceEventId = some eventId := by
  unfold counted
  cases evidenceEventId with
  | none => simp
  | some new =>
      dsimp only
      split
      · simp [eq_comm]
      · rename_i hold
        rw [not_not] at hold
        constructor
        · exact Or.inl
        · rintro (hmem | hnew)
          · exact hmem
          · cases hnew
            exact hold

/-- Counting an id keeps the count in step with the ids: both grow, or neither. -/
theorem CountsDistinct.counted (h : record.CountsDistinct) (evidenceEventId : Option String) :
    (record.counted evidenceEventId).CountsDistinct := by
  unfold MemoryRecord.counted
  cases evidenceEventId with
  | none => exact h
  | some new =>
      dsimp only
      split
      · rename_i hnew
        refine ⟨List.nodup_append.mpr ⟨h.nodup, List.nodup_singleton _, ?_⟩, ?_⟩
        · intro a ha b hb heq
          apply hnew
          rw [← List.mem_singleton.mp hb, ← heq]
          exact ha
        · show record.supportCount + 1 = 1 + ((record.supportEventIds ++ [new]).length : Int)
          rw [h.count, List.length_append, List.length_singleton]
          omega
      · exact h

/-- Two ids are counted where one of them is not all there is. -/
theorem CountsDistinct.two_le_length_iff (h : record.CountsDistinct) {eventId : String}
    (hmem : eventId ∈ record.supportEventIds) :
    2 ≤ record.supportEventIds.length ↔ ¬ record.supportEventIds ⊆ [eventId] := by
  constructor
  · intro hlong hsub
    have hle : record.supportEventIds.length ≤ 1 := (h.nodup.subperm hsub).length_le
    omega
  · intro hnot
    by_contra hshort
    have hone : record.supportEventIds.length = 1 := by
      have hpos := List.length_pos_of_mem hmem
      omega
    obtain ⟨only, honly⟩ := List.length_eq_one_iff.mp hone
    rw [honly, List.mem_singleton] at hmem
    subst hmem
    exact hnot (honly ▸ List.Subset.refl _)

/-- The state is set: PROMOTED where the user confirmed, and otherwise by the count, whatever the
state was before. -/
def judged (record : MemoryRecord) (userConfirmed : Bool) : MemoryRecord :=
  { record with
    strategyState := some (if userConfirmed then .promoted else .earned record.supportCount) }

/-- **What a call that does not raise leaves.** The branches of `add_strategy_support` are one rule:
count, then judge. -/
theorem supported_eq_some (h : record.CountsDistinct)
    (hs : record.supported evidenceEventId userConfirmed = some next) :
    next = (record.counted evidenceEventId).judged userConfirmed := by
  have hdistinct := h.counted evidenceEventId
  -- an unconfirmed call lists its event, and then two at least are counted
  have henough : userConfirmed = false → 2 ≤ (record.counted evidenceEventId).supportCount := by
    intro hunconfirmed
    subst hunconfirmed
    cases evidenceEventId with
    | none => cases hs
    | some eventId =>
        have hmem := (record.mem_counted (some eventId) eventId).mpr (Or.inr rfl)
        have hpos := List.length_pos_of_mem hmem
        rw [hdistinct.count]
        omega
  have hjudged : next =
      (if userConfirmed ∨ 3 ≤ (record.counted evidenceEventId).supportCount then
        { record.counted evidenceEventId with strategyState := some .promoted }
      else if 2 ≤ (record.counted evidenceEventId).supportCount then
        { record.counted evidenceEventId with strategyState := some .supported }
      else record.counted evidenceEventId) := by
    unfold supported at hs
    unfold counted
    cases evidenceEventId with
    | none =>
        cases userConfirmed with
        | true => exact (Option.some.inj hs).symm
        | false => cases hs
    | some eventId =>
        by_cases hnew : eventId ∉ record.supportEventIds
        · simp only [if_pos hnew, Option.map_some, Option.some.injEq] at hs ⊢
          exact hs.symm
        · simp only [if_neg hnew, Option.map_some, Option.some.injEq] at hs ⊢
          exact hs.symm
  rw [hjudged]
  unfold judged StrategyState.earned
  cases userConfirmed with
  | true => simp
  | false =>
      have htwo := henough rfl
      by_cases hthree : 3 ≤ (record.counted evidenceEventId).supportCount
      · simp [hthree]
      · simp [hthree, htwo]

/-- The record of a strategy is tallied; `confirmed` are the records the user confirmed.  A state
above what the count earns is PROMOTED, and has a confirmation behind it. -/
structure Tallied (confirmed : List String) (record : MemoryRecord) : Prop extends
    CountsDistinct record where
  sources : record.sourceEventIds ≠ []
  stated : record.kind = .strategy → record.strategyState.isSome = true
  state : ∀ state, record.strategyState = some state →
    state = .earned record.supportCount ∨ (state = .promoted ∧ record.memoryId ∈ confirmed)

variable {confirmed confirmed' : List String}

/-- More confirmations only allow more records to be promoted. -/
theorem Tallied.mono (h : record.Tallied confirmed) (hsub : confirmed ⊆ confirmed') :
    record.Tallied confirmed' :=
  { h with state := fun state hstate =>
      (h.state state hstate).imp_right (fun hboth => ⟨hboth.1, hsub hboth.2⟩) }

/-- JSON may give the value back as another. -/
theorem Tallied.withValue (h : record.Tallied confirmed) (value : PyVal) :
    { record with value := value }.Tallied confirmed :=
  ⟨⟨h.nodup, h.count⟩, h.sources, h.stated, h.state⟩

/-- A committed candidate: it has its one source and no support, and a strategy among them starts as
a CANDIDATE. -/
theorem Tallied.made {candidate : MemoryCandidate} (hvalid : candidate.valid = true)
    (memoryId : String) (previous : Option MemoryRecord) :
    (candidate.partitioned.record memoryId previous).Tallied confirmed where
  nodup := List.nodup_nil
  count := rfl
  sources := by
    intro hnone
    have hempty : candidate.sourceEventIds = [] := hnone
    simp [MemoryCandidate.valid, hempty] at hvalid
  stated := by
    intro hkind
    have hstrategy : candidate.partitioned.kind = .strategy := hkind
    simp [MemoryCandidate.record, hstrategy]
  state := by
    intro state hstate
    simp only [MemoryCandidate.record] at hstate
    split at hstate
    · cases hstate
      exact Or.inl rfl
    · cases hstate

/-- Counting leaves the sources of a record, its id and its kind. -/
theorem counted_sources (record : MemoryRecord) (evidenceEventId : Option String) :
    (record.counted evidenceEventId).sourceEventIds = record.sourceEventIds ∧
      (record.counted evidenceEventId).memoryId = record.memoryId ∧
      (record.counted evidenceEventId).kind = record.kind := by
  unfold counted
  cases evidenceEventId with
  | none => exact ⟨rfl, rfl, rfl⟩
  | some eventId =>
      dsimp only
      split <;> exact ⟨rfl, rfl, rfl⟩

/-- A call that does not raise leaves the record tallied. -/
theorem Tallied.supported (h : record.Tallied confirmed)
    (hs : record.supported evidenceEventId userConfirmed = some next)
    (hconfirmed : userConfirmed = true → record.memoryId ∈ confirmed) :
    next.Tallied confirmed := by
  obtain ⟨hsources, hid, -⟩ := record.counted_sources evidenceEventId
  have hdistinct := h.toCountsDistinct.counted evidenceEventId
  rw [supported_eq_some h.toCountsDistinct hs]
  refine ⟨⟨hdistinct.nodup, hdistinct.count⟩, ?_, fun _ => rfl, ?_⟩
  · show (record.counted evidenceEventId).sourceEventIds ≠ []
    rw [hsources]
    exact h.sources
  · intro state hstate
    cases hstate
    cases userConfirmed with
    | false => exact Or.inl rfl
    | true =>
        refine Or.inr ⟨rfl, ?_⟩
        show (record.counted evidenceEventId).memoryId ∈ confirmed
        rw [hid]
        exact hconfirmed rfl

/-- Saving a tallied strategy over its row, which takes all columns from the record but those that a
save leaves alone. -/
theorem Tallied.overwrite {old : MemoryRecord} (hold : old.Tallied confirmed)
    (h : record.Tallied confirmed) (hstated : record.strategyState.isSome = true)
    (hid : old.memoryId = record.memoryId) : (old.overwrite record).Tallied confirmed where
  nodup := h.nodup
  count := h.count
  sources := hold.sources
  stated _ := hstated
  state := by
    show ∀ state, record.strategyState = some state →
      state = .earned record.supportCount ∨ (state = .promoted ∧ old.memoryId ∈ confirmed)
    rw [hid]
    exact h.state

end MemoryRecord

/-! ## Runs -/

/-- A store and its database, and the strategies that the user confirmed. -/
structure ConfirmedSys where
  sys : MemorySys
  confirmed : List String := []

/-- The strategies a move confirms: a support with `user_confirmed` of a record of the kind
STRATEGY, also where the save fails after it. -/
def MemoryMove.confirms (s : MemorySys) : MemoryMove → List String
  | .support memoryId _ true =>
      match s.store.records.get? memoryId with
      | some record => if record.kind = .strategy then [memoryId] else []
      | none => []
  | _ => []

section

variable (uuid : ℕ → String) (py : Builtins)

/-- What a move leaves behind. -/
def ConfirmedSys.exec (h : ConfirmedSys) (move : MemoryMove) : ConfirmedSys where
  sys := move.exec uuid py h.sys
  confirmed := h.confirmed ++ move.confirms h.sys

/-- A run from an empty store. -/
def confirmedRun (persistent : Bool) (moves : List MemoryMove) : ConfirmedSys :=
  run (ConfirmedSys.exec uuid py) { sys := { store := { persistent := persistent } } } moves

end

section

variable {uuid : ℕ → String} {py : Builtins} {confirmed : List String} {s : MemorySys}

/-- **A commit** holds and writes tallied records. -/
theorem tallied_commit (candidate : MemoryCandidate) (sourceEvent : Option Event) :
    Within (Keeps (MemorySys.Every (MemoryRecord.Tallied confirmed)))
      (commitMemory uuid candidate sourceEvent) := by
  intro s hs
  have hheld : ∀ record : MemoryRecord, record.Tallied confirmed →
      ∀ r ∈ (s.store.hold record).records.rows, r.Tallied confirmed := by
    intro record hrecord r hr
    rcases Table.mem_put.mp hr with rfl | ⟨hmem, -⟩
    · exact hrecord
    · exact hs.store r hmem
  have hend := commitMemory_cases uuid candidate sourceEvent s
  generalize after (commitMemory uuid candidate sourceEvent) s = t at hend ⊢
  cases hend with
  | invalid => exact hs
  | refused event hvalid hpersistent hnamed db hrun =>
      refine ⟨hs.store, ?_⟩
      show ∀ row ∈ db.memoryRecords.rows, row.Tallied confirmed
      rw [unanswered_rows hrun]
      exact hs.rows
  | answered event hvalid hpersistent hnamed record db hrun =>
      rcases answered_cases hrun with ⟨rfl, hrow, -⟩ | ⟨-, rfl, -, value, -, hdb⟩
      · exact ⟨hheld record (hs.rows record hrow), hs.rows⟩
      · have hmade := @MemoryRecord.Tallied.made confirmed _ hvalid (newMemoryId uuid s.ids)
          (s.db.latestRecord candidate.partitioned.memoryKey)
        refine ⟨hheld _ hmade, ?_⟩
        show ∀ row ∈ db.memoryRecords.rows, row.Tallied confirmed
        rw [hdb]
        intro row hrow
        rcases Table.mem_put.mp hrow with rfl | ⟨hold, -⟩
        · exact hmade.withValue value
        · exact hs.rows row hold
  | held hvalid hunnamed record hbuilt =>
      subst hbuilt
      exact ⟨hheld _ (MemoryRecord.Tallied.made hvalid _ _), hs.rows⟩

/-- What leaves the memory alone keeps its records tallied. -/
theorem SameMemory.tallied {α : Type} {m : MemoryM α} (h : Within SameMemory m) :
    Within (Keeps (MemorySys.Every (MemoryRecord.Tallied confirmed))) m :=
  fun s hs => (h s).every hs

/-- What `save_memory_record` writes: the record over its row, or a row of its own. -/
theorem saved_row {record row : MemoryRecord} {db : Database}
    (hrow : row ∈ (after (saveMemoryRecord record) db).memoryRecords.rows) :
    row ∈ db.memoryRecords.rows ∨
      (∃ old value, old ∈ db.memoryRecords.rows ∧ old.memoryId = record.memoryId ∧
        row = old.overwrite { record with value := value }) ∨
      ∃ value, row = { record with value := value } := by
  unfold saveMemoryRecord transaction after at hrow
  simp only [bind, EStateM.bind, dumps] at hrow
  cases hjson : record.value.jsonDumps with
  | none =>
      rw [hjson] at hrow
      exact Or.inl hrow
  | some value =>
      rw [hjson] at hrow
      dsimp only [get, getThe, MonadStateOf.get, EStateM.get] at hrow
      cases hold : db.memoryRecords.get? record.memoryId with
      | some old =>
          rw [hold] at hrow
          rcases Table.mem_put.mp hrow with rfl | ⟨hmem, -⟩
          · exact Or.inr (Or.inl ⟨old, value, Table.mem_of_get? hold, Table.key_of_get? hold, rfl⟩)
          · exact Or.inl hmem
      | none =>
          rw [hold] at hrow
          cases htaken : db.memoryTaken { record with value := value } with
          | true =>
              simp only [htaken] at hrow
              exact Or.inl hrow
          | false =>
              simp only [htaken] at hrow
              rcases Table.mem_put.mp hrow with rfl | ⟨hmem, -⟩
              · exact Or.inr (Or.inr ⟨value, rfl⟩)
              · exact Or.inl hmem

/-- What a support does to a strategy of the store: the record in memory is changed first, and then
saved. -/
theorem addStrategySupport_eq {memoryId : String} {record : MemoryRecord}
    (hfound : s.store.records.get? memoryId = some record) (hkind : record.kind = .strategy)
    (evidenceEventId : Option String) (userConfirmed : Bool) :
    (after (addStrategySupport memoryId evidenceEventId userConfirmed) s).store
        = (match record.supported evidenceEventId userConfirmed with
          | none => s.store
          | some supported => { s.store with records := s.store.records.put supported }) ∧
      (after (addStrategySupport memoryId evidenceEventId userConfirmed) s).db
        = (match record.supported evidenceEventId userConfirmed with
          | none => s.db
          | some supported =>
              if s.store.persistent then after (saveMemoryRecord supported) s.db else s.db) := by
  have hnot : ¬ record.kind ≠ .strategy := not_not.mpr hkind
  unfold after addStrategySupport
  rw [hfound]
  dsimp only
  rw [if_neg hnot]
  cases record.supported evidenceEventId userConfirmed with
  | none => exact ⟨rfl, rfl⟩
  | some supported =>
      cases hpersistent : s.store.persistent with
      | false => exact ⟨rfl, rfl⟩
      | true =>
          dsimp only
          rw [if_pos rfl, if_pos rfl]
          cases saveMemoryRecord supported s.db <;> exact ⟨rfl, rfl⟩

/-- Any other support raises at once: the record is not there, or it is no strategy. -/
theorem addStrategySupport_refused {memoryId : String}
    (hnot : ∀ record, s.store.records.get? memoryId = some record → record.kind ≠ .strategy)
    (evidenceEventId : Option String) (userConfirmed : Bool) :
    after (addStrategySupport memoryId evidenceEventId userConfirmed) s = s := by
  unfold after addStrategySupport
  cases hfound : s.store.records.get? memoryId with
  | none => rfl
  | some record =>
      dsimp only
      rw [if_pos (hnot record hfound)]

/-- **A support** leaves tallied records, with the strategy it confirms among the confirmed. -/
theorem tallied_support (hs : s.Every (MemoryRecord.Tallied confirmed)) (memoryId : String)
    (evidenceEventId : Option String) (userConfirmed : Bool) :
    (after (addStrategySupport memoryId evidenceEventId userConfirmed) s).Every
      (MemoryRecord.Tallied (confirmed ++
        MemoryMove.confirms s (.support memoryId evidenceEventId userConfirmed))) := by
  have hmore : ∀ {r : MemoryRecord}, r.Tallied confirmed → r.Tallied (confirmed ++
      MemoryMove.confirms s (.support memoryId evidenceEventId userConfirmed)) :=
    fun h => h.mono (List.subset_append_left _ _)
  by_cases hstrategy : ∃ record, s.store.records.get? memoryId = some record ∧
      record.kind = .strategy
  -- there is no such strategy, and the call raises
  case neg =>
    push Not at hstrategy
    rw [addStrategySupport_refused hstrategy]
    exact ⟨fun r hr => hmore (hs.store r hr), fun row hrow => hmore (hs.rows row hrow)⟩
  obtain ⟨record, hfound, hkind⟩ := hstrategy
  obtain ⟨hstore, hdb⟩ := addStrategySupport_eq hfound hkind evidenceEventId userConfirmed
  cases hsupported : record.supported evidenceEventId userConfirmed with
  | none =>
      rw [hsupported] at hstore hdb
      constructor
      · rw [hstore]
        exact fun r hr => hmore (hs.store r hr)
      · rw [hdb]
        exact fun row hrow => hmore (hs.rows row hrow)
  | some next =>
      rw [hsupported] at hstore hdb
      have hrecord := hmore (hs.store record (Table.mem_of_get? hfound))
      have hid : record.memoryId = memoryId := Table.key_of_get? hfound
      -- a strategy that is promoted without the count for it was confirmed by this call
      have hnext : next.Tallied (confirmed ++
          MemoryMove.confirms s (.support memoryId evidenceEventId userConfirmed)) := by
        apply hrecord.supported hsupported
        intro hconfirmed
        subst hconfirmed
        apply List.mem_append_right
        simp only [MemoryMove.confirms, hfound, hkind, if_true, hid]
        exact List.mem_singleton_self _
      have hstated : next.strategyState.isSome = true := by
        rw [MemoryRecord.supported_eq_some hrecord.toCountsDistinct hsupported]
        rfl
      constructor
      · rw [hstore]
        intro r hr
        rcases Table.mem_put.mp hr with rfl | ⟨hmem, -⟩
        · exact hnext
        · exact hmore (hs.store r hmem)
      · rw [hdb]
        dsimp only
        intro row hrow
        split at hrow
        · rcases saved_row hrow with hold | ⟨old, value, hold, hold', rfl⟩ | ⟨value, rfl⟩
          · exact hmore (hs.rows row hold)
          · exact (hmore (hs.rows old hold)).overwrite (hnext.withValue value) hstated hold'
          · exact hnext.withValue value
        · exact hmore (hs.rows row hrow)

/-- One event of `run_once`: a commit at most, and nothing else touches the records. -/
theorem tallied_next (hs : s.Every (MemoryRecord.Tallied confirmed)) :
    (s.next uuid py).Every (MemoryRecord.Tallied confirmed) := by
  have hF := frame_keeps (MemorySys.Every (MemoryRecord.Tallied confirmed))
  have hhandle : ∀ event, Within (Keeps (MemorySys.Every (MemoryRecord.Tallied confirmed)))
      (handleEvent uuid py event) := by
    intro event
    have hignore := @SameMemory.tallied confirmed _ _ (within_processIgnoredEvent event)
    unfold handleEvent
    split
    · exact hF.throw _
    · exact hF.bind hignore (fun _ => hF.pure _)
    · refine hF.bind (tallied_commit _ _) (fun record => ?_)
      cases record with
      | none => exact hF.bind hignore (fun _ => hF.pure _)
      | some record => exact hF.pure _
  unfold MemorySys.next
  cases hpending : s.pending with
  | nil => exact hs
  | cons event events =>
      have hprocess : (after (processEvent uuid py event events) s).Every
          (MemoryRecord.Tallied confirmed) := by
        have hread : Within (Keeps (MemorySys.Every (MemoryRecord.Tallied confirmed)))
            (modify fun t => { t with pending := events } : MemoryM Unit) :=
          within_modify fun t ht => ⟨ht.store, ht.rows⟩
        unfold processEvent
        refine hF.bind hread (fun _ => ?_) s hs
        exact hF.bind (hhandle event) (fun _ =>
          hF.bind (SameMemory.tallied (within_ackEvent event.sequence)) (fun _ => hF.pure _))
      unfold after at hprocess
      dsimp only
      cases hrun : processEvent uuid py event events s with
      | ok committed t =>
          rw [hrun] at hprocess
          exact hprocess
      | error e t =>
          rw [hrun] at hprocess
          exact ⟨hprocess.store, hprocess.rows⟩

/-- **One move** keeps every record and every row tallied, whether it returns or raises. -/
theorem tallied_exec (h : ConfirmedSys) (move : MemoryMove)
    (hs : h.sys.Every (MemoryRecord.Tallied h.confirmed)) :
    (h.exec uuid py move).sys.Every (MemoryRecord.Tallied (h.exec uuid py move).confirmed) := by
  -- only a support confirms; every other move leaves the confirmed as they are
  have hmore : (move.exec uuid py h.sys).Every (MemoryRecord.Tallied h.confirmed) →
      (h.exec uuid py move).sys.Every (MemoryRecord.Tallied (h.exec uuid py move).confirmed) :=
    fun hkept => ⟨fun r hr => (hkept.store r hr).mono (List.subset_append_left _ _),
      fun row hrow => (hkept.rows row hrow).mono (List.subset_append_left _ _)⟩
  cases move with
  | support memoryId evidenceEventId userConfirmed =>
      exact tallied_support hs memoryId evidenceEventId userConfirmed
  | commit candidate sourceEvent =>
      apply hmore
      exact tallied_commit candidate sourceEvent h.sys hs
  | ignore event =>
      apply hmore
      exact (within_processIgnoredEvent event h.sys).every hs
  | read consumerId limit =>
      apply hmore
      exact ⟨hs.store, hs.rows⟩
  | next =>
      apply hmore
      exact tallied_next hs
  | log row eventId observedAt =>
      apply hmore
      refine ⟨hs.store, ?_⟩
      show ∀ r ∈ (h.sys.db.insertEvent row eventId observedAt).memoryRecords.rows,
        r.Tallied h.confirmed
      unfold Database.insertEvent
      cases h.sys.db.eventById eventId <;> exact hs.rows
  | reload =>
      apply hmore
      refine ⟨?_, hs.rows⟩
      show ∀ r ∈ (if h.sys.store.persistent then MemoryStore.fromPersistence h.sys.db
        else { persistent := false }).records.rows, r.Tallied h.confirmed
      split
      · exact fun r hr => hs.rows r (((fromPersistence_spec h.sys.db).2.1 r).mp hr)
      · exact fun r hr => by cases hr

/-- **A whole run**: from an empty store, every record that is ever in memory or in the database is
tallied. -/
theorem tallied_run (persistent : Bool) (moves : List MemoryMove) :
    (confirmedRun uuid py persistent moves).sys.Every
      (MemoryRecord.Tallied (confirmedRun uuid py persistent moves).confirmed) := by
  apply run_keeps (I := fun h : ConfirmedSys => h.sys.Every (MemoryRecord.Tallied h.confirmed))
  · exact tallied_exec
  · exact ⟨fun r hr => (by cases hr), fun row hrow => (by cases hrow)⟩

end

end LiandanluNative
