/-
# LiandanluNative.Safety.DistinctEvidence — how many events stand behind a strategy.

`support_count` begins at one for the events the strategy was made of, and grows by one for each
event of its support.  Nothing compares the two lists: an event the strategy was made of is counted
again as support.  The count is always one more than the ids of the support; but it speaks for as
many distinct events only where some source event is not also given as support, or three events are
(`distinct_evidence_iff`).
-/
import LiandanluNative.Safety.StrategyStates

namespace LiandanluNative

open Lib (Table)
open Lib.Proc Lib.Runs

/-! ## The events behind a strategy -/

namespace MemoryRecord

/-- How many events the record names, as a source or as support. -/
def distinctEvents (record : MemoryRecord) : ℕ :=
  (record.sourceEventIds ++ record.supportEventIds).dedup.length

/-- The count is one more than the distinct ids of the support, and without a confirmation two
events stand behind a SUPPORTED strategy and three behind a PROMOTED one. -/
structure EvidenceBacked (confirmed : Prop) (record : MemoryRecord) : Prop where
  count : record.supportCount = 1 + (record.supportEventIds.dedup.length : Int)
  supported : ¬ confirmed → record.strategyState = some .supported → 2 ≤ record.distinctEvents
  promoted : ¬ confirmed → record.strategyState = some .promoted → 3 ≤ record.distinctEvents

end MemoryRecord

/-- The events of the support are none, or three, or not all that the strategy was made of. -/
def FreshEvidence (sources evidence : List String) : Prop :=
  evidence = [] ∨ 3 ≤ evidence.dedup.length ∨ ∃ source ∈ sources, source ∉ evidence

section

variable {sources ids : List String}

theorem length_le_dedup_append (hids : ids.Nodup) : ids.length ≤ (sources ++ ids).dedup.length := by
  apply List.Subperm.length_le
  apply hids.subperm
  intro id hid
  rw [List.mem_dedup]
  exact List.mem_append_right _ hid

/-- One more distinct event than the support has: some source is not among it. -/
theorem length_lt_dedup_append_iff (hids : ids.Nodup) :
    ids.length < (sources ++ ids).dedup.length ↔ ∃ source ∈ sources, source ∉ ids := by
  constructor
  · intro hlt
    by_contra hnone
    push Not at hnone
    have hle : (sources ++ ids).dedup.length ≤ ids.length := by
      apply List.Subperm.length_le
      apply (List.nodup_dedup _).subperm
      intro id hid
      rcases List.mem_append.mp (List.mem_dedup.mp hid) with hsource | hsupport
      · exact hnone id hsource
      · exact hsupport
    omega
  · rintro ⟨source, hsource, hnot⟩
    have hboth : (source :: ids).Nodup := List.nodup_cons.mpr ⟨hnot, hids⟩
    have hle : (source :: ids).length ≤ (sources ++ ids).dedup.length := by
      apply List.Subperm.length_le
      apply hboth.subperm
      intro id hid
      rw [List.mem_dedup]
      rcases List.mem_cons.mp hid with rfl | hsupport
      · exact List.mem_append_left _ hsource
      · exact List.mem_append_right _ hsupport
    rw [List.length_cons] at hle
    omega

end

section

variable {record : MemoryRecord} {call : SupportCall Unit} {calls : Supports}

/-- Only a confirmation moves the state away from the one the count earns. -/
theorem SupportCall.earned_of_unconfirmed (h : record.Judged)
    (hearned : record.strategyState = some (.earned record.supportCount))
    (hunconfirmed : call.userConfirmed = false) :
    (call.count record).strategyState = some (.earned (call.count record).supportCount) := by
  rw [call.count_eq h.toCountsDistinct, hunconfirmed]
  split
  · exact hearned
  · rfl

theorem run_earned (h : record.Judged)
    (hearned : record.strategyState = some (.earned record.supportCount))
    (hunconfirmed : ∀ call ∈ calls, call.userConfirmed = false) :
    (run (fun r call => SupportCall.count r call) record calls).strategyState
      = some (.earned (run (fun r call => SupportCall.count r call) record calls).supportCount) := by
  induction calls generalizing record with
  | nil => exact hearned
  | cons call calls ih =>
      obtain ⟨hcall, hlater⟩ := List.forall_mem_cons.mp hunconfirmed
      apply ih (h.counting call)
      · exact SupportCall.earned_of_unconfirmed h hearned hcall
      · exact hlater

/-- The events the strategy was made of stay what they are. -/
theorem run_sources (h : record.Judged) (calls : Supports) :
    (run (fun r call => SupportCall.count r call) record calls).sourceEventIds
      = record.sourceEventIds := by
  induction calls generalizing record with
  | nil => rfl
  | cons call calls ih =>
      rw [run_cons, ih (h.counting call), call.count_eq h.toCountsDistinct]
      split
      · rfl
      · exact (record.counted_sources call.evidenceEventId).1

/-- A record that has the state its count earns is backed by its events where they are fresh. -/
theorem MemoryRecord.Judged.evidenceBacked_iff (h : record.Judged) {confirmed : Prop}
    (hearned : ¬ confirmed → record.strategyState = some (.earned record.supportCount)) :
    record.EvidenceBacked confirmed ↔
      confirmed ∨ FreshEvidence record.sourceEventIds record.supportEventIds := by
  have hdedup : record.supportEventIds.dedup = record.supportEventIds := h.nodup.dedup
  have hcount : record.supportCount = 1 + (record.supportEventIds.dedup.length : Int) := by
    rw [hdedup]
    exact h.count
  by_cases hconfirmed : confirmed
  · exact iff_of_true ⟨hcount, fun hnot => absurd hconfirmed hnot,
      fun hnot => absurd hconfirmed hnot⟩ (Or.inl hconfirmed)
  have hstate := hearned hconfirmed
  have hle := @length_le_dedup_append record.sourceEventIds _ h.nodup
  rw [or_iff_right hconfirmed, FreshEvidence, hdedup, ← length_lt_dedup_append_iff h.nodup,
    ← List.length_eq_zero_iff]
  -- none, one, two or more events: CANDIDATE, SUPPORTED, PROMOTED
  constructor
  · intro hbacked
    by_contra hnot
    push Not at hnot
    obtain ⟨hsome, hfew, hshort⟩ := hnot
    have hone : record.supportEventIds.length = 1 ∨ record.supportEventIds.length = 2 := by omega
    rcases hone with hone | htwo
    · have hsupported : record.strategyState = some .supported := by
        rw [hstate, h.count, hone]
        rfl
      have htwo := hbacked.supported hconfirmed hsupported
      unfold MemoryRecord.distinctEvents at htwo
      omega
    · have hpromoted : record.strategyState = some .promoted := by
        rw [hstate, h.count, htwo]
        rfl
      have hthree := hbacked.promoted hconfirmed hpromoted
      unfold MemoryRecord.distinctEvents at hthree
      omega
  · intro hfresh
    refine ⟨hcount, fun _ hsupported => ?_, fun _ hpromoted => ?_⟩
    · have htwo : record.supportEventIds.length = 1 := by
        rw [hstate, h.count, Option.some.injEq] at hsupported
        unfold StrategyState.earned at hsupported
        split_ifs at hsupported
        omega
      unfold MemoryRecord.distinctEvents
      omega
    · have hthree : 2 ≤ record.supportEventIds.length := by
        rw [hstate, h.count, Option.some.injEq] at hpromoted
        unfold StrategyState.earned at hpromoted
        split_ifs at hpromoted
        omega
      unfold MemoryRecord.distinctEvents
      omega

/-- Evidence is fresh by which events there are. -/
theorem freshEvidence_congr {sources evidence evidence' : List String}
    (hsame : ∀ id, id ∈ evidence ↔ id ∈ evidence') :
    FreshEvidence sources evidence ↔ FreshEvidence sources evidence' := by
  have hperm : evidence.dedup.Perm evidence'.dedup := by
    refine (List.perm_ext_iff_of_nodup (List.nodup_dedup _) (List.nodup_dedup _)).mpr fun id => ?_
    rw [List.mem_dedup, List.mem_dedup, hsame]
  unfold FreshEvidence
  rw [hperm.length_eq]
  simp only [List.eq_nil_iff_forall_not_mem, hsame]

end

/-! ## The store -/

/-- The store finds a record under the id that its events back. -/
def MemorySys.EvidenceBacked (s : MemorySys) (memoryId : String) (confirmed : Prop) : Prop :=
  ∃ record, s.store.records.get? memoryId = some record ∧ record.EvidenceBacked confirmed

/-- **As many distinct events as the state asks for stand behind a strategy, exactly if the user
confirmed it or its evidence is fresh.** -/
theorem distinct_evidence_iff (uuid : ℕ → String) (py : Builtins) (persistent : Bool)
    (moves : List MemoryMove) {memoryId : String} {record : MemoryRecord}
    (hfound : (confirmedRun uuid py persistent moves).sys.store.records.get? memoryId = some record)
    (hkind : record.kind = .strategy) (calls : Supports) :
    (run (MemorySys.support memoryId) (confirmedRun uuid py persistent moves).sys
        calls).EvidenceBacked memoryId
      (memoryId ∈ (confirmedRun uuid py persistent moves).confirmed ∨
        ∃ call ∈ calls, call.userConfirmed = true) ↔
    (memoryId ∈ (confirmedRun uuid py persistent moves).confirmed ∨
        ∃ call ∈ calls, call.userConfirmed = true) ∨
      FreshEvidence record.sourceEventIds (record.supportEventIds ++ evidenceOf calls) := by
  have htallied := (tallied_run persistent moves).store record (Table.mem_of_get? hfound)
  have h : record.Judged := htallied.judged hkind
  have hlast := h.after calls
  have hget := runSupport_get? h hfound calls
  have hid : record.memoryId = memoryId := Table.key_of_get? hfound
  -- what is said of the stored record is said of the record after all calls
  have hback : ∀ confirmed : Prop,
      (run (MemorySys.support memoryId) (confirmedRun uuid py persistent moves).sys
          calls).EvidenceBacked memoryId confirmed ↔
        (run (fun r call => SupportCall.count r call) record calls).EvidenceBacked confirmed := by
    intro confirmed
    constructor
    · rintro ⟨found, hfound', hbacked⟩
      cases hget.symm.trans hfound'
      exact hbacked
    · exact fun hbacked => ⟨_, hget, hbacked⟩
  rw [hback, hlast.evidenceBacked_iff, run_sources h]
  · apply or_congr_right
    apply freshEvidence_congr
    intro id
    rw [mem_after h, List.mem_append]
  -- without a confirmation its state was earned by evidence only
  · intro hnot
    rw [not_or] at hnot
    apply run_earned h
    · obtain ⟨state, hstate⟩ := Option.isSome_iff_exists.mp (htallied.stated hkind)
      rcases htallied.state state hstate with rfl | ⟨-, hmem⟩
      · exact hstate
      · exact absurd (hid ▸ hmem) hnot.1
    · intro call hcall
      by_contra hconf
      exact hnot.2 ⟨call, hcall, by simpa using hconf⟩

/-- The event of the source counts once more, and the strategy is SUPPORTED by it alone. -/
theorem distinct_evidence_fails :
    ¬ (run (MemorySys.support (newMemoryId tallyId 0)) oneStrategy.sys
        [⟨(), some "evt", false⟩]).EvidenceBacked (newMemoryId tallyId 0)
      (newMemoryId tallyId 0 ∈ oneStrategy.confirmed ∨
        ∃ call ∈ ([⟨(), some "evt", false⟩] : Supports), call.userConfirmed = true) := by
  rintro ⟨record, hfound, hbacked⟩
  have hunconfirmed : ¬ (newMemoryId tallyId 0 ∈ oneStrategy.confirmed ∨
      ∃ call ∈ ([⟨(), some "evt", false⟩] : Supports), call.userConfirmed = true) := by
    decide +kernel
  cases hfound
  have htwo := hbacked.supported hunconfirmed rfl
  exact absurd htwo (by decide +kernel)

/-- Another event supports it. -/
theorem distinct_evidence_iff_small :
    (run (MemorySys.support (newMemoryId tallyId 0)) oneStrategy.sys
        [⟨(), some "e2", false⟩]).EvidenceBacked (newMemoryId tallyId 0)
      (newMemoryId tallyId 0 ∈ oneStrategy.confirmed ∨
        ∃ call ∈ ([⟨(), some "e2", false⟩] : Supports), call.userConfirmed = true) :=
  (distinct_evidence_iff tallyId plainBuiltins false [.commit replyStrategy none]
    oneStrategy_get? rfl _).mpr (Or.inr (Or.inr (Or.inr ⟨"evt", by decide, by decide⟩)))

end LiandanluNative
