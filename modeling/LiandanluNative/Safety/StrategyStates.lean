/-
# LiandanluNative.Safety.StrategyStates — whether support ever lowers a strategy.

A confirmation promotes a strategy whatever its count is.  The next call without one sets the state
by the count again, and where that call's event is the only evidence there is, the count is two: a
promoted strategy is SUPPORTED afterwards, and how a list of calls ends depends on which of the two
came last.  Wherever there is other evidence, no call lowers the state, and every order of the calls
ends in the same one (`strategy_monotone_iff`).

The question is settled on one record first, where a call is a function (`SupportCall.count`) and
what has been counted is a set of ids.  PROMOTED is then characterised without the order: the
strategy was promoted, or some call confirms it, or two ids were counted.  The store only adds that
its record is the one that is counted on (`support_get?`).
-/
import LiandanluNative.Safety.StrategySupport
import LiandanluNative.StrategyTally

namespace LiandanluNative

open Lib (Table)
open Lib.Proc Lib.Runs

/-! ## States along a list of calls

The states of a strategy are ordered by how much support they stand for.
-/

/-- `CANDIDATE < SUPPORTED < PROMOTED`; no call rejects a strategy. -/
def StrategyState.rank : StrategyState → ℕ
  | .rejected => 0
  | .candidate => 1
  | .supported => 2
  | .promoted => 3

instance : LE StrategyState := ⟨fun a b => a.rank ≤ b.rank⟩

theorem StrategyState.le_def {a b : StrategyState} : a ≤ b ↔ a.rank ≤ b.rank := Iff.rfl

/-- PROMOTED is the highest state, … -/
theorem StrategyState.le_promoted (a : StrategyState) : a ≤ .promoted := by
  rw [StrategyState.le_def]
  cases a <;> decide

/-- … and the only one that is. -/
theorem StrategyState.eq_promoted {a : StrategyState} (h : .promoted ≤ a) : a = .promoted := by
  rw [StrategyState.le_def] at h
  cases a with
  | promoted => rfl
  | rejected => exact absurd h (by decide)
  | candidate => exact absurd h (by decide)
  | supported => exact absurd h (by decide)

/-- A higher count earns no lower state. -/
theorem StrategyState.earned_mono {m n : Int} (h : m ≤ n) : earned m ≤ earned n := by
  rw [StrategyState.le_def]
  unfold earned
  split_ifs <;> first | omega | decide

/-- Calls of `add_strategy_support` for one strategy of one store. -/
abbrev Supports := List (SupportCall Unit)

/-- What a call leaves, however it ends. -/
def MemorySys.support (memoryId : String) (s : MemorySys) (call : SupportCall Unit) : MemorySys :=
  after (addStrategySupport memoryId call.evidenceEventId call.userConfirmed) s

/-- The state of a strategy in the store. -/
def MemorySys.strategyState (s : MemorySys) (memoryId : String) : Option StrategyState :=
  (s.store.records.get? memoryId).bind MemoryRecord.strategyState

/-- The call does not lower the state: there is one before and after it, and the later is at least
the earlier. -/
def Raises (before after : Option StrategyState) : Prop :=
  ∃ a b, before = some a ∧ after = some b ∧ a ≤ b

/-- In every order of the calls, none of them lowers the state of the strategy, and the last leaves
the same state as in any other.  Calls that raise are among them, and leave what they find. -/
def MonotoneSupport (memoryId : String) (s : MemorySys) (calls : Supports) : Prop :=
  ∀ order : Supports, order.Perm calls →
    Each (MemorySys.support memoryId) (fun t call =>
      Raises (t.strategyState memoryId) ((t.support memoryId call).strategyState memoryId)) s order ∧
    (run (MemorySys.support memoryId) s order).strategyState memoryId
      = (run (MemorySys.support memoryId) s calls).strategyState memoryId

/-- Whenever the strategy stands promoted, or one of the calls confirms it, there is evidence
besides the event of any call that does not confirm.  It is a condition on the record and on the
list of the calls, in no order. -/
def OtherEvidence (record : MemoryRecord) (calls : Supports) : Prop :=
  ∀ call ∈ calls, call.userConfirmed = false → ∀ eventId, call.evidenceEventId = some eventId →
    (record.strategyState = some .promoted → ¬ record.supportEventIds ⊆ [eventId]) ∧
    ∀ other ∈ calls, other.userConfirmed = true →
      ¬ record.supportEventIds ++ other.evidenceEventId.toList ⊆ [eventId]

/-! ## One record -/

/-- A strategy whose state is the one its count earns, or PROMOTED: what every strategy of a run is,
by `tallied_run`. -/
structure MemoryRecord.Judged (record : MemoryRecord) : Prop extends record.CountsDistinct where
  strategy : record.kind = .strategy
  state : record.strategyState = some (.earned record.supportCount) ∨
    record.strategyState = some .promoted

/-- A tallied strategy is one. -/
theorem MemoryRecord.Tallied.judged {record : MemoryRecord} {confirmed : List String}
    (h : record.Tallied confirmed) (hkind : record.kind = .strategy) : record.Judged where
  toCountsDistinct := h.toCountsDistinct
  strategy := hkind
  state := by
    obtain ⟨state, hstate⟩ := Option.isSome_iff_exists.mp (h.stated hkind)
    rcases h.state state hstate with rfl | ⟨rfl, -⟩
    · exact Or.inl hstate
    · exact Or.inr hstate

section

variable {record : MemoryRecord} {call : SupportCall Unit} {calls : Supports}

/-- A call that raises leaves the record, and any other counts and judges. -/
theorem SupportCall.count_eq (h : record.CountsDistinct) (call : SupportCall Unit) :
    call.count record
      = if call.bare then record
        else (record.counted call.evidenceEventId).judged call.userConfirmed := by
  have hsome := record.supported_isSome call
  unfold SupportCall.count
  cases hbare : call.bare with
  | true =>
      rw [hbare, Bool.not_true, Option.isSome_eq_false_iff, Option.isNone_iff_eq_none] at hsome
      rw [hsome]
      rfl
  | false =>
      rw [hbare, Bool.not_false, Option.isSome_iff_exists] at hsome
      obtain ⟨next, hnext⟩ := hsome
      rw [hnext, if_neg Bool.false_ne_true]
      exact MemoryRecord.supported_eq_some h hnext

/-- It stays one, whatever the call. -/
theorem MemoryRecord.Judged.counting (h : record.Judged) (call : SupportCall Unit) :
    (call.count record).Judged := by
  rw [call.count_eq h.toCountsDistinct]
  split
  · exact h
  · obtain ⟨-, -, hkind⟩ := record.counted_sources call.evidenceEventId
    have hdistinct := h.toCountsDistinct.counted call.evidenceEventId
    refine ⟨⟨hdistinct.nodup, hdistinct.count⟩, hkind.trans h.strategy, ?_⟩
    show some _ = some _ ∨ some _ = some _
    cases call.userConfirmed with
    | true => exact Or.inr rfl
    | false => exact Or.inl rfl

/-- The ids of a record once a call was counted. -/
theorem SupportCall.mem_count (h : record.CountsDistinct) (call : SupportCall Unit)
    (eventId : String) :
    eventId ∈ (call.count record).supportEventIds ↔
      eventId ∈ record.supportEventIds ∨ call.evidenceEventId = some eventId := by
  rw [call.count_eq h]
  cases hbare : call.bare with
  | false => exact record.mem_counted call.evidenceEventId eventId
  | true =>
      rw [if_pos rfl, iff_self_or]
      intro hevidence
      simp [SupportCall.bare, hevidence] at hbare

/-- Two ids or more: the strategy is promoted. -/
theorem MemoryRecord.Judged.promoted_of_two (h : record.Judged)
    (htwo : 2 ≤ record.supportEventIds.length) : record.strategyState = some .promoted := by
  rcases h.state with hearned | hpromoted
  · rw [hearned, StrategyState.earned, if_pos]
    rw [h.count]
    omega
  · exact hpromoted

/-- A confirmation promotes. -/
theorem SupportCall.promoted_of_confirmed (h : record.CountsDistinct)
    (hconfirmed : call.userConfirmed = true) :
    (call.count record).strategyState = some .promoted := by
  rw [call.count_eq h]
  have hbare : call.bare = false := by simp [SupportCall.bare, hconfirmed]
  rw [hbare, if_neg Bool.false_ne_true, hconfirmed]
  rfl

/-- An event promotes without a confirmation where it is not all the evidence. -/
theorem SupportCall.promoted_iff_of_event (h : record.CountsDistinct)
    (hunconfirmed : call.userConfirmed = false) {eventId : String}
    (hevent : call.evidenceEventId = some eventId) :
    (call.count record).strategyState = some .promoted ↔ ¬ record.supportEventIds ⊆ [eventId] := by
  have hbare : call.bare = false := by simp [SupportCall.bare, hevent]
  have hdistinct := h.counted (some eventId)
  have hmem := record.mem_counted (some eventId)
  have hlisted := (hmem eventId).mpr (Or.inr rfl)
  have hsub : (record.counted (some eventId)).supportEventIds ⊆ [eventId] ↔
      record.supportEventIds ⊆ [eventId] := by
    constructor
    · exact fun hall other hother => hall ((hmem other).mpr (Or.inl hother))
    · intro hall other hother
      rcases (hmem other).mp hother with hold | hnew
      · exact hall hold
      · cases hnew
        exact List.mem_singleton_self _
  rw [call.count_eq h, hbare, if_neg Bool.false_ne_true, hunconfirmed, hevent, ← hsub,
    ← hdistinct.two_le_length_iff hlisted]
  show some (StrategyState.earned (record.counted (some eventId)).supportCount) = _ ↔ _
  have hpos := List.length_pos_of_mem hlisted
  rw [Option.some.injEq, hdistinct.count]
  unfold StrategyState.earned
  split
  · exact iff_of_true rfl (by omega)
  · rw [if_pos (by omega)]
    exact iff_of_false (by decide) (by omega)

/-! ## Where there is other evidence

No call lowers the state there, and that the strategy ends PROMOTED is told without the order of the
calls.
-/

/-- The other evidence is still there once one of the calls was counted: ids are never taken back,
and a strategy that was promoted by the call has two. -/
theorem OtherEvidence.counting (hother : OtherEvidence record calls) (h : record.CountsDistinct)
    (hcall : call ∈ calls) : OtherEvidence (call.count record) calls := by
  have hgrown : ∀ {ids : List String}, ¬ record.supportEventIds ⊆ ids →
      ¬ (call.count record).supportEventIds ⊆ ids := by
    intro ids hnot hsub
    exact hnot fun other hmem => hsub ((call.mem_count h other).mpr (Or.inl hmem))
  intro later hlater hunconfirmed eventId hevent
  obtain ⟨hpromoted, hconfirmed⟩ := hother later hlater hunconfirmed eventId hevent
  constructor
  · intro hstate hsub
    cases hbare : call.bare with
    | true =>
        rw [call.count_eq h, hbare, if_pos rfl] at hstate hsub
        exact hpromoted hstate hsub
    | false =>
        cases hconf : call.userConfirmed with
        | true =>
            -- the call is one of the confirmations
            apply hconfirmed call hcall hconf
            intro other hmem
            apply hsub
            rw [call.mem_count h]
            simpa using hmem
        | false =>
            -- its own event promotes where there are two ids, and two are not one
            obtain ⟨own, hown⟩ : ∃ own, call.evidenceEventId = some own := by
              simpa [SupportCall.bare, hconf, Option.isSome_iff_exists] using hbare
            have hmem := (call.mem_count h own).mpr (Or.inr hown)
            have hnot := (SupportCall.promoted_iff_of_event h hconf hown).mp hstate
            have hsame : own = eventId := by simpa using hsub hmem
            exact hgrown (hsame ▸ hnot) hsub
  · intro other hmem hconf hsub
    apply hconfirmed other hmem hconf
    intro id hid
    apply hsub
    rcases List.mem_append.mp hid with hold | hnew
    · exact List.mem_append_left _ ((call.mem_count h id).mpr (Or.inl hold))
    · exact List.mem_append_right _ hnew

/-- **One call** does not lower the state: it can only fall from PROMOTED, by a call without a
confirmation, and there the other evidence makes the count enough. -/
theorem MemoryRecord.Judged.raises (h : record.Judged) (hother : OtherEvidence record calls)
    (hcall : call ∈ calls) : Raises record.strategyState (call.count record).strategyState := by
  have hdistinct := h.toCountsDistinct
  have hstate : ∃ a, record.strategyState = some a := by
    rcases h.state with hearned | hpromoted
    · exact ⟨_, hearned⟩
    · exact ⟨_, hpromoted⟩
  obtain ⟨a, ha⟩ := hstate
  cases hconf : call.userConfirmed with
  | true =>
      exact ⟨a, .promoted, ha, call.promoted_of_confirmed hdistinct hconf, a.le_promoted⟩
  | false =>
      cases hevent : call.evidenceEventId with
      | none =>
          have hbare : call.bare = true := by simp [SupportCall.bare, hevent, hconf]
          rw [call.count_eq hdistinct, hbare, if_pos rfl]
          exact ⟨a, a, ha, ha, le_refl a.rank⟩
      | some eventId =>
          by_cases hpromoted : record.strategyState = some .promoted
          · have hnot := (hother call hcall hconf eventId hevent).1 hpromoted
            have hnext := (SupportCall.promoted_iff_of_event hdistinct hconf hevent).mpr hnot
            exact ⟨a, .promoted, ha, hnext, a.le_promoted⟩
          · have hearned := h.state.resolve_right hpromoted
            have hbare : call.bare = false := by simp [SupportCall.bare, hevent]
            have hcount := hdistinct.counted (some eventId)
            -- the count has not become smaller
            have hle : record.supportCount ≤ (record.counted (some eventId)).supportCount := by
              have hlength : record.supportEventIds.length
                  ≤ (record.counted (some eventId)).supportEventIds.length :=
                (hdistinct.nodup.subperm fun id hid =>
                  (record.mem_counted (some eventId) id).mpr (Or.inl hid)).length_le
              rw [hdistinct.count, hcount.count]
              omega
            refine ⟨_, _, hearned, ?_, StrategyState.earned_mono hle⟩
            rw [call.count_eq hdistinct, hbare, if_neg Bool.false_ne_true, hconf, hevent]
            rfl

/-- The record after some of the calls. -/
theorem MemoryRecord.Judged.after (h : record.Judged) (order : Supports) :
    (run (fun r call => SupportCall.count r call) record order).Judged :=
  run_keeps (I := MemoryRecord.Judged) (fun _ call hr => hr.counting call) order h

/-- The ids of the record then: those it had, and the evidence of the calls. -/
theorem mem_after (h : record.Judged) (order : Supports) (eventId : String) :
    eventId ∈ (run (fun r call => SupportCall.count r call) record order).supportEventIds ↔
      eventId ∈ record.supportEventIds ∨ eventId ∈ evidenceOf order := by
  induction order generalizing record with
  | nil => simp [evidenceOf]
  | cons call order ih =>
      rw [run_cons, ih (h.counting call), call.mem_count h.toCountsDistinct]
      simp only [evidenceOf, List.flatMap_cons, List.mem_append, Option.mem_toList, or_assoc]

/-- **A list of calls** does not lower the state, and promotes where the strategy was promoted, or
one of the calls confirms it, or two ids are counted in the end. -/
theorem MemoryRecord.Judged.run_raises (h : record.Judged) (hother : OtherEvidence record calls)
    {order : Supports} (hsub : order ⊆ calls) :
    Each (fun r call => SupportCall.count r call) (fun r call =>
      Raises r.strategyState (call.count r).strategyState) record order ∧
    ((run (fun r call => SupportCall.count r call) record order).strategyState = some .promoted ↔
      record.strategyState = some .promoted ∨ (∃ call ∈ order, call.userConfirmed = true) ∨
        2 ≤ (run (fun r call => SupportCall.count r call) record order).supportEventIds.length) := by
  induction order generalizing record with
  | nil =>
      refine ⟨trivial, ?_⟩
      simp only [run_nil, List.not_mem_nil, false_and, exists_false, false_or]
      constructor
      · exact Or.inl
      · rintro (hpromoted | htwo)
        · exact hpromoted
        · exact h.promoted_of_two htwo
  | cons call order ih =>
      have hcall : call ∈ calls := hsub List.mem_cons_self
      have hdistinct := h.toCountsDistinct
      have hraises := h.raises hother hcall
      obtain ⟨hlater, hiff⟩ := ih (h.counting call) (hother.counting hdistinct hcall)
        (fun c hc => hsub (List.mem_cons_of_mem call hc))
      refine ⟨⟨hraises, hlater⟩, ?_⟩
      rw [run_cons]
      constructor
      · intro hpromoted
        rcases hiff.mp hpromoted with hnext | ⟨other, hmem, hconf⟩ | htwo
        · cases hconf : call.userConfirmed with
          | true => exact Or.inr (Or.inl ⟨call, List.mem_cons_self, hconf⟩)
          | false =>
              cases hevent : call.evidenceEventId with
              | none =>
                  have hbare : call.bare = true := by simp [SupportCall.bare, hevent, hconf]
                  rw [call.count_eq hdistinct, hbare, if_pos rfl] at hnext
                  exact Or.inl hnext
              | some eventId =>
                  -- the record has two ids already, and no later call takes one away
                  have hnot := (SupportCall.promoted_iff_of_event hdistinct hconf hevent).mp hnext
                  have hlast := (h.counting call).after order
                  have hgrown : ∀ id ∈ (call.count record).supportEventIds,
                      id ∈ (run (fun r call => SupportCall.count r call) (call.count record)
                        order).supportEventIds :=
                    fun id hid => (mem_after (h.counting call) order id).mpr (Or.inl hid)
                  have hmem := hgrown eventId ((call.mem_count hdistinct eventId).mpr
                    (Or.inr hevent))
                  refine Or.inr (Or.inr ((hlast.two_le_length_iff hmem).mpr fun hsub => hnot ?_))
                  exact fun id hid =>
                    hsub (hgrown id ((call.mem_count hdistinct id).mpr (Or.inl hid)))
        · exact Or.inr (Or.inl ⟨other, List.mem_cons_of_mem call hmem, hconf⟩)
        · exact Or.inr (Or.inr htwo)
      · intro hone
        apply hiff.mpr
        rcases hone with hpromoted | ⟨other, hmem, hconf⟩ | htwo
        · obtain ⟨a, b, ha, hb, hle⟩ := hraises
          rw [hpromoted, Option.some.injEq] at ha
          subst ha
          rw [StrategyState.eq_promoted hle] at hb
          exact Or.inl hb
        · rcases List.mem_cons.mp hmem with rfl | hmem
          · exact Or.inl (SupportCall.promoted_of_confirmed hdistinct hconf)
          · exact Or.inr (Or.inl ⟨other, hmem, hconf⟩)
        · exact Or.inr (Or.inr htwo)

/-- Every order of the calls ends in the same state. -/
theorem MemoryRecord.Judged.run_state_perm (h : record.Judged) (hother : OtherEvidence record calls)
    {order : Supports} (hperm : order.Perm calls) :
    (run (fun r call => SupportCall.count r call) record order).strategyState
      = (run (fun r call => SupportCall.count r call) record calls).strategyState := by
  have hone := (h.run_raises hother hperm.subset).2
  have htwo := (h.run_raises hother (List.Subset.refl calls)).2
  have hlast := h.after order
  have hlast' := h.after calls
  -- the same ids are listed, so the same number of them
  have hids : (run (fun r call => SupportCall.count r call) record order).supportEventIds.Perm
      (run (fun r call => SupportCall.count r call) record calls).supportEventIds := by
    refine (List.perm_ext_iff_of_nodup hlast.nodup hlast'.nodup).mpr fun id => ?_
    rw [mem_after h, mem_after h, mem_evidenceOf, mem_evidenceOf]
    simp only [hperm.mem_iff]
  have hcount : (run (fun r call => SupportCall.count r call) record order).supportCount
      = (run (fun r call => SupportCall.count r call) record calls).supportCount := by
    rw [hlast.count, hlast'.count, hids.length_eq]
  have hsame : (run (fun r call => SupportCall.count r call) record order).strategyState
        = some .promoted ↔
      (run (fun r call => SupportCall.count r call) record calls).strategyState
        = some .promoted := by
    rw [hone, htwo, hids.length_eq]
    simp only [hperm.mem_iff]
  by_cases hpromoted :
      (run (fun r call => SupportCall.count r call) record order).strategyState = some .promoted
  · rw [hpromoted, hsame.mp hpromoted]
  · rw [hlast.state.resolve_right hpromoted,
      hlast'.state.resolve_right (fun h' => hpromoted (hsame.mpr h')), hcount]

/-! ## Where there is none -/

/-- The event is all the evidence: the call takes a promoted strategy down, to what a count of two
earns. -/
theorem not_raises_of_event (h : record.CountsDistinct)
    (hpromoted : record.strategyState = some .promoted) (hunconfirmed : call.userConfirmed = false)
    {eventId : String} (hevent : call.evidenceEventId = some eventId)
    (hsub : record.supportEventIds ⊆ [eventId]) :
    ¬ Raises record.strategyState (call.count record).strategyState := by
  rintro ⟨a, b, ha, hb, hle⟩
  rw [hpromoted, Option.some.injEq] at ha
  subst ha
  rw [StrategyState.eq_promoted hle] at hb
  exact (SupportCall.promoted_iff_of_event h hunconfirmed hevent).mp hb hsub

/-- If no order of the calls lowers the state, there is other evidence.  The orders to look at are
those that begin with the call in question, or with a confirmation and then that call. -/
theorem otherEvidence_of_raises (h : record.Judged)
    (hraises : ∀ order : Supports, order.Perm calls →
      Each (fun r call => SupportCall.count r call) (fun r call =>
        Raises r.strategyState (call.count r).strategyState) record order) :
    OtherEvidence record calls := by
  have hdistinct := h.toCountsDistinct
  intro call hcall hunconfirmed eventId hevent
  obtain ⟨before, later, rfl⟩ := List.append_of_mem hcall
  constructor
  · intro hpromoted hsub
    -- the call comes first
    have hfirst := hraises (call :: (before ++ later)) List.perm_middle.symm
    exact not_raises_of_event hdistinct hpromoted hunconfirmed hevent hsub hfirst.1
  · intro other hmem hconfirmed hsub
    have hne : other ≠ call := by
      rintro rfl
      rw [hconfirmed] at hunconfirmed
      cases hunconfirmed
    have hrest : other ∈ before ++ later := by
      rcases List.mem_append.mp hmem with hbefore | hlater
      · exact List.mem_append_left _ hbefore
      · exact List.mem_append_right _ ((List.mem_cons.mp hlater).resolve_left hne)
    obtain ⟨first, last, heq⟩ := List.append_of_mem hrest
    -- the confirmation comes first, and the call next
    have hperm : (other :: call :: (first ++ last)).Perm (before ++ call :: later) := by
      refine (List.Perm.swap call other _).trans ?_
      refine (List.Perm.cons call List.perm_middle.symm).trans ?_
      rw [← heq]
      exact List.perm_middle.symm
    have hsecond := (hraises _ hperm).2.1
    refine not_raises_of_event (h.counting other).toCountsDistinct
      (SupportCall.promoted_of_confirmed hdistinct hconfirmed) hunconfirmed hevent ?_ hsecond
    intro id hid
    apply hsub
    rcases (other.mem_count hdistinct id).mp hid with hold | hown
    · exact List.mem_append_left _ hold
    · exact List.mem_append_right _ (by rw [hown]; exact List.mem_singleton_self _)

/-! ## The store -/

variable {s : MemorySys} {memoryId : String}

/-- A call of the store counts on its record. -/
theorem support_get? (h : record.Judged)
    (hfound : s.store.records.get? memoryId = some record) (call : SupportCall Unit) :
    (s.support memoryId call).store.records.get? memoryId = some (call.count record) := by
  have hid : record.memoryId = memoryId := Table.key_of_get? hfound
  unfold MemorySys.support SupportCall.count
  rw [(addStrategySupport_eq hfound h.strategy _ _).1]
  cases hsupported : record.supported call.evidenceEventId call.userConfirmed with
  | none => exact hfound
  | some next =>
      have hnext : next.memoryId = memoryId :=
        (MemoryRecord.supported_key hsupported).1.trans hid
      rw [Option.getD_some, ← hnext]
      exact Table.get?_put_self _ _

/-- So does a list of them. -/
theorem runSupport_get? (h : record.Judged)
    (hfound : s.store.records.get? memoryId = some record) (order : Supports) :
    (run (MemorySys.support memoryId) s order).store.records.get? memoryId
      = some (run (fun r call => SupportCall.count r call) record order) := by
  induction order generalizing s record with
  | nil => exact hfound
  | cons call order ih => exact ih (h.counting call) (support_get? h hfound call)

/-- The state of the strategy is that of its record. -/
theorem strategyState_of_get? (hfound : s.store.records.get? memoryId = some record) :
    s.strategyState memoryId = record.strategyState := by
  rw [MemorySys.strategyState, hfound, Option.bind_some]

/-- A list of calls lowers the state in the store where it lowers that of the record. -/
theorem runSupport_each (h : record.Judged)
    (hfound : s.store.records.get? memoryId = some record) (order : Supports) :
    Each (MemorySys.support memoryId) (fun t call =>
        Raises (t.strategyState memoryId) ((t.support memoryId call).strategyState memoryId))
        s order ↔
      Each (fun r call => SupportCall.count r call) (fun r call =>
        Raises r.strategyState (call.count r).strategyState) record order := by
  induction order generalizing s record with
  | nil => exact Iff.rfl
  | cons call order ih =>
      have hnext := support_get? h hfound call
      refine and_congr ?_ (ih (h.counting call) hnext)
      show Raises (s.strategyState memoryId) ((s.support memoryId call).strategyState memoryId) ↔ _
      rw [strategyState_of_get? hfound, strategyState_of_get? hnext]

end

/-- **Support never lowers a strategy, and the order does not matter, exactly if there is other
evidence.** The strategy is any of the store after any run, and the calls are any list. -/
theorem strategy_monotone_iff (uuid : ℕ → String) (py : Builtins) (persistent : Bool)
    (moves : List MemoryMove) {memoryId : String} {record : MemoryRecord}
    (hfound : (confirmedRun uuid py persistent moves).sys.store.records.get? memoryId = some record)
    (hkind : record.kind = .strategy) (calls : Supports) :
    MonotoneSupport memoryId (confirmedRun uuid py persistent moves).sys calls ↔
      OtherEvidence record calls := by
  have h : record.Judged :=
    ((tallied_run persistent moves).store record (Table.mem_of_get? hfound)).judged hkind
  constructor
  · intro hmonotone
    apply otherEvidence_of_raises h
    intro order hperm
    exact (runSupport_each h hfound order).mp (hmonotone order hperm).1
  · intro hother order hperm
    constructor
    · exact (runSupport_each h hfound order).mpr (h.run_raises hother hperm.subset).1
    · rw [strategyState_of_get? (runSupport_get? h hfound order),
        strategyState_of_get? (runSupport_get? h hfound calls)]
      exact h.run_state_perm hother hperm

/-- A store in which one strategy was committed. -/
def oneStrategy : ConfirmedSys := confirmedRun tallyId plainBuiltins false [.commit replyStrategy none]

/-- Its record is the one that was committed. -/
theorem oneStrategy_get? :
    oneStrategy.sys.store.records.get? (newMemoryId tallyId 0)
      = some (replyStrategy.record (newMemoryId tallyId 0) none) := rfl

/-- A confirmation with an event of its own, and another event. -/
theorem strategy_monotone_iff_small :
    MonotoneSupport (newMemoryId tallyId 0) oneStrategy.sys
      [⟨(), some "e1", true⟩, ⟨(), some "e2", false⟩] := by
  refine (strategy_monotone_iff tallyId plainBuiltins false [.commit replyStrategy none]
    oneStrategy_get? rfl _).mpr ?_
  intro call hcall hunconfirmed eventId hevent
  simp only [List.mem_cons, List.not_mem_nil, or_false] at hcall
  rcases hcall with rfl | rfl
  · cases hunconfirmed
  · cases hevent
    constructor
    · intro hpromoted
      cases hpromoted
    intro other hother hconfirmed hsub
    simp only [List.mem_cons, List.not_mem_nil, or_false] at hother
    rcases hother with rfl | rfl
    · have hmem : "e1" ∈ ["e2"] := hsub (by decide)
      exact absurd hmem (by decide)
    · cases hconfirmed

/-- A confirmation, and then the first event: the promoted strategy is SUPPORTED. -/
theorem strategy_monotone_fails :
    ¬ MonotoneSupport (newMemoryId tallyId 0) oneStrategy.sys
      [⟨(), none, true⟩, ⟨(), some "e1", false⟩] := by
  intro hmonotone
  obtain ⟨-, ⟨a, b, ha, hb, hle⟩, -⟩ := (hmonotone _ (List.Perm.refl _)).1
  have hbefore : some a = some StrategyState.promoted := ha.symm
  have hafter : some b = some StrategyState.supported := hb.symm
  cases hbefore
  cases hafter
  exact absurd hle (by decide)

end LiandanluNative
