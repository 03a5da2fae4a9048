/-
# LiandanluNative.Safety.StrategySupport — what becomes of evidence that several stores count.

Stores that were hydrated from one database each hold a copy of a strategy record.
`add_strategy_support` counts the evidence on the copy and saves the copy whole, and nothing reads
the row again.  So the copies are `Copies` of the row, and what the row has in the end is what the
last of the stores counted (`support_kept_iff`).

What a store has counted on its copy is a set of ids (`SupportedBy`), so the order of its calls does
not matter and only the accepted evidence does.  The row is the copy of whoever wrote last; the
library of copies says which that is.
-/
import LiandanluNative.Lib.Copies
import LiandanluNative.Safety.DurableMemory

namespace LiandanluNative

open Lib (Table Copies)
open Lib.Proc Lib.Runs

/-! ## Stores over one database

Each store has its own copy of a strategy and overwrites the row with it, without a look at what
others have stored.
-/

/-- `add_strategy_support` of the record, by one of the stores. -/
structure SupportCall (ι : Type) where
  store : ι
  evidenceEventId : Option String
  userConfirmed : Bool := false

/-- A database, the stores over it, and the evidence that their calls accepted: what a caller whose
call returned takes to be counted. -/
structure MemoryStores (ι : Type) where
  db : Database
  stores : ι → MemoryStore
  accepted : List String := []

section

variable {ι : Type}

/-- What a call leaves, however it ends; its evidence is accepted if it returns. -/
def MemoryStores.exec [DecidableEq ι] (memoryId : String) (h : MemoryStores ι)
    (call : SupportCall ι) : MemoryStores ι :=
  match addStrategySupport memoryId call.evidenceEventId call.userConfirmed
      { store := h.stores call.store, db := h.db } with
  | .ok _ s =>
      { db := s.db
        stores := Function.update h.stores call.store s.store
        accepted := h.accepted ++ call.evidenceEventId.toList }
  | .error _ s =>
      { db := s.db
        stores := Function.update h.stores call.store s.store
        accepted := h.accepted }

/-- Neither evidence nor a confirmation: the call raises. -/
def SupportCall.bare (call : SupportCall ι) : Bool :=
  call.evidenceEventId.isNone && !call.userConfirmed

end

/-! ## One copy

What a copy has of the calls that were made: the evidence of those that it has seen.
-/

/-- A strategy record that counts its evidence, with a value that is decoded JSON. -/
structure MemoryRecord.Counted (record : MemoryRecord) : Prop where
  strategy : record.kind = .strategy
  decoded : record.value.jsonDumps = some record.value
  nodup : record.supportEventIds.Nodup
  count : record.supportCount = 1 + (record.supportEventIds.length : Int)

/-- A copy of the record that has counted the evidence: each id once, and nothing else changed but
the state. -/
structure MemoryRecord.SupportedBy (record copy : MemoryRecord) (evidence : List String) : Prop where
  same : record.overwrite copy = copy
  counted : copy.Counted
  mem : ∀ eventId, eventId ∈ copy.supportEventIds ↔
    eventId ∈ record.supportEventIds ∨ eventId ∈ evidence

/-- What a call makes of a copy. -/
def SupportCall.count {ι : Type} (copy : MemoryRecord) (call : SupportCall ι) : MemoryRecord :=
  (copy.supported call.evidenceEventId call.userConfirmed).getD copy

/-- The evidence of some calls. -/
def evidenceOf {ι : Type} (calls : List (SupportCall ι)) : List String :=
  calls.flatMap (fun call => call.evidenceEventId.toList)

namespace MemoryRecord

/-- The record itself has counted nothing more. -/
theorem SupportedBy.self {record : MemoryRecord} (h : record.Counted) :
    record.SupportedBy record [] where
  same := rfl
  counted := h
  mem _ := (or_iff_left List.not_mem_nil).symm

/-- Only a call with neither evidence nor a confirmation raises. -/
theorem supported_isSome {ι : Type} (copy : MemoryRecord) (call : SupportCall ι) :
    (copy.supported call.evidenceEventId call.userConfirmed).isSome = !call.bare := by
  unfold supported SupportCall.bare
  rw [Option.isSome_map]
  cases call.evidenceEventId with
  | none => cases call.userConfirmed <;> rfl
  | some eventId =>
      dsimp only
      split <;> rfl

variable {record copy : MemoryRecord} {evidence : List String}

/-- Promoting the strategy changes nothing else. -/
theorem SupportedBy.state (h : record.SupportedBy copy evidence) (state : Option StrategyState) :
    record.SupportedBy { copy with strategyState := state } evidence where
  same := congrArg (fun r : MemoryRecord => { r with strategyState := state }) h.same
  counted := ⟨h.counted.strategy, h.counted.decoded, h.counted.nodup, h.counted.count⟩
  mem := h.mem

/-- Evidence that the copy has is not counted again. -/
theorem SupportedBy.again (h : record.SupportedBy copy evidence) {eventId : String}
    (hmem : eventId ∈ copy.supportEventIds) : record.SupportedBy copy (evidence ++ [eventId]) where
  same := h.same
  counted := h.counted
  mem other := by
    rw [List.mem_append, List.mem_singleton, ← or_assoc, ← h.mem]
    exact (or_iff_left_of_imp (fun heq => heq ▸ hmem)).symm

/-- New evidence is counted. -/
theorem SupportedBy.append (h : record.SupportedBy copy evidence) {eventId : String}
    (hnew : eventId ∉ copy.supportEventIds) :
    record.SupportedBy
      { copy with
        supportEventIds := copy.supportEventIds ++ [eventId]
        supportCount := copy.supportCount + 1 }
      (evidence ++ [eventId]) where
  same := congrArg (fun r : MemoryRecord =>
    { r with
      supportEventIds := copy.supportEventIds ++ [eventId]
      supportCount := copy.supportCount + 1 }) h.same
  counted :=
    { strategy := h.counted.strategy
      decoded := h.counted.decoded
      nodup := List.nodup_append.mpr ⟨h.counted.nodup, List.nodup_singleton _,
        fun a ha b hb heq => hnew (List.mem_singleton.mp hb ▸ heq ▸ ha)⟩
      count := by
        show copy.supportCount + 1 = 1 + ((copy.supportEventIds ++ [eventId]).length : Int)
        rw [h.counted.count, List.length_append, List.length_singleton]
        push_cast
        omega }
  mem other := by
    show other ∈ copy.supportEventIds ++ [eventId] ↔ _
    rw [List.mem_append, List.mem_append, ← or_assoc, ← h.mem]

/-- **One count.** -/
theorem SupportedBy.count {ι : Type} (h : record.SupportedBy copy evidence) (call : SupportCall ι) :
    record.SupportedBy (call.count copy) (evidence ++ call.evidenceEventId.toList) := by
  have hpromoted : ∀ (confirmed : Bool) (r : MemoryRecord) (given : List String),
      record.SupportedBy r given → record.SupportedBy
        (if confirmed ∨ 3 ≤ r.supportCount then { r with strategyState := some .promoted }
        else if 2 ≤ r.supportCount then { r with strategyState := some .supported } else r)
        given := by
    intro confirmed r given hr
    split
    · exact hr.state _
    · split
      · exact hr.state _
      · exact hr
  unfold SupportCall.count supported
  cases call.evidenceEventId with
  | none =>
      rw [Option.toList_none, List.append_nil]
      cases call.userConfirmed with
      | false => exact h
      | true => exact hpromoted true copy evidence h
  | some eventId =>
      dsimp only
      by_cases hmem : eventId ∉ copy.supportEventIds
      · rw [if_pos hmem]
        exact hpromoted _ _ _ (h.append hmem)
      · rw [if_neg hmem]
        exact hpromoted _ _ _ (h.again (not_not.mp hmem))

/-- What a store makes of its copy. -/
theorem SupportedBy.foldl {ι : Type} (h : record.SupportedBy copy evidence)
    (calls : List (SupportCall ι)) :
    record.SupportedBy (calls.foldl SupportCall.count copy) (evidence ++ evidenceOf calls) := by
  induction calls generalizing copy evidence with
  | nil =>
      show record.SupportedBy copy (evidence ++ [])
      rw [List.append_nil]
      exact h
  | cons call calls ih =>
      have hnext := ih (h.count call)
      rw [List.append_assoc] at hnext
      exact hnext

/-- A copy has the id of the record. -/
theorem SupportedBy.memoryId (h : record.SupportedBy copy evidence) :
    copy.memoryId = record.memoryId := by
  rw [← h.same]
  rfl

/-- A copy is saved over any other as it is. -/
theorem SupportedBy.overwrites {other : MemoryRecord} {evidence' : List String}
    (h : record.SupportedBy copy evidence) (hother : record.SupportedBy other evidence') :
    other.overwrite copy = copy := by
  rw [← hother.same]
  exact h.same

end MemoryRecord

/-! ## Runs -/

section

variable {ι : Type} [DecidableEq ι] {record : MemoryRecord}

/-- The row and its copies, after some calls. -/
def copiesOf (record : MemoryRecord) (calls : List (SupportCall ι)) : Copies ι MemoryRecord :=
  run (Copies.write SupportCall.store SupportCall.count) (.fresh record) calls

/-- One more call is one more write. -/
theorem copiesOf_concat (calls : List (SupportCall ι)) (call : SupportCall ι) :
    copiesOf record (calls ++ [call])
      = (copiesOf record calls).write SupportCall.store SupportCall.count call := by
  unfold copiesOf
  rw [run_append]
  rfl

/-- A store's copy has counted what the store was given. -/
theorem copiesOf_copy (hrecord : record.Counted) (calls : List (SupportCall ι)) (i : ι) :
    record.SupportedBy ((copiesOf record calls).copy i)
      (evidenceOf (Copies.madeBy SupportCall.store i calls)) := by
  unfold copiesOf
  rw [Copies.run_copy]
  exact (MemoryRecord.SupportedBy.self hrecord).foldl _

/-- The row has counted what the last store was given. -/
theorem copiesOf_cell (hrecord : record.Counted) (calls : List (SupportCall ι)) :
    record.SupportedBy (copiesOf record calls).cell (calls.getLast?.elim [] (fun last =>
      evidenceOf (Copies.madeBy SupportCall.store last.store calls))) := by
  unfold copiesOf
  rw [Copies.run_cell]
  cases calls.getLast? with
  | none => exact .self hrecord
  | some last => exact (MemoryRecord.SupportedBy.self hrecord).foldl _

/-- The stores and the row are as the calls that returned have made them, by the library of copies.
-/
structure MemoryStores.Follows (h : MemoryStores ι) (record : MemoryRecord)
    (calls : List (SupportCall ι)) : Prop where
  persistent : ∀ i, (h.stores i).persistent = true
  copies : ∀ i, (h.stores i).records.get? record.memoryId = some ((copiesOf record calls).copy i)
  row : h.db.memoryRecords.get? record.memoryId = some (copiesOf record calls).cell
  accepted : h.accepted = evidenceOf calls

/-- **One call.** -/
theorem MemoryStores.Follows.exec {h : MemoryStores ι} {calls : List (SupportCall ι)}
    (hrecord : record.Counted) (hf : h.Follows record calls) (call : SupportCall ι) :
    (h.exec record.memoryId call).Follows record
      (calls ++ if call.bare then [] else [call]) := by
  have hcopy := copiesOf_copy hrecord calls call.store
  have hfound := hf.copies call.store
  have hkind : ¬ ((copiesOf record calls).copy call.store).kind ≠ .strategy :=
    not_not.mpr hcopy.counted.strategy
  have hsome := ((copiesOf record calls).copy call.store).supported_isSome call
  cases hbare : call.bare with
  | true =>
      rw [hbare, Bool.not_true, Option.isSome_eq_false_iff, Option.isNone_iff_eq_none] at hsome
      -- a bare call raises before it changes anything
      have hexec : h.exec record.memoryId call = h := by
        simp only [MemoryStores.exec, addStrategySupport, hfound, if_neg hkind, hsome,
          Function.update_eq_self]
      rw [hexec, if_pos rfl, List.append_nil]
      exact hf
  | false =>
      rw [hbare, Bool.not_false, Option.isSome_iff_exists] at hsome
      obtain ⟨counted, hcounted⟩ := hsome
      have heq : call.count ((copiesOf record calls).copy call.store) = counted := by
        simp only [SupportCall.count, hcounted, Option.getD_some]
      have hnext := heq ▸ hcopy.count call
      have hid := hnext.memoryId.symm
      -- the copy is saved over the row, whatever that has counted
      have hsave : saveMemoryRecord counted h.db = .ok ()
          { h.db with memoryRecords := h.db.memoryRecords.put counted } := by
        rw [saveMemoryRecord_of_row hnext.counted.decoded (hid ▸ hf.row)]
        rw [show { counted with value := counted.value } = counted from rfl,
          hnext.overwrites (copiesOf_cell hrecord calls)]
      have hexec : h.exec record.memoryId call =
          { db := { h.db with memoryRecords := h.db.memoryRecords.put counted }
            stores := Function.update h.stores call.store
              { h.stores call.store with records := (h.stores call.store).records.put counted }
            accepted := h.accepted ++ call.evidenceEventId.toList } := by
        simp only [MemoryStores.exec, addStrategySupport, hfound, if_neg hkind, hcounted,
          hf.persistent, if_true, hsave]
      rw [hexec, if_neg Bool.false_ne_true]
      refine ⟨fun i => ?_, fun i => ?_, ?_, ?_⟩
      · by_cases hi : i = call.store
        · subst hi
          simp only [Function.update_self, hf.persistent]
        · simp only [Function.update_of_ne hi, hf.persistent]
      · rw [copiesOf_concat]
        by_cases hi : i = call.store
        · subst hi
          simp only [Function.update_self, Copies.write, heq, hid, Table.get?_put_self]
        · simp only [Function.update_of_ne hi, Copies.write, hf.copies]
      · rw [copiesOf_concat]
        simp only [Copies.write, heq, hid, Table.get?_put_self]
      · rw [hf.accepted]
        simp only [evidenceOf, List.flatMap_append, List.flatMap_singleton]

end

section

variable {ι : Type} {record : MemoryRecord}

/-- The evidence of some calls is what one of them brings. -/
theorem mem_evidenceOf {calls : List (SupportCall ι)} {eventId : String} :
    eventId ∈ evidenceOf calls ↔ ∃ call ∈ calls, call.evidenceEventId = some eventId := by
  unfold evidenceOf
  simp only [List.mem_flatMap, Option.mem_toList]

variable [DecidableEq ι]

end

end LiandanluNative
