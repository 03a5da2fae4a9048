/-
# LiandanluNative.Safety.BrokerCapacity — when a broker without a store overcommits.

An acquisition is admitted only if it fits.  A renewal is admitted for the task, the owner and the
generation of the lease it is given, and then takes over the request that lease carries, whatever it
is (`broker_overcommits`); the store keeps the request of the row.  A renewal is also admitted for a
lease whose end is no number: that lease takes nothing of the capacity, has not run out either, and
the renewal brings it back into a capacity that others have used up since.  So the leases stay within
the capacity exactly when every renewal that is accepted carries a request that would be admitted
(`broker_within_capacity_iff`).

The times are any floats (`Runtime.FloatBroker`), and the addition is any addition of them.
-/
import LiandanluNative.Runtime.FloatBroker
import LiandanluNative.Safety.ResourceLeases

namespace LiandanluNative

open Lib (Table)
open Lib.Floats (lt le)
open Lib.Runs

/-! ## What fits

Leases fit into a capacity if their sums and their labels do.  What is unexpired later is among what
is unexpired now, so time takes nothing from it.
-/

/-- A lease fits on top of others exactly when its request conflicts with none of them. -/
theorem ResourceCapacity.holds_cons {capacity : ResourceCapacity} {lease : ResourceLease}
    {rows : List ResourceLease} (hrows : capacity.Holds rows)
    (hothers : ∀ row ∈ rows, row.taskId ≠ lease.taskId) :
    capacity.Holds (lease :: rows) ↔ lease.request.conflicts capacity rows = false := by
  refine ⟨fun hall => ?_, hrows.admits⟩
  simp only [ResourceRequest.conflicts, decide_eq_false_iff_not, not_or, not_lt, not_exists,
    not_and]
  have hcpu := hall.cpu
  have hmemory := hall.memory
  have hgpu := hall.gpu
  rw [usedCpu, List.map_cons, List.sum_cons, Nat.add_comm] at hcpu
  rw [usedMemory, List.map_cons, List.sum_cons, Nat.add_comm] at hmemory
  rw [usedGpu, List.map_cons, List.sum_cons, Nat.add_comm] at hgpu
  refine ⟨hcpu, hmemory, hgpu, fun label hlabel hasked => ?_⟩
  obtain ⟨row, hrow, hheld⟩ := List.mem_flatMap.mp hlabel
  exact hall.labels row (List.mem_cons_of_mem _ hrow) lease List.mem_cons_self
    (hothers row hrow) label hheld hasked

section

variable {τ : Type} [LinearOrder τ]

namespace FloatBroker

/-- The unexpired leases stay within the capacity and share no label. -/
def Fits (broker : FloatBroker τ) (t : τ) : Prop :=
  broker.capacity.Holds ((broker.activeLeases t).map FloatLease.row)

variable {broker : FloatBroker τ} {t : τ}

/-- What is unexpired later is unexpired now. -/
theorem Fits.later {later : τ} (hf : broker.Fits t) (hle : t ≤ later) : broker.Fits later := by
  refine hf.sublist (List.Sublist.map _ (List.monotone_filter_right _ (fun lease hlease => ?_)))
  exact Lib.Floats.lt_of_le hle hlease

/-- The unexpired leases of the other tasks fit. -/
theorem Fits.others (hf : broker.Fits t) (taskId : String) :
    broker.capacity.Holds ((broker.othersActive t taskId).map FloatLease.row) := by
  refine hf.sublist (List.Sublist.map _ (List.monotone_filter_right _ (fun lease hlease => ?_)))
  exact (Bool.and_eq_true_iff.mp hlease).1

/-- After a lease was put in, the unexpired ones are that lease, if unexpired, and those of other
tasks. -/
theorem activeLeases_keeping (broker : FloatBroker τ) (lease : FloatLease τ) (t : τ) :
    ((broker.keeping (some lease)).activeLeases t).Perm
      ((if lt (some t) lease.leaseUntil then [lease] else [])
        ++ broker.othersActive t lease.taskId) := by
  have hperm := (broker.leases.put_rows_perm lease).filter (fun l => lt (some t) l.leaseUntil)
  rw [List.filter_cons, List.filter_filter] at hperm
  unfold othersActive
  show ((broker.leases.put lease).rows.filter _).Perm _
  split
  · rename_i live
    rw [if_pos live] at hperm
    exact hperm
  · rename_i expired
    rw [if_neg expired] at hperm
    exact hperm

/-- The leases after a call fit exactly when the lease it put in, if any, does. -/
theorem keeping_fits_iff (hf : broker.Fits t) (made : Option (FloatLease τ)) :
    (broker.keeping made).Fits t ↔
      ∀ lease, made = some lease → lt (some t) lease.leaseUntil = true →
        broker.conflicts t lease.taskId lease.request = false := by
  cases made with
  | none => exact iff_of_true hf (fun lease hlease => by cases hlease)
  | some lease =>
      have hput := (broker.activeLeases_keeping lease t).map FloatLease.row
      have hothers := hf.others lease.taskId
      have hdiffer : ∀ row ∈ (broker.othersActive t lease.taskId).map FloatLease.row,
          row.taskId ≠ lease.row.taskId := by
        intro row hrow
        obtain ⟨other, hother, rfl⟩ := List.mem_map.mp hrow
        exact of_decide_eq_true (Bool.and_eq_true_iff.mp (List.mem_filter.mp hother).2).2
      have hfits : (broker.keeping (some lease)).Fits t ↔
          (lt (some t) lease.leaseUntil = true →
            broker.conflicts t lease.taskId lease.request = false) := by
        by_cases live : lt (some t) lease.leaseUntil = true
        · rw [if_pos live, List.singleton_append, List.map_cons] at hput
          refine Iff.trans ⟨fun h => h.perm hput.symm, fun h => h.perm hput⟩ ?_
          show broker.capacity.Holds (lease.row :: _) ↔ _
          rw [ResourceCapacity.holds_cons hothers hdiffer]
          exact ⟨fun h _ => h, fun h => h live⟩
        · rw [if_neg live, List.nil_append] at hput
          exact iff_of_true (hothers.perm hput) (fun h => absurd h live)
      refine hfits.trans ⟨fun h other hother => ?_, fun h => h lease rfl⟩
      cases hother
      exact h

end FloatBroker

/-! ## Histories -/

namespace FloatHistory

/-- From the last call on, the unexpired leases stay within the capacity and share no label. -/
def withinCapacity (h : FloatHistory τ) : Prop :=
  ∀ t, h.now ≤ t → h.broker.capacity.Holds ((h.broker.activeLeases t).map FloatLease.row)

theorem withinCapacity_iff {h : FloatHistory τ} : h.withinCapacity ↔ h.broker.Fits h.now :=
  ⟨fun hall => hall h.now le_rfl, fun hf _ hle => hf.later hle⟩

/-- A renewal that is accepted, and makes a lease that is unexpired, carries a request that does not
conflict with the other unexpired leases.  (Before time 0, a release makes the lease it names last
until 0: this must not conflict either.) -/
def admitted (zero : τ) (plus : Option τ → Option τ → Option τ) (h : FloatHistory τ)
    (move : FloatMove τ) : Prop :=
  match move.call with
  | .acquire _ _ _ _ => True
  | .renew lease leaseSeconds =>
      ∀ current, h.broker.held lease = some current →
        le current.leaseUntil (some move.ts) = false →
        lt (some move.ts) (plus (some move.ts) leaseSeconds) = true →
        h.broker.conflicts move.ts lease.taskId lease.request = false
  | .release lease =>
      ∀ current, h.broker.held lease = some current → move.ts < zero →
        h.broker.conflicts move.ts lease.taskId current.request = false

variable {zero : τ} {plus : Option τ → Option τ → Option τ} {h : FloatHistory τ}

/-- **One call.** -/
theorem exec_within (hwithin : h.withinCapacity) {move : FloatMove τ} (hlater : h.now ≤ move.ts) :
    (h.exec zero plus move).withinCapacity ↔ h.admitted zero plus move := by
  have hf : h.broker.Fits move.ts := hwithin move.ts hlater
  rw [withinCapacity_iff]
  show (move.call.leaves zero plus move.ts h.broker).Fits move.ts ↔ _
  rw [FloatCall.leaves_eq, FloatBroker.keeping_fits_iff hf]
  obtain ⟨ts, call⟩ := move
  cases call with
  | acquire taskId ownerId request leaseSeconds =>
      -- an acquisition makes its lease only after the check
      refine iff_of_true (fun lease hmade _ => ?_) trivial
      simp only [FloatCall.makes, Option.ite_none_left_eq_some, Bool.not_eq_true] at hmade
      obtain ⟨-, -, -, -, hfits, hlease⟩ := hmade
      cases hlease
      exact hfits
  | renew lease leaseSeconds =>
      -- what is kept is the lease of the caller, with its request
      refine ⟨fun hall current hheld haccepted hlive => ?_, fun hall => ?_⟩
      · refine hall { lease with leaseUntil := plus (some ts) leaseSeconds } ?_ hlive
        simp only [FloatCall.makes, hheld, Option.bind_some, haccepted, Bool.false_eq_true, if_false]
      · intro renewed hmade hlive
        obtain ⟨current, hheld, hrenewed⟩ := Option.bind_eq_some_iff.mp hmade
        obtain ⟨haccepted, hsome⟩ := Option.ite_none_left_eq_some.mp hrenewed
        cases hsome
        exact hall current hheld (Bool.eq_false_iff.mpr haccepted) hlive
  | release lease =>
      -- the lease lasts until 0, so it is unexpired only before that
      have htask : ∀ current, h.broker.held lease = some current → current.taskId = lease.taskId :=
        fun current hheld => Table.key_of_get? (FloatBroker.held_eq_some.mp hheld).1
      refine ⟨fun hall current hheld hearly => ?_, fun hall => ?_⟩
      · have hmade : FloatCall.makes zero plus ts h.broker (.release lease)
            = some { current with leaseUntil := some zero } := by
          rw [FloatCall.makes, hheld, Option.map_some]
        have hfits := hall _ hmade (decide_eq_true hearly)
        rw [← htask current hheld]
        exact hfits
      · intro released hmade hlive
        obtain ⟨current, hheld, rfl⟩ := Option.map_eq_some_iff.mp hmade
        have hfits := hall current hheld (of_decide_eq_true hlive)
        rw [← htask current hheld] at hfits
        exact hfits

end FloatHistory

/-- **When a broker without a store stays within its capacity.**  Through any acquisitions, renewals
and releases with non-decreasing timestamps, any floats for `lease_seconds` and any leases as
arguments, the unexpired leases stay within the capacity and share no exclusive label exactly when
every renewal that is accepted carries a request that an acquisition would be granted, too. -/
theorem broker_within_capacity_iff (zero : τ) (plus : Option τ → Option τ → Option τ)
    (capacity : ResourceCapacity) (start : τ) (moves : List (FloatMove τ))
    (hlater : Each (FloatHistory.exec zero plus) (fun h move => h.now ≤ move.ts)
      { broker := { capacity := capacity }, now := start } moves) :
    Always (FloatHistory.exec zero plus) FloatHistory.withinCapacity
        { broker := { capacity := capacity }, now := start } moves ↔
      Each (FloatHistory.exec zero plus) (FloatHistory.admitted zero plus)
        { broker := { capacity := capacity }, now := start } moves :=
  always_iff (I := fun _ => True) (fun _ _ _ _ _ => trivial)
    (fun _ _ hmove _ hwithin => FloatHistory.exec_within hwithin hmove) hlater trivial
    (fun _ _ => ResourceCapacity.Holds.nil)

end

/-- Two tasks share two units; one renews its lease as it got it. -/
theorem broker_within_capacity_shared :
    Always (FloatHistory.exec 0 exactPlus) FloatHistory.withinCapacity
      { broker := { capacity := ⟨2, 0, 0⟩ }, now := 0 }
      [⟨1, .acquire "a" "worker" { cpuUnits := 1 } (some 10)⟩,
        ⟨2, .acquire "b" "worker" { cpuUnits := 1 } (some 10)⟩,
        ⟨3, .renew ⟨"a", "worker", 1, { cpuUnits := 1 }, some 1, some 11⟩ (some 10)⟩] := by
  refine (broker_within_capacity_iff (0 : ℚ) exactPlus ⟨2, 0, 0⟩ 0 _ ?_).mpr
    ⟨trivial, trivial, ?_, trivial⟩
  · exact ⟨by decide +kernel, by decide +kernel, by decide +kernel, trivial⟩
  · intro current _ _ _
    decide +kernel

/-- Two tasks share two units; one renews its lease with a request for two.  Or one acquires them
until no number, the other acquires them as well, and the first renews its lease as it got it. -/
theorem broker_overcommits :
    (¬ (run (FloatHistory.exec 0 exactPlus) { broker := { capacity := ⟨2, 0, 0⟩ }, now := 0 }
        [⟨1, .acquire "a" "worker" { cpuUnits := 1 } (some 10)⟩,
          ⟨2, .acquire "b" "worker" { cpuUnits := 1 } (some 10)⟩,
          ⟨3, .renew ⟨"a", "worker", 1, { cpuUnits := 2 }, some 1, some 11⟩ (some 10)⟩]
      ).withinCapacity) ∧
    ¬ (run (FloatHistory.exec 0 exactPlus) { broker := { capacity := ⟨2, 0, 0⟩ }, now := 0 }
        [⟨1, .acquire "a" "worker" { cpuUnits := 2 } none⟩,
          ⟨2, .acquire "b" "worker" { cpuUnits := 2 } (some 10)⟩,
          ⟨3, .renew ⟨"a", "worker", 1, { cpuUnits := 2 }, some 1, none⟩ (some 10)⟩]
      ).withinCapacity := by
  constructor
  · intro h
    have hcpu := (h 3 (by decide +kernel)).cpu
    exact absurd hcpu (by decide +kernel)
  · intro h
    have hcpu := (h 3 (by decide +kernel)).cpu
    exact absurd hcpu (by decide +kernel)

end LiandanluNative
