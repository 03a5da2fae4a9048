/-
# LiandanluNative.Safety.BrokerAgreement — a broker answers the same with and without a store.

Both keep one lease for each task.  They part in what they do with the lease a caller hands in:
memory takes over its request and its time, the store keeps those of the row and asks `validate` for
the request.  A lease that was handed out once is what the task was granted under its generation, or
is not current any more (`Issued`), so for such leases there is no difference.  The store also has to
bind what an acquisition puts into its row: memory takes an id that cannot be encoded.
-/
import LiandanluNative.Runtime.BrokerRuns
import LiandanluNative.Runtime.Engine

namespace LiandanluNative

open Lib (Table)
open Lib.Runs

/-! ## Leases that were handed out

A lease that was returned is made from what the broker has for its task, or is of an earlier
generation.  Every call keeps this, so no caller is left with a lease that memory and store would
judge differently.
-/

/-- What a lease that was returned has in common with the lease kept for its task: nothing of a
later generation was returned, and under the generation that is kept only what is kept, but for the
expiry. -/
structure MadeFrom (lease current : ResourceLease) : Prop where
  generation : lease.generation ≤ current.generation
  same : lease.generation = current.generation → lease.ownerId = current.ownerId ∧
    lease.request = current.request ∧ lease.claimedAt = current.claimedAt

/-- Every lease that was returned was made from the one kept for its task. -/
def Issued (leases : Table ResourceLease.taskId) (results : List BrokerResult) : Prop :=
  ∀ lease, .lease (some lease) ∈ results →
    ∃ current, leases.get? lease.taskId = some current ∧ MadeFrom lease current

/-- A lease is made from itself. -/
theorem MadeFrom.self (lease : ResourceLease) : MadeFrom lease lease :=
  ⟨le_rfl, fun _ => ⟨rfl, rfl, rfl⟩⟩

/-- The kept lease is given another expiry. -/
theorem MadeFrom.expiry {lease current : ResourceLease} (h : MadeFrom lease current) (until_ : ℚ) :
    MadeFrom lease { current with leaseUntil := until_ } :=
  ⟨h.generation, h.same⟩

/-- The kept lease is superseded. -/
theorem MadeFrom.superseded {lease current next : ResourceLease} (h : MadeFrom lease current)
    (hnext : current.generation < next.generation) : MadeFrom lease next where
  generation := h.generation.trans hnext.le
  same heq := absurd (heq ▸ h.generation) (not_le.mpr hnext)

section

variable {leases : Table ResourceLease.taskId} {results : List BrokerResult}

/-- A lease that was returned is what the broker has, as far as it is current. -/
theorem Issued.recognises {broker : ResourceBroker} (h : Issued broker.leases results)
    {lease : ResourceLease} (hlease : .lease (some lease) ∈ results) : broker.recognises lease := by
  intro current hcurrent
  obtain ⟨hget, hheld⟩ := ResourceBroker.held_eq_some.mp hcurrent
  obtain ⟨kept, hkept, hmade⟩ := h lease hlease
  rw [hget, Option.some.injEq] at hkept
  subst hkept
  obtain ⟨_, hgeneration⟩ := ResourceLease.heldBy_iff.mp hheld
  obtain ⟨_, hrequest, hclaimed⟩ := hmade.same hgeneration.symm
  exact ⟨hrequest.symm, hclaimed.symm⟩

/-- Something that is no lease is returned. -/
theorem Issued.answered (h : Issued leases results) {result : BrokerResult}
    (hresult : ∀ lease, result ≠ .lease (some lease)) : Issued leases (results ++ [result]) := by
  intro lease hlease
  rcases List.mem_append.mp hlease with hbefore | hnow
  · exact h lease hbefore
  · exact absurd (List.mem_singleton.mp hnow).symm (hresult lease)

/-- A lease is put in that the leases of its task are made from. -/
theorem Issued.put (h : Issued leases results) {kept : ResourceLease}
    (hkept : ∀ lease current, .lease (some lease) ∈ results → lease.taskId = kept.taskId →
      leases.get? kept.taskId = some current → MadeFrom lease current → MadeFrom lease kept) :
    Issued (leases.put kept) results := by
  intro lease hlease
  obtain ⟨current, hcurrent, hmade⟩ := h lease hlease
  by_cases htask : kept.taskId = lease.taskId
  · rw [← htask] at hcurrent
    exact ⟨kept, by rw [Table.get?_put, if_pos htask],
      hkept lease current hlease htask.symm hcurrent hmade⟩
  · exact ⟨current, by rw [Table.get?_put, if_neg htask, hcurrent], hmade⟩

/-- A lease that was put in is returned. -/
theorem Issued.returned (h : Issued leases results) {lease : ResourceLease}
    (hlease : leases.get? lease.taskId = some lease) :
    Issued leases (results ++ [.lease (some lease)]) := by
  intro other hother
  rcases List.mem_append.mp hother with hbefore | hnow
  · exact h other hbefore
  · cases List.mem_singleton.mp hnow
    exact ⟨_, hlease, .self _⟩

end

/-- **One call.** -/
theorem Issued.answer {broker : ResourceBroker} {results : List BrokerResult}
    (h : Issued broker.leases results) (ts : ℚ) (call : BrokerCall)
    (hreturned : ∀ lease, call.handle? = some lease → .lease (some lease) ∈ results) :
    Issued (broker.answer ts call).2 (results ++ [(broker.answer ts call).1]) := by
  cases call with
  | acquire taskId ownerId request leaseSeconds =>
      cases hrefusal : BrokerCall.refusal broker.capacity taskId ownerId request leaseSeconds with
      | some result =>
          have hanswer : broker.answer ts (.acquire taskId ownerId request leaseSeconds)
              = (result, broker.leases) := by simp only [ResourceBroker.answer, hrefusal]
          rw [hanswer]
          refine h.answered (fun lease heq => ?_)
          subst heq
          unfold BrokerCall.refusal at hrefusal
          split at hrefusal
          · cases hrefusal
          split at hrefusal
          · cases hrefusal
          split at hrefusal <;> cases hrefusal
      | none =>
          have hanswer : broker.answer ts (.acquire taskId ownerId request leaseSeconds)
              = (.lease (broker.grants taskId ownerId request leaseSeconds ts),
                ResourceBroker.keeping broker.leases
                  (broker.grants taskId ownerId request leaseSeconds ts)) := by
            simp only [ResourceBroker.answer, hrefusal]
          rw [hanswer]
          cases hgrants : broker.grants taskId ownerId request leaseSeconds ts with
          | none => exact h.answered (fun lease heq => by cases heq)
          | some granted =>
              -- the next generation supersedes every lease of the task
              obtain ⟨⟨htask, -, -⟩, hgeneration, -⟩ := ResourceBroker.grants_eq_some hgrants
              have hput : Issued (broker.leases.put granted) results := by
                refine h.put (fun lease current _ _ hcurrent hmade => hmade.superseded ?_)
                rw [hgeneration, ResourceBroker.nextGeneration, ← htask, hcurrent]
                exact Int.lt_add_one_of_le le_rfl
              exact hput.returned (by rw [Table.get?_put, if_pos rfl])
  | renew lease leaseSeconds =>
      show Issued (ResourceBroker.keeping broker.leases (broker.renews lease leaseSeconds ts))
        (results ++ [.lease (broker.renews lease leaseSeconds ts)])
      cases hrenews : broker.renews lease leaseSeconds ts with
      | none => exact h.answered (fun lease heq => by cases heq)
      | some renewed =>
          obtain ⟨current, hheld, hnext⟩ := Option.bind_eq_some_iff.mp hrenews
          obtain ⟨hcurrent, hname⟩ := ResourceBroker.held_eq_some.mp hheld
          have hmade := Option.ite_none_left_eq_some.mp hnext
          rw [← Option.some.inj hmade.2]
          -- the lease was returned, so it says of the task what is kept of it
          have hsame := h.recognises (hreturned lease rfl) current hheld
          have htask : current.taskId = lease.taskId := Table.key_of_get? hcurrent
          have hrenewed := renewed_eq htask hname hsame (ts + leaseSeconds)
          have hput : Issued (broker.leases.put { lease with leaseUntil := ts + leaseSeconds })
              results := by
            refine h.put (fun other kept _ _ hkept hfrom => ?_)
            cases hkept.symm.trans hcurrent
            exact hrenewed ▸ hfrom.expiry _
          exact hput.returned (by rw [Table.get?_put, if_pos rfl])
  | release lease =>
      show Issued (ResourceBroker.keeping broker.leases (broker.releases lease))
        (results ++ [.answer (broker.releases lease).isSome])
      refine Issued.answered ?_ (fun lease heq => by cases heq)
      cases hreleases : broker.releases lease with
      | none => exact h
      | some released =>
          obtain ⟨current, hheld, rfl⟩ := Option.map_eq_some_iff.mp hreleases
          obtain ⟨hcurrent, _⟩ := ResourceBroker.held_eq_some.mp hheld
          have htask : current.taskId = lease.taskId := Table.key_of_get? hcurrent
          refine h.put (fun other kept _ _ hkept hmade => ?_)
          change broker.leases.get? current.taskId = some kept at hkept
          rw [htask] at hkept
          cases hkept.symm.trans hcurrent
          exact hmade.expiry _
  | validate lease => exact h.answered (fun lease heq => by cases heq)

/-! ## Two brokers

The same calls on both, step by step: by what was shown before, each answers by the leases it has,
and they have the same.
-/

/-- A broker without a store and one with a store that have the same leases, and returned the
same. -/
structure Agree (m s : BrokerHistory) : Prop where
  memory : m.broker.persistent = false
  stored : s.broker.persistent = true
  capacity : s.broker.capacity = m.broker.capacity
  leases : s.db.resourceLeases = m.broker.leases
  results : s.results = m.results
  issued : Issued m.broker.leases m.results

/-- **One call** of both returns the same, and leaves the same leases. -/
theorem Agree.exec (env : Env) {m s : BrokerHistory} (h : Agree m s) {move : BrokerMove}
    (hpositive : move.call.positive) (hbindable : move.call.bindable) (hreturned : m.returned move) :
    Agree (m.exec env move) (s.exec env move) := by
  have hmirror : s.mirror.answer move.ts move.call = m.broker.answer move.ts move.call := by
    have hbroker : s.mirror = { m.broker with persistent := true } := by
      rw [BrokerHistory.mirror, h.leases, h.capacity, h.stored]
    rw [hbroker]
    rfl
  have hknown : ∀ lease, move.call.handle? = some lease → s.mirror.recognises lease := by
    intro lease hlease
    have hissued : Issued s.mirror.leases m.results := by
      show Issued s.db.resourceLeases m.results
      rw [h.leases]
      exact h.issued
    exact hissued.recognises (hreturned lease hlease)
  -- both answer from the same leases
  rw [BrokerHistory.exec_memory h.memory, BrokerHistory.exec_stored h.stored hpositive hbindable
    hknown, hmirror]
  refine ⟨h.memory, h.stored, h.capacity, rfl, ?_, h.issued.answer _ _ hreturned⟩
  show s.results ++ _ = m.results ++ _
  rw [h.results]

end LiandanluNative
