/-
# LiandanluNative.Safety.SchedulerClaims — claims of a scheduler without a store.

Without a store a scheduler draws from its heaps and looks at a lease only to number the next one.
A claim is exclusive as long as no task is submitted while it has an entry or is leased
(`volatile_claims_exclusive`), and a task whose lease ran out or was released is not drawn again
unless some entry is left (`volatile_claim_finds_iff`); a store asks the leases instead.

A `SchedulerHistory` follows the lease of each task that was issued or renewed last.

Memory has three things that can disagree: the entries of the heaps, the table of leases, and what
the callers hold.  `Single` is the order between the first two in which a claim is exclusive; a
second submission of a task that is queued or leased is the only call that breaks it.
-/
import LiandanluNative.Runtime.Scheduler
import Mathlib.Logic.Function.Basic

namespace LiandanluNative

open Lib (Table)
open Lib.Proc

/-! ## Histories of calls

The scheduler and its engine, the time, and until when each issued lease runs.
-/

/-- A call of a scheduler, or of the runtime that has its tasks. -/
inductive SchedulerCall where
  | create (goal : String) (successCriteria : List String) (workspaceId : String)
      (constraints : List String) (lane : String) (priority : Int) (budget : TaskBudget)
  | control (taskId : String) (desired : TaskState)
  | submit (taskId : String)
  | claimNext (ownerId : String) (leaseSeconds : ℚ)
  | renew (lease : TaskLease) (leaseSeconds : ℚ)
  | release (lease : TaskLease)

/-- The scheduler, the time of the last call, and until when the lease of a task runs that was
issued or renewed last, if it was not released.  The last is what a caller may rely on, and is kept
apart from what the scheduler has of it. -/
structure SchedulerHistory where
  scheduler : Scheduler
  now : ℚ
  current : String → Option ℚ

namespace SchedulerHistory

/-- Time passes. -/
def tick (h : SchedulerHistory) (ts : ℚ) : SchedulerHistory := { h with now := ts }

/-- A call at the present time. -/
def act (env : Env) (h : SchedulerHistory) : SchedulerCall → SchedulerHistory
  | .create goal successCriteria workspaceId constraints lane priority budget =>
      { h with
        scheduler := after (onEngine (createTask env goal successCriteria workspaceId constraints
          lane priority budget)) h.scheduler }
  | .control taskId desired =>
      { h with scheduler := after (onEngine (controlTask env taskId desired)) h.scheduler }
  | .submit taskId => { h with scheduler := after (onEngine (submitTask env taskId)) h.scheduler }
  | .claimNext ownerId leaseSeconds =>
      match LiandanluNative.claimNext env ownerId leaseSeconds h.now h.scheduler with
      | .ok (some lease) scheduler =>
          { h with
            scheduler := scheduler
            current := Function.update h.current lease.taskId (some lease.leaseUntil) }
      | .ok none scheduler => { h with scheduler := scheduler }
      | .error _ scheduler => { h with scheduler := scheduler }
  | .renew lease leaseSeconds =>
      match renewLease env lease leaseSeconds h.now h.scheduler with
      | .ok (some renewed) scheduler =>
          { h with
            scheduler := scheduler
            current := Function.update h.current renewed.taskId (some renewed.leaseUntil) }
      | .ok none scheduler => { h with scheduler := scheduler }
      | .error _ scheduler => { h with scheduler := scheduler }
  | .release lease =>
      match releaseLease env lease h.scheduler with
      | .ok true scheduler =>
          { h with scheduler := scheduler, current := Function.update h.current lease.taskId none }
      | .ok false scheduler => { h with scheduler := scheduler }
      | .error _ scheduler => { h with scheduler := scheduler }

/-- The histories of all runs of allowed calls with non-decreasing timestamps, of a scheduler that
was made over any tasks. -/
inductive Reached (env : Env) (allowed : SchedulerHistory → SchedulerCall → Prop) :
    SchedulerHistory → Prop
  | start {engine : Sys} (hvolatile : engine.persistent = false) (hempty : engine.entries = [])
      (now : ℚ) : Reached env allowed ⟨{ engine := engine }, now, fun _ => none⟩
  | call {h : SchedulerHistory} (before : Reached env allowed h) (ts : ℚ) (later : h.now ≤ ts)
      {c : SchedulerCall} (hallowed : allowed (h.tick ts) c) :
      Reached env allowed ((h.tick ts).act env c)

/-- The lease of the task that was issued or renewed last is unexpired and unreleased. -/
def Leased (h : SchedulerHistory) (taskId : String) (ts : ℚ) : Prop :=
  ∃ expiry, h.current taskId = some expiry ∧ ts < expiry

/-- Some task is QUEUED with RUNNING desired, and nobody has a lease on it: what a claim over a
store would find. -/
def HasFree (h : SchedulerHistory) (ts : ℚ) : Prop :=
  ∃ taskId task, h.scheduler.engine.tasks.get? taskId = some task ∧ task.state = .queued ∧
    task.desiredState = .running ∧ ¬ h.Leased taskId ts

variable {env : Env} {h : SchedulerHistory}

/-- Leases run out as time passes, and none comes to be. -/
theorem leased_mono {taskId : String} {now ts : ℚ} (later : now ≤ ts)
    (hleased : h.Leased taskId ts) :
    h.Leased taskId now := by
  obtain ⟨expiry, hcurrent, hts⟩ := hleased
  exact ⟨expiry, hcurrent, lt_of_le_of_lt later hts⟩

end SchedulerHistory

/-! ## One entry for a task

A task is in the heaps once, or it is leased, but not both.  A second submission breaks this, and
then two callers can hold the task.
-/

/-- A call of the runtime leaves the leases of the scheduler as they are. -/
theorem after_onEngine {α : Type} (m : M α) (s : Scheduler) :
    after (onEngine m) s = { s with engine := after m s.engine } := by
  cases hrun : m s.engine with
  | ok a t => simp only [after, onEngine, hrun]
  | error e t => simp only [after, onEngine, hrun]

/-- A task that may be queued is submitted only while it has no entry and is not leased; and a
released lease, which is given the expiry 0, is one that has run out.  It is a condition on the
state before the call. -/
def SchedulerHistory.SubmitsOnce (h : SchedulerHistory) : SchedulerCall → Prop
  | .submit taskId => h.scheduler.engine.queueable taskId = true →
      (∀ entry ∈ h.scheduler.engine.entries, entry.2.2 ≠ taskId) ∧ ¬ h.Leased taskId h.now
  | .release _ => 0 ≤ h.now
  | _ => True

/-- No task has two entries, and none that has one is leased; what `_leases` says of an unexpired
lease is right.  So the task of a drawn entry has no lease that could be broken. -/
structure SchedulerHistory.Single (h : SchedulerHistory) : Prop where
  volatile : h.scheduler.engine.persistent = false
  nodup : (h.scheduler.engine.entries.map (fun entry => entry.2.2)).Nodup
  free : ∀ entry ∈ h.scheduler.engine.entries, ¬ h.Leased entry.2.2 h.now
  recorded : ∀ taskId row, h.scheduler.leases.get? taskId = some row → h.now < row.leaseUntil →
    h.current taskId = some row.leaseUntil

namespace SchedulerHistory.Single

variable {env : Env} {h : SchedulerHistory}

theorem tick (hs : h.Single) {ts : ℚ} (later : h.now ≤ ts) : (h.tick ts).Single where
  volatile := hs.volatile
  nodup := hs.nodup
  free := fun entry hentry hleased => hs.free entry hentry (leased_mono later hleased)
  recorded := fun taskId row hrow hlive => hs.recorded taskId row hrow (lt_of_le_of_lt later hlive)

/-- The heaps are as they were. -/
theorem engine (hs : h.Single) {engine : Sys} (hheaps : engine.heaps = h.scheduler.engine.heaps) :
    Single { h with scheduler := { h.scheduler with engine := engine } } := by
  simp only [Sys.heaps, Prod.mk.injEq] at hheaps
  obtain ⟨hpersistent, hinteractive, hbackground⟩ := hheaps
  have hentries : engine.entries = h.scheduler.engine.entries := by
    rw [Sys.entries, hinteractive, hbackground, Sys.entries]
  refine ⟨hpersistent.trans hs.volatile, ?_, ?_, hs.recorded⟩
  · rw [hentries]
    exact hs.nodup
  · rw [hentries]
    exact hs.free

/-- A submission adds an entry of a task that has none. -/
theorem submit (hs : h.Single) {taskId : String} (honce : h.SubmitsOnce (.submit taskId)) :
    Single (h.act env (.submit taskId)) := by
  simp only [act, after_onEngine]
  rcases submitTask_cases env hs.volatile taskId with
    ⟨_, e, hrun⟩ | ⟨hqueueable, t, entry, hrun, hvolatile, hid, hentries, _⟩
  · rw [after_of_error hrun]
    exact hs.engine rfl
  · obtain ⟨hnone, hfree⟩ := honce hqueueable
    rw [after_of_ok hrun]
    refine ⟨hvolatile, ?_, fun other hother => ?_, hs.recorded⟩
    · refine ((hentries.map _).nodup_iff).mpr (List.nodup_cons.mpr ⟨fun hmem => ?_, hs.nodup⟩)
      obtain ⟨old, hold, hsame⟩ := List.mem_map.mp hmem
      exact hnone old hold (hsame.trans hid)
    · rcases List.mem_cons.mp (hentries.mem_iff.mp hother) with rfl | hold
      · rw [hid]
        exact hfree
      · exact hs.free other hold

/-- Fewer entries. -/
theorem dropped (hs : h.Single) {engine : Sys} (hvolatile : engine.persistent = false)
    (hentries : engine.entries.Sublist h.scheduler.engine.entries) :
    Single { h with scheduler := { h.scheduler with engine := engine } } where
  volatile := hvolatile
  nodup := hs.nodup.sublist (hentries.map _)
  free := fun entry hentry => hs.free entry (hentries.subset hentry)
  recorded := hs.recorded

/-- A lease is put in `_leases`; it is unexpired only if the task has no entry. -/
theorem leased (hs : h.Single) {lease : TaskLease} {current : Option ℚ}
    (hfree : ∀ entry ∈ h.scheduler.engine.entries, entry.2.2 = lease.taskId → current = none)
    (hcurrent : h.now < lease.leaseUntil → current = some lease.leaseUntil) :
    Single
      { h with
        scheduler := { h.scheduler with leases := h.scheduler.leases.put lease }
        current := Function.update h.current lease.taskId current } where
  volatile := hs.volatile
  nodup := hs.nodup
  free := by
    rintro entry hentry ⟨expiry, hexpiry, hlive⟩
    by_cases hid : entry.2.2 = lease.taskId
    · simp only [hid, Function.update_self, hfree entry hentry hid] at hexpiry
      cases hexpiry
    · simp only [Function.update_of_ne hid] at hexpiry
      exact hs.free entry hentry ⟨expiry, hexpiry, hlive⟩
  recorded := by
    intro taskId row hrow hlive
    rw [Table.get?_put] at hrow
    split at hrow
    · rename_i hid
      cases hrow
      simp only [← hid, Function.update_self]
      exact hcurrent hlive
    · rename_i hid
      simp only [Function.update_of_ne (Ne.symm hid)]
      exact hs.recorded taskId row hrow hlive

/-- A claim takes the entry away with the lease it makes. -/
theorem claim (hs : h.Single) (ownerId : String) (leaseSeconds : ℚ) :
    Single (h.act env (.claimNext ownerId leaseSeconds)) := by
  rcases claimNext_cases env hs.volatile ownerId leaseSeconds h.now with
    ⟨_, e, hrun⟩ | ⟨hrun, _⟩ |
    ⟨before, entry, interactive, background, hentries, _, _, lease, hid, huntil, hrun⟩
  · simp only [act, hrun]
    exact hs
  · simp only [act, hrun]
    exact hs.dropped hs.volatile (List.nil_sublist _)
  · simp only [act, hrun]
    have hrest : (entry :: (interactive ++ background)).Sublist h.scheduler.engine.entries := by
      rw [hentries]
      exact List.sublist_append_right _ _
    have hdropped : Single { h with scheduler := { h.scheduler with engine :=
        { h.scheduler.engine with interactive := interactive, background := background } } } :=
      hs.dropped hs.volatile ((List.sublist_cons_self _ _).trans hrest)
    refine hdropped.leased (fun other hother heq => ?_) (fun _ => rfl)
    -- the task had this one entry
    have hnodup := hs.nodup.sublist (hrest.map (fun entry => entry.2.2))
    rw [List.map_cons, List.nodup_cons, ← hid, ← heq] at hnodup
    exact absurd (List.mem_map_of_mem hother) hnodup.1

/-- A renewal moves the end of a lease that has not run out. -/
theorem renew (hs : h.Single) (lease : TaskLease) (leaseSeconds : ℚ) :
    Single (h.act env (.renew lease leaseSeconds)) := by
  rcases renewLease_cases env hs.volatile lease leaseSeconds h.now with
    hrun | ⟨row, hrow, hlive, hrun⟩
  · simp only [act, hrun]
    exact hs
  · simp only [act, hrun]
    refine hs.leased (fun entry hentry heq => ?_) (fun _ => rfl)
    -- the lease is unexpired, and a task with an entry is not leased
    refine absurd ⟨row.leaseUntil, ?_, hlive⟩ (hs.free entry hentry)
    rw [heq]
    exact hs.recorded _ row hrow hlive

/-- A release ends a lease, in the table and for its caller. -/
theorem release (hs : h.Single) (lease : TaskLease) (hnow : 0 ≤ h.now) :
    Single (h.act env (.release lease)) := by
  rcases releaseLease_cases env hs.volatile lease with hrun | ⟨row, hrow, hrun⟩
  · simp only [act, hrun]
    exact hs
  · have hid : row.taskId = lease.taskId := Table.key_of_get? hrow
    simp only [act, hrun, ← hid]
    exact hs.leased (fun _ _ _ => rfl) (fun hlive => absurd hlive (not_lt.mpr hnow))

theorem act (hs : h.Single) {c : SchedulerCall} (hallowed : SubmitsOnce h c) :
    Single (h.act env c) := by
  cases c with
  | create goal successCriteria workspaceId constraints lane priority budget =>
      simp only [SchedulerHistory.act, after_onEngine]
      exact hs.engine (heaps_createTask goal successCriteria workspaceId constraints lane priority
        budget _)
  | control taskId desired =>
      simp only [SchedulerHistory.act, after_onEngine]
      exact hs.engine (heaps_controlTask taskId desired _)
  | submit taskId => exact hs.submit hallowed
  | claimNext ownerId leaseSeconds => exact hs.claim ownerId leaseSeconds
  | renew lease leaseSeconds => exact hs.renew lease leaseSeconds
  | release lease => exact hs.release lease hallowed

end SchedulerHistory.Single

/-- **Every run that submits once** has one entry for a task at most. -/
theorem SchedulerHistory.Reached.single {env : Env} {h : SchedulerHistory}
    (hr : h.Reached env SubmitsOnce) : h.Single := by
  induction hr with
  | start hvolatile hempty now =>
      refine ⟨hvolatile, ?_, ?_, fun _ _ hrow => ?_⟩
      · rw [hempty]
        exact List.nodup_nil
      · rw [hempty]
        exact fun _ hentry => absurd hentry List.not_mem_nil
      · cases hrow
  | @call h _ ts later c hallowed ih => exact (ih.tick later).act hallowed

/-- **Claims without a store are exclusive** in every run that submits a task only while it has no
entry and is not leased: no claim returns a lease on a task whose lease, the one issued or renewed
last, is unexpired and unreleased. -/
theorem volatile_claims_exclusive {env : Env} {h : SchedulerHistory}
    (hr : h.Reached env SchedulerHistory.SubmitsOnce) {ts : ℚ} (later : h.now ≤ ts)
    {ownerId : String} {leaseSeconds : ℚ} {lease : TaskLease} {s : Scheduler}
    (hrun : claimNext env ownerId leaseSeconds ts h.scheduler = .ok (some lease) s) :
    ¬ h.Leased lease.taskId ts := by
  have hs := hr.single
  intro hleased
  rcases claimNext_cases env hs.volatile ownerId leaseSeconds ts with
    ⟨_, e, hrun'⟩ | ⟨hrun', _⟩ |
    ⟨before, entry, interactive, background, hentries, _, _, lease', hid, _, hrun'⟩
  · cases hrun.symm.trans hrun'
  · cases hrun.symm.trans hrun'
  · cases hrun.symm.trans hrun'
    have hentry : entry ∈ h.scheduler.engine.entries := by
      rw [hentries]
      exact List.mem_append_right _ List.mem_cons_self
    refine hs.free entry hentry ?_
    rw [← hid]
    exact SchedulerHistory.leased_mono later hleased

/-- One task that may be submitted. -/
def volatileStart : SchedulerHistory :=
  ⟨{ engine := { persistent := false, tasks := Table.empty.put Small.task } }, 0, fun _ => none⟩

/-- It is submitted, and claimed for ten seconds. -/
def claimedOnce : SchedulerHistory :=
  (volatileStart.act Small.env (.submit "t")).tick 1 |>.act Small.env (.claimNext "a" 10)

/-- The claimed task has its lease. -/
theorem claimedOnce_current : claimedOnce.current "t" = some 11 := by decide +kernel

/-- It is submitted again once the lease has run out. -/
theorem volatile_claims_exclusive_again :
    ∃ lease s, claimNext Small.env "b" 10 13
        ((claimedOnce.tick 12).act Small.env (.submit "t")).scheduler = .ok (some lease) s ∧
      lease.taskId = "t" ∧ lease.generation = 2 ∧
      ¬ ((claimedOnce.tick 12).act Small.env (.submit "t")).Leased lease.taskId 13 := by
  have hfirst : claimedOnce.Reached Small.env SchedulerHistory.SubmitsOnce := by
    refine ((SchedulerHistory.Reached.start rfl rfl 0).call 0 le_rfl ?_).call 1 (by decide) trivial
    intro _
    refine ⟨fun entry hentry => absurd hentry List.not_mem_nil, ?_⟩
    rintro ⟨expiry, hcurrent, _⟩
    cases hcurrent
  have hagain : SchedulerHistory.SubmitsOnce (claimedOnce.tick 12) (.submit "t") := by
    intro _
    refine ⟨by decide +kernel, ?_⟩
    rintro ⟨expiry, hcurrent, hlive⟩
    cases claimedOnce_current.symm.trans hcurrent
    revert hlive
    decide +kernel
  have hr := hfirst.call 12 (by decide +kernel) hagain
  have hlease : returns (claimNext Small.env "b" 10 13)
      ((claimedOnce.tick 12).act Small.env (.submit "t")).scheduler
        = some (some ⟨"t", "b", 2, 13, 23⟩) := by decide +kernel
  obtain ⟨s, hrun⟩ := returns_eq_some.mp hlease
  exact ⟨_, s, hrun, rfl, rfl, volatile_claims_exclusive hr (by decide +kernel) hrun⟩

/-- The task is submitted twice, and claimed for ten seconds. -/
def submittedTwice : SchedulerHistory :=
  ((volatileStart.act Small.env (.submit "t")).act Small.env (.submit "t")).tick 1
    |>.act Small.env (.claimNext "a" 10)

/-- One second later it is claimed again. -/
theorem volatile_claims_exclusive_fails :
    submittedTwice.Reached Small.env (fun _ _ => True) ∧ submittedTwice.now ≤ 2 ∧
      submittedTwice.Leased "t" 2 ∧ ∃ lease s,
        claimNext Small.env "b" 10 2 submittedTwice.scheduler = .ok (some lease) s ∧
        lease.taskId = "t" := by
  have hr : submittedTwice.Reached Small.env (fun _ _ => True) := by
    have hstart : volatileStart.Reached Small.env (fun _ _ => True) := .start rfl rfl 0
    have honce := hstart.call 0 le_rfl (c := .submit "t") trivial
    have htwice := honce.call 0 (by decide +kernel) (c := .submit "t") trivial
    exact htwice.call 1 (by decide +kernel) trivial
  have hlease : returns (claimNext Small.env "b" 10 2) submittedTwice.scheduler
      = some (some ⟨"t", "b", 2, 2, 12⟩) := by decide +kernel
  have hcurrent : submittedTwice.current "t" = some 11 := by decide +kernel
  obtain ⟨s, hrun⟩ := returns_eq_some.mp hlease
  exact ⟨hr, by decide +kernel, ⟨11, hcurrent, by decide +kernel⟩, _, s, hrun, rfl⟩

/-! ## Tasks that are not drawn again

The other side of keeping the queue in memory: what was drawn is not in the heaps any more, even
when its lease has run out.
-/

/-- `submit`, `claim_next`, `renew` or `release`. -/
def SchedulerCall.scheduling : SchedulerCall → Bool
  | .create _ _ _ _ _ _ _ => false
  | .control _ _ => false
  | _ => true

/-- Every entry is of a task that may be drawn. -/
structure SchedulerHistory.Drawable (h : SchedulerHistory) : Prop where
  volatile : h.scheduler.engine.persistent = false
  runnable : ∀ entry ∈ h.scheduler.engine.entries, h.scheduler.engine.runnable entry = true

/-- A scheduling call draws an entry, or adds one of a task that may be drawn, or leaves the heaps
as they are. -/
theorem SchedulerHistory.Drawable.act {env : Env} {h : SchedulerHistory} (hd : h.Drawable) :
    ∀ {c : SchedulerCall}, c.scheduling = true → (h.act env c).Drawable
  | .submit taskId, _ => by
      simp only [SchedulerHistory.act, after_onEngine]
      rcases submitTask_cases env hd.volatile taskId with
        ⟨_, e, hrun⟩ | ⟨_, t, entry, hrun, hvolatile, hid, hentries, hrunnable⟩
      · rw [after_of_error hrun]
        exact hd
      · rw [after_of_ok hrun]
        refine ⟨hvolatile, fun other hother => ?_⟩
        show t.runnable other = true
        rw [hrunnable]
        -- the new entry is the one of the task that was queued, and queueing it dropped no other
        rcases List.mem_cons.mp (hentries.mem_iff.mp hother) with rfl | hold
        · rw [decide_eq_true hid, Bool.true_or]
        · rw [hd.runnable other hold, Bool.or_true]
  | .claimNext ownerId leaseSeconds, _ => by
      rcases claimNext_cases env hd.volatile ownerId leaseSeconds h.now with
        ⟨_, e, hrun⟩ | ⟨hrun, _⟩ |
        ⟨before, entry, interactive, background, hentries, _, _, lease, _, _, hrun⟩
      · simp only [SchedulerHistory.act, hrun]
        exact hd
      · simp only [SchedulerHistory.act, hrun]
        exact ⟨hd.volatile, fun _ hentry => absurd hentry List.not_mem_nil⟩
      · simp only [SchedulerHistory.act, hrun]
        refine ⟨hd.volatile, fun other hother => hd.runnable other ?_⟩
        -- what is left behind the drawn entry was there before
        rw [hentries]
        exact List.mem_append_right _ (List.mem_cons_of_mem _ hother)
  | .renew lease leaseSeconds, _ => by
      rcases renewLease_cases env hd.volatile lease leaseSeconds h.now with hrun | ⟨_, _, _, hrun⟩
      · simp only [SchedulerHistory.act, hrun]
        exact hd
      · simp only [SchedulerHistory.act, hrun]
        exact ⟨hd.volatile, hd.runnable⟩
  | .release lease, _ => by
      rcases releaseLease_cases env hd.volatile lease with hrun | ⟨_, _, hrun⟩
      · simp only [SchedulerHistory.act, hrun]
        exact hd
      · simp only [SchedulerHistory.act, hrun]
        exact ⟨hd.volatile, hd.runnable⟩

/-- **Scheduling calls leave no entry stale.** -/
theorem SchedulerHistory.Reached.drawable {env : Env} {h : SchedulerHistory}
    (hr : h.Reached env (fun _ call => call.scheduling = true)) : h.Drawable := by
  induction hr with
  | start hvolatile hempty now =>
      refine ⟨hvolatile, ?_⟩
      rw [hempty]
      exact fun _ hentry => absurd hentry List.not_mem_nil
  | @call h _ ts later c hallowed ih =>
      have htick : (h.tick ts).Drawable := ⟨ih.volatile, ih.runnable⟩
      exact htick.act hallowed

/-- **A claim without a store finds a free task** exactly if there is none or an entry is left, in
any run of scheduling calls. -/
theorem volatile_claim_finds_iff {env : Env} {h : SchedulerHistory}
    (hr : h.Reached env (fun _ call => call.scheduling = true)) (ts : ℚ) (ownerId : String)
    {leaseSeconds : ℚ} (hpositive : 0 < leaseSeconds) :
    (h.HasFree ts → ∃ lease s,
      claimNext env ownerId leaseSeconds ts h.scheduler = .ok (some lease) s) ↔
    (h.HasFree ts → h.scheduler.engine.entries ≠ []) := by
  have hd := hr.drawable
  refine imp_congr_right (fun _ => ?_)
  rcases claimNext_cases env hd.volatile ownerId leaseSeconds ts with
    ⟨hneg, _⟩ | ⟨hrun, hnone⟩ |
    ⟨before, entry, interactive, background, hentries, _, _, lease, _, _, hrun⟩
  · exact absurd hpositive (not_lt.mpr hneg)
  · constructor
    · rintro ⟨lease, s, hrun'⟩
      cases hrun.symm.trans hrun'
    · intro hleft
      obtain ⟨entry, hentry⟩ := List.exists_mem_of_ne_nil _ hleft
      exact absurd (hd.runnable entry hentry) (by rw [hnone entry hentry]; exact Bool.false_ne_true)
  · refine iff_of_true ⟨lease, _, hrun⟩ ?_
    rw [hentries]
    exact List.append_ne_nil_of_right_ne_nil _ (List.cons_ne_nil _ _)

/-- The one task, once its lease has run out. -/
theorem hasFree_of_expired {h : SchedulerHistory} {ts : ℚ}
    (hstates : (h.scheduler.engine.tasks.get? "t").map (fun task => (task.state, task.desiredState))
      = some (.queued, .running)) (hcurrent : h.current "t" = some 11) (hts : 11 ≤ ts) :
    h.HasFree ts := by
  obtain ⟨task, hget, hboth⟩ := Option.map_eq_some_iff.mp hstates
  simp only [Prod.mk.injEq] at hboth
  refine ⟨"t", task, hget, hboth.1, hboth.2, ?_⟩
  rintro ⟨expiry, hexpiry, hlive⟩
  cases hcurrent.symm.trans hexpiry
  exact absurd hlive (not_lt.mpr hts)

/-- With a second entry the task is found again. -/
theorem volatile_claim_finds_submitted : ∃ lease s,
    claimNext Small.env "b" 10 13
      ((claimedOnce.tick 12).act Small.env (.submit "t")).scheduler = .ok (some lease) s := by
  have hr : ((claimedOnce.tick 12).act Small.env (.submit "t")).Reached Small.env
      (fun _ call => call.scheduling = true) := by
    have hstart : volatileStart.Reached Small.env (fun _ call => call.scheduling = true) :=
      .start rfl rfl 0
    exact ((hstart.call 0 le_rfl rfl).call 1 (by decide +kernel) rfl).call 12
      (by decide +kernel) rfl
  refine (volatile_claim_finds_iff hr 13 "b" (by decide +kernel)).mpr
    (fun _ => by decide +kernel) ?_
  exact hasFree_of_expired (by decide +kernel) (by decide +kernel) (by decide +kernel)

/-- Without one it is not, although a store with the same tasks and leases finds it. -/
theorem volatile_claim_finds_fails :
    claimedOnce.Reached Small.env (fun _ call => call.scheduling = true) ∧ claimedOnce.now ≤ 20 ∧
      claimedOnce.HasFree 20 ∧
      returns (claimNext Small.env "b" 10 20) claimedOnce.scheduler = some none ∧
      returns (claimNextTask "b" 10 20)
        { tasks := claimedOnce.scheduler.engine.tasks, taskLeases := claimedOnce.scheduler.leases }
          = some (some ⟨"t", "b", 2, 20, 30⟩) := by
  have hr : claimedOnce.Reached Small.env (fun _ call => call.scheduling = true) := by
    have hstart : volatileStart.Reached Small.env (fun _ call => call.scheduling = true) :=
      .start rfl rfl 0
    exact (hstart.call 0 le_rfl rfl).call 1 (by decide +kernel) rfl
  refine ⟨hr, by decide +kernel, hasFree_of_expired ?_ claimedOnce_current ?_, ?_, ?_⟩ <;>
    decide +kernel

end LiandanluNative
