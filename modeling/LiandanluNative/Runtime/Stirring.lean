/-
# LiandanluNative.Runtime.Stirring — what a step does before the effect.

Up to the effect a step touches its own task, prepares an operation and calls nothing.  Of the world
it only bumps the revision of the tasks, and with it the global one (`Stirred`), so what the world
says of entities and of the other domains stays as it was.  Each of its checks passes, or its answer
says which reading of the clock it failed at.

The lemmas about the checks say which inputs pass them, so they are the converses of those in
`Runtime.ExecutionMoves`, which say what is known once they have passed.  Those about leases cannot
say more than that the store was asked and said no, at a time between two readings of the clock:
whether a lease lasts up to the effect is for the caller to assume.
-/
import LiandanluNative.Runtime.Encoding
import LiandanluNative.Runtime.Manifest
import LiandanluNative.Runtime.Scheduler
import LiandanluNative.Runtime.StepMoves

namespace LiandanluNative

open Lib (Table)
open Lib.Proc

/-! ## Checks that pass -/

namespace WorldModel

variable {world : WorldModel} {workspaceId permission : String}

/-- **Revisions that are current** pass the check. -/
theorem assertRevisions_of {expected : List (String × Int)}
    (h : ∀ entry ∈ expected, world.AtRevision workspaceId entry.1 entry.2) :
    world.assertRevisions (some workspaceId) expected = .ok () := by
  induction expected with
  | nil => rfl
  | cons entry expected ih =>
      have hentry : world.currentRevision entry.1 (some workspaceId) = .ok (.counter entry.2) :=
        h entry List.mem_cons_self
      rw [assertRevisions, hentry]
      simp only [ne_eq, not_true_eq_false, if_false]
      exact ih (fun later hlater => h later (List.mem_cons_of_mem _ hlater))

/-- **An object that is granted** may be accessed. -/
theorem Grants.assertAccess {ref : String} {entity : Entity}
    (h : world.Grants workspaceId permission ref entity) :
    world.assertAccess ref permission workspaceId = .ok entity := by
  obtain ⟨hget, hactive, hworkspace, hpermission⟩ := h
  simp [WorldModel.assertAccess, WorldModel.get, hget, hactive, hworkspace, hpermission]

/-- Objects that are all granted may be accessed together. -/
theorem assertAccessAll_of {refs : List String}
    (h : ∀ ref ∈ refs, ∃ entity, world.Grants workspaceId permission ref entity) :
    world.assertAccessAll permission workspaceId refs = .ok () := by
  induction refs with
  | nil => rfl
  | cons ref refs ih =>
      obtain ⟨entity, hgrants⟩ := h ref List.mem_cons_self
      rw [assertAccessAll, hgrants.assertAccess]
      exact ih (fun later hlater => h later (List.mem_cons_of_mem _ hlater))

/-- Their locators are resolved. -/
theorem resolveLocators_of {refs : List String}
    (h : ∀ ref ∈ refs, ∃ entity, world.Grants workspaceId permission ref entity) :
    ∃ locators, world.resolveLocators permission workspaceId refs = .ok locators := by
  induction refs with
  | nil => exact ⟨[], rfl⟩
  | cons ref refs ih =>
      obtain ⟨entity, hgrants⟩ := h ref List.mem_cons_self
      obtain ⟨locators, hlocators⟩ := ih (fun later hlater => h later (List.mem_cons_of_mem _ hlater))
      refine ⟨entity.locator :: locators, ?_⟩
      simp [resolveLocators, resolveLocator, hgrants.assertAccess, hlocators]

end WorldModel

/-! ## What a step does to the world

A step counts the domain of tasks up, and with it the global revision, and stirs nothing else.  So a
check of revisions that passed at its start passes later, unless it asks about one of the two.
-/

/-- Only the revision of the tasks has been bumped, and with it the global one, any number of times.
That the two move together is what a manifest with either of them runs into. -/
def Stirred (v w : WorldModel) : Prop :=
  ∃ k : ℕ, w =
    { v with
      revisions :=
        { v.revisions with
          tasks := v.revisions.tasks + k
          globalRevision := v.revisions.globalRevision + k } }

namespace Stirred

variable {u v w : WorldModel} {workspaceId : String}

/-- A world in which nothing happened is stirred by nothing. -/
protected theorem refl (v : WorldModel) : Stirred v v := ⟨0, by simp⟩

protected theorem trans (h₁ : Stirred u v) (h₂ : Stirred v w) : Stirred u w := by
  obtain ⟨j, rfl⟩ := h₁
  obtain ⟨k, rfl⟩ := h₂
  exact ⟨j + k, by simp [add_assoc]⟩

/-- **A bump of the tasks** is what a step stirs the world with. -/
theorem bump (v : WorldModel) : Stirred v { v with revisions := v.revisions.bumpTasks } :=
  ⟨1, by simp [WorldRevisions.bumpTasks]⟩

/-- The counter of tasks tells how often. -/
theorem tasks_le (h : Stirred v w) : v.revisions.tasks ≤ w.revisions.tasks := by
  obtain ⟨k, rfl⟩ := h
  simp

/-- A domain that a step does not bump stays at its revision. -/
theorem atRevision (h : Stirred v w) {domain : String} (hdomain : domain ∈ manifestDomains)
    (htasks : domain ≠ "tasks") (hglobal : domain ≠ "global_revision") {value : Int}
    (hv : v.AtRevision workspaceId domain value) : w.AtRevision workspaceId domain value := by
  obtain ⟨k, rfl⟩ := h
  simp only [manifestDomains, List.mem_cons, List.not_mem_nil, or_false] at hdomain
  rcases hdomain with rfl | rfl | rfl | rfl | rfl | rfl
  · exact absurd rfl hglobal
  · exact hv
  · exact hv
  · exact hv
  · exact hv
  · exact absurd rfl htasks

/-- The other two do not, once the step has moved its task: a manifest built before the step names
values that are too low. -/
theorem not_atRevision (h : Stirred v w) (hlt : v.revisions.tasks < w.revisions.tasks)
    {domain : String} (hdomain : domain = "tasks" ∨ domain = "global_revision") {value : Int}
    (hv : v.AtRevision workspaceId domain value) : ¬ w.AtRevision workspaceId domain value := by
  obtain ⟨k, rfl⟩ := h
  have hpos : (0 : Int) < k := by simpa using hlt
  rcases hdomain with rfl | rfl
  · have hvalue : v.revisions.tasks = value := by simpa [WorldModel.AtRevision,
      WorldModel.currentRevision, WorldRevisions.attr] using hv
    simp [WorldModel.AtRevision, WorldModel.currentRevision, WorldRevisions.attr, ← hvalue]
    omega
  · have hvalue : v.revisions.globalRevision = value := by simpa [WorldModel.AtRevision,
      WorldModel.currentRevision, WorldRevisions.attr] using hv
    simp [WorldModel.AtRevision, WorldModel.currentRevision, WorldRevisions.attr, ← hvalue]
    omega

end Stirred

/-- Up to the effect, a step stirs the world and calls nothing. Before it prepares, it leaves alone
the operations, and the workspaces and budgets of tasks. -/
def Allowance.stirring (operations resources : Prop) : Allowance where
  task := fun _ m t => operations ∨
    ∀ old, m = some old → t.workspaceId = old.workspaceId ∧ t.budget = old.budget
  operation := fun _ _ _ => operations
  world := Stirred
  resources := resources
  leases := False
  invoke := fun _ => False

section

variable {operations resources : Prop}

/-- Stirring twice is stirring. -/
theorem Allowance.stirring_closed : (Allowance.stirring operations resources).Closed where
  task := by
    rintro id m v w hmv hvw
    refine or_iff_not_imp_left.mpr (fun hno old hm => ?_)
    obtain ⟨hw, hb⟩ := hmv.resolve_left hno old hm
    obtain ⟨hw', hb'⟩ := hvw.resolve_left hno v rfl
    exact ⟨hw'.trans hw, hb'.trans hb⟩
  operation := fun _ _ _ _ h _ => h
  world := fun _ _ _ h₁ h₂ => h₁.trans h₂

/-- A task that is touched bumps the counter of tasks, which is all the allowance permits to the
world. -/
theorem Allowance.stirring_touches (taskId : String) :
    (Allowance.stirring operations resources).Touches taskId where
  keep := by
    refine fun t => Or.inr ?_
    rintro _ ⟨⟩
    exact ⟨rfl, rfl⟩
  bump := by
    refine fun t => Or.inr ?_
    rintro _ ⟨⟩
    exact ⟨rfl, rfl⟩
  world := Stirred.bump

/-- What only touches tasks is within what prepares operations, too. -/
theorem Allowance.stirring_le {operations' resources' : Prop} (ho : operations → operations')
    (hr : resources → resources') :
    (Allowance.stirring operations resources).Le (.stirring operations' resources') where
  task := fun _ _ _ h => h.imp_left ho
  operation := fun _ _ _ h => ho h
  world := fun _ _ h => h
  resources := hr
  leases := fun h => h
  invoke := fun _ h => h

section

variable {s t : Sys} (h : Moves (.stirring operations resources) s t)
include h

/-- Up to its effect a step leaves the world stirred, the task leases as they were, and no
capability called. -/
theorem Moves.stirred : Stirred s.world t.world := by
  rcases h.world with hsame | hstirred
  · rw [hsame]
    exact Stirred.refl _
  · exact hstirred

theorem Moves.stirred_taskLeases : t.db.taskLeases = s.db.taskLeases :=
  h.taskLeases.resolve_left id

theorem Moves.stirred_invocations : t.invocations = s.invocations :=
  h.invocations_eq (fun _ => id)

end

end

/-! ## What a step does to its task -/

/-- What it is to assign to a task, to touch it and to record the event, in memory: nothing else of
the engine that a step reads has changed. -/
structure Sys.Changed (s : Sys) (new : Task) (u : Sys) : Prop where
  tasks : u.tasks = s.tasks.put new.touched
  world : u.world = { s.world with revisions := s.world.revisions.bumpTasks }
  operations : u.operations = s.operations
  calls : u.calls = s.calls

section

variable {env : Env} {s : Sys} {taskId : String}

/-- **A change of a task** that can be stored is stored, unless the process ends in it. -/
theorem ends_changed (new : Task) (hid : new.taskId = taskId) {eventType actor : String}
    {payload : List (PyKey × PyVal)} (hjson : ∃ column, PyVal.jsonDumpsItems payload = some column) :
    Ends (fun _ u => s.Changed new u) (fun fault _ => fault = .crash)
      (setTask new >>= fun _ => touchTask env taskId >>= fun _ =>
        recordTask env taskId eventType actor payload) s := by
  cases hpersistent : s.persistent with
  | true =>
      -- the store writes neither what memory holds nor the operations
      exact ends_change hpersistent new hid hjson rfl (fun column _ => ⟨⟨rfl, rfl, rfl, rfl⟩, rfl⟩)
  | false =>
      subst hid
      have hput : (s.tasks.put new).get? new.taskId = some new := Table.get?_put_self ..
      have htouched : (s.tasks.put new).put new.touched = s.tasks.put new.touched :=
        Table.put_put rfl
      have hget : ((s.tasks.put new).put new.touched).get? new.taskId = some new.touched :=
        Table.get?_put_self ..
      unfold touchTask
      refine Ends.bind (Ends.modifying (Ends.bind ?_))
      refine Ends.bind (Ends.of_ok (getTask_eq_ok.mpr ⟨hput, rfl⟩) ?_)
      refine Ends.bind (Ends.modifying (ends_bumpTasks_of_volatile hpersistent ?_))
      refine ends_recordTask_of_volatile (by exact hpersistent) hget (fun item => ?_)
      exact ⟨htouched, rfl, rfl, rfl⟩

/-- An update either changes the task, or has nothing to change.  Which of the two it is depends on
the state and phase the task was in. -/
theorem ends_updateRuntimeState {task : Task} (hget : s.tasks.get? taskId = some task)
    (state : Option TaskState) (phase : Option TaskPhase) (eventType actor : String) :
    Ends (fun _ u => (u = s ∧ (task.updated state phase).phase = task.phase) ∨
        s.Changed (task.updated state phase) u)
      (fun fault _ => fault = .crash)
      (updateRuntimeState env taskId state phase eventType actor) s := by
  unfold updateRuntimeState
  refine Ends.bind (ends_getTask (fun task' hget' => ?_) (fun hnone => ?_))
  · cases hget.symm.trans hget'
    dsimp only
    split
    · have hjson : ∃ column, PyVal.jsonDumpsItems (PyVal.payload
          [("state", .str (task.updated state phase).state.value),
            ("phase", .str (task.updated state phase).phase.value)]) = some column :=
        PyVal.jsonDumpsItems_payload (by simp [PyVal.jsonDumps])
      refine (ends_changed (task.updated state phase) ?_ hjson).mono (fun _ _ h => Or.inr h)
        (fun _ _ h => h)
      show task.taskId = taskId
      exact Table.key_of_get? hget
    · -- neither the state nor the phase is another, so nothing is touched
      rename_i hsame
      exact Ends.pure (Or.inl ⟨rfl, not_not.mp (not_or.mp hsame).2⟩)
  · rw [hget] at hnone
    cases hnone

end

/-- A task that is in memory stays there. -/
theorem Moves.present {A : Allowance} {s u : Sys} (h : Moves A s u) {taskId : String} {task : Task}
    (hs : s.tasks.get? taskId = some task) : ∃ now, u.tasks.get? taskId = some now := by
  rcases (h.tasks taskId).memory with hm | ⟨now, hnow, -⟩
  · exact ⟨task, hm.trans hs⟩
  · exact ⟨now, hnow⟩

/-- A stretch before preparing leaves the workspace and the budget of a task as they were. -/
theorem Moves.stirred_task {resources : Prop} {s u : Sys} {taskId : String}
    (h : Moves (.stirring False resources) s u) {task now : Task}
    (hs : s.tasks.get? taskId = some task) (hu : u.tasks.get? taskId = some now) :
    now.workspaceId = task.workspaceId ∧ now.budget = task.budget := by
  rcases (h.tasks taskId).memory with hm | ⟨v, hv, hmay⟩
  · rw [hu, hs] at hm
    cases hm
    exact ⟨rfl, rfl⟩
  · rw [hu] at hv
    cases hv
    exact hmay.resolve_left id task hs

/-! ## Acquiring

Where there is room the broker grants what is asked, and the lease is then valid by its identity.
-/

/-- The broker has room for the request at `ts`: the task has no active lease, and the request fits
beside those of the others.  With a store its rows are asked. -/
def Sys.HasRoom (s : Sys) (broker : ResourceBroker) (taskId : String) (request : ResourceRequest)
    (ts : ℚ) : Prop :=
  if broker.persistent then
    s.db.resourceLeaseActive taskId ts = false ∧
      request.conflicts broker.capacity (s.db.otherActiveLeases ts taskId) = false
  else
    broker.active taskId ts = false ∧
      request.conflicts broker.capacity (broker.othersActive ts taskId) = false

/-- Whether there is room for a request is a question to the leases. -/
theorem Sys.hasRoom_congr {s u : Sys} (hleases : u.db.resourceLeases = s.db.resourceLeases)
    (broker : ResourceBroker) (taskId : String) (request : ResourceRequest) (ts : ℚ) :
    u.HasRoom broker taskId request ts ↔ s.HasRoom broker taskId request ts := by
  unfold Sys.HasRoom Database.resourceLeaseActive Database.otherActiveLeases
  rw [hleases]

section

variable {env : Env} {broker : ResourceBroker} {taskId ownerId : String}
  {request : ResourceRequest} {leaseSeconds ts : ℚ}

/-- A lease that has just been put in is valid until it runs out. -/
theorem Database.validateResourceLeaseIdentity_put {db : Database} {lease : ResourceLease}
    (hlate : ts < lease.leaseUntil) :
    ({ db with resourceLeases := db.resourceLeases.put lease } :
      Database).validateResourceLeaseIdentity lease.taskId lease.ownerId lease.generation ts
        = true := by
  have hget : (db.resourceLeases.put lease).get? lease.taskId = some lease := Table.get?_put_self ..
  simp [Database.validateResourceLeaseIdentity, hget, ResourceLease.heldBy, hlate]

/-- What the store makes of such a request: it gives out a lease, or has no room.  Ids that are
empty, seconds that are not positive and requests beyond the capacity raise before it. -/
theorem acquireResourceLease_returns {db : Database} (htask : taskId ≠ "") (howner : ownerId ≠ "")
    (hseconds : 0 < leaseSeconds) (hfits : request.exceeds broker.capacity = false)
    (hid : Bindable [.text taskId]) (hrow : Bindable (request.columns ownerId)) :
    ∃ acquired db',
      acquireResourceLease taskId ownerId request broker.capacity leaseSeconds ts db
        = .ok acquired db' ∧
      (acquired = none → ¬ (db.resourceLeaseActive taskId ts = false ∧
        request.conflicts broker.capacity (db.otherActiveLeases ts taskId) = false)) ∧
      ∀ lease, acquired = some lease → lease.taskId = taskId ∧
        ∀ later, later < ts + leaseSeconds →
          db'.validateResourceLeaseIdentity taskId lease.ownerId lease.generation later = true := by
  have hids : ¬ (taskId = "" ∨ ownerId = "") := not_or.mpr ⟨htask, howner⟩
  rcases acquireResourceLease_cases taskId ownerId request broker.capacity leaseSeconds ts db with
    ⟨e, herror⟩ | hnone | ⟨given, hok, ⟨rfl, -, -⟩, -, huntil, -⟩
  · -- what it raises over, it was not given
    unfold acquireResourceLease at herror
    rw [if_neg hids, if_neg (not_le.mpr hseconds), if_neg (Bool.eq_false_iff.mp hfits)] at herror
    simp only [binds_of_bindable hid, binds_of_bindable hrow] at herror
    split at herror
    · cases herror
    split at herror
    · cases herror
    · cases herror
  · refine ⟨none, db, hnone, fun _ => ?_, nofun⟩
    rintro ⟨hfree, hroom⟩
    simp [acquireResourceLease, hids, not_le.mpr hseconds, hfits, hfree, hroom,
      binds_of_bindable hid, binds_of_bindable hrow] at hnone
  · refine ⟨some given, _, hok, nofun, ?_⟩
    rintro _ ⟨⟩
    refine ⟨rfl, fun later hlater => Database.validateResourceLeaseIdentity_put ?_⟩
    rw [huntil]
    exact hlater

/-- **Acquiring.** The broker gives out a lease, which the store, if the broker has one, holds valid
until it runs out; or it has no room when it reads the clock. -/
theorem ends_acquire_room {u : Sys} (htask : taskId ≠ "") (howner : ownerId ≠ "")
    (hseconds : 0 < leaseSeconds) (hfits : request.exceeds broker.capacity = false)
    (hbindable : broker.persistent = true →
      Bindable [.text taskId] ∧ Bindable (request.columns ownerId)) :
    Ends
      (fun acquired v => u.clockReads < v.clockReads ∧
        (acquired = none → ¬ u.HasRoom broker taskId request (env.clock u.clockReads)) ∧
        ∀ lease, acquired = some lease → lease.taskId = taskId ∧
          (broker.persistent = true → ∀ ts, ts < env.clock u.clockReads + leaseSeconds →
            v.db.validateResourceLeaseIdentity taskId lease.ownerId lease.generation ts = true))
      (fun fault _ => fault = .crash)
      (acquireResources env broker taskId ownerId request leaseSeconds) u := by
  unfold Sys.HasRoom
  -- the checks before the broker are passed
  rw [acquireResources, if_neg (not_or.mpr ⟨htask, howner⟩), if_neg (not_le.mpr hseconds),
    if_neg (Bool.eq_false_iff.mp hfits)]
  refine Ends.bind (Ends.of_ok (rfl : readClock env u = _) ?_)
  cases hpersistent : broker.persistent with
  | true =>
      -- with a store, what the transaction gives is what the call gives
      obtain ⟨acquired, db, hrun, hrefused, hgiven⟩ := @acquireResourceLease_returns broker taskId
        ownerId request leaseSeconds (env.clock u.clockReads) u.db htask howner hseconds hfits
        (hbindable hpersistent).1 (hbindable hpersistent).2
      simp only [if_true]
      refine ends_store (fun e db' hraised => ?_) (fun acquired' db' hreturned => ⟨?_, rfl⟩)
      · cases hrun.symm.trans hraised
      · cases hrun.symm.trans hreturned
        refine ⟨Nat.lt_succ_self _, hrefused, fun lease hlease => ?_⟩
        exact ⟨(hgiven lease hlease).1, fun _ => (hgiven lease hlease).2⟩
  | false =>
      simp only [Bool.false_eq_true, if_false]
      split
      · rename_i hrefused
        refine Ends.pure ⟨Nat.lt_succ_self _, fun _ => ?_, nofun⟩
        rintro ⟨hfree, hroom⟩
        simp [ResourceBroker.grants, hfree, hroom] at hrefused
      · rename_i lease hgranted
        refine Ends.bind (Ends.modifying (Ends.pure ⟨Nat.lt_succ_self _, nofun, ?_⟩))
        rintro _ ⟨⟩
        exact ⟨(ResourceBroker.grants_eq_some hgranted).1.1, nofun⟩

/-- A store that cannot write the row gives out no lease: binding raises, or the request was refused
before it came to that. -/
theorem ends_acquire_unbindable {u : Sys}
    (hrefused : ¬ (broker.persistent = true →
      Bindable [.text taskId] ∧ Bindable (request.columns ownerId))) :
    Ends (fun acquired _ => acquired = none) (fun _ _ => True)
      (acquireResources env broker taskId ownerId request leaseSeconds) u := by
  obtain ⟨hpersistent, hunbindable⟩ := Classical.not_imp.mp hrefused
  unfold acquireResources
  split
  · exact Ends.throw trivial
  split
  · exact Ends.throw trivial
  split
  · exact Ends.pure rfl
  refine Ends.bind (Ends.of_ok (rfl : readClock env u = _) ?_)
  refine ends_store (fun _ _ _ => trivial) (fun acquired db' hreturned => ⟨?_, trivial⟩)
  cases acquired with
  | none => rfl
  | some lease => exact absurd (acquireResourceLease_bindable hreturned) hunbindable

end

/-! ## The lease checks -/

section

variable {env : Env} {u : Sys} {taskId : String}

/-- A check of a lease passes, or the store's answer is no at a reading of the clock. -/
theorem ends_checkLease {leaseTaskId foreign stale : String} {valid : M Bool} {check : ℚ → Bool}
    (hown : leaseTaskId = taskId)
    (hvalid : valid u
      = .ok (check (env.clock u.clockReads)) { u with clockReads := u.clockReads + 1 }) :
    Ends (fun _ v => OnlyReads u v)
      (fun _ v => OnlyReads u v ∧ u.persistent = true ∧ CheckedBetween env u v (fun ts => !check ts))
      (checkLease taskId leaseTaskId foreign stale valid) u := by
  have hread : OnlyReads u { u with clockReads := u.clockReads + 1 } := ⟨Nat.le_succ _, rfl⟩
  unfold checkLease
  rw [if_neg (not_not.mpr hown)]
  refine Ends.bind (Ends.get ?_)
  split
  · rename_i hpersistent
    refine Ends.bind (Ends.of_ok hvalid ?_)
    cases hcheck : check (env.clock u.clockReads) with
    | true => exact Ends.pure hread
    | false =>
        refine Ends.throw ⟨hread, hpersistent, u.clockReads, le_rfl, Nat.lt_succ_self _, ?_⟩
        simp only [hcheck, Bool.not_false]
  · exact Ends.pure (frame_onlyReads.refl u)

/-- **A lease is refused** only if the store says at some reading of the clock that it is not valid.
-/
theorem ends_checkTaskLease {taskLease : Option TaskLease}
    (hown : ∀ lease, taskLease = some lease → lease.taskId = taskId) :
    Ends (fun _ v => OnlyReads u v)
      (fun _ v => OnlyReads u v ∧ u.persistent = true ∧ ∃ lease, taskLease = some lease ∧
        CheckedBetween env u v (fun ts =>
          !u.db.validateTaskLeaseIdentity taskId lease.ownerId lease.generation ts))
      (checkTaskLease env taskId taskLease) u := by
  cases taskLease with
  | none => exact Ends.pure (frame_onlyReads.refl u)
  | some lease =>
      refine (ends_checkLease (hown lease rfl) (rfl : taskLeaseValid env _ _ _ u = _)).mono
        (fun _ _ h => h) (fun _ v h => ?_)
      exact ⟨h.1, h.2.1, lease, rfl, h.2.2⟩

theorem ends_checkResourceLease {resourceLease : Option ResourceLease}
    (hown : ∀ lease, resourceLease = some lease → lease.taskId = taskId) :
    Ends (fun _ v => OnlyReads u v)
      (fun _ v => OnlyReads u v ∧ u.persistent = true ∧ ∃ lease, resourceLease = some lease ∧
        CheckedBetween env u v (fun ts =>
          !u.db.validateResourceLeaseIdentity taskId lease.ownerId lease.generation ts))
      (checkResourceLease env taskId resourceLease) u := by
  cases resourceLease with
  | none => exact Ends.pure (frame_onlyReads.refl u)
  | some lease =>
      refine (ends_checkLease (hown lease rfl) (rfl : resourceLeaseValid env _ _ _ u = _)).mono
        (fun _ _ h => h) (fun _ v h => ?_)
      exact ⟨h.1, h.2.1, lease, rfl, h.2.2⟩

/-- The same of the identity an operation carries, which `execute` asks the store about once more.
-/
theorem ends_recheckLease {ownerId : Option String} {generation : Option Int} {lost : String}
    {valid : String → Int → M Bool} {check : String → Int → ℚ → Bool}
    (hpaired : ∀ owner, ownerId = some owner → ∃ g, generation = some g)
    (hvalid : ∀ owner g, valid owner g u
      = .ok (check owner g (env.clock u.clockReads)) { u with clockReads := u.clockReads + 1 }) :
    Ends (fun _ v => OnlyReads u v)
      (fun _ v => OnlyReads u v ∧ u.persistent = true ∧ ∃ owner g, ownerId = some owner ∧
        generation = some g ∧ CheckedBetween env u v (fun ts => !check owner g ts))
      (recheckLease ownerId generation lost valid) u := by
  have hread : OnlyReads u { u with clockReads := u.clockReads + 1 } := ⟨Nat.le_succ _, rfl⟩
  unfold recheckLease
  refine Ends.bind (Ends.get ?_)
  cases hpersistent : u.persistent with
  | false => exact Ends.pure (frame_onlyReads.refl u)
  | true =>
      cases ownerId with
      | none => exact Ends.pure (frame_onlyReads.refl u)
      | some owner =>
          obtain ⟨g, rfl⟩ := hpaired owner rfl
          dsimp only
          refine Ends.bind (Ends.of_ok (hvalid owner g) ?_)
          cases hcheck : check owner g (env.clock u.clockReads) with
          | true => exact Ends.pure hread
          | false =>
              refine Ends.throw ⟨hread, rfl, owner, g, rfl, rfl, u.clockReads, le_rfl,
                Nat.lt_succ_self _, ?_⟩
              simp only [hcheck, Bool.not_false]

end

/-! ## Starting

Nothing is refused any more: the operation is opened, and its capability called.
-/

/-- An operation is started, unless there is a store and its row cannot be written.  Then the
exception leaves memory as it was changed, and nothing is prepared. -/
theorem ends_startOperation_encoded {env : Env} {u : Sys} {task : Task} {op : Operation}
    (howner : op.taskId = task.taskId) :
    Ends (fun _ v => v.operations.get? op.operationId = some op ∧
        (u.persistent = true → op.encoded ≠ none))
      (fun fault _ => fault = .crash ∨ (u.persistent = true ∧ op.encoded = none))
      (startOperation env task op) u := by
  refine (Ends.and ⟨fun hrun => (startOperation_eq_ok hrun).1, fun _ => trivial⟩ ?_).mono
    (fun _ _ h => h) (fun _ _ h => h.2)
  cases hpersistent : u.persistent with
  | true =>
      refine ends_startOperation hpersistent howner (Or.inl rfl) (fun hnone e => ?_)
        (fun row fields column hencoded _ => ⟨fun _ => ?_, Or.inl rfl⟩)
      · exact Or.inr ⟨rfl, hnone⟩
      · rw [hencoded]
        exact Option.some_ne_none row
  | false =>
      have hstore : ¬ u.persistent = true := Bool.eq_false_iff.mp hpersistent
      unfold startOperation enqueueOutbox
      refine Ends.bind (Ends.modifying (Ends.bind (ends_bumpTasks_of_volatile hpersistent ?_)))
      refine Ends.bind (Ends.modifying (Ends.bind (Ends.get ?_)))
      rw [if_neg hstore]
      refine Ends.bind (Ends.bind (Ends.get ?_))
      rw [if_neg hstore]
      refine Ends.bind (Ends.of_ok (rfl : newId env "outbox" _ = _) (Ends.bind (Ends.modifying ?_)))
      exact Ends.pure (Ends.pure nofun)

/-- An event of an operation is recorded, unless there is a store and the row of the operation cannot
be written. -/
theorem ends_recordOp_encoded {env : Env} {u : Sys} {operationId : String} {op : Operation}
    (hget : u.operations.get? operationId = some op)
    (hencodable : u.persistent = true → op.Encodable) (eventType actor : String) :
    Ends (fun _ v => v.operations = u.operations ∧ v.invocations = u.invocations)
      (fun fault _ => fault = .crash) (recordOp env operationId eventType actor []) u := by
  cases hpersistent : u.persistent with
  | true =>
      refine ends_recordOp hpersistent hget (fun hnone e => ?_)
        (fun row fields column _ _ _ => ⟨⟨rfl, rfl⟩, rfl⟩)
      rcases hnone with hnone | hnone
      · exact absurd hnone (hencodable hpersistent).encoded
      · cases hnone
  | false =>
      have hstore : ¬ u.persistent = true := Bool.eq_false_iff.mp hpersistent
      unfold recordOp enqueueOutbox
      refine Ends.bind (Ends.of_ok (getOperation_eq_ok.mpr ⟨hget, rfl⟩) (Ends.bind (Ends.get ?_)))
      rw [if_neg hstore]
      refine Ends.bind (Ends.bind (Ends.get ?_))
      rw [if_neg hstore]
      refine Ends.bind (Ends.of_ok (rfl : newId env "outbox" _ = _) (Ends.bind (Ends.modifying ?_)))
      exact Ends.pure (Ends.pure ⟨rfl, rfl⟩)

/-- Past its gates `execute` calls the capability, unless the process ends.  What the call answers,
and what is raised after it, does not matter here. -/
theorem ends_carryOut_called {env : Env} {u : Sys} {operationId : String} {op : Operation}
    (hget : u.operations.get? operationId = some op)
    (hencodable : u.persistent = true → op.Encodable) (locators : List String) :
    Ends
      (fun _ t => ∃ i later, t.invocations = u.invocations ++ i :: later ∧ i.op = op.begun)
      (fun fault t => fault = .crash ∨
        ∃ i later, t.invocations = u.invocations ++ i :: later ∧ i.op = op.begun)
      (carryOut env operationId locators) u := by
  have hid : op.operationId = operationId := Table.key_of_get? hget
  have hbegun : (u.operations.put op.begun).get? operationId = some op.begun :=
    hid ▸ u.operations.get?_put_self op.begun
  have hF := Moves.frame Allowance.free_closed
  rw [carryOut_eq]
  refine Ends.bind (ends_updateOperation hget ?_)
  have hstill : u.persistent = true → op.begun.Encodable := fun hpersistent =>
    ⟨(hencodable hpersistent).1, (hencodable hpersistent).2, (hencodable hpersistent).3⟩
  refine Ends.bind ((ends_recordOp_encoded (by exact hbegun) (by exact hstill) _ _).mono
    (fun _ v hv => ?_) (fun _ _ hcrash => Or.inl hcrash))
  obtain ⟨hoperations, hinvocations⟩ := hv
  have hcalled : v.operations.get? operationId = some op.begun := by
    rw [hoperations]
    exact hbegun
  refine (Ends.of_after ?_).mono (fun _ _ h => h) (fun _ _ h => Or.inr h)
  have hmoves : Moves .free (v.invoked op.begun locators)
      (after (afterCall env operationId (invokeCapability env operationId locators)) v) := by
    rw [afterCall_congr (invokeCapability_eq hcalled)]
    refine moves_afterCall Allowance.free_closed env (fun _ _ _ => trivial) ?_ _
    exact hF.bind within_boundary (fun _ => within_callOut _)
  obtain ⟨later, hlater, _⟩ := hmoves.invocations
  refine ⟨v.invocation op.begun locators, later, ?_, rfl⟩
  rw [hlater]
  show (v.invocations ++ [_]) ++ later = _
  rw [hinvocations, List.append_assoc, List.singleton_append]

end LiandanluNative
