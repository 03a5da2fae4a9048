/-
# LiandanluNative.Safety.OwnManifest — a step and the manifest it was given.

A step compares the revisions its manifest records with those the world is at, in `prepare` and
again in `execute`.  By then it has moved the phase of its own task, and every such move bumps the
revision of the tasks and the global one.  So an action that depends on either of the two is never
carried out, however fresh the manifest (`step_reaches_fails`); one that depends on any others is,
if everything else is in order and the stores can hold what it needs (`step_reaches_iff`).

The step is followed call by call.  Between its calls it is known what is still as the manifest has
it (`Moves` with what was stirred), that the leases cover the rest of the way (`Covers`), and from
`prepare` on that the operation waits to be started (`Poised`).  At whatever call it ends, returning
or raising, the end is judged by what was known there, so that the two directions of the result come
out of one walk.
-/
import LiandanluNative.Runtime.Engine
import LiandanluNative.Runtime.Manifest
import LiandanluNative.Runtime.Stirring
import LiandanluNative.Safety.Mediation
import LiandanluNative.Safety.ResourceRelease

namespace LiandanluNative

open Lib (Table)
open Lib.Proc

/-! ## In order

What a step needs of its inputs to get to its effect: the checks in the order of the source, each on
what it looks at.
-/

/-- The model proposes an action on which nothing but the revisions is in doubt: budget, leases and
room are there at every reading of the clock before the `limit`-th.  What happens after the effect
does not matter, so no more is asked of later readings. -/
structure InOrder (env : Env) (runner : Runner) (task : Task) (manifest : ContextManifest)
    (taskLease : Option TaskLease) (proposal : ActionProposal) (spec : ActionSpec) (s : Sys)
    (limit : ℕ) : Prop where
  found : s.tasks.get? task.taskId = some task
  wanted : task.desiredState ∉ [TaskState.paused, .cancelled]
  proposed : env.nextAction s.calls manifest = .ok proposal
  resolved : s.registry.resolve env.py proposal = .ok spec
  recorded : ∀ domain ∈ spec.revisionDomains, domain ∈ manifestDomains
  allowed : runner.policy.evaluate task.workspaceId proposal.capability proposal.action
    spec.riskClass = .allow
  capability : proposal.capability ∈ s.capabilities
  objects : ∀ ref ∈ proposal.objectRefs,
    ∃ entity, s.world.Grants task.workspaceId spec.requiredPermission ref entity
  required : runner.requireTaskLease.getD s.persistent = true → taskLease.isSome = true
  own : ∀ lease, taskLease = some lease → lease.taskId = task.taskId
  /-- What resources it needs, a broker with the store of the engine can give. -/
  resources : spec.resourceRequest.empty = false → ∃ lease broker, taskLease = some lease ∧
    s.broker = some broker ∧ task.taskId ≠ "" ∧ lease.ownerId ≠ "" ∧
    0 < runner.resourceLeaseSeconds ∧ spec.resourceRequest.exceeds broker.capacity = false ∧
    (s.persistent = true → broker.persistent = true)
  budget : ∀ n, s.clockReads ≤ n → n < limit → task.budget.blockReason (env.clock n) = none
  leased : s.persistent = true → ∀ lease, taskLease = some lease → ∀ n, s.clockReads ≤ n →
    n < limit →
    s.db.validateTaskLeaseIdentity task.taskId lease.ownerId lease.generation (env.clock n) = true
  room : spec.resourceRequest.empty = false → ∀ broker, s.broker = some broker → ∀ n,
    s.clockReads ≤ n → n < limit → s.HasRoom broker task.taskId spec.resourceRequest (env.clock n)
  /-- A resource lease does not run out before the effect. -/
  lasts : spec.resourceRequest.empty = false → ∀ m n, s.clockReads ≤ m → m < n → n < limit →
    env.clock n < env.clock m + runner.resourceLeaseSeconds

/-- What is in order for longer is in order for a shorter time. -/
theorem InOrder.mono {env : Env} {runner : Runner} {task : Task} {manifest : ContextManifest}
    {taskLease : Option TaskLease} {proposal : ActionProposal} {spec : ActionSpec} {s : Sys}
    {limit limit' : ℕ}
    (h : InOrder env runner task manifest taskLease proposal spec s limit) (hle : limit' ≤ limit) :
    InOrder env runner task manifest taskLease proposal spec s limit' :=
  { h with
    budget := fun n hn hlt => h.budget n hn (hlt.trans_le hle)
    leased := fun hp lease hlease n hn hlt => h.leased hp lease hlease n hn (hlt.trans_le hle)
    room := fun hneeds broker hbroker n hn hlt =>
      h.room hneeds broker hbroker n hn (hlt.trans_le hle)
    lasts := fun hneeds m n hm hmn hlt => h.lasts hneeds m n hm hmn (hlt.trans_le hle) }

/-- The objects are granted wherever only the revision of the tasks has moved. -/
theorem InOrder.granted {env : Env} {runner : Runner} {task : Task} {manifest : ContextManifest}
    {taskLease : Option TaskLease} {proposal : ActionProposal} {spec : ActionSpec} {s : Sys}
    {limit : ℕ}
    (h : InOrder env runner task manifest taskLease proposal spec s limit) {w : WorldModel}
    (hw : Stirred s.world w) : ∀ ref ∈ proposal.objectRefs,
      ∃ entity, w.Grants task.workspaceId spec.requiredPermission ref entity := by
  obtain ⟨k, rfl⟩ := hw
  exact h.objects

/-- How many readings of the clock there were up to the effect, or up to the end of a step that has
none: the limit up to which all else is to be in order. -/
def Sys.readsToEffect (s t : Sys) : ℕ :=
  match t.invocations.drop s.invocations.length with
  | [] => t.clockReads
  | i :: _ => i.clockReads

/-- The capability has been called for the proposal. -/
def Sys.Reaches (s t : Sys) (proposal : ActionProposal) : Prop :=
  ∃ i ∈ t.invocations.drop s.invocations.length,
    i.op.capability = proposal.capability ∧ i.op.action = proposal.action ∧
      i.op.arguments = proposal.arguments

/-- A broker with a store can write the row of the resource lease that the action needs: a request of
`2 ^ 63` units has none, however large the capacity. -/
def Sys.TakesRequest (s : Sys) (task : Task) (taskLease : Option TaskLease) (spec : ActionSpec) :
    Prop :=
  spec.resourceRequest.empty = false → ∀ broker lease, s.broker = some broker →
    broker.persistent = true → taskLease = some lease →
    Bindable [.text task.taskId] ∧ Bindable (spec.resourceRequest.columns lease.ownerId)

/-- The action depends on no revision that the step itself bumps, and can be stored: a condition on
the spec, the proposal and the leases, as they are before the step. -/
structure Unstirred (task : Task) (taskLease : Option TaskLease) (proposal : ActionProposal)
    (spec : ActionSpec) (s : Sys) : Prop where
  tasks : "tasks" ∉ spec.revisionDomains
  global : "global_revision" ∉ spec.revisionDomains
  arguments : s.persistent = true → ∃ items, PyVal.jsonDumpsItems proposal.arguments = some items
  request : s.TakesRequest task taskLease spec

/-- The other rows that a step writes before the effect, of its task and of the operation, can be
written. -/
structure StorableStep (env : Env) (task : Task) (taskLease : Option TaskLease)
    (spec : ActionSpec) : Prop where
  identifiers : ∀ n, encodable (env.uuid n) = true
  task : Bindable task.columns
  lease : ∀ lease, taskLease = some lease → Bindable lease.columns
  spec : Bindable [.text spec.capability, .text spec.action, .text spec.requiredPermission]

/-! ## How a step goes

Up to `prepare` the step carries along that its checks will pass, or that one of them will not.
-/

/-- The capability was not called, as the action depends on what the step bumps, or as something was
not in order. -/
def Sys.Missed (env : Env) (runner : Runner) (task : Task) (manifest : ContextManifest)
    (taskLease : Option TaskLease) (proposal : ActionProposal) (spec : ActionSpec)
    (s t : Sys) : Prop :=
  t.invocations = s.invocations ∧ (¬ Unstirred task taskLease proposal spec s ∨
    ¬ InOrder env runner task manifest taskLease proposal spec s t.clockReads)

/-- It was not called for one of these reasons, or it was called for an action that depends on
nothing the step bumps.  Every end of a step is one or the other. -/
def Sys.Judged (env : Env) (runner : Runner) (task : Task) (manifest : ContextManifest)
    (taskLease : Option TaskLease) (proposal : ActionProposal) (spec : ActionSpec)
    (s t : Sys) : Prop :=
  s.Missed env runner task manifest taskLease proposal spec t ∨
    (Unstirred task taskLease proposal spec s ∧ s.Reaches t proposal)

/-- The resource lease a step that began in `s` has in `u` is of its task, and good until it runs
out, as the store has it. -/
structure Covers (env : Env) (runner : Runner) (task : Task) (spec : ActionSpec) (s u : Sys)
    (resourceLease : Option ResourceLease) : Prop where
  needed : ∀ lease, resourceLease = some lease → spec.resourceRequest.empty = false
  own : ∀ lease, resourceLease = some lease → lease.taskId = task.taskId
  held : s.persistent = true → ∀ lease, resourceLease = some lease → ∃ m, s.clockReads ≤ m ∧
    m < u.clockReads ∧ ∀ ts, ts < env.clock m + runner.resourceLeaseSeconds →
      u.db.validateResourceLeaseIdentity task.taskId lease.ownerId lease.generation ts = true

/-- A step that began in `s` has come to its `try`, in `u`: it has moved its task, and has the lease
it needs.  That it has moved its task is what makes a manifest stale. -/
structure Ready (env : Env) (runner : Runner) (task : Task) (taskLease : Option TaskLease)
    (spec : ActionSpec) (s u : Sys) (resourceLease : Option ResourceLease) : Prop
    extends Covers env runner task spec s u resourceLease where
  taken : s.TakesRequest task taskLease spec
  moved : Moves (.stirring False True) s u
  bumped : s.world.revisions.tasks < u.world.revisions.tasks

/-- The step has prepared an operation, and may carry it out: memory has it PREPARED, with the
revisions of the manifest and the identities of the leases. -/
structure Poised (env : Env) (runner : Runner) (task : Task) (proposal : ActionProposal)
    (spec : ActionSpec) (expected : List (String × Int)) (taskLease : Option TaskLease)
    (resourceLease : Option ResourceLease) (operationId : String) (s u : Sys) : Prop
    extends Covers env runner task spec s u resourceLease where
  moved : Moves (.stirring True True) s u
  unstirred : Unstirred task taskLease proposal spec s
  found : ∃ now : Task, now.taskId = task.taskId ∧ now.workspaceId = task.workspaceId ∧
    u.operations.get? operationId =
      some (proposal.operation operationId now spec expected taskLease resourceLease)

section

variable {env : Env} {runner : Runner} {task : Task} {manifest : ContextManifest}
  {taskLease : Option TaskLease} {proposal : ActionProposal} {spec : ActionSpec} {s u v : Sys}
  {resourceLease : Option ResourceLease} {expected : List (String × Int)} {operationId : String}

/-- Where the step has stirred what its action depends on, or something was not in order, it misses
the effect. -/
theorem Sys.Missed.of_stirring (hmoved : Moves (.stirring True True) s u)
    (h : ¬ Unstirred task taskLease proposal spec s ∨
      ¬ InOrder env runner task manifest taskLease proposal spec s u.clockReads) :
    s.Missed env runner task manifest taskLease proposal spec u :=
  ⟨hmoved.stirred_invocations, h⟩

/-- What a step does without calling a capability changes nothing of this. -/
theorem Sys.Judged.moves {A : Allowance} (hno : ∀ i, ¬ A.invoke i)
    (h : s.Judged env runner task manifest taskLease proposal spec u) (hmoves : Moves A u v) :
    s.Judged env runner task manifest taskLease proposal spec v := by
  have hsame : v.invocations = u.invocations := hmoves.invocations_eq hno
  -- more readings of the clock only ask more of what is in order
  rcases h with ⟨hnone, hwhy⟩ | ⟨hunstirred, hreaches⟩
  · refine Or.inl ⟨hsame.trans hnone, hwhy.imp_right (fun hnot horder => hnot ?_)⟩
    exact horder.mono hmoves.clockReads
  · refine Or.inr ⟨hunstirred, ?_⟩
    unfold Sys.Reaches
    rw [hsame]
    exact hreaches

/-- The leases cover a step for as long as nobody touches them and the clock has not run past them.
-/
theorem Covers.mono (h : Covers env runner task spec s u resourceLease)
    (hleases : v.db.resourceLeases = u.db.resourceLeases) (hreads : u.clockReads ≤ v.clockReads) :
    Covers env runner task spec s v resourceLease where
  needed := h.needed
  own := h.own
  held := by
    intro hpersistent lease hlease
    obtain ⟨m, hm, hmu, hvalid⟩ := h.held hpersistent lease hlease
    refine ⟨m, hm, hmu.trans_le hreads, fun ts hts => ?_⟩
    rw [validateResourceLeaseIdentity_congr hleases]
    exact hvalid ts hts

/-- The operation may still be carried out when its task has moved on. -/
theorem Poised.updated
    (h : Poised env runner task proposal spec expected taskLease resourceLease operationId s u)
    (hmoves : Moves (.stirring True False) u v) (hoperations : v.operations = u.operations) :
    Poised env runner task proposal spec expected taskLease resourceLease operationId s v where
  toCovers := h.toCovers.mono (hmoves.resourceLeases.resolve_left id).1 hmoves.clockReads
  moved := h.moved.trans Allowance.stirring_closed
    (hmoves.mono (Allowance.stirring_le id (fun _ => trivial)))
  unstirred := h.unstirred
  found := by
    rw [hoperations]
    exact h.found

/-- A task lease the store does not hold valid was not in order. -/
theorem InOrder.not_of_refused {operations resources : Prop}
    (hmoved : Moves (.stirring operations resources) s u) (hpersistent : u.persistent = true)
    {lease : TaskLease} (hlease : taskLease = some lease)
    (hrefused : CheckedBetween env u v (fun ts =>
      !u.db.validateTaskLeaseIdentity task.taskId lease.ownerId lease.generation ts)) :
    ¬ InOrder env runner task manifest taskLease proposal spec s v.clockReads := by
  intro horder
  rw [validateTaskLeaseIdentity_congr hmoved.stirred_taskLeases] at hrefused
  obtain ⟨n, hn, hlt, hno⟩ := hrefused
  have hyes := horder.leased (hmoved.persistent ▸ hpersistent) lease hlease n
    (hmoved.clockReads.trans hn) hlt
  simp only [hyes, Bool.not_true, Bool.false_eq_true] at hno

/-- Nor was a resource lease: it was to last. -/
theorem Covers.not_of_refused (h : Covers env runner task spec s u resourceLease)
    (hsame : u.persistent = s.persistent) {w : Sys} (hread : OnlyReads u w)
    (hpersistent : w.persistent = true) {lease : ResourceLease}
    (hlease : resourceLease = some lease)
    (hrefused : CheckedBetween env w v (fun ts =>
      !w.db.validateResourceLeaseIdentity task.taskId lease.ownerId lease.generation ts)) :
    ¬ InOrder env runner task manifest taskLease proposal spec s v.clockReads := by
  intro horder
  have hdb : w.db = u.db := by rw [hread.2]
  have hstored : s.persistent = true := by rw [← hsame, ← hpersistent, hread.2]
  rw [hdb] at hrefused
  obtain ⟨n, hn, hlt, hno⟩ := hrefused
  obtain ⟨m, hm, hmu, hvalid⟩ := h.held hstored lease hlease
  have hyes := hvalid (env.clock n)
    (horder.lasts (h.needed lease hlease) m n hm (hmu.trans_le (hread.1.trans hn)) hlt)
  simp only [hyes, Bool.not_true, Bool.false_eq_true] at hno

/-- What the manifest expects is there, for an action that does not depend on what is bumped. -/
theorem Unstirred.current (h : Unstirred task taskLease proposal spec s)
    (hbuilt : BuiltFor env manifest task s)
    (hrecorded : ∀ domain ∈ spec.revisionDomains, domain ∈ manifestDomains)
    (hexpected : manifest.expected spec.revisionDomains = .ok expected) {w : WorldModel}
    (hw : Stirred s.world w) : w.assertRevisions (some task.workspaceId) expected = .ok () := by
  have hknown : ∀ domain ∈ spec.revisionDomains,
      ∃ value, manifest.revision? domain = some value := fun domain hdomain =>
    (hbuilt.revision? (hrecorded domain hdomain)).imp (fun _ hvalue => hvalue.1)
  obtain ⟨expected', hexpected', hentries⟩ := ContextManifest.expected_of hknown
  cases hexpected.symm.trans hexpected'
  refine WorldModel.assertRevisions_of (fun entry hentry => ?_)
  obtain ⟨hdomain, hrevision⟩ := hentries entry hentry
  obtain ⟨value, hvalue, hat⟩ := hbuilt.revision? (hrecorded entry.1 hdomain)
  cases hrevision.symm.trans hvalue
  refine hw.atRevision (hrecorded entry.1 hdomain) ?_ ?_ hat
  · rintro heq
    exact h.tasks (heq ▸ hdomain)
  · rintro heq
    exact h.global (heq ▸ hdomain)

/-- And is not, once the task was moved, for one that does: the world is past the revision the
manifest has. -/
theorem stale_of_stirred (hbuilt : BuiltFor env manifest task s)
    (hrecorded : ∀ domain ∈ spec.revisionDomains, domain ∈ manifestDomains)
    (hexpected : manifest.expected spec.revisionDomains = .ok expected) {w : WorldModel}
    (hw : Stirred s.world w) (hlt : s.world.revisions.tasks < w.revisions.tasks)
    (hcurrent : w.assertRevisions (some task.workspaceId) expected = .ok ()) :
    "tasks" ∉ spec.revisionDomains ∧ "global_revision" ∉ spec.revisionDomains := by
  have hstale : ∀ domain, domain = "tasks" ∨ domain = "global_revision" →
      domain ∉ spec.revisionDomains := by
    intro domain hbumped hdomain
    obtain ⟨value, hvalue, hat⟩ := hbuilt.revision? (hrecorded domain hdomain)
    obtain ⟨value', hvalue', hentry⟩ := ContextManifest.mem_expected hexpected domain hdomain
    cases hvalue.symm.trans hvalue'
    exact hw.not_atRevision hlt hbumped hat
      (WorldModel.assertRevisions_eq_ok hcurrent _ hentry)
  exact ⟨hstale _ (Or.inl rfl), hstale _ (Or.inr rfl)⟩

variable (h0 : InOrder env runner task manifest taskLease proposal spec s 0)
  (hbuilt : BuiltFor env manifest task s) (hready : Ready env runner task taskLease spec s u resourceLease)
  (hexpected : manifest.expected spec.revisionDomains = .ok expected)
include h0 hbuilt hready hexpected

/-- The checks of `prepare` pass, or the action depends on what is bumped, or something was not in
order: whichever check it is, it is known which of the three. -/
theorem ends_admitProposal {now : Task} (hnow : u.tasks.get? task.taskId = some now) :
    Ends
      (fun spec' v => spec' = spec ∧ OnlyReads u v ∧
        u.world.assertRevisions (some task.workspaceId) expected = .ok ())
      (fun _ v => OnlyReads u v ∧ (¬ Unstirred task taskLease proposal spec s ∨
        ¬ InOrder env runner task manifest taskLease proposal spec s v.clockReads))
      (admitProposal env now proposal expected taskLease resourceLease) u := by
  have hmoved := hready.moved
  have hid : now.taskId = task.taskId := Table.key_of_get? hnow
  have hworkspace : now.workspaceId = task.workspaceId := (hmoved.stirred_task h0.found hnow).1
  have hstill := frame_onlyReads.refl u
  unfold admitProposal
  rw [hid, hworkspace]
  refine Ends.bind (Ends.get (Ends.bind (ends_liftExcept (fun spec' hspec' => ?_) (fun e he => ?_))))
  · rw [hmoved.registry, h0.resolved] at hspec'
    cases hspec'
    refine Ends.bind (ends_liftExcept (fun _ hcurrent => ?_) (fun e he => ?_))
    · refine Ends.bind (ends_liftExcept (fun _ _ => ?_) (fun e he => ?_))
      · refine Ends.bind ((ends_checkTaskLease h0.own).mono (fun _ v hv => ?_) (fun _ v hv => ?_))
        · refine Ends.bind ((ends_checkResourceLease hready.own).mono (fun _ w hw => ?_)
            (fun _ w hw => ?_))
          · exact Ends.pure ⟨rfl, frame_onlyReads.trans hv hw, hcurrent⟩
          · -- the store no longer holds the resource lease valid
            obtain ⟨hread, hpersistent, lease, hlease, hrefused⟩ := hw
            exact ⟨frame_onlyReads.trans hv hread, Or.inr (hready.toCovers.not_of_refused
              hmoved.persistent hv hpersistent hlease hrefused)⟩
        · -- nor the task lease
          obtain ⟨hread, hpersistent, lease, hlease, hrefused⟩ := hv
          exact ⟨hread, Or.inr (InOrder.not_of_refused hmoved hpersistent hlease hrefused)⟩
      · cases (WorldModel.assertAccessAll_of (h0.granted hmoved.stirred)).symm.trans he
    · -- the revisions are not those of the manifest
      refine ⟨hstill, Or.inl (fun hunstirred => ?_)⟩
      cases he.symm.trans (hunstirred.current hbuilt h0.recorded hexpected hmoved.stirred)
  · rw [hmoved.registry, h0.resolved] at he
    cases he

/-- `prepare` opens the operation, and only for an action that depends on nothing the step bumps. -/
theorem ends_prepare_unstirred {now : Task} (hnow : u.tasks.get? task.taskId = some now) :
    Ends
      (fun operationId v => Unstirred task taskLease proposal spec s ∧ v.operations.get? operationId =
        some (proposal.operation operationId now spec expected taskLease resourceLease))
      (fun fault v => fault = .crash ∨ ¬ Unstirred task taskLease proposal spec s ∨
        ¬ InOrder env runner task manifest taskLease proposal spec s v.clockReads)
      (prepare env task.taskId proposal expected taskLease resourceLease) u := by
  have hmoved := hready.moved
  unfold prepare
  refine Ends.bind (Ends.of_ok (getTask_eq_ok.mpr ⟨hnow, rfl⟩) ?_)
  refine Ends.bind ((ends_admitProposal h0 hbuilt hready hexpected hnow).mono
    (fun spec' v hv => ?_) (fun _ v hv => Or.inr hv.2))
  obtain ⟨rfl, hread, hcurrent⟩ := hv
  have hpersistent : v.persistent = s.persistent := by
    rw [hread.2]
    exact hmoved.persistent
  refine Ends.bind (Ends.of_ok (rfl : newId env "op" v = _) ?_)
  refine Ends.bind (Ends.of_ok (rfl : readClock env _ = _) ?_)
  dsimp only
  split
  · -- the budget is that of the task as it was given, read at this moment
    rename_i reason hreason
    refine Ends.throw (Or.inr (Or.inr (fun horder => ?_)))
    have hunspent := horder.budget v.clockReads (hmoved.clockReads.trans hread.1)
      (Nat.lt_succ_self _)
    rw [(hmoved.stirred_task h0.found hnow).2, hunspent] at hreason
    cases hreason
  · refine Ends.bind ((ends_startOperation_encoded rfl).mono (fun _ w hw => ?_)
      (fun fault w hw => hw.imp_right (fun hnone => Or.inl (fun hunstirred => ?_))))
    · -- the revisions were checked after the task was moved, so neither of the two is among them
      obtain ⟨htasks, hglobal⟩ := stale_of_stirred hbuilt h0.recorded hexpected hmoved.stirred
        hready.bumped hcurrent
      refine Ends.pure ⟨⟨htasks, hglobal, fun hstored => ?_, hready.taken⟩, hw.1⟩
      obtain ⟨row, hrow⟩ := Option.ne_none_iff_exists'.mp (hw.2 (hpersistent.trans hstored))
      exact (Operation.Encodable.of_encoded hrow).arguments
    -- the store refused the row, though the arguments are JSON
    · obtain ⟨hstored, hnone⟩ := hnone
      obtain ⟨items, hitems⟩ := hunstirred.arguments (hpersistent.symm.trans hstored)
      exact (ActionProposal.operation_encodable hitems _ spec').encoded hnone

/-- **Preparing.** From its `try` on a step prepares the operation, or it is one that misses. -/
theorem ends_prepare_ready :
    Ends
      (fun operationId v => Poised env runner task proposal spec expected taskLease resourceLease
        operationId s v)
      (fun fault v => fault = .crash ∨
        s.Missed env runner task manifest taskLease proposal spec v)
      (prepare env task.taskId proposal expected taskLease resourceLease) u := by
  have hmoves := moves_prepare_of_start Allowance.stirring_closed env
    (@Allowance.stirring_touches True False task.taskId) (fun _ => Or.inl trivial)
    (fun _ _ _ => trivial) proposal expected taskLease resourceLease u
  -- what may move before the effect may move after it, too
  have hlater : ∀ v, Moves (.stirring True False) u v → Moves (.stirring True True) s v := by
    intro v huv
    have hsu := hready.moved.mono (Allowance.stirring_le (fun _ => trivial) id)
    exact hsu.trans Allowance.stirring_closed
      (huv.mono (Allowance.stirring_le id (fun _ => trivial)))
  obtain ⟨now, hnow⟩ := hready.moved.present h0.found
  refine ((Ends.of_after hmoves).and
    (ends_prepare_unstirred h0 hbuilt hready hexpected hnow)).mono
    (fun operationId v hv => ?_) (fun fault v hv => ?_)
  · obtain ⟨huv, hunstirred, hopened⟩ := hv
    exact {
      toCovers := hready.toCovers.mono (huv.resourceLeases.resolve_left id).1 huv.clockReads
      moved := hlater v huv
      unstirred := hunstirred
      found := ⟨now, Table.key_of_get? hnow, (hready.moved.stirred_task h0.found hnow).1, hopened⟩ }
  · exact hv.2.imp_right (Sys.Missed.of_stirring (hlater v hv.1))

end

/-! ## Carrying out

The gates of `execute` look at the same things once more, after the operation was prepared.
-/

section

variable {env : Env} {runner : Runner} {task : Task} {manifest : ContextManifest}
  {taskLease : Option TaskLease} {proposal : ActionProposal} {spec : ActionSpec} {s u : Sys}
  {resourceLease : Option ResourceLease} {expected : List (String × Int)} {operationId : String}
  (h0 : InOrder env runner task manifest taskLease proposal spec s 0)
  (hbuilt : BuiltFor env manifest task s)
  (hexpected : manifest.expected spec.revisionDomains = .ok expected)
  (hpoised : Poised env runner task proposal spec expected taskLease resourceLease operationId s u)
include h0 hbuilt hexpected hpoised

/-- The gates of `execute` let the operation pass, or a lease was not in order: what `prepare` has
checked besides is as it was. -/
theorem ends_executeGates_poised :
    Ends (fun _ v => OnlyReads u v)
      (fun _ v => OnlyReads u v ∧
        ¬ InOrder env runner task manifest taskLease proposal spec s v.clockReads)
      (executeGates env operationId) u := by
  obtain ⟨now, hid, hworkspace, hfound⟩ := hpoised.found
  have hmoved := hpoised.moved
  unfold executeGates
  refine Ends.bind (Ends.of_ok (getOperation_eq_ok.mpr ⟨hfound, rfl⟩) ?_)
  dsimp only [ActionProposal.operation]
  rw [hid, hworkspace]
  refine Ends.bind ((ends_recheckLease (fun owner howner => ?_) (fun _ _ => rfl)).mono
    (fun _ v hv => ?_) (fun _ v hv => ?_))
  · obtain ⟨lease, hlease, _⟩ := Option.map_eq_some_iff.mp howner
    exact ⟨lease.generation, by rw [hlease]; rfl⟩
  · refine Ends.bind ((ends_recheckLease (fun owner howner => ?_) (fun _ _ => rfl)).mono
      (fun _ w hw => ?_) (fun _ w hw => ?_))
    · obtain ⟨lease, hlease, _⟩ := Option.map_eq_some_iff.mp howner
      exact ⟨lease.generation, by rw [hlease]; rfl⟩
    · -- both leases hold, and the rest was so when the step began
      have hread := frame_onlyReads.trans hv hw
      have hcapability : proposal.capability ∈ w.capabilities := by
        rw [hread.2]
        show proposal.capability ∈ u.capabilities
        rw [hmoved.capabilities]
        exact h0.capability
      have hworld : w.world = u.world := by rw [hread.2]
      refine Ends.bind (Ends.get ?_)
      rw [if_neg (not_not.mpr hcapability), hworld]
      refine Ends.bind (ends_liftExcept (fun _ _ => ?_) (fun e he => ?_))
      · refine ends_liftExcept (fun _ _ => hread) (fun e he => ?_)
        obtain ⟨locators, hlocators⟩ := WorldModel.resolveLocators_of
          (h0.granted hmoved.stirred)
        cases hlocators.symm.trans he
      · cases he.symm.trans
          (hpoised.unstirred.current hbuilt h0.recorded hexpected hmoved.stirred)
    -- the resource lease was refused, so it was not in order when it was looked at
    · obtain ⟨hread, hpersistent, owner, g, howner, hg, hrefused⟩ := hw
      obtain ⟨lease, hlease, rfl⟩ := Option.map_eq_some_iff.mp howner
      rw [hlease] at hg
      cases hg
      exact ⟨frame_onlyReads.trans hv hread, hpoised.toCovers.not_of_refused hmoved.persistent hv
        hpersistent hlease hrefused⟩
  -- the task lease was
  · obtain ⟨hread, hpersistent, owner, g, howner, hg, hrefused⟩ := hv
    obtain ⟨lease, hlease, rfl⟩ := Option.map_eq_some_iff.mp howner
    rw [hlease] at hg
    cases hg
    exact ⟨hread, InOrder.not_of_refused hmoved hpersistent hlease hrefused⟩

/-- **Carrying out.** An operation that was prepared gets its capability called, or a lease was not in
order. -/
theorem ends_executeOperation_poised :
    Ends (fun _ t => s.Judged env runner task manifest taskLease proposal spec t)
      (fun fault t => fault = .crash ∨
        s.Judged env runner task manifest taskLease proposal spec t)
      (executeOperation env operationId) u := by
  have hmoved := hpoised.moved
  have hnone : u.invocations = s.invocations := hmoved.stirred_invocations
  obtain ⟨now, hid, hworkspace, hfound⟩ := hpoised.found
  unfold executeOperation
  refine Ends.bind ((ends_executeGates_poised h0 hbuilt hexpected hpoised).mono
    (fun locators v hv => ?_) (fun fault v hv => Or.inr (Or.inl ?_)))
  · have hcalled : ∀ t, (∃ i later, t.invocations = v.invocations ++ i :: later ∧
        i.op = (proposal.operation operationId now spec expected taskLease resourceLease).begun) →
        s.Judged env runner task manifest taskLease proposal spec t := by
      rintro t ⟨i, later, hinvocations, hop⟩
      have hvnone : v.invocations = s.invocations := by
        rw [hv.2]
        exact hnone
      refine Or.inr ⟨hpoised.unstirred, i, ?_, ?_⟩
      · rw [hinvocations, hvnone, List.drop_left]
        exact List.mem_cons_self
      · rw [hop]
        exact ⟨rfl, rfl, rfl⟩
    have hget : v.operations.get? operationId =
        some (proposal.operation operationId now spec expected taskLease resourceLease) := by
      rw [hv.2]
      exact hfound
    refine (ends_carryOut_called hget (fun hpersistent => ?_) locators).mono
      (fun _ t ht => hcalled t ht) (fun fault t ht => ht.imp_right (hcalled t))
    have hstored : s.persistent = true := by
      rw [← hmoved.persistent, ← hpersistent, hv.2]
    obtain ⟨items, hitems⟩ := hpoised.unstirred.arguments hstored
    exact ActionProposal.operation_encodable hitems _ spec
  · exact Sys.Missed.of_stirring (hmoved.trans Allowance.stirring_closed hv.1.moves) (Or.inr hv.2)

end

/-! ## The step -/

/-- A crash may leave anything. -/
theorem left_iff {P : Sys → Prop} {fault : Fault} {t : Sys} :
    Left P (fun _ => True) fault t ↔ fault = .crash ∨ P t := by
  cases fault with
  | crash => exact ⟨fun _ => Or.inl rfl, fun _ => trivial⟩
  | raised e => exact ⟨fun h => Or.inr h, fun h => h.resolve_left nofun⟩

section

variable {env : Env} {runner : Runner} {task : Task} {manifest : ContextManifest}
  {taskLease : Option TaskLease} {proposal : ActionProposal} {spec : ActionSpec} {s u : Sys}
  {resourceLease : Option ResourceLease} {expected : List (String × Int)} {operationId : String}

/-- What a step does beside preparing and executing calls nothing. -/
theorem upheld_judged {α : Type} {m : M α} (hm : Within (Moves .taskwork) m) :
    Upheld (s.Judged env runner task manifest taskLease proposal spec) (fun _ => True) m :=
  upheld_of_within hm (fun _ _ hmoves h => h.moves (fun _ => id) hmoves) (fun _ _ => trivial)

/-- A move of the phase stirs the revision of the tasks and the global one, and nothing else that an
action may depend on. -/
theorem within_updateRuntimeState (taskId : String) (state : Option TaskState)
    (phase : Option TaskPhase) (eventType : String) :
    Within (Moves (.stirring False False))
      (updateRuntimeState env taskId state phase eventType "engine") := by
  intro v
  apply moves_updateRuntimeState Allowance.stirring_closed env (Allowance.stirring_touches taskId)
  rintro now -
  refine Or.inr ?_
  rintro _ ⟨⟩
  exact ⟨rfl, rfl⟩

/-- Once a step has begun, its task thinks. -/
theorem ends_thinking (hfound : s.tasks.get? task.taskId = some task) :
    Ends
      (fun _ u => Moves (.stirring False False) s u ∧ u.calls = s.calls ∧
        ∃ now : Task, u.tasks.get? task.taskId = some now ∧ now.phase = .thinking)
      (fun fault _ => fault = .crash)
      (updateRuntimeState env task.taskId (some .running) (some .thinking)
        "task.agent_step_started" "engine") s := by
  refine ((Ends.of_after (within_updateRuntimeState _ _ _ _ s)).and
    (ends_updateRuntimeState hfound _ _ _ _)).mono (fun _ u hu => ?_) (fun _ _ hu => hu.2)
  obtain ⟨hmoves, ⟨rfl, hphase⟩ | hchanged⟩ := hu
  · exact ⟨hmoves, rfl, task, hfound, hphase.symm⟩
  · refine ⟨hmoves, hchanged.calls, (task.updated (some .running) (some .thinking)).touched, ?_, rfl⟩
    rw [hchanged.tasks]
    exact Table.get?_put_self ..

/-- A task that thinks comes to another phase, so the revision of the tasks is bumped. -/
theorem ends_authorizing {now : Task} (hsu : Moves (.stirring False False) s u)
    (hnow : u.tasks.get? task.taskId = some now) (hthinking : now.phase = .thinking) :
    Ends
      (fun _ v => Moves (.stirring False False) s v ∧
        s.world.revisions.tasks < v.world.revisions.tasks)
      (fun fault _ => fault = .crash)
      (updateRuntimeState env task.taskId none (some .authorizing) "task.authorizing" "engine")
      u := by
  refine ((Ends.of_after (within_updateRuntimeState _ _ _ _ u)).and
    (ends_updateRuntimeState hnow _ _ _ _)).mono (fun _ v hv => ?_) (fun _ _ hv => hv.2)
  obtain ⟨hmoves, ⟨-, hphase⟩ | hchanged⟩ := hv
  · rw [hthinking] at hphase
    cases hphase
  · refine ⟨hsu.trans Allowance.stirring_closed hmoves, ?_⟩
    have hle := hsu.stirred.tasks_le
    rw [hchanged.world]
    show s.world.revisions.tasks < u.world.revisions.tasks + 1
    omega

variable (h0 : InOrder env runner task manifest taskLease proposal spec s 0)
  (hbuilt : BuiltFor env manifest task s)
  (hexpected : manifest.expected spec.revisionDomains = .ok expected)
include h0 hbuilt hexpected

/-- A step that has prepared its action carries it out, unless its revisions were stirred. -/
theorem ends_stepExecute_poised
    (hpoised : Poised env runner task proposal spec expected taskLease resourceLease operationId
      s u) :
    Ends (fun _ t => s.Judged env runner task manifest taskLease proposal spec t)
      (Left (s.Judged env runner task manifest taskLease proposal spec) (fun _ => True))
      (stepExecute env task.taskId operationId) u := by
  have hwork := stepWithin_taskwork env task.taskId
  have hF := Moves.frame Allowance.taskwork_closed
  have hmoves := moves_updateRuntimeState Allowance.stirring_closed env
    (@Allowance.stirring_touches True False task.taskId) none (some .executing) "task.executing"
    "engine" (fun _ _ => Or.inl trivial) (s := u)
  obtain ⟨now, hnow⟩ := hpoised.moved.present h0.found
  unfold stepExecute
  refine Ends.bind (((Ends.of_after hmoves).and (ends_updateRuntimeState hnow _ _ _ _)).mono
    (fun _ v hv => ?_) (fun fault v hv => left_iff.mpr (Or.inl hv.2)))
  obtain ⟨huv, hchanged⟩ := hv
  have hoperations : v.operations = u.operations := by
    rcases hchanged with ⟨rfl, -⟩ | hchanged
    · rfl
    · exact hchanged.operations
  have hexecute := ends_executeOperation_poised h0 hbuilt hexpected (hpoised.updated huv hoperations)
  refine Ends.bind_with (fun _ w => s.Judged env runner task manifest taskLease proposal spec w)
    (ends_catching_left (Ends.bind (hexecute.mono (fun _ w hw => Ends.pure hw)
      (fun _ w hw => left_iff.mpr hw))) (fun e w hw => ?_)) (fun executed w hw => ?_)
  · -- a lease lost in `execute`: the task waits
    exact Upholds.bind (upheld_judged (hwork.wait _ _)) (fun _ => Upholds.pure _) w hw
  · split
    · exact upheld_judged (settleStep_within hF hwork operationId) w hw
    · exact Ends.pure hw

/-- The `try` of a step. -/
theorem ends_stepAct_ready (hready : Ready env runner task taskLease spec s u resourceLease) :
    Ends (fun _ t => s.Judged env runner task manifest taskLease proposal spec t)
      (Left (s.Judged env runner task manifest taskLease proposal spec) (fun _ => True))
      (stepAct env task.taskId proposal expected taskLease resourceLease) u := by
  have hwork := stepWithin_taskwork env task.taskId
  have hprepare := ends_prepare_ready h0 hbuilt hready hexpected
  have hwait : ∀ reason eventType v,
      s.Judged env runner task manifest taskLease proposal spec v →
      Ends (fun (prepared : Option String) t => prepared = none ∧
          s.Judged env runner task manifest taskLease proposal spec t)
        (Left (s.Judged env runner task manifest taskLease proposal spec) (fun _ => True))
        (waitTask env task.taskId reason eventType >>= fun _ => pure none) v :=
    fun reason eventType v hv =>
      Ends.bind ((upheld_judged (hwork.wait reason eventType) v hv).mono
        (fun _ _ hw => Ends.pure ⟨rfl, hw⟩) (fun _ _ hw => hw))
  unfold stepAct
  refine Ends.bind_with (fun prepared t =>
      (∃ operationId, prepared = some operationId ∧ Poised env runner task proposal spec expected
        taskLease resourceLease operationId s t) ∨
      (prepared = none ∧ s.Judged env runner task manifest taskLease proposal spec t))
    (ends_catching_left (I := s.Judged env runner task manifest taskLease proposal spec)
      (Ends.bind (hprepare.mono (fun operationId v hv => ?_) (fun _ v hv => ?_)))
      (fun e v hv => ?_)) (fun prepared v hv => ?_)
  · exact Ends.pure (Or.inl ⟨operationId, rfl, hv⟩)
  · exact left_iff.mpr (hv.imp_right Or.inl)
  · -- what `prepare` refused waits, whether for the budget or for a lease
    dsimp only
    split
    · exact (hwait _ _ v hv).mono (fun _ _ hw => Or.inr hw) (fun _ _ hw => hw)
    · exact (hwait _ _ v hv).mono (fun _ _ hw => Or.inr hw) (fun _ _ hw => hw)
  · rcases hv with ⟨operationId, rfl, hpoised⟩ | ⟨rfl, hjudged⟩
    · exact ends_stepExecute_poised h0 hbuilt hexpected hpoised
    · exact Ends.pure hjudged

/-- The part of a step after the policy allowed the action: it has the resources it needs, or there
is no room, no lease or no row for them. -/
theorem ends_stepResources_judged (hmoved : Moves (.stirring False False) s u)
    (hbumped : s.world.revisions.tasks < u.world.revisions.tasks) :
    Ends (fun _ t => s.Judged env runner task manifest taskLease proposal spec t)
      (Left (s.Judged env runner task manifest taskLease proposal spec) (fun _ => True))
      (stepResources env runner task.taskId spec proposal expected taskLease) u := by
  have hwork := stepWithin_taskwork env task.taskId
  have hF := Moves.frame Allowance.taskwork_closed
  have hacquiring : Moves (.stirring False True) s u :=
    hmoved.mono (Allowance.stirring_le id (fun _ => trivial))
  unfold stepResources
  refine Ends.bind (Ends.get ?_)
  split
  · -- no resource is needed, so there is no lease to cover
    rename_i hneedless
    refine ends_stepAct_ready h0 hbuilt hexpected
      ⟨⟨nofun, nofun, fun _ => nofun⟩, fun hneeds => ?_, hacquiring, hbumped⟩
    cases hneedless.symm.trans hneeds
  rename_i hneeds
  have hneeds : spec.resourceRequest.empty = false := Bool.eq_false_iff.mpr hneeds
  obtain ⟨lease, broker, rfl, hbroker, htask, howner, hseconds, hfits, hstored⟩ :=
    h0.resources hneeds
  obtain ⟨hleases, hsame⟩ := hmoved.resourceLeases.resolve_left id
  rw [hsame, hbroker]
  dsimp only
  have hacquires := moves_acquireResources (A := .stirring False True) Allowance.stirring_closed env
    trivial broker task.taskId lease.ownerId spec.resourceRequest runner.resourceLeaseSeconds u
  by_cases htaken : s.TakesRequest task (some lease) spec
  swap
  · -- the store refuses the row, so there is no lease, whether for that or for want of room
    have hmissed : ∀ v, Moves (.stirring False True) u v →
        s.Judged env runner task manifest (some lease) proposal spec v := fun v huv =>
      Or.inl ⟨(hacquiring.trans Allowance.stirring_closed huv).stirred_invocations,
        Or.inl (fun hunstirred => htaken hunstirred.request)⟩
    refine Ends.bind (((Ends.of_after hacquires).and (ends_acquire_unbindable ?_)).mono
      (fun acquired v hv => ?_) (fun fault v hv => left_iff.mpr (Or.inr (hmissed v hv.1))))
    · intro hbindable
      refine htaken (fun _ broker' lease' hbroker' hpersistent hlease' => ?_)
      cases hbroker.symm.trans hbroker'
      cases hlease'
      exact hbindable hpersistent
    · rw [hv.2]
      exact upheld_judged (hwork.wait _ _) v (hmissed v hv.1)
  refine Ends.bind (((Ends.of_after hacquires).and (ends_acquire_room htask howner hseconds hfits
    (fun hpersistent => htaken hneeds broker lease hbroker hpersistent rfl))).mono
    (fun acquired v hv => ?_) (fun fault v hv => left_iff.mpr (Or.inl hv.2)))
  obtain ⟨huv, hread, hrefused, hgiven⟩ := hv
  have hsv := hacquiring.trans Allowance.stirring_closed huv
  cases acquired with
  | none =>
      -- there was no room at this reading of the clock
      refine upheld_judged (hwork.wait _ _) v (Or.inl ?_)
      refine ⟨hsv.stirred_invocations, Or.inr (fun horder => hrefused rfl ?_)⟩
      rw [Sys.hasRoom_congr hleases]
      exact horder.room hneeds broker hbroker u.clockReads hmoved.clockReads hread
  | some resourceLease =>
      obtain ⟨hown, hvalid⟩ := hgiven resourceLease rfl
      have hready : Ready env runner task (some lease) spec s v (some resourceLease) :=
        { needed := fun _ _ => hneeds
          own := by
            rintro _ ⟨⟩
            exact hown
          held := by
            rintro hpersistent _ ⟨⟩
            exact ⟨u.clockReads, hmoved.clockReads, hread, hvalid (hstored hpersistent)⟩
          taken := htaken
          moved := hsv
          bumped := hbumped.trans_le huv.stirred.tasks_le }
      -- the release in `finally` calls nothing
      refine Upholds.ensuring_at (ends_stepAct_ready h0 hbuilt hexpected hready) (upheld_judged ?_)
      refine hF.bind hF.get (fun w => ?_)
      split
      · exact hF.pure _
      · exact hF.bind (hwork.release _ _) (fun _ => hF.pure _)

omit hexpected in
/-- The part of a step that asks the model and consults the policy. -/
theorem ends_stepModel_judged :
    Ends (fun _ t => s.Judged env runner task manifest taskLease proposal spec t)
      (Left (s.Judged env runner task manifest taskLease proposal spec) (fun _ => True))
      (stepModel env runner task.taskId manifest taskLease) s := by
  obtain ⟨expected, hexpected, -⟩ := ContextManifest.expected_of (fun domain hdomain =>
    (hbuilt.revision? (h0.recorded domain hdomain)).imp (fun _ hvalue => hvalue.1))
  unfold stepModel
  refine Ends.bind ((ends_thinking h0.found).mono (fun _ u hu => ?_)
    (fun _ _ hcrash => left_iff.mpr (Or.inl hcrash)))
  -- the model, the registry and the policy answer as `InOrder` says
  obtain ⟨hsu, hcalls, now, hnow, hthinking⟩ := hu
  have hregistry : u.registry = s.registry := hsu.registry
  refine Ends.bind (ends_callOut (fun proposal' hproposed => ?_) (fun e he => ?_))
  · rw [hcalls, h0.proposed] at hproposed
    cases hproposed
    refine Ends.bind (Ends.get (Ends.bind (ends_liftExcept (fun spec' hspec => ?_)
      (fun e he => ?_))))
    · rw [hregistry, h0.resolved] at hspec
      cases hspec
      refine Ends.bind (ends_liftExcept (fun expected' hexpected' => ?_) (fun e he => ?_))
      · cases hexpected.symm.trans hexpected'
        have hasked : Moves (.stirring False False) s { u with calls := u.calls + 1 } :=
          hsu.trans Allowance.stirring_closed { Moves.refl with }
        refine Ends.bind ((ends_authorizing hasked hnow hthinking).mono (fun _ v hv => ?_)
          (fun _ _ hcrash => left_iff.mpr (Or.inl hcrash)))
        obtain ⟨hsv, hbumped⟩ := hv
        obtain ⟨later, hlater⟩ := hsv.present h0.found
        refine Ends.bind (Ends.of_ok (getTask_eq_ok.mpr ⟨hlater, rfl⟩) ?_)
        rw [(hsv.stirred_task h0.found hlater).1, h0.allowed]
        exact ends_stepResources_judged h0 hbuilt hexpected hsv hbumped
      · cases hexpected.symm.trans he
    · rw [hregistry, h0.resolved] at he
      cases he
  · rw [hcalls, h0.proposed] at he
    cases he

omit hexpected in
/-- So every end of a step is judged: it reached the effect and nothing was stirred, or it missed it
and something was. -/
theorem ends_step_judged :
    Ends (fun _ t => s.Judged env runner task manifest taskLease proposal spec t)
      (Left (s.Judged env runner task manifest taskLease proposal spec) (fun _ => True))
      (step env runner task.taskId manifest taskLease) s := by
  unfold step
  refine Ends.bind (Ends.of_ok (getTask_eq_ok.mpr ⟨h0.found, rfl⟩) (Ends.bind (Ends.get ?_)))
  rw [if_neg (not_not.mpr hbuilt.workspaceId), if_neg, if_neg, if_neg h0.wanted]
  · exact ends_stepModel_judged h0 hbuilt
  · rw [Bool.and_eq_true]
    rintro ⟨hrequired, hnone⟩
    rw [Option.isNone_iff_eq_none] at hnone
    have hsome := h0.required hrequired
    rw [hnone] at hsome
    cases hsome
  · rw [Option.any_eq_true]
    rintro ⟨lease, hlease, hforeign⟩
    exact of_decide_eq_true hforeign (h0.own lease hlease)

end

/-- **A step and its own manifest.** Where everything else is in order up to the effect, the
capability is called if and only if the action depends neither on the revision of the tasks nor on
the global one, and its arguments and the row of its resource lease can be stored.  The writers of
tasks, operations and events refuse nothing here, so that SQLite takes their rows is asked of the
step. -/
theorem step_reaches_iff {env : Env} {runner : Runner} {task : Task} {manifest : ContextManifest}
    {taskLease : Option TaskLease} {proposal : ActionProposal} {spec : ActionSpec} {s t : Sys}
    (hended : EndedIn (step env runner task.taskId manifest taskLease) s t)
    (hbuilt : BuiltFor env manifest task s)
    (_hstorable : s.persistent = true → StorableStep env task taskLease spec)
    (horder : InOrder env runner task manifest taskLease proposal spec s (s.readsToEffect t)) :
    s.Reaches t proposal ↔ Unstirred task taskLease proposal spec s := by
  have hends := ends_step_judged (horder.mono (Nat.zero_le _)) hbuilt
  have hjudged : s.Judged env runner task manifest taskLease proposal spec t :=
    EndedIn.of_ends (hends.mono (fun _ _ h => h) (fun _ _ h => left_iff.mp h)) hended
  rcases hjudged with ⟨hnone, hwhy⟩ | ⟨hunstirred, hreaches⟩
  · -- without an effect the readings up to it are all there were
    have hdrop : t.invocations.drop s.invocations.length = [] := by rw [hnone, List.drop_length]
    have hreads : s.readsToEffect t = t.clockReads := by
      unfold Sys.readsToEffect
      rw [hdrop]
    rw [hreads] at horder
    refine ⟨fun hreaches => ?_, fun hunstirred => ?_⟩
    · obtain ⟨i, hi, -⟩ := hreaches
      rw [hdrop] at hi
      cases hi
    · rcases hwhy with hwhy | hwhy
      · exact absurd hunstirred hwhy
      · exact absurd horder hwhy
  · exact ⟨fun _ => hunstirred, fun _ => hreaches⟩

/-! ## A small step -/

namespace Small

/-- The task is claimed, and the one action there is depends on these domains. -/
def depending (domains : List String) : Sys :=
  { claimedSmall with registry := Table.empty.put { spec with revisionDomains := domains } }

/-- The manifest that is built there. -/
def freshManifest : ContextManifest where
  manifestId := env.newId "ctx" 0
  taskId := "t"
  workspaceId := "w"
  worldRevisions := claimedSmall.world.manifestRevisions "w"
  successCriteria := task.successCriteria

/-- The engine once it was built, from which the step starts. -/
def manifested (domains : List String) : Sys := { depending domains with ids := 1 }

/-- The manifest of the example is the one that is built for its task. -/
theorem manifested_builtFor (domains : List String) :
    BuiltFor env freshManifest task (manifested domains) :=
  ⟨{}, [], [], [], [], (none, none), none, [], { depending domains with ids := 0 }, rfl⟩

/-- All else is in order in the example. -/
theorem manifested_inOrder {domains : List String}
    (hdomains : ∀ domain ∈ domains, domain ∈ manifestDomains) (limit : ℕ) :
    InOrder env runner task freshManifest (some lease) proposal
      { spec with revisionDomains := domains } (manifested domains) limit where
  found := rfl
  wanted := by decide
  proposed := rfl
  resolved := by
    have hvalid : spec.validate env.py proposal = .ok () := by decide +kernel
    exact CapabilityRegistry.resolve_eq_ok.mpr ⟨rfl, hvalid⟩
  recorded := hdomains
  allowed := by
    have hallowed : runner.policy.evaluate "w" "editor" "open" .read = .allow := by decide +kernel
    exact hallowed
  capability := List.mem_cons_self
  objects := by
    intro ref href
    cases List.mem_singleton.mp href
    have hpermission : "read" ∈ document.permissions := by decide
    exact ⟨document, rfl, rfl, rfl, hpermission⟩
  required := fun _ => rfl
  own := by
    rintro _ ⟨⟩
    rfl
  resources := by
    intro hneeds
    cases hneeds
  budget := fun _ _ _ => rfl
  leased := by
    rintro - _ ⟨⟩ n - -
    have hvalid : claimedSmall.db.validateTaskLeaseIdentity "t" "worker" 1 1 = true := by
      decide +kernel
    exact hvalid
  room := by
    intro hneeds
    cases hneeds
  lasts := by
    intro hneeds
    cases hneeds

/-- And its rows can be stored. -/
theorem manifested_storable (domains : List String) :
    StorableStep env task (some lease) { spec with revisionDomains := domains } where
  identifiers := encodable_tallyId
  task := by decide
  lease := by
    rintro _ ⟨⟩
    decide
  spec := by
    have htexts : Bindable [.text "editor", .text "open", .text "read"] := by decide
    exact htexts

end Small

/-- An action on the workspace is carried out. -/
theorem step_reaches_small :
    ∃ t, EndedIn (step Small.env Small.runner "t" Small.freshManifest (some Small.lease))
        (Small.manifested ["workspace"]) t ∧
      (Small.manifested ["workspace"]).Reaches t Small.proposal := by
  obtain ⟨t, hstep⟩ := returns_eq_some.mp (show returns
    (step Small.env Small.runner "t" Small.freshManifest (some Small.lease))
    (Small.manifested ["workspace"]) = some () by decide +kernel)
  have hended : EndedIn (step Small.env Small.runner Small.task.taskId Small.freshManifest
      (some Small.lease)) (Small.manifested ["workspace"]) t := Or.inl ⟨(), hstep⟩
  refine ⟨t, hended, (step_reaches_iff hended (Small.manifested_builtFor _)
    (fun _ => Small.manifested_storable _) (Small.manifested_inOrder (by decide) _)).mpr ?_⟩
  exact ⟨by decide, by decide, fun _ => ⟨[], rfl⟩, nofun⟩

/-- The world was found stale, and nothing invoked. -/
def Small.turnedStale : EStateM.Result Fault Sys Unit → Bool
  | .error (.raised e) t => decide (e.kind = .staleWorld) && t.invocations.isEmpty
  | _ => false

/-- An action that depends on the tasks is not: with a manifest that was just built, and everything
in order as long as one likes, `prepare` raises that the world is stale. -/
theorem step_reaches_fails :
    "tasks" ∈ manifestDomains ∧
      BuiltFor Small.env Small.freshManifest Small.task (Small.manifested ["tasks"]) ∧
      (∀ limit, InOrder Small.env Small.runner Small.task Small.freshManifest (some Small.lease)
        Small.proposal { Small.spec with revisionDomains := ["tasks"] } (Small.manifested ["tasks"])
        limit) ∧
      ∃ e t, step Small.env Small.runner "t" Small.freshManifest (some Small.lease)
          (Small.manifested ["tasks"]) = .error (.raised e) t ∧
        e.kind = .staleWorld ∧ ¬ (Small.manifested ["tasks"]).Reaches t Small.proposal := by
  refine ⟨by decide, Small.manifested_builtFor _, Small.manifested_inOrder (by decide), ?_⟩
  have hstale : Small.turnedStale (step Small.env Small.runner "t" Small.freshManifest
      (some Small.lease) (Small.manifested ["tasks"])) = true := by
    decide +kernel
  cases hrun : step Small.env Small.runner "t" Small.freshManifest (some Small.lease)
      (Small.manifested ["tasks"]) with
  | ok a t =>
      rw [hrun] at hstale
      cases hstale
  | error fault t =>
      rw [hrun] at hstale
      cases fault with
      | crash => cases hstale
      | raised e =>
          rw [Small.turnedStale, Bool.and_eq_true, decide_eq_true_eq, List.isEmpty_iff] at hstale
          refine ⟨e, t, rfl, hstale.1, ?_⟩
          rintro ⟨i, hi, -⟩
          rw [hstale.2, List.drop_nil] at hi
          cases hi

end LiandanluNative
