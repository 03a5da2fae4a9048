/-
# LiandanluNative.Safety.Mediation — no side effect without all of its checks.

The checks on a proposal are spread over `step`, `prepare` and `execute`, and the state moves
between them.  `Mediated` collects what they add up to at the one place that counts, the call of the
capability: it speaks of the call as it was made (`Invocation`), the state it was made in, and the
state the step began in.  `step_mediated` is that every call a step makes is so.

The path of a step to a call is cut at the states in which something is decided (`CallPath`).  What
is found at one of them has to be carried to the call: the workspace and the budget of the task,
which nothing before the call changes; the world, which only has its task counter bumped, so that
the revisions and grants of the gates are those at the call; and the readings of the clock, which
are in the order of the path.
-/
import LiandanluNative.Safety.WriteAhead

namespace LiandanluNative

open Lib (Table)
open Lib.Proc Lib.WriteThrough

/-- Some reading of the clock during the step, before the call, passed the check.  By the time of
the call it may fail: a lease can run out between the check and the effect. -/
def PassedBefore (env : Env) (s : Sys) (i : Invocation) (check : ℚ → Bool) : Prop :=
  ∃ n, s.clockReads ≤ n ∧ n < i.clockReads ∧ check (env.clock n) = true

/-- What stands behind a call of a capability in a step that began in `s` with the task `task`. -/
structure Mediated (env : Env) (runner : Runner) (taskId : String) (manifest : ContextManifest)
    (taskLease : Option TaskLease) (s : Sys) (task : Task) (proposal : ActionProposal)
    (spec : ActionSpec) (i : Invocation) : Prop where
  /-- The model proposed it, and the call carries the proposal out. -/
  proposed : ∃ n, env.nextAction n manifest = .ok proposal
  carries : i.op.taskId = taskId ∧ i.op.workspaceId = task.workspaceId ∧
    i.op.capability = proposal.capability ∧ i.op.action = proposal.action ∧
    i.op.objectRefs = proposal.objectRefs ∧ i.op.arguments = proposal.arguments
  /-- The proposal resolves to a registered action and passes its `validate`. -/
  registered : s.registry.get? (proposal.capability, proposal.action) = some spec
  valid : spec.validate env.py proposal = .ok ()
  /-- The policy allows it, at the risk class of the registered action. -/
  allowed : runner.policy.evaluate task.workspaceId proposal.capability proposal.action
    spec.riskClass = .allow
  /-- The locators are those of active entities of the workspace that grant the permission. -/
  granted : List.Forall₂ (fun ref locator => ∃ entity,
    i.world.Grants task.workspaceId spec.requiredPermission ref entity ∧
      locator = entity.locator) proposal.objectRefs i.locators
  /-- The world stands at the manifest's revision in each domain the action depends on. -/
  current : ∀ domain ∈ spec.revisionDomains, ∃ value, manifest.revision? domain = some value ∧
    i.world.AtRevision task.workspaceId domain value
  /-- The budget was open, and the operation was counted, in memory and in the store. -/
  open_ : PassedBefore env s i (fun at_ => (task.budget.blockReason at_).isNone)
  counted : ∃ t, i.tasks.get? taskId = some t ∧ t.budget =
    { task.budget with operationsStarted := task.budget.operationsStarted + 1 }
  stored : ∃ row, i.db.tasks.get? taskId = some row ∧ row.budget =
    { task.budget with operationsStarted := task.budget.operationsStarted + 1 }
  /-- The supplied task lease passed the store's identity check, … -/
  leased : ∃ lease, taskLease = some lease ∧ lease.taskId = taskId ∧
    PassedBefore env s i (i.db.validateTaskLeaseIdentity taskId lease.ownerId lease.generation)
  /-- … and so did the resource lease of the operation, where the action needs resources. -/
  resourced : spec.resourceRequest.empty = false → ∃ ownerId generation,
    i.op.resourceLeaseOwnerId = some ownerId ∧ i.op.resourceLeaseGeneration = some generation ∧
    PassedBefore env s i (i.db.validateResourceLeaseIdentity taskId ownerId generation)

/-! ## Up to `prepare` -/

/-- Tasks keep their workspace and budget, operations are left alone, and nothing is called: all
that happens before `prepare`, and between it and `execute`. -/
def Allowance.beforeActing : Allowance :=
  { Allowance.free with
    task := fun _ m t => ∀ old, m = some old →
      t.workspaceId = old.workspaceId ∧ t.budget = old.budget
    operation := fun _ _ _ => False
    invoke := fun _ => False }

/-- Two stretches of it are one. -/
theorem Allowance.beforeActing_closed : Allowance.beforeActing.Closed where
  task := by
    rintro id m v w hmv hvw old hm
    obtain ⟨hw, hb⟩ := hmv old hm
    obtain ⟨hw', hb'⟩ := hvw v rfl
    exact ⟨hw'.trans hw, hb'.trans hb⟩
  operation := fun _ _ _ _ h _ => h
  world := fun _ _ _ _ _ => trivial

/-- The calls of a step around `prepare` and `execute` are within it. -/
theorem stepWithin_beforeActing (env : Env) (taskId : String) :
    StepWithin (Moves .beforeActing) env taskId := by
  refine stepWithin_moves Allowance.beforeActing_closed env ⟨?_, ?_, fun _ => trivial⟩ ?_ ?_ ?_
    trivial
  · rintro t _ ⟨⟩
    exact ⟨rfl, rfl⟩
  · rintro t _ ⟨⟩
    exact ⟨rfl, rfl⟩
  · rintro t reason _ ⟨⟩
    exact ⟨rfl, rfl⟩
  · rintro t state phase _ _ ⟨⟩
    exact ⟨rfl, rfl⟩
  · rintro t _ ⟨⟩
    unfold Task.settled
    split
    · exact ⟨rfl, rfl⟩
    · split <;> exact ⟨rfl, rfl⟩

/-- Anything may happen, but only the named calls may be made. -/
def Allowance.calling (P : Invocation → Prop) : Allowance := { Allowance.free with invoke := P }

/-- What may be called is no matter of how often. -/
theorem Allowance.calling_closed (P : Invocation → Prop) : (Allowance.calling P).Closed where
  task := fun _ _ _ _ _ _ => trivial
  operation := fun _ _ _ _ _ _ => trivial
  world := fun _ _ _ _ _ => trivial

/-- Where nothing is called, only the named calls are. -/
theorem Allowance.beforeActing_le (P : Invocation → Prop) :
    Allowance.beforeActing.Le (.calling P) where
  task := fun _ _ _ _ => trivial
  operation := fun _ _ _ _ => trivial
  world := fun _ _ _ => trivial
  resources := fun _ => trivial
  leases := fun _ => trivial
  invoke := fun _ h => h.elim

section

variable {env : Env} {s t : Sys} {taskId : String}

/-- Before acting a step leaves the workspace and the budget of its task as they were. -/
theorem kept_beforeActing (h : Moves .beforeActing s t) {task task' : Task}
    (hs : s.tasks.get? taskId = some task) (ht : t.tasks.get? taskId = some task') :
    task'.workspaceId = task.workspaceId ∧ task'.budget = task.budget := by
  rcases (h.tasks taskId).memory with hm | ⟨v, hv, hmay⟩
  · rw [ht, hs] at hm
    cases hm
    exact ⟨rfl, rfl⟩
  · rw [ht] at hv
    cases hv
    exact hmay task hs

/-- Every domain the action depends on is expected at the manifest's revision. -/
theorem ContextManifest.mem_expected {manifest : ContextManifest} :
    ∀ {domains : List String} {expected : List (String × Int)},
      manifest.expected domains = .ok expected →
      ∀ domain ∈ domains, ∃ value, manifest.revision? domain = some value ∧ (domain, value) ∈ expected
  | [], _, _ => fun domain hdomain => absurd hdomain List.not_mem_nil
  | d :: domains, expected, h => by
      rw [ContextManifest.expected] at h
      cases hvalue : manifest.revision? d with
      | none =>
          rw [hvalue] at h
          cases h
      | some value =>
          rw [hvalue] at h
          dsimp only at h
          cases hrest : manifest.expected domains with
          | error e =>
              rw [hrest] at h
              cases h
          | ok rest =>
              rw [hrest] at h
              cases h
              intro domain hdomain
              rcases List.mem_cons.mp hdomain with rfl | hdomain
              · exact ⟨value, hvalue, List.mem_cons_self⟩
              · obtain ⟨v, hv, hmem⟩ := mem_expected hrest domain hdomain
                exact ⟨v, hv, List.mem_cons_of_mem _ hmem⟩

/-! ## At the call

What is known of the operation when its capability is called, collected along the step: each check
adds what it has found, and says at which reading of the clock.
-/

/-- The identity check reads the table of the leases and nothing else, … -/
theorem validateTaskLeaseIdentity_congr {db db' : Database} (h : db'.taskLeases = db.taskLeases) :
    db'.validateTaskLeaseIdentity = db.validateTaskLeaseIdentity := by
  unfold Database.validateTaskLeaseIdentity
  rw [h]

/-- … for the leases of resources as well. -/
theorem validateResourceLeaseIdentity_congr {db db' : Database}
    (h : db'.resourceLeases = db.resourceLeases) :
    db'.validateResourceLeaseIdentity = db.validateResourceLeaseIdentity := by
  unfold Database.validateResourceLeaseIdentity
  rw [h]

/-- A check on the path is one during the step, before the call. -/
theorem CheckedBetween.passedBefore {s' t' : Sys} {i : Invocation} {check : ℚ → Bool}
    (h : CheckedBetween env s' t' check) (hs : s.clockReads ≤ s'.clockReads)
    (hi : t'.clockReads ≤ i.clockReads) : PassedBefore env s i check := by
  obtain ⟨n, hn, hnt, hcheck⟩ := h
  exact ⟨n, hs.trans hn, hnt.trans_le hi, hcheck⟩

/-- The states a step passes on its way from its start `s` to a call of a capability: `prepare` runs
from `v` to `t`, the gates of `execute` from `u` to `x`, and the call is made in `w`. -/
structure CallPath (env : Env) (runner : Runner) (taskId : String) (manifest : ContextManifest)
    (taskLease : Option TaskLease) (resourceLease : Option ResourceLease) (task : Task)
    (proposal : ActionProposal) (spec : ActionSpec) (expectedRevisions : List (String × Int))
    (operationId : String) (op : Operation) (locators : List String) (s v t u x w : Sys) : Prop where
  store : s.persistent = true
  found : s.tasks.get? taskId = some task
  authorized : Authorized (Moves .beforeActing) env runner taskId manifest taskLease proposal spec
    expectedRevisions resourceLease s v
  prepared : prepare env taskId proposal expectedRevisions taskLease resourceLease v
    = .ok operationId t
  between : Moves .beforeActing t u
  operation : u.operations.get? operationId = some op
  passed : PassedGates env op locators u x
  begun : Begun x op w

namespace CallPath

variable {runner : Runner} {manifest : ContextManifest} {taskLease : Option TaskLease}
  {resourceLease : Option ResourceLease} {task : Task} {proposal : ActionProposal}
  {spec : ActionSpec} {expectedRevisions : List (String × Int)} {operationId : String}
  {op : Operation} {locators : List String} {v u x w : Sys}
  (h : CallPath env runner taskId manifest taskLease resourceLease task proposal spec
    expectedRevisions operationId op locators s v t u x w)
include h

theorem preparing : Moves .free v t :=
  (moves_prepare Allowance.free_closed env (Allowance.free_works _) (fun _ _ _ => trivial) _ _ _
    _).of_ok h.prepared

/-- `prepare` found the workspace, the budget and the action of the step. -/
theorem facts : ∃ task', task'.taskId = taskId ∧ task'.workspaceId = task.workspaceId ∧
    task'.budget = task.budget ∧
    Prepared env taskId proposal expectedRevisions taskLease resourceLease operationId task' spec
      v t := by
  obtain ⟨task', spec', hp⟩ := prepare_eq_ok h.prepared
  obtain ⟨hworkspace, hbudget⟩ := kept_beforeActing h.authorized.reached h.found hp.found
  have hspec : spec' = spec := by
    obtain ⟨a, ha, hresolved⟩ := h.authorized.resolved
    have hsame := hp.resolved
    rw [h.authorized.reached.registry, ← ha.registry, hresolved] at hsame
    exact (Except.ok.inj hsame).symm
  exact ⟨task', Table.key_of_get? hp.found, hworkspace, hbudget, hspec ▸ hp⟩

theorem reads : x = { u with clockReads := x.clockReads } := h.passed.reads.2

theorem persistent : u.persistent = true := by
  rw [h.between.persistent, h.preparing.persistent, h.authorized.reached.persistent]
  exact h.store

/-- The readings of the clock are in the order of the path. -/
theorem clock : s.clockReads ≤ v.clockReads ∧ v.clockReads ≤ t.clockReads ∧
    t.clockReads ≤ u.clockReads ∧ u.clockReads ≤ x.clockReads ∧ x.clockReads ≤ w.clockReads :=
  ⟨h.authorized.reached.clockReads, h.preparing.clockReads, h.between.clockReads,
    h.passed.reads.1, h.begun.moves.clockReads⟩

/-- What the gates have seen of the world is so at the call. -/
theorem world : w.world = u.world := by
  rw [h.begun.world, h.reads]

/-- `prepare` resolved the proposal in the registry of the step. -/
theorem registered : s.registry.get? (proposal.capability, proposal.action) = some spec ∧
    spec.validate env.py proposal = .ok () := by
  obtain ⟨a, ha, hresolved⟩ := h.authorized.resolved
  rw [ha.registry] at hresolved
  exact CapabilityRegistry.resolve_eq_ok.mp hresolved

/-- The policy was asked about the task's workspace and the spec's risk class. -/
theorem allowed : runner.policy.evaluate task.workspaceId proposal.capability proposal.action
    spec.riskClass = .allow := by
  obtain ⟨a, task', ha, htask', hallow⟩ := h.authorized.allowed
  rw [← (kept_beforeActing ha h.found htask').1]
  exact hallow

/-- The operation at the gates is the one `prepare` made of the proposal. -/
theorem made : ∃ task', task'.taskId = taskId ∧ task'.workspaceId = task.workspaceId ∧
    op = proposal.operation operationId task' spec expectedRevisions taskLease resourceLease := by
  obtain ⟨task', hid, hworkspace, _, hp⟩ := h.facts
  refine ⟨task', hid, hworkspace, ?_⟩
  have hop := h.operation
  rw [((h.between.operations operationId).still (fun _ hno => hno)).1, hp.operation] at hop
  exact (Option.some.inj hop).symm

/-- The gates of `execute` have resolved each object reference, in the world of the call. -/
theorem granted : List.Forall₂ (fun ref locator => ∃ entity,
    w.world.Grants task.workspaceId spec.requiredPermission ref entity ∧
      locator = entity.locator) proposal.objectRefs locators := by
  obtain ⟨task', _, hworkspace, hop⟩ := h.made
  have hlocators := h.passed.locators
  rw [hop] at hlocators
  rw [h.world, ← hworkspace]
  exact WorldModel.resolveLocators_eq_ok hlocators

/-- They have compared the revisions, too, with those the manifest gave the operation. -/
theorem current : ∀ domain ∈ spec.revisionDomains, ∃ value,
    manifest.revision? domain = some value ∧ w.world.AtRevision task.workspaceId domain value := by
  obtain ⟨task', _, hworkspace, hop⟩ := h.made
  have hrevisions := h.passed.revisions
  rw [hop] at hrevisions
  rw [h.world, ← hworkspace]
  intro domain hdomain
  obtain ⟨value, hvalue, hmem⟩ :=
    ContextManifest.mem_expected h.authorized.expected domain hdomain
  exact ⟨value, hvalue, WorldModel.assertRevisions_eq_ok hrevisions _ hmem⟩

/-- The count `prepare` added is still there at the call, in memory and in the store. -/
theorem counted :
    (∃ t, w.tasks.get? taskId = some t ∧ t.budget =
      { task.budget with operationsStarted := task.budget.operationsStarted + 1 }) ∧
    ∃ row, w.db.tasks.get? taskId = some row ∧ row.budget =
      { task.budget with operationsStarted := task.budget.operationsStarted + 1 } := by
  obtain ⟨task', _, _, hbudget, hp⟩ := h.facts
  obtain ⟨hmemory, hrow⟩ := h.begun.task taskId
  have hstarted : task'.started.budget =
      { task.budget with operationsStarted := task.budget.operationsStarted + 1 } := by
    rw [← hbudget]
    rfl
  have hkeep : ∀ a b : Task, a.budget =
        { task.budget with operationsStarted := task.budget.operationsStarted + 1 } →
      Allowance.beforeActing.task taskId (some a) b → b.budget =
        { task.budget with operationsStarted := task.budget.operationsStarted + 1 } :=
    fun a b ha hab => (hab a rfl).2.trans ha
  have hpersistent : v.persistent = true := by
    rw [h.authorized.reached.persistent]
    exact h.store
  rw [hmemory, hrow, h.reads]
  constructor
  · exact (h.between.tasks taskId).keeps_memory hkeep ⟨_, hp.started, hstarted⟩
  · refine (h.between.tasks taskId).keeps_durable hkeep ?_ ⟨_, hp.started, hstarted⟩
      ⟨_, hp.stored hpersistent, hstarted⟩
    rintro a b ha rfl
    exact ha

/-- `prepare` asked the budget of the task. -/
theorem opened : PassedBefore env s (w.invocation op.begun locators)
    (fun at_ => (task.budget.blockReason at_).isNone) := by
  obtain ⟨task', _, _, hbudget, hp⟩ := h.facts
  obtain ⟨hsv, _, htu, hux, hxw⟩ := h.clock
  rw [← hbudget]
  exact hp.admitted.passedBefore hsv (htu.trans (hux.trans hxw))

/-- The store was asked about the task lease, which an engine on a store requires by default. -/
theorem leased (hdefault : runner.requireTaskLease = none) :
    ∃ lease, taskLease = some lease ∧ lease.taskId = taskId ∧
      PassedBefore env s (w.invocation op.begun locators)
        (w.db.validateTaskLeaseIdentity taskId lease.ownerId lease.generation) := by
  have hsome := h.authorized.leased (by rw [hdefault]; exact h.store)
  obtain ⟨lease, hlease⟩ := Option.isSome_iff_exists.mp hsome
  obtain ⟨_, _, _, _, hp⟩ := h.facts
  obtain ⟨task', hid, _, hop⟩ := h.made
  refine ⟨lease, hlease, (hp.lease lease hlease).1, ?_⟩
  have howner : op.taskLeaseOwnerId = some lease.ownerId := by
    rw [hop, hlease]
    rfl
  obtain ⟨g, hg, hchecked⟩ := h.passed.taskLease h.persistent lease.ownerId howner
  have hgeneration : g = lease.generation := by
    rw [hop, hlease] at hg
    exact (Option.some.inj hg).symm
  have hopTask : op.taskId = taskId := by
    rw [hop]
    exact hid
  obtain ⟨hsv, hvt, htu, _, hxw⟩ := h.clock
  rw [hgeneration, hopTask] at hchecked
  have hleases : w.db.taskLeases = u.db.taskLeases := by
    rw [h.begun.taskLeases, h.reads]
  rw [validateTaskLeaseIdentity_congr hleases]
  exact hchecked.passedBefore (hsv.trans (hvt.trans htu)) hxw

/-- An action that needs resources has acquired a lease, and the gates asked about it. -/
theorem resourced (hneeds : spec.resourceRequest.empty = false) : ∃ ownerId generation,
    op.resourceLeaseOwnerId = some ownerId ∧ op.resourceLeaseGeneration = some generation ∧
    PassedBefore env s (w.invocation op.begun locators)
      (w.db.validateResourceLeaseIdentity taskId ownerId generation) := by
  obtain ⟨lease, hlease⟩ := Option.isSome_iff_exists.mp (h.authorized.resources hneeds)
  obtain ⟨task', hid, _, hop⟩ := h.made
  have howner : op.resourceLeaseOwnerId = some lease.ownerId := by
    rw [hop, hlease]
    rfl
  obtain ⟨g, hg, hchecked⟩ := h.passed.resourceLease h.persistent lease.ownerId howner
  have hopTask : op.taskId = taskId := by
    rw [hop]
    exact hid
  obtain ⟨hsv, hvt, htu, _, hxw⟩ := h.clock
  rw [hopTask] at hchecked
  have hleases : w.db.resourceLeases = u.db.resourceLeases := by
    rw [h.begun.resourceLeases, h.reads]
  refine ⟨lease.ownerId, g, howner, hg, ?_⟩
  rw [validateResourceLeaseIdentity_congr hleases]
  exact hchecked.passedBefore (hsv.trans (hvt.trans htu)) hxw

/-- **All of it together**, at the call. -/
theorem mediated (hdefault : runner.requireTaskLease = none) :
    Mediated env runner taskId manifest taskLease s task proposal spec
      (w.invocation op.begun locators) where
  proposed := h.authorized.proposed
  carries := by
    obtain ⟨task', hid, hworkspace, hop⟩ := h.made
    rw [hop]
    exact ⟨hid, hworkspace, rfl, rfl, rfl, rfl⟩
  registered := h.registered.1
  valid := h.registered.2
  allowed := h.allowed
  granted := h.granted
  current := h.current
  open_ := h.opened
  counted := h.counted.1
  stored := h.counted.2
  leased := h.leased hdefault
  resourced := h.resourced

end CallPath

end

/-! ## The step -/

/-- **Complete mediation of side effects.** Whatever the model proposes and whatever the registry,
the policies, the world and the store hold: every call of a capability that a step makes in an
engine on a store, with the default lease requirement, has passed every check.  The step may return
or raise, and the process may end in it. -/
theorem step_mediated (env : Env) (runner : Runner) (taskId : String) (manifest : ContextManifest)
    (taskLease : Option TaskLease) (s : Sys) (hstore : s.persistent = true)
    (hdefault : runner.requireTaskLease = none) :
    ∃ made, (after (step env runner taskId manifest taskLease) s).invocations
        = s.invocations ++ made ∧
      ∀ i ∈ made, ∃ task proposal spec, s.tasks.get? taskId = some task ∧
        Mediated env runner taskId manifest taskLease s task proposal spec i := by
  let P : Invocation → Prop := fun i => ∃ task proposal spec, s.tasks.get? taskId = some task ∧
    Mediated env runner taskId manifest taskLease s task proposal spec i
  have hQ := Moves.frame Allowance.beforeActing_closed
  have hA := Allowance.calling_closed P
  have hR := Moves.frame hA
  have hsub : ∀ a b, Moves .beforeActing a b → Moves (.calling P) a b :=
    fun a b h => h.mono (Allowance.beforeActing_le P)
  have hbefore := stepWithin_beforeActing env taskId
  refine Moves.invocations (A := .calling P) ?_
  cases htask : s.tasks.get? taskId with
  | none =>
      -- there is no such task
      unfold step
      refine hR.bind_at (within_getTask hR taskId s) (fun task u hu => ?_)
      rw [(getTask_eq_ok.mp hu).1] at htask
      cases htask
  | some task =>
      refine step_within hQ hR hsub hbefore (fun v proposal spec expectedRevisions resourceLease
        hauth => ?_)
      refine stepAct_within hR (hbefore.mono hsub) ?_ (fun operationId t u hprepare hupdate => ?_)
      · exact moves_prepare hA env (.of_free (fun _ => trivial) (fun _ _ => trivial))
          (fun _ _ _ => trivial) _ _ _ _ v
      · refine moves_executeOperation hA env (fun _ _ _ => trivial)
          (fun op locators x w hop hpassed hbegun => ?_)
        have hpath : CallPath env runner taskId manifest taskLease resourceLease task proposal spec
            expectedRevisions operationId op locators s v t u x w :=
          ⟨hstore, htask, hauth, hprepare, (hbefore.update _ _ _ _ (by decide)).of_ok hupdate, hop,
            hpassed, hbegun⟩
        exact ⟨task, proposal, spec, htask, hpath.mediated hdefault⟩

/-- The small engine once its task has been claimed. -/
def claimedSmall : Sys := runCalls Small.env Small.start [.claimNext "worker" 60]

theorem step_mediated_small :
    (after (step Small.env Small.runner "t" Small.manifest (some Small.lease))
      claimedSmall).invokedIds = ["op_ii"] ∧
    ∃ made, (after (step Small.env Small.runner "t" Small.manifest (some Small.lease))
        claimedSmall).invocations = claimedSmall.invocations ++ made ∧
      ∀ i ∈ made, ∃ task proposal spec, claimedSmall.tasks.get? "t" = some task ∧
        Mediated Small.env Small.runner "t" Small.manifest (some Small.lease) claimedSmall task
          proposal spec i := by
  refine ⟨by decide +kernel, ?_⟩
  exact step_mediated Small.env Small.runner "t" Small.manifest (some Small.lease) claimedSmall
    (by decide +kernel) rfl

end LiandanluNative
