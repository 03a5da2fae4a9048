/-
# LiandanluNative.Runtime.Upkeep — what keeps an invariant of an engine through every call.

`EngineRules` lists the blocks all public calls are made of: a change of a task, a new task, a new
operation, a transition of an operation, a change of the world, and everything apart from them
(`Apart`).  An invariant that obeys the rules is kept by every call, except that a call during which
the process ends may leave only what a new process is hydrated from; `EngineRules.run` is the
induction over runs in which a dead process is followed by a restart.

The rules are about blocks and not about assignments because most invariants do not hold inside of
one: a task whose revision was raised and whose row was not yet written is at odds with its books.
Within a block the process may die at a boundary, so a rule has two conclusions, one for the block
that was finished and one, the weaker invariant of what is stored, for the block that was not.

What an operation may start with is a parameter of the rules (`T.starts`), since some invariants
need arguments that are JSON and others take any.
-/
import LiandanluNative.Runtime.Aside
import LiandanluNative.Runtime.CallMoves
import LiandanluNative.Runtime.OperationSteps

namespace LiandanluNative

open Lib (Table)
open Lib.Proc

/-! ## Calls as computations

A call is one computation over the engine, and a run makes them one after the other; what is asked
of each call of a run may depend on the state it is made in (`Along`).
-/

/-- The computation a call runs.  What it returns is dropped, as a run goes on from the state alone.
-/
def Call.proc (env : Env) : Call → M Unit
  | .createTask goal successCriteria workspaceId constraints lane priority budget => do
      let _ ← LiandanluNative.createTask env goal successCriteria workspaceId constraints lane
        priority budget
      pure ()
  | .queue taskId => queueTask env taskId
  | .submit taskId => submitTask env taskId
  | .wait taskId reason eventType => waitTask env taskId reason eventType
  | .updateRuntimeState taskId state phase eventType actor =>
      LiandanluNative.updateRuntimeState env taskId state phase eventType actor
  | .control taskId desired => controlTask env taskId desired
  | .settleControl taskId safeBoundary externalCancelConfirmed =>
      LiandanluNative.settleControl env taskId safeBoundary externalCancelConfirmed
  | .evaluateGoal taskId claims => LiandanluNative.evaluateGoal env taskId claims
  | .prepare taskId proposal expectedRevisions taskLease resourceLease => do
      let _ ← LiandanluNative.prepare env taskId proposal expectedRevisions taskLease resourceLease
      pure ()
  | .execute operationId => executeOperation env operationId
  | .recoverOperation operationId => LiandanluNative.recoverOperation env operationId
  | .step runner taskId manifest taskLease =>
      LiandanluNative.step env runner taskId manifest taskLease
  | .recover => do
      let _ ← LiandanluNative.recover env
      pure ()
  | .register entity => registerEntity env entity
  | .observe source observationType value domain workspaceId =>
      LiandanluNative.observe env source observationType value domain workspaceId
  | .relate source relation target => LiandanluNative.relate env source relation target
  | .claimNext ownerId leaseSeconds => do
      let ts ← readClock env
      let _ ← store env (claimNextTask ownerId leaseSeconds ts)
      pure ()
  | .renewLease lease leaseSeconds => do
      let ts ← readClock env
      let _ ← store env (renewTaskLease lease leaseSeconds ts)
      pure ()
  | .releaseLease lease => do
      let _ ← store env (releaseTaskLease lease)
      pure ()
  | .flushOutbox => do
      let _ ← LiandanluNative.flushOutbox env
      pure ()
  | .restart registry capabilities broker => modify (Sys.restart · registry capabilities broker)

/-- The state after a call is that after its procedure, whether it returned, raised or was cut off.
-/
theorem Call.exec_eq (env : Env) (s : Sys) (call : Call) :
    call.exec env s = after (call.proc env) s := by
  cases call with
  | createTask goal successCriteria workspaceId constraints lane priority budget =>
      exact (after_bind_pure _ (fun _ => ()) s).symm
  | prepare taskId proposal expectedRevisions taskLease resourceLease =>
      exact (after_bind_pure _ (fun _ => ()) s).symm
  | recover => exact (after_bind_pure _ (fun _ => ()) s).symm
  | claimNext ownerId leaseSeconds => exact (after_bind_pure _ (fun _ => ()) _).symm
  | renewLease lease leaseSeconds => exact (after_bind_pure _ (fun _ => ()) _).symm
  | releaseLease lease => exact (after_bind_pure _ (fun _ => ()) s).symm
  | flushOutbox => exact (after_bind_pure _ (fun _ => ()) s).symm
  | _ => rfl

/-- The process ended during the call. -/
def Call.died (env : Env) (s : Sys) (call : Call) : Bool :=
  match call.proc env s with
  | .error .crash _ => true
  | _ => false

/-- The call with which a new process begins. -/
def Call.isRestart : Call → Bool
  | .restart _ _ _ => true
  | _ => false

/-- Every call of the run satisfies `P`, in the state it is made in: a condition on the call and on
the state before it, and on nothing that comes of it. -/
def Along (env : Env) (P : Sys → Call → Prop) : Sys → List Call → Prop
  | _, [] => True
  | s, call :: calls => P s call ∧ Along env P (call.exec env s) calls

/-- A process that ended is followed by a restart; `alive` is whether there is one at the start.
Between two restarts there is one process, and its calls follow one another. -/
def Attended (env : Env) : Bool → Sys → List Call → Prop
  | _, _, [] => True
  | alive, s, call :: calls =>
      (alive = false → call.isRestart = true) ∧
        Attended env (!call.died env s) (call.exec env s) calls

/-- Of a run that can be evaluated it can be decided whether it is attended. -/
instance Attended.decidable (env : Env) :
    ∀ (alive : Bool) (s : Sys) (calls : List Call), Decidable (Attended env alive s calls)
  | _, _, [] => isTrue trivial
  | alive, s, call :: calls =>
      have := Attended.decidable env (!call.died env s) (call.exec env s) calls
      inferInstanceAs (Decidable ((alive = false → call.isRestart = true) ∧
        Attended env (!call.died env s) (call.exec env s) calls))

/-- A run that goes on meets the condition before and after. -/
theorem along_append {env : Env} {P : Sys → Call → Prop} {before later : List Call} {s : Sys} :
    Along env P s (before ++ later) ↔
      Along env P s before ∧ Along env P (runCalls env s before) later := by
  induction before generalizing s with
  | nil => exact (and_iff_right trivial).symm
  | cons call before ih =>
      show (_ ∧ Along env P (call.exec env s) (before ++ later)) ↔
        (_ ∧ Along env P (call.exec env s) before) ∧
          Along env P (runCalls env (call.exec env s) before) later
      rw [ih, and_assoc]

/-- Along a run is before each of its calls.  With it a condition along a run can be read off at one
call, and one that holds at each call be put along the run. -/
theorem along_iff {env : Env} {P : Sys → Call → Prop} {calls : List Call} {s : Sys} :
    Along env P s calls ↔
      ∀ before call later, calls = before ++ call :: later → P (runCalls env s before) call := by
  constructor
  · rintro h before call later rfl
    exact (along_append.mp h).2.1
  · intro h
    induction calls generalizing s with
    | nil => trivial
    | cons call calls ih =>
        refine ⟨h [] call calls rfl, ih (fun before later rest hsplit => ?_)⟩
        exact h (call :: before) later rest (by rw [hsplit, List.cons_append])

/-- What is so of every call is so along the run. -/
theorem Along.of_forall {env : Env} {P : Call → Prop} {calls : List Call} {s : Sys}
    (h : ∀ call ∈ calls, P call) : Along env (fun _ call => P call) s calls :=
  along_iff.mpr (fun before call later hsplit => h call (by simp [hsplit]))

/-- A run that meets a condition meets a weaker one. -/
theorem Along.mono {env : Env} {P Q : Sys → Call → Prop} (h : ∀ s call, P s call → Q s call) :
    ∀ {calls : List Call} {s : Sys}, Along env P s calls → Along env Q s calls
  | [], _, _ => trivial
  | _ :: _, _, ⟨hcall, hcalls⟩ => ⟨h _ _ hcall, hcalls.mono h⟩

/-- A run that meets two conditions meets both at once. -/
theorem Along.and {env : Env} {P Q : Sys → Call → Prop} :
    ∀ {calls : List Call} {s : Sys}, Along env P s calls → Along env Q s calls →
      Along env (fun s call => P s call ∧ Q s call) s calls
  | [], _, _, _ => trivial
  | _ :: _, _, ⟨hp, hps⟩, ⟨hq, hqs⟩ => ⟨⟨hp, hq⟩, hps.and hqs⟩

/-- A call during which the process lives. -/
theorem Call.exec_of_lived {env : Env} {s : Sys} {call : Call} {I D : Sys → Prop}
    (hends : Ends (fun _ t => I t) (Left I D) (call.proc env) s)
    (hlived : call.died env s = false) : I (call.exec env s) := by
  rw [Call.exec_eq]
  unfold Call.died at hlived
  cases hrun : call.proc env s with
  | ok a t =>
      rw [after_of_ok hrun]
      exact hends.returned hrun
  | error fault t =>
      rw [after_of_error hrun]
      cases fault with
      | crash =>
          rw [hrun] at hlived
          cases hlived
      | raised e => exact hends.raised hrun

/-- What a process does to its state, whatever the call: clocks and ids move on, logs grow, and the
rest is open. -/
theorem Call.moves (env : Env) (s : Sys) {call : Call} (hcall : call.isRestart = false) :
    Moves .free s (call.exec env s) := by
  have hA := Allowance.free_closed
  cases call with
  | prepare taskId proposal expectedRevisions taskLease resourceLease =>
      exact moves_prepare hA env (Allowance.free_works taskId) (fun _ _ _ => trivial) proposal
        expectedRevisions taskLease resourceLease s
  | execute operationId =>
      exact moves_executeOperation hA env (fun _ _ _ => trivial) (fun _ _ _ _ _ _ _ => trivial)
  | step runner taskId manifest taskLease =>
      exact moves_step hA env (Allowance.free_works taskId) (fun _ _ _ => trivial) trivial
        (fun _ => trivial) runner manifest taskLease s
  | restart registry capabilities broker => cases hcall
  | _ =>
      exact moves_call hA env Allowance.free_touches (fun _ _ => trivial) trivial
        (fun _ => moves_recoverOperation hA env (fun _ _ _ => trivial) (fun _ _ => trivial)) s
        trivial (Allowance.permits_of_free (fun _ _ _ => trivial) _)

/-- Ids that were given out stay given out, over restarts too: the ids that were drawn are no part
of the process that ended. -/
theorem Call.ids_le (env : Env) (s : Sys) (call : Call) : s.ids ≤ (call.exec env s).ids := by
  cases hcall : call.isRestart with
  | false => exact (call.moves env s hcall).ids
  | true =>
      cases call with
      | restart registry capabilities broker => exact le_rfl
      | _ => cases hcall

/-! ## Preparing

What `prepare` starts is told once, for any invariant that the start of an operation keeps.
-/

/-- The call comes to `prepare`, in state `u`: directly, or in a step that has asked the model,
resolved the action, was allowed it by the policy, and has the resources it needs. -/
inductive Call.Prepares (env : Env) (s : Sys) : Call → Sys → String → ActionProposal →
    List (String × Int) → Option TaskLease → Option ResourceLease → Prop
  | direct {taskId : String} {proposal : ActionProposal} {expectedRevisions : List (String × Int)}
      {taskLease : Option TaskLease} {resourceLease : Option ResourceLease} :
      Prepares env s (.prepare taskId proposal expectedRevisions taskLease resourceLease) s taskId
        proposal expectedRevisions taskLease resourceLease
  | step {runner : Runner} {taskId : String} {manifest : ContextManifest}
      {taskLease : Option TaskLease} {proposal : ActionProposal} {spec : ActionSpec}
      {expectedRevisions : List (String × Int)} {resourceLease : Option ResourceLease} {task : Task}
      {s₁ s₂ u : Sys}
      (began : LiandanluNative.updateRuntimeState env taskId (some .running) (some .thinking)
        "task.agent_step_started" "engine" s = .ok () s₁)
      (proposed : env.nextAction s₁.calls manifest = .ok proposal)
      (resolved : s₁.registry.resolve env.py proposal = .ok spec)
      (expected : manifest.expected spec.revisionDomains = .ok expectedRevisions)
      (authorizing : LiandanluNative.updateRuntimeState env taskId none (some .authorizing)
        "task.authorizing" "engine" { s₁ with calls := s₁.calls + 1 } = .ok () s₂)
      (found : s₂.tasks.get? taskId = some task)
      (allowed : runner.policy.evaluate task.workspaceId proposal.capability proposal.action
        spec.riskClass = .allow)
      (equipped : (spec.resourceRequest.empty = true ∧ resourceLease = none ∧ u = s₂) ∨
        ∃ lease broker granted, taskLease = some lease ∧ s₂.broker = some broker ∧
          resourceLease = some granted ∧
          acquireResources env broker taskId lease.ownerId spec.resourceRequest
            runner.resourceLeaseSeconds s₂ = .ok (some granted) u) :
      Prepares env s (.step runner taskId manifest taskLease) u taskId proposal expectedRevisions
        taskLease resourceLease

/-- `prepare` would start an operation: the proposal is admitted, and the budget allows it at the
reading of the clock that follows. -/
def Starts (env : Env) (u : Sys) (taskId : String) (proposal : ActionProposal)
    (expectedRevisions : List (String × Int)) (taskLease : Option TaskLease)
    (resourceLease : Option ResourceLease) : Prop :=
  ∃ task spec v, u.tasks.get? taskId = some task ∧
    admitProposal env task proposal expectedRevisions taskLease resourceLease u = .ok spec v ∧
    task.budget.blockReason (env.clock v.clockReads) = none

section

variable {env : Env} {I D : Sys → Prop}
  (hclock : ∀ s, I s → I { s with clockReads := s.clockReads + 1 })
include hclock

/-- **The checks** read and may raise; they change nothing but the clock. -/
theorem upheld_readClock : Upheld I D (readClock env) := fun s hs => Ends.of_ok rfl (hclock s hs)

theorem upheld_taskLeaseValid (taskId ownerId : String) (generation : Int) :
    Upheld I D (taskLeaseValid env taskId ownerId generation) :=
  Upholds.bind (upheld_readClock hclock) (fun _ => Upholds.bind Upholds.get (fun _ => Upholds.pure _))

theorem upheld_resourceLeaseValid (taskId ownerId : String) (generation : Int) :
    Upheld I D (resourceLeaseValid env taskId ownerId generation) :=
  Upholds.bind (upheld_readClock hclock) (fun _ => Upholds.bind Upholds.get (fun _ => Upholds.pure _))

omit hclock in
/-- A lease that is refused ends the method where it stands. -/
theorem upheld_checkLease {taskId leaseTaskId foreign stale : String} {valid : M Bool}
    (hvalid : Upheld I D valid) : Upheld I D (checkLease taskId leaseTaskId foreign stale valid) := by
  unfold checkLease
  split
  · exact upheld_raise _
  refine Upholds.bind Upholds.get (fun s => ?_)
  split
  · refine Upholds.bind hvalid (fun b => ?_)
    split
    · exact Upholds.pure _
    · exact upheld_raise _
  · exact Upholds.pure _

omit hclock in
/-- So does one that has expired since the operation was prepared. -/
theorem upheld_recheckLease {ownerId : Option String} {generation : Option Int} {lost : String}
    {valid : String → Int → M Bool} (hvalid : ∀ o g, Upheld I D (valid o g)) :
    Upheld I D (recheckLease ownerId generation lost valid) := by
  unfold recheckLease
  refine Upholds.bind Upholds.get (fun s => ?_)
  split
  · split
    · exact upheld_raise _
    · refine Upholds.bind (hvalid _ _) (fun b => ?_)
      split
      · exact Upholds.pure _
      · exact upheld_raise _
  · exact Upholds.pure _

/-- Whether a proposal is admitted is only read. -/
theorem upheld_admitProposal (task : Task) (proposal : ActionProposal)
    (expectedRevisions : List (String × Int)) (taskLease : Option TaskLease)
    (resourceLease : Option ResourceLease) :
    Upheld I D (admitProposal env task proposal expectedRevisions taskLease resourceLease) := by
  have htask : Upheld I D (checkTaskLease env task.taskId taskLease) := by
    cases taskLease with
    | none => exact Upholds.pure _
    | some lease => exact upheld_checkLease (upheld_taskLeaseValid hclock _ _ _)
  have hresource : Upheld I D (checkResourceLease env task.taskId resourceLease) := by
    cases resourceLease with
    | none => exact Upholds.pure _
    | some lease => exact upheld_checkLease (upheld_resourceLeaseValid hclock _ _ _)
  unfold admitProposal
  refine Upholds.bind Upholds.get (fun s => Upholds.bind (upheld_liftExcept _) (fun spec => ?_))
  refine Upholds.bind (upheld_liftExcept _) (fun _ => Upholds.bind (upheld_liftExcept _) (fun _ => ?_))
  exact Upholds.bind htask (fun _ => Upholds.bind hresource (fun _ => Upholds.pure _))

/-- And so are the gates of `execute`. -/
theorem upheld_executeGates (operationId : String) : Upheld I D (executeGates env operationId) := by
  unfold executeGates
  refine Upholds.bind (upheld_getOperation _) (fun op => ?_)
  refine Upholds.bind (upheld_recheckLease (upheld_taskLeaseValid hclock _)) (fun _ => ?_)
  refine Upholds.bind (upheld_recheckLease (upheld_resourceLeaseValid hclock _)) (fun _ => ?_)
  refine Upholds.bind Upholds.get (fun s => ?_)
  split
  · exact upheld_raise _
  · exact Upholds.bind (upheld_liftExcept _) (fun _ => upheld_liftExcept _)

end

/-- **Preparing**, where a start that is reached ends as it should.  A check that fails leaves what
is apart from everything that is stored. -/
theorem ends_prepare {env : Env} {s : Sys} {taskId : String} {proposal : ActionProposal}
    {expectedRevisions : List (String × Int)} {taskLease : Option TaskLease}
    {resourceLease : Option ResourceLease} {P : Sys → Prop} {E : Fault → Sys → Prop}
    (hrefused : ∀ e t, Apart s t → E (.raised e) t)
    (hstarted : ∀ task spec clockReads, s.tasks.get? taskId = some task →
      Starts env s taskId proposal expectedRevisions taskLease resourceLease →
      Ends (fun _ t => P t) E
        (startOperation env task (proposal.operation (env.newId "op" s.ids) task spec
          expectedRevisions taskLease resourceLease))
        { s with ids := s.ids + 1, clockReads := clockReads }) :
    Ends (fun _ t => P t) E
      (prepare env taskId proposal expectedRevisions taskLease resourceLease) s := by
  unfold prepare
  refine Ends.bind (ends_getTask (fun task hget => ?_) (fun _ => hrefused _ _ Apart.refl))
  have hreads := @upheld_admitProposal env (Apart s) (fun _ => False)
    (fun t ht => { ht with }) task proposal expectedRevisions taskLease resourceLease s Apart.refl
  refine Ends.bind ⟨fun {spec v} hadmit => ?_, fun {fault v} hadmit => ?_⟩
  · have hv := ((admitProposal_reads _ _ _ _ _).of_ok hadmit).2
    refine Ends.bind (Ends.of_ok (rfl : newId env "op" v = _) ?_)
    refine Ends.bind (Ends.of_ok (rfl : readClock env _ = _) ?_)
    cases hbudget : task.budget.blockReason (env.clock v.clockReads) with
    | some reason =>
        refine Ends.throw (hrefused _ _ ?_)
        rw [hv]
        exact { Apart.refl with ids := Nat.le_succ _ }
    | none =>
        have hstart := hstarted task spec (v.clockReads + 1) hget
          ⟨task, spec, v, hget, hadmit, hbudget⟩
        rw [hv]
        exact Ends.bind (hstart.mono (fun _ _ ht => Ends.pure ht) (fun _ _ ht => ht))
  · cases fault with
    | crash => exact (hreads.raised hadmit : False).elim
    | raised e => exact hrefused e v (hreads.raised hadmit : Apart s v)

/-- A handler starts from where the invariant holds: what the body left at an exception keeps it,
since only the end of the process may leave less. -/
theorem ends_catching_left {α : Type} {I D : Sys → Prop} {Q : α → Sys → Prop} {s : Sys}
    {catches : Exc → Bool} {body : M α} {handler : Exc → M α} (hbody : Ends Q (Left I D) body s)
    (hhandler : ∀ e t, I t → Ends Q (Left I D) (handler e) t) :
    Ends Q (Left I D) (catching catches body handler) s := by
  refine ends_catching (hbody.mono (fun _ _ ht => ht) (fun fault t ht => ⟨?_, fun _ => ht⟩))
  rintro e rfl _
  exact hhandler e t ht

/-- What a loop does at each element it does until it ends.  `J` is about the elements left, so that
it can say both what was done to the earlier ones and what is still so of the later ones. -/
theorem ends_countM {α : Type} {f : α → M Bool} {J : List α → Sys → Prop}
    {E : Fault → Sys → Prop} :
    ∀ (xs : List α) (s : Sys),
      (∀ x ∈ xs, ∀ rest s, J (x :: rest) s → Ends (fun _ t => J rest t) E (f x) s) →
      J xs s → Ends (fun _ t => J [] t) E (countM f xs) s
  | [], _, _, hs => Ends.pure hs
  | x :: xs, s, hf, hs => by
      have hlater := fun y hy => hf y (List.mem_cons_of_mem x hy)
      unfold countM
      refine Ends.bind_with (fun _ t => J xs t) (hf x List.mem_cons_self xs s hs)
        (fun counted t ht => ?_)
      refine Ends.bind_with (fun _ t => J [] t) (ends_countM xs t hlater ht) (fun rest v hv => ?_)
      exact Ends.pure hv

/-- A loop over the keys of a table. -/
theorem ends_countM_rows {κ ν : Type} {key : ν → κ} (table : Table key) {f : κ → M Bool}
    {J : List κ → Sys → Prop} {E : Fault → Sys → Prop} {s : Sys}
    (hf : ∀ row ∈ table.rows, ∀ rest s, J (key row :: rest) s →
      Ends (fun _ t => J rest t) E (f (key row)) s)
    (hs : J (table.rows.map key) s) :
    Ends (fun _ t => J [] t) E (countM f (table.rows.map key)) s := by
  refine ends_countM _ s (fun k hk => ?_) hs
  obtain ⟨row, hrow, rfl⟩ := List.mem_map.mp hk
  exact hf row hrow

/-- A loop keeps what its body keeps, and one that raises leaves what the body left. -/
theorem upheld_countM {α : Type} {I D : Sys → Prop} {f : α → M Bool}
    (hf : ∀ a, Upheld I D (f a)) : ∀ xs, Upheld I D (countM f xs)
  | [] => Upholds.pure _
  | x :: xs => by
      unfold countM
      refine Upholds.bind (hf x) (fun counted => ?_)
      exact Upholds.bind (upheld_countM hf xs) (fun rest => Upholds.pure _)

/-! ## The rules

What an invariant of the engine has to satisfy so that every call keeps it, on terms that the calls
may have to meet.
-/

/-- On which terms the calls of a run are made: the budgets of new tasks, the arguments of proposals
that are started, the operations that are executed, the entities that are registered, the workspaces
that are observed, and the names of relations. -/
structure Terms where
  creates : Sys → TaskBudget → Prop
  starts : List (PyKey × PyVal) → Prop
  begins : Operation → Prop
  registers : Entity → Prop
  observes : Option String → Prop
  relates : String → Prop

/-- **What an invariant has to say of the blocks of an engine's calls.** `D` is what it leaves to
the next process. -/
structure EngineRules (env : Env) (T : Terms) (I D : Sys → Prop) : Prop where
  durable : ∀ {s}, I s → D s
  apart : ∀ {s t}, Apart s t → I s → I t
  changes : ∀ {s} (taskId : String), I s → Changes env s taskId (fun _ t => I t) (Left I D)
  created : ∀ {s} (goal : String) (successCriteria : List String) (workspaceId : String)
    (constraints : List String) (lane : String) (priority : Int) (budget : TaskBudget),
    I s → T.creates s budget → Ends (fun _ t => I t) (Left I D)
      (createTask env goal successCriteria workspaceId constraints lane priority budget) s
  started : ∀ {s task} (proposal : ActionProposal) (spec : ActionSpec)
    (expectedRevisions : List (String × Int)) (taskLease : Option TaskLease)
    (resourceLease : Option ResourceLease) (clockReads : ℕ),
    I s → s.tasks.get? task.taskId = some task → T.starts proposal.arguments →
    (∃ at_, task.budget.blockReason at_ = none) →
    Ends (fun _ t => I t) (Left I D)
      (startOperation env task (proposal.operation (env.newId "op" s.ids) task spec
        expectedRevisions taskLease resourceLease))
      { s with ids := s.ids + 1, clockReads := clockReads }
  operations : OperationRules env I (Left I D)
  begun : ∀ {s op}, I s → s.operations.get? op.operationId = some op → T.begins op →
    Ends (fun _ t => I t) (Left I D) (recordOp env op.operationId "operation.started" "engine" [])
      (s.assigned op.begun)
  fresh : ∀ {op : Operation}, op.state = .prepared → op.evidence = [] → T.begins op
  registered : ∀ {entity}, T.registers entity → Upheld I D (registerEntity env entity)
  observed : ∀ (source observationType : String) (value : PyVal) (domain : String)
    (workspaceId : Option String), T.observes workspaceId →
    Upheld I D (observe env source observationType value domain workspaceId)
  related : ∀ source relation target : String, T.relates relation →
    Upheld I D (relate env source relation target)
  restarted : ∀ {s} (registry : CapabilityRegistry) (capabilities : List String)
    (broker : Option ResourceBroker), D s → I (s.restart registry capabilities broker)

/-- The call is made on the terms.  For `prepare` and for a step they are asked only where an
operation would start. -/
structure Call.Meets (T : Terms) (env : Env) (s : Sys) (call : Call) : Prop where
  creates : ∀ goal successCriteria workspaceId constraints lane priority budget,
    call = .createTask goal successCriteria workspaceId constraints lane priority budget →
    T.creates s budget
  starts : ∀ u taskId proposal expectedRevisions taskLease resourceLease,
    call.Prepares env s u taskId proposal expectedRevisions taskLease resourceLease →
    Starts env u taskId proposal expectedRevisions taskLease resourceLease →
    T.starts proposal.arguments
  begins : ∀ operationId op, call = .execute operationId →
    s.operations.get? operationId = some op → T.begins op
  registers : ∀ entity, call = .register entity → T.registers entity
  observes : ∀ source observationType value domain workspaceId,
    call = .observe source observationType value domain workspaceId → T.observes workspaceId
  relates : ∀ source relation target, call = .relate source relation target → T.relates relation

namespace EngineRules

variable {env : Env} {T : Terms} {I D : Sys → Prop} (h : EngineRules env T I D) {s : Sys}
include h

/-- **What is apart** keeps the invariant by the rule for it. -/
theorem upheld_apart {α : Type} {m : M α} (hm : Within Apart m) : Upheld I D m :=
  upheld_of_within hm (fun _ _ ht hs => h.apart ht hs) (fun _ hs => h.durable hs)

/-! ## Tasks -/

/-- **A method of `TaskRuntime`** is a change of a task, its bump and its record, in that order. -/
theorem wait (taskId reason eventType : String) : Upheld I D (waitTask env taskId reason eventType) :=
  fun _ hs => (h.changes taskId hs).wait reason eventType

/-- An update that changes nothing stops before the block. -/
theorem updateRuntimeState (taskId : String) (state : Option TaskState) (phase : Option TaskPhase)
    (eventType actor : String) :
    Upheld I D (updateRuntimeState env taskId state phase eventType actor) :=
  fun _ hs => (h.changes taskId hs).updateRuntimeState state phase eventType actor

/-- A control that is not settled stops before the block, too. -/
theorem settleControl (taskId : String) (safeBoundary externalCancelConfirmed : Bool) :
    Upheld I D (settleControl env taskId safeBoundary externalCancelConfirmed) :=
  fun _ hs => (h.changes taskId hs).settleControl safeBoundary externalCancelConfirmed

/-- Queueing reads the clock first, which is apart. -/
theorem queue (taskId : String) : Upheld I D (queueTask env taskId) := by
  intro s hs
  unfold queueTask
  refine Ends.bind (ends_getTask (fun task hget => ?_) (fun _ => hs))
  split
  · exact Ends.throw hs
  refine Ends.bind (Ends.of_ok (rfl : readClock env s = _) ?_)
  have hread : I { s with clockReads := s.clockReads + 1 } := h.apart (Apart.clock _) hs
  have hget' : ({ s with clockReads := s.clockReads + 1 } : Sys).tasks.get? taskId = some task :=
    hget
  refine (h.changes taskId hread).change hget' (.queued task _) (.queued _) (PyVal.jsonDumpsItems_payload ?_)
  simp [PyVal.jsonDumps]

/-- Submitting pushes afterwards, which is, too. -/
theorem submit (taskId : String) : Upheld I D (submitTask env taskId) :=
  Upholds.bind (h.queue taskId) (fun _ => h.upheld_apart (apart_pushTask taskId))

theorem flush : Upheld I D (flushOutbox env) := h.upheld_apart apart_flushOutbox

/-! ## Operations -/

/-- What `prepare` returns is in memory, PREPARED. -/
theorem prepare (hs : I s) {taskId : String} {proposal : ActionProposal}
    {expectedRevisions : List (String × Int)} {taskLease : Option TaskLease}
    {resourceLease : Option ResourceLease}
    (hstarts : Starts env s taskId proposal expectedRevisions taskLease resourceLease →
      T.starts proposal.arguments) :
    Ends (fun operationId t => I t ∧
        ∃ op, t.operations.get? operationId = some op ∧ op.state = .prepared ∧ op.evidence = [])
      (Left I D) (prepare env taskId proposal expectedRevisions taskLease resourceLease) s := by
  have hends : Ends (fun _ t => I t) (Left I D)
      (LiandanluNative.prepare env taskId proposal expectedRevisions taskLease resourceLease) s := by
    refine ends_prepare (fun e t ht => h.apart ht hs) (fun task spec clockReads hget hstart => ?_)
    have hid : task.taskId = taskId := Table.key_of_get? hget
    subst hid
    refine h.started proposal spec expectedRevisions taskLease resourceLease clockReads hs hget
      (hstarts hstart) ?_
    obtain ⟨task', _, v, hget', _, hbudget⟩ := hstart
    cases hget.symm.trans hget'
    exact ⟨_, hbudget⟩
  refine ⟨fun {operationId t} hrun => ⟨hends.returned hrun, ?_⟩, fun hrun => hends.raised hrun⟩
  obtain ⟨task, spec, hprepared⟩ := prepare_eq_ok hrun
  exact ⟨_, hprepared.operation, rfl, rfl⟩

/-- **An execution** is a chain of transitions of one operation, from a state the rules let it begin
in. -/
theorem execute (hs : I s) {operationId : String}
    (hbegins : ∀ op, s.operations.get? operationId = some op → T.begins op) :
    Ends (fun _ t => I t) (Left I D) (executeOperation env operationId) s := by
  have hgates := @upheld_executeGates env I D (fun t ht => h.apart (Apart.clock _) ht)
    operationId s hs
  unfold executeOperation
  refine Ends.bind ⟨fun {locators v} hrun => ?_, fun hrun => hgates.raised hrun⟩
  obtain ⟨op, hop, hpassed⟩ := executeGates_eq_ok hrun
  have hid : op.operationId = operationId := Table.key_of_get? hop
  subst hid
  have hopv : v.operations.get? op.operationId = some op := by
    rw [hpassed.reads.2]
    exact hop
  have hbegun := h.begun (hgates.returned hrun) hopv (hbegins op hop)
  exact (h.operations.carryOut hbegun hopv).mono (fun _ _ ht => ht.1) (fun _ _ ht => ht)

/-- **A recovery** is one as well, and may begin in any state, as it decides by the state what to
do. -/
theorem recoverOperation (operationId : String) :
    Upheld I D (recoverOperation env operationId) := by
  intro s hs
  cases hop : s.operations.get? operationId with
  | none =>
      unfold LiandanluNative.recoverOperation
      refine Ends.bind (ends_getOperation (fun op hget => ?_) (fun _ => hs))
      cases hop.symm.trans hget
  | some op =>
      have hid : op.operationId = operationId := Table.key_of_get? hop
      subst hid
      exact (h.operations.recoverOperation hs hop (fun _ => hs)).mono (fun _ _ ht => ht.1)
        (fun _ _ ht => ht)

/-! ## Steps

From its end to its beginning, so that each part is there when the one before it is walked.
-/

/-- **The end of a step** records what the operation has become, settles a control, and flushes. -/
theorem settleStep (taskId operationId : String) : Upheld I D (settleStep env taskId operationId) := by
  have hsettle : Upheld I D (LiandanluNative.settleControl env taskId true false >>= fun _ =>
      flushOutbox env >>= fun _ => pure ()) :=
    Upholds.bind (h.settleControl taskId true false)
      (fun _ => Upholds.bind h.flush (fun _ => Upholds.pure _))
  unfold LiandanluNative.settleStep
  refine Upholds.bind (upheld_getOperation operationId) (fun op => ?_)
  split
  · exact Upholds.bind (h.updateRuntimeState _ _ _ _ _) (fun _ => hsettle)
  split
  · exact Upholds.bind (h.updateRuntimeState _ _ _ _ _) (fun _ => hsettle)
  · exact Upholds.bind (h.updateRuntimeState _ _ _ _ _) (fun _ => hsettle)

/-- **The effect of a step** is that of the operation it has just prepared, which is therefore in
the state `execute` asks for.  A lost lease is caught, and the task waits. -/
theorem stepExecute (hs : I s) {taskId operationId : String} {op : Operation}
    (hop : s.operations.get? operationId = some op) (hstate : op.state = .prepared)
    (hevidence : op.evidence = []) :
    Ends (fun _ t => I t) (Left I D) (stepExecute env taskId operationId) s := by
  have hupdate := h.updateRuntimeState taskId none (some .executing) "task.executing" "engine" s hs
  unfold LiandanluNative.stepExecute
  refine Ends.bind ⟨fun {_ t} hrun => ?_, fun hrun => hupdate.raised hrun⟩
  have hmoved := ((stepWithin_taskwork env taskId).update _ _ _ _ (by decide)).of_ok hrun
  have hop' : t.operations.get? operationId = some op :=
    ((hmoved.operations operationId).still (fun _ hno => hno)).1.trans hop
  have hexecute := @execute env T I D h t (hupdate.returned hrun) operationId (fun op' hget => by
    cases hop'.symm.trans hget
    exact h.fresh hstate hevidence)
  refine Ends.bind_with (fun _ u => I u) (ends_catching_left (Ends.bind_with (fun _ u => I u) hexecute
    (fun _ u hu => ?_)) (fun e u hu => ?_)) (fun executed u hu => ?_)
  · exact Ends.pure hu
  · exact Upholds.bind (h.wait _ _ _) (fun _ => Upholds.pure _) u hu
  · split
    · exact h.settleStep taskId operationId u hu
    · exact Ends.pure hu

/-- **The step under its `try`** prepares an operation, if the rules let one with these arguments
start. -/
theorem stepAct (hs : I s) {taskId : String} {proposal : ActionProposal}
    {expectedRevisions : List (String × Int)} {taskLease : Option TaskLease}
    {resourceLease : Option ResourceLease}
    (hstarts : Starts env s taskId proposal expectedRevisions taskLease resourceLease →
      T.starts proposal.arguments) :
    Ends (fun _ t => I t) (Left I D)
      (stepAct env taskId proposal expectedRevisions taskLease resourceLease) s := by
  unfold LiandanluNative.stepAct
  refine Ends.bind_with (fun prepared u => I u ∧ ∀ operationId, prepared = some operationId →
      ∃ op, u.operations.get? operationId = some op ∧ op.state = .prepared ∧ op.evidence = [])
    (ends_catching_left (Ends.bind ((h.prepare hs hstarts).mono (fun operationId u hu => ?_)
      (fun _ _ hu => hu))) (fun e u hu => ?_)) (fun prepared u hu => ?_)
  · refine Ends.pure ⟨hu.1, fun operationId' hsome => ?_⟩
    cases hsome
    exact hu.2
  · -- what was refused waits
    dsimp only
    split
    · refine Ends.bind ((h.wait _ _ _ u hu).mono (fun _ _ hv => Ends.pure ⟨hv, ?_⟩) (fun _ _ hv => hv))
      exact fun _ hsome => by cases hsome
    · refine Ends.bind ((h.wait _ _ _ u hu).mono (fun _ _ hv => Ends.pure ⟨hv, ?_⟩) (fun _ _ hv => hv))
      exact fun _ hsome => by cases hsome
  · cases prepared with
    | none => exact Ends.pure hu.1
    | some operationId =>
        obtain ⟨op, hop, hstate, hevidence⟩ := hu.2 operationId rfl
        exact h.stepExecute hu.1 hop hstate hevidence

/-- **The step from its resources on** acquires what the action needs, and releases it again
whatever comes. -/
theorem stepResources (hs : I s) {runner : Runner} {taskId : String} {spec : ActionSpec}
    {proposal : ActionProposal} {expectedRevisions : List (String × Int)}
    {taskLease : Option TaskLease}
    (hstarts : ∀ resourceLease u,
      ((spec.resourceRequest.empty = true ∧ resourceLease = none ∧ u = s) ∨
        ∃ lease broker granted, taskLease = some lease ∧ s.broker = some broker ∧
          resourceLease = some granted ∧
          acquireResources env broker taskId lease.ownerId spec.resourceRequest
            runner.resourceLeaseSeconds s = .ok (some granted) u) →
      Starts env u taskId proposal expectedRevisions taskLease resourceLease →
      T.starts proposal.arguments) :
    Ends (fun _ t => I t) (Left I D)
      (stepResources env runner taskId spec proposal expectedRevisions taskLease) s := by
  unfold LiandanluNative.stepResources
  refine Ends.bind (Ends.get ?_)
  split
  · rename_i hempty
    exact h.stepAct hs (hstarts none s (Or.inl ⟨hempty, rfl, rfl⟩))
  split
  · exact h.wait _ _ _ s hs
  · exact h.wait _ _ _ s hs
  · rename_i lease broker hbroker
    have hacquire := h.upheld_apart (@apart_acquireResources env broker taskId lease.ownerId
      spec.resourceRequest runner.resourceLeaseSeconds) s hs
    refine Ends.bind ⟨fun {acquired u} hrun => ?_, fun hrun => hacquire.raised hrun⟩
    have hu : I u := hacquire.returned hrun
    cases acquired with
    | none => exact h.wait _ _ _ u hu
    | some granted =>
        refine Upholds.ensuring_at (h.stepAct hu
          (hstarts (some granted) u (Or.inr ⟨lease, broker, granted, rfl, hbroker, rfl, hrun⟩))) ?_
        -- the lease is given back
        refine Upholds.bind Upholds.get (fun v => ?_)
        split
        · exact Upholds.pure _
        · exact Upholds.bind (h.upheld_apart (apart_releaseResources _ _)) (fun _ => Upholds.pure _)

/-- **The step from its model on** asks for a proposal first. -/
theorem stepModel (hs : I s) {runner : Runner} {taskId : String} {manifest : ContextManifest}
    {taskLease : Option TaskLease}
    (hstarts : ∀ u proposal expectedRevisions resourceLease,
      (Call.step runner taskId manifest taskLease).Prepares env s u taskId proposal
        expectedRevisions taskLease resourceLease →
      Starts env u taskId proposal expectedRevisions taskLease resourceLease →
      T.starts proposal.arguments) :
    Ends (fun _ t => I t) (Left I D) (stepModel env runner taskId manifest taskLease) s := by
  have hbegin := h.updateRuntimeState taskId (some .running) (some .thinking)
    "task.agent_step_started" "engine" s hs
  unfold LiandanluNative.stepModel
  refine Ends.bind ⟨fun {_ s₁} hbegan => ?_, fun hrun => hbegin.raised hrun⟩
  have hs₁ : I s₁ := hbegin.returned hbegan
  have hcalled : I { s₁ with calls := s₁.calls + 1 } :=
    h.operations.called (s₁.calls + 1) s₁.findings s₁.invocations (List.prefix_refl _) hs₁
  refine Ends.bind (ends_callOut (fun proposal hproposed => ?_) (fun e _ => hcalled))
  refine Ends.bind (Ends.get (Ends.bind (ends_liftExcept (fun spec hresolved => ?_)
    (fun e _ => hcalled))))
  refine Ends.bind (ends_liftExcept (fun expectedRevisions hexpected => ?_) (fun e _ => hcalled))
  have hauthorize := h.updateRuntimeState taskId none (some .authorizing) "task.authorizing" "engine"
    _ hcalled
  refine Ends.bind ⟨fun {_ s₂} hauthorizing => ?_, fun hrun => hauthorize.raised hrun⟩
  have hs₂ : I s₂ := hauthorize.returned hauthorizing
  refine Ends.bind (ends_getTask (fun task hget => ?_) (fun _ => hs₂))
  cases hdecision : runner.policy.evaluate task.workspaceId proposal.capability proposal.action
      spec.riskClass with
  | deny => exact h.updateRuntimeState _ _ _ _ _ s₂ hs₂
  | requireConfirmation => exact h.updateRuntimeState _ _ _ _ _ s₂ hs₂
  | allow =>
      refine h.stepResources hs₂ (fun resourceLease u hequipped => ?_)
      exact hstarts u proposal expectedRevisions resourceLease
        (.step hbegan hproposed hresolved hexpected hauthorizing hget hdecision hequipped)

/-- **A step** is its parts, one after the other; its `finally` runs where the invariant holds, or
is not reached because the process has ended. -/
theorem step (hs : I s) {runner : Runner} {taskId : String} {manifest : ContextManifest}
    {taskLease : Option TaskLease}
    (hstarts : ∀ u proposal expectedRevisions resourceLease,
      (Call.step runner taskId manifest taskLease).Prepares env s u taskId proposal
        expectedRevisions taskLease resourceLease →
      Starts env u taskId proposal expectedRevisions taskLease resourceLease →
      T.starts proposal.arguments) :
    Ends (fun _ t => I t) (Left I D) (step env runner taskId manifest taskLease) s := by
  unfold LiandanluNative.step
  refine Ends.bind (ends_getTask (fun task hget => ?_) (fun _ => hs))
  refine Ends.bind (Ends.get ?_)
  split
  · exact Ends.throw hs
  split
  · exact Ends.throw hs
  split
  · exact h.wait _ _ _ s hs
  split
  · exact h.settleControl _ _ _ s hs
  · exact h.stepModel hs hstarts

/-! ## Recovering -/

/-- **`recover`** is two loops, over operations and over tasks, and a flush. -/
theorem recover : Upheld I D (recover env) := by
  unfold LiandanluNative.recover
  refine Upholds.bind Upholds.get (fun s => Upholds.bind (upheld_countM (fun id => ?_) _) (fun _ => ?_))
  · unfold recoverIfUnsettled
    refine Upholds.bind (upheld_getOperation id) (fun op => ?_)
    split
    · exact Upholds.bind (h.recoverOperation id) (fun _ => Upholds.pure _)
    · exact Upholds.pure _
  refine Upholds.bind Upholds.get (fun s => Upholds.bind (upheld_countM (fun id => ?_) _) (fun _ => ?_))
  · unfold settleIfRequested
    refine Upholds.bind (upheld_getTask id) (fun task => ?_)
    split
    · refine Upholds.bind (h.settleControl id true false) (fun _ => ?_)
      exact Upholds.bind (upheld_getTask id) (fun _ => Upholds.pure _)
    · exact Upholds.pure _
  · exact Upholds.bind h.flush (fun _ => Upholds.pure _)

/-! ## Calls and runs -/

/-- **What every call on the terms preserves**, one case for each of the calls there are. -/
theorem call (hs : I s) {call : Call} (hmeets : call.Meets T env s) :
    Ends (fun _ t => I t) (Left I D) (call.proc env) s := by
  cases call with
  | createTask goal successCriteria workspaceId constraints lane priority budget =>
      refine Ends.bind ((h.created goal successCriteria workspaceId constraints lane priority budget
        hs ?_).mono (fun _ _ ht => Ends.pure ht) (fun _ _ ht => ht))
      exact hmeets.creates _ _ _ _ _ _ _ rfl
  -- the task calls come down to the rules for changes of one task
  | queue taskId => exact h.queue taskId s hs
  | submit taskId => exact h.submit taskId s hs
  | wait taskId reason eventType => exact h.wait taskId reason eventType s hs
  | updateRuntimeState taskId state phase eventType actor =>
      exact h.updateRuntimeState taskId state phase eventType actor s hs
  | control taskId desired => exact (h.changes taskId hs).control desired
  | settleControl taskId safeBoundary externalCancelConfirmed =>
      exact h.settleControl taskId safeBoundary externalCancelConfirmed s hs
  | evaluateGoal taskId claims => exact (h.changes taskId hs).evaluateGoal claims
  | prepare taskId proposal expectedRevisions taskLease resourceLease =>
      refine Ends.bind ((h.prepare hs (hmeets.starts s _ _ _ _ _ .direct)).mono
        (fun _ _ ht => Ends.pure ht.1) (fun _ _ ht => ht))
  | execute operationId =>
      exact h.execute hs (fun op hop => hmeets.begins operationId op rfl hop)
  | recoverOperation operationId => exact h.recoverOperation operationId s hs
  | step runner taskId manifest taskLease =>
      exact h.step hs (fun u proposal expectedRevisions resourceLease =>
        hmeets.starts u _ proposal expectedRevisions _ resourceLease)
  | recover => exact Upholds.bind h.recover (fun _ => Upholds.pure _) s hs
  | register entity => exact h.registered (hmeets.registers entity rfl) s hs
  | observe source observationType value domain workspaceId =>
      exact h.observed source observationType value domain workspaceId
        (hmeets.observes _ _ _ _ _ rfl) s hs
  | relate source relation target =>
      exact h.related source relation target (hmeets.relates _ _ _ rfl) s hs
  -- lease calls are apart from all that is kept
  | claimNext ownerId leaseSeconds =>
      refine h.upheld_apart (Apart.frame.bind apart_readClock (fun ts => ?_)) s hs
      exact Apart.frame.bind (apart_claimNextTask _ _ ts) (fun _ => Apart.frame.pure _)
  | renewLease lease leaseSeconds =>
      refine h.upheld_apart (Apart.frame.bind apart_readClock (fun ts => ?_)) s hs
      exact Apart.frame.bind (apart_renewTaskLease _ _ ts) (fun _ => Apart.frame.pure _)
  | releaseLease lease =>
      refine h.upheld_apart ?_ s hs
      exact Apart.frame.bind (apart_releaseTaskLease lease) (fun _ => Apart.frame.pure _)
  | flushOutbox => exact Upholds.bind h.flush (fun _ => Upholds.pure _) s hs
  | restart registry capabilities broker =>
      exact Ends.modifying (h.restarted registry capabilities broker (h.durable hs))

/-- After a call the invariant holds, or the process has ended. -/
theorem exec (hs : I s) {call : Call} (hmeets : call.Meets T env s) :
    D (call.exec env s) ∧ (call.died env s = false → I (call.exec env s)) := by
  have hends := h.call hs hmeets
  refine ⟨?_, Call.exec_of_lived hends⟩
  rw [Call.exec_eq]
  cases hrun : call.proc env s with
  | ok a t =>
      rw [after_of_ok hrun]
      exact h.durable (hends.returned hrun)
  | error fault t =>
      rw [after_of_error hrun]
      have ht := hends.raised hrun
      cases fault with
      | crash => exact ht
      | raised e => exact h.durable ht

/-- **What every attended run on the terms preserves.** The store keeps `D` throughout, and the
invariant holds wherever a process lives. -/
theorem run {calls : List Call} : ∀ {alive : Bool} {s : Sys}, D s → (alive = true → I s) →
    Attended env alive s calls → Along env (fun s call => call.Meets T env s) s calls →
    D (runCalls env s calls) := by
  induction calls with
  | nil => exact fun hD _ _ _ => hD
  | cons call calls ih =>
      intro alive s hD hI hattended halong
      obtain ⟨hrestart, hattended⟩ := hattended
      obtain ⟨hmeets, halong⟩ := halong
      have hexec : D (call.exec env s) ∧ (call.died env s = false → I (call.exec env s)) := by
        cases alive with
        | true => exact h.exec (hI rfl) hmeets
        | false =>
            -- only a restart follows a dead process
            cases call with
            | restart registry capabilities broker =>
                have hnew := h.restarted registry capabilities broker hD
                exact ⟨h.durable hnew, fun _ => hnew⟩
            | _ => cases hrestart rfl
      refine ih hexec.1 (fun halive => hexec.2 ?_) hattended halong
      simpa using halive

/-- **What a run preserves in which no process ends**: the whole invariant, after calls that return
and calls that raise. -/
theorem lived {calls : List Call} : ∀ {s : Sys}, I s →
    Along env (fun s call => call.Meets T env s ∧ call.died env s = false) s calls →
    I (runCalls env s calls) := by
  induction calls with
  | nil => exact fun hI _ => hI
  | cons call calls ih =>
      rintro s hI ⟨⟨hmeets, hlived⟩, halong⟩
      exact ih ((h.exec hI hmeets).2 hlived) halong

end EngineRules

end LiandanluNative
