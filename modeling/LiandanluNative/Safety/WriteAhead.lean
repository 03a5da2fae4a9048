/-
# LiandanluNative.Safety.WriteAhead — a side effect is written down before it is made.

`Accounted` ties three things together for every operation whose capability was ever called: the
record in memory, the row in the store, and the ghost list of invocations.  It survives every call
that does not hand an operation to `execute` on its own (`Accounted.call`), a restart, and a process
that ends at any boundary, so it holds after every run (`Accounted.run`).
-/
import LiandanluNative.Runtime.CallMoves

namespace LiandanluNative

open Lib (Table)
open Lib.Proc Lib.WriteThrough

/-! ## The accounting

Every effect that was made is that of an operation in the store, and an operation that was only
prepared has none.
-/

/-- Neither PREPARED nor CANCELLED: the capability may have been called. -/
def OperationState.Underway (state : OperationState) : Prop := state ≠ .prepared ∧ state ≠ .cancelled

/-- The ids of the operations whose capability was called, in the order of the calls. -/
def Sys.invokedIds (s : Sys) : List String := s.invocations.map (fun i => i.op.operationId)

/-- The ids `new_id` has still to give are in no table. -/
def FreshIds (env : Env) (s : Sys) : Prop := ∀ n, s.ids ≤ n →
  s.operations.get? (env.newId "op" n) = none ∧ s.db.operations.get? (env.newId "op" n) = none

/-- Every operation whose capability was called is accounted for, in memory and in the store. -/
structure Accounted (env : Env) (s : Sys) : Prop where
  once : s.invokedIds.Nodup
  memory : ∀ id ∈ s.invokedIds, ∃ op, s.operations.get? id = some op ∧ op.state.Underway
  durable : s.persistent = true →
    ∀ id ∈ s.invokedIds, ∃ row, s.db.operations.get? id = some row ∧ row.state.Underway
  fresh : FreshIds env s

/-- An operation does not become PREPARED, and becomes CANCELLED from PREPARED only. -/
def Operation.Settles (op op' : Operation) : Prop :=
  (op'.state = .prepared → op.state = .prepared) ∧
    (op'.state = .cancelled → op.state = .prepared ∨ op.state = .cancelled)

/-- Operations may settle, and the one named `opened` may be anything; no capability is called. -/
def Allowance.settling (opened : String → Prop) : Allowance :=
  { Allowance.free with
    operation := fun id m op => opened id ∨ ∃ old, m = some old ∧ old.Settles op
    invoke := fun _ => False }

theorem Allowance.settling_closed (opened : String → Prop) : (Allowance.settling opened).Closed where
  task := fun _ _ _ _ _ _ => trivial
  operation := by
    rintro id m v w (hid | ⟨old, rfl, hprep, hcanc⟩) hvw
    · exact Or.inl hid
    rcases hvw with hid | ⟨_, hv, hprep', hcanc'⟩
    · exact Or.inl hid
    cases hv
    refine Or.inr ⟨old, rfl, fun h => hprep (hprep' h), fun h => ?_⟩
    rcases hcanc' h with h | h
    · exact Or.inl (hprep h)
    · exact hcanc h
  world := fun _ _ _ _ _ => trivial

theorem Allowance.settling_advances (opened : String → Prop) (operationId : String) :
    (Allowance.settling opened).Advances operationId := by
  rintro op op' (hsame | ⟨hprep, hcanc⟩)
  · exact Or.inr ⟨op, rfl, fun h => hsame ▸ h, fun h => Or.inr (hsame ▸ h)⟩
  · exact Or.inr ⟨op, rfl, fun h => absurd h hprep, fun h => absurd h hcanc⟩

theorem Allowance.settling_touches (opened : String → Prop) (taskId : String) :
    (Allowance.settling opened).Touches taskId where
  keep := fun _ => trivial
  bump := fun _ => trivial
  world := fun _ => trivial

/-! ## What keeps it -/

namespace Accounted

variable {env : Env} {s t : Sys}

/-- Where no capability was called there is nothing to account for. -/
theorem start (hnone : s.invocations = []) (hfresh : FreshIds env s) : Accounted env s := by
  have hempty : s.invokedIds = [] := by rw [Sys.invokedIds, hnone, List.map_nil]
  refine ⟨?_, ?_, ?_, hfresh⟩
  · rw [hempty]
    exact List.nodup_nil
  · rw [hempty]
    exact fun id hid => absurd hid List.not_mem_nil
  · rw [hempty]
    exact fun _ id hid => absurd hid List.not_mem_nil

theorem invokedIds_eq {A : Allowance} (h : Moves A s t) (hno : ∀ i, ¬ A.invoke i) :
    t.invokedIds = s.invokedIds := by
  unfold Sys.invokedIds
  rw [h.invocations_eq hno]

/-- What no call of a capability can undo survives while operations settle. -/
theorem moves (h : Accounted env s) {opened : String → Prop}
    (hunused : ∀ id, opened id → id ∉ s.invokedIds ∧ ∀ n, s.ids ≤ n → id ≠ env.newId "op" n)
    (hm : Moves (.settling opened) s t) : Accounted env t := by
  have hids : t.invokedIds = s.invokedIds := invokedIds_eq hm (fun _ hi => hi)
  have hkeep : ∀ id ∈ s.invokedIds, ∀ v w : Operation, v.state.Underway →
      (Allowance.settling opened).operation id (some v) w → w.state.Underway := by
    rintro id hid v w hv (hopen | ⟨_, hsome, hprep, hcanc⟩)
    · exact absurd hid (hunused id hopen).1
    · cases hsome
      refine ⟨fun hw => hv.1 (hprep hw), fun hw => ?_⟩
      rcases hcanc hw with hold | hold
      · exact hv.1 hold
      · exact hv.2 hold
  refine ⟨hids ▸ h.once, ?_, ?_, ?_⟩
  · rw [hids]
    intro id hid
    exact (hm.operations id).keeps_memory (hkeep id hid) (h.memory id hid)
  · rw [hids, hm.persistent]
    intro hpersistent id hid
    refine (hm.operations id).keeps_durable (K := fun op => op.state.Underway) (hkeep id hid) ?_
      (h.memory id hid) (h.durable hpersistent id hid)
    intro v r hv hshow
    rw [hshow]
    exact hv
  · intro n hn
    have hn' : s.ids ≤ n := hm.ids.trans hn
    obtain ⟨hmem, hrow⟩ := h.fresh n hn'
    have hno : ∀ v, ¬ (Allowance.settling opened).operation (env.newId "op" n) none v := by
      rintro v (hopen | ⟨_, hsome, _⟩)
      · exact (hunused _ hopen).2 n hn' rfl
      · cases hsome
    have hstill := hm.operations (env.newId "op" n)
    rw [hmem] at hstill
    obtain ⟨hmem', hrow'⟩ := hstill.still hno
    exact ⟨hmem', hrow'.trans hrow⟩

theorem settled (h : Accounted env s) (hm : Moves (.settling fun _ => False) s t) : Accounted env t :=
  h.moves (fun _ hid => hid.elim) hm

/-- A call of a capability is accounted for when its operation is under way, in memory and, with a
store, in its row, and has not been called before. -/
theorem invoked (h : Accounted env s) (op : Operation) {locators : List String}
    (hnew : op.operationId ∉ s.invokedIds)
    (hmemory : s.operations.get? op.operationId = some op) (hop : op.state.Underway)
    (hrow : s.persistent = true →
      ∃ row, s.db.operations.get? op.operationId = some row ∧ row.state.Underway) :
    Accounted env (s.invoked op locators) := by
  have hids : (s.invoked op locators).invokedIds = s.invokedIds ++ [op.operationId] := by
    simp only [Sys.invokedIds, Sys.invoked, Sys.invocation, List.map_append, List.map_cons,
      List.map_nil]
  refine ⟨?_, ?_, ?_, h.fresh⟩
  · rw [hids, List.nodup_append]
    refine ⟨h.once, List.nodup_singleton _, ?_⟩
    intro a ha b hb hab
    rw [List.mem_singleton] at hb
    exact hnew (hb ▸ hab ▸ ha)
  · intro id hid
    rw [hids, List.mem_append, List.mem_singleton] at hid
    rcases hid with hid | rfl
    · exact h.memory id hid
    · exact ⟨op, hmemory, hop⟩
  · intro hpersistent id hid
    rw [hids, List.mem_append, List.mem_singleton] at hid
    rcases hid with hid | rfl
    · exact h.durable hpersistent id hid
    · exact hrow hpersistent

/-- An operation that is not under way in memory was never called. -/
theorem not_invoked (h : Accounted env s) {op : Operation} {id : String}
    (hop : s.operations.get? id = some op) (hstate : ¬ op.state.Underway) : id ∉ s.invokedIds := by
  intro hid
  obtain ⟨op', hop', hunder⟩ := h.memory id hid
  rw [hop] at hop'
  cases hop'
  exact hstate hunder

theorem prepared (h : Accounted env s) (hinj : Function.Injective (env.newId "op")) (taskId : String)
    (proposal : ActionProposal) (expectedRevisions : List (String × Int))
    (taskLease : Option TaskLease) (resourceLease : Option ResourceLease) :
    Accounted env
      (after (prepare env taskId proposal expectedRevisions taskLease resourceLease) s) := by
  cases prepare_cases env taskId proposal expectedRevisions taskLease resourceLease s with
  | refused hmoves => exact h.settled (hmoves _)
  | opened task spec u hfound hreads htaken hleased hstarted =>
      have hu : Accounted env u := by
        refine h.settled ?_
        rw [htaken]
        exact { Moves.refl with ids := Nat.le_succ _, clockReads := hreads }
      rw [hstarted]
      have hA := Allowance.settling_closed (fun id => id = env.newId "op" s.ids)
      refine hu.moves ?_ (moves_startOperation hA (Allowance.settling_touches _ _) trivial
        (Or.inl rfl) (fun _ => Or.inl rfl))
      rintro id rfl
      constructor
      · -- an id that was still to be given is in no table
        intro hid
        obtain ⟨op, hop, _⟩ := hu.memory _ hid
        rw [htaken] at hop
        rw [(h.fresh s.ids le_rfl).1] at hop
        cases hop
      · intro n hn heq
        have hlater : s.ids + 1 ≤ n := by
          rw [htaken] at hn
          exact hn
        have hsame := hinj heq
        omega

/-- `execute` of an operation that is PREPARED, or that its gates refuse. -/
theorem executed (h : Accounted env s) {operationId : String}
    (hprepared : ∀ op locators t, s.operations.get? operationId = some op →
      PassedGates env op locators s t → op.state = .prepared) :
    Accounted env (after (executeOperation env operationId) s) := by
  unfold executeOperation
  refine after_bind (fun e t ht => ?_) (fun locators v hv => ?_)
  · exact h.settled ((executeGates_reads operationId).of_error ht).moves
  obtain ⟨op, hop, hpassed⟩ := executeGates_eq_ok hv
  have hstate := hprepared op locators v hop hpassed
  have hid : op.operationId = operationId := Table.key_of_get? hop
  subst hid
  have hv : Accounted env v := h.settled hpassed.reads.moves
  have hopv : v.operations.get? op.operationId = some op := by
    rw [hpassed.reads.2]
    exact hop
  have hnew : op.operationId ∉ v.invokedIds :=
    hv.not_invoked hopv (fun hunder => hunder.1 hstate)
  have hA := Allowance.settling_closed (fun _ => False)
  have hadv := Allowance.settling_advances (fun _ => False) op.operationId
  cases carryOut_cases env locators hopv with
  | uncalled hmoves => exact hv.settled (hmoves _ hA hadv)
  | called u hbegun hreached hmoves =>
      have hu : Accounted env u := hv.settled (hreached _ hA hadv)
      have hids : u.invokedIds = v.invokedIds := invokedIds_eq (hreached _ hA hadv) (fun _ hi => hi)
      refine settled (hu.invoked op.begun ?_ hbegun.memory ⟨nofun, nofun⟩ ?_)
        (hmoves _ hA hadv)
      · rw [hids]
        exact hnew
      · intro hpersistent
        obtain ⟨row, hrow, hrunning⟩ := hbegun.stored
          ((hreached _ hA hadv).persistent.symm.trans hpersistent)
        refine ⟨row, hrow, ?_⟩
        rw [hrunning]
        exact ⟨nofun, nofun⟩

/-- A step executes an operation right after it prepared it. -/
theorem stepped (h : Accounted env s) (hinj : Function.Injective (env.newId "op")) (runner : Runner)
    (taskId : String) (manifest : ContextManifest) (taskLease : Option TaskLease) :
    Accounted env (after (step env runner taskId manifest taskLease) s) := by
  have hR := frame_keeps (Accounted env)
  have hstep : StepWithin (Keeps (Accounted env)) env taskId :=
    (stepWithin_free (Allowance.settling_closed fun _ => False) env (fun _ => trivial)
      (fun _ _ => trivial) trivial).mono (fun s t hm hs => hs.settled hm)
  refine step_within hR hR (fun _ _ h => h) hstep
    (fun v proposal spec expectedRevisions resourceLease _ => ?_) h
  refine stepAct_within hR hstep (fun hv => hv.prepared hinj _ _ _ _ _) ?_
  intro operationId t u hprepare hupdate hu
  obtain ⟨task, spec', hp⟩ := prepare_eq_ok hprepare
  have htu := ((stepWithin_taskwork env taskId).update _ _ _ _ (by decide)).of_ok hupdate
  refine hu.executed (fun op locators w hop _ => ?_)
  rw [((htu.operations operationId).still (fun _ hno => hno)).1, hp.operation] at hop
  cases hop
  rfl

/-- `recover_operation` lets operations settle. -/
theorem recoverOperation_settles (operationId : String) :
    Within (Moves (.settling fun _ => False)) (recoverOperation env operationId) := by
  refine moves_recoverOperation (Allowance.settling_closed _) env
    (Allowance.settling_advances _ operationId) (fun op hprepared => ?_)
  exact Or.inr ⟨op, rfl, fun _ => hprepared, fun _ => Or.inl hprepared⟩

/-- A new process finds in the store what the last one accounted for. -/
theorem restarted (h : Accounted env s) (hpersistent : s.persistent = true)
    (registry : CapabilityRegistry) (capabilities : List String) (broker : Option ResourceBroker) :
    Accounted env (s.restart registry capabilities broker) where
  once := h.once
  memory := h.durable hpersistent
  durable := fun _ => h.durable hpersistent
  fresh := fun n hn => ⟨(h.fresh n hn).2, (h.fresh n hn).2⟩

end Accounted

/-! ## Runs -/

/-- Every call but a direct `execute`: a step is what executes. -/
def Call.mediated : Call → Prop
  | .execute _ => False
  | _ => True

/-- The engine has a store, and its effects are accounted for. -/
def WrittenAhead (env : Env) (s : Sys) : Prop := s.persistent = true ∧ Accounted env s

namespace WrittenAhead

variable {env : Env} {s t : Sys}

theorem moves (h : WrittenAhead env s) (hm : Moves (.settling fun _ => False) s t) :
    WrittenAhead env t :=
  ⟨hm.persistent.trans h.1, h.2.settled hm⟩

/-- **What every call preserves.** -/
theorem call (h : WrittenAhead env s) (hinj : Function.Injective (env.newId "op")) {call : Call}
    (hcall : call.mediated) : WrittenAhead env (call.exec env s) := by
  cases call with
  | prepare taskId proposal expectedRevisions taskLease resourceLease =>
      have hfree := moves_prepare Allowance.free_closed env (Allowance.free_works taskId)
        (fun _ _ _ => trivial) proposal expectedRevisions taskLease resourceLease s
      exact ⟨hfree.persistent.trans h.1, h.2.prepared hinj _ _ _ _ _⟩
  | execute operationId => exact hcall.elim
  | step runner taskId manifest taskLease =>
      have hfree := moves_step Allowance.free_closed env (Allowance.free_works taskId)
        (fun _ _ _ => trivial) trivial (fun _ => trivial) runner manifest taskLease s
      exact ⟨hfree.persistent.trans h.1, h.2.stepped hinj _ _ _ _⟩
  | restart registry capabilities broker =>
      exact ⟨rfl, h.2.restarted h.1 registry capabilities broker⟩
  | _ =>
      -- no other call opens an operation or calls a capability: its operations only settle
      exact h.moves (moves_call (Allowance.settling_closed _) env (Allowance.settling_touches _)
        (fun _ _ => trivial) trivial Accounted.recoverOperation_settles s trivial
        (Allowance.permits_of_free (fun _ _ _ => trivial) _))

/-- **What every run preserves.** -/
theorem run (h : WrittenAhead env s) (hinj : Function.Injective (env.newId "op"))
    {calls : List Call} (hcalls : ∀ call ∈ calls, call.mediated) :
    WrittenAhead env (runCalls env s calls) :=
  runCalls_induction env (fun _ _ hs hcall => hs.call hinj hcall) calls s h hcalls

end WrittenAhead

/-- **Write-ahead of side effects.**  Take any engine on a store that has called no capability yet,
and any run of its calls and of restarts, the process ending at any boundary.  Then every operation
whose capability was ever called has a row that is not PREPARED; an operation that is CANCELLED, in
memory or in the store, was never called; and no operation was called twice. -/
theorem effects_written_ahead (env : Env) (hids : Function.Injective env.uuid) (s : Sys)
    (hstore : s.persistent = true) (hnone : s.invocations = []) (hfresh : FreshIds env s)
    (calls : List Call) (hcalls : ∀ call ∈ calls, call.mediated) :
    (∀ i ∈ (runCalls env s calls).invocations,
      ∃ row, (runCalls env s calls).db.operations.get? i.op.operationId = some row ∧
        row.state ≠ .prepared) ∧
    (∀ id op, (runCalls env s calls).operations.get? id = some op ∨
        (runCalls env s calls).db.operations.get? id = some op →
      op.state = .cancelled → id ∉ (runCalls env s calls).invokedIds) ∧
    (runCalls env s calls).invokedIds.Nodup := by
  have hstart : WrittenAhead env s := ⟨hstore, .start hnone hfresh⟩
  obtain ⟨hpersistent, hacc⟩ := hstart.run (Env.newId_injective hids "op") hcalls
  refine ⟨?_, ?_, hacc.once⟩
  · intro i hi
    obtain ⟨row, hrow, hstate⟩ := hacc.durable hpersistent i.op.operationId (List.mem_map_of_mem hi)
    exact ⟨row, hrow, hstate.1⟩
  · rintro id op (hop | hop) hcancelled hid
    · exact hacc.not_invoked hop (fun hunder => hunder.2 hcancelled) hid
    · obtain ⟨row, hrow, hstate⟩ := hacc.durable hpersistent id hid
      rw [hop] at hrow
      cases hrow
      exact hstate.2 hcancelled

/-- The process ends while the capability runs; the next one reconciles. -/
def dyingEnv : Env := { Small.env with dies := fun n => decide (n = 10) }

/-- The run on which it does. -/
def interrupted : List Call :=
  Small.oneStep ++ [.restart Small.start.registry ["editor"] none, .recover]

theorem effects_written_ahead_interrupted :
    (runCalls dyingEnv Small.start interrupted).invokedIds = ["op_ii"] ∧
    ∀ i ∈ (runCalls dyingEnv Small.start interrupted).invocations,
      ∃ row, (runCalls dyingEnv Small.start interrupted).db.operations.get? i.op.operationId
          = some row ∧ row.state ≠ .prepared := by
  refine ⟨by decide +kernel, ?_⟩
  refine (effects_written_ahead dyingEnv tallyId_injective Small.start rfl rfl ?_ interrupted ?_).1
  · exact fun n _ => ⟨rfl, rfl⟩
  · intro call hcall
    simp only [interrupted, Small.oneStep, List.cons_append, List.nil_append, List.mem_cons,
      List.not_mem_nil, or_false] at hcall
    rcases hcall with rfl | rfl | rfl | rfl <;> trivial

end LiandanluNative
