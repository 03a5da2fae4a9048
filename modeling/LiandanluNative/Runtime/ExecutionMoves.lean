/-
# LiandanluNative.Runtime.ExecutionMoves — from a proposal to the call of a capability.

What has been checked and written when `prepare` returns (`prepare_eq_ok`), when the gates of
`execute` have passed (`executeGates_eq_ok`), and when the capability is called (`Begun`):
`carryOut_cases` takes a run of `execute` apart at that call, which happens once or not at all.

The gates and the checks of `prepare` only read, the clock included, so what they found is found in
the state they started from, at a reading of the clock in between (`CheckedBetween`).  Between the
gates and the call one thing is written, that the operation is RUNNING (`Begun`): what the gates
have seen of tasks, world and leases is therefore still so when the capability is called.
-/
import LiandanluNative.Runtime.OperationMoves

namespace LiandanluNative

open Lib (Table)
open Lib.Proc Lib.WriteThrough

/-! ## Reading

Computations that read, or draw ids and times at most.  What they return says something about the
state they started from, and that is the state they leave.
-/

/-- Nothing happened but readings of the clock, which are counted, as each may give another time. -/
def OnlyReads (s t : Sys) : Prop :=
  s.clockReads ≤ t.clockReads ∧ t = { s with clockReads := t.clockReads }

/-- Reading twice is reading. -/
theorem frame_onlyReads : Frame OnlyReads where
  refl _ := ⟨le_rfl, rfl⟩
  trans := by
    rintro s t u ⟨hst, ht⟩ ⟨htu, hu⟩
    refine ⟨hst.trans htu, ?_⟩
    rw [hu, ht]

/-- What only reads is within every allowance. -/
theorem OnlyReads.moves {A : Allowance} {s t : Sys} (h : OnlyReads s t) : Moves A s t := by
  obtain ⟨hreads, ht⟩ := h
  rw [ht]
  exact { Moves.refl with clockReads := hreads }

section

variable (env : Env) {s t : Sys}

/-- The clock was read between the two states, and the store's answer was yes. -/
def CheckedBetween (s t : Sys) (valid : ℚ → Bool) : Prop :=
  ∃ n, s.clockReads ≤ n ∧ n < t.clockReads ∧ valid (env.clock n) = true

variable {env}

/-- A check made in a stretch was made in any longer one. -/
theorem CheckedBetween.mono {valid : ℚ → Bool} {s' t' : Sys} (h : CheckedBetween env s t valid)
    (hs : s'.clockReads ≤ s.clockReads) (ht : t.clockReads ≤ t'.clockReads) :
    CheckedBetween env s' t' valid := by
  obtain ⟨n, hn, hnt, hvalid⟩ := h
  exact ⟨n, hs.trans hn, hnt.trans_le ht, hvalid⟩

/-- **A lease that was found valid** was valid by the row in the store, at a reading of the clock in
between.  By the time it is used it may have run out. -/
theorem taskLeaseValid_eq_ok {taskId ownerId : String} {generation : Int} {b : Bool}
    (h : taskLeaseValid env taskId ownerId generation s = .ok b t) :
    OnlyReads s t ∧ (b = true → CheckedBetween env s t
      (s.db.validateTaskLeaseIdentity taskId ownerId generation)) := by
  cases h
  exact ⟨⟨Nat.le_succ _, rfl⟩, fun hb => ⟨s.clockReads, le_rfl, Nat.lt_succ_self _, hb⟩⟩

theorem resourceLeaseValid_eq_ok {taskId ownerId : String} {generation : Int} {b : Bool}
    (h : resourceLeaseValid env taskId ownerId generation s = .ok b t) :
    OnlyReads s t ∧ (b = true → CheckedBetween env s t
      (s.db.validateResourceLeaseIdentity taskId ownerId generation)) := by
  cases h
  exact ⟨⟨Nat.le_succ _, rfl⟩, fun hb => ⟨s.clockReads, le_rfl, Nat.lt_succ_self _, hb⟩⟩

/-- Looking it up changes nothing. -/
theorem taskLeaseValid_reads (taskId ownerId : String) (generation : Int) :
    Within OnlyReads (taskLeaseValid env taskId ownerId generation) :=
  fun _ => ⟨Nat.le_succ _, rfl⟩

theorem resourceLeaseValid_reads (taskId ownerId : String) (generation : Int) :
    Within OnlyReads (resourceLeaseValid env taskId ownerId generation) :=
  fun _ => ⟨Nat.le_succ _, rfl⟩

/-- Nor does refusing it. -/
theorem checkLease_reads {taskId leaseTaskId foreign stale : String} {valid : M Bool}
    (hvalid : Within OnlyReads valid) :
    Within OnlyReads (checkLease taskId leaseTaskId foreign stale valid) := by
  have hF := frame_onlyReads
  unfold checkLease
  split
  · exact within_raise hF _
  refine hF.bind hF.get (fun s => ?_)
  split
  · refine hF.bind hvalid (fun b => ?_)
    split
    · exact hF.pure _
    · exact within_raise hF _
  · exact hF.pure _

/-- A lease that passes is one of the task, which the store holds valid if there is one.  Without a
store nobody is asked. -/
theorem checkLease_eq_ok {taskId leaseTaskId foreign stale : String} {valid : M Bool}
    (h : checkLease taskId leaseTaskId foreign stale valid s = .ok () t) :
    leaseTaskId = taskId ∧ (s.persistent = true → valid s = .ok true t) := by
  unfold checkLease at h
  split at h
  · cases h
  rename_i hown
  refine ⟨not_not.mp hown, fun hpersistent => ?_⟩
  obtain ⟨u, v, hget, h⟩ := bind_eq_ok.mp h
  cases hget
  rw [if_pos hpersistent] at h
  obtain ⟨b, v, hv, h⟩ := bind_eq_ok.mp h
  split at h
  · rename_i hb
    cases h
    rw [hv, hb]
  · cases h

theorem recheckLease_reads {ownerId : Option String} {generation : Option Int} {lost : String}
    {valid : String → Int → M Bool} (hvalid : ∀ o g, Within OnlyReads (valid o g)) :
    Within OnlyReads (recheckLease ownerId generation lost valid) := by
  have hF := frame_onlyReads
  unfold recheckLease
  refine hF.bind hF.get (fun s => ?_)
  split
  · split
    · exact within_raise hF _
    · refine hF.bind (hvalid _ _) (fun b => ?_)
      split
      · exact hF.pure _
      · exact within_raise hF _
  · exact hF.pure _

/-- An identity an operation carries passes when the store holds it valid.  An operation that was
prepared without a lease carries none and is not checked. -/
theorem recheckLease_eq_ok {ownerId : Option String} {generation : Option Int} {lost : String}
    {valid : String → Int → M Bool} (h : recheckLease ownerId generation lost valid s = .ok () t)
    (hpersistent : s.persistent = true) {owner : String} (howner : ownerId = some owner) :
    ∃ g, generation = some g ∧ valid owner g s = .ok true t := by
  subst howner
  unfold recheckLease at h
  obtain ⟨u, v, hget, h⟩ := bind_eq_ok.mp h
  cases hget
  rw [hpersistent] at h
  cases generation with
  | none => cases h
  | some g =>
      obtain ⟨b, v, hv, h⟩ := bind_eq_ok.mp h
      refine ⟨g, rfl, ?_⟩
      split at h
      · rename_i hb
        cases h
        rw [hv, hb]
      · cases h

/-! ## The gates of `execute`

`execute` asks six things before it calls the capability.  What it has learned by then is one
structure.
-/

/-- **The gates** change nothing, passed or not: an execution that is refused leaves no trace. -/
theorem executeGates_reads (operationId : String) :
    Within OnlyReads (executeGates env operationId) := by
  have hF := frame_onlyReads
  unfold executeGates
  refine hF.bind (within_getOperation hF _) (fun op => ?_)
  refine hF.bind (recheckLease_reads (taskLeaseValid_reads _)) (fun _ => ?_)
  refine hF.bind (recheckLease_reads (resourceLeaseValid_reads _)) (fun _ => ?_)
  refine hF.bind hF.get (fun s => ?_)
  split
  · exact within_raise hF _
  refine hF.bind (within_liftExcept hF _) (fun _ => ?_)
  exact within_liftExcept hF _

/-- What `execute` has checked of an operation when its gates have let it pass. -/
structure PassedGates (env : Env) (op : Operation) (locators : List String) (s t : Sys) : Prop where
  reads : OnlyReads s t
  taskLease : s.persistent = true → ∀ owner, op.taskLeaseOwnerId = some owner →
    ∃ g, op.taskLeaseGeneration = some g ∧
      CheckedBetween env s t (s.db.validateTaskLeaseIdentity op.taskId owner g)
  resourceLease : s.persistent = true → ∀ owner, op.resourceLeaseOwnerId = some owner →
    ∃ g, op.resourceLeaseGeneration = some g ∧
      CheckedBetween env s t (s.db.validateResourceLeaseIdentity op.taskId owner g)
  capability : op.capability ∈ s.capabilities
  revisions : s.world.assertRevisions (some op.workspaceId) op.expectedRevisions = .ok ()
  locators :
    s.world.resolveLocators op.requiredPermission op.workspaceId op.objectRefs = .ok locators

/-- **Gates that have passed** have checked the operation as memory has it, one by one, and answer
the locators its object references resolve to. -/
theorem executeGates_eq_ok {operationId : String} {locators : List String}
    (h : executeGates env operationId s = .ok locators t) :
    ∃ op, s.operations.get? operationId = some op ∧ PassedGates env op locators s t := by
  unfold executeGates at h
  obtain ⟨op, s₀, hget, hchecks⟩ := bind_eq_ok.mp h
  obtain ⟨hop, hs₀⟩ := getOperation_eq_ok.mp hget
  rw [hs₀] at hchecks
  obtain ⟨_, s₁, htask, hchecks⟩ := bind_eq_ok.mp hchecks
  obtain ⟨_, s₂, hresource, hchecks⟩ := bind_eq_ok.mp hchecks
  obtain ⟨_, _, hs₂, hworld⟩ := bind_eq_ok.mp hchecks
  cases hs₂
  have hread₁ : OnlyReads s s₁ := (recheckLease_reads (taskLeaseValid_reads _)).of_ok htask
  have hread₂ : OnlyReads s₁ s₂ := (recheckLease_reads (resourceLeaseValid_reads _)).of_ok hresource
  split at hworld
  · cases hworld
  rename_i hcap
  obtain ⟨_, _, hrev, hloc⟩ := bind_eq_ok.mp hworld
  obtain ⟨hrev, rfl⟩ := liftExcept_eq_ok.mp hrev
  obtain ⟨hloc, rfl⟩ := liftExcept_eq_ok.mp hloc
  -- the readings of the clock change nothing the checks look at
  have hsame := (frame_onlyReads.trans hread₁ hread₂).2
  rw [hsame] at hcap hrev hloc
  refine ⟨op, hop, frame_onlyReads.trans hread₁ hread₂, ?_, ?_, not_not.mp hcap, hrev, hloc⟩
  · intro hpersistent owner howner
    obtain ⟨g, hg, hvalid⟩ := recheckLease_eq_ok htask hpersistent howner
    exact ⟨g, hg, ((taskLeaseValid_eq_ok hvalid).2 rfl).mono le_rfl hread₂.1⟩
  · intro hpersistent owner howner
    have hpersistent₁ : s₁.persistent = true := by
      rw [hread₁.2]
      exact hpersistent
    obtain ⟨g, hg, hvalid⟩ := recheckLease_eq_ok hresource hpersistent₁ howner
    have hchecked := (resourceLeaseValid_eq_ok hvalid).2 rfl
    rw [hread₁.2] at hchecked
    exact ⟨g, hg, hchecked.mono hread₁.1 le_rfl⟩

end

/-! ## Carrying out

From the gates on the operation is begun, the capability called, and the answer stored and judged. 
Between the call and the store of its answer the process may end, with the effect made and nothing
of it stored.
-/

/-- Nothing may happen but that the world changes. -/
def Allowance.still : Allowance where
  task := fun _ _ _ => False
  operation := fun _ _ _ => False
  world := fun _ _ => True
  resources := False
  leases := False
  invoke := fun _ => False

/-- Two changes of the world are one. -/
theorem Allowance.still_closed : Allowance.still.Closed where
  task := fun _ _ _ _ h _ => h
  operation := fun _ _ _ _ h _ => h
  world := fun _ _ _ _ _ => trivial

/-- Everything may happen: the allowance of which only the frame is used, that clocks, ids and logs
move on. -/
def Allowance.free : Allowance where
  task := fun _ _ _ => True
  operation := fun _ _ _ => True
  world := fun _ _ => True
  resources := True
  leases := True
  invoke := fun _ => True

/-- Anything after anything is permitted. -/
theorem Allowance.free_closed : Allowance.free.Closed where
  task := fun _ _ _ _ _ _ => trivial
  operation := fun _ _ _ _ _ _ => trivial
  world := fun _ _ _ _ _ => trivial

theorem Allowance.free_touches (taskId : String) : Allowance.free.Touches taskId where
  keep := fun _ => trivial
  bump := fun _ => trivial
  world := fun _ => trivial

/-- Anything may happen but to the operations. -/
def Allowance.taskwork : Allowance :=
  { Allowance.free with operation := fun _ _ _ => False, invoke := fun _ => False }

/-- So it is where only operations are left alone. -/
theorem Allowance.taskwork_closed : Allowance.taskwork.Closed where
  task := fun _ _ _ _ _ _ => trivial
  operation := fun _ _ _ _ h _ => h
  world := fun _ _ _ _ _ => trivial

/-- Nothing may happen but that the operation is stored as it is. -/
def Allowance.storing (operationId : String) : Allowance where
  task := fun _ _ _ => False
  operation := fun id m op => id = operationId ∧ m = some op
  world := fun _ _ => False
  resources := False
  leases := False
  invoke := fun _ => False

/-- An operation that is stored twice is stored as it is. -/
theorem Allowance.storing_closed (operationId : String) : (Allowance.storing operationId).Closed where
  task := fun _ _ _ _ h _ => h
  operation := by
    rintro id m v w ⟨hid, hm⟩ ⟨_, hv⟩
    exact ⟨hid, hm.trans hv⟩
  world := fun _ _ _ h _ => h

/-- The operation once `execute` has begun it.  RUNNING in the store is the mark that the effect may
have happened. -/
def Operation.begun (op : Operation) : Operation := { op with state := .running }

/-- The call of the capability as it is noted, with the state in which it was made: statements about
effects are about these notes. -/
def Sys.invocation (s : Sys) (op : Operation) (locators : List String) : Invocation where
  op := op
  locators := locators
  tasks := s.tasks
  world := s.world
  db := s.db
  clockReads := s.clockReads

/-- The state once the call has been noted. -/
def Sys.invoked (s : Sys) (op : Operation) (locators : List String) : Sys :=
  { s with invocations := s.invocations ++ [s.invocation op locators] }

/-- `execute` has begun the operation and recorded that it did: what holds when the capability is
called.  With a store the row says RUNNING before the effect. -/
structure Begun (s : Sys) (op : Operation) (u : Sys) : Prop where
  moves : Moves (.storing op.operationId) { s with operations := s.operations.put op.begun } u
  stored : s.persistent = true →
    ∃ row, u.db.operations.get? op.operationId = some row ∧ row.state = .running

namespace Begun

variable {s u : Sys} {op : Operation}

/-- At the call of the capability memory has the operation RUNNING. -/
theorem memory (h : Begun s op u) : u.operations.get? op.operationId = some op.begun := by
  have hget : (s.operations.put op.begun).get? op.operationId = some op.begun :=
    s.operations.get?_put_self op.begun
  rcases (h.moves.operations op.operationId).memory with hm | ⟨v, hv, _, hm⟩
  · exact hm.trans hget
  · rw [hv]
    exact hm.symm.trans hget

/-- At the call the tasks are as `execute` found them. -/
theorem task (h : Begun s op u) (taskId : String) :
    u.tasks.get? taskId = s.tasks.get? taskId ∧ u.db.tasks.get? taskId = s.db.tasks.get? taskId :=
  (h.moves.tasks taskId).still (fun _ hv => hv)

/-- At the call the world is as `execute` found it. -/
theorem world (h : Begun s op u) : u.world = s.world := h.moves.world.resolve_right id

/-- At the call the leases are as `execute` found them. -/
theorem taskLeases (h : Begun s op u) : u.db.taskLeases = s.db.taskLeases :=
  h.moves.taskLeases.resolve_left id

theorem resourceLeases (h : Begun s op u) : u.db.resourceLeases = s.db.resourceLeases :=
  (h.moves.resourceLeases.resolve_left id).1

end Begun

/-- A recorded operation has a row that shows its state. -/
theorem recordOp_stores {env : Env} {s t : Sys} {operationId eventType actor : String}
    {payload : List (PyKey × PyVal)} {op : Operation}
    (h : recordOp env operationId eventType actor payload s = .ok () t)
    (hop : s.operations.get? operationId = some op) (hpersistent : s.persistent = true) :
    ∃ row, t.db.operations.get? operationId = some row ∧ op.shownBy row := by
  unfold recordOp at h
  obtain ⟨op', s₀, hget, hrecord⟩ := bind_eq_ok.mp h
  obtain ⟨hop', hs₀⟩ := getOperation_eq_ok.mp hget
  rw [hs₀, Option.some.inj (hop'.symm.trans hop)] at hrecord
  obtain ⟨_, s₁, hs₁, hrecord⟩ := bind_eq_ok.mp hrecord
  cases hs₁
  rw [if_pos hpersistent] at hrecord
  obtain ⟨eventId, s₁, hs₁, hrecord⟩ := bind_eq_ok.mp hrecord
  cases hs₁
  obtain ⟨occurredAt, s₂, hs₂, hrecord⟩ := bind_eq_ok.mp hrecord
  cases hs₂
  obtain ⟨_, s₃, hstore, hdone⟩ := bind_eq_ok.mp hrecord
  cases hdone
  obtain ⟨db, hrun, rfl⟩ := store_eq_ok hstore
  obtain ⟨row, hid, hshow, hrecords⟩ := saveOperationWithOutboxEvent_eq_ok hrun
  simp only [Database.records, Prod.mk.injEq] at hrecords
  refine ⟨row, ?_, hshow⟩
  show db.operations.get? operationId = some row
  rw [hrecords.2.1, ← Table.key_of_get? hop, ← hid]
  exact Table.get?_put_self _ row

/-- `execute` from the call of the capability on. -/
def afterCall (env : Env) (operationId : String) (call : M PyVal) : M Unit := do
  let result ← catching Exc.isException
    (do
      let result ← call
      return some result)
    (fun e => do
      updateOperation operationId (fun op => { op with state := .unknown, error := some e.repr })
      recordOp env operationId "operation.unknown" "engine" (PyVal.payload [("error", .str e.repr)])
      return none)
  match result with
  | none => pure ()
  | some result =>
      updateOperation operationId (fun op => { op with result := result, state := .observed })
      saveOp env operationId
      verifyOperation env operationId

/-- The part of `execute` around its one call of the capability: begin and record it, call, and go
on with what the call gave. -/
theorem carryOut_eq (env : Env) (operationId : String) (locators : List String) :
    carryOut env operationId locators = (do
      updateOperation operationId (fun op => { op with state := .running })
      recordOp env operationId "operation.started" "engine" []
      afterCall env operationId (invokeCapability env operationId locators)) := rfl

/-- After the call the operation only advances. -/
theorem moves_afterCall {A : Allowance} (hA : A.Closed) (env : Env) {operationId : String}
    (hadv : A.Advances operationId) {call : M PyVal} (hcall : Within (Moves A) call) :
    Within (Moves A) (afterCall env operationId call) := by
  have hF := Moves.frame hA
  unfold afterCall
  refine hF.bind (within_catching hF ?_ (fun e => ?_)) (fun result => ?_)
  · exact hF.bind hcall (fun _ => hF.pure _)
  · refine hF.bind (moves_updateState hA hadv _ (fun _ => rfl) (fun _ => by simp)) (fun _ => ?_)
    exact hF.bind (moves_recordAdvanced hA env hadv _ _ _) (fun _ => hF.pure _)
  · cases result with
    | none => exact hF.pure _
    | some result =>
        refine hF.bind (moves_updateState hA hadv _ (fun _ => rfl) (fun _ => by simp)) (fun _ => ?_)
        refine hF.bind (moves_saveOp hA env (fun op => hadv op op (Or.inl rfl))) (fun _ => ?_)
        exact moves_verifyOperation hA env hadv

/-- What follows the call only depends on how the call ends.  So a call that is noted and then made
can be compared with one from a state in which it has been noted. -/
theorem afterCall_congr {env : Env} {operationId : String} {call call' : M PyVal} {s s' : Sys}
    (h : call s = call' s') :
    after (afterCall env operationId call) s = after (afterCall env operationId call') s' := by
  unfold after afterCall catching
  simp only [bind, EStateM.bind, handling, h]

/-- A capability is called once it has been noted. -/
theorem invokeCapability_eq {env : Env} {operationId : String} {locators : List String} {u : Sys}
    {op : Operation} (hop : u.operations.get? operationId = some op) :
    invokeCapability env operationId locators u
      = (boundary env >>= fun _ => callOut (env.execute · op locators)) (u.invoked op locators) := by
  have hget : getOperation operationId u = .ok op u := getOperation_eq_ok.mpr ⟨hop, rfl⟩
  unfold invokeCapability
  simp only [bind, EStateM.bind, hget]
  rfl

/-- How a run of `execute` past its gates can end in `t`. -/
inductive CarriedOut (s : Sys) (op : Operation) (locators : List String) (t : Sys) : Prop where
  /-- It ended before the capability was called. -/
  | uncalled (moves : ∀ A : Allowance, A.Closed → A.Advances op.operationId → Moves A s t)
  /-- It began the operation, called the capability, and let the operation advance. -/
  | called (u : Sys) (begun : Begun s op u)
      (reached : ∀ A : Allowance, A.Closed → A.Advances op.operationId → Moves A s u)
      (moves : ∀ A : Allowance, A.Closed → A.Advances op.operationId →
        Moves A (u.invoked op.begun locators) t)

/-- **The one call of the capability**: a run of `execute` past its gates is cut at it, or did not
come to it. -/
theorem carryOut_cases (env : Env) {s : Sys} {operationId : String} {op : Operation}
    (locators : List String) (hop : s.operations.get? operationId = some op) :
    CarriedOut s op locators (after (carryOut env operationId locators) s) := by
  have hid : op.operationId = operationId := Table.key_of_get? hop
  subst hid
  let started : Sys := { s with operations := s.operations.put op.begun }
  have hstarted : updateOperation op.operationId (fun op => { op with state := .running }) s
      = .ok () started := by
    unfold updateOperation
    exact bind_eq_ok.mpr ⟨op, s, getOperation_eq_ok.mpr ⟨hop, rfl⟩, rfl⟩
  -- setting RUNNING is a move of this operation
  have hbegin : ∀ A : Allowance, A.Closed → A.Advances op.operationId → Moves A s started := by
    intro A hA hadv
    refine Within.of_ok (moves_updateState hA hadv _ ?_ ?_) hstarted
    · exact fun op => rfl
    · exact fun op => by simp
  have hget : started.operations.get? op.operationId = some op.begun :=
    s.operations.get?_put_self op.begun
  rw [carryOut_eq]
  refine after_bind (fun e t ht => ?_) (fun _ t ht => ?_)
  · rw [hstarted] at ht
    cases ht
  rw [hstarted] at ht
  cases ht
  refine after_bind (fun e t ht => ?_) (fun _ u hu => ?_)
  · -- the start could not be recorded
    refine .uncalled (fun A hA hadv => ?_)
    exact (hbegin A hA hadv).trans hA ((moves_recordAdvanced hA env hadv _ _ _).of_error ht)
  -- it is recorded, and what is left is the call and what follows it
  · have hbegun : Begun s op u := by
      constructor
      · refine Within.of_ok (moves_recordOp (Allowance.storing_closed _) env ?_ _ _ _) hu
        exact fun op => ⟨rfl, rfl⟩
      · intro hpersistent
        exact recordOp_stores hu hget hpersistent
    refine .called u hbegun (fun A hA hadv => ?_) (fun A hA hadv => ?_)
    · exact (hbegin A hA hadv).trans hA ((moves_recordAdvanced hA env hadv _ _ _).of_ok hu)
    rw [afterCall_congr (invokeCapability_eq hbegun.memory)]
    refine moves_afterCall hA env hadv ?_ (u.invoked op.begun locators)
    exact (Moves.frame hA).bind within_boundary (fun _ => within_callOut _)

/-- **An execution** moves within an allowance that lets operations advance and permits the one
call, for which everything that has been checked can be used. -/
theorem moves_executeOperation {A : Allowance} (hA : A.Closed) (env : Env) {s : Sys}
    {operationId : String} (hadv : A.Advances operationId)
    (hinvoke : ∀ op locators v u, s.operations.get? operationId = some op →
      PassedGates env op locators s v → Begun v op u → A.invoke (u.invocation op.begun locators)) :
    Moves A s (after (executeOperation env operationId) s) := by
  have hF := Moves.frame hA
  unfold executeOperation
  refine hF.bind_at (executeGates_reads operationId s).moves (fun locators v hv => ?_)
  obtain ⟨op, hop, hpassed⟩ := executeGates_eq_ok hv
  have hid : op.operationId = operationId := Table.key_of_get? hop
  subst hid
  have hopv : v.operations.get? op.operationId = some op := by
    rw [hpassed.reads.2]
    exact hop
  cases carryOut_cases env locators hopv with
  | uncalled hmoves => exact hmoves A hA hadv
  | called u hbegun hreached hmoves =>
      refine ((hreached A hA hadv).trans hA ?_).trans hA (hmoves A hA hadv)
      have hmade : A.invoke (u.invocation op.begun locators) :=
        hinvoke op locators v u hop hpassed hbegun
      refine { Moves.refl with invocations := ⟨[u.invocation op.begun locators], rfl, ?_⟩ }
      intro i hi
      rw [List.mem_singleton.mp hi]
      exact hmade

/-! ## Preparing

Every check comes before the first change, so a refusal leaves the engine as it was but for a time
read and an id drawn.
-/

section

variable {env : Env} {s t : Sys}

/-- The checks of `prepare` only read, this one and those that follow. -/
theorem checkTaskLease_reads (taskId : String) (taskLease : Option TaskLease) :
    Within OnlyReads (checkTaskLease env taskId taskLease) := by
  cases taskLease with
  | none => exact frame_onlyReads.pure _
  | some lease => exact checkLease_reads (taskLeaseValid_reads _ _ _)

theorem checkResourceLease_reads (taskId : String) (resourceLease : Option ResourceLease) :
    Within OnlyReads (checkResourceLease env taskId resourceLease) := by
  cases resourceLease with
  | none => exact frame_onlyReads.pure _
  | some lease => exact checkLease_reads (resourceLeaseValid_reads _ _ _)

/-- Together they only read as well. -/
theorem admitProposal_reads (task : Task) (proposal : ActionProposal)
    (expectedRevisions : List (String × Int)) (taskLease : Option TaskLease)
    (resourceLease : Option ResourceLease) :
    Within OnlyReads
      (admitProposal env task proposal expectedRevisions taskLease resourceLease) := by
  have hF := frame_onlyReads
  unfold admitProposal
  refine hF.bind hF.get (fun s => ?_)
  refine hF.bind (within_liftExcept hF _) (fun spec => ?_)
  refine hF.bind (within_liftExcept hF _) (fun _ => ?_)
  refine hF.bind (within_liftExcept hF _) (fun _ => ?_)
  refine hF.bind (checkTaskLease_reads _ _) (fun _ => ?_)
  refine hF.bind (checkResourceLease_reads _ _) (fun _ => ?_)
  exact hF.pure _

/-- An admitted proposal resolves, and a task lease that comes with it is the task's and valid.
(That its objects resolve is checked again by `execute`, and used there.) -/
theorem admitProposal_eq_ok {task : Task} {proposal : ActionProposal}
    {expectedRevisions : List (String × Int)} {taskLease : Option TaskLease}
    {resourceLease : Option ResourceLease} {spec : ActionSpec}
    (h : admitProposal env task proposal expectedRevisions taskLease resourceLease s
      = .ok spec t) :
    s.registry.resolve env.py proposal = .ok spec ∧
    ∀ lease, taskLease = some lease → lease.taskId = task.taskId ∧
      (s.persistent = true → CheckedBetween env s t
        (s.db.validateTaskLeaseIdentity task.taskId lease.ownerId lease.generation)) := by
  unfold admitProposal at h
  obtain ⟨_, s₀, hs₀, hrest⟩ := bind_eq_ok.mp h
  cases hs₀
  obtain ⟨spec', s₁, hspec, hrest⟩ := bind_eq_ok.mp hrest
  obtain ⟨hresolve, hs₁⟩ := liftExcept_eq_ok.mp hspec
  obtain ⟨_, s₂, hrev, hrest⟩ := bind_eq_ok.mp hrest
  have hs₂ : s₂ = s₁ := (liftExcept_eq_ok.mp hrev).2
  obtain ⟨_, s₃, hacc, hrest⟩ := bind_eq_ok.mp hrest
  have hs₃ : s₃ = s₂ := (liftExcept_eq_ok.mp hacc).2
  obtain ⟨_, s₄, htask, hrest⟩ := bind_eq_ok.mp hrest
  obtain ⟨_, s₅, hresource, hdone⟩ := bind_eq_ok.mp hrest
  cases hdone
  rw [hs₃, hs₂, hs₁] at htask
  refine ⟨hresolve, ?_⟩
  rintro lease rfl
  obtain ⟨hown, hvalid⟩ := checkLease_eq_ok htask
  refine ⟨hown, fun hpersistent => ?_⟩
  have hlater := (checkResourceLease_reads _ _).of_ok hresource
  exact ((taskLeaseValid_eq_ok (hvalid hpersistent)).2 rfl).mono le_rfl hlater.1

/-- `bumpTasks` leaves the records alone. -/
theorem bumpTasks_still : Within (Moves .still) (bumpTasks env) :=
  moves_bumpTasks Allowance.still_closed env (fun _ => trivial)

/-- **What `prepare` does after them**: the task is charged, and the operation is there where none
was. -/
theorem moves_startOperation {A : Allowance} (hA : A.Closed) {task : Task} {op : Operation}
    (htouch : A.Touches task.taskId)
    (hstart : A.task task.taskId (s.tasks.get? task.taskId) task.started)
    (hopen : A.operation op.operationId (s.operations.get? op.operationId) op)
    (hkeep : ∀ op', A.operation op.operationId (some op') op') :
    Moves A s (after (startOperation env task op) s) := by
  have hF := Moves.frame hA
  unfold startOperation
  refine hF.bind_at (moves_setTask hstart) (fun _ s₁ hs₁ => ?_)
  cases hs₁
  refine hF.bind_at (moves_bumpTasks hA env htouch.world _) (fun _ s₂ hs₂ => ?_)
  have hstill := bumpTasks_still.of_ok hs₂
  have hbare : s₂.operations.get? op.operationId = s.operations.get? op.operationId :=
    ((hstill.operations op.operationId).still (fun _ h => h)).1
  have hstarted : s₂.tasks.get? task.taskId = some task.started :=
    ((hstill.tasks task.taskId).still (fun _ h => h)).1.trans (s.tasks.get?_put_self task.started)
  refine hF.bind_at (moves_setOperation (by rw [hbare]; exact hopen)) (fun _ s₃ hs₃ => ?_)
  cases hs₃
  refine hF.bind_at (hF.get _) (fun v w hv => ?_)
  cases hv
  split
  · refine hF.bind_at (within_newId _ _) (fun eventId v hv => ?_)
    cases hv
    refine hF.bind_at (within_readClock _) (fun occurredAt v hv => ?_)
    cases hv
    refine hF.bind_at (moves_store (fun a db n hrun => ?_)) (fun _ w _ => hF.pure _ w)
    obtain ⟨row, hid, hshow, hrecords⟩ := saveTaskAndOperationWithOutboxEvent_eq_ok hrun
    simp only [Database.records, Prod.mk.injEq] at hrecords
    obtain ⟨htasks, hoperations, hleases, hresources⟩ := hrecords
    refine Moves.of_db ?_ ?_ (Or.inr hleases) (Or.inr hresources)
    · rw [htasks]
      exact TablesMoved.save (v := task.started) hstarted (htouch.keep task.started) rfl rfl
    · rw [hoperations]
      exact TablesMoved.save (s₂.operations.get?_put_self op) (hkeep op) hshow hid
  · exact hF.bind (moves_enqueueOutbox hA env _) (fun _ => hF.pure _) _

/-- Where everything is permitted, this is. -/
theorem startOperation_free (task : Task) (op : Operation) :
    Within (Moves .free) (startOperation env task op) := fun _ =>
  moves_startOperation Allowance.free_closed (Allowance.free_touches _) trivial trivial
    (fun _ => trivial)

/-- A started operation is in memory, with its task counted up there and in the store: one
transaction writes the task, the operation and the event. -/
theorem startOperation_eq_ok {task : Task} {op : Operation}
    (h : startOperation env task op s = .ok () t) :
    t.operations.get? op.operationId = some op ∧
      t.tasks.get? task.taskId = some task.started ∧
      (s.persistent = true → t.db.tasks.get? task.taskId = some task.started) := by
  unfold startOperation at h
  obtain ⟨_, s₁, hs₁, hrest⟩ := bind_eq_ok.mp h
  cases hs₁
  obtain ⟨_, s₂, hs₂, hrest⟩ := bind_eq_ok.mp hrest
  obtain ⟨_, s₃, hs₃, hrest⟩ := bind_eq_ok.mp hrest
  cases hs₃
  obtain ⟨_, s₄, hs₄, hrest⟩ := bind_eq_ok.mp hrest
  cases hs₄
  -- counting the tasks revision leaves the tasks as they are
  have hstill := bumpTasks_still.of_ok hs₂
  have hpersistent : s₂.persistent = s.persistent := hstill.persistent
  have hstarted : s₂.tasks.get? task.taskId = some task.started :=
    ((hstill.tasks task.taskId).still (fun _ h => h)).1.trans (s.tasks.get?_put_self task.started)
  have hopened : (s₂.operations.put op).get? op.operationId = some op :=
    s₂.operations.get?_put_self op
  split at hrest
  -- with a store, one transaction writes the task, the operation and the event
  · obtain ⟨eventId, s₄, hs₄, hrest⟩ := bind_eq_ok.mp hrest
    cases hs₄
    obtain ⟨occurredAt, s₅, hs₅, hrest⟩ := bind_eq_ok.mp hrest
    cases hs₅
    obtain ⟨_, s₆, hstore, hdone⟩ := bind_eq_ok.mp hrest
    cases hdone
    obtain ⟨db, hrun, rfl⟩ := store_eq_ok hstore
    obtain ⟨row, hid, hshow, hrecords⟩ := saveTaskAndOperationWithOutboxEvent_eq_ok hrun
    simp only [Database.records, Prod.mk.injEq] at hrecords
    refine ⟨hopened, hstarted, fun _ => ?_⟩
    show db.tasks.get? task.taskId = some task.started
    rw [hrecords.1]
    exact Table.get?_put_self _ task.started
  -- without one, the event is enqueued in memory
  · rename_i hmemory
    obtain ⟨_, s₄, henqueue, hdone⟩ := bind_eq_ok.mp hrest
    cases hdone
    have hkept := (moves_enqueueOutbox Allowance.still_closed env _).of_ok henqueue
    refine ⟨?_, ?_, fun hp => absurd (hpersistent.trans hp) hmemory⟩
    · exact ((hkept.operations op.operationId).still (fun _ h => h)).1.trans hopened
    · exact ((hkept.tasks task.taskId).still (fun _ h => h)).1.trans hstarted

/-- What holds when `prepare` has returned the id of an operation: what it found and checked, and
what it has written for it. -/
structure Prepared (env : Env) (taskId : String) (proposal : ActionProposal)
    (expectedRevisions : List (String × Int)) (taskLease : Option TaskLease)
    (resourceLease : Option ResourceLease) (operationId : String) (task : Task) (spec : ActionSpec)
    (s t : Sys) : Prop where
  found : s.tasks.get? taskId = some task
  resolved : s.registry.resolve env.py proposal = .ok spec
  fresh : operationId = env.newId "op" s.ids ∧ s.ids < t.ids
  admitted : CheckedBetween env s t (fun at_ => (task.budget.blockReason at_).isNone)
  operation : t.operations.get? operationId =
    some (proposal.operation operationId task spec expectedRevisions taskLease resourceLease)
  started : t.tasks.get? taskId = some task.started
  stored : s.persistent = true → t.db.tasks.get? taskId = some task.started
  lease : ∀ lease, taskLease = some lease → lease.taskId = taskId ∧
    (s.persistent = true → CheckedBetween env s t
      (s.db.validateTaskLeaseIdentity taskId lease.ownerId lease.generation))

variable {taskId : String} {proposal : ActionProposal} {expectedRevisions : List (String × Int)}
  {taskLease : Option TaskLease} {resourceLease : Option ResourceLease}

/-- **A preparation that returned** has passed all its checks and has written what it returns. -/
theorem prepare_eq_ok {operationId : String}
    (h : prepare env taskId proposal expectedRevisions taskLease resourceLease s
      = .ok operationId t) :
    ∃ task spec, Prepared env taskId proposal expectedRevisions taskLease resourceLease operationId
      task spec s t := by
  unfold prepare at h
  obtain ⟨task, s₀, hget, hrest⟩ := bind_eq_ok.mp h
  obtain ⟨hfound, hs₀⟩ := getTask_eq_ok.mp hget
  rw [hs₀] at hrest
  obtain ⟨spec, s₁, hadmit, hrest⟩ := bind_eq_ok.mp hrest
  -- the admission reads only, and what it gives was checked
  obtain ⟨hread, hs₁⟩ := (admitProposal_reads _ _ _ _ _).of_ok hadmit
  obtain ⟨hresolved, hlease⟩ := admitProposal_eq_ok hadmit
  obtain ⟨_, s₂, hs₂, hrest⟩ := bind_eq_ok.mp hrest
  cases hs₂
  obtain ⟨at_, s₃, hs₃, hrest⟩ := bind_eq_ok.mp hrest
  cases hs₃
  -- an id and a time are drawn, and the budget is asked at that time
  cases hbudget : task.budget.blockReason (env.clock s₁.clockReads) with
  | some reason =>
      simp only [hbudget] at hrest
      cases hrest
  | none =>
      simp only [hbudget] at hrest
      obtain ⟨_, s₄, hstart, hdone⟩ := bind_eq_ok.mp hrest
      cases hdone
      obtain ⟨hopened, hstarted, hstored⟩ := startOperation_eq_ok hstart
      have hlater := (startOperation_free task _).of_ok hstart
      have hid : task.taskId = taskId := Table.key_of_get? hfound
      have hids : s₁.ids = s.ids := by rw [hs₁]
      subst hid
      refine ⟨task, spec, hfound, hresolved, ⟨?_, ?_⟩, ?_, hopened, hstarted, ?_, ?_⟩
      -- the id is the next one
      · rw [hids]
      · have hnext : s₁.ids + 1 ≤ t.ids := hlater.ids
        omega
      -- the budget was asked at a reading of this call
      · refine ⟨s₁.clockReads, hread, hlater.clockReads, ?_⟩
        exact Option.isNone_iff_eq_none.mpr hbudget
      · intro hpersistent
        apply hstored
        show s₁.persistent = true
        rw [hs₁]
        exact hpersistent
      -- the lease was recognised at an earlier reading
      · intro lease hsome
        obtain ⟨hown, hvalid⟩ := hlease lease hsome
        refine ⟨hown, fun hpersistent => (hvalid hpersistent).mono le_rfl ?_⟩
        have hnext : s₁.clockReads + 1 ≤ t.clockReads := hlater.clockReads
        omega

/-- How a run of `prepare` can end in `t`.  A run that was refused has changed nothing, while one
that got to starting the operation may still be ended by the store. -/
inductive PrepareRun (env : Env) (taskId : String) (proposal : ActionProposal)
    (expectedRevisions : List (String × Int)) (taskLease : Option TaskLease)
    (resourceLease : Option ResourceLease) (s t : Sys) : Prop where
  /-- It was refused, and only counters moved. -/
  | refused (moves : ∀ A : Allowance, Moves A s t)
  /-- It took an id and started the operation. -/
  | opened (task : Task) (spec : ActionSpec) (u : Sys) (found : s.tasks.get? taskId = some task)
      (reads : s.clockReads ≤ u.clockReads)
      (taken : u = { s with ids := s.ids + 1, clockReads := u.clockReads })
      (leased : ∀ lease, taskLease = some lease → lease.taskId = taskId ∧
        (s.persistent = true → CheckedBetween env s u
          (s.db.validateTaskLeaseIdentity taskId lease.ownerId lease.generation)))
      (started : t = after (startOperation env task (proposal.operation (env.newId "op" s.ids) task
        spec expectedRevisions taskLease resourceLease)) u)

/-- **Every preparation**, however it ended, stopped at a check with nothing changed, or got to
starting the operation. -/
theorem prepare_cases (env : Env) (taskId : String) (proposal : ActionProposal)
    (expectedRevisions : List (String × Int)) (taskLease : Option TaskLease)
    (resourceLease : Option ResourceLease) (s : Sys) :
    PrepareRun env taskId proposal expectedRevisions taskLease resourceLease s
      (after (prepare env taskId proposal expectedRevisions taskLease resourceLease) s) := by
  unfold prepare
  refine after_bind (fun e t ht => ?_) (fun task s₀ hget => ?_)
  · have hsame := (within_getTask (frame_fixes (id : Sys → Sys)) taskId).of_error ht
    rw [show t = s from hsame]
    exact .refused (fun A => Moves.refl)
  obtain ⟨hfound, hs₀⟩ := getTask_eq_ok.mp hget
  rw [hs₀]
  refine after_bind (fun e t ht => ?_) (fun spec s₁ hadmit => ?_)
  · exact .refused (fun A => ((admitProposal_reads _ _ _ _ _).of_error ht).moves)
  have hreads : OnlyReads s s₁ := (admitProposal_reads _ _ _ _ _).of_ok hadmit
  refine after_bind (fun e t ht => ?_) (fun operationId s₂ hs₂ => ?_)
  · cases ht
  cases hs₂
  refine after_bind (fun e t ht => ?_) (fun at_ s₃ hs₃ => ?_)
  · cases ht
  cases hs₃
  -- everything up to here was reading; now the budget decides
  cases hbudget : task.budget.blockReason (env.clock s₁.clockReads) with
  | some reason =>
      dsimp only
      refine .refused (fun A => ?_)
      rw [hreads.2]
      exact { Moves.refl with
        ids := Nat.le_succ _
        clockReads := hreads.1.trans (Nat.le_succ _) }
  | none =>
      dsimp only
      refine .opened task spec { s₁ with ids := s₁.ids + 1, clockReads := s₁.clockReads + 1 } hfound
        (hreads.1.trans (Nat.le_succ _)) ?_ ?_ ?_
      · rw [hreads.2]
      · intro lease hsome
        obtain ⟨hown, hvalid⟩ := (admitProposal_eq_ok hadmit).2 lease hsome
        rw [Table.key_of_get? hfound] at hown hvalid
        exact ⟨hown, fun hpersistent => (hvalid hpersistent).mono le_rfl (Nat.le_succ _)⟩
      · have hids : s₁.ids = s.ids := by rw [hreads.2]
        rw [← hids]
        refine after_bind (P := fun t => t = _) (fun e t ht => ?_) (fun _ t ht => ?_)
        · exact (after_of_error ht).symm
        · exact (after_of_ok ht).symm

end

end LiandanluNative
