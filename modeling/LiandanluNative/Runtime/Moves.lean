/-
# LiandanluNative.Runtime.Moves — what each method of an engine can do to its state.

An `Allowance` says how tasks, operations, the world and the leases may change and which calls of a
capability may be made; `Moves A s t` says that the engine got from `s` to `t` within it.  Each
method comes with one lemma: it moves within every allowance that permits the changes its body
names.  A safety argument picks the allowance that fits it and never looks into a method again.

Tasks and operations are written through (`Lib.WriteThrough`): a method may end, by an exception or
with the process, between a change and the transaction that stores it.
-/
import LiandanluNative.Lib.WriteThrough
import LiandanluNative.Runtime.Recovery

namespace LiandanluNative

open Lib (Table)
open Lib.Proc Lib.WriteThrough

/-! ## Allowances

What a stretch of a run may do to tasks, operations, the world and the leases, as a relation for
each.  It is up to a safety argument which relations it takes.
-/

/-- What a stretch of a run may do. A task or an operation gets from what memory holds, if anything,
to a record; `resources` and `leases` are whether the leases of each kind may change. -/
structure Allowance where
  task : String → Option Task → Task → Prop
  operation : String → Option Operation → Operation → Prop
  world : WorldModel → WorldModel → Prop
  resources : Prop
  leases : Prop
  invoke : Invocation → Prop

/-- Two permitted changes one after the other are permitted.  A method changes a task more than
once, and a run does so many times. -/
structure Allowance.Closed (A : Allowance) : Prop where
  task : ∀ id, Chains (A.task id)
  operation : ∀ id, Chains (A.operation id)
  world : ∀ u v w, A.world u v → A.world v w → A.world u w

/-- The row of an operation shows its state. -/
def Operation.shownBy (op row : Operation) : Prop := row.state = op.state

/-- What is given to an engine and never changes while the process lives. -/
def Sys.config (s : Sys) : Bool × CapabilityRegistry × List String :=
  (s.persistent, s.registry, s.capabilities)

/-- **The engine got from `s` to `t` within the allowance.** Tasks and operations are tables in
memory and in the store, moved together; the row of a task is the task, that of an operation shows
its state. Calls of a capability are only ever added. -/
structure Moves (A : Allowance) (s t : Sys) : Prop where
  config : Fixes Sys.config s t
  ids : s.ids ≤ t.ids
  clockReads : s.clockReads ≤ t.clockReads
  tasks : TablesMoved A.task Eq s.tasks s.db.tasks t.tasks t.db.tasks
  operations :
    TablesMoved A.operation Operation.shownBy s.operations s.db.operations t.operations
      t.db.operations
  world : t.world = s.world ∨ A.world s.world t.world
  taskLeases : A.leases ∨ t.db.taskLeases = s.db.taskLeases
  resourceLeases :
    A.resources ∨ (t.db.resourceLeases = s.db.resourceLeases ∧ t.broker = s.broker)
  invocations : ∃ made, t.invocations = s.invocations ++ made ∧ ∀ i ∈ made, A.invoke i

namespace Moves

variable {A B : Allowance} {s t u : Sys}

/-- What an engine was given stays, as the allowance has no say in it. -/
theorem persistent (h : Moves A s t) : t.persistent = s.persistent :=
  congrArg Prod.fst h.config

theorem registry (h : Moves A s t) : t.registry = s.registry :=
  congrArg (fun config => config.2.1) h.config

theorem capabilities (h : Moves A s t) : t.capabilities = s.capabilities :=
  congrArg (fun config => config.2.2) h.config

/-- Standing still is within every allowance. -/
protected theorem refl : Moves A s s where
  config := rfl
  ids := le_rfl
  clockReads := le_rfl
  tasks := .refl
  operations := .refl
  world := Or.inl rfl
  taskLeases := Or.inr rfl
  resourceLeases := Or.inr ⟨rfl, rfl⟩
  invocations := ⟨[], (List.append_nil _).symm, fun _ hi => absurd hi List.not_mem_nil⟩

/-- Two stretches within an allowance that composes are one. -/
protected theorem trans (hA : A.Closed) (h₁ : Moves A s t) (h₂ : Moves A t u) : Moves A s u where
  config := h₂.config.trans h₁.config
  ids := h₁.ids.trans h₂.ids
  clockReads := h₁.clockReads.trans h₂.clockReads
  tasks := h₁.tasks.trans hA.task h₂.tasks
  operations := h₁.operations.trans hA.operation h₂.operations
  world := by
    rcases h₁.world with h | hst
    · rw [← h]
      exact h₂.world
    · rcases h₂.world with h | htu
      · rw [h]
        exact Or.inr hst
      · exact Or.inr (hA.world _ _ _ hst htu)
  taskLeases := by
    rcases h₁.taskLeases with h | hst
    · exact Or.inl h
    · exact h₂.taskLeases.imp_right (fun htu => htu.trans hst)
  resourceLeases := by
    rcases h₁.resourceLeases with h | hst
    · exact Or.inl h
    · exact h₂.resourceLeases.imp_right (fun htu => ⟨htu.1.trans hst.1, htu.2.trans hst.2⟩)
  invocations := by
    obtain ⟨made₁, heq₁, hmade₁⟩ := h₁.invocations
    obtain ⟨made₂, heq₂, hmade₂⟩ := h₂.invocations
    refine ⟨made₁ ++ made₂, ?_, ?_⟩
    · rw [heq₂, heq₁, List.append_assoc]
    · intro i hi
      rcases List.mem_append.mp hi with hi | hi
      · exact hmade₁ i hi
      · exact hmade₂ i hi

/-- So `Moves A` is a frame, and the rules of `Lib.Proc` take a method apart. -/
theorem frame (hA : A.Closed) : Frame (Moves A) where
  refl _ := Moves.refl
  trans h₁ h₂ := h₁.trans hA h₂

/-- Where no invocation is permitted, there is none. -/
theorem invocations_eq (h : Moves A s t) (hno : ∀ i, ¬ A.invoke i) :
    t.invocations = s.invocations := by
  obtain ⟨made, heq, hmade⟩ := h.invocations
  have hnil : made = [] := List.eq_nil_iff_forall_not_mem.mpr (fun i hi => hno i (hmade i hi))
  rw [heq, hnil, List.append_nil]

end Moves

/-- The first allowance permits no more than the second. -/
structure Allowance.Le (A B : Allowance) : Prop where
  task : ∀ id m t, A.task id m t → B.task id m t
  operation : ∀ id m op, A.operation id m op → B.operation id m op
  world : ∀ v w, A.world v w → B.world v w
  resources : A.resources → B.resources
  leases : A.leases → B.leases
  invoke : ∀ i, A.invoke i → B.invoke i

/-- A stretch within an allowance is within a wider one. -/
theorem Moves.mono {A B : Allowance} {s t : Sys} (h : Moves A s t) (hle : A.Le B) : Moves B s t where
  config := h.config
  ids := h.ids
  clockReads := h.clockReads
  tasks := fun id => (h.tasks id).mono (hle.task id _)
  operations := fun id => (h.operations id).mono (hle.operation id _)
  world := h.world.imp_right (hle.world _ _)
  taskLeases := h.taskLeases.imp_left hle.leases
  resourceLeases := h.resourceLeases.imp_left hle.resources
  invocations := by
    obtain ⟨made, heq, hmade⟩ := h.invocations
    exact ⟨made, heq, fun i hi => hle.invoke i (hmade i hi)⟩

/-! ## The primitives -/

/-- What of the database the records of an engine live in. -/
def Database.records (db : Database) :
    Table Task.taskId × Table Operation.operationId × Table TaskLease.taskId ×
      Table ResourceLease.taskId :=
  (db.tasks, db.operations, db.taskLeases, db.resourceLeases)

section Primitives

variable {A : Allowance} {env : Env} {α : Type} {s : Sys}

/-- A change of the database bounded table by table. -/
theorem Moves.of_db {db : Database} {n : ℕ}
    (htasks : TablesMoved A.task Eq s.tasks s.db.tasks s.tasks db.tasks)
    (hoperations : TablesMoved A.operation Operation.shownBy s.operations s.db.operations
      s.operations db.operations)
    (hleases : A.leases ∨ db.taskLeases = s.db.taskLeases)
    (hresources : A.resources ∨ db.resourceLeases = s.db.resourceLeases) :
    Moves A s { s with db := db, boundaries := n } where
  config := rfl
  ids := le_rfl
  clockReads := le_rfl
  tasks := htasks
  operations := hoperations
  world := Or.inl rfl
  taskLeases := hleases
  resourceLeases := hresources.imp_right (fun h => ⟨h, rfl⟩)
  invocations := Moves.refl.invocations

/-- A store call whose transaction leaves the records alone. -/
theorem within_store {txn : Txn α} (h : Within (Fixes Database.records) txn) :
    Within (Moves A) (store env txn) := by
  intro s
  obtain ⟨n, hn⟩ := after_store env s txn
  have hfix := within_transaction (frame_fixes _) h s.db
  simp only [Fixes, Database.records, Prod.mk.injEq] at hfix
  obtain ⟨htasks, hoperations, hleases, hresources⟩ := hfix
  rw [hn]
  refine Moves.of_db ?_ ?_ (Or.inr hleases) (Or.inr hresources)
  · rw [htasks]
    exact .refl
  · rw [hoperations]
    exact .refl

/-- Counters of the environment only go up. -/
theorem within_readClock : Within (Moves A) (readClock env) :=
  fun _ => { Moves.refl with clockReads := Nat.le_succ _ }

theorem within_newId (kind : String) : Within (Moves A) (newId env kind) :=
  fun _ => { Moves.refl with ids := Nat.le_succ _ }

theorem within_boundary : Within (Moves A) (boundary env) := by
  intro s
  by_cases hdies : env.dies s.boundaries
  · have hrun : boundary env s = .error .crash { s with boundaries := s.boundaries + 1 } := by
      simp only [boundary, hdies, if_true]
    rw [after_of_error hrun]
    exact { Moves.refl with }
  · have hrun : boundary env s = .ok () { s with boundaries := s.boundaries + 1 } := by
      simp only [boundary, hdies, Bool.false_eq_true, if_false]
    rw [after_of_ok hrun]
    exact { Moves.refl with }

/-- The number of answers is no part of the state that moves. -/
theorem within_callOut (answer : ℕ → Except Exc α) : Within (Moves A) (callOut answer) := by
  intro s
  cases hanswer : answer s.calls with
  | ok a =>
      have hrun : callOut answer s = .ok a { s with calls := s.calls + 1 } := by
        simp only [callOut, hanswer]
      rw [after_of_ok hrun]
      exact { Moves.refl with }
  | error e =>
      have hrun : callOut answer s = .error (.raised e) { s with calls := s.calls + 1 } := by
        simp only [callOut, hanswer]
      rw [after_of_error hrun]
      exact { Moves.refl with }

end Primitives

/-! ## The transactions

What the transactions of `storage.py` commit, as far as it is about records.
-/

section Transactions

variable {α : Type}

/-- The events of a transaction are not among the records. -/
theorem insertOutbox_records (fields : EventFields) (eventId : String) (occurredAt : ℚ) :
    Within (Fixes Database.records) (insertOutbox fields eventId occurredAt) :=
  within_insertOutbox (frame_fixes _) fields eventId occurredAt (fun _ _ _ => rfl)

/-- Enqueueing an event writes no record of a task or an operation. -/
theorem enqueueEventOutbox_records (fields : EventFields) (eventId : String) (occurredAt : ℚ) :
    Within (Fixes Database.records) (enqueueEventOutbox fields eventId occurredAt) :=
  within_transaction (frame_fixes _) (insertOutbox_records fields eventId occurredAt)

/-- Delivering an event writes none either. -/
theorem dispatchRow_records (row : OutboxRow) (newId : String) (observedAt : ℚ) :
    Within (Fixes Database.records) (dispatchRow row newId observedAt) := by
  have hF := frame_fixes Database.records
  have hupdate : ∀ set, Within (Fixes Database.records)
      (modify (Database.updateOutbox · row.outboxId set) : Txn PUnit) := by
    intro set
    refine within_modify (fun db => ?_)
    unfold Database.updateOutbox
    split <;> rfl
  have hinsert : ∀ eventId, Within (Fixes Database.records)
      (modify (Database.insertEvent · row eventId observedAt) : Txn PUnit) := by
    intro eventId
    refine within_modify (fun db => ?_)
    unfold Database.insertEvent
    split <;> rfl
  unfold dispatchRow
  dsimp only
  split
  · refine hF.bind (hupdate _) (fun _ => hF.bind (hinsert _) (fun _ => ?_))
    refine hF.bind (hupdate _) (fun _ => hF.bind hF.get (fun db => ?_))
    split
    · exact hF.pure _
    · exact hF.throw _
  · refine hF.bind (hinsert _) (fun _ => ?_)
    refine hF.bind (hupdate _) (fun _ => hF.bind hF.get (fun db => ?_))
    split
    · exact hF.pure _
    · exact hF.throw _

/-- Nor does delivering any number of them. -/
theorem dispatchRows_records (newId : Int → String) (observedAt : Int → ℚ) :
    ∀ rows : List OutboxRow, Within (Fixes Database.records) (dispatchRows newId observedAt rows)
  | [] => (frame_fixes _).pure _
  | row :: rows => by
      have hF := frame_fixes Database.records
      unfold dispatchRows
      refine hF.bind (dispatchRow_records row _ _) (fun event => ?_)
      exact hF.bind (dispatchRows_records newId observedAt rows) (fun events => hF.pure _)

/-- An operation that is stored gets a row under its id that shows its state. -/
theorem upsertOperation_eq_ok {op : Operation} {db db' : Database}
    (h : upsertOperation op db = .ok () db') :
    ∃ row, row.operationId = op.operationId ∧ op.shownBy row ∧
      db' = { db with operations := db.operations.put row } := by
  have hF := frame_fixes (id : Database → Database)
  obtain ⟨arguments, db₁, hargs, hrest⟩ := bind_eq_ok.mp h
  obtain ⟨evidence, db₂, hevid, hrest⟩ := bind_eq_ok.mp hrest
  obtain ⟨result, db₃, hres, hput⟩ := bind_eq_ok.mp hrest
  have h₁ : db₁ = db := (within_dumpsItems hF op.arguments).of_ok hargs
  have h₂ : db₂ = db₁ := (within_dumpsList hF op.evidence).of_ok hevid
  have h₃ : db₃ = db₂ := (within_dumps hF op.result).of_ok hres
  rw [h₃, h₂, h₁] at hput
  cases hput
  refine ⟨_, ?_, ?_, rfl⟩
  · exact db.operationRow_operationId _
  · exact db.operationRow_state _

/-- What a transaction returns, its body returned; that it is rolled back otherwise plays no part.
-/
theorem transaction_eq_ok {body : Txn α} {a : α} {db db' : Database}
    (h : transaction body db = .ok a db') : body db = .ok a db' := by
  unfold transaction at h
  split at h
  · rename_i b db'' hbody
    rw [hbody]
    exact h
  · cases h

/-- What the transaction of a task and its event commits. -/
theorem saveTaskWithOutboxEvent_eq_ok {task : Task} {fields : EventFields} {eventId : String}
    {occurredAt : ℚ} {db db' : Database} {a : String}
    (h : saveTaskWithOutboxEvent task fields eventId occurredAt db = .ok a db') :
    db'.records = { db with tasks := db.tasks.put task }.records := by
  obtain ⟨_, db₁, hput, hevent⟩ := bind_eq_ok.mp (transaction_eq_ok h)
  cases hput
  exact (insertOutbox_records _ eventId occurredAt).of_ok hevent

/-- What the transaction of an operation and its event commits. -/
theorem saveOperationWithOutboxEvent_eq_ok {op : Operation} {fields : EventFields}
    {eventId : String} {occurredAt : ℚ} {db db' : Database} {a : String}
    (h : saveOperationWithOutboxEvent op fields eventId occurredAt db = .ok a db') :
    ∃ row, row.operationId = op.operationId ∧ op.shownBy row ∧
      db'.records = { db with operations := db.operations.put row }.records := by
  obtain ⟨_, db₁, hput, hevent⟩ := bind_eq_ok.mp (transaction_eq_ok h)
  obtain ⟨row, hid, hshow, rfl⟩ := upsertOperation_eq_ok hput
  exact ⟨row, hid, hshow, (insertOutbox_records _ eventId occurredAt).of_ok hevent⟩

/-- What the transaction of a prepared operation commits. -/
theorem saveTaskAndOperationWithOutboxEvent_eq_ok {task : Task} {op : Operation}
    {fields : EventFields} {eventId : String} {occurredAt : ℚ} {db db' : Database} {a : String}
    (h : saveTaskAndOperationWithOutboxEvent task op fields eventId occurredAt db = .ok a db') :
    ∃ row, row.operationId = op.operationId ∧ op.shownBy row ∧
      db'.records = { db with
        tasks := db.tasks.put task, operations := db.operations.put row }.records := by
  obtain ⟨_, db₁, htask, hrest⟩ := bind_eq_ok.mp (transaction_eq_ok h)
  cases htask
  obtain ⟨_, db₂, hput, hevent⟩ := bind_eq_ok.mp hrest
  obtain ⟨row, hid, hshow, rfl⟩ := upsertOperation_eq_ok hput
  exact ⟨row, hid, hshow, (insertOutbox_records _ eventId occurredAt).of_ok hevent⟩

end Transactions

/-! ## Storing -/

section Storing

variable {A : Allowance} {env : Env} {α : Type} {s : Sys}

/-- A store call is looked at where its transaction commits; where it is rolled back, or the process
ends before it, nothing has moved. -/
theorem moves_store {txn : Txn α}
    (h : ∀ a db n, txn s.db = .ok a db → Moves A s { s with db := db, boundaries := n }) :
    Moves A s (after (store env txn) s) := by
  obtain ⟨n, hn⟩ := after_store env s txn
  rw [hn]
  cases hrun : txn s.db with
  | ok a db =>
      have hcommit : transaction txn s.db = .ok a db := by simp only [transaction, hrun]
      rw [after_of_ok hcommit]
      exact h a db n hrun
  | error e db =>
      have hrollback : transaction txn s.db = .error e s.db := by simp only [transaction, hrun]
      rw [after_of_error hrollback]
      exact { Moves.refl with }

/-- A transaction that commits resource leases only. -/
theorem moves_store_resources (hresources : A.resources) {txn : Txn α}
    (h : ∀ a db, txn s.db = .ok a db → ∃ rows, db = { s.db with resourceLeases := rows }) :
    Moves A s (after (store env txn) s) := by
  refine moves_store (fun a db n hrun => ?_)
  obtain ⟨rows, rfl⟩ := h a db hrun
  exact Moves.of_db .refl .refl (Or.inr rfl) (Or.inl hresources)

/-- A transaction that commits task leases only. -/
theorem moves_store_leases (hleases : A.leases) {txn : Txn α}
    (h : ∀ a db, txn s.db = .ok a db → ∃ rows, db = { s.db with taskLeases := rows }) :
    Moves A s (after (store env txn) s) := by
  refine moves_store (fun a db n hrun => ?_)
  obtain ⟨rows, rfl⟩ := h a db hrun
  exact Moves.of_db .refl .refl (Or.inl hleases) (Or.inr rfl)

end Storing

/-! ## Events -/

section Events

variable {A : Allowance} (hA : A.Closed) (env : Env)
include hA

/-- **Events** move nothing. -/
theorem moves_enqueueOutbox (fields : EventFields) : Within (Moves A) (enqueueOutbox env fields) := by
  have hF := Moves.frame hA
  unfold enqueueOutbox
  refine hF.bind hF.get (fun s => ?_)
  split
  · refine hF.bind (within_newId _) (fun eventId => ?_)
    refine hF.bind within_readClock (fun occurredAt => ?_)
    exact within_store (enqueueEventOutbox_records fields eventId occurredAt)
  · refine hF.bind (within_newId _) (fun outboxId => ?_)
    refine hF.bind (within_modify (fun s => { Moves.refl with })) (fun _ => ?_)
    exact hF.pure _

theorem moves_emitAll : ∀ items, Within (Moves A) (emitAll env items)
  | [] => (Moves.frame hA).pure _
  | item :: pending => by
      have hF := Moves.frame hA
      unfold emitAll
      refine hF.bind within_readClock (fun ts => ?_)
      refine hF.bind (within_newId _) (fun eventId => ?_)
      refine hF.bind hF.get (fun s => ?_)
      refine hF.bind (within_modify (fun s => { Moves.refl with })) (fun _ => ?_)
      exact hF.bind (moves_emitAll pending) (fun emitted => hF.pure _)

/-- Delivering moves nothing either, with a store or without. -/
theorem moves_flushOutbox : Within (Moves A) (flushOutbox env) := by
  have hF := Moves.frame hA
  unfold flushOutbox
  refine hF.bind hF.get (fun s => ?_)
  split
  · unfold dispatchOutbox
    refine hF.bind hF.get (fun s => ?_)
    refine hF.bind (within_modify (fun s => ?_)) (fun _ => ?_)
    · exact { Moves.refl with ids := Nat.le_add_right _ _, clockReads := Nat.le_add_right _ _ }
    · exact within_store (dispatchRows_records _ _ _)
  · refine hF.bind (within_modify (fun s => { Moves.refl with })) (fun _ => ?_)
    exact moves_emitAll hA env _

end Events

/-! ## The world

The methods of the world assign to it and to nothing else, so the allowance is asked for the world
alone.
-/

section World

variable {A : Allowance} (hA : A.Closed) (env : Env)

/-- **The world** moves as the allowance lets it. -/
theorem moves_modifyWorld {f : WorldModel → WorldModel} (h : ∀ w, A.world w (f w)) :
    Within (Moves A) (modifyWorld f) :=
  within_modify (fun s => { Moves.refl with world := Or.inr (h s.world) })

include hA

/-- Saving the world writes tables of the world only. -/
theorem moves_persisting {α : Type} {txn : Sys → Txn α}
    (h : ∀ s, Within (Fixes Database.records) (txn s)) : Within (Moves A) (persisting env txn) := by
  have hF := Moves.frame hA
  unfold persisting
  refine hF.bind hF.get (fun s => ?_)
  split
  · exact hF.bind (within_store (h s)) (fun _ => hF.pure _)
  · exact hF.pure _

theorem moves_persistRevisions : Within (Moves A) (persistRevisions env) :=
  moves_persisting hA env (fun _ => within_transaction (frame_fixes _) (within_modify (fun _ => rfl)))

/-- The counter of tasks is all of the world that the methods of tasks change. -/
theorem moves_bumpTasks
    (h : ∀ w : WorldModel, A.world w { w with revisions := w.revisions.bumpTasks }) :
    Within (Moves A) (bumpTasks env) := by
  have hF := Moves.frame hA
  unfold bumpTasks
  exact hF.bind (moves_modifyWorld h) (fun _ => moves_persistRevisions hA env)

/-! The methods of the world itself, where it may change freely. -/

variable (hfree : ∀ v w, A.world v w)
include hfree

/-- The methods of the world change nothing else, so only `A.world` is asked. -/
theorem moves_bumpWorkspace (workspaceId : String) :
    Within (Moves A) (bumpWorkspace env workspaceId) := by
  have hF := Moves.frame hA
  unfold bumpWorkspace
  refine hF.bind hF.get (fun s => ?_)
  refine hF.bind (moves_modifyWorld (fun w => hfree w _)) (fun _ => ?_)
  refine hF.bind (moves_persisting hA env (fun s => ?_)) (fun _ => ?_)
  · have hD := frame_fixes Database.records
    exact within_transaction hD (hD.bind (within_binds hD _) (fun _ => within_modify (fun _ => rfl)))
  · exact moves_persistRevisions hA env

/-- An entity is entered, and its workspace bumped. -/
theorem moves_registerEntity (entity : Entity) : Within (Moves A) (registerEntity env entity) := by
  have hF := Moves.frame hA
  unfold registerEntity
  refine hF.bind (moves_modifyWorld (fun w => hfree w _)) (fun _ => ?_)
  refine hF.bind (moves_persisting hA env (fun s => ?_)) (fun _ => ?_)
  · have hD := frame_fixes Database.records
    unfold saveWorldEntity
    refine within_transaction hD ?_
    refine hD.bind (within_dumpsItems hD _) (fun _ => ?_)
    exact hD.bind (within_binds hD _) (fun _ => within_modify (fun _ => rfl))
  · exact moves_bumpWorkspace hA env hfree _

/-- An observation may be refused after it was made. -/
theorem moves_observe (source observationType : String) (value : PyVal) (domain : String)
    (workspaceId : Option String) :
    Within (Moves A) (observe env source observationType value domain workspaceId) := by
  have hF := Moves.frame hA
  unfold observe
  refine hF.bind (moves_modifyWorld (fun w => hfree w _)) (fun _ => ?_)
  split
  · split
    · exact within_raise hF _
    · exact moves_bumpWorkspace hA env hfree _
  · refine hF.bind hF.get (fun s => ?_)
    refine hF.bind (within_liftExcept hF _) (fun revisions => ?_)
    refine hF.bind (moves_modifyWorld (fun w => hfree w _)) (fun _ => ?_)
    exact moves_persistRevisions hA env

/-- An edge is added, if it is new and its ends are active. -/
theorem moves_relate (source relation target : String) :
    Within (Moves A) (relate env source relation target) := by
  have hF := Moves.frame hA
  unfold relate
  refine hF.bind hF.get (fun s => ?_)
  refine hF.bind (within_liftExcept hF _) (fun sourceEntity => ?_)
  refine hF.bind (within_liftExcept hF _) (fun targetEntity => ?_)
  split
  · exact within_raise hF _
  split
  · exact hF.pure _
  refine hF.bind (moves_modifyWorld (fun w => hfree w _)) (fun _ => ?_)
  refine hF.bind (moves_persisting hA env (fun s => ?_)) (fun _ => ?_)
  · have hD := frame_fixes Database.records
    exact within_transaction hD (hD.bind (within_binds hD _) (fun _ => within_modify (fun _ => rfl)))
  · exact moves_bumpWorkspace hA env hfree _

end World

/-! ## Leases -/

section Leases

variable {A : Allowance} (hA : A.Closed) (env : Env)

/-- **Leases** are asked about as a whole: what may be done to which of them is the business of
`Storage.TaskLeases` and `Storage.ResourceLeases`. -/
theorem moves_claimNextTask (hleases : A.leases) (ownerId : String) (leaseSeconds ts : ℚ) :
    Within (Moves A) (store env (claimNextTask ownerId leaseSeconds ts)) := by
  intro s
  refine moves_store_leases hleases (fun a db hrun => ?_)
  rcases claimNextTask_cases ownerId leaseSeconds ts s.db with ⟨e, h⟩ | h | ⟨lease, h, _⟩
  · rw [h] at hrun
    cases hrun
  · rw [h] at hrun
    cases hrun
    exact ⟨_, rfl⟩
  · rw [h] at hrun
    cases hrun
    exact ⟨_, rfl⟩

/-- A renewal writes the table of leases, if anything. -/
theorem moves_renewTaskLease (hleases : A.leases) (lease : TaskLease) (leaseSeconds ts : ℚ) :
    Within (Moves A) (store env (renewTaskLease lease leaseSeconds ts)) := by
  intro s
  refine moves_store_leases hleases (fun a db hrun => ?_)
  rcases renewTaskLease_cases lease leaseSeconds ts s.db with
    ⟨_, e, h⟩ | ⟨_, h⟩ | ⟨row, _, _, _, h⟩
  · rw [h] at hrun
    cases hrun
  · rw [h] at hrun
    cases hrun
    exact ⟨_, rfl⟩
  · rw [h] at hrun
    cases hrun
    exact ⟨_, rfl⟩

/-- So does a release. -/
theorem moves_releaseTaskLease (hleases : A.leases) (lease : TaskLease) :
    Within (Moves A) (store env (releaseTaskLease lease)) := by
  intro s
  refine moves_store_leases hleases (fun a db hrun => ?_)
  rcases releaseTaskLease_cases lease s.db with h | ⟨row, _, _, h⟩
  · rw [h] at hrun
    cases hrun
    exact ⟨_, rfl⟩
  · rw [h] at hrun
    cases hrun
    exact ⟨_, rfl⟩

/-- A broker without a store keeps its leases itself. -/
theorem moves_putBrokerLease (hresources : A.resources) (broker : ResourceBroker)
    (lease : ResourceLease) : Within (Moves A) (putBrokerLease broker lease) :=
  within_modify (fun _ => { Moves.refl with resourceLeases := Or.inl hresources })

include hA

/-- Whether a lease is granted or not, none but leases change. -/
theorem moves_acquireResources (hresources : A.resources) (broker : ResourceBroker)
    (taskId ownerId : String) (request : ResourceRequest) (leaseSeconds : ℚ) :
    Within (Moves A) (acquireResources env broker taskId ownerId request leaseSeconds) := by
  have hF := Moves.frame hA
  unfold acquireResources
  split
  · exact within_raise hF _
  split
  · exact within_raise hF _
  split
  · exact hF.pure _
  refine hF.bind within_readClock (fun ts => ?_)
  split
  · intro s
    refine moves_store_resources hresources (fun a db hrun => ?_)
    rcases acquireResourceLease_cases taskId ownerId request broker.capacity leaseSeconds ts s.db
      with ⟨e, h⟩ | h | ⟨lease, h, _⟩
    · rw [h] at hrun
      cases hrun
    · rw [h] at hrun
      cases hrun
      exact ⟨_, rfl⟩
    · rw [h] at hrun
      cases hrun
      exact ⟨_, rfl⟩
  · split
    · exact hF.pure _
    · exact hF.bind (moves_putBrokerLease hresources _ _) (fun _ => hF.pure _)

/-- None but leases change by a release, either. -/
theorem moves_releaseResources (hresources : A.resources) (broker : ResourceBroker)
    (lease : ResourceLease) : Within (Moves A) (releaseResources env broker lease) := by
  have hF := Moves.frame hA
  unfold releaseResources
  split
  · intro s
    refine moves_store_resources hresources (fun a db hrun => ?_)
    rcases releaseResourceLease_cases lease s.db with h | ⟨row, _, _, h⟩
    · rw [h] at hrun
      cases hrun
      exact ⟨_, rfl⟩
    · rw [h] at hrun
      cases hrun
      exact ⟨_, rfl⟩
  · split
    · exact hF.pure _
    · exact hF.bind (moves_putBrokerLease hresources _ _) (fun _ => hF.pure _)

end Leases

end LiandanluNative
