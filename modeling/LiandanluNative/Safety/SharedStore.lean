/-
# LiandanluNative.Safety.SharedStore — several engines on one database.

A `TaskRuntime` is hydrated once, works on its own copies of the tasks, and stores whole rows;
nothing compares the revision it read with the one it overwrites.  Two engines on one database can
therefore undo each other's changes (`updates_kept_fails`).  What holds is the discipline of one
writer at a time: an engine that was hydrated after the last change another engine made to a task
overwrites the newest row (`updates_kept`).
-/
import LiandanluNative.Lib.Replicas
import LiandanluNative.Runtime.Upkeep

namespace LiandanluNative

open Lib (Table Replicas Advances)
open Lib.Proc

/-! ## Several engines

Engines with copies of their own over one database; what one of them stores, the others do not see
before they load it.
-/

/-- Engines that share a database. What an engine holds as its `db` is replaced by it. -/
structure Shared (ι : Type) where
  engines : ι → Sys
  db : Database

namespace Shared

variable {ι : Type} [DecidableEq ι]

/-- An engine, on the database as it is. -/
def on (c : Shared ι) (i : ι) : Sys := { c.engines i with db := c.db }

/-- One engine makes a whole call. -/
def act (envs : ι → Env) (c : Shared ι) (i : ι) (call : Call) : Shared ι where
  engines := Function.update c.engines i (call.exec (envs i) (c.on i))
  db := (call.exec (envs i) (c.on i)).db

/-- Every engine was hydrated from the database. -/
def Hydrated (c : Shared ι) : Prop :=
  ∀ i, (c.engines i).persistent = true ∧ (c.engines i).tasks = c.db.loadTasks

/-- No durable revision decreases, and no row is overwritten by one that was computed from an older
revision than it has. -/
structure KeepsUpdates (envs : ι → Env) (c : Shared ι) (i : ι) (call : Call) : Prop where
  revision : ∀ taskId row, c.db.tasks.get? taskId = some row →
    ∃ row', (c.act envs i call).db.tasks.get? taskId = some row' ∧ row.revision ≤ row'.revision
  basis : ∀ taskId row row', c.db.tasks.get? taskId = some row →
    (c.act envs i call).db.tasks.get? taskId = some row' → row' ≠ row →
    ∃ copy, (c.engines i).tasks.get? taskId = some copy ∧ row.revision ≤ copy.revision

/-- Every call of the interleaving keeps the updates. -/
def Lossless (envs : ι → Env) : Shared ι → List (ι × Call) → Prop
  | _, [] => True
  | c, (i, call) :: later => c.KeepsUpdates envs i call ∧ (c.act envs i call).Lossless envs later

/-- Which engines are behind on which tasks after a call: another engine has changed the row since
they were hydrated. -/
def outdated (envs : ι → Env) (c : Shared ι) (behind : ι → String → Prop) (i : ι) (call : Call)
    (j : ι) (taskId : String) : Prop :=
  if j = i then call.isRestart = false ∧ behind j taskId
  else behind j taskId ∨ (c.act envs i call).db.tasks.get? taskId ≠ c.db.tasks.get? taskId

/-- No engine changes the row of a task it is behind on. -/
def Current (envs : ι → Env) : (ι → String → Prop) → Shared ι → List (ι × Call) → Prop
  | _, _, [] => True
  | behind, c, (i, call) :: later =>
      (∀ taskId, (c.act envs i call).db.tasks.get? taskId ≠ c.db.tasks.get? taskId →
        ¬ behind i taskId) ∧
      Current envs (c.outdated envs behind i call) (c.act envs i call) later

end Shared

/-- The calls on tasks, and hydrating anew. -/
def Call.onTasks : Call → Bool
  | .queue _ => true
  | .wait _ _ _ => true
  | .control _ _ => true
  | .settleControl _ _ _ => true
  | .updateRuntimeState _ _ _ _ _ => true
  | .evaluateGoal _ _ => true
  | .prepare _ _ _ _ _ => true
  | .restart _ _ _ => true
  | _ => false

/-! ## One call

What a call does to the copy and to the row of each task, with the revision that counts its changes.
-/

/-- Every task and its row advanced. -/
def TasksAdvance (s t : Sys) : Prop :=
  ∀ taskId, Advances Task.revision (s.tasks.get? taskId) (s.db.tasks.get? taskId)
    (t.tasks.get? taskId) (t.db.tasks.get? taskId)

namespace TasksAdvance

variable {s t : Sys} {task new : Task}

theorem still (htasks : t.tasks = s.tasks) (hrows : t.db.tasks = s.db.tasks) : TasksAdvance s t := by
  intro taskId
  rw [htasks, hrows]
  exact .still

/-- A task was changed in memory alone. -/
theorem ahead (hget : s.tasks.get? new.taskId = some task) (hlater : task.revision < new.revision)
    (htasks : t.tasks = s.tasks.put new) (hrows : t.db.tasks = s.db.tasks) : TasksAdvance s t := by
  intro taskId
  rw [htasks, hrows, Table.get?_put]
  split
  · rename_i heq
    subst heq
    rw [hget]
    exact .ahead hlater
  · exact .still

/-- A task was changed and stored. -/
theorem wrote (hget : s.tasks.get? new.taskId = some task) (hlater : task.revision < new.revision)
    (htasks : t.tasks = s.tasks.put new) (hrows : t.db.tasks = s.db.tasks.put new) :
    TasksAdvance s t := by
  intro taskId
  rw [htasks, hrows, Table.get?_put, Table.get?_put]
  split
  · rename_i heq
    subst heq
    rw [hget]
    exact .wrote hlater le_rfl
  · exact .still

end TasksAdvance

section

variable {env : Env} {s : Sys}

/-- Whatever changes a task touches its revision, before the change is stored. -/
theorem advancing_changes (hpersistent : s.persistent = true) (taskId : String) :
    Changes env s taskId (fun _ t => TasksAdvance s t) (fun _ t => TasksAdvance s t) := by
  have hlater : ∀ {task new : Task}, task.Assigned new → task.revision < new.touched.revision := by
    intro task new hnew
    show task.revision < new.revision + 1
    rw [hnew.revision]
    exact Int.lt_succ _
  have hfound : ∀ {task new : Task}, s.tasks.get? taskId = some task → task.Assigned new →
      s.tasks.get? new.touched.taskId = some task := by
    intro task new hget hnew
    show s.tasks.get? new.taskId = some task
    rw [hnew.taskId, Table.key_of_get? hget]
    exact hget
  refine ⟨hpersistent, .still rfl rfl, fun _ _ => .still rfl rfl, fun task new hget hnew => ?_,
    fun task new fields column hget hnew _ _ _ => ?_⟩
  · exact .ahead (hfound hget hnew) (hlater hnew) rfl rfl
  · have hwrote : TasksAdvance s
        ((s.touchedTask new).recordedTask env new.touched fields column) :=
      .wrote (hfound hget hnew) (hlater hnew) rfl rfl
    exact ⟨hwrote, hwrote⟩

theorem ends_queue_advancing (hpersistent : s.persistent = true) (taskId : String) :
    Ends (fun _ t => TasksAdvance s t) (fun _ t => TasksAdvance s t) (queueTask env taskId) s := by
  unfold queueTask
  refine Ends.bind (ends_getTask (fun task hget => ?_) (fun _ => .still rfl rfl))
  split
  · exact Ends.throw (.still rfl rfl)
  refine Ends.bind (Ends.of_ok (rfl : readClock env s = _) ?_)
  let u : Sys := { s with clockReads := s.clockReads + 1 }
  have hstill : u.persistent = true := hpersistent
  have hchanges : Changes env u taskId (fun _ t => TasksAdvance u t) (fun _ t => TasksAdvance u t) :=
    advancing_changes hstill taskId
  have hget' : u.tasks.get? taskId = some task := hget
  refine hchanges.change hget' (.queued task _) (.queued _) (PyVal.jsonDumpsItems_payload ?_)
  simp [PyVal.jsonDumps]

/-- Preparing counts the operation up on the task, and stores both or, where the arguments are not
JSON, neither. -/
theorem ends_prepare_advancing (hpersistent : s.persistent = true) (taskId : String)
    (proposal : ActionProposal) (expectedRevisions : List (String × Int))
    (taskLease : Option TaskLease) (resourceLease : Option ResourceLease) :
    Ends (fun _ t => TasksAdvance s t) (fun _ t => TasksAdvance s t)
      (prepare env taskId proposal expectedRevisions taskLease resourceLease) s := by
  refine ends_prepare (fun e t ht => .still ht.tasks ht.dbTasks)
    (fun task spec clockReads hget _ => ?_)
  have hid : task.taskId = taskId := Table.key_of_get? hget
  subst hid
  have hfound : s.tasks.get? task.started.taskId = some task := hget
  have hlater : task.revision < task.started.revision := Int.lt_succ _
  let base : Sys := { s with ids := s.ids + 1, clockReads := clockReads }
  let op := proposal.operation (env.newId "op" s.ids) task spec expectedRevisions taskLease
    resourceLease
  have hstill : base.persistent = true := hpersistent
  have hdied : TasksAdvance s (base.startedTask task) := .ahead hfound hlater rfl rfl
  refine ends_startOperation hstill rfl hdied (fun _ _ => ?_) (fun row fields column _ _ => ?_)
  · exact TasksAdvance.ahead hfound hlater rfl rfl
  · have hwrote : TasksAdvance s
        ((base.opened task op).recordedStart env task.started row fields column) :=
      .wrote hfound hlater rfl rfl
    exact ⟨hwrote, hwrote⟩

/-- **What a call on tasks does to them**, wherever it stops. -/
theorem Call.tasksAdvance (hpersistent : s.persistent = true) {call : Call}
    (hcall : call.onTasks = true) (hnot : call.isRestart = false) :
    TasksAdvance s (call.exec env s) := by
  cases call with
  | queue taskId => exact (ends_queue_advancing hpersistent taskId).after
  | wait taskId reason eventType =>
      exact ((advancing_changes hpersistent taskId).wait reason eventType).after
  | updateRuntimeState taskId state phase eventType actor =>
      exact ((advancing_changes hpersistent taskId).updateRuntimeState state phase eventType
        actor).after
  | control taskId desired => exact ((advancing_changes hpersistent taskId).control desired).after
  | settleControl taskId safeBoundary externalCancelConfirmed =>
      exact ((advancing_changes hpersistent taskId).settleControl safeBoundary
        externalCancelConfirmed).after
  | evaluateGoal taskId claims =>
      exact ((advancing_changes hpersistent taskId).evaluateGoal claims).after
  | prepare taskId proposal expectedRevisions taskLease resourceLease =>
      exact (ends_prepare_advancing hpersistent taskId proposal expectedRevisions taskLease
        resourceLease).after
  | restart registry capabilities broker => cases hnot
  | _ => cases hcall

end

/-! ## Interleavings -/

namespace Shared

variable {ι : Type} [DecidableEq ι] {envs : ι → Env}

/-- The tasks of the engines as copies of the rows. -/
def replicas (c : Shared ι) (behind : ι → String → Prop) : Replicas ι String Task where
  copies i taskId := (c.engines i).tasks.get? taskId
  rows taskId := c.db.tasks.get? taskId
  behind := behind

theorem act_engines_self (c : Shared ι) (i : ι) (call : Call) :
    (c.act envs i call).engines i = call.exec (envs i) (c.on i) :=
  Function.update_self i _ _

theorem act_engines_of_ne (c : Shared ι) {i j : ι} (call : Call) (hne : j ≠ i) :
    (c.act envs i call).engines j = c.engines j :=
  Function.update_of_ne hne _ _

/-- The engines stay persistent. -/
theorem act_persistent (c : Shared ι) (i : ι) (call : Call)
    (h : ∀ j, (c.engines j).persistent = true) (j : ι) :
    ((c.act envs i call).engines j).persistent = true := by
  by_cases hj : j = i
  · subst hj
    rw [act_engines_self]
    cases hcall : call.isRestart with
    | false => exact (call.moves (envs j) _ hcall).persistent.trans (h j)
    | true =>
        cases call with
        | restart registry capabilities broker => rfl
        | _ => cases hcall
  · rw [act_engines_of_ne c call hj]
    exact h j

/-- **A call of one engine is a step of the replicas.** -/
theorem act_step (c : Shared ι) (behind : ι → String → Prop) (i : ι) {call : Call}
    (hpersistent : (c.engines i).persistent = true) (hcall : call.onTasks = true) :
    Replicas.Step Task.revision i (c.replicas behind)
      ((c.act envs i call).replicas (c.outdated envs behind i call)) := by
  -- a call changes the copies of one engine
  have hothers : ∀ j, j ≠ i →
      ((c.act envs i call).replicas (c.outdated envs behind i call)).copies j
        = (c.replicas behind).copies j := by
    intro j hj
    funext taskId
    show ((c.act envs i call).engines j).tasks.get? taskId = _
    rw [act_engines_of_ne c call hj]
    rfl
  cases hrestart : call.isRestart with
  | false =>
      refine .works (fun taskId => ?_) hothers (fun taskId hbehind => ?_) (fun j taskId hj hor => ?_)
      · have hstill : (c.on i).persistent = true := hpersistent
        have hadvance : TasksAdvance (c.on i) (call.exec (envs i) (c.on i)) :=
          Call.tasksAdvance hstill hcall hrestart
        show Advances Task.revision _ _ (((c.act envs i call).engines i).tasks.get? taskId) _
        rw [act_engines_self]
        exact hadvance taskId
      · show c.outdated envs behind i call i taskId
        rw [outdated, if_pos rfl]
        exact ⟨hrestart, hbehind⟩
      · show c.outdated envs behind i call j taskId
        rw [outdated, if_neg hj]
        exact hor
  -- a restart loads the copies and changes no row
  | true =>
      cases call with
      | restart registry capabilities broker =>
          refine .loads ?_ rfl hothers (fun j taskId hj hbehind => ?_)
          · funext taskId
            show ((c.act envs i _).engines i).tasks.get? taskId = _
            rw [act_engines_self]
            rfl
          · show c.outdated envs behind i _ j taskId
            rw [outdated, if_neg hj]
            exact Or.inl hbehind
      | _ => cases hrestart

/-- What recent copies are good for, over a whole interleaving. -/
theorem lossless_of_recent : ∀ {schedule : List (ι × Call)} {c : Shared ι}
    {behind : ι → String → Prop}, (∀ i, (c.engines i).persistent = true) →
    (c.replicas behind).Recent Task.revision → (∀ entry ∈ schedule, entry.2.onTasks = true) →
    Current envs behind c schedule → c.Lossless envs schedule
  | [], _, _, _, _, _, _ => trivial
  | (i, call) :: later, c, behind, hpersistent, hrecent, hcalls, ⟨hnow, hcurrent⟩ => by
      have hstep := @act_step ι _ envs c behind i call (hpersistent i)
        (hcalls (i, call) List.mem_cons_self)
      obtain ⟨hrecent', hkeeps⟩ := hstep.keeps hrecent hnow
      refine ⟨⟨hkeeps.revision, fun taskId row row' hrow hrow' hne => ?_⟩, ?_⟩
      · obtain ⟨copy, hcopy, hle, _⟩ := hkeeps.basis taskId row row' hrow hrow' hne
        exact ⟨copy, hcopy, hle⟩
      · exact lossless_of_recent (act_persistent c i call hpersistent) hrecent'
          (fun entry hentry => hcalls entry (List.mem_cons_of_mem _ hentry)) hcurrent

end Shared

/-- **No task update is lost between engines, one writer at a time.**  Take any engines hydrated
from one database, and any interleaving of whole calls on tasks, in which an engine may also be
hydrated anew.  If every call that changes the row of a task is made by an engine that was hydrated
after any other engine's last change of that row, no durable revision decreases, and no row is
overwritten by one that was computed from an older revision.
-/
theorem updates_kept {ι : Type} [DecidableEq ι] (envs : ι → Env) (c : Shared ι)
    (hhydrated : c.Hydrated) (schedule : List (ι × Call))
    (hcalls : ∀ entry ∈ schedule, entry.2.onTasks = true)
    (hcurrent : Shared.Current envs (fun _ _ => False) c schedule) : c.Lossless envs schedule := by
  refine Shared.lossless_of_recent (fun i => (hhydrated i).1) (fun i taskId _ row hrow => ?_) hcalls
    hcurrent
  refine ⟨row, ?_, le_rfl⟩
  show (c.engines i).tasks.get? taskId = some row
  rw [(hhydrated i).2]
  exact hrow

/-- Two engines hydrated from a database with one task. -/
def twoEngines : Shared Bool where
  engines := fun _ => Small.start
  db := Small.start.db

theorem twoEngines_hydrated : twoEngines.Hydrated := fun _ => ⟨rfl, rfl⟩

/-- One engine has the task paused and then cancelled, and the other lets it wait. -/
def cancelledThenWaiting : List (Bool × Call) :=
  [(true, .control "t" .paused), (true, .control "t" .cancelled),
    (false, .wait "t" "blocked" "task.waiting")]

/-- The second engine still has the task as it was before the cancellation, and stores it waiting:
the revision goes back from 3 to 2, and the cancellation is gone. -/
theorem updates_kept_fails :
    ¬ ∀ (envs : Bool → Env) (c : Shared Bool) (schedule : List (Bool × Call)), c.Hydrated →
      (∀ entry ∈ schedule, entry.2.onTasks = true ∧ entry.2.isRestart = false) →
      c.Lossless envs schedule := by
  intro h
  let envs : Bool → Env := fun _ => Small.env
  let cancelled := (twoEngines.act envs true (.control "t" .paused)).act envs true
    (.control "t" .cancelled)
  obtain ⟨_, _, hkeeps, _⟩ := h envs twoEngines cancelledThenWaiting twoEngines_hydrated (by decide)
  have hbefore : (cancelled.db.tasks.get? "t").map Task.revision = some 3 := by decide +kernel
  have hafter : ((cancelled.act envs false (.wait "t" "blocked" "task.waiting")).db.tasks.get?
      "t").map Task.revision = some 2 := by decide +kernel
  obtain ⟨row, hrow, hthree⟩ := Option.map_eq_some_iff.mp hbefore
  obtain ⟨row', hrow', hle⟩ := hkeeps.revision "t" row hrow
  rw [hrow', Option.map_some, Option.some.injEq] at hafter
  omega

/-- The task is cancelled by one engine, and the other is hydrated before it lets the task wait. -/
def handedOver : List (Bool × Call) :=
  [(true, .control "t" .paused), (true, .control "t" .cancelled),
    (false, .restart Small.start.registry ["editor"] none),
    (false, .wait "t" "blocked" "task.waiting")]

/-- After the handover the revision goes on from 3. -/
theorem updates_kept_handedOver :
    twoEngines.Lossless (fun _ => Small.env) handedOver ∧
      (handedOver.foldl (fun c entry => c.act (fun _ => Small.env) entry.1 entry.2)
        twoEngines).db.tasks.rows.map Task.revision = [4] := by
  refine ⟨updates_kept (fun _ => Small.env) twoEngines twoEngines_hydrated handedOver (by decide)
    ⟨fun _ _ hbehind => hbehind, fun _ _ hbehind => ?_, fun _ hchanged => absurd rfl hchanged,
      fun _ _ hbehind => ?_, trivial⟩, by decide +kernel⟩
  · rw [Shared.outdated, if_pos rfl] at hbehind
    exact hbehind.2
  · rw [Shared.outdated, if_pos rfl] at hbehind
    cases hbehind.1

end LiandanluNative
