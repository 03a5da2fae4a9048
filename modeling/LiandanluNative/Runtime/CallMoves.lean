/-
# LiandanluNative.Runtime.CallMoves — what an allowance leaves to the public calls.

Only two calls open an operation or call a capability: `prepare` and `execute`, and a step, which is
both.  Every other call moves within any closed allowance that permits what it assigns to tasks
(`Allowance.Permits`) and lets the world change, as long as `recover_operation` does (`moves_call`).

An allowance need not let task leases change.  Where it does not, the calls that hand them out and
take them back are left out (`moves_call_of_leases`); the other calls never touch them.
-/
import LiandanluNative.Runtime.Engine
import LiandanluNative.Runtime.StepMoves

namespace LiandanluNative

open Lib.Proc

/-- A call that neither prepares nor executes an operation, and is no new process.  A restart is a
process of its own, and is told by what the store keeps. -/
def Call.supporting : Call → Prop
  | .prepare .. | .execute _ | .step .. | .restart .. => False
  | _ => True

/-- A call that hands out a task lease, or takes one back. -/
def Call.leasing : Call → Prop
  | .claimNext .. | .renewLease .. | .releaseLease _ => True
  | _ => False

/-- Everything the call assigns to a task is permitted: one line for each method that assigns
anything, with the assignment as `Runtime.Tasks` has it. -/
def Allowance.Permits (A : Allowance) : Call → Prop
  | .createTask _ _ _ _ _ _ _ => ∀ m (t : Task), t.state = .created → A.task t.taskId m t
  | .queue taskId => ∀ t at_, A.task taskId (some t) (t.queued at_)
  | .submit taskId => ∀ t at_, A.task taskId (some t) (t.queued at_)
  | .wait taskId reason _ => ∀ t, A.task taskId (some t) (t.waiting reason)
  | .updateRuntimeState taskId state phase _ _ =>
      ∀ t, A.task taskId (some t) (t.updated state phase)
  | .control taskId desired => ∀ t, A.task taskId (some t) (t.controlled desired)
  | .settleControl taskId safeBoundary externalCancelConfirmed =>
      ∀ t, A.task taskId (some t) (t.settled safeBoundary externalCancelConfirmed)
  | .evaluateGoal taskId claims => ∀ t, A.task taskId (some t) (t.evaluated claims)
  | .recover => ∀ taskId t, A.task taskId (some t) (t.settled true false)
  | _ => True

/-- Where every assignment is permitted, so is everything a call assigns. -/
theorem Allowance.permits_of_free {A : Allowance} (htask : ∀ id m t, A.task id m t) (call : Call) :
    A.Permits call := by
  cases call with
  | createTask => exact fun _ _ _ => htask _ _ _
  | queue => exact fun _ _ => htask _ _ _
  | submit => exact fun _ _ => htask _ _ _
  | recover => exact fun _ _ => htask _ _ _
  | wait | updateRuntimeState | control | settleControl | evaluateGoal => exact fun _ => htask _ _ _
  | _ => trivial

/-- **The calls around the operations.** One case a call, each by the lemma of its method. -/
theorem moves_call_of_leases {A : Allowance} (hA : A.Closed) (env : Env)
    (htouch : ∀ taskId, A.Touches taskId) (hworld : ∀ u v, A.world u v)
    (hrecover : ∀ operationId, Within (Moves A) (recoverOperation env operationId)) (s : Sys)
    {call : Call} (hcall : call.supporting) (hleases : call.leasing → A.leases)
    (hpermits : A.Permits call) : Moves A s (call.exec env s) := by
  have hF := Moves.frame hA
  cases call with
  | createTask goal successCriteria workspaceId constraints lane priority budget =>
      exact moves_createTask hA env goal successCriteria workspaceId constraints lane priority
        budget (fun _ => hworld _ _) (fun m t hcreated _ => hpermits m t hcreated)
        (fun id => (htouch id).keep) s
  | queue taskId => exact moves_queueTask hA env (htouch taskId) (fun t at_ _ _ => hpermits t at_)
  | submit taskId => exact moves_submitTask hA env (htouch taskId) (fun t at_ _ _ => hpermits t at_)
  | wait taskId reason eventType =>
      exact moves_waitTask hA env (htouch taskId) _ _ (fun t _ => hpermits t)
  | updateRuntimeState taskId state phase eventType actor =>
      exact moves_updateRuntimeState hA env (htouch taskId) _ _ _ _ (fun t _ => hpermits t)
  | control taskId desired =>
      exact moves_controlTask hA env (htouch taskId) _ (fun t _ _ => hpermits t)
  | settleControl taskId safeBoundary externalCancelConfirmed =>
      exact moves_settleControl hA env (htouch taskId) _ _ (fun t _ _ => hpermits t)
  | evaluateGoal taskId claims =>
      exact moves_evaluateGoal hA env (htouch taskId) _ (fun t _ => hpermits t)
  | recoverOperation operationId => exact hrecover operationId s
  | recover =>
      -- the operations first, then the control requests of the tasks, then the outbox
      refine recover_within hF hrecover (fun id u => ?_) (moves_flushOutbox hA env) s
      exact moves_settleControl hA env (htouch id) _ _ (fun t _ _ => hpermits id t)
  | register entity => exact moves_registerEntity hA env (fun _ _ => hworld _ _) entity s
  | observe source observationType value domain workspaceId =>
      exact moves_observe hA env (fun _ _ => hworld _ _) _ _ _ _ _ s
  | relate source relation target =>
      exact moves_relate hA env (fun _ _ => hworld _ _) _ _ _ s
  | claimNext ownerId leaseSeconds =>
      exact hF.bind within_readClock (fun ts => moves_claimNextTask env (hleases trivial) _ _ ts) s
  | renewLease lease leaseSeconds =>
      exact hF.bind within_readClock (fun ts => moves_renewTaskLease env (hleases trivial) _ _ ts) s
  | releaseLease lease => exact moves_releaseTaskLease env (hleases trivial) lease s
  | flushOutbox => exact moves_flushOutbox hA env s
  | prepare taskId proposal expectedRevisions taskLease resourceLease => exact hcall.elim
  | execute operationId => exact hcall.elim
  | step runner taskId manifest taskLease => exact hcall.elim
  | restart registry capabilities broker => exact hcall.elim

/-- The same where the leases may change. -/
theorem moves_call {A : Allowance} (hA : A.Closed) (env : Env)
    (htouch : ∀ taskId, A.Touches taskId) (hworld : ∀ u v, A.world u v) (hleases : A.leases)
    (hrecover : ∀ operationId, Within (Moves A) (recoverOperation env operationId)) (s : Sys)
    {call : Call} (hcall : call.supporting) (hpermits : A.Permits call) :
    Moves A s (call.exec env s) :=
  moves_call_of_leases hA env htouch hworld hrecover s hcall (fun _ => hleases) hpermits

end LiandanluNative
