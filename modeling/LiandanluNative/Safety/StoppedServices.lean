/-
# LiandanluNative.Safety.StoppedServices — whether a stopped service stays stopped.

`stop` waits for the process and leaves the record STOPPED, but it keeps the handle of the process
and the generation of the record.  So the next `tick` takes the exit it finds for a failure, and a
message of the process that was still on its way is accepted as current (`stopped_stays_fails`).
Nothing else that is no request about the service can revive it (`stopped_stays_iff`).

What a stop leaves of a service is kept by every unasked move, but perhaps the state
(`StillHalted`); so the state is decided by the moves that revive the service, one at a time
(`Accounts`).
-/
import LiandanluNative.Lib.Runs
import LiandanluNative.SupervisorMoves

namespace LiandanluNative

open Lib (Table)
open Lib.Proc Lib.Runs

/-! ## Stopping -/

section

variable {os : Os} {id : String} {s t : Supervisor}

theorem exits_exited (s : Supervisor) (id : String) (code : Int) :
    (s.exits id code).running id = false := by
  unfold Supervisor.exits
  cases hget : s.processes.get? id with
  | none => simp only [Supervisor.running, hget]
  | some process =>
      have hid : process.serviceId = id := Table.key_of_get? hget
      dsimp only
      split
      · simp only [Supervisor.running, Table.get?_put, if_pos hid, Option.isNone_some]
      · rename_i hexited
        simpa only [Supervisor.running, hget, Bool.not_eq_true] using hexited

/-- Once `wait` has returned, the process has exited. -/
theorem haltProcess_eq_ok {a : Unit} (h : haltProcess os id s = .ok a t) :
    t.running id = false := by
  obtain ⟨u, v, hget, hrest⟩ := bind_eq_ok.mp h
  cases hget
  split at hrest
  · unfold awaitExit at hrest
    cases hterminate : os.terminate with
    | some code =>
        rw [hterminate] at hrest
        cases hrest
        exact exits_exited s id code
    | none =>
        cases hkill : os.kill with
        | some code =>
            rw [hterminate, hkill] at hrest
            cases hrest
            exact exits_exited s id code
        | none =>
            rw [hterminate, hkill] at hrest
            cases hrest
  · rename_i hidle
    cases hrest
    exact Bool.not_eq_true _ ▸ hidle

/-- **What a stop that returned leaves**: a record that is STOPPED, and no process that runs. -/
theorem stopService_eq_ok {record : ServiceRecord} (h : stopService os id s = .ok record t) :
    t.services.get? id = some record ∧ record.actualState = .stopped ∧ t.running id = false := by
  obtain ⟨old, u, hget, hrest⟩ := bind_eq_ok.mp h
  obtain ⟨hold, rfl⟩ := getService_eq_ok.mp hget
  obtain ⟨_, v, hset, hrest⟩ := bind_eq_ok.mp hrest
  obtain ⟨_, w, hhalt, hrest⟩ := bind_eq_ok.mp hrest
  obtain ⟨_, x, hlast, hdone⟩ := bind_eq_ok.mp hrest
  cases hlast
  cases hdone
  have hid : old.halted.serviceId = id := Table.key_of_get? (v := old) hold
  have hexited := haltProcess_eq_ok hhalt
  refine ⟨?_, rfl, hexited⟩
  rw [Table.get?_put, if_pos hid]

end

/-! ## Late ticks and messages

Each move that is no request is gone through: it leaves the state alone, or it revives the service
and meets the condition for that.
-/

/-- The move is no request about the service: it is not started, restarted, stopped or assessed. -/
def SupervisorMove.unasked (serviceId : String) : SupervisorMove → Prop
  | .start _ id => id ≠ serviceId
  | .restart _ id => id ≠ serviceId
  | .stop _ id => id ≠ serviceId
  | .assess id _ _ _ => id ≠ serviceId
  | _ => True

/-- The move is a `tick`, a `heartbeat` or a `mark_ready`. -/
def SupervisorMove.late : SupervisorMove → Prop
  | .tick _ _ => True
  | .heartbeat _ _ _ => True
  | .markReady _ _ _ _ _ => True
  | _ => False

/-- The move takes a stopped service for one that failed or is ready: a tick, where the supervisor
has a process handle of the service, or a message that carries the generation of the record. -/
def SupervisorMove.revives (serviceId : String) (s : Supervisor) : SupervisorMove → Prop
  | .tick _ _ => ∃ process, s.processes.get? serviceId = some process
  | .markReady _ id generation _ _ => id = serviceId ∧
      ∃ record, s.services.get? serviceId = some record ∧ record.generation = generation
  | _ => False

/-- What a stop left of a service, and what of it every unasked move leaves alone. -/
structure StillHalted (serviceId : String) (t u : Supervisor) : Prop where
  exited : u.running serviceId = false
  processes : u.processes.get? serviceId = t.processes.get? serviceId
  generation : (u.services.get? serviceId).map ServiceRecord.generation
    = (t.services.get? serviceId).map ServiceRecord.generation

section

variable {serviceId : String} {t u : Supervisor}

theorem StillHalted.congr (h : StillHalted serviceId t u) {v : Supervisor}
    (hprocesses : v.processes.get? serviceId = u.processes.get? serviceId)
    (hgeneration : (v.services.get? serviceId).map ServiceRecord.generation
      = (u.services.get? serviceId).map ServiceRecord.generation) : StillHalted serviceId t v where
  exited := by
    have hexited := h.exited
    unfold Supervisor.running at hexited ⊢
    rw [hprocesses]
    exact hexited
  processes := hprocesses.trans h.processes
  generation := hgeneration.trans h.generation

theorem actualState_eq {record : ServiceRecord} (hget : u.services.get? serviceId = some record)
    {state : ServiceState} :
    u.actualState serviceId = some state ↔ record.actualState = state := by
  rw [Supervisor.actualState, hget, Option.map_some, Option.some.injEq]

/-- What a move has to show: the service is as `stop` left it, and it is STOPPED just when the
condition holds. -/
def Accounts (serviceId : String) (t v : Supervisor) (C : Prop) : Prop :=
  StillHalted serviceId t v ∧ (v.actualState serviceId = some .stopped ↔ C)

/-- A move that leaves the service alone. -/
theorem accounts_of_view (h : StillHalted serviceId t u)
    (hstopped : u.actualState serviceId = some .stopped) {v : Supervisor} {C : Prop}
    (hview : v.view serviceId = u.view serviceId) (hC : C) : Accounts serviceId t v C := by
  simp only [Supervisor.view, Prod.mk.injEq] at hview
  refine ⟨h.congr hview.2.1 (by rw [hview.1]), iff_of_true ?_ hC⟩
  rw [Supervisor.actualState, hview.1]
  exact hstopped

/-- **One tick.** It revives the service if it finds a process. -/
theorem tick_accounts (h : StillHalted serviceId t u)
    (hstopped : u.actualState serviceId = some .stopped) (os : Os) (nowMonotonic : Option ℚ) :
    Accounts serviceId t (SupervisorMove.exec u (.tick os nowMonotonic))
      (¬ ∃ process, t.processes.get? serviceId = some process) := by
  obtain ⟨record, hget, hstate⟩ := Option.map_eq_some_iff.mp hstopped
  have hticked := tick_services os nowMonotonic u serviceId
  rw [hget, Option.map_some] at hticked
  refine ⟨h.congr rfl ?_, ?_⟩
  · rw [hticked, hget, Option.map_some, Option.map_some, record.ticked_generation]
  rw [actualState_eq hticked]
  have hexited := h.exited
  cases hprocess : t.processes.get? serviceId with
  | none =>
      -- without a process only the deadlines are left, and they ask for STARTING or RUNNING
      have hcode : u.exitCode serviceId = none := by
        rw [Supervisor.exitCode, h.processes, hprocess]
        rfl
      refine iff_of_true ?_ (fun ⟨process, hsome⟩ => by cases hsome)
      rw [hcode]
      unfold ServiceRecord.ticked
      rw [if_neg (by rw [hstate]; exact fun hstarting => absurd hstarting.1 (by decide)),
        if_neg (by rw [hstate]; exact fun hrunning => absurd hrunning.1 (by decide))]
      exact hstate
  | some process =>
      -- the process has exited, and its exit is all that `tick` looks at
      have hcode : u.exitCode serviceId = process.returncode := by
        rw [Supervisor.exitCode, h.processes, hprocess]
        rfl
      unfold Supervisor.running at hexited
      rw [h.processes, hprocess] at hexited
      obtain ⟨code, hreturn⟩ := Option.isSome_iff_exists.mp (Option.isNone_eq_false_iff.mp hexited)
      refine iff_of_false ?_ (fun hnone => hnone ⟨process, rfl⟩)
      rw [hcode, hreturn]
      exact fun hfailed => absurd hfailed (by simp [ServiceRecord.ticked])

/-- **One message.** It revives the service if it carries the generation of the record. -/
theorem markReady_accounts (h : StillHalted serviceId t u)
    (hstopped : u.actualState serviceId = some .stopped) (os : Os) (generation : Int)
    (transportOk functionalOk : Bool) :
    Accounts serviceId t
      (SupervisorMove.exec u (.markReady os serviceId generation transportOk functionalOk))
      (¬ (serviceId = serviceId ∧ ∃ record, t.services.get? serviceId = some record ∧
        record.generation = generation)) := by
  obtain ⟨record, hget, hstate⟩ := Option.map_eq_some_iff.mp hstopped
  have hsame : (∃ old, t.services.get? serviceId = some old ∧ old.generation = generation) ↔
      record.generation = generation := by
    have hgeneration := h.generation
    rw [hget, Option.map_some] at hgeneration
    cases hold : t.services.get? serviceId with
    | none =>
        rw [hold] at hgeneration
        cases hgeneration
    | some old =>
        rw [hold, Option.map_some, Option.some.injEq] at hgeneration
        rw [hgeneration]
        refine ⟨fun ⟨other, hother, heq⟩ => ?_, fun heq => ⟨old, rfl, heq⟩⟩
        cases hother
        exact heq
  rw [hsame, and_iff_right rfl]
  show Accounts serviceId t (after (markReady os serviceId generation transportOk functionalOk) u) _
  unfold markReady
  rw [after_known hget]
  by_cases hstale : generation ≠ record.generation
  · rw [if_pos hstale]
    exact ⟨h, iff_of_true hstopped (Ne.symm hstale)⟩
  · rw [if_neg hstale]
    have hid : record.serviceId = serviceId := Table.key_of_get? hget
    have hnew : (u.services.put (record.readied transportOk functionalOk os.monotonic)).get?
        serviceId = some (record.readied transportOk functionalOk os.monotonic) := by
      rw [Table.get?_put]
      exact if_pos hid
    refine ⟨h.congr rfl ?_, iff_of_false ?_ (fun hfresh => hfresh (not_not.mp hstale).symm)⟩
    · show ((u.services.put _).get? serviceId).map ServiceRecord.generation = _
      rw [hnew, hget]
      rfl
    -- the message makes it RUNNING or DEGRADED
    · refine fun hstill => ?_
      have hready := (actualState_eq hnew).mp hstill
      cases transportOk <;> cases functionalOk <;> cases hready

/-- A heartbeat is noted in the record, or refused. -/
theorem heartbeat_accounts (h : StillHalted serviceId t u)
    (hstopped : u.actualState serviceId = some .stopped) (os : Os) (generation : Int) {C : Prop}
    (hC : C) :
    Accounts serviceId t (SupervisorMove.exec u (.heartbeat os serviceId generation)) C := by
  obtain ⟨record, hget, hstate⟩ := Option.map_eq_some_iff.mp hstopped
  have hid : record.serviceId = serviceId := Table.key_of_get? hget
  show Accounts serviceId t (after (heartbeat os serviceId generation) u) C
  unfold heartbeat
  rw [after_known hget]
  by_cases hstale : generation ≠ record.generation
  · rw [if_pos hstale]
    exact ⟨h, iff_of_true hstopped hC⟩
  · rw [if_neg hstale]
    have hnew : (u.services.put { record with lastHeartbeatAt := some os.monotonic }).get? serviceId
        = some { record with lastHeartbeatAt := some os.monotonic } := by
      rw [Table.get?_put]
      exact if_pos hid
    refine ⟨h.congr rfl ?_, iff_of_true ?_ hC⟩
    · show ((u.services.put _).get? serviceId).map ServiceRecord.generation = _
      rw [hnew, hget]
      rfl
    · show ((u.services.put _).get? serviceId).map ServiceRecord.actualState = _
      rw [hnew]
      exact congrArg some hstate

/-- The service is there, so it cannot be registered. -/
theorem register_accounts (h : StillHalted serviceId t u)
    (hstopped : u.actualState serviceId = some .stopped) (command : List String)
    (startupDeadlineS heartbeatTimeoutS shutdownDeadlineS : ℚ) {C : Prop} (hC : C) :
    Accounts serviceId t (SupervisorMove.exec u (.register serviceId command startupDeadlineS
      heartbeatTimeoutS shutdownDeadlineS)) C := by
  obtain ⟨record, hget, hstate⟩ := Option.map_eq_some_iff.mp hstopped
  have hrefused : after (registerService serviceId command startupDeadlineS heartbeatTimeoutS
      shutdownDeadlineS) u = u := by
    unfold registerService
    rw [after_bind_ok (rfl : (get : SupervisorM Supervisor) u = .ok u u), hget]
    rfl
  show Accounts serviceId t (after (registerService serviceId command startupDeadlineS
    heartbeatTimeoutS shutdownDeadlineS) u) C
  rw [hrefused]
  exact ⟨h, iff_of_true hstopped hC⟩

/-- **One unasked move.** -/
theorem unasked_accounts (h : StillHalted serviceId t u)
    (hstopped : u.actualState serviceId = some .stopped) {move : SupervisorMove}
    (hmove : move.unasked serviceId) :
    Accounts serviceId t (move.exec u) (¬ move.revives serviceId t) := by
  have hother : ∀ {id}, move.service? = some id → id ≠ serviceId → ¬ move.revives serviceId t →
      Accounts serviceId t (move.exec u) (¬ move.revives serviceId t) :=
    fun hservice hne hno => accounts_of_view h hstopped (exec_other hservice hne u) hno
  cases move with
  | start os id => exact hother rfl hmove not_false
  | restart os id => exact hother rfl hmove not_false
  | stop os id => exact hother rfl hmove not_false
  | assess id processOk transportOk functionalOk => exact hother rfl hmove not_false
  | tick os nowMonotonic => exact tick_accounts h hstopped os nowMonotonic
  | markReady os id generation transportOk functionalOk =>
      by_cases hsame : id = serviceId
      · subst hsame
        exact markReady_accounts h hstopped os generation transportOk functionalOk
      · exact hother rfl hsame (fun hrevives => hsame hrevives.1)
  | register id command startupDeadlineS heartbeatTimeoutS shutdownDeadlineS =>
      by_cases hsame : id = serviceId
      · subst hsame
        exact register_accounts h hstopped command startupDeadlineS heartbeatTimeoutS
          shutdownDeadlineS not_false
      · exact hother rfl hsame not_false
  | heartbeat os id generation =>
      by_cases hsame : id = serviceId
      · subst hsame
        exact heartbeat_accounts h hstopped os generation not_false
      · exact hother rfl hsame not_false
  | exits id code =>
      -- a process that has exited does not exit again
      obtain ⟨hservices, _⟩ := u.exits_services id code
      rcases u.exits_processes id code serviceId with hsame | ⟨_, process, hprocess, hruns, _⟩
      · refine ⟨h.congr hsame ?_, iff_of_true ?_ not_false⟩
        · exact congrArg (fun services : Table ServiceRecord.serviceId =>
            (services.get? serviceId).map ServiceRecord.generation) hservices
        · show ((u.exits id code).services.get? serviceId).map ServiceRecord.actualState = _
          rw [hservices]
          exact hstopped
      · have hexited := h.exited
        simp only [Supervisor.running, hprocess, hruns, Option.isNone_none, Bool.true_eq_false]
          at hexited

end

/-- **When a stopped service stays stopped.**  After a `stop` that returned, through any moves that
are no requests about the service, its state stays STOPPED exactly when no tick comes while the
supervisor has a process handle of the service, and no message with the generation of its record. -/
theorem stopped_stays_iff (os : Os) (serviceId : String) (s t : Supervisor) (record : ServiceRecord)
    (hstop : stopService os serviceId s = .ok record t) (moves : List SupervisorMove)
    (hmoves : ∀ move ∈ moves, move.unasked serviceId) :
    Always SupervisorMove.exec (fun u => u.actualState serviceId = some .stopped) t moves ↔
      ∀ move ∈ moves, ¬ move.revives serviceId t := by
  obtain ⟨hget, hstate, hexited⟩ := stopService_eq_ok hstop
  have hforall : Each SupervisorMove.exec (fun _ move => ¬ move.revives serviceId t) t moves ↔
      ∀ move ∈ moves, ¬ move.revives serviceId t := each_iff_forall
  rw [← hforall]
  refine always_iff (I := StillHalted serviceId t) (A := fun _ move => move.unasked serviceId)
    (fun u move hmove hu hstopped => (unasked_accounts hu hstopped hmove).1)
    (fun u move hmove hu hstopped => (unasked_accounts hu hstopped hmove).2)
    (each_iff_forall.mpr hmoves)
    ⟨hexited, rfl, rfl⟩ ((actualState_eq hget).mpr hstate)

/-- An operating system that starts every command and ends every process in time. -/
def willingOs : Os :=
  { monotonic := 0
    popen := fun _ => .ok 1
    terminate := some 0
    kill := some 0 }

/-- Heartbeats of the stopped process and readiness of an earlier one leave the service stopped. -/
theorem stopped_stays_heartbeat :
    Always SupervisorMove.exec (fun u => u.actualState "svc" = some .stopped)
      (run SupervisorMove.exec {}
        [.register "svc" ["serve"] 5 10 3, .start willingOs "svc", .stop willingOs "svc"])
      [.heartbeat willingOs "svc" 1, .markReady willingOs "svc" 0 true true] := by
  refine (stopped_stays_iff willingOs "svc"
    (run SupervisorMove.exec {} [.register "svc" ["serve"] 5 10 3, .start willingOs "svc"])
    _ _ rfl _ ?_).mpr ?_
  · intro move hmove
    rcases List.mem_pair.mp hmove with rfl | rfl <;> trivial
  · intro move hmove
    rcases List.mem_pair.mp hmove with rfl | rfl
    · exact not_false
    · rintro ⟨_, record, hrecord, hgeneration⟩
      cases hrecord
      exact absurd hgeneration (by decide)

/-- A service is started and stopped; the next tick finds the exit code of the process that was
stopped, and the service has FAILED. -/
theorem stopped_stays_fails :
    ¬ ∀ (history : List SupervisorMove) (os : Os) (serviceId : String) (record : ServiceRecord)
        (t : Supervisor),
        stopService os serviceId (run SupervisorMove.exec {} history) = .ok record t →
        ∀ moves : List SupervisorMove, (∀ move ∈ moves, move.late) →
          (run SupervisorMove.exec t moves).actualState serviceId = some .stopped := by
  intro h
  have hstill := h [.register "svc" ["serve"] 5 10 3, .start willingOs "svc"] willingOs "svc" _ _
    rfl [.tick willingOs none] (fun move hmove => by rw [List.mem_singleton.mp hmove]; trivial)
  exact absurd hstill (by decide)

end LiandanluNative
