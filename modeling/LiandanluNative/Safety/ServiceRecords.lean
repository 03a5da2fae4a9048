/-
# LiandanluNative.Safety.ServiceRecords — what a service record says of its process.

A record shows a state, three flags and a pid, each assigned to in several methods, by callers who
report what they please; the process behind it is started, ended and exits on its own.  In whatever
order this happens, the parts of a record keep in step with each other and with the handle of the
process (`services_agree`).

`ServiceRecord.Agrees` is the invariant of one record and one handle.  Every assignment that a
method makes to a record keeps it, and the few methods that assign to the handle as well are gone
through one by one; `Supervisor.InStep` says it of all services at once.
-/
import LiandanluNative.Safety.StoppedServices

namespace LiandanluNative

open Lib (Table)
open Lib.Proc Lib.Runs

/-! ## Agreement

One record and one handle.  For each assignment of a method there is a lemma that it keeps them in
agreement.
-/

/-- The record and the handle of the process last started for the service, if any, agree. -/
structure ServiceRecord.Agrees (record : ServiceRecord) (process : Option Popen) : Prop where
  /-- A process that runs is the one the record names. -/
  named : ∀ p, process = some p → p.returncode = none → record.pid = some p.pid
  /-- The process the record names is that of the handle. -/
  handled : ∀ pid, record.pid = some pid → process.map Popen.pid = some pid
  registered : record.actualState = .registered → process = none ∧
    (record.processOk, record.transportOk, record.functionalOk) = (false, false, false)
  starting : record.actualState = .starting →
    record.pid.isSome = true ∧
      (record.processOk, record.transportOk, record.functionalOk) = (true, false, false)
  running : record.actualState = .running →
    (record.processOk, record.transportOk, record.functionalOk) = (true, true, true)
  degraded : record.actualState = .degraded → record.processOk = true
  failed : record.actualState = .failed →
    record.processOk = false ∨ record.lastError = some "startup deadline exceeded"
  stopping : record.actualState = .stopping → process.isSome = true ∧ record.pid.isSome = true
  stopped : record.actualState = .stopped →
    record.pid = none ∧
      (record.processOk, record.transportOk, record.functionalOk) = (false, false, false)
  /-- No method assigns these. -/
  assigned : record.actualState ≠ .ready ∧ record.actualState ≠ .recovering

namespace ServiceRecord.Agrees

variable {record : ServiceRecord} {process : Option Popen}

/-- A service that was just added: it is REGISTERED, and nothing was started for it. -/
theorem new (serviceId : String) (command : List String)
    (startupDeadlineS heartbeatTimeoutS shutdownDeadlineS : ℚ) :
    ServiceRecord.Agrees
      { serviceId := serviceId
        command := command
        startupDeadlineS := startupDeadlineS
        heartbeatTimeoutS := heartbeatTimeoutS
        shutdownDeadlineS := shutdownDeadlineS } none := by
  constructor <;> simp

/-- The process exits. -/
theorem exits {p : Popen} (h : record.Agrees (some p)) (code : Int) :
    record.Agrees (some { p with returncode := some code }) :=
  { h with
    named := fun q hq hruns => by
      cases hq
      cases hruns
    handled := h.handled
    registered := fun hstate => by cases (h.registered hstate).1
    stopping := fun hstate => ⟨rfl, (h.stopping hstate).2⟩ }

/-- A process was started, and the record says so: its pid is that of the handle. -/
theorem begun (record : ServiceRecord) (p : Popen) (ts : ℚ) :
    (record.begun p.pid ts).Agrees (some p) := by
  constructor <;> simp [ServiceRecord.begun]

/-- What a record shows that agreement is about. -/
def shown (record : ServiceRecord) :
    Option Int × ServiceState × (Bool × Bool × Bool) × Option String :=
  (record.pid, record.actualState, (record.processOk, record.transportOk, record.functionalOk),
    record.lastError)

/-- Agreement is about nothing else. -/
theorem congr (h : record.Agrees process) {new : ServiceRecord} (hshown : shown new = shown record) :
    new.Agrees process := by
  simp only [shown, Prod.mk.injEq] at hshown
  obtain ⟨hpid, hstate, ⟨hprocess, htransport, hfunctional⟩, herror⟩ := hshown
  constructor
  · exact hpid ▸ h.named
  · exact hpid ▸ h.handled
  · rw [hstate, hprocess, htransport, hfunctional]
    exact h.registered
  · rw [hstate, hpid, hprocess, htransport, hfunctional]
    exact h.starting
  · rw [hstate, hprocess, htransport, hfunctional]
    exact h.running
  · rw [hstate, hprocess]
    exact h.degraded
  · rw [hstate, hprocess, herror]
    exact h.failed
  · rw [hstate, hpid]
    exact h.stopping
  · rw [hstate, hpid, hprocess, htransport, hfunctional]
    exact h.stopped
  · exact hstate ▸ h.assigned

/-- **A report** leaves the pid alone and shows RUNNING, DEGRADED or FAILED, with flags to match. -/
theorem reported (h : record.Agrees process) {new : ServiceRecord} (hpid : new.pid = record.pid)
    (hstate : new.actualState = .running ∧
        (new.processOk, new.transportOk, new.functionalOk) = (true, true, true) ∨
      new.actualState = .degraded ∧ new.processOk = true ∨
      new.actualState = .failed ∧
        (new.processOk = false ∨ new.lastError = some "startup deadline exceeded")) :
    new.Agrees process := by
  have hnamed := hpid ▸ h.named
  have hhandled := hpid ▸ h.handled
  rcases hstate with ⟨hrunning, hflags⟩ | ⟨hdegraded, hprocess⟩ | ⟨hfailed, hreason⟩
  · refine ⟨hnamed, hhandled, ?_, ?_, fun _ => hflags, ?_, ?_, ?_, ?_, ?_⟩ <;> simp [hrunning]
  · refine ⟨hnamed, hhandled, ?_, ?_, ?_, fun _ => hprocess, ?_, ?_, ?_, ?_⟩ <;> simp [hdegraded]
  · refine ⟨hnamed, hhandled, ?_, ?_, ?_, ?_, fun _ => hreason, ?_, ?_, ?_⟩ <;> simp [hfailed]

/-- Somebody reports how the service is. -/
theorem assessed (h : record.Agrees process) (processOk transportOk functionalOk : Bool) :
    (record.assessed processOk transportOk functionalOk).Agrees process := by
  refine h.reported rfl ?_
  cases processOk with
  | false => exact Or.inr (Or.inr ⟨rfl, Or.inl rfl⟩)
  | true =>
      cases transportOk with
      | false => exact Or.inr (Or.inl ⟨rfl, rfl⟩)
      | true =>
          cases functionalOk with
          | false => exact Or.inr (Or.inl ⟨rfl, rfl⟩)
          | true => exact Or.inl ⟨rfl, rfl⟩

/-- The service reports to be ready. -/
theorem readied (h : record.Agrees process) (transportOk functionalOk : Bool) (ts : ℚ) :
    (record.readied transportOk functionalOk ts).Agrees process := by
  refine h.reported rfl ?_
  cases transportOk with
  | false => exact Or.inr (Or.inl ⟨rfl, rfl⟩)
  | true =>
      cases functionalOk with
      | false => exact Or.inr (Or.inl ⟨rfl, rfl⟩)
      | true => exact Or.inl ⟨rfl, rfl⟩

/-- A tick looks at the record. -/
theorem ticked (h : record.Agrees process) (exitCode : Option Int) (ts : ℚ) :
    (record.ticked exitCode ts).Agrees process := by
  unfold ServiceRecord.ticked
  split
  · exact h.reported rfl (Or.inr (Or.inr ⟨rfl, Or.inl rfl⟩))
  · split
    · exact h.reported rfl (Or.inr (Or.inr ⟨rfl, Or.inr rfl⟩))
    · split
      · rename_i hoverdue
        have hflags := h.running hoverdue.1
        exact h.reported rfl (Or.inr (Or.inl ⟨rfl, congrArg Prod.fst hflags⟩))
      · exact h

/-- The service was stopped, and its process does not run.  Nothing is asked of the record before.
-/
theorem halted (record : ServiceRecord)
    (hexited : ∀ p, process = some p → p.returncode ≠ none) : record.halted.Agrees process := by
  constructor <;> simp [ServiceRecord.halted]
  exact fun p hp hruns => absurd hruns (hexited p hp)

/-- A stop has begun, and there is a process to wait for: the one that the record names. -/
theorem halting (h : record.Agrees process) {p : Popen} (hprocess : process = some p)
    (hruns : p.returncode = none) :
    ServiceRecord.Agrees { record with desiredState := .stopped, actualState := .stopping }
      process := by
  have hboth : process.isSome = true ∧ record.pid.isSome = true := by
    rw [h.named p hprocess hruns, hprocess]
    exact ⟨rfl, rfl⟩
  refine ⟨h.named, h.handled, ?_, ?_, ?_, ?_, ?_, fun _ => hboth, ?_, ?_⟩ <;> simp

end ServiceRecord.Agrees

/-! ## Every move -/

/-- Every record agrees with its process, and no process is without a record.  It holds between any
two moves, and where a method raises. -/
structure Supervisor.InStep (s : Supervisor) : Prop where
  agrees : ∀ id record, s.services.get? id = some record → record.Agrees (s.processes.get? id)
  known : ∀ id, s.services.get? id = none → s.processes.get? id = none

/-- A method that keeps every record in step, however it ends. -/
def KeepsStep {α : Type} (m : SupervisorM α) : Prop := Within (fun s t => s.InStep → t.InStep) m

/-- Staying in step carries over from one part of a method to the next. -/
theorem frame_inStep : Frame (fun s t : Supervisor => s.InStep → t.InStep) where
  refl _ := fun hs => hs
  trans h₁ h₂ := fun hs => h₂ (h₁ hs)

namespace Supervisor.InStep

variable {s t : Supervisor} {id : String}

/-- The record of a service that is there is replaced by one that agrees. -/
theorem put (hs : s.InStep) {record new : ServiceRecord} (hget : s.services.get? id = some record)
    (hid : new.serviceId = record.serviceId) (hnew : new.Agrees (s.processes.get? id)) :
    InStep { s with services := s.services.put new } := by
  have hkey : new.serviceId = id := hid.trans (Table.key_of_get? hget)
  refine ⟨fun other found hfound => ?_, fun other hnone => ?_⟩
  · rw [Table.get?_put] at hfound
    split at hfound
    · rename_i hsame
      cases hfound
      rw [← hsame, hkey]
      exact hnew
    · exact hs.agrees other found hfound
  · rw [Table.get?_put] at hnone
    split at hnone
    · cases hnone
    · exact hs.known other hnone

/-- A service is added. -/
theorem add (hs : s.InStep) (hnone : s.services.get? id = none) {record : ServiceRecord}
    (hid : record.serviceId = id) (hnew : record.Agrees none) :
    InStep { s with services := s.services.put record } := by
  refine ⟨fun other found hfound => ?_, fun other hmissing => ?_⟩
  · rw [Table.get?_put] at hfound
    split at hfound
    · rename_i hsame
      cases hfound
      rw [← hsame, hid, hs.known id hnone]
      exact hnew
    · exact hs.agrees other found hfound
  · rw [Table.get?_put] at hmissing
    split at hmissing
    · cases hmissing
    · exact hs.known other hmissing

/-- A process exits. -/
theorem exits (hs : s.InStep) (id : String) (code : Int) : (s.exits id code).InStep := by
  obtain ⟨hservices, _⟩ := s.exits_services id code
  refine ⟨fun other record hrecord => ?_, fun other hnone => ?_⟩
  · rw [hservices] at hrecord
    have hagrees := hs.agrees other record hrecord
    rcases s.exits_processes id code other with hsame | ⟨_, process, hprocess, _, hexited⟩
    · rw [hsame]
      exact hagrees
    · rw [hexited]
      rw [hprocess] at hagrees
      exact hagrees.exits code
  · rw [hservices] at hnone
    have hprocess := hs.known other hnone
    rcases s.exits_processes id code other with hsame | ⟨_, process, hfound, _, _⟩
    · rw [hsame]
      exact hprocess
    · cases hprocess.symm.trans hfound

end Supervisor.InStep

section

variable {id : String}

/-- A start puts the record and the handle of the new process side by side, or raises before either.
-/
theorem keepsStep_start (os : Os) : KeepsStep (startService os id) := by
  have hF := frame_inStep
  refine within_service hF (fun record s hget => ?_)
  have hid : record.serviceId = id := Table.key_of_get? hget
  split
  · exact hF.throw _ s
  refine hF.bind_at (hF.get s) (fun u v hu => ?_)
  cases hu
  split
  · exact hF.throw _ s
  split
  · exact hF.throw _ s
  · rename_i pid _
    intro hs
    -- between the two assignments the record is that of the process before
    let process : Popen :=
      { serviceId := id
        pid := pid
        generation := record.generation }
    have hbegun : (record.begun pid os.monotonic).serviceId = id := hid
    refine ⟨fun other found hfound => ?_, fun other hnone => ?_⟩
    · have hfound : (s.services.put (record.begun pid os.monotonic)).get? other = some found := hfound
      show found.Agrees ((s.processes.put process).get? other)
      rw [Table.get?_put, hbegun] at hfound
      rw [Table.get?_put]
      by_cases hsame : id = other
      · rw [if_pos hsame] at hfound
        cases hfound
        rw [if_pos hsame]
        exact .begun record process os.monotonic
      · rw [if_neg hsame] at hfound
        rw [if_neg hsame]
        exact hs.agrees other found hfound
    · have hnone : (s.services.put (record.begun pid os.monotonic)).get? other = none := hnone
      show (s.processes.put process).get? other = none
      rw [Table.get?_put, hbegun] at hnone
      rw [Table.get?_put]
      by_cases hsame : id = other
      · rw [if_pos hsame] at hnone
        cases hnone
      · rw [if_neg hsame] at hnone
        rw [if_neg hsame]
        exact hs.known other hnone

/-- Waiting ends with an exit, which keeps step, or raises. -/
theorem keepsStep_haltProcess (os : Os) : KeepsStep (haltProcess os id) := by
  have hF := frame_inStep
  refine hF.bind hF.get (fun s => ?_)
  split
  · unfold awaitExit
    split
    · exact within_modify (fun s hs => hs.exits id _)
    · split
      · exact within_modify (fun s hs => hs.exits id _)
      · exact hF.throw _
  · exact hF.pure _

/-- Waiting for a process leaves the records as they are. -/
theorem haltProcess_services (os : Os) :
    Within (Fixes Supervisor.services) (haltProcess os id) := by
  have hF := frame_fixes Supervisor.services
  refine hF.bind hF.get (fun s => ?_)
  split
  · unfold awaitExit
    split
    · exact within_modify (fun s => (s.exits_services id _).1)
    · split
      · exact within_modify (fun s => (s.exits_services id _).1)
      · exact hF.throw _
  · exact hF.pure _

/-- A service runs if it has a handle whose process has not exited. -/
theorem running_eq_true {s : Supervisor} (h : s.running id = true) :
    ∃ p, s.processes.get? id = some p ∧ p.returncode = none := by
  unfold Supervisor.running at h
  cases hget : s.processes.get? id with
  | none => simp [hget] at h
  | some process =>
      rw [hget] at h
      exact ⟨process, rfl, by simpa using h⟩

/-- Where it does not, a handle that it has is of a process that exited. -/
theorem running_eq_false {s : Supervisor} (h : s.running id = false) {p : Popen}
    (hp : s.processes.get? id = some p) : p.returncode ≠ none := by
  unfold Supervisor.running at h
  rw [hp] at h
  exact fun hruns => by simp [hruns] at h

/-- A stop shows STOPPING while it waits, and STOPPED when the process does not run. -/
theorem keepsStep_stop (os : Os) : KeepsStep (stopService os id) := by
  have hF := frame_inStep
  refine within_service hF (fun record s hget hs => ?_)
  let stopping : ServiceRecord :=
    { record with
      desiredState := .stopped
      actualState := .stopping }
  let u : Supervisor := { s with services := s.services.put stopping }
  have hid : record.serviceId = id := Table.key_of_get? hget
  have hstopping : u.services.get? id = some stopping := by
    show (s.services.put stopping).get? id = _
    rw [Table.get?_put]
    exact if_pos hid
  show (after (haltProcess os id >>= fun _ => setService record.halted >>= fun _ =>
    (pure record.halted : SupervisorM ServiceRecord)) u).InStep
  by_cases hruns : s.running id = true
  · -- the record is STOPPING while the process is waited for
    have hu : u.InStep := by
      obtain ⟨p, hp, halive⟩ := running_eq_true hruns
      exact hs.put hget rfl ((hs.agrees id record hget).halting hp halive)
    refine after_bind (P := Supervisor.InStep) (fun e v hv => ?_) (fun _ v hv => ?_)
    · exact (keepsStep_haltProcess os).of_error hv hu
    -- the process is gone, and the record is as it was left
    · have hservices : v.services = u.services := (haltProcess_services os).of_ok hv
      have hexited := haltProcess_eq_ok hv
      have hstill : v.services.get? id = some stopping := by
        rw [hservices]
        exact hstopping
      refine ((keepsStep_haltProcess os).of_ok hv hu).put hstill rfl ?_
      exact .halted record (fun p hp => running_eq_false hexited hp)
  · -- there is nothing to wait for
    have hidle : haltProcess os id u = .ok () u := by
      refine bind_eq_ok.mpr ⟨u, u, rfl, ?_⟩
      have hstill : u.running id = s.running id := rfl
      rw [hstill, if_neg hruns]
      rfl
    rw [after_bind_ok hidle]
    have hput : u.services.put record.halted = s.services.put record.halted := Table.put_put rfl
    show Supervisor.InStep { s with services := u.services.put record.halted }
    rw [hput]
    refine hs.put hget rfl (.halted record (fun p hp => ?_))
    exact running_eq_false (Bool.eq_false_iff.mpr hruns) hp

/-- A restart stops the service and starts it again. -/
theorem keepsStep_restart (os : Os) : KeepsStep (restartService os id) := by
  have hF := frame_inStep
  have hstop : KeepsStep (stopIfRunning os id) := by
    refine hF.bind hF.get (fun s => ?_)
    split
    · exact hF.bind (keepsStep_stop os) (fun _ => hF.pure _)
    · exact hF.pure _
  refine hF.bind (within_getService hF) (fun _ => hF.bind hstop (fun _ => ?_))
  refine within_service hF (fun record s hget => ?_)
  refine hF.bind_at (fun hs => ?_) (fun _ t _ => ?_)
  · exact hs.put hget rfl ((hs.agrees id record hget).congr rfl)
  · split
    · exact hF.pure _ t
    · exact keepsStep_start os t

end

/-- **One move**, of whichever kind. -/
theorem exec_inStep (move : SupervisorMove) (s : Supervisor) (hs : s.InStep) :
    (move.exec s).InStep := by
  have hF := frame_inStep
  cases move with
  | start os id => exact keepsStep_start os s hs
  | stop os id => exact keepsStep_stop os s hs
  | restart os id => exact keepsStep_restart os s hs
  | exits id code => exact hs.exits id code
  | register id command startupDeadlineS heartbeatTimeoutS shutdownDeadlineS =>
      refine hF.bind_at (hF.get s) (fun u v hu => ?_) hs
      cases hu
      split
      · exact hF.throw _ s
      · rename_i hnone
        -- a service that was not there is added without a process
        exact fun hs => hs.add hnone rfl (.new id command _ _ _)
  | assess id processOk transportOk functionalOk =>
      refine within_service hF (fun record s hget hs => ?_) s hs
      exact hs.put hget rfl ((hs.agrees id record hget).assessed processOk transportOk functionalOk)
  | markReady os id generation transportOk functionalOk =>
      refine within_service hF (fun record s hget hs => ?_) s hs
      split
      · exact hs
      · exact hs.put hget rfl
          ((hs.agrees id record hget).readied transportOk functionalOk os.monotonic)
  | heartbeat os id generation =>
      refine within_service hF (fun record s hget hs => ?_) s hs
      split
      · exact hs
      · exact hs.put hget rfl ((hs.agrees id record hget).congr rfl)
  | tick os nowMonotonic =>
      -- a tick looks at every record once, so each is what became of the old one
      have hticked := tick_services os nowMonotonic s
      refine ⟨fun id record hrecord => ?_, fun id hnone => ?_⟩
      · rw [hticked, Option.map_eq_some_iff] at hrecord
        obtain ⟨old, hold, rfl⟩ := hrecord
        exact (hs.agrees id old hold).ticked _ _
      · rw [hticked, Option.map_eq_none_iff] at hnone
        exact hs.known id hnone

/-- **Records keep in step with their processes.**  From a new supervisor, through any calls with any
reports and any exits of processes: a process that runs is the one its record names, and a pid in a
record is that of the handle; RUNNING means that process, transport and function were reported well,
DEGRADED that the process was, and FAILED that it was not or that it took too long to start; a
service that is STARTING has a process and has not reported, one that is STOPPING has a process to
wait for and its pid, and one that is STOPPED has no pid and no flag set; one that is REGISTERED has
no process and no flag set either; and no process is without a record. -/
theorem services_agree (moves : List SupervisorMove) :
    (run SupervisorMove.exec {} moves).InStep :=
  run_keeps (fun s move hs => exec_inStep move s hs) moves
    ⟨fun _ _ hrecord => by simp at hrecord, fun _ _ => rfl⟩

end LiandanluNative
