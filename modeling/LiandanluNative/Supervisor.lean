/-
# LiandanluNative.Supervisor — `RuntimeSupervisor` of `supervisor.py`.

A service record says what is wanted of a service and what is known of it; the process last started
for it is a `Popen` handle the supervisor keeps, also when the process is gone.  What the operating
system does during a call is given with the call (`Os`), and a process may exit between any two
calls.  A call that raises leaves what it did before.

`launched` is for reasoning only: every process started, in order, with the generation its record
carried then.  A handle remembers that generation, too.
-/
import LiandanluNative.Lib.Proc
import LiandanluNative.Lib.Table
import Mathlib.Algebra.Order.Ring.Rat

namespace LiandanluNative

open Lib (Table)
open Lib.Proc

/-! ## Records and handles

The record of a service is what a caller sees; the handle is what the supervisor has of the process.
-/

inductive ServiceState where
  | registered
  | starting
  | ready
  | running
  | degraded
  | failed
  | recovering
  | stopping
  | stopped
  deriving DecidableEq, Repr

structure ServiceRecord where
  serviceId : String
  command : List String := []
  generation : Int := 1
  desiredState : ServiceState := .running
  actualState : ServiceState := .registered
  processOk : Bool := false
  transportOk : Bool := false
  functionalOk : Bool := false
  restartCount : Int := 0
  pid : Option Int := none
  startedAt : Option ℚ := none
  lastHeartbeatAt : Option ℚ := none
  startupDeadlineS : ℚ := 5
  heartbeatTimeoutS : ℚ := 10
  shutdownDeadlineS : ℚ := 3
  lastError : Option String := none

/-- A `subprocess.Popen`. `returncode` is what `poll` returns. -/
structure Popen where
  serviceId : String
  pid : Int
  returncode : Option Int := none
  /-- The generation of the record when the process was started. -/
  generation : Int

structure Supervisor where
  services : Table ServiceRecord.serviceId := .empty
  processes : Table Popen.serviceId := .empty
  launched : List (String × Int) := []

/-- What a method raises. -/
inductive ServiceError where
  | keyError (serviceId : String)
  | valueError (text : String)
  | runtimeError (text : String)
  /-- What `Popen` raises. -/
  | osError (text : String)
  | timeoutExpired

/-- What the operating system does during a call: the time, what starting a command comes to, and
with which code a process ends once terminated, and once killed, if it does so in time. -/
structure Os where
  monotonic : ℚ
  popen : List String → Except String Int
  terminate : Option Int
  kill : Option Int

abbrev SupervisorM (α : Type) := EStateM ServiceError Supervisor α

/-- `self.services[service_id]` -/
def getService (serviceId : String) : SupervisorM ServiceRecord := fun s =>
  match s.services.get? serviceId with
  | some record => .ok record s
  | none => .error (.keyError serviceId) s

/-- Assign to fields of a record, or add it. -/
def setService (record : ServiceRecord) : SupervisorM Unit :=
  modify fun s => { s with services := s.services.put record }

/-- `service_id in self._processes and self._processes[service_id].poll() is None` -/
def Supervisor.running (s : Supervisor) (serviceId : String) : Bool :=
  match s.processes.get? serviceId with
  | none => false
  | some process => process.returncode.isNone

/-- The process of the service ends, if it has one that runs. -/
def Supervisor.exits (s : Supervisor) (serviceId : String) (code : Int) : Supervisor :=
  match s.processes.get? serviceId with
  | none => s
  | some process =>
      if process.returncode.isNone then
        { s with processes := s.processes.put { process with returncode := some code } }
      else
        s

namespace ServiceRecord

/-- The record once its process was started. -/
def begun (record : ServiceRecord) (pid : Int) (ts : ℚ) : ServiceRecord :=
  { record with
    pid := some pid
    startedAt := some ts
    lastHeartbeatAt := some ts
    processOk := true
    transportOk := false
    functionalOk := false
    actualState := .starting
    lastError := none }

/-- The state `assess` finds. -/
def assessed (record : ServiceRecord) (processOk transportOk functionalOk : Bool) :
    ServiceRecord :=
  { record with
    processOk := processOk
    transportOk := transportOk
    functionalOk := functionalOk
    actualState :=
      if !processOk then .failed
      else if !transportOk || !functionalOk then .degraded
      else .running }

/-- The record once the service reported to be ready. -/
def readied (record : ServiceRecord) (transportOk functionalOk : Bool) (ts : ℚ) : ServiceRecord :=
  { record with
    transportOk := transportOk
    functionalOk := functionalOk
    processOk := true
    actualState := if transportOk && functionalOk then .running else .degraded
    lastHeartbeatAt := some ts }

/-- `since is not None and ts - since > limit` -/
def overdue (ts : ℚ) (since : Option ℚ) (limit : ℚ) : Bool :=
  match since with
  | none => false
  | some at_ => decide (limit < ts - at_)

/-- What `tick` makes of a record whose process has the given exit code, if any. -/
def ticked (record : ServiceRecord) (exitCode : Option Int) (ts : ℚ) : ServiceRecord :=
  match exitCode with
  -- a process that was stopped has an exit code, too
  | some code =>
      { record with
        processOk := false
        actualState := .failed
        lastError := some ("process exited with " ++ toString code) }
  | none =>
      if record.actualState = .starting ∧
          overdue ts record.startedAt record.startupDeadlineS = true then
        { record with
          actualState := .failed
          lastError := some "startup deadline exceeded" }
      else if record.actualState = .running ∧
          overdue ts record.lastHeartbeatAt record.heartbeatTimeoutS = true then
        { record with
          actualState := .degraded
          lastError := some "heartbeat timeout" }
      else
        record

/-- The record of a service that was stopped. -/
def halted (record : ServiceRecord) : ServiceRecord :=
  { record with
    desiredState := .stopped
    processOk := false
    transportOk := false
    functionalOk := false
    actualState := .stopped
    pid := none }

/-- The record of the next generation. -/
def renewed (record : ServiceRecord) : ServiceRecord :=
  { record with
    restartCount := record.restartCount + 1
    generation := record.generation + 1
    desiredState := .running }

theorem ticked_serviceId (record : ServiceRecord) (exitCode : Option Int) (ts : ℚ) :
    (record.ticked exitCode ts).serviceId = record.serviceId := by
  unfold ticked
  split
  · rfl
  · split
    · rfl
    · split <;> rfl

theorem ticked_generation (record : ServiceRecord) (exitCode : Option Int) (ts : ℚ) :
    (record.ticked exitCode ts).generation = record.generation := by
  unfold ticked
  split
  · rfl
  · split
    · rfl
    · split <;> rfl

end ServiceRecord

/-! ## The methods -/

/-- `register` -/
def registerService (serviceId : String) (command : List String)
    (startupDeadlineS heartbeatTimeoutS shutdownDeadlineS : ℚ) : SupervisorM ServiceRecord := do
  let s ← get
  match s.services.get? serviceId with
  | some _ => throw (.valueError ("service already registered: " ++ serviceId))
  | none =>
      let record : ServiceRecord :=
        { serviceId := serviceId
          command := command
          startupDeadlineS := startupDeadlineS
          heartbeatTimeoutS := heartbeatTimeoutS
          shutdownDeadlineS := shutdownDeadlineS }
      setService record
      return record

/-- `start` -/
def startService (os : Os) (serviceId : String) : SupervisorM ServiceRecord := do
  let record ← getService serviceId
  if record.command = [] then
    throw (.valueError (serviceId ++ " has no managed command"))
  else
    let s ← get
    if s.running serviceId then
      throw (.runtimeError (serviceId ++ " already running"))
    else
      match os.popen record.command with
      | .error text => throw (.osError text)
      | .ok pid =>
          -- the generation is that of the record; only `restart` raises it
          modify fun s =>
            { s with
              processes := s.processes.put
                { serviceId := serviceId
                  pid := pid
                  generation := record.generation }
              launched := s.launched ++ [(serviceId, record.generation)] }
          setService (record.begun pid os.monotonic)
          return record.begun pid os.monotonic

/-- `assess` -/
def assessService (serviceId : String) (processOk transportOk functionalOk : Bool) :
    SupervisorM ServiceRecord := do
  let record ← getService serviceId
  setService (record.assessed processOk transportOk functionalOk)
  return record.assessed processOk transportOk functionalOk

/-- `mark_ready` -/
def markReady (os : Os) (serviceId : String) (generation : Int)
    (transportOk functionalOk : Bool) : SupervisorM ServiceRecord := do
  let record ← getService serviceId
  if generation ≠ record.generation then
    throw (.valueError "stale service generation")
  else
    setService (record.readied transportOk functionalOk os.monotonic)
    return record.readied transportOk functionalOk os.monotonic

/-- `heartbeat` -/
def heartbeat (os : Os) (serviceId : String) (generation : Int) : SupervisorM Unit := do
  let record ← getService serviceId
  if generation ≠ record.generation then
    throw (.valueError "stale service generation")
  else
    setService { record with lastHeartbeatAt := some os.monotonic }

/-- What `poll` returns of the process of a service, `none` also where there is none. -/
def Supervisor.exitCode (s : Supervisor) (serviceId : String) : Option Int :=
  (s.processes.get? serviceId).bind Popen.returncode

/-- `tick` -/
def tickServices (os : Os) (nowMonotonic : Option ℚ) : SupervisorM Unit :=
  modify fun s =>
    { s with
      services := s.services.amend
        (fun record =>
          record.ticked (s.exitCode record.serviceId) (nowMonotonic.getD os.monotonic))
        (fun record => record.ticked_serviceId _ _) }

/-- `terminate`, `wait`, and `kill` if that took too long. -/
def awaitExit (os : Os) (serviceId : String) : SupervisorM Unit :=
  match os.terminate with
  | some code => modify (Supervisor.exits · serviceId code)
  | none =>
      -- `except subprocess.TimeoutExpired`; the second `wait` has no handler
      match os.kill with
      | some code => modify (Supervisor.exits · serviceId code)
      | none => throw .timeoutExpired

/-- `if proc is not None and proc.poll() is None: …` -/
def haltProcess (os : Os) (serviceId : String) : SupervisorM Unit := do
  let s ← get
  if s.running serviceId then awaitExit os serviceId else pure ()

/-- `stop` -/
def stopService (os : Os) (serviceId : String) : SupervisorM ServiceRecord := do
  let record ← getService serviceId
  setService { record with desiredState := .stopped, actualState := .stopping }
  -- what was awaited is not taken out of `_processes`
  haltProcess os serviceId
  setService record.halted
  return record.halted

/-- The part of `restart` that stops the service. -/
def stopIfRunning (os : Os) (serviceId : String) : SupervisorM Unit := do
  let s ← get
  if s.running serviceId then
    let _ ← stopService os serviceId
    pure ()
  else
    pure ()

/-- `restart`. The record is looked at again because `stop` assigned to it. -/
def restartService (os : Os) (serviceId : String) : SupervisorM ServiceRecord := do
  let _ ← getService serviceId
  stopIfRunning os serviceId
  let record ← getService serviceId
  setService record.renewed
  if record.command = [] then
    return record.renewed
  else
    startService os serviceId

/-! ## Histories -/

/-- A call, or the exit of a process. -/
inductive SupervisorMove where
  | register (serviceId : String) (command : List String)
      (startupDeadlineS heartbeatTimeoutS shutdownDeadlineS : ℚ)
  | start (os : Os) (serviceId : String)
  | assess (serviceId : String) (processOk transportOk functionalOk : Bool)
  | markReady (os : Os) (serviceId : String) (generation : Int) (transportOk functionalOk : Bool)
  | heartbeat (os : Os) (serviceId : String) (generation : Int)
  | tick (os : Os) (nowMonotonic : Option ℚ)
  | stop (os : Os) (serviceId : String)
  | restart (os : Os) (serviceId : String)
  /-- The process of the service exits on its own. -/
  | exits (serviceId : String) (code : Int)

/-- The supervisor after a move, however it ended. -/
def SupervisorMove.exec (s : Supervisor) : SupervisorMove → Supervisor
  | .register serviceId command startupDeadlineS heartbeatTimeoutS shutdownDeadlineS =>
      after (registerService serviceId command startupDeadlineS heartbeatTimeoutS
        shutdownDeadlineS) s
  | .start os serviceId => after (startService os serviceId) s
  | .assess serviceId processOk transportOk functionalOk =>
      after (assessService serviceId processOk transportOk functionalOk) s
  | .markReady os serviceId generation transportOk functionalOk =>
      after (LiandanluNative.markReady os serviceId generation transportOk functionalOk) s
  | .heartbeat os serviceId generation =>
      after (LiandanluNative.heartbeat os serviceId generation) s
  | .tick os nowMonotonic => after (tickServices os nowMonotonic) s
  | .stop os serviceId => after (stopService os serviceId) s
  | .restart os serviceId => after (restartService os serviceId) s
  | .exits serviceId code => s.exits serviceId code

end LiandanluNative
