/-
# LiandanluNative.SupervisorMoves — what each call of a supervisor can do.

A call names one service and leaves the others alone (`exec_other`); `tick` goes through all of
them, one record at a time.  What is said here of a service is its record, its process handle, and
the generations of the processes started for it (`Supervisor.view`); the record and the handle are
often only looked at for their generations (`Supervisor.epochs`).

The record and the handle are two dictionaries of the source, which `start`, `stop` and an exit of
the process write at different moments.  That is why the lemmas about one service name all three
parts, and why an exit, which no call makes, is a move of its own.
-/
import LiandanluNative.Supervisor

namespace LiandanluNative

open Lib (Table)
open Lib.Proc

/-! ## What there is of a service -/

namespace Supervisor

/-- The generations of the processes started for a service, in order. -/
def launchedOf (s : Supervisor) (serviceId : String) : List Int :=
  (s.launched.filter (fun launch => decide (launch.1 = serviceId))).map Prod.snd

/-- The record, the handle and the launches of a service. -/
def view (serviceId : String) (s : Supervisor) : Option ServiceRecord × Option Popen × List Int :=
  (s.services.get? serviceId, s.processes.get? serviceId, s.launchedOf serviceId)

/-- The generation of its record, that of its handle, and its launches. -/
def epochs (serviceId : String) (s : Supervisor) : Option Int × Option Int × List Int :=
  ((s.services.get? serviceId).map ServiceRecord.generation,
    (s.processes.get? serviceId).map Popen.generation, s.launchedOf serviceId)

/-- The state of a service as the supervisor has it. -/
def actualState (serviceId : String) (s : Supervisor) : Option ServiceState :=
  (s.services.get? serviceId).map ServiceRecord.actualState

/-- The generations of a service are part of what is seen of it. -/
theorem epochs_congr {s t : Supervisor} {serviceId : String}
    (h : t.view serviceId = s.view serviceId) : t.epochs serviceId = s.epochs serviceId := by
  simp only [view, Prod.mk.injEq] at h
  obtain ⟨hrecord, hprocess, hlaunched⟩ := h
  simp only [epochs, hrecord, hprocess, hlaunched]

/-- A process that is started is the last of its service. -/
theorem launchedOf_concat (s : Supervisor) (id serviceId : String) (generation : Int) :
    launchedOf { s with launched := s.launched ++ [(id, generation)] } serviceId
      = s.launchedOf serviceId ++ if id = serviceId then [generation] else [] := by
  unfold launchedOf
  rw [List.filter_append, List.map_append, List.filter_singleton]
  by_cases h : id = serviceId
  · simp [h]
  · simp [h]

/-- An exit changes the exit code of one process. -/
theorem exits_processes (s : Supervisor) (id : String) (code : Int) (serviceId : String) :
    (s.exits id code).processes.get? serviceId = s.processes.get? serviceId ∨
      (id = serviceId ∧ ∃ process, s.processes.get? serviceId = some process ∧
        process.returncode = none ∧
        (s.exits id code).processes.get? serviceId
          = some { process with returncode := some code }) := by
  unfold exits
  cases hget : s.processes.get? id with
  | none => exact Or.inl rfl
  | some process =>
      have hid : process.serviceId = id := Table.key_of_get? hget
      dsimp only
      by_cases hruns : process.returncode.isNone = true
      · rw [if_pos hruns]
        by_cases hsame : id = serviceId
        · subst hsame
          refine Or.inr ⟨rfl, process, hget, Option.isNone_iff_eq_none.mp hruns, ?_⟩
          rw [Table.get?_put, if_pos hid]
        · refine Or.inl ?_
          rw [Table.get?_put, if_neg (fun h => hsame (hid.symm.trans h))]
      · rw [if_neg hruns]
        exact Or.inl rfl

/-- An exit concerns the handle, and neither record nor history. -/
theorem exits_services (s : Supervisor) (id : String) (code : Int) :
    (s.exits id code).services = s.services ∧ (s.exits id code).launched = s.launched := by
  unfold exits
  split
  · exact ⟨rfl, rfl⟩
  · split <;> exact ⟨rfl, rfl⟩

/-- It concerns the service whose process it is, and no other. -/
theorem exits_view {id serviceId : String} (h : id ≠ serviceId) (s : Supervisor) (code : Int) :
    (s.exits id code).view serviceId = s.view serviceId := by
  obtain ⟨hservices, hlaunched⟩ := s.exits_services id code
  have hprocess := (s.exits_processes id code serviceId).resolve_right (fun hid => h hid.1)
  simp only [view, launchedOf, hservices, hprocess, hlaunched]

/-- Not even that one's generations change by it. -/
theorem exits_epochs (id serviceId : String) (s : Supervisor) (code : Int) :
    (s.exits id code).epochs serviceId = s.epochs serviceId := by
  obtain ⟨hservices, hlaunched⟩ := s.exits_services id code
  rcases s.exits_processes id code serviceId with hsame | ⟨_, process, hget, _, hexited⟩
  · simp only [epochs, launchedOf, hservices, hsame, hlaunched]
  · simp only [epochs, launchedOf, hservices, hget, hexited, hlaunched, Option.map_some]

/-- The record of a service is replaced. -/
theorem put_view {s : Supervisor} {record : ServiceRecord} {serviceId : String}
    (h : record.serviceId ≠ serviceId) :
    view serviceId { s with services := s.services.put record } = s.view serviceId := by
  simp only [view, launchedOf, Table.get?_put, if_neg h]

/-- A record that is replaced by one of its generation leaves the generations as they were. -/
theorem put_epochs {s : Supervisor} {old record : ServiceRecord}
    (hget : s.services.get? record.serviceId = some old)
    (hgeneration : record.generation = old.generation) (serviceId : String) :
    epochs serviceId { s with services := s.services.put record } = s.epochs serviceId := by
  by_cases h : record.serviceId = serviceId
  · subst h
    simp only [epochs, launchedOf, Table.get?_put, if_true, hget, Option.map_some, hgeneration]
  · exact epochs_congr (put_view h)

end Supervisor

/-! ## The other services

Every method is about one service, and leaves the others as they are.
-/

section

variable {α : Type} {R : Supervisor → Supervisor → Prop} {s t : Supervisor} {id : String}

/-- A service is known or it is not; looking changes nothing. -/
theorem getService_eq_ok {record : ServiceRecord} :
    getService id s = .ok record t ↔ s.services.get? id = some record ∧ t = s := by
  unfold getService
  cases s.services.get? id with
  | none => simp
  | some found => simp [eq_comm]

theorem after_known {record : ServiceRecord} (h : s.services.get? id = some record)
    (f : ServiceRecord → SupervisorM α) : after (getService id >>= f) s = after (f record) s :=
  after_bind_ok (getService_eq_ok.mpr ⟨h, rfl⟩)

theorem after_unknown (h : s.services.get? id = none) (f : ServiceRecord → SupervisorM α) :
    after (getService id >>= f) s = s := by
  have hget : getService id s = .error (.keyError id) s := by simp only [getService, h]
  rw [after_of_error (after_bind_error hget)]

/-- So looking is inside every frame. -/
theorem within_getService (hR : Frame R) : Within R (getService id) := by
  intro s
  unfold after getService
  cases s.services.get? id <;> exact hR.refl s

/-- A method that begins by looking its service up. -/
theorem within_service (hR : Frame R) {f : ServiceRecord → SupervisorM α}
    (hf : ∀ record s, s.services.get? id = some record → R s (after (f record) s)) :
    Within R (getService id >>= f) := by
  intro s
  refine hR.bind_at (within_getService hR s) (fun record t ht => ?_)
  obtain ⟨hget, rfl⟩ := getService_eq_ok.mp ht
  exact hf record t hget

end

section

variable {id serviceId : String} (h : id ≠ serviceId)
include h

/-- **A method about one service** leaves what is seen of another, from the assignments up to
`restart`. -/
theorem setService_other {record : ServiceRecord} (hid : record.serviceId = id) :
    Within (Fixes (Supervisor.view serviceId)) (setService record) :=
  within_modify (fun _ => Supervisor.put_view (hid ▸ h))

theorem awaitExit_other (os : Os) :
    Within (Fixes (Supervisor.view serviceId)) (awaitExit os id) := by
  unfold awaitExit
  split
  · exact within_modify (fun s => s.exits_view h _)
  · split
    · exact within_modify (fun s => s.exits_view h _)
    · exact (frame_fixes _).throw _

theorem haltProcess_other (os : Os) :
    Within (Fixes (Supervisor.view serviceId)) (haltProcess os id) := by
  have hF := frame_fixes (Supervisor.view serviceId)
  refine hF.bind hF.get (fun s => ?_)
  split
  · exact awaitExit_other h os
  · exact hF.pure _

theorem startService_other (os : Os) :
    Within (Fixes (Supervisor.view serviceId)) (startService os id) := by
  have hF := frame_fixes (Supervisor.view serviceId)
  refine within_service hF (fun record s hget => ?_)
  have hid : record.serviceId = id := Table.key_of_get? hget
  split
  · exact hF.throw _ s
  refine hF.bind hF.get (fun s => ?_) s
  split
  · exact hF.throw _
  split
  · exact hF.throw _
  · rename_i pid _
    refine hF.bind (within_modify (fun s => ?_)) (fun _ => ?_)
    · show Supervisor.view serviceId _ = s.view serviceId
      have hlaunched := s.launchedOf_concat id serviceId record.generation
      rw [if_neg h, List.append_nil] at hlaunched
      unfold Supervisor.launchedOf at hlaunched
      simp only [Supervisor.view, Supervisor.launchedOf, Table.get?_put, if_neg h, hlaunched]
    · exact hF.bind (setService_other h hid) (fun _ => hF.pure _)

theorem stopService_other (os : Os) :
    Within (Fixes (Supervisor.view serviceId)) (stopService os id) := by
  have hF := frame_fixes (Supervisor.view serviceId)
  refine within_service hF (fun record s hget => ?_)
  have hid : record.serviceId = id := Table.key_of_get? hget
  refine hF.bind ?_ (fun _ => hF.bind (haltProcess_other h os) (fun _ => ?_)) s
  · exact setService_other h hid
  · exact hF.bind (setService_other h hid) (fun _ => hF.pure _)

theorem restartService_other (os : Os) :
    Within (Fixes (Supervisor.view serviceId)) (restartService os id) := by
  have hF := frame_fixes (Supervisor.view serviceId)
  have hstop : Within (Fixes (Supervisor.view serviceId)) (stopIfRunning os id) := by
    refine hF.bind hF.get (fun s => ?_)
    split
    · exact hF.bind (stopService_other h os) (fun _ => hF.pure _)
    · exact hF.pure _
  refine hF.bind (within_getService hF) (fun _ => hF.bind hstop (fun _ => ?_))
  refine within_service hF (fun record s hget => ?_)
  have hid : record.serviceId = id := Table.key_of_get? hget
  -- the record is the one `stop` left; only its key matters here
  refine hF.bind ?_ (fun _ => ?_) s
  · exact setService_other h hid
  split
  · exact hF.pure _
  · exact startService_other h os

end

/-- The service a move names. -/
def SupervisorMove.service? : SupervisorMove → Option String
  | .register serviceId _ _ _ _ => some serviceId
  | .start _ serviceId => some serviceId
  | .assess serviceId _ _ _ => some serviceId
  | .markReady _ serviceId _ _ _ => some serviceId
  | .heartbeat _ serviceId _ => some serviceId
  | .tick _ _ => none
  | .stop _ serviceId => some serviceId
  | .restart _ serviceId => some serviceId
  | .exits serviceId _ => some serviceId

/-- **A move about one service leaves every other as it is.** -/
theorem exec_other {move : SupervisorMove} {id serviceId : String} (hmove : move.service? = some id)
    (h : id ≠ serviceId) (s : Supervisor) :
    (move.exec s).view serviceId = s.view serviceId := by
  have hF := frame_fixes (Supervisor.view serviceId)
  have hassign : ∀ (record new : ServiceRecord) (s : Supervisor),
      s.services.get? id = some record → new.serviceId = record.serviceId →
      Fixes (Supervisor.view serviceId) s
        (after (setService new >>= fun _ => (pure new : SupervisorM ServiceRecord)) s) := by
    intro record new s hget hnew
    have hid : new.serviceId = id := hnew.trans (Table.key_of_get? hget)
    exact hF.bind (setService_other h hid) (fun _ => hF.pure _) s
  cases move with
  -- a tick names no service
  | tick os nowMonotonic => cases hmove
  | start os serviceId => cases hmove; exact startService_other h os s
  | stop os serviceId => cases hmove; exact stopService_other h os s
  | restart os serviceId => cases hmove; exact restartService_other h os s
  | exits serviceId code => cases hmove; exact s.exits_view h code
  | register serviceId command startupDeadlineS heartbeatTimeoutS shutdownDeadlineS =>
      cases hmove
      refine hF.bind hF.get (fun s => ?_) s
      split
      · exact hF.throw _
      · exact hF.bind (setService_other h rfl) (fun _ => hF.pure _)
  | assess serviceId processOk transportOk functionalOk =>
      cases hmove
      refine within_service hF (fun record s hget => ?_) s
      exact hassign record _ s hget rfl
  | markReady os serviceId generation transportOk functionalOk =>
      cases hmove
      refine within_service hF (fun record s hget => ?_) s
      split
      · exact hF.throw _ s
      · exact hassign record _ s hget rfl
  | heartbeat os serviceId generation =>
      cases hmove
      refine within_service hF (fun record s hget => ?_) s
      split
      · exact hF.throw _ s
      · have hid : record.serviceId = id := Table.key_of_get? hget
        exact Supervisor.put_view (hid.trans_ne h)

/-! ## One record at a time -/

/-- `tick` looks at each record with the exit code of its process. -/
theorem tick_services (os : Os) (nowMonotonic : Option ℚ) (s : Supervisor) (serviceId : String) :
    (SupervisorMove.exec s (.tick os nowMonotonic)).services.get? serviceId
      = (s.services.get? serviceId).map
          (fun record => record.ticked (s.exitCode serviceId) (nowMonotonic.getD os.monotonic)) := by
  refine (s.services.get?_amend (fun record => record.ticked_serviceId _ _) serviceId).trans ?_
  cases hrecord : s.services.get? serviceId with
  | none => rfl
  | some record =>
      have hid : record.serviceId = serviceId := Table.key_of_get? hrecord
      rw [Option.map_some, Option.map_some, hid]

end LiandanluNative
