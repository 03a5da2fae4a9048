/-
# LiandanluNative.Safety.ServiceGenerations — one generation for each process of a service.

The generation of a record is what tells the messages of a process from those of the processes
before it.  Only `restart` raises it; but a process can exit on its own, and then a plain `start`
starts the next one with the generation of the last (`generations_apart_fails`).  Where every start
of another process comes after a restart, no two processes have one generation and the messages of
the earlier ones are refused (`generations_apart_iff`).

A run is told service by service, by what it has launched: the generations of the processes of a
service so far, with the one of its record (`Supervisor.epochs`).  They are dated if none of them is
later than the record says.  Every call keeps this, so the only way to two processes of one
generation is a start at a generation that has been used, and the condition is exact.
-/
import LiandanluNative.Lib.Runs
import LiandanluNative.Lib.Stamps
import LiandanluNative.SupervisorMoves

namespace LiandanluNative

open Lib (Table Stamped)
open Lib.Proc Lib.Runs

/-! ## What a move does to the generations

A service is seen as the generations of the processes started for it, with that of its record.  A
start adds one, a restart raises the last, and all else leaves them alone.
-/

/-- A `start` of the service would get as far as starting a process. -/
structure Launches (os : Os) (serviceId : String) (s : Supervisor) (record : ServiceRecord) :
    Prop where
  known : s.services.get? serviceId = some record
  managed : record.command ≠ []
  idle : s.running serviceId = false
  popen : ∃ pid, os.popen record.command = .ok pid

/-- A service at some generation whose next process is started. -/
def launchedAt (g : Int) (launches : List Int) : Option Int × Option Int × List Int :=
  (some g, some g, launches ++ [g])

section

variable {os : Os} {id : String}

/-- **What `start` does**: it starts a process with the generation of the record, or changes none of
this. -/
theorem startService_epochs (os : Os) (id : String) (s : Supervisor) :
    (∃ record, Launches os id s record ∧
      (after (startService os id) s).epochs id
        = launchedAt record.generation (s.launchedOf id)) ∨
    ((∀ record, ¬ Launches os id s record) ∧
      (after (startService os id) s).epochs id = s.epochs id) := by
  cases hget : s.services.get? id with
  | none =>
      refine Or.inr ⟨fun record hlaunch => ?_, ?_⟩
      · have hknown := hlaunch.known
        rw [hget] at hknown
        cases hknown
      · unfold startService
        rw [after_unknown hget]
  | some record =>
      have hid : record.serviceId = id := Table.key_of_get? hget
      have hsame : ∀ {other}, Launches os id s other → other = record := fun hlaunch =>
        Option.some.inj (hlaunch.known.symm.trans hget)
      unfold startService
      rw [after_known hget]
      -- the checks of `start`, each of which is part of `Launches`
      by_cases hcommand : record.command = []
      · rw [if_pos hcommand]
        exact Or.inr ⟨fun other hlaunch => hlaunch.managed (hsame hlaunch ▸ hcommand), rfl⟩
      rw [if_neg hcommand, after_bind_ok (rfl : (get : SupervisorM Supervisor) s = .ok s s)]
      by_cases hruns : s.running id = true
      · rw [if_pos hruns]
        refine Or.inr ⟨fun other hlaunch => ?_, rfl⟩
        have hidle := hlaunch.idle
        rw [hruns] at hidle
        cases hidle
      rw [if_neg hruns]
      cases hpopen : os.popen record.command with
      | error text =>
          refine Or.inr ⟨fun other hlaunch => ?_, rfl⟩
          obtain ⟨pid, hpid⟩ := hlaunch.popen
          rw [hsame hlaunch, hpopen] at hpid
          cases hpid
      | ok pid =>
          -- a process was started, with the generation of the record
          refine Or.inl ⟨record, ⟨hget, hcommand, Bool.not_eq_true _ ▸ hruns, pid, hpopen⟩, ?_⟩
          have hlaunched := s.launchedOf_concat id id record.generation
          rw [if_pos rfl] at hlaunched
          have hbegun : (record.begun pid os.monotonic).serviceId = id := hid
          show (((s.services.put (record.begun pid os.monotonic)).get? id).map
            ServiceRecord.generation, ((s.processes.put _).get? id).map Popen.generation,
            Supervisor.launchedOf { s with launched := s.launched ++ [(id, record.generation)] } id)
            = _
          rw [hlaunched, Table.get?_put, if_pos hbegun, Table.get?_put, if_pos rfl]
          rfl

/-- A record is replaced by one of its generation. -/
theorem setService_epochs {s : Supervisor} {record : ServiceRecord}
    (h : (s.epochs record.serviceId).1 = some record.generation) (serviceId : String) :
    (after (setService record) s).epochs serviceId = s.epochs serviceId := by
  obtain ⟨old, hold, hgeneration⟩ := Option.map_eq_some_iff.mp h
  exact Supervisor.put_epochs hold hgeneration.symm serviceId

/-- Stopping starts no process. -/
theorem stopService_epochs (os : Os) (id serviceId : String) :
    Within (Fixes (Supervisor.epochs serviceId)) (stopService os id) := by
  have hF := frame_fixes (Supervisor.epochs serviceId)
  have hhalt : ∀ other, Within (Fixes (Supervisor.epochs other)) (haltProcess os id) := by
    intro other
    have hO := frame_fixes (Supervisor.epochs other)
    refine hO.bind hO.get (fun s => ?_)
    split
    · unfold awaitExit
      split
      · exact within_modify (fun s => s.exits_epochs id other _)
      · split
        · exact within_modify (fun s => s.exits_epochs id other _)
        · exact hO.throw _
    · exact hO.pure _
  refine within_service hF (fun record s hget => ?_)
  have hid : record.serviceId = id := Table.key_of_get? hget
  have hknown : (s.epochs record.serviceId).1 = some record.generation := by
    rw [hid]
    exact congrArg (Option.map ServiceRecord.generation) hget
  refine hF.bind_at ?_ (fun _ t ht => ?_)
  · refine setService_epochs ?_ serviceId
    exact hknown
  have hstopping : (t.epochs record.serviceId).1 = some record.generation := by
    let stopping : ServiceRecord :=
      { record with
        desiredState := .stopped
        actualState := .stopping }
    have hstill : (s.epochs stopping.serviceId).1 = some stopping.generation := hknown
    rw [← hknown, ← setService_epochs hstill record.serviceId, after_of_ok ht]
  refine hF.bind_at (hhalt serviceId t) (fun _ u hu => ?_)
  have hhalted : (u.epochs record.serviceId).1 = some record.generation := by
    rw [← hstopping, (hhalt record.serviceId).of_ok hu]
  refine hF.bind_at ?_ (fun _ v hv => hF.refl v)
  refine setService_epochs ?_ serviceId
  exact hhalted

/-- Neither does the stop that comes first in a restart. -/
theorem stopIfRunning_epochs (os : Os) (id serviceId : String) :
    Within (Fixes (Supervisor.epochs serviceId)) (stopIfRunning os id) := by
  have hF := frame_fixes (Supervisor.epochs serviceId)
  refine hF.bind hF.get (fun s => ?_)
  split
  · exact hF.bind (stopService_epochs os id serviceId) (fun _ => hF.pure _)
  · exact hF.pure _

/-- What a restart can come to: nothing, the next generation, or a process that is the first of
it. -/
def RestartOf (id : String) (s t : Supervisor) : Prop :=
  t.epochs id = s.epochs id ∨ ∃ g, (s.epochs id).1 = some g ∧
    (t.epochs id = (some (g + 1), (s.epochs id).2) ∨
      t.epochs id = launchedAt (g + 1) (s.launchedOf id))

/-- A restart raises the generation, and starts a process with it if the start goes through. -/
theorem restartService_epochs (os : Os) (id : String) (s : Supervisor) :
    RestartOf id s (after (restartService os id) s) := by
  cases hget : s.services.get? id with
  | none =>
      refine Or.inl ?_
      unfold restartService
      rw [after_unknown hget]
  | some first =>
      unfold restartService
      rw [after_known hget]
      -- a `stop` that raises ends the restart before it gets to the record
      have hstop := stopIfRunning_epochs os id id s
      refine after_bind (P := RestartOf id s) (fun e t ht => Or.inl ?_) (fun _ t ht => ?_)
      · rwa [after_of_error ht] at hstop
      rw [after_of_ok ht] at hstop
      change t.epochs id = s.epochs id at hstop
      have hlaunched : t.launchedOf id = s.launchedOf id := congrArg (fun e => e.2.2) hstop
      unfold RestartOf
      rw [← hlaunched, ← hstop]
      cases hrecord : t.services.get? id with
      | none =>
          rw [after_unknown hrecord]
          exact Or.inl rfl
      | some record =>
          have hid : record.serviceId = id := Table.key_of_get? hrecord
          rw [after_known hrecord]
          refine Or.inr ⟨record.generation,
            congrArg (Option.map ServiceRecord.generation) hrecord, ?_⟩
          rw [after_bind_ok (rfl : setService record.renewed t
            = .ok () { t with services := t.services.put record.renewed })]
          have hrenewed : Supervisor.epochs id { t with services := t.services.put record.renewed }
              = (some (record.generation + 1), (t.epochs id).2) := by
            have hnew : record.renewed.serviceId = id := hid
            simp only [Supervisor.epochs, Supervisor.launchedOf, Table.get?_put, if_pos hnew,
              Option.map_some]
            rfl
          by_cases hcommand : record.command = []
          · rw [if_pos hcommand]
            exact Or.inl hrenewed
          rw [if_neg hcommand]
          rcases startService_epochs os id
            { t with services := t.services.put record.renewed } with ⟨next, hnext, hstarted⟩ | hidle
          · -- what is started is the record just renewed
            have hgeneration := congrArg Prod.fst hrenewed
            simp only [Supervisor.epochs, hnext.known, Option.map_some, Option.some.injEq]
              at hgeneration
            rw [hgeneration] at hstarted
            exact Or.inr hstarted
          · exact Or.inl (hidle.2.trans hrenewed)

end

/-- The service was added. -/
def RegistrationOf (id : String) (s t : Supervisor) : Prop :=
  (s.epochs id).1 = none ∧ t.epochs id = (some 1, (s.epochs id).2)

/-- **What a move does** that is no `start`. -/
theorem exec_epochs {move : SupervisorMove} (hmove : ∀ os id, move ≠ .start os id) (s : Supervisor)
    (serviceId : String) :
    RestartOf serviceId s (move.exec s) ∨ RegistrationOf serviceId s (move.exec s) := by
  have hother : ∀ {id}, move.service? = some id → id ≠ serviceId →
      RestartOf serviceId s (move.exec s) ∨ RegistrationOf serviceId s (move.exec s) :=
    fun hservice hne => Or.inl (Or.inl (Supervisor.epochs_congr (exec_other hservice hne s)))
  have hsame : ∀ {α : Type} (m : SupervisorM α),
      Within (Fixes (Supervisor.epochs serviceId)) m →
      RestartOf serviceId s (after m s) ∨ RegistrationOf serviceId s (after m s) :=
    fun m hm => Or.inl (Or.inl (hm s))
  have hF := frame_fixes (Supervisor.epochs serviceId)
  -- the record of the service is looked up and replaced by one of its generation
  have hassign : ∀ {id : String} {record new : ServiceRecord} {s : Supervisor},
      s.services.get? id = some record → new.serviceId = record.serviceId →
      new.generation = record.generation →
      Fixes (Supervisor.epochs serviceId) s (after (setService new) s) := by
    intro id record new s hget hid hgeneration
    have hnew : new.serviceId = id := hid.trans (Table.key_of_get? hget)
    refine setService_epochs ?_ serviceId
    rw [hnew, hgeneration]
    exact congrArg (Option.map ServiceRecord.generation) hget
  cases move with
  | start os id => exact absurd rfl (hmove os id)
  | stop os id => exact hsame _ (stopService_epochs os id serviceId)
  | exits id code => exact Or.inl (Or.inl (s.exits_epochs id serviceId code))
  | restart os id =>
      by_cases hid : id = serviceId
      · subst hid
        exact Or.inl (restartService_epochs os id s)
      · exact hother rfl hid
  | register id command startupDeadlineS heartbeatTimeoutS shutdownDeadlineS =>
      by_cases hid : id = serviceId
      · subst hid
        show RestartOf id s (after (registerService id command startupDeadlineS
          heartbeatTimeoutS shutdownDeadlineS) s) ∨ RegistrationOf id s (after (registerService id
          command startupDeadlineS heartbeatTimeoutS shutdownDeadlineS) s)
        unfold registerService
        rw [after_bind_ok (rfl : (get : SupervisorM Supervisor) s = .ok s s)]
        cases hget : s.services.get? id with
        | some record => exact Or.inl (Or.inl rfl)
        | none =>
            refine Or.inr ⟨congrArg (Option.map ServiceRecord.generation) hget, ?_⟩
            show (((s.services.put _).get? id).map ServiceRecord.generation, _) = _
            rw [Table.get?_put, if_pos rfl]
            rfl
      · exact hother rfl hid
  | assess id processOk transportOk functionalOk =>
      refine hsame _ (within_service hF (fun record s hget => ?_))
      exact hF.bind_at (hassign hget rfl rfl) (fun _ t _ => hF.refl t)
  | markReady os id generation transportOk functionalOk =>
      refine hsame _ (within_service hF (fun record s hget => ?_))
      split
      · exact hF.throw _ s
      · exact hF.bind_at (hassign hget rfl rfl) (fun _ t _ => hF.refl t)
  | heartbeat os id generation =>
      refine hsame _ (within_service hF (fun record s hget => ?_))
      split
      · exact hF.throw _ s
      · exact hassign hget rfl rfl
  | tick os nowMonotonic =>
      refine Or.inl (Or.inl ?_)
      have hticked := tick_services os nowMonotonic s serviceId
      show (((SupervisorMove.exec s (.tick os nowMonotonic)).services.get? serviceId).map
        ServiceRecord.generation, _) = (_, _)
      rw [hticked, Option.map_map]
      refine congrArg (·, (s.epochs serviceId).2) ?_
      exact congrArg (Option.map · (s.services.get? serviceId))
        (funext fun record => record.ticked_generation _ _)

/-! ## Generations as stamps -/

/-- The generation of a record is an epoch: it stamps the processes started, and the handle is that
of the last one. -/
structure Dated (e : Option Int × Option Int × List Int) : Prop where
  unknown : e.1 = none → e.2.2 = []
  stamped : ∀ g, e.1 = some g → Stamped e.2.2 g
  last : e.2.1 = e.2.2.getLast?

/-- A process is started. -/
theorem Dated.launch {g : Int} {launches : List Int} (h : Stamped launches g) :
    Dated (launchedAt g launches) where
  unknown hnone := by cases hnone
  stamped later hlater := by
    cases hlater
    exact h.stamp
  last := List.getLast?_concat.symm

/-- So the processes of the service stay dated: the new one has a generation that none had. -/
theorem dated_of_restart {s t : Supervisor} {id : String} (hs : Dated (s.epochs id))
    (hnodup : (s.launchedOf id).Nodup) (h : RestartOf id s t) :
    Dated (t.epochs id) ∧ (t.launchedOf id).Nodup := by
  rcases h with hsame | ⟨g, hg, hraised | hlaunched⟩
  · have hlaunches : t.launchedOf id = s.launchedOf id := congrArg (fun e => e.2.2) hsame
    rw [hsame, hlaunches]
    exact ⟨hs, hnodup⟩
  · have hlaunches : t.launchedOf id = s.launchedOf id := congrArg (fun e => e.2.2) hraised
    rw [hraised, hlaunches]
    refine ⟨⟨fun hnone => absurd hnone (Option.some_ne_none _), fun later hlater => ?_, hs.last⟩,
      hnodup⟩
    cases hlater
    exact (hs.stamped g hg).advance (Int.le_add_one le_rfl)
  · have hlaunches : t.launchedOf id = s.launchedOf id ++ [g + 1] :=
      congrArg (fun e => e.2.2) hlaunched
    have hstamped : Stamped (s.launchedOf id) (g + 1) :=
      (hs.stamped g hg).advance (Int.le_add_one le_rfl)
    rw [hlaunched, hlaunches]
    refine ⟨.launch hstamped, (hstamped.nodup_concat hnodup).mpr (fun last hlast => ?_)⟩
    exact Int.lt_add_one_of_le ((hs.stamped g hg).le last (List.mem_of_getLast? hlast))

/-- A registration starts over, without a process. -/
theorem dated_of_registration {s t : Supervisor} {id : String} (hs : Dated (s.epochs id))
    (h : RegistrationOf id s t) : Dated (t.epochs id) ∧ (t.launchedOf id).Nodup := by
  have hlaunches : t.launchedOf id = [] :=
    (congrArg (fun e => e.2.2) h.2).trans (hs.unknown h.1)
  refine ⟨?_, hlaunches ▸ List.nodup_nil⟩
  rw [h.2]
  refine ⟨fun hnone => absurd hnone (Option.some_ne_none _), fun g _ => ?_, hs.last⟩
  rw [hs.unknown h.1]
  exact Stamped.nil g

/-! ## The condition -/

/-- A `start` that gets as far as starting a process is the first of its service, or comes after a
restart: the process the supervisor has a handle of was started with an earlier generation. -/
def SupervisorMove.renewed (s : Supervisor) : SupervisorMove → Prop
  | .start os id => ∀ record process, Launches os id s record → s.processes.get? id = some process →
      process.generation < record.generation
  | _ => True

/-- **One move.** -/
theorem exec_dated (s : Supervisor) (hs : ∀ id, Dated (s.epochs id))
    (hnodup : ∀ id, (s.launchedOf id).Nodup) (move : SupervisorMove) :
    (∀ id, Dated ((move.exec s).epochs id)) ∧
      ((∀ id, ((move.exec s).launchedOf id).Nodup) ↔ move.renewed s) := by
  by_cases hmove : ∀ os id, move ≠ .start os id
  · have hkept : ∀ id, Dated ((move.exec s).epochs id) ∧ ((move.exec s).launchedOf id).Nodup := by
      intro id
      rcases exec_epochs hmove s id with hrestart | hregistered
      · exact dated_of_restart (hs id) (hnodup id) hrestart
      · exact dated_of_registration (hs id) hregistered
    refine ⟨fun id => (hkept id).1, iff_of_true (fun id => (hkept id).2) ?_⟩
    cases move with
    | start os id => exact absurd rfl (hmove os id)
    | _ => exact trivial
  · simp only [not_forall, not_not] at hmove
    obtain ⟨os, id, rfl⟩ := hmove
    have hother : ∀ other, other ≠ id →
        (SupervisorMove.exec s (.start os id)).epochs other = s.epochs other := by
      intro other hne
      have hservice : (SupervisorMove.start os id).service? = some id := rfl
      exact Supervisor.epochs_congr (exec_other hservice hne.symm s)
    have hcases := startService_epochs os id s
    change _ ∨ (_ ∧ (SupervisorMove.exec s (.start os id)).epochs id = _) at hcases
    rcases hcases with ⟨record, hlaunch, hlaunched⟩ | ⟨hidle, hunchanged⟩
    · have hstamped : Stamped (s.launchedOf id) record.generation :=
        (hs id).stamped _ (congrArg (Option.map ServiceRecord.generation) hlaunch.known)
      constructor
      · intro other
        by_cases hsame : other = id
        · rw [hsame]
          change Supervisor.epochs id (SupervisorMove.exec s (.start os id)) = _ at hlaunched
          rw [hlaunched]
          exact .launch hstamped
        · rw [hother other hsame]
          exact hs other
      have hlaunches : (SupervisorMove.exec s (.start os id)).launchedOf id
          = s.launchedOf id ++ [record.generation] := congrArg (fun e => e.2.2) hlaunched
      have hlast : (s.processes.get? id).map Popen.generation = (s.launchedOf id).getLast? :=
        (hs id).last
      -- the handle carries the last stamp, which is the only one that can come again
      constructor
      · intro hall other process hother hprocess
        have hnew := hall id
        rw [hlaunches, hstamped.nodup_concat (hnodup id)] at hnew
        rw [Option.some.inj (hother.known.symm.trans hlaunch.known)]
        refine hnew process.generation ?_
        rw [← hlast, hprocess, Option.map_some]
      · intro hrenewed other
        by_cases hsame : other = id
        · subst hsame
          rw [hlaunches, hstamped.nodup_concat (hnodup other)]
          intro last hnewest
          obtain ⟨process, hprocess, rfl⟩ := Option.map_eq_some_iff.mp (hlast.trans hnewest)
          exact hrenewed record process hlaunch hprocess
        · have hsameLaunches : (SupervisorMove.exec s (.start os id)).launchedOf other
              = s.launchedOf other := congrArg (fun e => e.2.2) (hother other hsame)
          rw [hsameLaunches]
          exact hnodup other
    · have hall : ∀ other, (SupervisorMove.exec s (.start os id)).epochs other
          = s.epochs other := by
        intro other
        by_cases hsame : other = id
        · exact hsame ▸ hunchanged
        · exact hother other hsame
      refine ⟨fun other => (hall other).symm ▸ hs other, iff_of_true (fun other => ?_) ?_⟩
      · have hlaunches : (SupervisorMove.exec s (.start os id)).launchedOf other
            = s.launchedOf other := congrArg (fun e => e.2.2) (hall other)
        rw [hlaunches]
        exact hnodup other
      · exact fun record process hlaunch => absurd hlaunch (hidle record)

/-! ## Messages of earlier processes

A message carries a generation, and is compared with that of the record.
-/

/-- No two processes of a service were started with one generation, and a message with the
generation of any but the last is refused and changes nothing. -/
def GenerationsApart (s : Supervisor) : Prop :=
  ∀ id, (s.launchedOf id).Nodup ∧
    ∀ generation ∈ (s.launchedOf id).dropLast, ∀ (os : Os) (transportOk functionalOk : Bool),
      markReady os id generation transportOk functionalOk s
          = .error (.valueError "stale service generation") s ∧
        heartbeat os id generation s = .error (.valueError "stale service generation") s

/-- A message of another generation than the record has is refused, with nothing changed. -/
theorem stale_refused {s : Supervisor} {id : String} {record : ServiceRecord} {generation : Int}
    (hget : s.services.get? id = some record) (hstale : generation ≠ record.generation) (os : Os)
    (transportOk functionalOk : Bool) :
    markReady os id generation transportOk functionalOk s
        = .error (.valueError "stale service generation") s ∧
      heartbeat os id generation s = .error (.valueError "stale service generation") s := by
  have hok : getService id s = .ok record s := getService_eq_ok.mpr ⟨hget, rfl⟩
  unfold markReady heartbeat
  simp only [bind, EStateM.bind, hok, if_pos hstale]
  exact ⟨rfl, rfl⟩

/-- Where all processes are dated, they are apart exactly if none has the generation of another. -/
theorem generationsApart_iff {s : Supervisor} (hs : ∀ id, Dated (s.epochs id)) :
    GenerationsApart s ↔ ∀ id, (s.launchedOf id).Nodup := by
  refine ⟨fun h id => (h id).1, fun hnodup id => ⟨hnodup id, fun generation hearlier => ?_⟩⟩
  cases hget : s.services.get? id with
  | none =>
      have hlaunches : s.launchedOf id = [] :=
        (hs id).unknown (congrArg (Option.map ServiceRecord.generation) hget)
      rw [hlaunches] at hearlier
      exact absurd hearlier List.not_mem_nil
  | some record =>
      have hstamped : Stamped (s.launchedOf id) record.generation :=
        (hs id).stamped _ (congrArg (Option.map ServiceRecord.generation) hget)
      exact stale_refused hget (hstamped.lt_of_mem_dropLast (hnodup id) hearlier).ne

/-- **When each process of a service has its own generation.**  From a new supervisor, through any
calls and exits of processes, no two processes of a service carry one generation and the messages of
the earlier ones are refused, exactly when every `start` that starts a process is the first of its
service or comes after a restart. -/
theorem generations_apart_iff (moves : List SupervisorMove) :
    Always SupervisorMove.exec GenerationsApart {} moves ↔
      Each SupervisorMove.exec (fun s move => move.renewed s) {} moves := by
  have hnew : ∀ id, Dated (Supervisor.epochs id {}) := fun id =>
    ⟨fun _ => rfl, fun g hg => absurd hg.symm (Option.some_ne_none g), rfl⟩
  refine always_iff (I := fun s => ∀ id, Dated (s.epochs id)) (A := fun _ _ => True)
    (fun s move _ hs hapart => ?_) (fun s move _ hs hapart => ?_)
    (each_iff_forall.mpr (fun _ _ => trivial)) hnew
    ((generationsApart_iff hnew).mpr (fun id => List.nodup_nil))
  · exact (exec_dated s hs ((generationsApart_iff hs).mp hapart) move).1
  · obtain ⟨hkept, hiff⟩ := exec_dated s hs ((generationsApart_iff hs).mp hapart) move
    rw [generationsApart_iff hkept]
    exact hiff

/-- A process exits and the service is started again: both processes carry generation 1. -/
theorem generations_apart_fails :
    ¬ GenerationsApart (run SupervisorMove.exec {}
      [.register "svc" ["serve"] 5 10 3, .start ⟨0, fun _ => .ok 1, some 0, some 0⟩ "svc",
        .exits "svc" 1, .start ⟨0, fun _ => .ok 2, some 0, some 0⟩ "svc"]) := by
  intro h
  have hnodup : ([1, 1] : List Int).Nodup := (h "svc").1
  exact absurd hnodup (by decide)

end LiandanluNative
