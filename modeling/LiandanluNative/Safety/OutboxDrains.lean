/-
# LiandanluNative.Safety.OutboxDrains — how far a number of flushes gets.

`Safety.OutboxDelivery` says that nothing is delivered twice or out of order; this says that all of
it is delivered.  A flush takes the first hundred rows that wait, so after `k` of them, with
restarts anywhere between, the event log is the first `100 * k` messages longer, or it is the whole
journal.

`Sys.LoggedUpTo` is what one flush moves on by a hundred.  Its proof is about the rows that were
read: with one dispatcher nobody else marks them, so each of them is still waiting when its turn
comes.
-/
import LiandanluNative.Safety.TaskHistory

namespace LiandanluNative

open Lib Lib.Proc

/-! ## Delivering the rows that wait -/

namespace Delivered

variable {db : Database} {done todo : List OutboxRow}

/-- The first row that waits is delivered. -/
theorem dispatch_next {next : OutboxRow} (hd : Delivered db done (next :: todo)) (newId : String)
    (observedAt : ℚ) :
    ∃ event db', LiandanluNative.dispatchRow next newId observedAt db = .ok event db' ∧
      Delivered db' (done ++ [{ next with dispatched := true }]) todo ∧
      db'.backlog = db.backlog := by
  have hpristine : next.pristine = next :=
    OutboxRow.pristine_of_unsent (hd.unsent next List.mem_cons_self)
  obtain ⟨eventId, hne, hid⟩ := hd.named next (List.mem_append_right _ List.mem_cons_self)
  obtain ⟨hrows, ⟨event, hevent⟩, hd'⟩ := hd.deliver_next hpristine hid observedAt
  refine ⟨event, _, by rw [dispatchRow_run hne hid, hevent], hd', ?_⟩
  rw [Database.backlog, Database.backlog, hrows, hd.rows]
  exact map_marked OutboxRow.pristine rfl

/-- **All rows that were read are delivered**, where nobody else delivers.  What the delivery of one
row keeps, they keep. -/
theorem dispatch_first {I : Database → List OutboxRow → Prop}
    (hstep : ∀ {db done next todo}, Delivered db done (next :: todo) → I db done →
      ∀ newId observedAt, ∃ event db',
        LiandanluNative.dispatchRow next newId observedAt db = .ok event db' ∧
        Delivered db' (done ++ [{ next with dispatched := true }]) todo ∧
        I db' (done ++ [{ next with dispatched := true }]))
    (newId : Int → String) (observedAt : Int → ℚ) :
    ∀ {first : List OutboxRow} {db : Database} {done todo : List OutboxRow},
      Delivered db done (first ++ todo) → I db done →
      ∃ events db', LiandanluNative.dispatchRows newId observedAt first db = .ok events db' ∧
        Delivered db' (done ++ first.map (fun row => { row with dispatched := true })) todo ∧
        I db' (done ++ first.map (fun row => { row with dispatched := true }))
  | [], db, done, todo, hd, hI => by
      rw [List.map_nil, List.append_nil]
      exact ⟨[], db, rfl, hd, hI⟩
  | next :: first, db, done, todo, hd, hI => by
      have hnext : Delivered db done (next :: (first ++ todo)) := hd
      obtain ⟨event, db₁, hrun₁, hd₁, hI₁⟩ :=
        hstep hnext hI (newId next.outboxId) (observedAt next.outboxId)
      obtain ⟨events, db₂, hrun₂, hd₂, hI₂⟩ := dispatch_first hstep newId observedAt hd₁ hI₁
      rw [List.append_assoc, List.singleton_append] at hd₂ hI₂
      refine ⟨event :: events, db₂, ?_, hd₂, hI₂⟩
      exact bind_eq_ok.mpr ⟨event, db₁, hrun₁, bind_eq_ok.mpr ⟨events, db₂, hrun₂, rfl⟩⟩

/-- The log has as many of the messages as there are delivered rows. -/
theorem log_eq_take (hd : Delivered db done todo) :
    db.eventLog.map Event.message = db.messages.take done.length := by
  rw [hd.eventLog, hd.log, Database.messages, hd.rows, List.map_append]
  exact (List.take_left' (List.length_map _)).symm

end Delivered

/-! ## Flushing -/

/-- On a store, a flush delivers the first hundred rows that wait in one transaction. -/
theorem after_flushOutbox_store (env : Env) {s : Sys} (hpersistent : s.persistent = true) :
    ∃ newId observedAt n, after (flushOutbox env) s
      = { s with
          clockReads := s.clockReads + (s.db.pendingOutbox 100).length
          ids := s.ids + (s.db.pendingOutbox 100).length
          db := after (transaction (dispatchRows newId observedAt (s.db.pendingOutbox 100))) s.db
          boundaries := n } := by
  have hget : (get : M Sys) s = .ok s s := rfl
  let drawn : Sys := { s with
    clockReads := s.clockReads + (s.db.pendingOutbox 100).length
    ids := s.ids + (s.db.pendingOutbox 100).length }
  have hdraw : ∀ f : Unit → M (List Event),
      after (modify (fun t : Sys => { t with
        clockReads := t.clockReads + (s.db.pendingOutbox 100).length
        ids := t.ids + (s.db.pendingOutbox 100).length }) >>= f) s = after (f ()) drawn :=
    fun f => rfl
  unfold flushOutbox dispatchOutbox
  rw [after_bind_ok hget, if_pos hpersistent, after_bind_ok hget]
  dsimp only
  rw [hdraw]
  obtain ⟨n, hn⟩ := after_store env drawn (dispatchRows _ _ (s.db.pendingOutbox 100))
  exact ⟨_, _, n, hn⟩

/-- The log of an engine on a store has the first `n` messages, or all. -/
structure Sys.LoggedUpTo (s : Sys) (n : ℕ) : Prop where
  persistent : s.persistent = true
  delivered : ∃ done todo, Delivered s.db done todo ∧ done.length = min n s.db.messages.length

namespace Sys.LoggedUpTo

variable (env : Env) {s : Sys} {n : ℕ}

theorem log (h : s.LoggedUpTo n) : s.db.eventLog.map Event.message = s.db.messages.take n := by
  obtain ⟨done, todo, hd, hlength⟩ := h.delivered
  rw [hd.log_eq_take, hlength]
  rcases le_total n s.db.messages.length with hle | hle
  · rw [min_eq_left hle]
  · rw [min_eq_right hle, List.take_length, List.take_of_length_le hle]

theorem of_posted {ids : ℕ} (hpersistent : s.persistent = true) (hposted : Posted env ids s.db) :
    s.LoggedUpTo s.db.eventLog.length := by
  obtain ⟨done, todo, hd⟩ := hposted.split
  refine ⟨hpersistent, done, todo, hd, ?_⟩
  have hlog := congrArg List.length hd.log
  have hall := congrArg List.length hd.rows
  rw [List.length_map, List.length_map] at hlog
  rw [hd.eventLog, hlog, Database.messages, List.length_map, hall, List.length_append]
  omega

/-- **A flush** gets a hundred messages further, also if the process ends with it. -/
theorem flush (h : s.LoggedUpTo n) :
    (Call.flushOutbox.exec env s).LoggedUpTo (n + 100) ∧
      (Call.flushOutbox.exec env s).db.messages = s.db.messages := by
  obtain ⟨done, todo, hd, hlength⟩ := h.delivered
  have hread : s.db.pendingOutbox 100 = todo.take 100 := by
    rw [hd.pendingOutbox]
    rfl
  have hsplit : Delivered s.db done (todo.take 100 ++ todo.drop 100) := by
    rw [List.take_append_drop]
    exact hd
  obtain ⟨newId, observedAt, boundaries, hafter⟩ := after_flushOutbox_store env h.persistent
  obtain ⟨events, db', hrun, hd', hback⟩ :=
    Delivered.dispatch_first (I := fun db' _ => db'.backlog = s.db.backlog)
      (fun hnext hkept newId observedAt => by
        obtain ⟨event, db', hrun, hd', hback⟩ := hnext.dispatch_next newId observedAt
        exact ⟨event, db', hrun, hd', hback.trans hkept⟩) newId observedAt hsplit rfl
  have hmessages : db'.messages = s.db.messages := Database.messages_of_backlog hback
  rw [hread, after_of_ok (transaction_of_ok hrun)] at hafter
  show (after (flushOutbox env) s).LoggedUpTo (n + 100) ∧
    (after (flushOutbox env) s).db.messages = s.db.messages
  rw [hafter]
  refine ⟨⟨h.persistent, _, todo.drop 100, hd', ?_⟩, hmessages⟩
  have hall := congrArg List.length hd.rows
  rw [List.length_append] at hall
  show _ = min (n + 100) db'.messages.length
  rw [hmessages, List.length_append, List.length_map, List.length_take]
  rw [Database.messages, List.length_map, hall] at hlength ⊢
  omega

/-- A restart loses nothing of it. -/
theorem restart (h : s.LoggedUpTo n) (registry : CapabilityRegistry) (capabilities : List String)
    (broker : Option ResourceBroker) :
    ((Call.restart registry capabilities broker).exec env s).LoggedUpTo n ∧
      ((Call.restart registry capabilities broker).exec env s).db.messages = s.db.messages := by
  obtain ⟨done, todo, hd, hlength⟩ := h.delivered
  exact ⟨⟨rfl, done, todo, hd.congr rfl rfl rfl rfl, hlength⟩, rfl⟩

/-- **Flushes and restarts** get a hundred messages further with each flush. -/
theorem flushes {calls : List Call} : ∀ {s : Sys} {n : ℕ}, s.LoggedUpTo n →
    (∀ call ∈ calls, call = .flushOutbox ∨ call.isRestart = true) →
    (runCalls env s calls).LoggedUpTo (n + 100 * calls.countP (fun call => !call.isRestart)) ∧
      (runCalls env s calls).db.messages = s.db.messages := by
  induction calls with
  | nil => exact fun h _ => ⟨h, rfl⟩
  | cons call calls ih =>
      intro s n h hcalls
      have hlater := fun c hc => hcalls c (List.mem_cons_of_mem call hc)
      rcases hcalls call List.mem_cons_self with rfl | hrestart
      · obtain ⟨hflush, hsame⟩ := h.flush env
        obtain ⟨hrest, hmessages⟩ := ih hflush hlater
        refine ⟨?_, hmessages.trans hsame⟩
        rw [List.countP_cons_of_pos (by rfl), Nat.mul_succ, Nat.add_comm _ 100, ← Nat.add_assoc]
        exact hrest
      · cases call with
        | restart registry capabilities broker =>
            obtain ⟨hagain, hsame⟩ := h.restart env registry capabilities broker
            obtain ⟨hrest, hmessages⟩ := ih hagain hlater
            refine ⟨?_, hmessages.trans hsame⟩
            rw [List.countP_cons_of_neg (by simp [Call.isRestart])]
            exact hrest
        | _ => cases hrestart

end Sys.LoggedUpTo

/-- An engine stays on its store. -/
theorem runCalls_persistent (env : Env) (calls : List Call) {s : Sys} (hs : s.persistent = true) :
    (runCalls env s calls).persistent = true := by
  refine @runCalls_induction env (fun s => s.persistent = true) (fun _ => True)
    (fun s call hs _ => ?_) calls s hs (fun _ _ => trivial)
  by_cases hcall : call.isRestart = true
  · cases call with
    | restart registry capabilities broker => rfl
    | _ => cases hcall
  · exact (Call.moves env s (Bool.eq_false_of_not_eq_true hcall)).persistent.trans hs

/-- **The outbox drains.**  Take any run of an engine on a new database, the process ending at any
boundary and being restarted, and then any flushes and restarts.  With each flush the event log gets
a hundred messages further along the journal, or to its end: after enough of them every event that
was ever posted is in the log, once and in the order of posting. -/
theorem outbox_drains (env : Env) (hids : Function.Injective env.uuid) (s : Sys) (hs : s.Fresh)
    (calls : List Call) (hattended : Attended env true s calls) (flushes : List Call)
    (hflushes : ∀ call ∈ flushes, call = .flushOutbox ∨ call.isRestart = true) :
    let last := runCalls env s calls
    let k := flushes.countP (fun call => !call.isRestart)
    (runCalls env last flushes).db.eventLog.map Event.message
      = last.db.journal.take (last.db.eventLog.length + 100 * k) := by
  intro last k
  have hknown : TasksKnown env s := .fresh hs
  have hend := (tasksKnown_rules hids).run hknown.told (fun _ => hknown) hattended
    (along_iff.mpr (fun _ _ _ _ => ⟨fun _ _ _ _ _ _ _ _ => trivial,
      fun _ _ _ _ _ _ _ _ => trivial, fun _ _ _ _ => trivial, fun _ _ => trivial,
      fun _ _ _ _ _ _ => trivial, fun _ _ _ _ => trivial⟩))
  have hpersistent : last.persistent = true := runCalls_persistent env calls hs.persistent
  obtain ⟨hlogged, hmessages⟩ :=
    (Sys.LoggedUpTo.of_posted env hpersistent hend.posted).flushes env hflushes
  rw [hlogged.log, hmessages, hend.posted.journal]

/-- The event the last process left waiting is delivered by the next one. -/
theorem outbox_drains_killed :
    let env : Env := { Small.env with dies := fun n => decide (n = 5) }
    let last := runCalls env { persistent := true } killedWhileCancelling
    let drained := runCalls env last [.restart .empty [] none, .flushOutbox]
    drained.db.eventLog.map Event.message = last.db.journal ∧
      (last.db.eventLog.length, drained.db.eventLog.length) = (2, 3) := by
  refine ⟨?_, by decide +kernel⟩
  refine (outbox_drains _ tallyId_injective { persistent := true } ⟨rfl, rfl, rfl, rfl⟩
    killedWhileCancelling (by decide +kernel) [.restart .empty [] none, .flushOutbox]
    (by simp [Call.isRestart])).trans (List.take_of_length_le ?_)
  decide +kernel

end LiandanluNative
