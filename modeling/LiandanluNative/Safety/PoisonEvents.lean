/-
# LiandanluNative.Safety.PoisonEvents — which events `run_once` never gets past.

A payload may hold any JSON, and `_candidate_from_event` catches what its conversions raise, except
for one: `float` of an integer that is too large raises `OverflowError`.  An event of that kind is
`Poison`.  And JSON may hold a lone surrogate, which a payload can have in its key and a column of a
record cannot.  The call that meets an event that `Stops` it raises before the event has a receipt,
and so does every later one.  Every other event is handled and acknowledged, and `run_once` goes on
(`run_once_advances_iff`).

What stops the consumer is read off the event and, as a receipt answers an event before anything is
bound, off the receipts.  Receipts are never taken back, so an event that passes now passes later
(`not_stops_later`); that carries the condition on the log as it was through the loop.
-/
import LiandanluNative.Json
import LiandanluNative.Safety.LatestMemory
import LiandanluNative.Safety.RunOnce

namespace LiandanluNative

open Lib (Table)
open Lib.Proc

/-! ## Poison

Which payloads raise an exception that the conversion does not catch, told by the payload alone.
-/

/-- What `float` may raise, and that only an integer can be too large for it.  Of these the
conversion catches the first two. -/
structure Builtins.FloatRaises (py : Builtins) : Prop where
  kinds : ∀ value e, py.float value = .error e →
    e.kind = .typeError ∨ e.kind = .valueError ∨ e.kind = .overflowError
  overflow : ∀ value e, py.float value = .error e → e.kind = .overflowError →
    ∃ n : Int, value = .int n

/-- A memory candidate that may be learnt and has all its fields, with a kind that exists and a
confidence that is an integer too large for a float.  Without one of the fields another exception
comes first, and that one is caught. -/
structure Event.Poison (py : Builtins) (event : Event) : Prop where
  eventType : event.eventType = "memory.candidate"
  learningAllowed : event.learningAllowed = true
  kind : ∃ kind, PyVal.item? "kind" event.payload = some kind ∧
    (MemoryKind.parse (py.str kind)).isSome = true
  key : (PyVal.item? "key" event.payload).isSome = true
  scope : (PyVal.item? "scope" event.payload).isSome = true
  confidence : ∃ (n : Int) (e : Exc),
    PyVal.lookup "confidence" (.float (some 1)) event.payload = .int n ∧
      py.float (.int n) = .error e ∧ e.kind = .overflowError

/-- The event is poison, or it was not processed yet and is to become a record that cannot be looked
up: its key, its scope or its partition cannot be bound. -/
def Event.Stops (py : Builtins) (db : Database) (event : Event) : Prop :=
  event.Poison py ∨ db.consumerReceipts.get? (memoryConsumer, event.eventId) = none ∧
    ∃ candidate, event.candidate? py = some candidate ∧ ¬ Bindable candidate.partitioned.columns

/-- A store with a database that does not fail: its log is in order and holds JSON objects under ids
that were stored, and no record has an id that is still to be given. -/
structure MemorySys.Sturdy (uuid : ℕ → String) (s : MemorySys) : Prop where
  ordered : s.db.LogOrdered
  persistent : s.store.persistent = true
  named : ∀ event ∈ s.db.events.rows, Bindable event.columns
  json : ∀ event ∈ s.db.events.rows, PyVal.Decoded event.payload
  fresh : ∀ n, s.ids ≤ n → ∀ row ∈ s.db.memoryRecords.rows, row.memoryId ≠ newMemoryId uuid n

/-- The consumer got past the first `n` of its unread events: each has one receipt, the cursor is at
the last of them, and the others are what is unread now. -/
structure MemorySys.Advanced (uuid : ℕ → String) (s : MemorySys) (consumerId : String) (n : ℕ)
    (t : MemorySys) : Prop where
  receipts : ∀ event ∈ (s.db.readEventsAfter consumerId).take n,
    (t.db.consumerReceipts.rows.filter
      (fun receipt => decide (receipt.key = (memoryConsumer, event.eventId)))).length = 1
  cursor : t.db.cursor consumerId
    = (((s.db.readEventsAfter consumerId).take n).getLast?.map Event.sequence).getD
        (s.db.cursor consumerId)
  rest : t.db.readEventsAfter consumerId = (s.db.readEventsAfter consumerId).drop n
  sturdy : t.Sturdy uuid

section

variable {uuid : ℕ → String} {py : Builtins}

/-- A conversion that raises what is not caught has come as far as the confidence. -/
theorem convertPayload_eq_error {payload : List (PyKey × PyVal)} {e : Exc}
    (h : convertPayload py payload = .error e) :
    (∃ kind, PyVal.item? "kind" payload = some kind ∧
        (MemoryKind.parse (py.str kind)).isSome = true) ∧
      (PyVal.item? "key" payload).isSome = true ∧ (PyVal.item? "scope" payload).isSome = true ∧
      py.float (PyVal.lookup "confidence" (.float (some 1)) payload) = .error e ∧
      e.kind ≠ .typeError ∧ e.kind ≠ .valueError := by
  unfold convertPayload at h
  split at h
  · rename_i kind key scope hkind hkey hscope
    split at h
    · cases h
    rename_i hparse
    split at h
    · cases h
    rename_i hfloat
    split at h
    · cases h
    -- neither `TypeError` nor `ValueError`, so `except` does not catch it
    rename_i hcaught
    cases h
    rw [not_or, not_or] at hcaught
    refine ⟨⟨kind, hkind, by rw [hparse]; rfl⟩, by rw [hkey]; rfl, by rw [hscope]; rfl, hfloat,
      hcaught.2⟩
  · cases h

/-- Only poison raises: every other event has a candidate, or is none that becomes one. -/
theorem poison_iff (hpy : py.FloatRaises) {event : Event} :
    event.Poison py ↔ ∃ e, candidateFromEvent py event = .error e := by
  constructor
  · rintro ⟨htype, hlearning, ⟨kind, hkind, hparse⟩, hkey, hscope, n, e, hconfidence, hfloat,
      hoverflow⟩
    obtain ⟨parsed, hparsed⟩ := Option.isSome_iff_exists.mp hparse
    obtain ⟨key, hkey⟩ := Option.isSome_iff_exists.mp hkey
    obtain ⟨scope, hscope⟩ := Option.isSome_iff_exists.mp hscope
    refine ⟨e, ?_⟩
    simp only [candidateFromEvent, htype, hlearning, convertPayload, hkind, hkey, hscope, hparsed,
      hconfidence, hfloat, hoverflow]
    rfl
  · rintro ⟨e, hraised⟩
    unfold candidateFromEvent at hraised
    split at hraised
    · cases hraised
    rename_i hlearnable
    rw [not_or, ne_eq, not_not, Bool.not_eq_false] at hlearnable
    split at hraised
    · rename_i hconvert
      cases hraised
      obtain ⟨hkind, hkey, hscope, hfloat, hcaught⟩ := convertPayload_eq_error hconvert
      have hoverflow : e.kind = .overflowError := by
        rcases hpy.kinds _ _ hfloat with htype | hvalue | hoverflow
        · exact absurd htype hcaught.1
        · exact absurd hvalue hcaught.2
        · exact hoverflow
      obtain ⟨n, hn⟩ := hpy.overflow _ _ hfloat hoverflow
      exact ⟨hlearnable.1, hlearnable.2, hkind, hkey, hscope, n, e, hn, hn ▸ hfloat, hoverflow⟩
    · cases hraised
    · split at hraised <;> cases hraised

/-- What is not poison is converted. -/
theorem not_poison_iff (hpy : py.FloatRaises) {event : Event} :
    ¬ event.Poison py ↔ ∃ candidate, candidateFromEvent py event = .ok candidate := by
  rw [poison_iff hpy]
  cases candidateFromEvent py event with
  | error e => exact iff_of_false (fun h => h ⟨e, rfl⟩) (fun ⟨_, h⟩ => by cases h)
  | ok candidate => exact iff_of_true (fun ⟨_, h⟩ => by cases h) ⟨candidate, rfl⟩

/-! ## A store that does not fail

It refuses nothing but texts that cannot be bound, and what came out of the log can be stored again.
-/

/-- What a decoded object has under a name can be encoded again. -/
theorem lookup_jsonDumps {items : List (PyKey × PyVal)} (h : PyVal.Decoded items) (name : String) :
    (PyVal.lookup name .none items).jsonDumps = some (PyVal.lookup name .none items) := by
  unfold PyVal.lookup PyVal.item?
  cases hfound : items.find? (fun item => decide (item.1 = .str name)) with
  | none =>
      show PyVal.none.jsonDumps = some PyVal.none
      rw [PyVal.jsonDumps]
  | some item => exact h.values item (List.mem_of_find?_eq_some hfound)

/-- It refuses no candidate whose texts it can bind.  What a payload holds can be stored again, as
it came out of the log. -/
theorem MemorySys.Sturdy.accepts {s : MemorySys} (hs : s.Sturdy uuid) {event : Event}
    (hevent : event ∈ s.db.events.rows) {candidate : MemoryCandidate}
    (hcandidate : event.candidate? py = some candidate)
    (habsent : s.db.consumerReceipts.get? (memoryConsumer, event.eventId) = none)
    (hpasses : ¬ event.Stops py s.db) (e : Exc) :
    processMemoryEvent event (some candidate.partitioned) (newMemoryId uuid s.ids) s.db
      ≠ .error e s.db := by
  have hvalue : candidate.partitioned.value.jsonDumps
      = some (PyVal.lookup "value" .none event.payload) := by
    show candidate.value.jsonDumps = _
    rw [(candidate?_eq_some hcandidate).1.value]
    exact lookup_jsonDumps (hs.json event hevent) "value"
  have hbound : candidate.partitioned.Bound event :=
    ⟨hs.named event hevent, by_contra fun hrefused =>
      hpasses (Or.inr ⟨habsent, candidate, hcandidate, hrefused⟩)⟩
  rw [processMemoryEvent_of_new habsent hbound hvalue (hs.fresh s.ids le_rfl)]
  intro h
  cases h

/-- The ids of its records stay apart from those still to be given. -/
theorem Handled.fresh (huuid : Function.Injective uuid) {event : Event} {s t : MemorySys}
    {committed : Bool} (h : Handled uuid py event s (.ok committed t))
    (hs : ∀ n, s.ids ≤ n → ∀ row ∈ s.db.memoryRecords.rows, row.memoryId ≠ newMemoryId uuid n) :
    ∀ n, t.ids ≤ n → ∀ row ∈ t.db.memoryRecords.rows, row.memoryId ≠ newMemoryId uuid n := by
  generalize hresult : (EStateM.Result.ok committed t : EStateM.Result Exc MemorySys Bool) = result
    at h
  cases h with
  | unreadable e _ => cases hresult
  | unnamed _ _ _ e => cases hresult
  | refused candidate _ _ e _ => cases hresult
  | replayed _ receipt _ committed store ids _ hlater =>
      cases hresult
      exact fun n hn => hs n (hlater.trans hn)
  | ignored _ _ _ _ =>
      cases hresult
      exact hs
  | committed candidate _ _ _ record value hbuilt _ _ =>
      cases hresult
      intro n hn row hrow
      rcases Table.mem_put.mp hrow with rfl | ⟨hold, _⟩
      · rw [hbuilt]
        intro heq
        have hsame : s.ids = n := newMemoryId_injective huuid heq
        have hlt : s.ids + 1 ≤ n := hn
        omega
      · exact hs n (Nat.le_of_succ_le hn) row hold

/-! ## One call -/

/-- The event has a receipt. -/
def MemorySys.Receipted (s : MemorySys) (event : Event) : Prop :=
  (s.db.consumerReceipts.get? (memoryConsumer, event.eventId)).isSome = true

/-- **One event that does not stop the consumer** is handled, has its receipt and is acknowledged.
-/
theorem processEvent_total (huuid : Function.Injective uuid) (hpy : py.FloatRaises) {s : MemorySys}
    {done unread : List Event} {event : Event} (hs : s.Sturdy uuid)
    (hw : s.Working done (event :: unread)) (rest : List Event)
    (hpasses : ¬ event.Stops py s.db) :
    ∃ committed t, processEvent uuid py event rest s = .ok committed t ∧ t.Sturdy uuid ∧
      t.db.events = s.db.events ∧ t.consumerId = s.consumerId ∧
      t.db.cursor s.consumerId = event.sequence ∧ t.Receipted event ∧
      ∀ other, s.Receipted other → t.Receipted other := by
  have hevent : event ∈ s.db.events.rows := by
    rw [hw.place.log]
    exact List.mem_append_right _ List.mem_cons_self
  have hcases := handleEvent_cases uuid py event { s with pending := rest }
    hw.persistent
  cases hrun : handleEvent uuid py event { s with pending := rest } with
  | error e u =>
      rw [hrun] at hcases
      generalize hresult : (EStateM.Result.error e u : EStateM.Result Exc MemorySys Bool) = result
        at hcases
      cases hcases with
      | unreadable e' hraised =>
          exact absurd (Or.inl ((poison_iff hpy).mpr ⟨e', hraised⟩)) hpasses
      | replayed _ _ _ _ _ _ _ _ => cases hresult
      | ignored _ _ _ _ => cases hresult
      | unnamed _ hunbindable _ e' => exact absurd (hs.named event hevent) hunbindable
      | refused candidate hsomething habsent e' hrefused =>
          exact absurd hrefused (hs.accepts hevent hsomething habsent hpasses e')
      | committed _ _ _ _ _ _ _ _ _ => cases hresult
  | ok committed u =>
      rw [hrun] at hcases
      have hhandles := hcases.handles hw.positive hw.persistent
      refine ⟨committed, _, hw.processEvent_eq hrun, ?_, hhandles.events, hhandles.consumerId, ?_,
        hhandles.receipt, fun other hother => ?_⟩
      · have hrows : ∀ other ∈ u.db.events.rows, other ∈ s.db.events.rows := by
          rw [hhandles.events]
          exact fun _ hother => hother
        exact ⟨hs.ordered.congr hhandles.events hhandles.eventSequence, hhandles.persistent,
          fun other hother => hs.named other (hrows other hother),
          fun other hother => hs.json other (hrows other hother), hcases.fresh huuid hs.fresh⟩
      · exact (Database.cursor_ackWrite s.consumerId event.sequence s.consumerId).trans (if_pos rfl)
      -- one receipt is added, none is taken away
      · by_cases hid : other.eventId = event.eventId
        · show (u.db.consumerReceipts.get? (memoryConsumer, other.eventId)).isSome = true
          rw [hid]
          exact hhandles.receipt
        · show (u.db.consumerReceipts.get? (memoryConsumer, other.eventId)).isSome = true
          rw [hhandles.receipts other.eventId hid]
          exact hother

/-- An event that does not stop the consumer does not stop it later. -/
theorem not_stops_later {s t : MemorySys} {event : Event}
    (hkept : s.Receipted event → t.Receipted event) (hpasses : ¬ event.Stops py s.db) :
    ¬ event.Stops py t.db := by
  rintro (hpoison | ⟨habsent, hrefused⟩)
  · exact hpasses (Or.inl hpoison)
  · refine hpasses (Or.inr ⟨Option.not_isSome_iff_eq_none.mp (fun hreceipt => ?_), hrefused⟩)
    have hlater := hkept hreceipt
    unfold MemorySys.Receipted at hlater
    rw [habsent] at hlater
    cases hlater

/-- **The loop**, over events none of which stops the consumer: it returns, with a receipt for each
of them and the cursor at the last. -/
theorem processEvents_total (huuid : Function.Injective uuid) (hpy : py.FloatRaises)
    (events : List Event) {done later : List Event} {s : MemorySys} (hs : s.Sturdy uuid)
    (hw : s.Working done (events ++ later))
    (hpasses : ∀ event ∈ events, ¬ event.Stops py s.db) :
    ∃ counts t, processEvents uuid py events s = .ok counts t ∧ t.Sturdy uuid ∧
      t.Working (done ++ events) later ∧ t.consumerId = s.consumerId ∧
      t.db.cursor s.consumerId
        = (events.getLast?.map Event.sequence).getD (s.db.cursor s.consumerId) ∧
      (∀ event ∈ events, t.Receipted event) ∧ ∀ other, s.Receipted other → t.Receipted other := by
  induction events generalizing done s with
  | nil =>
      refine ⟨(0, 0), s, rfl, hs, ?_, rfl, rfl, fun _ h => absurd h List.not_mem_nil,
        fun _ h => h⟩
      rw [List.append_nil]
      exact hw
  | cons event events ih =>
      obtain ⟨committed, t, hrun, ht, _, hconsumer, hcursor, hreceipt, hkept⟩ :=
        processEvent_total huuid hpy hs hw events (hpasses event List.mem_cons_self)
      obtain ⟨counts, u, hrest, hu, hplace, hconsumer', hcursor', hreceipts, hkept'⟩ :=
        ih ht (hw.next hrun).1 (fun other hother =>
          not_stops_later (hkept other) (hpasses other (List.mem_cons_of_mem _ hother)))
      refine ⟨if committed then (counts.1 + 1, counts.2) else (counts.1, counts.2 + 1), u, ?_, hu,
        ?_, hconsumer'.trans hconsumer, ?_, ?_, fun other hother => hkept' other (hkept other hother)⟩
      · unfold processEvents
        refine bind_eq_ok.mpr ⟨committed, t, hrun, bind_eq_ok.mpr ⟨counts, u, hrest, ?_⟩⟩
        cases committed <;> rfl
      · rw [List.append_assoc, List.singleton_append] at hplace
        exact hplace
      -- the cursor of an empty rest is the one this event left
      · rw [hconsumer, hcursor] at hcursor'
        rw [hcursor', List.getLast?_cons]
        cases events.getLast? <;> rfl
      · intro other hother
        rcases List.mem_cons.mp hother with rfl | hmem
        · exact hkept' _ hreceipt
        · exact hreceipts other hmem

/-- An event that was handled was processed before, or does not stop the consumer. -/
theorem Handled.not_stops (hpy : py.FloatRaises) {event : Event} {s t : MemorySys}
    {committed : Bool} (h : Handled uuid py event s (.ok committed t)) :
    ¬ event.Stops py s.db := by
  have hreadable : ∀ candidate, candidateFromEvent py event = .ok candidate → ¬ event.Poison py :=
    fun candidate hread => (not_poison_iff hpy).mpr ⟨candidate, hread⟩
  generalize hresult : (EStateM.Result.ok committed t : EStateM.Result Exc MemorySys Bool) = result
    at h
  cases h with
  | unreadable e _ => cases hresult
  | unnamed _ _ _ e => cases hresult
  | refused candidate _ _ e _ => cases hresult
  | replayed hread receipt hfound _ _ _ _ _ =>
      rintro (hpoison | ⟨habsent, _⟩)
      · exact hreadable _ hread.choose_spec hpoison
      · cases hfound.symm.trans habsent
  | ignored hread _ _ hnothing =>
      rintro (hpoison | ⟨_, candidate, hsomething, _⟩)
      · exact hreadable _ hread.choose_spec hpoison
      · cases hnothing.symm.trans hsomething
  | committed candidate hsomething _ hbound _ _ _ _ _ =>
      rintro (hpoison | ⟨_, candidate', hsomething', hrefused⟩)
      · exact hreadable _ (candidate?_read hsomething).1 hpoison
      · cases hsomething.symm.trans hsomething'
        exact hrefused hbound.candidate

/-- A loop that returns met no event that would have stopped it when it began: it has handled every
one of them. -/
theorem processEvents_passes (hpy : py.FloatRaises) (events : List Event)
    {done later : List Event} {s t : MemorySys} {counts : ℕ × ℕ}
    (hw : s.Working done (events ++ later))
    (hrun : processEvents uuid py events s = .ok counts t) :
    ∀ event ∈ events, ¬ event.Stops py s.db := by
  induction events generalizing done s counts with
  | nil => exact fun _ h => absurd h List.not_mem_nil
  | cons event events ih =>
      unfold processEvents at hrun
      obtain ⟨committed, u, hevent, hrest⟩ := bind_eq_ok.mp hrun
      obtain ⟨rest, v, hevents, hlast⟩ := bind_eq_ok.mp hrest
      cases hlast
      obtain ⟨hw', u', hhandled, rfl⟩ := hw.next hevent
      intro other hother
      rcases List.mem_cons.mp hother with rfl | hmem
      · exact hhandled.not_stops hpy
      · -- the ids of the log are distinct, so this event wrote no receipt of the other
        have hne : other.eventId ≠ event.eventId := by
          have hids := hw.ordered.ids
          rw [hw.place.log, List.map_append, List.cons_append, List.map_cons] at hids
          have hapart := (List.nodup_cons.mp (List.nodup_append.mp hids).2.1).1
          intro heq
          exact hapart (heq ▸ List.mem_map_of_mem (List.mem_append_left later hmem))
        have hsame := (hhandled.handles hw.positive hw.persistent).receipts other.eventId hne
        intro hstops
        refine ih hw' hevents other hmem (hstops.imp_right (fun hrefused => ⟨?_, hrefused.2⟩))
        exact hsame.trans hrefused.1

/-- A limit that is not negative takes so many. -/
theorem sliceTo_eq_take {α : Type} {limit : Int} (hlimit : 0 ≤ limit) (xs : List α) :
    sliceTo limit xs = xs.take limit.toNat := if_neg (not_lt.mpr hlimit)

/-- The consumer reads its events. -/
theorem MemorySys.Sturdy.read {s : MemorySys} (hs : s.Sturdy uuid) (consumerId : String)
    (limit : Int) : (s.read consumerId limit).Sturdy uuid :=
  ⟨hs.ordered, hs.persistent, hs.named, hs.json, hs.fresh⟩

/-- **No poison, no stop.** With a store that does not fail, a call of `run_once` with a limit of at
least one returns, every one of its events has exactly one receipt, the cursor stands at the last of
them and what is left is unread, if and only if none of these events stops it. -/
theorem run_once_advances_iff (huuid : Function.Injective uuid) (hpy : py.FloatRaises)
    {s : MemorySys} (hs : s.Sturdy uuid) (consumerId : String) {limit : Int} (hlimit : 1 ≤ limit) :
    (∃ result t, runOnce uuid py consumerId limit s = .ok result t ∧
        s.Advanced uuid consumerId limit.toNat t) ↔
      ∀ event ∈ (s.db.readEventsAfter consumerId).take limit.toNat, ¬ event.Stops py s.db := by
  have hpending : (s.read consumerId limit).pending
      = (s.db.readEventsAfter consumerId).take limit.toNat :=
    sliceTo_eq_take (by omega) _
  obtain ⟨done, hplace⟩ := Database.exists_place hs.ordered consumerId
  have hw : (s.read consumerId limit).Working done
      ((s.read consumerId limit).pending
        ++ (s.db.readEventsAfter consumerId).drop limit.toNat) := by
    refine ⟨hs.ordered, hs.persistent, ?_⟩
    rw [hpending, List.take_append_drop]
    exact hplace
  constructor
  · rintro ⟨result, t, hrun, _⟩ event hevent
    obtain ⟨counts, hevents, _⟩ := runOnce_eq_ok.mp hrun
    exact processEvents_passes hpy _ hw hevents event (hpending ▸ hevent)
  · intro hpasses
    obtain ⟨counts, t, hrun, ht, hplace', hconsumer, hcursor, hreceipts, _⟩ :=
      processEvents_total huuid hpy _ (hs.read consumerId limit) hw
        (fun event hevent => hpasses event (hpending ▸ hevent))
    refine ⟨_, t, runOnce_eq_ok.mpr ⟨counts, hrun, rfl⟩, ?_, ?_, ?_, ht⟩
    · intro event hevent
      obtain ⟨receipt, hreceipt⟩ := Option.isSome_iff_exists.mp
        (hreceipts event (hpending ▸ hevent))
      rw [← Table.key_of_get? hreceipt, Table.filter_key (Table.mem_of_get? hreceipt)]
      rfl
    · rw [hpending] at hcursor
      exact hcursor
    · have hread := hplace'.place.read ht.ordered
      rw [hconsumer] at hread
      exact hread

end

/-- The integers that are too large for a float start here. -/
@[irreducible] def floatLimit : ℕ := 2 ^ 1024 - 2 ^ 970

/-- Built-ins whose `float` takes integers as far as they go. -/
def floatBuiltins : Builtins where
  str := plainBuiltins.str
  float value :=
    match value with
    | .int n =>
        if n.natAbs < floatLimit then .ok (some n)
        else .error ⟨.overflowError, "int too large to convert to float"⟩
    | .float x => .ok x
    | _ => .error ⟨.typeError, "float() argument must be a string or a real number"⟩
  lower := plainBuiltins.lower
  sortedKeys := plainBuiltins.sortedKeys

/-- What they make of an integer. -/
theorem floatBuiltins_int (n : Int) : floatBuiltins.float (.int n) =
    if n.natAbs < floatLimit then .ok (some (n : ℚ))
    else .error ⟨.overflowError, "int too large to convert to float"⟩ := rfl

/-- They raise nothing else. -/
theorem floatBuiltins_raises : floatBuiltins.FloatRaises where
  kinds value e h := by
    unfold floatBuiltins at h
    cases value <;> dsimp only at h <;> try split at h
    all_goals cases h
    all_goals simp
  overflow value e h hkind := by
    unfold floatBuiltins at h
    cases value <;> dsimp only at h <;> try split at h
    all_goals cases h
    all_goals first | exact ⟨_, rfl⟩ | cases hkind

/-- A candidate for the language, with a confidence. -/
def confidentEvent (confidence : Int) : Event :=
  { languageEvent 1 "e1" with
    payload :=
      [(.str "kind", .str "FACT"), (.str "key", .str "language"), (.str "scope", .str "workspace"),
        (.str "confidence", .int confidence)] }

/-- A database that has seen that event and nothing else. -/
def confidentMemory (confidence : Int) : MemorySys where
  store := { persistent := true }
  db := { events := Table.empty.put (confidentEvent confidence), eventSequence := 1 }

/-- It does not fail, … -/
theorem confidentMemory_sturdy (confidence : Int) : (confidentMemory confidence).Sturdy tallyId where
  ordered :=
    { sequences := List.pairwise_singleton _ _
      positive := fun event hevent => by
        cases List.mem_singleton.mp hevent
        exact Int.one_pos
      bound := fun event hevent => by
        cases List.mem_singleton.mp hevent
        exact le_rfl
      nonneg := Int.one_pos.le
      ids := List.nodup_singleton _ }
  persistent := rfl
  named event hevent := by
    cases List.mem_singleton.mp hevent
    have hid : Bindable [.text "e1"] := by decide
    exact hid
  json event hevent := by
    cases List.mem_singleton.mp hevent
    have hvalues : ∀ item ∈ (confidentEvent confidence).payload,
        item.2.jsonDumps = some item.2 := by
      simp [confidentEvent, PyVal.jsonDumps]
    refine ⟨?_, ?_, hvalues⟩
    · simp [confidentEvent]
    · simp [confidentEvent]
  fresh n hn row hrow := by cases hrow

/-- … and the event is what a new consumer reads. -/
theorem confidentMemory_read (confidence : Int) :
    (confidentMemory confidence).db.readEventsAfter "memory" = [confidentEvent confidence] := rfl

/-- The confidence is found in the payload. -/
theorem confidentEvent_lookup (confidence : Int) :
    PyVal.lookup "confidence" (.float (some 1)) (confidentEvent confidence).payload
      = .int confidence := rfl

theorem run_once_advances_iff_confident :
    ∃ result t, runOnce tallyId floatBuiltins "memory" 1 (confidentMemory 1) = .ok result t ∧
      (confidentMemory 1).Advanced tallyId "memory" 1 t := by
  refine (run_once_advances_iff tallyId_injective floatBuiltins_raises (confidentMemory_sturdy 1)
    "memory" le_rfl).mpr ?_
  intro event hevent hstops
  rw [confidentMemory_read] at hevent
  cases List.mem_singleton.mp hevent
  have hsmall : Int.natAbs 1 < floatLimit := by decide +kernel
  rcases hstops with hpoison | ⟨_, candidate, hsomething, hrefused⟩
  · obtain ⟨n, e, hn, hfloat, _⟩ := hpoison.confidence
    cases hn
    rw [floatBuiltins_int, if_pos hsmall] at hfloat
    cases hfloat
  · have hread := (candidate?_read hsomething).1
    unfold candidateFromEvent convertPayload at hread
    rw [confidentEvent_lookup, floatBuiltins_int, if_pos hsmall] at hread
    cases hread
    have htexts : Bindable [.text "w", .text "workspace", .text "language"] := by decide
    exact hrefused htexts

/-- One candidate with a confidence that no float can hold stops the consumer. -/
theorem run_once_advances_fails :
    ¬ ∀ s : MemorySys, s.Sturdy tallyId →
      ∃ result t, runOnce tallyId floatBuiltins "memory" 100 s = .ok result t := by
  intro h
  obtain ⟨result, t, hrun⟩ := h _ (confidentMemory_sturdy (10 ^ 400))
  obtain ⟨counts, hevents, _⟩ := runOnce_eq_ok.mp hrun
  have hlarge : ¬ Int.natAbs (10 ^ 400) < floatLimit := by decide +kernel
  have hraised : candidateFromEvent floatBuiltins (confidentEvent (10 ^ 400))
      = .error ⟨.overflowError, "int too large to convert to float"⟩ := by
    unfold candidateFromEvent convertPayload
    rw [confidentEvent_lookup, floatBuiltins_int, if_neg hlarge]
    rfl
  -- the loop raises over the one event it has
  obtain ⟨committed, u, hevent, _⟩ := bind_eq_ok.mp (show (processEvent tallyId floatBuiltins
    (confidentEvent (10 ^ 400)) [] >>= fun committed => _) _ = .ok counts t from hevents)
  unfold processEvent handleEvent at hevent
  rw [hraised] at hevent
  cases hevent

end LiandanluNative
