/-
# LiandanluNative.Safety.BridgeClient — the bridge client, whatever the peer does.

Over any network, in every sequence of calls, the client has a socket exactly when it has a session;
a request is sent only on a socket on which a valid acknowledgement was received that advertises its
method, and only a frame that answers the request becomes a response (`bridge_client_safe`).  The
invariant is `Client.Sound`.  A `connect` on a connected client is refused and leaves it connected.

The trace of a client is what makes this sayable: it has what was sent and received on each socket,
in order, so that a request can be said to come after the acknowledgement that licenses it.  A
request is the one thing that must be licensed; everything else only adds to the trace.
-/
import LiandanluNative.Bridge.Pieces

namespace LiandanluNative.Bridge

open Lib.Proc
open PyVal (get payload)

/-! ## What a trace has to say

A request is licensed by what was received on its socket before it, and a trace is lawful if every
request in it is.
-/

/-- A request on a socket may be sent: a valid acknowledgement was received there before, which
advertises the method and has the generation of the request. -/
def Licensed (trace : List Traffic) (sock : ℕ) (message : List (PyKey × PyVal)) : Prop :=
  ∃ ack method generation, .received sock ack ∈ trace ∧ ValidAck ack ∧
    get "method" message = .str method ∧ Advertises ack method ∧
    get "generation" ack = .int generation ∧
    get "expected_bridge_generation" message = .int generation

/-- Every request was licensed by what came before it. -/
def Lawful (trace : List Traffic) : Prop :=
  ∀ before sock message later, trace = before ++ .sent sock message :: later →
    get "type" message = .str "request" → Licensed before sock message

/-- Nothing was sent yet. -/
theorem lawful_nil : Lawful [] := by
  intro before sock message later h _
  exact absurd h.symm (List.append_ne_nil_of_right_ne_nil _ (List.cons_ne_nil _ _))

/-- What is sent last has to be licensed. -/
theorem Lawful.concat {trace : List Traffic} (h : Lawful trace) {traffic : Traffic}
    (hlast : ∀ sock message, traffic = .sent sock message → get "type" message = .str "request" →
      Licensed trace sock message) : Lawful (trace ++ [traffic]) := by
  intro before sock message later hsplit htype
  rcases List.eq_nil_or_concat later with rfl | ⟨others, last, rfl⟩
  · obtain ⟨rfl, hsent⟩ := List.append_inj' hsplit rfl
    exact hlast sock message (List.cons.inj hsent).1 htype
  · rw [List.concat_eq_append, ← List.cons_append, ← List.append_assoc] at hsplit
    obtain ⟨rfl, _⟩ := List.append_inj' hsplit rfl
    exact h before sock message others rfl htype

/-- What is received needs no licence. -/
theorem Lawful.received {trace : List Traffic} (h : Lawful trace) (sock : ℕ)
    (raw : List (PyKey × PyVal)) : Lawful (trace ++ [.received sock raw]) := by
  refine h.concat (fun _ _ heq => ?_)
  cases heq

/-! ## The invariant -/

/-- The session is what an acknowledgement on this socket granted. -/
def Granted (trace : List Traffic) (sock : ℕ) (session : BridgeSession) : Prop :=
  ∃ ack, .received sock ack ∈ trace ∧ ValidAck ack ∧
    get "generation" ack = .int session.generation ∧
    ∀ capability ∈ session.capabilities.rows, capability.state = .available →
      Advertises ack capability.method

section

variable {ω : Type} {env : BridgeEnv ω} {options : ClientOptions} {c : Client ω}

/-- There is neither a socket nor a session, or both, and the session was granted. -/
structure Client.Sound (c : Client ω) : Prop where
  held : c.held = (none, none) ∨
    ∃ sock session, c.held = (some sock, some session) ∧ Granted c.trace sock session
  lawful : Lawful c.trace

/-- A sound client has a socket exactly if it has a session. -/
theorem Client.Sound.agree (h : c.Sound) : c.socket.isSome = c.session.isSome := by
  rcases h.held with hnone | ⟨sock, session, hsome, _⟩
  · simp only [Client.held, Prod.mk.injEq] at hnone
    rw [hnone.1, hnone.2]
    rfl
  · simp only [Client.held, Prod.mk.injEq] at hsome
    rw [hsome.1, hsome.2]
    rfl

/-- A client with neither is sound. -/
theorem Client.Sound.of_unconnected (h : c.Sound) (hnot : c.connected = false) :
    c.held = (none, none) := by
  refine h.held.resolve_right ?_
  rintro ⟨sock, session, hsome, _⟩
  cases (Client.connected_of_both hsome).symm.trans hnot

/-! ## The methods

Each method ends in a sound client, with the session that was granted or with neither socket nor
session.
-/

theorem get_type_helloMessage : get "type" (helloMessage options) = .str "hello" := rfl

/-- The hello is no request. -/
theorem Lawful.hello {trace : List Traffic} (h : Lawful trace) (sock : ℕ) :
    Lawful (trace ++ [.sent sock (helloMessage options)]) := by
  refine h.concat (fun sock' message heq htype => ?_)
  cases heq
  rw [get_type_helloMessage] at htype
  exact absurd (PyVal.str.inj htype) (by decide)

/-- **Closing** leaves a sound client with neither. -/
theorem ends_close_sound (hlawful : Lawful c.trace) :
    Ends (fun _ t => t.Sound ∧ t.held = (none, none)) (fun _ _ => False) (close env) c := by
  refine ends_close.mono (fun _ t ht => ?_) (fun _ _ hf => hf)
  obtain ⟨hheld, htrace⟩ := ht
  rw [← htrace] at hlawful
  exact ⟨⟨Or.inl hheld, hlawful⟩, hheld⟩

/-- A connected client refuses to connect, and nothing changes. -/
theorem connect_of_connected (hconnected : c.connected = true) :
    connect env options c = .error (.protocolError "bridge client is already connected") c := by
  simp only [connect, bind, EStateM.bind]
  show (if c.connected = true then _ else _ : ClientM ω BridgeSession) c = _
  rw [if_pos hconnected]
  rfl

/-- **Connecting** a client that is not connected returns a session that was granted, or raises and
leaves neither. -/
theorem ends_connect (h : c.Sound) (hnot : c.connected = false) :
    Ends (fun _ t => t.Sound) (fun _ t => t.Sound ∧ t.held = (none, none))
      (connect env options) c := by
  have hnone := h.of_unconnected hnot
  refine Ends.bind (Ends.get ?_)
  rw [if_neg (Bool.eq_false_iff.mp hnot)]
  refine Ends.bind (ends_dial.mono (fun dialled t ht => ?_) (fun e t ht => ?_))
  · obtain ⟨hheld, htrace⟩ := ht
    have hlawful : Lawful t.trace := by
      rw [htrace]
      exact h.lawful
    have hsock : t.socket = some c.sockets := congrArg Prod.fst hheld
    refine Ends.handling ((ends_handshake hsock).mono (fun session u hu => ?_) (fun e u hu => ?_))
    · obtain ⟨hheld', ack, hparse, htrace'⟩ := hu
      obtain ⟨hvalid, hgeneration, hadvertised⟩ := parseHelloAck_ok hparse
      refine ⟨Or.inr ⟨_, session, hheld', ack, ?_, hvalid, hgeneration, hadvertised⟩, ?_⟩
      · rw [htrace']
        exact List.mem_append_right _ (List.mem_cons_of_mem _ List.mem_cons_self)
      · rw [htrace', List.append_cons]
        exact (hlawful.hello _).received _ _
    · obtain ⟨traffic, htrace', hcases⟩ := hu
      have hlawful' : Lawful u.trace := by
        rw [htrace']
        rcases hcases with rfl | rfl | ⟨ack, rfl⟩
        · rw [List.append_nil]
          exact hlawful
        · exact hlawful.hello _
        · rw [List.append_cons]
          exact (hlawful.hello _).received _ _
      exact Ends.bind ((ends_close_sound hlawful').mono (fun _ _ hv => Ends.throw hv)
        (fun _ _ hf => hf.elim))
  · obtain ⟨hheld, htrace⟩ := ht
    have hlawful : Lawful t.trace := by
      rw [htrace]
      exact h.lawful
    exact ⟨⟨Or.inl (hheld.trans hnone), hlawful⟩, hheld.trans hnone⟩

/-- A request passes the checks only if the session has its method as available. -/
theorem Client.checkRequest_ok {args : RequestArgs} {session : BridgeSession}
    (h : c.checkRequest env args = .ok session) :
    (∃ sock, c.held = (some sock, some session)) ∧
      ∃ capability ∈ session.capabilities.rows, capability.method = args.method ∧
        capability.state = .available := by
  unfold Client.checkRequest at h
  split at h
  · rename_i sock session' hsocket hsession
    split at h
    · cases h
    split at h
    · cases h
    split at h
    · cases h
    split at h
    · cases h
    rename_i capability hcapability
    split at h
    · cases h
    · cases h
    · rename_i hstate
      cases h
      refine ⟨⟨sock, by rw [Client.held, hsocket, hsession]⟩, capability, ?_, ?_, hstate⟩
      · exact Lib.Table.mem_of_get? hcapability
      · exact Lib.Table.key_of_get? hcapability
  · cases h

/-- A frame answers a message: it is a response with its ids, of the generation it asked for, with
an allowed status. -/
structure Answers (message raw : List (PyKey × PyVal)) : Prop where
  type : get "type" raw = .str "response"
  request : get "request_id" raw = get "request_id" message
  operation : get "operation_id" raw = get "operation_id" message
  generation : ∃ n, get "expected_bridge_generation" message = .int n ∧
    (get "bridge_generation" raw).equalsInt n = true
  status : ∃ status ∈ ResponseStatus.all, get "status" raw = .str status.value

/-- Every status is one of the allowed. -/
theorem ResponseStatus.mem_all (status : ResponseStatus) : status ∈ ResponseStatus.all := by
  cases status <;> decide

/-- A request that a granted session admits is licensed. -/
theorem licensed_of_granted (env : BridgeEnv ω) (c : Client ω) {args : RequestArgs}
    {session : BridgeSession} {sock : ℕ} {trace : List Traffic}
    (hgranted : Granted trace sock session)
    (hcapability : ∃ capability ∈ session.capabilities.rows, capability.method = args.method ∧
      capability.state = .available) :
    Licensed trace sock (c.nextMessage env args session) := by
  obtain ⟨ack, hreceived, hvalid, hgeneration, hadvertised⟩ := hgranted
  obtain ⟨capability, hmem, hmethod, hstate⟩ := hcapability
  refine ⟨ack, args.method, session.generation, hreceived, hvalid, rfl, ?_, hgeneration, rfl⟩
  rw [← hmethod]
  exact hadvertised capability hmem hstate

/-- What was received before stays received. -/
theorem Granted.append {trace : List Traffic} {sock : ℕ} {session : BridgeSession}
    (h : Granted trace sock session) (more : List Traffic) :
    Granted (trace ++ more) sock session := by
  obtain ⟨ack, hreceived, hrest⟩ := h
  exact ⟨ack, List.mem_append_left _ hreceived, hrest⟩

/-- The session that a sound client has was granted. -/
theorem Client.Sound.granted (h : c.Sound) {sock : ℕ} {session : BridgeSession}
    (hheld : c.held = (some sock, some session)) : Granted c.trace sock session := by
  rcases h.held with hnone | ⟨sock', session', hsome, hgranted⟩
  · cases hheld.symm.trans hnone
  · cases hheld.symm.trans hsome
    exact hgranted

/-- What keeps socket and session, and adds to the trace lawfully, leaves a sound client. -/
theorem Client.Sound.of_granted {sock : ℕ} {session : BridgeSession}
    (hgranted : Granted c.trace sock session) {t : Client ω}
    (hheld : t.held = (some sock, some session)) {more : List Traffic}
    (htrace : t.trace = c.trace ++ more) (hlawful : Lawful (c.trace ++ more)) : t.Sound := by
  rw [← htrace] at hlawful
  refine ⟨Or.inr ⟨sock, session, hheld, ?_⟩, hlawful⟩
  rw [htrace]
  exact hgranted.append more

/-- **A request** keeps the invariant; when it returns, what it sent was answered. -/
theorem ends_request (h : c.Sound) (args : RequestArgs) :
    Ends
      (fun response t => t.Sound ∧ ∃ sock session raw, c.held = (some sock, some session) ∧
        t.trace = c.trace ++
          [.sent sock (c.nextMessage env args session), .received sock raw] ∧
        Answers (c.nextMessage env args session) raw ∧
        get "status" raw = .str response.status.value ∧
        response.requestId = c.nextRequestId env ∧ response.operationId = args.operationId ∧
        response.bridgeGeneration = session.generation)
      (fun _ t => t.Sound) (request env options args) c := by
  refine Ends.bind (Ends.get (Ends.bind (ends_ofExcept (fun session hchecked => ?_)
    (fun _ _ => h))))
  -- past the checks there is a session that grants the capability, so the message is licensed
  obtain ⟨⟨sock, hheld⟩, hcapability⟩ := Client.checkRequest_ok hchecked
  have hgranted := h.granted hheld
  have hsent : Lawful (c.trace ++ [.sent sock (c.nextMessage env args session)]) := by
    refine h.lawful.concat (fun sock' message heq _ => ?_)
    cases heq
    exact licensed_of_granted env c hgranted hcapability
  refine Ends.bind (Ends.of_ok rfl (Ends.bind ?_))
  have hsock : c.stamped.socket = some sock := congrArg Prod.fst hheld
  refine (ends_exchange hsock).mono (fun raw t ht => ?_) (fun e t ht => ?_)
  · obtain ⟨hheld', htrace⟩ := ht
    have hreceived : Lawful
        (c.trace ++ [.sent sock (c.nextMessage env args session), .received sock raw]) := by
      rw [List.append_cons]
      exact hsent.received sock raw
    have hsound : t.Sound := .of_granted hgranted (hheld'.trans hheld) htrace hreceived
    -- what is returned was parsed, so it answers the message
    refine ends_ofExcept (fun response hparse => ?_) (fun _ _ => hsound)
    obtain ⟨htype, hrequest, hoperation, hgeneration, hstatus, hids⟩ := parseResponse_ok hparse
    exact ⟨hsound, sock, session, raw, hheld, htrace,
      ⟨htype, hrequest, hoperation, ⟨_, rfl, hgeneration⟩, _, response.status.mem_all, hstatus⟩,
      hstatus, hids⟩
  · -- raised before the message was sent, or after
    obtain ⟨hheld', htrace | htrace⟩ := ht
    · rw [← List.append_nil c.stamped.trace] at htrace
      refine .of_granted hgranted (hheld'.trans hheld) htrace ?_
      rw [List.append_nil]
      exact h.lawful
    · exact .of_granted hgranted (hheld'.trans hheld) htrace hsent

/-! ## Whole runs -/

/-- **One call** leaves a sound client. -/
theorem Client.Sound.exec (h : c.Sound) (call : BridgeCall) : (call.exec env options c).Sound := by
  cases call with
  | connect =>
      cases hconnected : c.connected with
      | true =>
          rw [BridgeCall.exec, after_of_error (connect_of_connected hconnected)]
          exact h
      | false =>
          exact ((ends_connect h hconnected).mono (fun _ _ ht => ht) (fun _ _ ht => ht.1)).after
  | request args => exact ((ends_request h args).mono (fun _ _ ht => ht.1) (fun _ _ ht => ht)).after
  | close =>
      exact ((ends_close_sound h.lawful).mono (fun _ _ ht => ht.1) (fun _ _ hf => hf.elim)).after

/-- A run of public calls. -/
def runBridge (env : BridgeEnv ω) (options : ClientOptions) (c : Client ω)
    (calls : List BridgeCall) : Client ω := calls.foldl (BridgeCall.exec env options) c

/-- So does a run. -/
theorem Client.Sound.run {calls : List BridgeCall} :
    ∀ {c : Client ω}, c.Sound → (runBridge env options c calls).Sound := by
  induction calls with
  | nil => exact fun h => h
  | cons call calls ih => exact fun h => ih (h.exec call)

/-- What holds of a client between two calls, and of the next call. -/
structure Client.Safe (env : BridgeEnv ω) (options : ClientOptions) (c : Client ω) : Prop where
  agree : c.socket.isSome = c.session.isSome
  /-- A `connect` that raises on a client that is not connected leaves neither. -/
  failed : c.connected = false → ∀ e t, connect env options c = .error e t →
    t.socket = none ∧ t.session = none
  /-- A `connect` on a connected client is refused, and changes nothing. -/
  refused : c.connected = true →
    connect env options c = .error (.protocolError "bridge client is already connected") c
  lawful : Lawful c.trace
  /-- A request returns what the frame says that was received after it, which answers it. -/
  answered : ∀ args response t, request env options args c = .ok response t →
    ∃ sock session raw, c.socket = some sock ∧ c.session = some session ∧
      t.trace = c.trace ++ [.sent sock (c.nextMessage env args session), .received sock raw] ∧
      Answers (c.nextMessage env args session) raw ∧
      get "status" raw = .str response.status.value ∧
      response.requestId = c.nextRequestId env ∧ response.operationId = args.operationId ∧
      response.bridgeGeneration = session.generation

theorem Client.Sound.safe (h : c.Sound) : c.Safe env options where
  agree := h.agree
  failed := by
    intro hnot e t ht
    have hnone := ((ends_connect h hnot).raised ht).2
    simp only [Client.held, Prod.mk.injEq] at hnone
    exact hnone
  refused := connect_of_connected
  lawful := h.lawful
  answered := by
    intro args response t ht
    obtain ⟨_, sock, session, raw, hheld, hrest⟩ := (ends_request h args).returned ht
    simp only [Client.held, Prod.mk.injEq] at hheld
    exact ⟨sock, session, raw, hheld.1, hheld.2, hrest⟩

end

/-- **The bridge client is safe** after any calls of a new client, over any network. -/
theorem bridge_client_safe {ω : Type} (env : BridgeEnv ω) (options : ClientOptions) (world : ω)
    (calls : List BridgeCall) :
    (runBridge env options { world := world } calls).Safe env options :=
  (Client.Sound.run ⟨Or.inl rfl, lawful_nil⟩).safe

/-- A second `connect` raises and leaves both. -/
theorem connect_twice_keeps_both :
    ∃ e t, connect (Small.env [Small.helloAck]) Small.options
        (runBridge (Small.env [Small.helloAck]) Small.options (Small.client [Small.helloAck])
          [.connect])
          = .error e t ∧
      t.socket.isSome = true ∧ t.session.isSome = true := by
  have hconnected : (runBridge (Small.env [Small.helloAck]) Small.options
      (Small.client [Small.helloAck]) [.connect]).connected = true := by decide +kernel
  refine ⟨_, _, connect_of_connected hconnected, ?_⟩
  rwa [Client.connected, Bool.and_eq_true] at hconnected

end LiandanluNative.Bridge
