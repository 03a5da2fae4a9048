/-
# LiandanluNative.Bridge.Client — `DesktopBridgeClient` of `desktop_bridge.py`.

A client has at most one socket, and a session once the peer has answered its `hello`.  A call that
raises leaves what it had changed by then: `connect` closes the socket on its way out, `request`
does not.

`trace` is not in the source: it records for each socket what was sent on it and which frames were
received, for the statements.  What a timeout does to a call is a matter of the network; what
`settimeout` says to a number it does not take, and `sock.connect` to a path that cannot be encoded,
is not: these raise where no `try` of `connect` closes the socket (`ClientOptions.Usable`).
-/
import LiandanluNative.Bridge.Frames
import LiandanluNative.Lib.Ends

namespace LiandanluNative.Bridge

open Lib (Table)
open Lib.Proc
open PyVal (payload)

/-! ## The client

A state of its own, a record of what went over each socket, and the world behind it: methods are
computations that may raise, over all three.
-/

/-- What a client runs on; `uuid` and `unixMs` give the values of successive calls. -/
structure BridgeEnv (ω : Type) where
  json : Json
  printing : Printing
  network : Network ω
  /-- `os.getuid()`, where there is such a function. -/
  expectedUid : Option Int
  uuid : ℕ → String
  unixMs : ℕ → Int

/-- The arguments of the constructor. -/
structure ClientOptions where
  socketPath : String
  sessionToken : String
  engineInstanceId : String
  connectTimeout : Timeout := .seconds 1
  requestTimeout : Timeout := .seconds 5
  maxFrameBytes : ℕ := 1048576
  requireSameUid : Bool := true

/-- The arguments with which `connect` raises nothing but what it closes its socket for. -/
structure ClientOptions.Usable (options : ClientOptions) : Prop where
  connectTimeout : settimeout options.connectTimeout = .ok ()
  requestTimeout : settimeout options.requestTimeout = .ok ()
  socketPath : fsencode options.socketPath = .ok ()

/-- A message that was sent, or a frame that was received. -/
inductive Traffic where
  | sent (sock : ℕ) (message : List (PyKey × PyVal))
  | received (sock : ℕ) (raw : List (PyKey × PyVal))

structure Client (ω : Type) where
  world : ω
  socket : Option ℕ := none
  session : Option BridgeSession := none
  sockets : ℕ := 0
  uuids : ℕ := 0
  clockReads : ℕ := 0
  trace : List Traffic := []

abbrev ClientM (ω α : Type) := EStateM BridgeExc (Client ω) α

section

variable {ω α : Type}

/-- `connected` -/
def Client.connected (c : Client ω) : Bool := c.socket.isSome && c.session.isSome

/-- Calls on sockets and the codec change what is behind them only. -/
def onWorld (m : EStateM BridgeExc ω α) : ClientM ω α := fun c =>
  match m c.world with
  | .ok a world => .ok a { c with world := world }
  | .error e world => .error e { c with world := world }

def ofExcept (x : Except BridgeExc α) : ClientM ω α :=
  match x with
  | .ok a => pure a
  | .error e => throw e

def record (traffic : Traffic) : ClientM ω Unit :=
  modify fun c => { c with trace := c.trace ++ [traffic] }

/-! ## The peer's user -/

/-- `peer_uid` -/
def peerUid (network : Network ω) (sock : ℕ) : EStateM BridgeExc ω (Option Int) :=
  match network.getpeereid with
  | some getter => attempt (getter sock)
  | none => do
      let uid ← match network.libcGetpeereid with
        | some libc => attempt (libc sock)
        | none => pure none
      match uid with
      | some (some uid) => return some uid
      | _ =>
          match network.soPeercred with
          | some peercred => attempt (peercred sock)
          | none => return none

/-- `uid is not None and expected_uid is not None and uid == expected_uid` -/
def uidVerified (expectedUid uid : Option Int) : Bool := uid.isSome && decide (uid = expectedUid)

/-- `str` of a user that may be `None`. -/
def uidText : Option Int → String
  | none => "None"
  | some uid => toString uid

end

/-! ## The methods -/

section

variable {ω : Type} (env : BridgeEnv ω) (options : ClientOptions)

/-- `close` -/
def close : ClientM ω Unit := do
  let c ← get
  set { c with socket := none, session := none }
  match c.socket with
  | none => return ()
  | some sock => do
      -- `except OSError: pass`
      let _ ← onWorld (attempt (env.network.close sock))
      return ()

/-- `_send` -/
def send (message : List (PyKey × PyVal)) : ClientM ω Unit := do
  let c ← get
  match c.socket with
  | none => throw (.unavailable "desktop bridge is not connected")
  | some sock => do
      let frame ← ofExcept (FrameCodec.encode env.json options.maxFrameBytes (.dict message))
      record (.sent sock message)
      onWorld (raising (fun _ => .transportError "socket send failed")
        (env.network.sendall sock frame))

/-- `_recv` -/
def receive : ClientM ω (List (PyKey × PyVal)) := do
  let c ← get
  match c.socket with
  | none => throw (.unavailable "desktop bridge is not connected")
  | some sock => do
      let raw ← onWorld (FrameCodec.recv env.json options.maxFrameBytes env.network sock)
      record (.received sock raw)
      return raw

/-- A message is sent, and the next frame received. -/
def exchange (message : List (PyKey × PyVal)) : ClientM ω (List (PyKey × PyVal)) := do
  send env options message
  receive env options

/-- The message of `connect`. -/
def helloMessage : List (PyKey × PyVal) :=
  payload [("type", .str "hello"), ("protocol_version", .int protocolVersion),
    ("engine_instance_id", .str options.engineInstanceId),
    ("session_token", .str options.sessionToken)]

/-- `sock.close()` outside of any `try`. -/
def closeSocket (sock : ℕ) : ClientM ω Unit :=
  onWorld (raising OsError.uncaught (env.network.close sock))

/-- `sock.connect(path)` in a `try` for its `OSError`s, `none` where it has one. -/
def connectSocket (sock : ℕ) (path : String) : ClientM ω (Option Unit) := do
  ofExcept (fsencode path)
  onWorld (attempt (env.network.connect sock path))

/-- The part of `connect` before `hello`: a socket that is connected, to the user that is asked for.
Only then the client has it. -/
def dial : ClientM ω (Option Int × Bool) := do
  let c ← get
  let sock := c.sockets
  onWorld (raising OsError.uncaught env.network.socket)
  modify fun c => { c with sockets := sock + 1 }
  -- outside of the `try`, as `settimeout` below: what is raised here leaves the socket open
  ofExcept (settimeout options.connectTimeout)
  let connected ← connectSocket env sock options.socketPath
  match connected with
  | none => do
      closeSocket env sock
      throw (.unavailable ("cannot connect to desktop bridge: " ++ options.socketPath))
  | some _ => do
      let uid ← onWorld (peerUid env.network sock)
      let verified := uidVerified env.expectedUid uid
      if options.requireSameUid && !verified then do
        closeSocket env sock
        if uid = none then
          throw (.protocolError "peer UID could not be verified")
        else
          throw (.protocolError ("desktop bridge peer UID mismatch: expected "
            ++ uidText env.expectedUid ++ ", got " ++ uidText uid))
      else do
        ofExcept (settimeout options.requestTimeout)
        modify fun c => { c with socket := some sock }
        return (uid, verified)

/-- The part of `connect` inside its `try`: the `hello` is sent, and what the peer answers is
parsed. -/
def handshake (uid : Option Int) (verified : Bool) : ClientM ω BridgeSession := do
  let ack ← exchange env options (helloMessage options)
  let session ← ofExcept (parseHelloAck env.printing ack uid verified)
  modify fun c => { c with session := some session }
  return session

/-- `connect` -/
def connect : ClientM ω BridgeSession := do
  let c ← get
  if c.connected then
    throw (.protocolError "bridge client is already connected")
  else do
    let (uid, verified) ← dial env options
    handling (handshake env options uid verified) (fun e => do close env; throw e)

/-- The arguments of `request`; `arguments` has `{}` for `None`. -/
structure RequestArgs where
  operationId : String
  method : String
  locatorToken : Option String := none
  arguments : List (PyKey × PyVal) := []
  deadlineAfterMs : Int := 5000

/-- The checks of `request` before it sends anything. -/
def Client.checkRequest (c : Client ω) (args : RequestArgs) : Except BridgeExc BridgeSession :=
  match c.socket, c.session with
  | some _, some session =>
      if args.operationId = "" then
        .error (.builtin .valueError "operation_id is required")
      else if !isMethod args.method then
        .error (.builtin .valueError
          ("invalid bridge method: " ++ env.printing.repr (.str args.method)))
      else if args.deadlineAfterMs ≤ 0 then
        .error (.builtin .valueError "deadline_after_ms must be positive")
      else
        match session.capabilities.get? args.method with
        | none =>
            .error (.protocolError ("bridge did not advertise capability: " ++ args.method))
        | some capability =>
            match capability.state with
            | .permissionRequired =>
                .error (.remoteError "permission_required"
                  (args.method ++ " requires a macOS permission"))
            | .unavailable =>
                .error (.remoteError "capability_unavailable" (args.method ++ " is unavailable"))
            | .available => .ok session
  | _, _ => .error (.unavailable "desktop bridge is not connected")

/-- The message of `request`. -/
def requestMessage (args : RequestArgs) (generation : Int) (requestId : String)
    (sentAtUnixMs : Int) : List (PyKey × PyVal) :=
  payload [("type", .str "request"), ("protocol_version", .int protocolVersion),
    ("request_id", .str requestId), ("operation_id", .str args.operationId),
    ("method", .str args.method), ("expected_bridge_generation", .int generation),
    ("deadline_after_ms", .int args.deadlineAfterMs), ("sent_at_unix_ms", .int sentAtUnixMs),
    ("locator_token", (args.locatorToken.map PyVal.str).getD .none),
    ("arguments", .dict args.arguments)]

/-- The id that the next request gets. -/
def Client.nextRequestId (c : Client ω) : String := "req_" ++ env.uuid c.uuids

/-- The message that the next request sends. -/
def Client.nextMessage (c : Client ω) (args : RequestArgs) (session : BridgeSession) :
    List (PyKey × PyVal) :=
  requestMessage args session.generation (c.nextRequestId env) (env.unixMs c.clockReads)

/-- The client once an id and the time were read. -/
def Client.stamped (c : Client ω) : Client ω :=
  { c with uuids := c.uuids + 1, clockReads := c.clockReads + 1 }

/-- `request` -/
def request (args : RequestArgs) : ClientM ω BridgeResponse := do
  let c ← get
  let session ← ofExcept (c.checkRequest env args)
  set c.stamped
  let raw ← exchange env options (c.nextMessage env args session)
  ofExcept (parseResponse env.printing session.generation raw (c.nextRequestId env)
    args.operationId)

/-- A public call. -/
inductive BridgeCall where
  | connect
  | request (args : RequestArgs)
  | close

/-- The client after a call, whether it returned or raised. -/
def BridgeCall.exec (c : Client ω) : BridgeCall → Client ω
  | .connect => after (Bridge.connect env options) c
  | .request args => after (Bridge.request env options args) c
  | .close => after (Bridge.close env) c

end

/-! ## What each method does

One lemma for each method, with what the client holds afterwards and what was added to the trace,
whether the method returns or raises.  The network and the codec are only known by what they were
called with.
-/

section

variable {ω α : Type} {env : BridgeEnv ω} {options : ClientOptions} {c : Client ω}

/-- The socket and the session: what a client has of its connection. -/
def Client.held (c : Client ω) : Option ℕ × Option BridgeSession := (c.socket, c.session)

/-- Whether a client is connected is seen at what it holds. -/
theorem Client.connected_of_same {d : Client ω} (h : d.held = c.held) :
    d.connected = c.connected :=
  congrArg (fun held : Option ℕ × Option BridgeSession => held.1.isSome && held.2.isSome) h

/-- It is connected with a socket and a session. -/
theorem Client.connected_of_both {sock : ℕ} {session : BridgeSession}
    (h : c.held = (some sock, some session)) : c.connected = true :=
  congrArg (fun held : Option ℕ × Option BridgeSession => held.1.isSome && held.2.isSome) h

/-- Without a socket it is not. -/
theorem Client.connected_of_neither (h : c.held = (none, none)) : c.connected = false :=
  congrArg (fun held : Option ℕ × Option BridgeSession => held.1.isSome && held.2.isSome) h

/-- A call on what is behind a client changes nothing of the client. -/
theorem ends_onWorld {m : EStateM BridgeExc ω α} {Q : α → Client ω → Prop}
    {E : BridgeExc → Client ω → Prop}
    (returned : ∀ a w, m c.world = .ok a w → Q a { c with world := w })
    (raised : ∀ e w, m c.world = .error e w → E e { c with world := w }) :
    Ends Q E (onWorld m) c := by
  cases hrun : m c.world with
  | ok a w => exact Ends.of_ok (by simp only [onWorld, hrun]) (returned a w hrun)
  | error e w => exact Ends.of_error (by simp only [onWorld, hrun]) (raised e w hrun)

/-- A parser changes nothing at all. -/
theorem ends_ofExcept {x : Except BridgeExc α} {Q : α → Client ω → Prop}
    {E : BridgeExc → Client ω → Prop} (returned : ∀ a, x = .ok a → Q a c)
    (raised : ∀ e, x = .error e → E e c) : Ends Q E (ofExcept x) c := by
  cases x with
  | ok a => exact Ends.pure (returned a rfl)
  | error e => exact Ends.throw (raised e rfl)

/-- **Closing** always returns, and leaves neither. -/
theorem ends_close : Ends (fun _ t => t.held = (none, none) ∧ t.trace = c.trace)
    (fun _ _ => False) (close env) c := by
  refine Ends.bind (Ends.get (Ends.bind (Ends.of_ok rfl ?_)))
  cases c.socket with
  | none => exact Ends.pure ⟨rfl, rfl⟩
  | some sock =>
      refine Ends.bind (ends_onWorld (fun _ w _ => Ends.pure ⟨rfl, rfl⟩) (fun e w hrun => ?_))
      unfold attempt at hrun
      split at hrun
      · cases hrun
      · cases hrun

/-- **Sending** is noted for the socket, or nothing was sent. -/
theorem ends_send {message : List (PyKey × PyVal)} {sock : ℕ} (hsock : c.socket = some sock) :
    Ends (fun _ t => t.held = c.held ∧ t.trace = c.trace ++ [.sent sock message])
      (fun _ t => t.held = c.held ∧
        (t.trace = c.trace ∨ t.trace = c.trace ++ [.sent sock message]))
      (send env options message) c := by
  obtain ⟨world, socket, session, sockets, uuids, clockReads, trace⟩ := c
  obtain rfl : socket = some sock := hsock
  refine Ends.bind (Ends.get (Ends.bind (ends_ofExcept (fun frame _ => ?_) (fun e _ => ?_))))
  · refine Ends.bind (Ends.modifying (ends_onWorld (fun _ w _ => ⟨rfl, rfl⟩) (fun e w _ => ?_)))
    exact ⟨rfl, Or.inr rfl⟩
  · exact ⟨rfl, Or.inl rfl⟩

/-- **Receiving** notes the frame that came, or raises. -/
theorem ends_receive {sock : ℕ} (hsock : c.socket = some sock) :
    Ends (fun raw t => t.held = c.held ∧ t.trace = c.trace ++ [.received sock raw])
      (fun _ t => t.held = c.held ∧ t.trace = c.trace) (receive env options) c := by
  obtain ⟨world, socket, session, sockets, uuids, clockReads, trace⟩ := c
  obtain rfl : socket = some sock := hsock
  refine Ends.bind (Ends.get (Ends.bind (ends_onWorld (fun raw w _ => ?_)
    (fun e w _ => ⟨rfl, rfl⟩))))
  exact Ends.bind (Ends.modifying (Ends.pure ⟨rfl, rfl⟩))

/-- A message that is not encoded is not sent. -/
theorem send_unencoded {message : List (PyKey × PyVal)} {sock : ℕ} (hsock : c.socket = some sock)
    {e : BridgeExc}
    (hencode : FrameCodec.encode env.json options.maxFrameBytes (.dict message) = .error e) :
    send env options message c = .error e c := by
  obtain ⟨world, socket, session, sockets, uuids, clockReads, trace⟩ := c
  obtain rfl : socket = some sock := hsock
  simp only [send, bind, EStateM.bind, hencode]
  rfl

theorem receive_of_ok {sock : ℕ} (hsock : c.socket = some sock) {raw : List (PyKey × PyVal)} {w : ω}
    (hrun : FrameCodec.recv env.json options.maxFrameBytes env.network sock c.world = .ok raw w) :
    receive env options c
      = .ok raw { c with world := w, trace := c.trace ++ [.received sock raw] } := by
  obtain ⟨world, socket, session, sockets, uuids, clockReads, trace⟩ := c
  obtain rfl : socket = some sock := hsock
  show (onWorld (FrameCodec.recv env.json options.maxFrameBytes env.network sock) >>= _) _ = _
  refine bind_eq_ok.mpr ⟨raw, ⟨w, some sock, session, sockets, uuids, clockReads, trace⟩, ?_, rfl⟩
  simp only [onWorld, hrun]

theorem receive_of_error {sock : ℕ} (hsock : c.socket = some sock) {e : BridgeExc} {w : ω}
    (hrun : FrameCodec.recv env.json options.maxFrameBytes env.network sock c.world = .error e w) :
    receive env options c = .error e { c with world := w } := by
  obtain ⟨world, socket, session, sockets, uuids, clockReads, trace⟩ := c
  obtain rfl : socket = some sock := hsock
  show (onWorld (FrameCodec.recv env.json options.maxFrameBytes env.network sock) >>= _) _ = _
  refine after_bind_error ?_
  simp only [onWorld, hrun]

/-- **An exchange** sends the message and receives one frame, or raises before or after it sent. -/
theorem ends_exchange {message : List (PyKey × PyVal)} {sock : ℕ} (hsock : c.socket = some sock) :
    Ends
      (fun raw t => t.held = c.held ∧
        t.trace = c.trace ++ [.sent sock message, .received sock raw])
      (fun _ t => t.held = c.held ∧
        (t.trace = c.trace ∨ t.trace = c.trace ++ [.sent sock message]))
      (exchange env options message) c := by
  refine Ends.bind ((ends_send hsock).mono (fun _ t ht => ?_) (fun _ _ ht => ht))
  obtain ⟨hheld, htrace⟩ := ht
  have hsock' : t.socket = some sock := (congrArg Prod.fst hheld).trans hsock
  refine (ends_receive hsock').mono (fun raw u hu => ⟨hu.1.trans hheld, ?_⟩) (fun _ u hu => ?_)
  · rw [hu.2, htrace, List.append_assoc]
    rfl
  · exact ⟨hu.1.trans hheld, Or.inr (hu.2.trans htrace)⟩

/-- Connecting a socket is a matter of what is behind it. -/
theorem ends_connectSocket {sock : ℕ} {path : String} {Q : Option Unit → Client ω → Prop}
    {E : BridgeExc → Client ω → Prop} (returned : ∀ answer w, Q answer { c with world := w })
    (raised : ∀ e w, E e { c with world := w }) : Ends Q E (connectSocket env sock path) c :=
  Ends.bind (ends_ofExcept
    (fun _ _ => ends_onWorld (fun answer w _ => returned answer w) (fun e w _ => raised e w))
    (fun e _ => raised e c.world))

/-- **Dialling** gives the client a new socket, or raises and does not. -/
theorem ends_dial : Ends
    (fun _ t => t.held = (some c.sockets, c.session) ∧ t.trace = c.trace)
    (fun _ t => t.held = c.held ∧ t.trace = c.trace) (dial env options) c := by
  unfold dial closeSocket
  refine Ends.bind (Ends.get (Ends.bind (ends_onWorld (fun _ w _ => ?_) (fun e w _ => ⟨rfl, rfl⟩))))
  refine Ends.bind (Ends.modifying (Ends.bind (ends_ofExcept (fun _ _ => ?_)
    (fun e _ => ⟨rfl, rfl⟩))))
  refine Ends.bind (ends_connectSocket (fun answer w => ?_) (fun e w => ⟨rfl, rfl⟩))
  cases answer with
  | none =>
      refine Ends.bind (ends_onWorld (fun _ w _ => ?_) (fun e w _ => ⟨rfl, rfl⟩))
      exact Ends.throw ⟨rfl, rfl⟩
  | some _ =>
      refine Ends.bind (ends_onWorld (fun uid w _ => ?_) (fun e w _ => ⟨rfl, rfl⟩))
      dsimp only
      split
      · refine Ends.bind (ends_onWorld (fun _ w _ => ?_) (fun e w _ => ⟨rfl, rfl⟩))
        split
        · exact Ends.throw ⟨rfl, rfl⟩
        · exact Ends.throw ⟨rfl, rfl⟩
      · exact Ends.bind (ends_ofExcept
          (fun _ _ => Ends.bind (Ends.modifying (Ends.pure ⟨rfl, rfl⟩))) (fun e _ => ⟨rfl, rfl⟩))

/-- **The handshake** sets the session to what the acknowledgement grants, or raises. -/
theorem ends_handshake {uid : Option Int} {verified : Bool} {sock : ℕ}
    (hsock : c.socket = some sock) :
    Ends
      (fun session t => t.held = (some sock, some session) ∧ ∃ ack,
        parseHelloAck env.printing ack uid verified = .ok session ∧
        t.trace = c.trace ++ [.sent sock (helloMessage options), .received sock ack])
      (fun _ t => ∃ traffic, t.trace = c.trace ++ traffic ∧
        (traffic = [] ∨ traffic = [.sent sock (helloMessage options)] ∨
          ∃ ack, traffic = [.sent sock (helloMessage options), .received sock ack]))
      (handshake env options uid verified) c := by
  unfold handshake
  refine Ends.bind ((ends_exchange hsock).mono (fun ack t ht => ?_) (fun e t ht => ?_))
  · obtain ⟨hheld, htrace⟩ := ht
    refine Ends.bind (ends_ofExcept (fun session hparse => ?_) (fun e _ => ?_))
    · refine Ends.bind (Ends.modifying (Ends.pure ⟨?_, ack, hparse, htrace⟩))
      have hsocket : t.socket = c.socket := congrArg Prod.fst hheld
      simp only [Client.held, hsocket, hsock]
    · exact ⟨_, htrace, Or.inr (Or.inr ⟨ack, rfl⟩)⟩
  · rcases ht.2 with htrace | htrace
    · exact ⟨[], by rw [htrace, List.append_nil], Or.inl rfl⟩
    · exact ⟨_, htrace, Or.inr (Or.inl rfl)⟩

/-- A request is refused by its checks, or it is an exchange and a check of what came back.  It does
not close the socket, whatever it raises. -/
theorem request_eq {args : RequestArgs} : request env options args c =
    (ofExcept (c.checkRequest env args) >>= fun session => set c.stamped >>= fun _ =>
      exchange env options (c.nextMessage env args session) >>= fun raw =>
        ofExcept (parseResponse env.printing session.generation raw (c.nextRequestId env)
          args.operationId) : ClientM ω BridgeResponse) c := rfl

theorem request_of_admitted {args : RequestArgs} {session : BridgeSession}
    (hchecked : c.checkRequest env args = .ok session) :
    request env options args c
      = (exchange env options (c.nextMessage env args session) >>= fun raw =>
          ofExcept (parseResponse env.printing session.generation raw (c.nextRequestId env)
            args.operationId)) c.stamped := by
  rw [request_eq, hchecked]
  rfl

/-- Connecting a client that is not connected is dialling and a handshake. -/
theorem connect_of_unconnected (hnot : c.connected = false) :
    connect env options c
      = (dial env options >>= fun dialled =>
          handling (handshake env options dialled.1 dialled.2)
            (fun e => close env >>= fun _ => throw e)) c := by
  show (if c.connected = true then _ else _ : ClientM ω BridgeSession) c = _
  rw [if_neg (Bool.eq_false_iff.mp hnot)]

end

end LiandanluNative.Bridge
