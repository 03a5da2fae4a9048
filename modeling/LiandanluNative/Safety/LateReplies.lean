/-
# LiandanluNative.Safety.LateReplies — what a timed-out request leaves behind.

A peer answers every frame once and correctly, but a receive may time out at any byte of the reply.
`connect` closes the connection when it fails.  `request` does not: what is late stays on the wire
and is taken for the beginning of the next reply.  In runs over such a link, requests leave nothing
behind exactly as long as each reply arrives before a receive times out (`unpoisoned_iff_timely`).

A link delivers bytes in pieces of any sizes and may stop before any of them.  What a call makes of
it is decided by how many bytes have come by the time a receive gives up, so a call is described by
that number (`LinkStep`), and every other detail of the pieces drops out.
-/
import LiandanluNative.Bridge.Links
import LiandanluNative.Safety.BridgeClient

namespace LiandanluNative.Bridge

open Lib.Proc
open PyVal (get payload)

/-! ## Runs over a link

What a correct peer sends, and when: each request is answered by one frame, and some of these arrive
late.
-/

/-- A call, and what the link does during it: how many bytes of the wire arrive before a receive
times out, and in which sizes. -/
structure LinkStep where
  call : BridgeCall
  inTime : ℕ
  sizes : List ℕ := []

section

variable (env : BridgeEnv Link) (options : ClientOptions)

/-- Where the call of a step begins. -/
def LinkStep.start (c : Client Link) (step : LinkStep) : Client Link :=
  { c with world := { c.world with inTime := step.inTime, sizes := step.sizes } }

/-- The client after the call of a step. -/
def LinkStep.exec (c : Client Link) (step : LinkStep) : Client Link :=
  step.call.exec env options (step.start c)

/-- A condition on a call and the client it is made on, at every call of a run. -/
def AlongLink (P : Client Link → BridgeCall → Prop) : Client Link → List LinkStep → Prop
  | _, [] => True
  | c, step :: steps => P (step.start c) step.call ∧ AlongLink P (step.exec env options c) steps

/-- The message and the frame that a request sends, if its checks let it. -/
def Client.requestFrame (c : Client Link) (args : RequestArgs) :
    Except BridgeExc (List (PyKey × PyVal) × List UInt8) := do
  let session ← c.checkRequest env args
  let frame ← FrameCodec.encode env.json options.maxFrameBytes
    (.dict (c.nextMessage env args session))
  return (c.nextMessage env args session, frame)

/-- The bytes are the frame of an object, which JSON gives back. -/
def Framed (raw : List (PyKey × PyVal)) (bytes : List UInt8) : Prop :=
  FrameCodec.encode env.json options.maxFrameBytes (.dict raw) = .ok bytes ∧
    (env.json.dumps (.dict raw)).bind env.json.loads = some (.dict raw)

/-- A response to the message with fields of the right kinds, under its request id and its session.
-/
structure CorrectReply (message raw : List (PyKey × PyVal)) : Prop where
  answers : Answers message raw
  result : ∃ result, (get "result" raw).orDefault (.dict []) = .dict result
  evidence : ∃ items evidence, (get "evidence" raw).orDefault (.list []) = .list items ∧
    items.mapM asObject? = some evidence
  error : get "error" raw = .none ∨ ∃ error, get "error" raw = .dict error

/-- The peer answers the frame of the call, if it sends one, with one frame; and a request
correctly. -/
def AnswersOnce (peer : Peer) (c : Client Link) : BridgeCall → Prop
  | .connect => ∀ frame,
      FrameCodec.encode env.json options.maxFrameBytes (.dict (helloMessage options)) = .ok frame →
      ∃ raw, Framed env options raw (peer.reply c.world.answered frame)
  | .request args => ∀ message frame, c.requestFrame env options args = .ok (message, frame) →
      ∃ raw, Framed env options raw (peer.reply c.world.answered frame) ∧ CorrectReply message raw
  | .close => True

/-- If the call is a request that raises after its frame was sent, the client is not connected
afterwards, or nothing is left on the wire.  A request that raises before it sends leaves what it
found. -/
def Unpoisoned (c : Client Link) : BridgeCall → Prop
  | .request args => ∀ sent, c.requestFrame env options args = .ok sent →
      ∀ e t, request env options args c = .error e t → t.connected = false ∨ t.world.wire = []
  | _ => True

/-- If the call is a request that sends its frame, the whole reply arrives before a receive times
out: a condition on the link and on what the peer answers. -/
def Timely (peer : Peer) (c : Client Link) : BridgeCall → Prop
  | .request args => ∀ message frame, c.requestFrame env options args = .ok (message, frame) →
      (peer.reply c.world.answered frame).length ≤ c.world.inTime
  | _ => True

end

/-! ## Requests

A request that sends nothing leaves the wire alone; one that is sent comes to its reply, if that is
in time.
-/

section

variable {env : BridgeEnv Link} {options : ClientOptions} {peer : Peer} {c : Client Link}
  {args : RequestArgs}

/-- The statuses a response may have are those of the protocol. -/
theorem memberOf_status (status : ResponseStatus) :
    memberOf ResponseStatus.value ResponseStatus.all (.str status.value) = .ok (some status) := by
  cases status <;> rfl

/-- A correct reply is accepted. -/
theorem parseResponse_of_correct {message raw : List (PyKey × PyVal)} {generation : Int}
    {requestId operationId : String} (h : CorrectReply message raw)
    (hrequest : get "request_id" message = .str requestId)
    (hoperation : get "operation_id" message = .str operationId)
    (hgeneration : get "expected_bridge_generation" message = .int generation)
    (printing : Printing) :
    ∃ response, parseResponse printing generation raw requestId operationId = .ok response := by
  obtain ⟨⟨htype, hrequest', hoperation', ⟨n, hn, hequals⟩, ⟨status, _, hstatus⟩⟩,
    ⟨result, hresult⟩, ⟨items, evidence, hitems, hevidence⟩, herror⟩ := h
  cases hgeneration.symm.trans hn
  rw [hrequest] at hrequest'
  rw [hoperation] at hoperation'
  unfold parseResponse
  rw [PyVal.isStr_iff.mpr htype, PyVal.isStr_iff.mpr hrequest', PyVal.isStr_iff.mpr hoperation',
    hequals, hstatus]
  simp only [Bool.not_true, Bool.false_eq_true, if_false, memberOf_status, hresult, hitems,
    hevidence, bind, Except.bind]
  rcases herror with hnone | ⟨error, hsome⟩
  · rw [hnone]
    exact ⟨_, rfl⟩
  · rw [hsome]
    exact ⟨_, rfl⟩

/-- A request that passes its checks sends this frame, and counts its id. -/
theorem Client.requestFrame_eq_ok {message : List (PyKey × PyVal)} {frame : List UInt8} :
    c.requestFrame env options args = .ok (message, frame) ↔
      ∃ session, c.checkRequest env args = .ok session ∧ message = c.nextMessage env args session ∧
        FrameCodec.encode env.json options.maxFrameBytes (.dict message) = .ok frame := by
  unfold Client.requestFrame
  cases hchecked : c.checkRequest env args with
  | error e => simp [bind, Except.bind]
  | ok session =>
      cases hencode : FrameCodec.encode env.json options.maxFrameBytes
          (.dict (c.nextMessage env args session)) with
      | error e =>
          simp only [bind, Except.bind, hencode, Except.ok.injEq, reduceCtorEq, false_iff]
          rintro ⟨_, rfl, rfl, hframe⟩
          cases hencode.symm.trans hframe
      | ok bytes =>
          simp only [bind, Except.bind, hencode, pure, Except.pure, Except.ok.injEq, Prod.mk.injEq]
          constructor
          · rintro ⟨rfl, rfl⟩
            exact ⟨session, rfl, rfl, hencode⟩
          · rintro ⟨_, rfl, rfl, hframe⟩
            cases hencode.symm.trans hframe
            exact ⟨rfl, rfl⟩

/-- **A request that sends nothing** raises, and leaves the wire as it is. -/
theorem request_unsent {e : BridgeExc} (h : c.requestFrame env options args = .error e) :
    ∃ e t, request env options args c = .error e t ∧ t.held = c.held ∧ t.world = c.world := by
  cases hchecked : c.checkRequest env args with
  | error e =>
      refine ⟨e, c, ?_, rfl, rfl⟩
      rw [request_eq, hchecked]
      rfl
  | ok session =>
      obtain ⟨⟨sock, hheld⟩, _⟩ := Client.checkRequest_ok hchecked
      have hsock : c.stamped.socket = some sock := congrArg Prod.fst hheld
      have hencode : FrameCodec.encode env.json options.maxFrameBytes
          (.dict (c.nextMessage env args session)) = .error e := by
        cases hcases : FrameCodec.encode env.json options.maxFrameBytes
            (.dict (c.nextMessage env args session)) with
        | error e' =>
            simp only [Client.requestFrame, hchecked, bind, Except.bind, hcases] at h
            exact congrArg _ (Except.error.inj h)
        | ok frame =>
            simp only [Client.requestFrame, hchecked, bind, Except.bind, hcases] at h
            cases h
      refine ⟨e, c.stamped, ?_, rfl, rfl⟩
      rw [request_of_admitted hchecked]
      exact after_bind_error (after_bind_error (send_unencoded hsock hencode))

/-- **A request whose frame is sent and correctly answered** returns and leaves an empty wire if the
reply is in time; else it raises, stays connected and leaves the rest of the reply. -/
theorem request_sent (henv : env.network = peer.network) (hwire : c.world.wire = [])
    {message raw : List (PyKey × PyVal)} {frame : List UInt8}
    (hsent : c.requestFrame env options args = .ok (message, frame))
    (hframed : Framed env options raw (peer.reply c.world.answered frame))
    (hcorrect : CorrectReply message raw) :
    ((peer.reply c.world.answered frame).length ≤ c.world.inTime →
      ∃ response t, request env options args c = .ok response t ∧ t.world.wire = []) ∧
    (c.world.inTime < (peer.reply c.world.answered frame).length →
      ∃ e t, request env options args c = .error e t ∧ t.connected = true ∧
        t.world.wire ≠ []) := by
  obtain ⟨session, hchecked, rfl, hencode⟩ := Client.requestFrame_eq_ok.mp hsent
  obtain ⟨⟨sock, hheld⟩, _⟩ := Client.checkRequest_ok hchecked
  have hsock : c.stamped.socket = some sock := congrArg Prod.fst hheld
  have hexchange := exchange_link (c := c.stamped) henv hsock hwire hencode hframed.1 hframed.2
  rw [request_of_admitted hchecked]
  refine ⟨fun hinTime => ?_, fun hlate => ?_⟩
  · obtain ⟨t, hrun, hnone⟩ := hexchange.1 hinTime
    have hrequest : get "request_id" (c.nextMessage env args session)
        = .str (c.nextRequestId env) := rfl
    have hoperation : get "operation_id" (c.nextMessage env args session)
        = .str args.operationId := rfl
    obtain ⟨response, hparse⟩ :=
      parseResponse_of_correct hcorrect hrequest hoperation rfl env.printing
    refine ⟨response, t, bind_eq_ok.mpr ⟨raw, t, hrun, ?_⟩, hnone⟩
    rw [hparse]
    rfl
  · -- nothing between the exchange and the caller closes the socket
    obtain ⟨e, t, hrun, hsome⟩ := hexchange.2 hlate
    refine ⟨e, t, after_bind_error hrun, ?_, hsome⟩
    exact Client.connected_of_both (((ends_exchange hsock).raised hrun).1.trans hheld)

/-! ## Runs -/

/-- **A connect that returns** has read the one frame that the peer sent. -/
theorem ends_connect_link (henv : env.network = peer.network)
    (honce : AnswersOnce env options peer c .connect) :
    Ends (fun _ t => t.world.wire = []) (fun _ _ => True) (connect env options) c := by
  refine Ends.bind (Ends.get ?_)
  split
  · exact Ends.throw trivial
  refine Ends.bind ((ends_dial.and (dial_link henv)).mono (fun dialled t ht => ?_)
    (fun _ _ _ => trivial))
  obtain ⟨⟨hheld, _⟩, hwire, hinTime, hanswered⟩ := ht
  have hsock : t.socket = some c.sockets := congrArg Prod.fst hheld
  -- a handshake that fails is closed and raised again, so it does not return
  have hfailed : ∀ e t, Ends (fun _ (t : Client Link) => t.world.wire = []) (fun _ _ => True)
      (close env >>= fun _ => (throw e : ClientM Link BridgeSession)) t := fun e t =>
    Ends.bind (ends_close.mono (fun _ _ _ => Ends.throw trivial) (fun _ _ hf => hf.elim))
  refine Ends.handling ?_
  unfold handshake
  cases hencode : FrameCodec.encode env.json options.maxFrameBytes
      (.dict (helloMessage options)) with
  | error e =>
      have hunsent := send_unencoded hsock hencode
      exact Ends.bind (Ends.of_error (after_bind_error hunsent) (hfailed _ _))
  | ok frame =>
      obtain ⟨raw, hframed⟩ := honce frame hencode
      rw [← hanswered] at hframed
      have hexchange := exchange_link henv hsock hwire hencode hframed.1 hframed.2
      rcases Nat.lt_or_ge t.world.inTime (peer.reply t.world.answered frame).length with
        hlt | hle
      · obtain ⟨e, u, hrun, _⟩ := hexchange.2 hlt
        exact Ends.bind (Ends.of_error hrun (hfailed _ _))
      · obtain ⟨u, hrun, hnone⟩ := hexchange.1 hle
        refine Ends.bind (Ends.of_ok hrun (Ends.bind (ends_ofExcept (fun session _ => ?_)
          (fun e _ => hfailed _ _))))
        exact Ends.bind (Ends.modifying (Ends.pure hnone))

/-- The client is sound, and while it is connected nothing is on the wire, so that what it reads
next is the answer to what it sends next. -/
structure Client.Clear (c : Client Link) : Prop where
  sound : c.Sound
  wire : c.connected = true → c.world.wire = []

/-- A new client is clear, … -/
theorem Client.Clear.new : Client.Clear { world := {} } where
  sound := ⟨Or.inl rfl, lawful_nil⟩
  wire := fun _ => rfl

/-- … and stays so when a call begins. -/
theorem Client.Clear.start (h : c.Clear) (step : LinkStep) : (step.start c).Clear where
  sound := ⟨h.sound.held, h.sound.lawful⟩
  wire := h.wire

/-- An admitted request is one of a connected client. -/
theorem Client.connected_of_requestFrame {sent : List (PyKey × PyVal) × List UInt8}
    (h : c.requestFrame env options args = .ok sent) : c.connected = true := by
  obtain ⟨session, hchecked, _⟩ := Client.requestFrame_eq_ok.mp h
  obtain ⟨⟨sock, hheld⟩, _⟩ := Client.checkRequest_ok hchecked
  exact Client.connected_of_both hheld

/-- A connect leaves an unconnected client, or an empty wire. -/
theorem Client.Clear.wire_connect (h : c.Clear) (henv : env.network = peer.network)
    (honce : AnswersOnce env options peer c .connect)
    (hconnected : (after (connect env options) c).connected = true) :
    (after (connect env options) c).world.wire = [] := by
  cases hrun : connect env options c with
  | ok session t =>
      rw [after_of_ok hrun]
      exact (ends_connect_link henv honce).returned hrun
  | error e t =>
      rw [after_of_error hrun] at hconnected ⊢
      cases hbefore : c.connected with
      | true =>
          -- refused, and nothing changed
          cases (connect_of_connected hbefore).symm.trans hrun
          exact h.wire hbefore
      | false =>
          have hheld := ((ends_connect h.sound hbefore).raised hrun).2
          cases (Client.connected_of_neither hheld).symm.trans hconnected

/-- A request whose reply is in time leaves an empty wire, and so does one that sends nothing. -/
theorem Client.Clear.wire_request (h : c.Clear) (henv : env.network = peer.network)
    (honce : AnswersOnce env options peer c (.request args))
    (htimely : Timely env options peer c (.request args))
    (hconnected : (after (request env options args) c).connected = true) :
    (after (request env options args) c).world.wire = [] := by
  cases hsent : c.requestFrame env options args with
  | error e =>
      obtain ⟨e, t, hrun, hheld, hworld⟩ := request_unsent hsent
      rw [after_of_error hrun] at hconnected ⊢
      rw [hworld]
      exact h.wire ((Client.connected_of_same hheld).symm.trans hconnected)
  | ok sent =>
      obtain ⟨message, frame⟩ := sent
      -- only a connected client sends, so the wire was empty before
      obtain ⟨raw, hframed, hcorrect⟩ := honce message frame hsent
      have hwire := h.wire (Client.connected_of_requestFrame hsent)
      obtain ⟨response, t, hrun, hnone⟩ :=
        (request_sent henv hwire hsent hframed hcorrect).1 (htimely message frame hsent)
      rw [after_of_ok hrun]
      exact hnone

/-- **A call in time** leaves a clear client. -/
theorem Client.Clear.exec (h : c.Clear) (henv : env.network = peer.network) {call : BridgeCall}
    (honce : AnswersOnce env options peer c call)
    (htimely : Timely env options peer c call) : (call.exec env options c).Clear := by
  refine ⟨h.sound.exec call, ?_⟩
  cases call with
  | close =>
      have hclosed : Ends (fun _ t => t.held = (none, none)) (fun _ t => t.held = (none, none))
          (close env) c := ends_close.mono (fun _ _ ht => ht.1) (fun _ _ hf => hf.elim)
      intro hconnected
      cases (Client.connected_of_neither hclosed.after).symm.trans hconnected
  | connect => exact h.wire_connect henv honce
  | request args => exact h.wire_request henv honce htimely

/-- **One call** of a clear client leaves nothing behind exactly if its reply is in time. -/
theorem Client.Clear.unpoisoned_iff (h : c.Clear) (henv : env.network = peer.network)
    {call : BridgeCall} (honce : AnswersOnce env options peer c call) :
    Unpoisoned env options c call ↔ Timely env options peer c call := by
  cases call with
  | close => exact Iff.rfl
  | connect => exact Iff.rfl
  | request args =>
      constructor
      · intro hunpoisoned message frame hsent
        obtain ⟨raw, hframed, hcorrect⟩ := honce message frame hsent
        have hwire := h.wire (Client.connected_of_requestFrame hsent)
        by_contra hlate
        obtain ⟨e, t, hrun, hconnected, hsome⟩ :=
          (request_sent henv hwire hsent hframed hcorrect).2 (Nat.lt_of_not_le hlate)
        rcases hunpoisoned _ hsent e t hrun with hclosed | hnone
        · exact absurd (hconnected.symm.trans hclosed) (by decide)
        · exact hsome hnone
      · rintro htimely ⟨message, frame⟩ hsent e t hrun
        obtain ⟨raw, hframed, hcorrect⟩ := honce message frame hsent
        have hwire := h.wire (Client.connected_of_requestFrame hsent)
        obtain ⟨response, u, hrun', _⟩ :=
          (request_sent henv hwire hsent hframed hcorrect).1 (htimely message frame hsent)
        cases hrun.symm.trans hrun'

/-- **A run**, as far as each of its calls is in time. -/
theorem Client.Clear.along (henv : env.network = peer.network) {steps : List LinkStep} :
    ∀ {c : Client Link}, c.Clear → AlongLink env options (AnswersOnce env options peer) c steps →
      (AlongLink env options (Unpoisoned env options) c steps ↔
        AlongLink env options (Timely env options peer) c steps) := by
  induction steps with
  | nil => exact fun _ _ => Iff.rfl
  | cons step steps ih =>
      rintro c h ⟨honce, hlater⟩
      have hstart := h.start step
      rw [AlongLink, AlongLink, hstart.unpoisoned_iff henv honce]
      exact and_congr_right (fun htimely => ih (hstart.exec henv honce htimely) hlater)

end

/-- **Requests leave nothing behind exactly if their replies are in time**, in every run of a new
client over a link to a peer that answers once and correctly. -/
theorem unpoisoned_iff_timely (env : BridgeEnv Link) (options : ClientOptions) (peer : Peer)
    (henv : env.network = peer.network) (steps : List LinkStep)
    (honce : AlongLink env options (AnswersOnce env options peer) { world := {} } steps) :
    AlongLink env options (Unpoisoned env options) { world := {} } steps ↔
      AlongLink env options (Timely env options peer) { world := {} } steps :=
  Client.Clear.along henv Client.Clear.new honce

/-! ## A small link

One connection and two requests, to run the theorem on.
-/

namespace Small

/-- The answer to the `n`-th request of a client. -/
def response (n : ℕ) : List (PyKey × PyVal) :=
  payload [("type", .str "response"), ("request_id", .str ("req_" ++ tallyId n)),
    ("operation_id", .str "op"), ("bridge_generation", .int 7), ("status", .str "succeeded"),
    ("result", .dict []), ("evidence", .list []), ("error", .none)]

/-- The peer accepts the session, and then answers request after request. -/
def answer : ℕ → PyVal
  | 0 => helloAck
  | n + 1 => .dict (response n)

/-- A peer that answers so. -/
def peer : Peer where
  uid := 501
  reply := fun n _ => bytes (answer n)

theorem peer_reply (n : ℕ) (frame : List UInt8) : peer.reply n frame = bytes (answer n) := rfl

theorem answer_one : answer 1 = .dict (response 0) := rfl

/-- The engine's side of the link. -/
def linkEnv : BridgeEnv Link where
  json := json [helloAck, .dict (response 0)]
  printing := { str := fun _ => "", repr := fun _ => "" }
  network := peer.network
  expectedUid := some 501
  uuid := tallyId
  unixMs := fun n => n

/-- Its answer to a hello is the frame of an object. -/
theorem framed_helloAck : Framed linkEnv options
    (payload [("type", .str "hello_ack"), ("protocol_version", .int 1),
      ("bridge_instance_id", .str "bridge"), ("generation", .int 7),
      ("capabilities", .dict [(.str "desktop.context", .str "available")])])
    (bytes helloAck) :=
  ⟨encode_eq_bytes _ (by decide +kernel),
    loads_dumps [] [.dict (response 0)] (by decide +kernel)
      (fun _ hnone => absurd hnone List.not_mem_nil)⟩

/-- So is every response of it. -/
theorem framed_response : Framed linkEnv options (response 0) (bytes (.dict (response 0))) :=
  ⟨encode_eq_bytes _ (by decide +kernel),
    loads_dumps [helloAck] [] (by decide +kernel) (by decide +kernel)⟩

/-- It answers the hello of a client, … -/
theorem answersOnce_connect {c : Client Link} (hfirst : c.world.answered = 0) :
    AnswersOnce linkEnv options peer c .connect := by
  intro frame _
  rw [hfirst, peer_reply]
  exact ⟨_, framed_helloAck⟩

/-- What a link does changes nothing but the link. -/
theorem start_held (c : Client Link) (step : LinkStep) : (step.start c).held = c.held := rfl

theorem start_answered (c : Client Link) (step : LinkStep) :
    (step.start c).world.answered = c.world.answered := rfl

theorem start_nextRequestId (c : Client Link) (step : LinkStep) :
    (step.start c).nextRequestId linkEnv = "req_" ++ tallyId c.uuids := rfl

/-- … and each request that comes after. -/
theorem answersOnce_request {c : Client Link} (step : LinkStep)
    (hstate : (c.world.answered, c.uuids, c.session.map BridgeSession.generation)
      = (1, 0, some 7)) :
    AnswersOnce linkEnv options peer (step.start c) (.request args) := by
  intro message frame hsent
  obtain ⟨session, hchecked, rfl, _⟩ := Client.requestFrame_eq_ok.mp hsent
  obtain ⟨⟨sock, hheld⟩, _⟩ := Client.checkRequest_ok hchecked
  rw [start_held] at hheld
  simp only [Client.held, Prod.mk.injEq] at hheld hstate
  obtain ⟨hcount, huuids, hgeneration⟩ := hstate
  rw [hheld.2, Option.map_some, Option.some.injEq] at hgeneration
  have hid : get "request_id" ((step.start c).nextMessage linkEnv args session)
      = .str ((step.start c).nextRequestId linkEnv) := rfl
  rw [start_nextRequestId, huuids] at hid
  refine ⟨response 0, ?_, ⟨rfl, hid.symm, rfl, ⟨session.generation, rfl, ?_⟩, .succeeded,
    by decide, rfl⟩, ⟨[], rfl⟩, ⟨[], [], rfl, rfl⟩, Or.inl rfl⟩
  · rw [start_answered, hcount, peer_reply, answer_one]
    exact framed_response
  · rw [hgeneration]
    rfl

/-- The request of a client that the peer has answered once is in time if that answer is. -/
theorem timely_request {c : Client Link} (hcount : c.world.answered = 1)
    (hsent : (c.requestFrame linkEnv options args).isOk = true) (inTime : ℕ) (sizes : List ℕ) :
    Timely linkEnv options peer (LinkStep.start c ⟨.request args, inTime, sizes⟩) (.request args) ↔
      (bytes (.dict (response 0))).length ≤ inTime := by
  have hframe : (LinkStep.start c ⟨.request args, inTime, sizes⟩).requestFrame linkEnv options args
      = c.requestFrame linkEnv options args := rfl
  have htime : (LinkStep.start c ⟨.request args, inTime, sizes⟩).world.inTime = inTime := rfl
  simp only [Timely, hframe, start_answered, htime, hcount, peer_reply, answer_one]
  constructor
  · intro h
    cases hrun : c.requestFrame linkEnv options args with
    | error e =>
        rw [hrun] at hsent
        cases hsent
    | ok sent => exact h sent.1 sent.2 hrun
  · exact fun h _ _ _ => h

/-- The client once it has connected. -/
def connected : Client Link := LinkStep.exec linkEnv options { world := {} } ⟨.connect, 500, []⟩

/-- It is connected, and has sent no request. -/
theorem connected_state :
    (connected.world.answered, connected.uuids, connected.session.map BridgeSession.generation)
        = (1, 0, some 7) ∧
      (connected.requestFrame linkEnv options args).isOk = true := by decide +kernel

theorem alongLink_connected {P : Client Link → BridgeCall → Prop} {step : LinkStep} :
    AlongLink linkEnv options P { world := {} } [⟨.connect, 500, []⟩, step] ↔
      P (LinkStep.start { world := {} } ⟨.connect, 500, []⟩) .connect ∧
        P (step.start connected) step.call := by
  simp only [AlongLink, and_true, connected]

/-- The peer answers the request of the connected client, whatever of it is in time. -/
theorem answersOnce (inTime : ℕ) (sizes : List ℕ) :
    AlongLink linkEnv options (AnswersOnce linkEnv options peer) { world := {} }
      [⟨.connect, 500, []⟩, ⟨.request args, inTime, sizes⟩] :=
  alongLink_connected.mpr ⟨answersOnce_connect rfl, answersOnce_request _ connected_state.1⟩

theorem timely (inTime : ℕ) (sizes : List ℕ) :
    AlongLink linkEnv options (Timely linkEnv options peer) { world := {} }
        [⟨.connect, 500, []⟩, ⟨.request args, inTime, sizes⟩] ↔
      (bytes (.dict (response 0))).length ≤ inTime := by
  rw [alongLink_connected]
  obtain ⟨hcount, _⟩ := Prod.mk.inj connected_state.1
  have hrequest := timely_request hcount connected_state.2 inTime sizes
  exact ⟨fun h => hrequest.mp h.2, fun h => ⟨trivial, hrequest.mpr h⟩⟩

end Small

/-- The reply comes in pieces of three bytes, and in time. -/
theorem unpoisoned_small :
    AlongLink Small.linkEnv Small.options (Unpoisoned Small.linkEnv Small.options) { world := {} }
      [⟨.connect, 500, []⟩, ⟨.request Small.args, 500, List.replicate 100 3⟩] :=
  (unpoisoned_iff_timely Small.linkEnv Small.options Small.peer rfl _
    (Small.answersOnce 500 (List.replicate 100 3))).mpr
      ((Small.timely 500 (List.replicate 100 3)).mpr (by decide +kernel))

/-- Two bytes of the reply come in time. -/
theorem unpoisoned_fails :
    AlongLink Small.linkEnv Small.options (AnswersOnce Small.linkEnv Small.options Small.peer)
        { world := {} } [⟨.connect, 500, []⟩, ⟨.request Small.args, 2, []⟩] ∧
      ¬ AlongLink Small.linkEnv Small.options (Unpoisoned Small.linkEnv Small.options)
        { world := {} } [⟨.connect, 500, []⟩, ⟨.request Small.args, 2, []⟩] := by
  have honce := Small.answersOnce 2 []
  refine ⟨honce, fun hunpoisoned => ?_⟩
  have htimely := (Client.Clear.along rfl Client.Clear.new honce).mp hunpoisoned
  exact absurd ((Small.timely 2 []).mp htimely) (by decide +kernel)

end LiandanluNative.Bridge
