/-
# LiandanluNative.Bridge.Messages — the records and parsers of `desktop_bridge.py`.

A frame carries a JSON object, whose fields may hold any value.  `_parse_hello_ack` and
`_parse_response` check it field by field and make a `BridgeSession` or a `BridgeResponse` of it;
the checks are in the order of the source, since the first one that fails decides what is raised.

A state or a status is a member of a set of texts in the source and an inductive type here, so a
session or a response with another one cannot be built.

What is proved here is one direction: whatever a parser accepts had the fields it should have had
(`parseHelloAck_ok`, `parseResponse_ok`), and the record carries them.  Every proof goes through the
checks in their order and drops the branches that raise.  `Safety.ResponseGrammar` has the other
direction for responses.
-/
import LiandanluNative.Value
import LiandanluNative.Lib.Table

namespace LiandanluNative

/-! ## Values

The operations of the language that the parsers use on values of any kind: a field may be missing,
and what is there may be of a kind that the operation does not take.
-/

namespace PyVal

/-- `items.get(name)` -/
def get (name : String) (items : List (PyKey × PyVal)) : PyVal := lookup name .none items

/-- `value == text` -/
def isStr (text : String) : PyVal → Bool
  | .str s => decide (s = text)
  | _ => false

/-- `value == n`; a boolean and a float are numbers too, so `true` passes for a protocol version or
a generation of 1. -/
def equalsInt (n : Int) : PyVal → Bool
  | .int m => decide (m = n)
  | .bool b => decide ((if b then 1 else 0) = n)
  | .float (some x) => decide (x = n)
  | _ => false

/-- `value or default` -/
def orDefault (value default : PyVal) : PyVal := if value.truthy then value else default

/-- `type(value).__name__`, which the texts of some exceptions have. -/
def typeName : PyVal → String
  | .none => "NoneType"
  | .bool _ => "bool"
  | .int _ => "int"
  | .float _ => "float"
  | .str _ => "str"
  | .list _ => "list"
  | .tuple _ => "tuple"
  | .dict _ => "dict"
  | .other _ => "object"

mutual

/-- The name of the type that keeps a value from being hashed, if there is one.  Looking such a
value up in a set raises, before anything is compared. -/
def unhashable? : PyVal → Option String
  | .list _ => some "list"
  | .dict _ => some "dict"
  | .tuple xs => unhashableIn? xs
  | _ => Option.none

/-- The same of the elements of a tuple, of which the first one that cannot be hashed is named. -/
def unhashableIn? : List PyVal → Option String
  | [] => Option.none
  | x :: xs =>
      match unhashable? x with
      | some name => some name
      | Option.none => unhashableIn? xs

end

/-- Nothing but a text is equal to a text. -/
theorem isStr_iff {text : String} {v : PyVal} : v.isStr text = true ↔ v = .str text := by
  cases v <;> simp [isStr]

end PyVal

namespace Bridge

open Lib (Table)
open PyVal (lookup get)

/-- `PROTOCOL_VERSION` -/
def protocolVersion : Int := 1

/-! ## Exceptions -/

/-- Exceptions of the language that a call may raise or let through. -/
inductive BuiltinExc where
  | valueError
  | typeError
  | attributeError
  | osError
  | overflowError
  | unicodeEncodeError
  | structError
  deriving DecidableEq, Repr

/-- An exception: one of the `BridgeError` classes, or another one. -/
inductive BridgeExc where
  | transportError (text : String)
  | protocolError (text : String)
  | unavailable (text : String)
  | staleGeneration (text : String)
  | remoteError (code message : String)
  | builtin (kind : BuiltinExc) (text : String)
  deriving DecidableEq, Repr

/-- `isinstance(exc, BridgeError)` -/
def BridgeExc.isBridgeError : BridgeExc → Bool
  | .builtin _ _ => false
  | _ => true

/-- `value.get` on a value that has no such method. -/
def noAttribute (value : PyVal) (name : String) : BridgeExc :=
  .builtin .attributeError
    (strRepr value.typeName ++ " object has no attribute " ++ strRepr name)

/-! ## Capabilities and statuses -/

/-- The states `_parse_hello_ack` allows. -/
inductive CapabilityState where
  | available
  | permissionRequired
  | unavailable
  deriving DecidableEq, Repr

/-- The text of a state in a frame. -/
def CapabilityState.value : CapabilityState → String
  | .available => "available"
  | .permissionRequired => "permission_required"
  | .unavailable => "unavailable"

/-- The set of texts that `_parse_hello_ack` looks a state up in. -/
def CapabilityState.all : List CapabilityState := [.available, .permissionRequired, .unavailable]

/-- `_ALLOWED_STATUSES` -/
inductive ResponseStatus where
  | succeeded
  | blocked
  | failed
  | unknown
  | cancelled
  deriving DecidableEq, Repr

/-- The text of a status in a frame. -/
def ResponseStatus.value : ResponseStatus → String
  | .succeeded => "succeeded"
  | .blocked => "blocked"
  | .failed => "failed"
  | .unknown => "unknown"
  | .cancelled => "cancelled"

/-- The members of `_ALLOWED_STATUSES`. -/
def ResponseStatus.all : List ResponseStatus :=
  [.succeeded, .blocked, .failed, .unknown, .cancelled]

/-- `v in members`, for a set of texts: the member that `v` is, or `none`. A value without a hash
raises. -/
def memberOf {α : Type} (value : α → String) (members : List α) (v : PyVal) :
    Except BridgeExc (Option α) :=
  match v.unhashable? with
  | some name => .error (.builtin .typeError ("unhashable type: " ++ strRepr name))
  | none => .ok (members.find? (fun member => v.isStr (value member)))

/-- `BridgeCapability` -/
structure BridgeCapability where
  method : String
  state : CapabilityState
  details : List (String × PyVal) := []

/-- `BridgeSession` -/
structure BridgeSession where
  bridgeInstanceId : String
  generation : Int
  capabilities : Table BridgeCapability.method
  peerUid : Option Int := none
  peerUidVerified : Bool := false

/-- `BridgeResponse` -/
structure BridgeResponse where
  requestId : String
  operationId : String
  status : ResponseStatus
  result : List (PyKey × PyVal)
  evidence : List (List (PyKey × PyVal))
  error : Option (List (PyKey × PyVal))
  bridgeGeneration : Int

/-! ## Methods -/

/-- `[a-z]` -/
def isLower (c : Char) : Bool := decide ( 'a' ≤ c) && decide (c ≤ 'z')

/-- `[a-z0-9_.-]` -/
def isMethodChar (c : Char) : Bool :=
  isLower c || (decide ( '0' ≤ c) && decide (c ≤ '9')) || c == '_' || c == '.' || c == '-'

/-- `_METHOD_RE.fullmatch(method)` -/
def isMethod (method : String) : Bool :=
  match method.toList with
  | [] => false
  | first :: others =>
      isLower first && decide (1 ≤ others.length) && decide (others.length ≤ 127) &&
        others.all isMethodChar

/-! ## Parsers

Both parsers check one field after the other, and the texts of what they raise quote the value they
did not take.
-/

/-- `str(value)` and `repr(value)`, for the texts of exceptions. -/
structure Printing where
  str : PyVal → String
  repr : PyVal → String

section

variable (printing : Printing)

/-- What a descriptor says of the state, and its other fields.  A descriptor is the state itself, or
an object that has it as `state`. -/
def descriptor (method : String) : PyVal → Except BridgeExc (PyVal × List (String × PyVal))
  | .str state => .ok (.str state, [])
  | .dict raw =>
      .ok (get "state" raw,
        (raw.filter (fun field => decide (field.1 ≠ .str "state"))).map
          (fun field => (field.1.toStr, field.2)))
  | _ => .error (.protocolError ("invalid capability descriptor for " ++ method))

/-- One round of the loop of `_parse_hello_ack`. -/
def parseCapability (item : PyKey × PyVal) : Except BridgeExc BridgeCapability :=
  match item.1 with
  | .str method =>
      if isMethod method then do
        let (state, details) ← descriptor method item.2
        match ← memberOf CapabilityState.value CapabilityState.all state with
        | none =>
            .error (.protocolError
              ("invalid capability state for " ++ method ++ ": " ++ printing.repr state))
        | some state => return { method := method, state := state, details := details }
      else
        .error (.protocolError ("invalid capability method: " ++ printing.repr (.str method)))
  | key => .error (.protocolError ("invalid capability method: " ++ printing.repr key.toVal))

/-- The loop of `_parse_hello_ack`. -/
def parseCapabilities (capabilities : Table BridgeCapability.method) :
    List (PyKey × PyVal) → Except BridgeExc (Table BridgeCapability.method)
  | [] => .ok capabilities
  | item :: items => do
      let capability ← parseCapability printing item
      parseCapabilities (capabilities.put capability) items

/-- `_parse_hello_ack` -/
def parseHelloAck (ack : List (PyKey × PyVal)) (peerUidValue : Option Int)
    (peerUidVerified : Bool) : Except BridgeExc BridgeSession :=
  if (get "type" ack).isStr "error" then
    match (get "error" ack).orDefault (.dict []) with
    | .dict error =>
        .error (.remoteError (printing.str (lookup "code" (.str "bridge_error") error))
          (printing.str (lookup "message" (.str "bridge rejected handshake") error)))
    | error => .error (noAttribute error "get")
  else if !(get "type" ack).isStr "hello_ack" then
    .error (.protocolError "expected hello_ack")
  else if !(get "protocol_version" ack).equalsInt protocolVersion then
    .error (.protocolError ("protocol mismatch: expected " ++ toString protocolVersion ++ ", got "
      ++ printing.str (get "protocol_version" ack)))
  else
    match get "bridge_instance_id" ack with
    | .str instanceId =>
        if instanceId = "" then
          .error (.protocolError "hello_ack missing bridge_instance_id")
        else
          match get "generation" ack with
          | .int generation =>
              if generation ≤ 0 then
                .error (.protocolError "hello_ack generation must be a positive integer")
              else
                match lookup "capabilities" (.dict []) ack with
                | .dict rawCaps => do
                    let capabilities ← parseCapabilities printing .empty rawCaps
                    return {
                      bridgeInstanceId := instanceId
                      generation := generation
                      capabilities := capabilities
                      peerUid := peerUidValue
                      peerUidVerified := peerUidVerified }
                | _ => .error (.protocolError "hello_ack capabilities must be an object")
          | _ => .error (.protocolError "hello_ack generation must be a positive integer")
    | _ => .error (.protocolError "hello_ack missing bridge_instance_id")

/-- The object that a value is, as an element of `evidence` has to be one. -/
def asObject? : PyVal → Option (List (PyKey × PyVal))
  | .dict items => some items
  | _ => none

/-- `_parse_response`, with the generation of `self.session`. -/
def parseResponse (sessionGeneration : Int) (raw : List (PyKey × PyVal))
    (requestId operationId : String) : Except BridgeExc BridgeResponse :=
  if !(get "type" raw).isStr "response" then
    .error (.protocolError "expected response frame")
  else if !(get "request_id" raw).isStr requestId then
    .error (.protocolError "response request_id mismatch")
  else if !(get "operation_id" raw).isStr operationId then
    .error (.protocolError "response operation_id mismatch")
  else if !(get "bridge_generation" raw).equalsInt sessionGeneration then
    .error (.staleGeneration ("expected bridge generation " ++ toString sessionGeneration
      ++ ", got " ++ printing.str (get "bridge_generation" raw)))
  else do
    match ← memberOf ResponseStatus.value ResponseStatus.all (get "status" raw) with
    | none =>
        .error (.protocolError
          ("invalid bridge response status: " ++ printing.repr (get "status" raw)))
    | some status =>
        match (get "result" raw).orDefault (.dict []) with
        | .dict result =>
            match (get "evidence" raw).orDefault (.list []) with
            | .list items =>
                match items.mapM asObject? with
                | some evidence =>
                    let response : BridgeResponse :=
                      { requestId := requestId
                        operationId := operationId
                        status := status
                        result := result
                        evidence := evidence
                        error := none
                        -- equal to the received generation, which `int` makes an integer of
                        bridgeGeneration := sessionGeneration }
                    match get "error" raw with
                    | .none => .ok response
                    | .dict error => .ok { response with error := some error }
                    | _ => .error (.protocolError "response error must be an object or null")
                | none => .error (.protocolError "response evidence must be a list of objects")
            | _ => .error (.protocolError "response evidence must be a list of objects")
        | _ => .error (.protocolError "response result must be an object")

end

/-! ## What is accepted -/

/-- What a value was found to be, it is the text of. -/
theorem memberOf_some {α : Type} {value : α → String} {members : List α} {v : PyVal} {member : α}
    (h : memberOf value members v = .ok (some member)) : v = .str (value member) := by
  unfold memberOf at h
  split at h
  · cases h
  · have hfind : members.find? (fun member => v.isStr (value member)) = some member :=
      Except.ok.inj h
    have hmatch := List.find?_some (p := fun member => v.isStr (value member)) hfind
    exact PyVal.isStr_iff.mp hmatch

/-- A descriptor in `capabilities` says that the method is in this state, in either of its two
forms. -/
def Describes (raw : PyVal) (state : CapabilityState) : Prop :=
  raw = .str state.value ∨ ∃ fields, raw = .dict fields ∧ get "state" fields = .str state.value

/-- A `hello_ack` as it should be: the fields that a session is made of are there, each of its kind.
-/
structure ValidAck (ack : List (PyKey × PyVal)) : Prop where
  type : get "type" ack = .str "hello_ack"
  version : (get "protocol_version" ack).equalsInt protocolVersion = true
  instanceId : ∃ instanceId, get "bridge_instance_id" ack = .str instanceId ∧ instanceId ≠ ""
  generation : ∃ generation, get "generation" ack = .int generation ∧ 0 < generation
  capabilities : ∃ items, lookup "capabilities" (.dict []) ack = .dict items ∧
    ∀ item ∈ items, ∃ method state, item.1 = .str method ∧ isMethod method = true ∧
      Describes item.2 state

/-- The acknowledgement says that the method is available. -/
def Advertises (ack : List (PyKey × PyVal)) (method : String) : Prop :=
  ∃ items raw, lookup "capabilities" (.dict []) ack = .dict items ∧ (.str method, raw) ∈ items ∧
    Describes raw .available

section

variable {printing : Printing}

/-- One descriptor that is accepted: its name is that of a method, and it says the state it is
given. -/
theorem parseCapability_ok {item : PyKey × PyVal} {capability : BridgeCapability}
    (h : parseCapability printing item = .ok capability) :
    item.1 = .str capability.method ∧ isMethod capability.method = true ∧
      Describes item.2 capability.state := by
  obtain ⟨key, raw⟩ := item
  unfold parseCapability at h
  cases key with
  | str method =>
      dsimp only at h
      split at h
      · rename_i hmethod
        -- a descriptor is a state, or a dictionary that has one
        cases hdescriptor : descriptor method raw with
        | error e =>
            rw [hdescriptor] at h
            cases h
        | ok fields =>
            obtain ⟨value, details⟩ := fields
            rw [hdescriptor] at h
            -- what it names has to be a state there is
            cases hmember : memberOf CapabilityState.value CapabilityState.all value with
            | error e =>
                simp only [bind, Except.bind, hmember] at h
                cases h
            | ok state? =>
                simp only [bind, Except.bind, hmember] at h
                cases state? with
                | none => cases h
                | some state =>
                    cases h
                    refine ⟨rfl, hmethod, ?_⟩
                    have hvalue := memberOf_some hmember
                    cases raw with
                    | str text =>
                        cases hdescriptor
                        exact Or.inl hvalue
                    | dict fields =>
                        cases hdescriptor
                        exact Or.inr ⟨fields, rfl, hvalue⟩
                    | _ => cases hdescriptor
      · cases h
  | _ => cases h

/-- Every descriptor was valid, and each capability is one of them.  Induction over the items, with
the table of the capabilities that were read before: a later item of one name takes the place of an
earlier one. -/
theorem parseCapabilities_ok {items : List (PyKey × PyVal)} :
    ∀ {capabilities parsed : Table BridgeCapability.method},
      parseCapabilities printing capabilities items = .ok parsed →
      (∀ item ∈ items, ∃ method state, item.1 = .str method ∧ isMethod method = true ∧
        Describes item.2 state) ∧
      ∀ capability ∈ parsed.rows, capability ∈ capabilities.rows ∨
        ∃ item ∈ items, item.1 = .str capability.method ∧ Describes item.2 capability.state := by
  induction items with
  | nil =>
      intro capabilities parsed h
      cases h
      exact ⟨fun _ hitem => absurd hitem List.not_mem_nil, fun _ hmem => Or.inl hmem⟩
  | cons item items ih =>
      intro capabilities parsed h
      unfold parseCapabilities at h
      cases hitem : parseCapability printing item with
      | error e =>
          rw [hitem] at h
          cases h
      | ok capability =>
          rw [hitem] at h
          obtain ⟨hkey, hmethod, hstate⟩ := parseCapability_ok hitem
          obtain ⟨hvalid, hparsed⟩ := ih h
          refine ⟨List.forall_mem_cons.mpr ⟨⟨_, _, hkey, hmethod, hstate⟩, hvalid⟩, ?_⟩
          intro other hother
          rcases hparsed other hother with hput | ⟨source, hsource, hboth⟩
          · rcases Table.mem_put.mp hput with rfl | ⟨hold, _⟩
            · exact Or.inr ⟨item, List.mem_cons_self, hkey, hstate⟩
            · exact Or.inl hold
          · exact Or.inr ⟨source, List.mem_cons_of_mem _ hsource, hboth⟩

/-- **An acknowledgement that is accepted** is valid; the session has its generation, and what the
session has as available it advertises. -/
theorem parseHelloAck_ok {ack : List (PyKey × PyVal)} {uid : Option Int} {verified : Bool}
    {session : BridgeSession} (h : parseHelloAck printing ack uid verified = .ok session) :
    ValidAck ack ∧ get "generation" ack = .int session.generation ∧
      ∀ capability ∈ session.capabilities.rows, capability.state = .available →
        Advertises ack capability.method := by
  unfold parseHelloAck at h
  split at h
  · split at h
    · cases h
    · cases h
  split at h
  · cases h
  rename_i htype
  split at h
  · cases h
  rename_i hversion
  -- type and protocol version are right
  rw [Bool.not_eq_true, Bool.not_eq_false'] at htype hversion
  split at h
  · rename_i instanceId hinstance
    split at h
    · cases h
    rename_i hnonempty
    split at h
    · rename_i generation hgeneration
      split at h
      · cases h
      rename_i hpositive
      split at h
      · rename_i items hitems
        -- the last field: a list whose items all parse as capabilities
        cases hparsed : parseCapabilities printing .empty items with
        | error e =>
            rw [hparsed] at h
            cases h
        | ok capabilities =>
            rw [hparsed] at h
            cases h
            obtain ⟨hvalid, hcapabilities⟩ := parseCapabilities_ok hparsed
            refine ⟨⟨PyVal.isStr_iff.mp htype, hversion, ⟨instanceId, hinstance, hnonempty⟩,
              ⟨generation, hgeneration, lt_of_not_ge hpositive⟩, ⟨items, hitems, hvalid⟩⟩,
              hgeneration, fun capability hcapability havailable => ?_⟩
            -- a capability comes from an item, whose state it has
            rcases hcapabilities capability hcapability with hnone | ⟨item, hitem, hkey, hstate⟩
            · exact absurd hnone List.not_mem_nil
            · rw [havailable] at hstate
              exact ⟨items, item.2, hitems, hkey ▸ hitem, hstate⟩
      · cases h
    · cases h
  · cases h

/-- **A response that is accepted** answers the request, in the session, with an allowed status. -/
theorem parseResponse_ok {generation : Int} {raw : List (PyKey × PyVal)}
    {requestId operationId : String} {response : BridgeResponse}
    (h : parseResponse printing generation raw requestId operationId = .ok response) :
    get "type" raw = .str "response" ∧ get "request_id" raw = .str requestId ∧
      get "operation_id" raw = .str operationId ∧
      (get "bridge_generation" raw).equalsInt generation = true ∧
      get "status" raw = .str response.status.value ∧ response.requestId = requestId ∧
      response.operationId = operationId ∧ response.bridgeGeneration = generation := by
  unfold parseResponse at h
  split at h
  · cases h
  rename_i htype
  split at h
  · cases h
  rename_i hrequest
  split at h
  · cases h
  rename_i hoperation
  split at h
  · cases h
  rename_i hgeneration
  -- past the four checks the fields are those of the call
  rw [Bool.not_eq_true, Bool.not_eq_false'] at htype hrequest hoperation hgeneration
  refine ⟨PyVal.isStr_iff.mp htype, PyVal.isStr_iff.mp hrequest, PyVal.isStr_iff.mp hoperation,
    hgeneration, ?_⟩
  -- the status has to be a member, and the rest depends on which
  cases hmember : memberOf ResponseStatus.value ResponseStatus.all (get "status" raw) with
  | error e =>
      simp only [bind, Except.bind, hmember] at h
      cases h
  | ok status? =>
      simp only [bind, Except.bind, hmember] at h
      cases status? with
      | none => cases h
      | some status =>
          rw [memberOf_some hmember]
          dsimp only at h
          split at h
          · split at h
            · split at h
              · split at h
                · cases h
                  exact ⟨rfl, rfl, rfl, rfl⟩
                · cases h
                  exact ⟨rfl, rfl, rfl, rfl⟩
                · cases h
              · cases h
            · cases h
          · cases h

end

end Bridge

end LiandanluNative
