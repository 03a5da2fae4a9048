/-
# LiandanluNative.Safety.PeerData — what malformed frames make the client raise.

Whatever comes over the network, `connect` and `request` return or raise a `BridgeError`, with three
exceptions (`bridge_errors_only_iff`): a refusal whose `error` is not an object has no `get`, and a
capability state or a response status that is a list or an object cannot be looked up in a set of
texts.  The checks of all other fields ask for the type of a value before they use it.

The client is walked part by part, from the frames up.  Of each part it is said when all it raises
are BridgeErrors: always, for what reads and writes the socket, since the client wraps what the
system reports; or exactly if the frame that is read next does not have one of the three shapes.
The exception handlers on the way, which close the socket and raise again, let through what they
get.

What a caller can pass that no frame brings is kept apart: timeouts that `settimeout` refuses, a
path that cannot be encoded and arguments of a request that are no JSON raise other exceptions,
before or while the message is sent.
-/
import LiandanluNative.Safety.BridgeClient

namespace LiandanluNative.Bridge

open Lib.Proc
open PyVal (lookup get payload)

/-! ## Frames that the checks do not expect

Values that cannot be hashed, where a check looks a value up in a set.
-/

/-- An item of `capabilities` that is accepted. -/
def ValidCapability (item : PyKey × PyVal) : Prop :=
  ∃ method state, item.1 = .str method ∧ isMethod method = true ∧ Describes item.2 state

/-- An item of `capabilities` whose state is a list or an object. -/
def UnhashableState (item : PyKey × PyVal) : Prop :=
  ∃ method fields name, item = (.str method, .dict fields) ∧ isMethod method = true ∧
    (get "state" fields).unhashable? = some name

/-- The frames that `_parse_hello_ack` does not expect. -/
inductive MisshapenAck (ack : List (PyKey × PyVal)) : Prop where
  /-- A refusal whose `error` is neither an object nor one of the values that count as false. -/
  | refusal (type : get "type" ack = .str "error") (truthy : (get "error" ack).truthy = true)
      (notObject : asObject? (get "error" ack) = none)
  /-- An acknowledgement in which the first capability that is not valid has such a state. -/
  | state {instanceId : String} {n : Int} {before after : List (PyKey × PyVal)}
      {item : PyKey × PyVal} (type : get "type" ack = .str "hello_ack")
      (version : (get "protocol_version" ack).equalsInt protocolVersion = true)
      (instance_id : get "bridge_instance_id" ack = .str instanceId) (nonempty : instanceId ≠ "")
      (generation : get "generation" ack = .int n) (positive : 0 < n)
      (capabilities : lookup "capabilities" (.dict []) ack = .dict (before ++ item :: after))
      (valid : ∀ other ∈ before, ValidCapability other) (unhashable : UnhashableState item)

/-- The frames that `_parse_response` does not expect: responses to the message with a list or an
object for a status. -/
structure MisshapenResponse (message raw : List (PyKey × PyVal)) : Prop where
  type : get "type" raw = .str "response"
  request : get "request_id" raw = get "request_id" message
  operation : get "operation_id" raw = get "operation_id" message
  generation : ∃ n, get "expected_bridge_generation" message = .int n ∧
    (get "bridge_generation" raw).equalsInt n = true
  status : ∃ name, (get "status" raw).unhashable? = some name

/-! ## Parsers

Each check raises an exception of the bridge, unless it comes to such a value first.
-/

/-- What is raised is a `BridgeError`. -/
def OnlyBridgeErrors {α : Type} (x : Except BridgeExc α) : Prop :=
  ∀ e, x = .error e → e.isBridgeError = true

section

variable {printing : Printing}

/-- A list or an object is not looked up in a set: that raises a TypeError. -/
theorem memberOf_of_unhashable {α : Type} {value : α → String} {members : List α} {v : PyVal}
    {name : String} (h : v.unhashable? = some name) :
    memberOf value members v
      = .error (.builtin .typeError ("unhashable type: " ++ strRepr name)) := by
  rw [memberOf, h]

/-- A value with a hash is a member or none. -/
theorem memberOf_of_hashable {α : Type} {value : α → String} {members : List α} {v : PyVal}
    (h : v.unhashable? = none) :
    memberOf value members v = .ok (members.find? (fun member => v.isStr (value member))) := by
  rw [memberOf, h]

/-- A state is found among the states under its value. -/
theorem memberOf_state (state : CapabilityState) :
    memberOf CapabilityState.value CapabilityState.all (.str state.value) = .ok (some state) := by
  cases state <;> rfl

/-- A capability that is described, as a text or as an object with a text, has its descriptor. -/
theorem descriptor_of_describes (method : String) {raw : PyVal} {state : CapabilityState}
    (h : Describes raw state) :
    ∃ details, descriptor method raw = .ok (.str state.value, details) := by
  rcases h with rfl | ⟨fields, rfl, hstate⟩
  · exact ⟨_, rfl⟩
  · rw [descriptor, hstate]
    exact ⟨_, rfl⟩

/-- A well-formed item of the capabilities is parsed. -/
theorem parseCapability_of_valid (printing : Printing) {item : PyKey × PyVal}
    (h : ValidCapability item) :
    ∃ capability, parseCapability printing item = .ok capability := by
  obtain ⟨key, raw⟩ := item
  obtain ⟨method, state, hkey, hmethod, hdescribes⟩ := h
  obtain rfl : key = .str method := hkey
  obtain ⟨details, hdescriptor⟩ := descriptor_of_describes method hdescribes
  refine ⟨{ method := method, state := state, details := details }, ?_⟩
  simp only [parseCapability, if_pos hmethod, hdescriptor, bind, Except.bind, memberOf_state]
  rfl

/-- An item whose state is a list or an object makes the parser raise a TypeError. -/
theorem parseCapability_of_unhashable (printing : Printing) {item : PyKey × PyVal}
    (h : UnhashableState item) :
    ∃ text, parseCapability printing item = .error (.builtin .typeError text) := by
  obtain ⟨method, fields, name, rfl, hmethod, hname⟩ := h
  refine ⟨"unhashable type: " ++ strRepr name, ?_⟩
  simp only [parseCapability, if_pos hmethod, descriptor, bind, Except.bind,
    memberOf_of_unhashable hname]

/-- What the parser raises of one item is a BridgeError, or the TypeError of such a state. -/
theorem parseCapability_raises {item : PyKey × PyVal} {e : BridgeExc}
    (h : parseCapability printing item = .error e) :
    e.isBridgeError = true ∨ UnhashableState item := by
  obtain ⟨key, raw⟩ := item
  unfold parseCapability at h
  cases key with
  | str method =>
      dsimp only at h
      split at h
      · rename_i hmethod
        cases hdescriptor : descriptor method raw with
        | error e' =>
            rw [hdescriptor] at h
            cases h
            unfold descriptor at hdescriptor
            split at hdescriptor
            · cases hdescriptor
            · cases hdescriptor
            · cases hdescriptor
              exact Or.inl rfl
        | ok described =>
            obtain ⟨value, details⟩ := described
            rw [hdescriptor] at h
            cases hhash : value.unhashable? with
            | none =>
                simp only [bind, Except.bind, memberOf_of_hashable hhash] at h
                split at h
                · cases h
                  exact Or.inl rfl
                · cases h
            | some name =>
                -- a text has a hash, so the state is a field of an object
                cases raw with
                | str text =>
                    cases hdescriptor
                    cases hhash
                | dict fields =>
                    cases hdescriptor
                    exact Or.inr ⟨method, fields, name, rfl, hmethod, hhash⟩
                | _ => cases hdescriptor
      · cases h
        exact Or.inl rfl
  | _ =>
      cases h
      exact Or.inl rfl

/-- The loop raises what its first item that is not valid makes it raise. -/
theorem parseCapabilities_raises {e : BridgeExc} {items : List (PyKey × PyVal)} :
    ∀ {capabilities}, parseCapabilities printing capabilities items = .error e →
      e.isBridgeError = true ∨ ∃ before item after, items = before ++ item :: after ∧
        (∀ other ∈ before, ValidCapability other) ∧ UnhashableState item := by
  induction items with
  | nil =>
      intro capabilities h
      cases h
  | cons item items ih =>
      intro capabilities h
      unfold parseCapabilities at h
      cases hitem : parseCapability printing item with
      | error e' =>
          rw [hitem] at h
          cases h
          refine (parseCapability_raises hitem).imp_right (fun hunhashable => ?_)
          exact ⟨[], item, items, rfl, fun _ hnone => absurd hnone List.not_mem_nil, hunhashable⟩
      | ok capability =>
          rw [hitem] at h
          obtain ⟨hkey, hmethod, hdescribes⟩ := parseCapability_ok hitem
          refine (ih h).imp_right ?_
          rintro ⟨before, bad, after, rfl, hvalid, hunhashable⟩
          refine ⟨item :: before, bad, after, rfl, ?_, hunhashable⟩
          exact List.forall_mem_cons.mpr ⟨⟨_, _, hkey, hmethod, hdescribes⟩, hvalid⟩

/-- So does a list in which all before that item are well formed. -/
theorem parseCapabilities_of_unhashable (printing : Printing) {item : PyKey × PyVal}
    (hunhashable : UnhashableState item) (after : List (PyKey × PyVal))
    {before : List (PyKey × PyVal)} :
    ∀ capabilities, (∀ other ∈ before, ValidCapability other) →
      ∃ text, parseCapabilities printing capabilities (before ++ item :: after)
        = .error (.builtin .typeError text) := by
  induction before with
  | nil =>
      intro capabilities _
      obtain ⟨text, hitem⟩ := parseCapability_of_unhashable printing hunhashable
      refine ⟨text, ?_⟩
      rw [List.nil_append, parseCapabilities, hitem]
      rfl
  | cons other before ih =>
      intro capabilities hvalid
      obtain ⟨hother, hbefore⟩ := List.forall_mem_cons.mp hvalid
      obtain ⟨capability, hcapability⟩ := parseCapability_of_valid printing hother
      obtain ⟨text, hrest⟩ := ih (capabilities.put capability) hbefore
      refine ⟨text, ?_⟩
      rw [List.cons_append, parseCapabilities, hcapability]
      exact hrest

/-- A misshapen answer to the hello raises an exception of the language. -/
theorem parseHelloAck_of_misshapen (printing : Printing) {ack : List (PyKey × PyVal)}
    (h : MisshapenAck ack) (uid : Option Int) (verified : Bool) :
    ∃ e, parseHelloAck printing ack uid verified = .error e ∧ e.isBridgeError = false := by
  cases h with
  | refusal htype htruthy hnot =>
      refine ⟨noAttribute (get "error" ack) "get", ?_, rfl⟩
      rw [parseHelloAck, if_pos (PyVal.isStr_iff.mpr htype), PyVal.orDefault, if_pos htruthy]
      split
      · rename_i fields hfields
        rw [hfields] at hnot
        cases hnot
      · rfl
  | @state _ _ _ after _ htype hversion hinstance hnonempty hgeneration hpositive hcapabilities
      hvalid hunhashable =>
      obtain ⟨text, hloop⟩ :=
        parseCapabilities_of_unhashable printing hunhashable after .empty hvalid
      refine ⟨.builtin .typeError text, ?_, rfl⟩
      rw [parseHelloAck, if_neg (by rw [htype]; decide), if_neg (by rw [htype]; decide),
        if_neg (by rw [hversion]; decide), hinstance]
      simp only [if_neg hnonempty, hgeneration, if_neg (Int.not_le.mpr hpositive), hcapabilities,
        hloop]
      rfl

/-- Any other answer raises a bridge error, if it raises. -/
theorem parseHelloAck_raises {ack : List (PyKey × PyVal)} {uid : Option Int} {verified : Bool}
    {e : BridgeExc} (h : parseHelloAck printing ack uid verified = .error e) :
    e.isBridgeError = true ∨ MisshapenAck ack := by
  unfold parseHelloAck at h
  split at h
  · rename_i htype
    split at h
    · cases h
      exact Or.inl rfl
    · rename_i hnot
      unfold PyVal.orDefault at hnot
      -- a value that counts as false has been replaced by an object
      split at hnot
      · rename_i htruthy
        refine Or.inr (.refusal (PyVal.isStr_iff.mp htype) htruthy ?_)
        unfold asObject?
        split
        · rename_i fields hfields
          exact absurd hfields (hnot fields)
        · rfl
      · exact absurd rfl (hnot [])
  split at h
  · cases h
    exact Or.inl rfl
  rename_i htype
  split at h
  · cases h
    exact Or.inl rfl
  rename_i hversion
  rw [Bool.not_eq_true, Bool.not_eq_false'] at htype hversion
  split at h
  · rename_i instanceId hinstance
    split at h
    · cases h
      exact Or.inl rfl
    rename_i hnonempty
    split at h
    · rename_i generation hgeneration
      split at h
      · cases h
        exact Or.inl rfl
      rename_i hpositive
      split at h
      · rename_i items hitems
        cases hloop : parseCapabilities printing .empty items with
        | error e' =>
            rw [hloop] at h
            cases h
            refine (parseCapabilities_raises hloop).imp_right ?_
            rintro ⟨before, item, after, rfl, hvalid, hunhashable⟩
            exact .state (PyVal.isStr_iff.mp htype) hversion hinstance hnonempty hgeneration
              (Int.not_le.mp hpositive) hitems hvalid hunhashable
        | ok capabilities =>
            rw [hloop] at h
            cases h
      · cases h
        exact Or.inl rfl
    · cases h
      exact Or.inl rfl
  · cases h
    exact Or.inl rfl

/-- **The parser of the hello's answer** raises bridge errors only, exactly if the answer is not
misshapen. -/
theorem parseHelloAck_onlyBridgeErrors {ack : List (PyKey × PyVal)} {uid : Option Int}
    {verified : Bool} :
    OnlyBridgeErrors (parseHelloAck printing ack uid verified) ↔ ¬ MisshapenAck ack := by
  constructor
  · intro h hmisshapen
    obtain ⟨e, hraise, he⟩ := parseHelloAck_of_misshapen printing hmisshapen uid verified
    cases (h e hraise).symm.trans he
  · exact fun hshapely e h => (parseHelloAck_raises h).resolve_right hshapely

/-- Any other response raises a bridge error, if it raises. -/
theorem parseResponse_raises {message raw : List (PyKey × PyVal)} {generation : Int}
    {requestId operationId : String} (hrequest : get "request_id" message = .str requestId)
    (hoperation : get "operation_id" message = .str operationId)
    (hgeneration : get "expected_bridge_generation" message = .int generation) {e : BridgeExc}
    (h : parseResponse printing generation raw requestId operationId = .error e) :
    e.isBridgeError = true ∨ MisshapenResponse message raw := by
  unfold parseResponse at h
  split at h
  · cases h
    exact Or.inl rfl
  rename_i htype
  split at h
  · cases h
    exact Or.inl rfl
  rename_i hrequest'
  split at h
  · cases h
    exact Or.inl rfl
  rename_i hoperation'
  split at h
  · cases h
    exact Or.inl rfl
  rename_i hequals
  rw [Bool.not_eq_true, Bool.not_eq_false'] at htype hrequest' hoperation' hequals
  cases hstatus : (get "status" raw).unhashable? with
  | some name =>
      refine Or.inr ⟨PyVal.isStr_iff.mp htype, ?_, ?_, ⟨generation, hgeneration, hequals⟩, name,
        hstatus⟩
      · rw [PyVal.isStr_iff.mp hrequest', hrequest]
      · rw [PyVal.isStr_iff.mp hoperation', hoperation]
  | none =>
      -- no check after the status raises anything else
      refine Or.inl ?_
      simp only [memberOf_of_hashable hstatus, bind, Except.bind] at h
      split at h
      · cases h
        rfl
      split at h
      · split at h
        · split at h
          · split at h
            · cases h
            · cases h
            · cases h
              rfl
          · cases h
            rfl
        · cases h
          rfl
      · cases h
        rfl

/-- **The parser of responses** raises bridge errors only, exactly if the response is not
misshapen. -/
theorem parseResponse_onlyBridgeErrors {message raw : List (PyKey × PyVal)} {generation : Int}
    {requestId operationId : String} (hrequest : get "request_id" message = .str requestId)
    (hoperation : get "operation_id" message = .str operationId)
    (hgeneration : get "expected_bridge_generation" message = .int generation) :
    OnlyBridgeErrors (parseResponse printing generation raw requestId operationId) ↔
      ¬ MisshapenResponse message raw := by
  constructor
  · rintro h ⟨htype, hrequest', hoperation', ⟨n, hn, hequals⟩, name, hname⟩
    cases hgeneration.symm.trans hn
    rw [hrequest] at hrequest'
    rw [hoperation] at hoperation'
    have hraise : parseResponse printing generation raw requestId operationId
        = .error (.builtin .typeError ("unhashable type: " ++ strRepr name)) := by
      rw [parseResponse, PyVal.isStr_iff.mpr htype, PyVal.isStr_iff.mpr hrequest',
        PyVal.isStr_iff.mpr hoperation', hequals, memberOf_of_unhashable hname]
      rfl
    cases h _ hraise
  · exact fun hshapely e h =>
      (parseResponse_raises hrequest hoperation hgeneration h).resolve_right hshapely

end

/-! ## Frames -/

/-- The frame of the message, where there is one, has a length that its header can carry. -/
def Packs (json : Json) (maxFrameBytes : ℕ) (message : List (PyKey × PyVal)) : Prop :=
  ∀ text, json.dumps (.dict message) = some text →
    (Lib.encodeUtf8 text).length ≤ maxFrameBytes → (Lib.encodeUtf8 text).length < 2 ^ 32

section

variable {ω : Type} {json : Json} {maxFrameBytes : ℕ} {network : Network ω} {sock : ℕ}

/-- Encoding a message raises something else only if json.dumps does, which knows values that are
not JSON. -/
theorem encode_onlyBridgeErrors {message : List (PyKey × PyVal)} :
    OnlyBridgeErrors (FrameCodec.encode json maxFrameBytes (.dict message)) ↔
      Packs json maxFrameBytes message := by
  unfold FrameCodec.encode Packs
  cases json.dumps (.dict message) with
  | none =>
      refine ⟨fun _ _ hnone => ?_, fun _ e h => ?_⟩
      · cases hnone
      · cases h
        rfl
  | some text =>
      dsimp only
      constructor
      · rintro h _ ⟨rfl⟩ hmax
        by_contra hlong
        -- the text is not empty, fits the maximum, and does not fit the header
        rw [if_neg, if_neg (Nat.not_lt_of_le hmax), if_pos (Nat.le_of_not_lt hlong)] at h
        · cases h _ rfl
        · intro hnone
          rw [hnone] at hlong
          exact hlong (by decide)
      · intro hpacks e h
        split at h
        · cases h
          rfl
        split at h
        · cases h
          rfl
        rename_i hmax
        rw [if_neg (Nat.not_le_of_lt (hpacks text rfl (Nat.le_of_not_lt hmax)))] at h
        cases h

/-- What the network does while a chunk is read comes out as a BridgeError. -/
theorem recvChunk_raises {remaining : ℕ} {w u : ω} {e : BridgeExc}
    (h : FrameCodec.recvChunk network sock remaining w = .error e u) : e.isBridgeError = true := by
  unfold FrameCodec.recvChunk at h
  split at h
  · cases h
    rfl
  · cases h
    rfl
  · split at h
    · cases h
      rfl
    · cases h

/-- **Receiving** raises bridge errors only, whatever the bytes are. -/
theorem recv_onlyRaises (w : ω) :
    OnlyRaises (fun e => e.isBridgeError = true)
      (FrameCodec.recv json maxFrameBytes network sock) w := by
  have hexact : ∀ count v, OnlyRaises (fun e => e.isBridgeError = true)
      (FrameCodec.recvExact network sock count) v := fun _ _ _ _ h =>
    Lib.readExactly_raises (fun hread => recvChunk_raises hread) h
  refine onlyRaises_bind.mpr ⟨hexact 4 w, fun header v _ => ?_⟩
  dsimp only
  split
  · exact (onlyRaises_of_error rfl).mpr rfl
  split
  · exact (onlyRaises_of_error rfl).mpr rfl
  refine onlyRaises_bind.mpr ⟨hexact _ v, fun payload u _ => ?_⟩
  cases hdecode : FrameCodec.decode json payload with
  | ok value => exact onlyRaises_of_ok rfl
  | error e =>
      refine (onlyRaises_of_error rfl).mpr ?_
      unfold FrameCodec.decode at hdecode
      split at hdecode
      · cases hdecode
        rfl
      · cases hdecode
      · cases hdecode
        rfl

end

/-! ## The client

What a method raises is what one of its calls raised, and the handlers of `connect` raise it again.
-/

section

variable {ω α : Type} {env : BridgeEnv ω} {options : ClientOptions} {c : Client ω}

/-- What the call raises, if it raises, is a `BridgeError`. -/
def RaisesBridgeErrors (m : ClientM ω α) (c : Client ω) : Prop :=
  OnlyRaises (fun e => e.isBridgeError = true) m c

/-- Sockets can be made and closed. -/
structure Network.Opens (network : Network ω) : Prop where
  socket : ∀ w, ∃ u, network.socket w = .ok () u
  close : ∀ sock w, ∃ u, network.close sock w = .ok () u

/-- The frame of the message can be made, and the frame that comes back for it, if one does, is not
misshapen. -/
structure Client.Meets (env : BridgeEnv ω) (options : ClientOptions)
    (message : List (PyKey × PyVal)) (misshapen : List (PyKey × PyVal) → Prop)
    (c : Client ω) : Prop where
  packs : Packs env.json options.maxFrameBytes message
  received : ∀ raw t, exchange env options message c = .ok raw t → ¬ misshapen raw

/-- A pure part of the client raises what it raises in any state. -/
theorem raises_ofExcept {x : Except BridgeExc α} :
    RaisesBridgeErrors (ofExcept x) c ↔ OnlyBridgeErrors x := by
  cases x with
  | ok a =>
      refine ⟨fun _ e h => ?_, fun _ => onlyRaises_of_ok rfl⟩
      cases h
  | error e =>
      refine (onlyRaises_of_error rfl).trans ⟨fun he e' h => ?_, fun h => h e rfl⟩
      cases h
      exact he

/-- A part that only touches the network raises what it raises of the world. -/
theorem raises_onWorld {m : EStateM BridgeExc ω α}
    (h : OnlyRaises (fun e => e.isBridgeError = true) m c.world) :
    RaisesBridgeErrors (onWorld m) c :=
  (ends_onWorld (Q := fun _ _ => True) (E := fun e _ => e.isBridgeError = true)
    (fun _ _ _ => trivial) (fun e w hrun => h e w hrun)).onlyRaises (fun _ _ he => he)

/-- Sending raises BridgeErrors only, exactly if the message can be packed. -/
theorem raises_send {message : List (PyKey × PyVal)} {sock : ℕ} (hsock : c.socket = some sock) :
    RaisesBridgeErrors (send env options message) c ↔
      Packs env.json options.maxFrameBytes message := by
  rw [← encode_onlyBridgeErrors]
  cases hencode : FrameCodec.encode env.json options.maxFrameBytes (.dict message) with
  | error e =>
      refine (onlyRaises_of_error (send_unencoded hsock hencode)).trans
        ⟨fun he e' h => ?_, fun h => h e rfl⟩
      cases h
      exact he
  | ok frame =>
      refine ⟨fun _ e h => ?_, fun _ => ?_⟩
      · cases h
      · obtain ⟨world, socket, session, sockets, uuids, clockReads, trace⟩ := c
        obtain rfl : socket = some sock := hsock
        refine onlyRaises_bind.mpr ⟨onlyRaises_of_ok rfl, fun c t hget => ?_⟩
        cases hget
        refine onlyRaises_bind.mpr ⟨?_, fun frame t _ => ?_⟩
        · exact raises_ofExcept.mpr (fun e he => by rw [hencode] at he; cases he)
        · refine onlyRaises_bind.mpr ⟨onlyRaises_of_ok rfl, fun _ u _ => raises_onWorld ?_⟩
          intro e w h
          unfold raising at h
          split at h
          · cases h
          · cases h
            rfl

/-- Receiving raises BridgeErrors only, whatever comes. -/
theorem raises_receive : RaisesBridgeErrors (receive env options) c := by
  refine onlyRaises_bind.mpr ⟨onlyRaises_of_ok rfl, fun c t hget => ?_⟩
  cases hget
  cases c.socket with
  | none => exact (onlyRaises_of_error rfl).mpr rfl
  | some sock =>
      refine onlyRaises_bind.mpr ⟨raises_onWorld (recv_onlyRaises _), fun raw u _ => ?_⟩
      exact onlyRaises_of_ok rfl

/-- A message and its answer: only the packing can raise something else. -/
theorem raises_exchange {message : List (PyKey × PyVal)} {sock : ℕ} (hsock : c.socket = some sock) :
    RaisesBridgeErrors (exchange env options message) c ↔
      Packs env.json options.maxFrameBytes message := by
  rw [RaisesBridgeErrors, exchange, onlyRaises_bind]
  exact (and_iff_left (fun _ _ _ => raises_receive)).trans (raises_send hsock)

/-- **A message that is exchanged** for a frame, and what is done with the frame. -/
theorem raises_exchange_bind {message : List (PyKey × PyVal)} {sock : ℕ}
    (hsock : c.socket = some sock) {misshapen : List (PyKey × PyVal) → Prop}
    {f : List (PyKey × PyVal) → ClientM ω α}
    (hf : ∀ raw t, RaisesBridgeErrors (f raw) t ↔ ¬ misshapen raw) :
    RaisesBridgeErrors (exchange env options message >>= f) c ↔
      c.Meets env options message misshapen := by
  refine onlyRaises_bind.trans ((and_congr (raises_exchange hsock) ?_).trans
    ⟨fun h => ⟨h.1, h.2⟩, fun h => ⟨h.packs, h.received⟩⟩)
  exact forall_congr' (fun raw => forall_congr' (fun t => imp_congr_right (fun _ => hf raw t)))

/-- The handshake raises something else exactly if the peer answers with an ack of the wrong shape.
-/
theorem raises_handshake {uid : Option Int} {verified : Bool} {sock : ℕ}
    (hsock : c.socket = some sock) :
    RaisesBridgeErrors (handshake env options uid verified) c ↔
      c.Meets env options (helloMessage options) MisshapenAck := by
  refine raises_exchange_bind hsock (fun ack t => ?_)
  have hparse : OnlyBridgeErrors (parseHelloAck env.printing ack uid verified) ↔
      ¬ MisshapenAck ack := parseHelloAck_onlyBridgeErrors
  refine onlyRaises_bind.trans ((and_iff_left (fun _ _ _ => onlyRaises_of_ok rfl)).trans ?_)
  exact raises_ofExcept.trans hparse

/-- Closing and raising raises what is given. -/
theorem raises_close_throw {e : BridgeExc} :
    RaisesBridgeErrors (close env >>= fun _ => (throw e : ClientM ω α)) c ↔
      e.isBridgeError = true := by
  cases hclose : close env c with
  | error e' t => exact (ends_close.raised hclose).elim
  | ok a t =>
      have hraise : (close env >>= fun _ => (throw e : ClientM ω α)) c = .error e t := by
        simp only [bind, EStateM.bind, hclose]
        rfl
      exact onlyRaises_of_error hraise

/-- Closing a socket swallows what the system reports. -/
theorem raises_closeSocket (hopens : env.network.Opens) (sock : ℕ) :
    RaisesBridgeErrors (closeSocket env sock) c := by
  obtain ⟨u, hclose⟩ := hopens.close sock c.world
  have hrun : raising OsError.uncaught (env.network.close sock) c.world = .ok () u := by
    simp only [raising, hclose]
  exact raises_onWorld (onlyRaises_of_ok hrun)

/-- A part that catches what the system reports raises nothing of its own. -/
theorem onlyRaises_attempt {E : BridgeExc → Prop} (m : EStateM OsError ω α) (w : ω) :
    OnlyRaises E (attempt m) w := by
  intro e u h
  unfold attempt at h
  split at h
  · cases h
  · cases h

/-- Asking for the peer's user raises nothing. -/
theorem onlyRaises_peerUid {E : BridgeExc → Prop} (network : Network ω) (sock : ℕ) (w : ω) :
    OnlyRaises E (peerUid network sock) w := by
  unfold peerUid
  split
  · exact onlyRaises_attempt _ w
  dsimp only
  split
  · refine onlyRaises_bind.mpr ⟨onlyRaises_attempt _ w, fun uid u _ => ?_⟩
    split
    · exact onlyRaises_of_ok rfl
    · split
      · exact onlyRaises_attempt _ u
      · exact onlyRaises_of_ok rfl
  · refine onlyRaises_bind.mpr ⟨onlyRaises_of_ok rfl, fun uid u _ => ?_⟩
    split
    · exact onlyRaises_of_ok rfl
    · split
      · exact onlyRaises_attempt _ u
      · exact onlyRaises_of_ok rfl

/-- Dialling raises BridgeErrors only, of a client whose path can be encoded and whose timeouts the
socket takes. -/
theorem raises_dial (hopens : env.network.Opens) (husable : options.Usable) :
    RaisesBridgeErrors (dial env options) c := by
  refine onlyRaises_bind.mpr ⟨onlyRaises_of_ok rfl, fun c t hget => ?_⟩
  cases hget
  refine onlyRaises_bind.mpr ⟨?_, fun _ t _ => ?_⟩
  · obtain ⟨u, hsocket⟩ := hopens.socket c.world
    have hrun : raising OsError.uncaught env.network.socket c.world = .ok () u := by
      simp only [raising, hsocket]
    exact raises_onWorld (onlyRaises_of_ok hrun)
  refine onlyRaises_bind.mpr ⟨onlyRaises_of_ok rfl, fun _ t _ => ?_⟩
  rw [husable.connectTimeout]
  refine onlyRaises_bind.mpr ⟨onlyRaises_of_ok rfl, fun _ t _ => ?_⟩
  refine onlyRaises_bind.mpr ⟨?_, fun answer t _ => ?_⟩
  · rw [connectSocket, husable.socketPath]
    refine onlyRaises_bind.mpr ⟨onlyRaises_of_ok rfl, fun _ t _ => ?_⟩
    exact raises_onWorld (onlyRaises_attempt _ _)
  cases answer with
  | none =>
      refine onlyRaises_bind.mpr ⟨raises_closeSocket hopens _, fun _ t _ => ?_⟩
      exact (onlyRaises_of_error rfl).mpr rfl
  | some _ =>
      refine onlyRaises_bind.mpr ⟨raises_onWorld (onlyRaises_peerUid _ _ _), fun uid t _ => ?_⟩
      dsimp only
      split
      · refine onlyRaises_bind.mpr ⟨raises_closeSocket hopens _, fun _ t _ => ?_⟩
        split
        · exact (onlyRaises_of_error rfl).mpr rfl
        · exact (onlyRaises_of_error rfl).mpr rfl
      · rw [husable.requestTimeout]
        exact onlyRaises_of_ok rfl

/-- The handler that closes the socket and raises again changes nothing of what is raised. -/
theorem raises_handling_close {m : ClientM ω α} :
    RaisesBridgeErrors (handling m (fun e => close env >>= fun _ => throw e)) c ↔
      RaisesBridgeErrors m c :=
  onlyRaises_handling.trans
    (forall_congr' (fun _ => forall_congr' (fun _ =>
      imp_congr_right (fun _ => raises_close_throw))))

/-- So connecting raises something else exactly if the peer it reaches answers with such an ack. -/
theorem raises_connect (hopens : env.network.Opens) (husable : options.Usable) :
    RaisesBridgeErrors (connect env options) c ↔
      (c.connected = false → ∀ dialled t, dial env options c = .ok dialled t →
        t.Meets env options (helloMessage options) MisshapenAck) := by
  cases hconnected : c.connected with
  | true =>
      refine ⟨fun _ hnot => ?_, fun _ => ?_⟩
      · cases hnot
      · exact (onlyRaises_of_error (connect_of_connected hconnected)).mpr rfl
  | false =>
      rw [RaisesBridgeErrors, OnlyRaises, connect_of_unconnected hconnected]
      refine (onlyRaises_bind.trans (and_iff_right (raises_dial hopens husable))).trans ?_
      refine Iff.trans ?_ ⟨fun h _ => h, fun h => h rfl⟩
      refine forall_congr' (fun dialled => forall_congr' (fun t =>
        imp_congr_right (fun hdial => ?_)))
      -- dialling has given the client its socket, and closing it raises nothing of its own
      have hsock : t.socket = some c.sockets := congrArg Prod.fst (ends_dial.returned hdial).1
      exact raises_handling_close.trans (raises_handshake hsock)

/-- With valid arguments no check raises anything else. -/
theorem checkRequest_raises {args : RequestArgs} (hoperation : args.operationId ≠ "")
    (hmethod : isMethod args.method = true) (hdeadline : 0 < args.deadlineAfterMs) {e : BridgeExc}
    (h : c.checkRequest env args = .error e) : e.isBridgeError = true := by
  unfold Client.checkRequest at h
  split at h
  · rw [if_neg hoperation, if_neg (by rw [hmethod]; decide), if_neg (Int.not_le.mpr hdeadline)] at h
    split at h
    · cases h
      rfl
    · split at h
      · cases h
        rfl
      · cases h
        rfl
      · cases h
  · cases h
    rfl

/-- And a request with valid arguments, exactly if the response is misshapen. -/
theorem raises_request {args : RequestArgs} (hoperation : args.operationId ≠ "")
    (hmethod : isMethod args.method = true) (hdeadline : 0 < args.deadlineAfterMs) :
    RaisesBridgeErrors (request env options args) c ↔
      ∀ session, c.checkRequest env args = .ok session →
        c.stamped.Meets env options (c.nextMessage env args session)
          (MisshapenResponse (c.nextMessage env args session)) := by
  cases hchecked : c.checkRequest env args with
  | error e =>
      have hraise : request env options args c = .error e c := by
        rw [request_eq, hchecked]
        rfl
      refine ⟨fun _ _ hok => ?_, fun _ => ?_⟩
      · cases hok
      · have he := checkRequest_raises hoperation hmethod hdeadline hchecked
        exact (onlyRaises_of_error hraise).mpr he
  | ok session =>
      obtain ⟨⟨sock, hheld⟩, _⟩ := Client.checkRequest_ok hchecked
      have hsock : c.stamped.socket = some sock := congrArg Prod.fst hheld
      rw [RaisesBridgeErrors, OnlyRaises, request_of_admitted hchecked]
      refine (raises_exchange_bind hsock (fun raw t => ?_)).trans
        ⟨fun h session' hsame => ?_, fun h => h session rfl⟩
      · exact raises_ofExcept.trans (parseResponse_onlyBridgeErrors rfl rfl rfl)
      · cases hsame
        exact h

end

/-- **Malformed frames raise bridge errors only**, apart from the misshapen ones: with sockets that
open, `connect` and `request` with valid arguments return or raise a `BridgeError` exactly if the
frame of their message can be made and what comes back for it is not misshapen. -/
theorem bridge_errors_only_iff {ω : Type} (env : BridgeEnv ω) (options : ClientOptions)
    (hopens : env.network.Opens) (husable : options.Usable) (c : Client ω) :
    (RaisesBridgeErrors (connect env options) c ↔
      (c.connected = false → ∀ dialled t, dial env options c = .ok dialled t →
        t.Meets env options (helloMessage options) MisshapenAck)) ∧
    ∀ args : RequestArgs, args.operationId ≠ "" → isMethod args.method = true →
      0 < args.deadlineAfterMs →
      (RaisesBridgeErrors (request env options args) c ↔
        ∀ session, c.checkRequest env args = .ok session →
          c.stamped.Meets env options (c.nextMessage env args session)
            (MisshapenResponse (c.nextMessage env args session))) :=
  ⟨raises_connect hopens husable, fun _ hoperation hmethod hdeadline =>
    raises_request hoperation hmethod hdeadline⟩

/-- The network of the examples opens sockets as a network does. -/
theorem opens_pieces : piecesNetwork.Opens where
  socket := fun pieces => ⟨pieces, rfl⟩
  close := fun _ pieces => ⟨pieces, rfl⟩

/-- A peer that accepts the session, a client that connects to it, and then asks it. -/
theorem bridge_errors_only_iff_small :
    (RaisesBridgeErrors (connect (Small.env [Small.helloAck]) Small.options)
        (Small.client [Small.helloAck]) ↔
      ∀ dialled t,
        dial (Small.env [Small.helloAck]) Small.options (Small.client [Small.helloAck])
          = .ok dialled t →
        t.Meets (Small.env [Small.helloAck]) Small.options (helloMessage Small.options)
          MisshapenAck) ∧
    ∀ c : Client (List Piece),
      (RaisesBridgeErrors (request (Small.env [Small.helloAck]) Small.options Small.args) c ↔
        ∀ session, c.checkRequest (Small.env [Small.helloAck]) Small.args = .ok session →
          c.stamped.Meets (Small.env [Small.helloAck]) Small.options
            (c.nextMessage (Small.env [Small.helloAck]) Small.args session)
            (MisshapenResponse
              (c.nextMessage (Small.env [Small.helloAck]) Small.args session))) := by
  have hboth := bridge_errors_only_iff (Small.env [Small.helloAck]) Small.options opens_pieces
    Small.usable_options
  refine ⟨(hboth (Small.client [Small.helloAck])).1.trans ⟨fun h => h rfl, fun h _ => h⟩, ?_⟩
  exact fun c => (hboth c).2 Small.args (by decide) (by decide +kernel) (by decide)

/-- A peer that refuses with a text, not an object. -/
def Small.refusal : PyVal :=
  .dict (payload [("type", .str "error"), ("error", .str "denied")])

/-- Its refusal raises an `AttributeError`. -/
theorem bridge_errors_only_fails :
    piecesNetwork.Opens ∧ Small.options.Usable ∧
      ¬ RaisesBridgeErrors (connect (Small.env [Small.refusal]) Small.options)
        (Small.client [Small.refusal]) := by
  refine ⟨opens_pieces, Small.usable_options, fun h => ?_⟩
  have hraise : (match connect (Small.env [Small.refusal]) Small.options
      (Small.client [Small.refusal]) with
    | .ok _ _ => true
    | .error e _ => e.isBridgeError) = false := by decide +kernel
  split at hraise
  · cases hraise
  · rename_i e t hrun
    cases (h e t hrun).symm.trans hraise

end LiandanluNative.Bridge
