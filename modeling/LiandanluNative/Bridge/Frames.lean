/-
# LiandanluNative.Bridge.Frames — sockets and `FrameCodec` of `desktop_bridge.py`.

A frame is the length of its payload in four bytes and the payload, the UTF-8 encoding of a JSON
object.  The operating system and the peer behind it are a `Network`: any function of a state of its
own, so a peer may send whatever bytes it likes, late, in pieces or not at all.  `_recv_exact` is
`Lib.readExactly`, the loop over `sock.recv`.
-/
import LiandanluNative.Bridge.Messages
import LiandanluNative.Lib.Bytes
import LiandanluNative.Lib.Reading

namespace LiandanluNative.Bridge

/-! ## Sockets

The calls of the `socket` module that the bridge makes, on whatever is behind them: a network is
given by what each call does to its state, and every one may raise.
-/

/-- An `OSError`. -/
inductive OsError where
  /-- `socket.timeout` -/
  | timedOut
  | failed (text : String)
  deriving DecidableEq, Repr

/-- A timeout: `None`, a number of seconds, or a float that is none. -/
inductive Timeout where
  | blocking
  | seconds (s : ℚ)
  | nan
  | infinite
  deriving DecidableEq, Repr

/-- `sock.settimeout`, which keeps the time in nanoseconds and waits it in the milliseconds of a C
`int`: what it raises for a timeout it does not take. -/
def settimeout : Timeout → Except BridgeExc Unit
  | .blocking => .ok ()
  | .nan => .error (.builtin .valueError "Invalid value NaN (not a number)")
  | .infinite => .error (.builtin .overflowError "timestamp too large to convert to C PyTime_t")
  | .seconds s =>
      if s * 10 ^ 9 < -2 ^ 63 ∨ 2 ^ 63 ≤ s * 10 ^ 9 then
        .error (.builtin .overflowError "timestamp too large to convert to C PyTime_t")
      else if s < 0 then
        .error (.builtin .valueError "Timeout value out of range")
      else if 2 ^ 31 - 1 < s * 1000 then
        .error (.builtin .overflowError "timeout doesn't fit into C timeval")
      else
        .ok ()

/-- `os.fsencode` of a path, as a call makes it: of the surrogates it takes those that stand for
bytes. -/
def fsencode (path : String) : Except BridgeExc Unit :=
  if path.toList.all
      (fun c => decide (c.toNat < 0x10F800 ∨ 0x10FC80 ≤ c.toNat ∧ c.toNat < 0x10FD00)) then
    .ok ()
  else
    .error (.builtin .unicodeEncodeError "surrogates not allowed")

/-- What the calls on sockets do, `ω` being the state of everything behind them. Sockets are
numbers, in the order in which they were made. Of the ways to ask for the peer's user a platform has
some. -/
structure Network (ω : Type) where
  /-- `socket.socket(socket.AF_UNIX, socket.SOCK_STREAM)` -/
  socket : EStateM OsError ω Unit
  connect : ℕ → String → EStateM OsError ω Unit
  sendall : ℕ → List UInt8 → EStateM OsError ω Unit
  recv : ℕ → (size : ℕ) → EStateM OsError ω { chunk : List UInt8 // chunk.length ≤ size }
  close : ℕ → EStateM OsError ω Unit
  /-- `sock.getpeereid()` -/
  getpeereid : Option (ℕ → EStateM OsError ω Int) := none
  /-- `libc.getpeereid` of a Mac, `none` where it fails. -/
  libcGetpeereid : Option (ℕ → EStateM OsError ω (Option Int)) := none
  /-- `sock.getsockopt(socket.SOL_SOCKET, socket.SO_PEERCRED, …)` -/
  soPeercred : Option (ℕ → EStateM OsError ω Int) := none

section

variable {ω α : Type}

/-- `try: … except OSError as exc: raise …` -/
def raising (exc : OsError → BridgeExc) (m : EStateM OsError ω α) : EStateM BridgeExc ω α :=
  fun w =>
    match m w with
    | .ok a w => .ok a w
    | .error e w => .error (exc e) w

/-- `try: … except OSError: …` around a call whose answer is `none` where it fails. -/
def attempt (m : EStateM OsError ω α) : EStateM BridgeExc ω (Option α) := fun w =>
  match m w with
  | .ok a w => .ok (some a) w
  | .error _ w => .ok none w

/-- An `OSError` that nobody catches. -/
def OsError.uncaught : OsError → BridgeExc
  | .timedOut => .builtin .osError "timed out"
  | .failed text => .builtin .osError text

end

/-! ## The codec

A frame is four bytes with a length, and as many bytes of text.  A limit on the length is checked on
the way out and, before a byte of the text is read, on the way in.
-/

/-- `json.dumps` as `encode` calls it and `json.loads`; `none` is an exception. -/
structure Json where
  dumps : PyVal → Option String
  loads : String → Option PyVal

namespace FrameCodec

variable (json : Json) (maxFrameBytes : ℕ)

/-- `encode` -/
def encode (message : PyVal) : Except BridgeExc (List UInt8) :=
  match message with
  | .dict _ =>
      match json.dumps message with
      | none => .error (.protocolError "frame is not JSON serializable")
      | some text =>
          let payload := Lib.encodeUtf8 text
          if payload = [] then
            .error (.protocolError "empty frame is not allowed")
          else if maxFrameBytes < payload.length then
            .error (.protocolError ("frame exceeds maximum size: " ++ toString payload.length
              ++ " > " ++ toString maxFrameBytes))
          else if 2 ^ 32 ≤ payload.length then
            .error (.builtin .structError "argument out of range")
          else
            .ok (Lib.bigEndian 4 payload.length ++ payload)
  | _ => .error (.protocolError "frame payload must be a JSON object")

variable {ω : Type} (network : Network ω) (sock : ℕ)

/-- A round of the loop of `_recv_exact`. -/
def recvChunk (remaining : ℕ) : EStateM BridgeExc ω (Lib.Chunk UInt8 remaining) := fun w =>
  match network.recv sock remaining w with
  | .error .timedOut w => .error (.transportError "socket receive timed out") w
  | .error (.failed text) w => .error (.transportError ("socket receive failed: " ++ text)) w
  | .ok chunk w =>
      if h : chunk.val = [] then
        .error (.transportError "socket closed before frame completed") w
      else
        .ok ⟨chunk.val, h, chunk.property⟩ w

/-- `_recv_exact` -/
def recvExact (count : ℕ) : EStateM BridgeExc ω (List UInt8) :=
  Lib.readExactly (recvChunk network sock) count

/-- What a payload carries. -/
def decode (payload : List UInt8) : Except BridgeExc (List (PyKey × PyVal)) :=
  match (Lib.decodeUtf8 payload).bind json.loads with
  | none => .error (.protocolError "incoming frame is not valid UTF-8 JSON")
  | some (.dict value) => .ok value
  | some _ => .error (.protocolError "incoming frame must contain a JSON object")

/-- `recv` -/
def recv : EStateM BridgeExc ω (List (PyKey × PyVal)) := do
  let header ← recvExact network sock 4
  let length := Lib.ofBigEndian header
  if length = 0 then
    throw (.protocolError "frame length must be positive")
  else if maxFrameBytes < length then
    throw (.protocolError ("incoming frame exceeds maximum size: " ++ toString length ++ " > "
      ++ toString maxFrameBytes))
  else do
    let payload ← recvExact network sock length
    match decode json payload with
    | .error e => throw e
    | .ok value => return value

/-! ## What encoding and receiving do -/

variable {json maxFrameBytes network sock}

/-- A frame is its header and its payload. -/
theorem encode_eq_ok {message : List (PyKey × PyVal)} {frame : List UInt8}
    (h : encode json maxFrameBytes (.dict message) = .ok frame) :
    ∃ text, json.dumps (.dict message) = some text ∧ Lib.encodeUtf8 text ≠ [] ∧
      (Lib.encodeUtf8 text).length ≤ maxFrameBytes ∧ (Lib.encodeUtf8 text).length < 2 ^ 32 ∧
      frame = Lib.bigEndian 4 (Lib.encodeUtf8 text).length ++ Lib.encodeUtf8 text := by
  unfold encode at h
  cases hdumps : json.dumps (.dict message) with
  | none =>
      rw [hdumps] at h
      cases h
  | some text =>
      rw [hdumps] at h
      dsimp only at h
      split at h
      · cases h
      rename_i hsome
      split at h
      · cases h
      rename_i hmax
      split at h
      · cases h
      rename_i hfits
      cases h
      exact ⟨text, rfl, hsome, Nat.le_of_not_lt hmax, Nat.lt_of_not_le hfits, rfl⟩

/-- Receiving from a network of which it is known what lies ahead. -/
theorem delivers_recvChunk {β : Type} {ahead : ω → List UInt8} {others : ω → β}
    (h : ∀ {w size}, 0 < size → ahead w ≠ [] → ∃ chunk u, network.recv sock size w = .ok chunk u ∧
      chunk.val ≠ [] ∧ ahead w = chunk.val ++ ahead u ∧ others u = others w) :
    Lib.Delivers (recvChunk network sock) ahead others where
  some := by
    intro w size hsize hahead
    obtain ⟨chunk, u, hrun, hsome, hchunk, hothers⟩ := h hsize hahead
    refine ⟨⟨chunk.val, hsome, chunk.property⟩, u, ?_, hchunk, hothers⟩
    simp only [recvChunk, hrun, dif_neg hsome]

/-- **A frame that lies ahead is received**, and nothing after it. -/
theorem recv_of_ahead {β : Type} {ahead : ω → List UInt8} {others : ω → β}
    (hdelivers : Lib.Delivers (recvChunk network sock) ahead others)
    {message : List (PyKey × PyVal)} {frame later : List UInt8}
    (hencode : encode json maxFrameBytes (.dict message) = .ok frame)
    (hloads : (json.dumps (.dict message)).bind json.loads = some (.dict message)) {w : ω}
    (hahead : ahead w = frame ++ later) :
    ∃ u, recv json maxFrameBytes network sock w = .ok message u ∧ ahead u = later ∧
      others u = others w := by
  obtain ⟨text, hdumps, hsome, hmax, hfits, rfl⟩ := encode_eq_ok hencode
  rw [hdumps] at hloads
  rw [List.append_assoc] at hahead
  obtain ⟨v, hheader, hpayload, hothers⟩ := Lib.readExactly_of_ahead hdelivers hahead
  obtain ⟨u, hbody, hlater, hothers'⟩ := Lib.readExactly_of_ahead hdelivers hpayload
  rw [Lib.length_bigEndian] at hheader
  have hlength : Lib.ofBigEndian (Lib.bigEndian 4 (Lib.encodeUtf8 text).length)
      = (Lib.encodeUtf8 text).length := Lib.ofBigEndian_bigEndian hfits
  have hpos : (Lib.encodeUtf8 text).length ≠ 0 := fun h => hsome (List.length_eq_zero_iff.mp h)
  have hdecode : decode json (Lib.encodeUtf8 text) = .ok message := by
    rw [decode, Lib.decodeUtf8_encodeUtf8, Option.bind_some, show json.loads text = _ from hloads]
  refine ⟨u, ?_, hlater, hothers'.trans hothers⟩
  simp only [recv, recvExact, bind, EStateM.bind, hheader, hlength, if_neg hpos,
    if_neg (Nat.not_lt_of_le hmax), hbody, hdecode]
  rfl

/-- **A declared length that is not allowed** is refused after the header. -/
theorem recv_of_header {β : Type} {ahead : ω → List UInt8} {others : ω → β}
    (hdelivers : Lib.Delivers (recvChunk network sock) ahead others) {header later : List UInt8}
    (hheader : header.length = 4)
    (hbad : Lib.ofBigEndian header = 0 ∨ maxFrameBytes < Lib.ofBigEndian header) {w : ω}
    (hahead : ahead w = header ++ later) :
    ∃ text u, recv json maxFrameBytes network sock w = .error (.protocolError text) u ∧
      ahead u = later ∧ others u = others w := by
  obtain ⟨u, hrun, hlater, hothers⟩ := Lib.readExactly_of_ahead hdelivers hahead
  rw [hheader] at hrun
  by_cases hzero : Lib.ofBigEndian header = 0
  · refine ⟨"frame length must be positive", u, ?_, hlater, hothers⟩
    simp only [recv, recvExact, bind, EStateM.bind, hrun, if_pos hzero]
    rfl
  · refine ⟨"incoming frame exceeds maximum size: " ++ toString (Lib.ofBigEndian header) ++ " > "
      ++ toString maxFrameBytes, u, ?_, hlater, hothers⟩
    simp only [recv, recvExact, bind, EStateM.bind, hrun, if_neg hzero,
      if_pos (hbad.resolve_left hzero)]
    rfl

/-- **A frame of which only a part lies ahead** is not received; what there is of it is used up. -/
theorem recv_of_short {β : Type} {ahead : ω → List UInt8} {others : ω → β}
    (hdelivers : Lib.Delivers (recvChunk network sock) ahead others) {E : BridgeExc → Prop}
    (hfails : ∀ {w size}, 0 < size → ahead w = [] → ∃ e u,
      recvChunk network sock size w = .error e u ∧ E e ∧ ahead u = [] ∧ others u = others w)
    {message : List (PyKey × PyVal)} {frame : List UInt8}
    (hencode : encode json maxFrameBytes (.dict message) = .ok frame) {w : ω}
    (hahead : ahead w <+: frame) (hshort : (ahead w).length < frame.length) :
    ∃ e u, recv json maxFrameBytes network sock w = .error e u ∧ E e ∧ ahead u = [] ∧
      others u = others w := by
  obtain ⟨text, hdumps, hsome, hmax, hfits, rfl⟩ := encode_eq_ok hencode
  by_cases hheader : (ahead w).length < 4
  · obtain ⟨e, u, hrun, he, hnone, hothers⟩ := Lib.readExactly_of_short hdelivers hfails hheader
    exact ⟨e, u, Lib.Proc.after_bind_error hrun, he, hnone, hothers⟩
  -- the header is there, and a part of the payload
  obtain ⟨part, hpart⟩ : ∃ part,
      ahead w = Lib.bigEndian 4 (Lib.encodeUtf8 text).length ++ part := by
    have hprefix := List.prefix_of_prefix_length_le
      (List.prefix_append (Lib.bigEndian 4 (Lib.encodeUtf8 text).length) (Lib.encodeUtf8 text))
      hahead (by rw [Lib.length_bigEndian]; omega)
    exact hprefix.imp (fun _ h => h.symm)
  obtain ⟨v, hread, hrest, hothers⟩ := Lib.readExactly_of_ahead hdelivers hpart
  rw [Lib.length_bigEndian] at hread
  have hless : (ahead v).length < (Lib.encodeUtf8 text).length := by
    rw [hpart, List.length_append, List.length_append] at hshort
    rw [hrest]
    omega
  obtain ⟨e, u, hrun, he, hnone, hothers'⟩ := Lib.readExactly_of_short hdelivers hfails hless
  have hlength : Lib.ofBigEndian (Lib.bigEndian 4 (Lib.encodeUtf8 text).length)
      = (Lib.encodeUtf8 text).length := Lib.ofBigEndian_bigEndian hfits
  have hpos : (Lib.encodeUtf8 text).length ≠ 0 := fun h => hsome (List.length_eq_zero_iff.mp h)
  refine ⟨e, u, ?_, he, hnone, hothers'.trans hothers⟩
  simp only [recv, recvExact, bind, EStateM.bind, hread, hlength, if_neg hpos,
    if_neg (Nat.not_lt_of_le hmax), hrun]

end FrameCodec

end LiandanluNative.Bridge
