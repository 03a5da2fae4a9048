/-
# LiandanluNative.Safety.FrameRoundTrip — frames survive any fragmentation.

A stream of frames is received as the messages that were encoded, each call using up its own frame,
in whatever pieces the stream arrives; and of a frame whose declared length is not allowed nothing
is read but the header (`frames_round_trip`).  What `json` does to a text is a parameter: of the
messages it is assumed that loading what was dumped gives them back.

A message goes through four things: it is dumped, its text encoded, its length put before it, and
the stream cut in pieces.  `Bridge.Pieces` puts the stream together again, `Lib.Bytes` undoes the
length and the encoding, and that loading undoes the dump is the assumption.
-/
import LiandanluNative.Bridge.Pieces

namespace LiandanluNative.Bridge

open PyVal (payload)

/-- The first calls of `FrameCodec.recv`, and what they return. -/
def receiveMany {ω : Type} (json : Json) (maxFrameBytes : ℕ) (network : Network ω) (sock : ℕ) :
    ℕ → EStateM BridgeExc ω (List (List (PyKey × PyVal)))
  | 0 => pure []
  | count + 1 => do
      let message ← FrameCodec.recv json maxFrameBytes network sock
      let messages ← receiveMany json maxFrameBytes network sock count
      return message :: messages

/-- A message is dumped to a text that loads as it again, and that fits into a frame. -/
structure Json.Carries (json : Json) (maxFrameBytes : ℕ) (message : List (PyKey × PyVal)) :
    Prop where
  loads : (json.dumps (.dict message)).bind json.loads = some (.dict message)
  fits : ∀ text, json.dumps (.dict message) = some text →
    (Lib.encodeUtf8 text).length ≤ maxFrameBytes

variable {json : Json} {maxFrameBytes : ℕ}

/-- It is carried if its one text loads as it and fits. -/
theorem Json.Carries.of_text {message : List (PyKey × PyVal)} {text : String}
    (hdumps : json.dumps (.dict message) = some text)
    (hloads : json.loads text = some (.dict message))
    (hfits : (Lib.encodeUtf8 text).length ≤ maxFrameBytes) :
    json.Carries maxFrameBytes message where
  loads := by rw [hdumps, Option.bind_some, hloads]
  fits := by
    intro other hother
    cases hdumps.symm.trans hother
    exact hfits

/-- Such a message is encoded; that no text is empty is because an empty one does not load, and the
codec refuses to send an empty frame. -/
theorem Json.Carries.encode {message : List (PyKey × PyVal)}
    (h : json.Carries maxFrameBytes message) (hempty : json.loads "" = none)
    (hmax : maxFrameBytes < 2 ^ 32) :
    ∃ frame, FrameCodec.encode json maxFrameBytes (.dict message) = .ok frame := by
  obtain ⟨text, hdumps, hloads⟩ := Option.bind_eq_some_iff.mp h.loads
  have hfits := h.fits text hdumps
  have hsome : Lib.encodeUtf8 text ≠ [] := by
    intro hnone
    have htext : some text = some "" := by
      rw [← Lib.decodeUtf8_encodeUtf8 text, ← Lib.decodeUtf8_encodeUtf8 "", hnone]
      rfl
    rw [Option.some.inj htext, hempty] at hloads
    cases hloads
  refine ⟨Lib.bigEndian 4 (Lib.encodeUtf8 text).length ++ Lib.encodeUtf8 text, ?_⟩
  simp only [FrameCodec.encode, hdumps, if_neg hsome, if_neg (Nat.not_lt_of_le hfits),
    if_neg (Nat.not_le_of_lt (Nat.lt_of_le_of_lt hfits hmax))]

/-- So any number of them is encoded. -/
theorem Json.Carries.encodeAll {messages : List (List (PyKey × PyVal))}
    (h : ∀ message ∈ messages, json.Carries maxFrameBytes message) (hempty : json.loads "" = none)
    (hmax : maxFrameBytes < 2 ^ 32) :
    ∃ frames, List.Forall₂
      (fun message frame => FrameCodec.encode json maxFrameBytes (.dict message) = .ok frame)
      messages frames := by
  induction messages with
  | nil => exact ⟨[], .nil⟩
  | cons message messages ih =>
      obtain ⟨hmessage, hmessages⟩ := List.forall_mem_cons.mp h
      obtain ⟨frame, hframe⟩ := hmessage.encode hempty hmax
      obtain ⟨frames, hframes⟩ := ih hmessages
      exact ⟨frame :: frames, .cons hframe hframes⟩

/-- The first calls use up the first frames. -/
theorem receiveMany_of_stream {sock : ℕ} {messages : List (List (PyKey × PyVal))}
    {frames : List (List UInt8)}
    (hframes : List.Forall₂
      (fun message frame => FrameCodec.encode json maxFrameBytes (.dict message) = .ok frame)
      messages frames) :
    (∀ message ∈ messages, json.Carries maxFrameBytes message) →
    ∀ {pieces : List Piece}, stream pieces = frames.flatten →
    ∀ count ≤ messages.length, ∃ rest,
      receiveMany json maxFrameBytes piecesNetwork sock count pieces
        = .ok (messages.take count) rest ∧
      stream rest = (frames.drop count).flatten := by
  induction hframes with
  | nil =>
      intro _ pieces hpieces count hcount
      obtain rfl := Nat.le_zero.mp hcount
      exact ⟨pieces, rfl, hpieces⟩
  | @cons message frame messages frames hframe _ ih =>
      intro hcarries pieces hpieces count hcount
      obtain ⟨hmessage, hmessages⟩ := List.forall_mem_cons.mp hcarries
      cases count with
      | zero => exact ⟨pieces, rfl, hpieces⟩
      | succ count =>
          rw [List.flatten_cons] at hpieces
          obtain ⟨rest, hrun, hrest, _⟩ :=
            FrameCodec.recv_of_ahead (delivers_pieces sock) hframe hmessage.loads hpieces
          obtain ⟨rest', hrun', hrest'⟩ := ih hmessages hrest count (Nat.le_of_succ_le_succ hcount)
          refine ⟨rest', ?_, hrest'⟩
          simp only [receiveMany, bind, EStateM.bind, hrun, hrun']
          rfl

/-- **Frames survive any fragmentation.**  Messages that JSON carries and that fit are encoded, and
from any pieces of the stream of their frames `n` calls receive the first `n` messages and use up
the first `n` frames.  On an arbitrary stream, a header that declares a length of 0 or above the
maximum is all that is read of its frame. -/
theorem frames_round_trip (json : Json) (hempty : json.loads "" = none) {maxFrameBytes : ℕ}
    (hmax : maxFrameBytes < 2 ^ 32) (sock : ℕ) :
    (∀ messages : List (List (PyKey × PyVal)),
      (∀ message ∈ messages, json.Carries maxFrameBytes message) →
      ∃ frames, List.Forall₂
          (fun message frame => FrameCodec.encode json maxFrameBytes (.dict message) = .ok frame)
          messages frames ∧
        ∀ pieces : List Piece, stream pieces = frames.flatten → ∀ n ≤ messages.length, ∃ rest,
          receiveMany json maxFrameBytes piecesNetwork sock n pieces = .ok (messages.take n) rest ∧
            stream rest = (frames.drop n).flatten) ∧
    ∀ (pieces : List Piece) (header later : List UInt8), stream pieces = header ++ later →
      header.length = 4 →
      Lib.ofBigEndian header = 0 ∨ maxFrameBytes < Lib.ofBigEndian header →
      ∃ text rest,
        FrameCodec.recv json maxFrameBytes piecesNetwork sock pieces
          = .error (.protocolError text) rest ∧ stream rest = later := by
  refine ⟨fun messages hcarries => ?_, fun pieces header later hpieces hheader hbad => ?_⟩
  · obtain ⟨frames, hframes⟩ := Json.Carries.encodeAll hcarries hempty hmax
    refine ⟨frames, hframes, fun pieces hpieces => ?_⟩
    exact receiveMany_of_stream hframes hcarries hpieces
  · obtain ⟨text, rest, hrun, hrest, _⟩ :=
      FrameCodec.recv_of_header (delivers_pieces sock) hheader hbad hpieces
    exact ⟨text, rest, hrun, hrest⟩

/-- Two messages. -/
def twoMessages : List (List (PyKey × PyVal)) :=
  [payload [("type", .str "x"), ("value", .str "你好")], payload [("type", .str "y")]]

theorem frames_round_trip_two :
    (∃ frames, List.Forall₂
        (fun message frame =>
          FrameCodec.encode (Small.json (twoMessages.map .dict)) 64 (.dict message) = .ok frame)
        twoMessages frames ∧
      ∀ pieces : List Piece, stream pieces = frames.flatten → ∀ n ≤ 2, ∃ rest,
        receiveMany (Small.json (twoMessages.map .dict)) 64 piecesNetwork 0 n pieces
          = .ok (twoMessages.take n) rest ∧ stream rest = (frames.drop n).flatten) ∧
    ∀ (pieces : List Piece) (later : List UInt8), stream pieces = [0, 0, 0, 65] ++ later →
      ∃ text rest,
        FrameCodec.recv (Small.json (twoMessages.map .dict)) 64 piecesNetwork 0 pieces
          = .error (.protocolError text) rest ∧ stream rest = later := by
  have hboth := frames_round_trip (Small.json (twoMessages.map .dict)) (by decide +kernel)
    (show 64 < 2 ^ 32 by decide) 0
  have hx : (Small.json (twoMessages.map .dict)).Carries 64
      (payload [("type", .str "x"), ("value", .str "你好")]) :=
    .of_text (show _ = some "\x7b\"type\":\"x\",\"value\":\"你好\"\x7d" by rfl) (by rfl) (by decide)
  have hy : (Small.json (twoMessages.map .dict)).Carries 64 (payload [("type", .str "y")]) :=
    .of_text (show _ = some "\x7b\"type\":\"y\"\x7d" by rfl) (by rfl) (by decide)
  refine ⟨hboth.1 twoMessages ?_, fun pieces later hpieces => ?_⟩
  · exact List.forall_mem_cons.mpr ⟨hx, List.forall_mem_cons.mpr
      ⟨hy, fun _ hnone => absurd hnone List.not_mem_nil⟩⟩
  · exact hboth.2 pieces [0, 0, 0, 65] later hpieces rfl (by decide)

end LiandanluNative.Bridge
