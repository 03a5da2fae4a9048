/-
# LiandanluNative.Bridge.Pieces — a network that delivers given pieces.

The bytes of the peer are there in non-empty pieces, however they were cut, and a `recv` gives what
it asked for of the first one; after the last one the stream has ended.  `Small` has a peer that
answers one `hello`: what the examples and counterexamples of the safety modules run.
-/
import LiandanluNative.Bridge.Client
import Mathlib.Data.List.Sort
import Mathlib.Data.String.Basic

namespace LiandanluNative.Bridge

open PyVal (payload)

/-! ## Pieces -/

/-- Some bytes, one at least. -/
abbrev Piece : Type := { bytes : List UInt8 // bytes ≠ [] }

/-- The bytes of all pieces. -/
def stream (pieces : List Piece) : List UInt8 := pieces.flatMap Subtype.val

/-- `sock.recv(size)` takes the first piece, or what fits of it. -/
def recvPiece (size : ℕ) :
    EStateM OsError (List Piece) { chunk : List UInt8 // chunk.length ≤ size } :=
  fun pieces =>
    match pieces with
    | [] => .ok ⟨[], Nat.zero_le _⟩ []
    | piece :: pieces =>
        if h : piece.val.length ≤ size then
          .ok ⟨piece.val, h⟩ pieces
        else
          .ok ⟨piece.val.take size, List.length_take_le _ _⟩
            (⟨piece.val.drop size, fun hnone => h (List.drop_eq_nil_iff.mp hnone)⟩ :: pieces)

/-- Every call on a socket succeeds, and the peer sends the pieces whatever it is sent. -/
def piecesNetwork : Network (List Piece) where
  socket := pure ()
  connect := fun _ _ => pure ()
  sendall := fun _ _ => pure ()
  recv := fun _ => recvPiece
  close := fun _ => pure ()

/-- **Pieces are delivered** in order, however they were cut. -/
theorem delivers_pieces (sock : ℕ) :
    Lib.Delivers (FrameCodec.recvChunk piecesNetwork sock) stream (fun _ => ()) := by
  refine FrameCodec.delivers_recvChunk (fun {pieces size} hsize hahead => ?_)
  cases pieces with
  | nil => exact absurd rfl hahead
  | cons piece pieces =>
      by_cases hfits : piece.val.length ≤ size
      · refine ⟨⟨piece.val, hfits⟩, pieces, ?_, piece.property, List.flatMap_cons, rfl⟩
        simp only [piecesNetwork, recvPiece, dif_pos hfits]
      · let rest : Piece :=
          ⟨piece.val.drop size, fun hnone => hfits (List.drop_eq_nil_iff.mp hnone)⟩
        refine ⟨⟨piece.val.take size, List.length_take_le _ _⟩, rest :: pieces, dif_neg hfits, ?_,
          ?_, rfl⟩
        · rw [ne_eq, List.take_eq_nil_iff, not_or]
          exact ⟨Nat.ne_of_gt hsize, piece.property⟩
        · simp only [stream, List.flatMap_cons]
          rw [← List.append_assoc, List.take_append_drop]

/-! ## A small peer

A concrete JSON, a client and a peer that answers its `hello`, so that runs of the client can be
evaluated.  The values it can write are the few that its messages have.
-/

namespace Small

/-- Parts with commas between them. -/
def commas : List (List Char) → List Char
  | [] => []
  | [part] => part
  | part :: parts => part ++ ',' :: commas parts

mutual

/-- `json.dumps` of values whose texts need no escapes, as characters. -/
def chars : PyVal → Option (List Char)
  | .none => some "null".toList
  | .bool b => some (if b then "true".toList else "false".toList)
  | .int n => some (toString n).toList
  | .str text => some ('"' :: text.toList ++ ['"'])
  | .list xs => (charsList xs).map (fun parts => '[' :: commas parts ++ [']'])
  | .dict items =>
      (charsItems items).map (fun parts =>
        '\x7b' :: commas (parts.insertionSort (· ≤ ·)) ++ ['\x7d'])
  | _ => none

def charsList : List PyVal → Option (List (List Char))
  | [] => some []
  | x :: xs =>
      match chars x, charsList xs with
      | some part, some parts => some (part :: parts)
      | _, _ => none

def charsItems : List (PyKey × PyVal) → Option (List (List Char))
  | [] => some []
  | (key, x) :: items =>
      match key, chars x, charsItems items with
      | .str name, some part, some parts =>
          some (('"' :: name.toList ++ '"' :: ':' :: part) :: parts)
      | _, _, _ => none

end

def dumps (value : PyVal) : Option String := (chars value).map String.ofList

/-- JSON as far as these values go. -/
def json (values : List PyVal) : Json where
  dumps := dumps
  loads := fun text => values.find? (fun value => decide (dumps value = some text))

def env (values : List PyVal) : BridgeEnv (List Piece) where
  json := json values
  printing := { str := fun _ => "", repr := fun _ => "" }
  network := piecesNetwork
  expectedUid := some 501
  uuid := tallyId
  unixMs := fun n => n

def options : ClientOptions where
  socketPath := "/tmp/bridge.sock"
  sessionToken := "secret"
  engineInstanceId := "engine"
  requireSameUid := false

theorem usable_options : options.Usable := by
  refine ⟨?_, ?_, ?_⟩ <;> decide +kernel

def args : RequestArgs where
  operationId := "op"
  method := "desktop.context"

/-- The peer accepts the session. -/
def helloAck : PyVal :=
  .dict (payload [("type", .str "hello_ack"), ("protocol_version", .int 1),
    ("bridge_instance_id", .str "bridge"), ("generation", .int 7),
    ("capabilities", .dict [(.str "desktop.context", .str "available")])])

/-- The frame of a value. -/
def bytes (value : PyVal) : List UInt8 :=
  match FrameCodec.encode (json []) 1048576 value with
  | .error _ => []
  | .ok frame => frame

/-- The frame of a value, in one piece. -/
def framed (value : PyVal) : List Piece :=
  if h : bytes value = [] then [] else [⟨bytes value, h⟩]

/-- A client whose peer sends the frames of these values. -/
def client (values : List PyVal) : Client (List Piece) where
  world := values.flatMap framed

theorem encode_eq_bytes (values : List PyVal) {value : PyVal}
    (h : (FrameCodec.encode (json []) 1048576 value).isOk = true) :
    FrameCodec.encode (json values) 1048576 value = .ok (bytes value) := by
  have hsame : FrameCodec.encode (json values) 1048576 value
      = FrameCodec.encode (json []) 1048576 value := rfl
  rw [hsame, bytes]
  cases hrun : FrameCodec.encode (json []) 1048576 value with
  | error e =>
      rw [hrun] at h
      cases h
  | ok frame => rfl

/-- The first value of a text is the one that loads. -/
theorem loads_dumps (before later : List PyVal) {value : PyVal}
    (hsome : (dumps value).isSome = true) (hfirst : ∀ other ∈ before, dumps other ≠ dumps value) :
    ((json (before ++ value :: later)).dumps value).bind (json (before ++ value :: later)).loads
      = some value := by
  obtain ⟨text, htext⟩ := Option.isSome_iff_exists.mp hsome
  show (dumps value).bind _ = _
  rw [htext, Option.bind_some]
  refine List.find?_eq_some_iff_append.mpr ⟨decide_eq_true htext, before, later, rfl, ?_⟩
  intro other hother
  rw [← htext, decide_eq_false (hfirst other hother), Bool.not_false]

end Small

end LiandanluNative.Bridge
