/-
# LiandanluNative.Bridge.Links — a network to a peer that answers.

A `Peer` sends a reply to each frame it gets.  The reply is on the `wire` from then on, and of the
wire some bytes arrive before the next receive times out, in pieces of any sizes.  Bytes that are
late are not lost: they stay on the wire until they are read or the connection ends.
-/
import LiandanluNative.Bridge.Client

namespace LiandanluNative.Bridge

open Lib.Proc

/-! ## The link

The bytes on the wire: those ahead arrive before the next receive times out, the late ones do not.
-/

/-- What was sent to the client and is not read, how many bytes of it are `inTime`, and the sizes of
the pieces in which they arrive; `answered` counts the frames that the peer got. -/
structure Link where
  wire : List UInt8 := []
  inTime : ℕ := 0
  sizes : List ℕ := []
  answered : ℕ := 0

/-- The user of the peer, and the bytes with which it answers its `n`-th frame. -/
structure Peer where
  uid : Int
  reply : ℕ → List UInt8 → List UInt8

namespace Link

/-- What arrives before a receive times out. -/
def ahead (link : Link) : List UInt8 := link.wire.take link.inTime

/-- What does not. -/
def late (link : Link) : List UInt8 := link.wire.drop link.inTime

theorem ahead_append_late (link : Link) : link.ahead ++ link.late = link.wire :=
  List.take_append_drop ..

/-- How much the next receive gets of what it may have: the next size, if there is that much. -/
def taken (link : Link) (available : ℕ) : ℕ :=
  match link.sizes with
  | [] => available
  | size :: _ => max 1 (min size available)

theorem taken_le (link : Link) {available : ℕ} (h : 0 < available) :
    link.taken available ≤ available := by
  unfold taken
  split
  · exact Nat.le_refl _
  · omega

theorem taken_pos (link : Link) {available : ℕ} (h : 0 < available) : 0 < link.taken available := by
  unfold taken
  split
  · exact h
  · omega

/-- Once some bytes were read. -/
def read (link : Link) (count : ℕ) : Link :=
  { link with
    wire := link.wire.drop count
    inTime := link.inTime - count
    sizes := link.sizes.tail }

theorem ahead_read (link : Link) (count : ℕ) :
    link.ahead = link.ahead.take count ++ (link.read count).ahead := by
  conv_lhs => rw [← List.take_append_drop count link.ahead]
  rw [ahead, List.drop_take]
  rfl

theorem late_read {link : Link} {count : ℕ} (h : count ≤ link.inTime) :
    (link.read count).late = link.late := by
  rw [late, late, read, List.drop_drop, Nat.add_sub_cancel' h]

/-- `sock.recv(size)` -/
def recv (size : ℕ) : EStateM OsError Link { chunk : List UInt8 // chunk.length ≤ size } :=
  fun link =>
    if h : 0 < min size link.ahead.length then
      .ok ⟨link.ahead.take (link.taken (min size link.ahead.length)), by
          have hle := link.taken_le h
          rw [List.length_take]
          omega⟩
        (link.read (link.taken (min size link.ahead.length)))
    else
      .error .timedOut link

end Link

/-- A new connection has an empty wire, and every frame is answered. -/
def Peer.network (peer : Peer) : Network Link where
  socket := modify fun link => { link with wire := [] }
  connect := fun _ _ => pure ()
  sendall := fun _ frame => modify fun link =>
    { link with
      wire := link.wire ++ peer.reply link.answered frame
      answered := link.answered + 1 }
  recv := fun _ => Link.recv
  close := fun _ => pure ()
  getpeereid := some (fun _ => pure peer.uid)

/-- **A link delivers** what is in time, however it is cut, and keeps what is late. -/
theorem delivers_link (peer : Peer) (sock : ℕ) :
    Lib.Delivers (FrameCodec.recvChunk peer.network sock) Link.ahead Link.late := by
  refine FrameCodec.delivers_recvChunk (fun {link size} hsize hahead => ?_)
  have hlength : 0 < link.ahead.length := List.length_pos_of_ne_nil hahead
  have havailable : 0 < min size link.ahead.length := Nat.lt_min.mpr ⟨hsize, hlength⟩
  have hle := link.taken_le havailable
  have hpos := link.taken_pos havailable
  have hinTime : link.ahead.length ≤ link.inTime := List.length_take_le _ _
  refine ⟨_, _, dif_pos havailable, ?_, ?_, ?_⟩
  · rw [ne_eq, List.take_eq_nil_iff, not_or]
    exact ⟨Nat.ne_of_gt hpos, hahead⟩
  · exact link.ahead_read _
  · exact Link.late_read (by omega)

/-- With nothing in time a receive times out. -/
theorem recvChunk_of_late {peer : Peer} {sock : ℕ} {link : Link} (hnone : link.ahead = [])
    (size : ℕ) :
    FrameCodec.recvChunk peer.network sock size link
      = .error (.transportError "socket receive timed out") link := by
  have hempty : ¬ 0 < min size link.ahead.length := by
    rw [hnone, List.length_nil, Nat.min_zero]
    exact Nat.lt_irrefl 0
  have hrun : peer.network.recv sock size link = .error .timedOut link := dif_neg hempty
  simp only [FrameCodec.recvChunk, hrun]

/-! ## Exchanges

A message is sent, and its reply arrives in time or late.  A late reply stays on the wire, in front
of the reply to the next message.
-/

section

variable {json : Json} {maxFrameBytes : ℕ}

/-- **A reply in time** is received, and nothing is left of it. -/
theorem recv_of_inTime (peer : Peer) (sock : ℕ) {raw : List (PyKey × PyVal)} (link : Link)
    (hencode : FrameCodec.encode json maxFrameBytes (.dict raw) = .ok link.wire)
    (hloads : (json.dumps (.dict raw)).bind json.loads = some (.dict raw))
    (hinTime : link.wire.length ≤ link.inTime) :
    ∃ link', FrameCodec.recv json maxFrameBytes peer.network sock link = .ok raw link' ∧
      link'.wire = [] := by
  have hahead : link.ahead = link.wire ++ [] := by
    rw [List.append_nil, Link.ahead, List.take_of_length_le hinTime]
  obtain ⟨link', hrun, hnone, hlate⟩ :=
    FrameCodec.recv_of_ahead (delivers_link peer sock) hencode hloads hahead
  refine ⟨link', hrun, ?_⟩
  rw [← link'.ahead_append_late, hnone, hlate, Link.late, List.drop_of_length_le hinTime,
    List.nil_append]

/-- **A late reply** is not, and the rest of it stays on the wire. -/
theorem recv_of_late (peer : Peer) (sock : ℕ) {raw : List (PyKey × PyVal)} (link : Link)
    (hencode : FrameCodec.encode json maxFrameBytes (.dict raw) = .ok link.wire)
    (hlate : link.inTime < link.wire.length) :
    ∃ link', FrameCodec.recv json maxFrameBytes peer.network sock link
        = .error (.transportError "socket receive timed out") link' ∧ link'.wire ≠ [] := by
  -- what is in time is a proper beginning of the frame
  have hshort : link.ahead.length < link.wire.length := by
    rw [Link.ahead, List.length_take]
    omega
  obtain ⟨e, link', hrun, rfl, hnone, hrest⟩ :=
    FrameCodec.recv_of_short (delivers_link peer sock)
      (fun {link size} _ hnone => ⟨_, link, recvChunk_of_late hnone size, rfl, hnone, rfl⟩)
      hencode (List.take_prefix _ _) hshort
  refine ⟨link', hrun, ?_⟩
  rw [← link'.ahead_append_late, hnone, hrest, List.nil_append, Link.late, ne_eq,
    List.drop_eq_nil_iff]
  omega

end

section

variable {env : BridgeEnv Link} {options : ClientOptions} {peer : Peer} {c : Client Link}
  {message : List (PyKey × PyVal)} {sock : ℕ}

/-- What is sent is answered on the wire. -/
theorem send_link (henv : env.network = peer.network) (hsock : c.socket = some sock)
    {frame : List UInt8}
    (hencode : FrameCodec.encode env.json options.maxFrameBytes (.dict message) = .ok frame) :
    send env options message c = .ok ()
      { c with
        world :=
          { c.world with
            wire := c.world.wire ++ peer.reply c.world.answered frame
            answered := c.world.answered + 1 }
        trace := c.trace ++ [.sent sock message] } := by
  obtain ⟨json, printing, network, expectedUid, uuid, unixMs⟩ := env
  obtain rfl : network = peer.network := henv
  obtain ⟨world, socket, session, sockets, uuids, clockReads, trace⟩ := c
  obtain rfl : socket = some sock := hsock
  simp only [send, bind, EStateM.bind, ofExcept, hencode]
  rfl

/-- **A message that is answered with one frame** is exchanged for it if it arrives in time, and the
wire is empty again; else the exchange raises and leaves the rest of it on the wire. -/
theorem exchange_link (henv : env.network = peer.network) (hsock : c.socket = some sock)
    (hwire : c.world.wire = []) {frame : List UInt8} {raw : List (PyKey × PyVal)}
    (hencode : FrameCodec.encode env.json options.maxFrameBytes (.dict message) = .ok frame)
    (hreply : FrameCodec.encode env.json options.maxFrameBytes (.dict raw)
      = .ok (peer.reply c.world.answered frame))
    (hloads : (env.json.dumps (.dict raw)).bind env.json.loads = some (.dict raw)) :
    ((peer.reply c.world.answered frame).length ≤ c.world.inTime →
      ∃ t, exchange env options message c = .ok raw t ∧ t.world.wire = []) ∧
    (c.world.inTime < (peer.reply c.world.answered frame).length →
      ∃ e t, exchange env options message c = .error e t ∧ t.world.wire ≠ []) := by
  have hsend := send_link henv hsock hencode
  -- on an empty wire the reply is all there is to receive
  rw [hwire, List.nil_append] at hsend
  let sent : Client Link :=
    { c with
      world :=
        { c.world with
          wire := peer.reply c.world.answered frame
          answered := c.world.answered + 1 }
      trace := c.trace ++ [.sent sock message] }
  have hexchange : exchange env options message c = receive env options sent := by
    simp only [exchange, bind, EStateM.bind, hsend]
    rfl
  have hsock' : sent.socket = some sock := hsock
  refine ⟨fun hinTime => ?_, fun hlate => ?_⟩
  · obtain ⟨link, hrun, hnone⟩ :=
      recv_of_inTime peer sock sent.world hreply hloads hinTime
    rw [← henv] at hrun
    refine ⟨_, hexchange.trans (receive_of_ok hsock' hrun), ?_⟩
    exact hnone
  · obtain ⟨link, hrun, hsome⟩ :=
      recv_of_late peer sock sent.world hreply hlate
    rw [← henv] at hrun
    refine ⟨_, _, hexchange.trans (receive_of_error hsock' hrun), ?_⟩
    exact hsome

/-- **A new connection** has nothing on the wire. -/
theorem dial_link (henv : env.network = peer.network) :
    Ends (fun _ t => t.world.wire = [] ∧ t.world.inTime = c.world.inTime ∧
        t.world.answered = c.world.answered)
      (fun _ _ => True) (dial env options) c := by
  obtain ⟨json, printing, network, expectedUid, uuid, unixMs⟩ := env
  obtain rfl : network = peer.network := henv
  refine Ends.mono (Q := fun _ t => t.world
    = { c.world with wire := [] }) (E := fun _ _ => True) ?_ (fun _ t ht => ?_) (fun _ _ h => h)
  · unfold dial closeSocket
    refine Ends.bind (Ends.get (Ends.bind (Ends.of_ok rfl (Ends.bind (Ends.modifying ?_)))))
    refine Ends.bind (ends_ofExcept (fun _ _ => Ends.bind ?_) (fun _ _ => trivial))
    refine Ends.bind (ends_ofExcept (fun _ _ => Ends.of_ok rfl ?_) (fun _ _ => trivial))
    refine Ends.bind (Ends.of_ok rfl ?_)
    dsimp only
    split
    · refine Ends.bind (ends_onWorld (fun _ _ _ => ?_) (fun _ _ _ => trivial))
      split
      · exact Ends.throw trivial
      · exact Ends.throw trivial
    · exact Ends.bind (ends_ofExcept (fun _ _ => Ends.bind (Ends.modifying (Ends.pure rfl)))
        (fun _ _ => trivial))
  · rw [ht]
    exact ⟨rfl, rfl, rfl⟩

end

end LiandanluNative.Bridge
