/-
# LiandanluNative.Safety.BridgeSockets — every socket is closed again.

A socket that a process made stays open until it is closed, whatever came of the calls on it.  Of an
operating system that keeps account of the open sockets (`Accounting`) the client leaves none open
but the one it holds, through any calls, `with` blocks and probes and whatever the peer does; and
where it is not connected it leaves none (`sockets_released`).

That is so of a client whose timeouts `settimeout` takes and whose path can be encoded
(`ClientOptions.Usable`).  With others `connect` raises between making its socket and keeping it,
outside of the `try` that would close it, and that socket stays open.  A probe makes its socket
before it looks at its arguments, too, but closes it in a `finally`: of its arguments nothing is
asked.

The operating system is a parameter, of which only its account of sockets is used.  Most calls leave
the account alone, and are told by that (`Client.Rests`).  The few that make or close a socket pass
through states in which one socket besides the client's is open (`Client.Handling`), and the lemmas
about them say how they get out of it again, returning or raising.
-/
import LiandanluNative.Bridge.Paths
import LiandanluNative.Safety.BridgeClient

namespace LiandanluNative.Bridge

open Lib.Proc

/-! ## The account

A network that counts: which sockets were made, and which of them are still open.  Nothing of a
network is asked but that its calls keep this account.
-/

/-- What an operating system knows of sockets: how many were made, and which are open.  A socket is
named by its number, as the client names it. -/
structure Account (ω : Type) where
  made : ω → ℕ
  isOpen : ω → ℕ → Prop

/-- No socket was made, and none was opened; some may have been closed. -/
def Account.Settled {ω : Type} (account : Account ω) (w w' : ω) : Prop :=
  account.made w' = account.made w ∧ ∀ sock, account.isOpen w' sock → account.isOpen w sock

/-- Two calls that are settled are settled together. -/
theorem Account.frame {ω : Type} (account : Account ω) : Frame account.Settled where
  refl _ := ⟨rfl, fun _ h => h⟩
  trans h₁ h₂ := ⟨h₂.1.trans h₁.1, fun sock h => h₁.2 sock (h₂.2 sock h)⟩

/-- The calls do with sockets what they are documented to do: `socket()` opens the next one, and
`close()` closes it even where it reports an error.  No other call makes one or opens one, whether it
returns or fails. -/
structure Accounting {ω : Type} (account : Account ω) (network : Network ω) (files : FileSystem ω) :
    Prop where
  made : ∀ {w w' a}, network.socket w = .ok a w' → account.made w' = account.made w + 1 ∧
    ∀ sock, account.isOpen w' sock → account.isOpen w sock ∨ sock = account.made w
  refused : ∀ {w w' e}, network.socket w = .error e w' → account.Settled w w'
  closes : ∀ sock w, account.Settled w (after (network.close sock) w) ∧
    ¬ account.isOpen (after (network.close sock) w) sock
  connect : ∀ sock path, Within account.Settled (network.connect sock path)
  sendall : ∀ sock frame, Within account.Settled (network.sendall sock frame)
  recv : ∀ sock size, Within account.Settled (network.recv sock size)
  getpeereid : ∀ getter, network.getpeereid = some getter →
    ∀ sock, Within account.Settled (getter sock)
  libcGetpeereid : ∀ libc, network.libcGetpeereid = some libc →
    ∀ sock, Within account.Settled (libc sock)
  soPeercred : ∀ peercred, network.soPeercred = some peercred →
    ∀ sock, Within account.Settled (peercred sock)
  lstat : ∀ path, Within account.Settled (files.lstat path)
  unlink : ∀ path, Within account.Settled (files.unlink path)

/-! ## The calls below the client -/

section

variable {ω α β : Type} {R : ω → ω → Prop}

/-- The state is left as the call leaves it, under the exception of the handler or under none. -/
theorem after_raising (exc : OsError → BridgeExc) (m : EStateM OsError ω α) (w : ω) :
    after (raising exc m) w = after m w := by
  unfold after raising
  cases m w <;> rfl

theorem after_attempt (m : EStateM OsError ω α) (w : ω) : after (attempt m) w = after m w := by
  unfold after attempt
  cases m w <;> rfl

theorem within_raising {m : EStateM OsError ω α} (hm : Within R m) (exc : OsError → BridgeExc) :
    Within R (raising exc m) := by
  intro w
  rw [after_raising]
  exact hm w

/-- Every run returns, and stays inside `R`. -/
def Always (R : ω → ω → Prop) (m : EStateM BridgeExc ω α) : Prop :=
  ∀ w, Ends (fun _ w' => R w w') (fun _ _ => False) m w

theorem always_attempt {m : EStateM OsError ω α} (hm : Within R m) : Always R (attempt m) := by
  intro w
  have hw := after_attempt m w ▸ hm w
  refine ⟨fun hrun => ?_, fun hrun => ?_⟩
  · rwa [after_of_ok hrun] at hw
  · unfold attempt at hrun
    split at hrun
    · cases hrun
    · cases hrun

theorem always_pure (hR : Frame R) (a : α) : Always R (pure a : EStateM BridgeExc ω α) :=
  fun w => Ends.pure (hR.refl w)

theorem Always.bind (hR : Frame R) {m : EStateM BridgeExc ω α} {f : α → EStateM BridgeExc ω β}
    (hm : Always R m) (hf : ∀ a, Always R (f a)) : Always R (m >>= f) := by
  refine fun w => Ends.bind ((hm w).mono (fun a w' hw => ?_) (fun _ _ hno => hno))
  exact (hf a w').mono (fun _ _ hw' => hR.trans hw hw') (fun _ _ hno => hno)

variable {network : Network ω} {sock : ℕ}

theorem within_recvChunk (hrecv : ∀ size, Within R (network.recv sock size)) (remaining : ℕ) :
    Within R (FrameCodec.recvChunk network sock remaining) := by
  intro w
  have hw := hrecv remaining w
  unfold after FrameCodec.recvChunk at *
  cases hrun : network.recv sock remaining w with
  | ok chunk w' =>
      rw [hrun] at hw
      dsimp only
      split <;> rename_i heq <;> split at heq <;> cases heq <;> exact hw
  | error e w' =>
      rw [hrun] at hw
      cases e <;> exact hw

theorem within_recv (hR : Frame R) (hrecv : ∀ size, Within R (network.recv sock size))
    (json : Json) (maxFrameBytes : ℕ) :
    Within R (FrameCodec.recv json maxFrameBytes network sock) := by
  have hexact := Lib.within_readExactly hR (within_recvChunk hrecv)
  refine hR.bind (hexact 4) (fun header => ?_)
  dsimp only
  split
  · exact hR.throw _
  split
  · exact hR.throw _
  refine hR.bind (hexact _) (fun payload => ?_)
  split
  · exact hR.throw _
  · exact hR.pure _

variable {account : Account ω} {files : FileSystem ω}

theorem always_soPeercred (h : Accounting account network files) (sock : ℕ) :
    Always account.Settled (match network.soPeercred with
      | some peercred => attempt (peercred sock)
      | none => pure none) := by
  split
  · rename_i peercred hpeercred
    exact always_attempt (h.soPeercred peercred hpeercred sock)
  · exact always_pure account.frame _

/-- **Asking for the peer's user** has an answer, on every platform: the exceptions of the one way
to ask lead to the next, and the last of them to no answer. -/
theorem always_peerUid (h : Accounting account network files) (sock : ℕ) :
    Always account.Settled (peerUid network sock) := by
  unfold peerUid
  split
  · rename_i getter hgetter
    exact always_attempt (h.getpeereid getter hgetter sock)
  dsimp only
  split
  · rename_i libc hlibc
    refine (always_attempt (h.libcGetpeereid libc hlibc sock)).bind account.frame (fun uid => ?_)
    split
    · exact always_pure account.frame _
    · exact always_soPeercred h sock
  · refine (always_pure account.frame _).bind account.frame (fun uid => ?_)
    split
    · exact always_pure account.frame _
    · exact always_soPeercred h sock

end

/-! ## What leaves the sockets as they are

Sending and receiving, and the parsers, neither make a socket nor close one.
-/

section

variable {ω α : Type} (account : Account ω)

/-- The client has the socket, the session and the trace it had. -/
def Client.Same (t c : Client ω) : Prop := t.held = c.held ∧ t.trace = c.trace

theorem Client.Same.trans {c t u : Client ω} (h' : u.Same t) (h : t.Same c) : u.Same c :=
  ⟨h'.1.trans h.1, h'.2.trans h.2⟩

theorem Client.Sound.same {c t : Client ω} (h : c.Sound) (hsame : t.Same c) : t.Sound := by
  obtain ⟨hheld, htrace⟩ := hsame
  refine ⟨?_, ?_⟩
  · rw [hheld, htrace]
    exact h.held
  · rw [htrace]
    exact h.lawful

/-- The client has the socket it had, and none was made or opened. -/
def Client.Rests (c t : Client ω) : Prop :=
  t.socket = c.socket ∧ t.sockets = c.sockets ∧ account.Settled c.world t.world

/-- And two calls that leave the sockets alone do so together. -/
theorem Client.frame_rests : Frame (Client.Rests account) where
  refl c := ⟨rfl, rfl, account.frame.refl c.world⟩
  trans h₁ h₂ := ⟨h₂.1.trans h₁.1, h₂.2.1.trans h₁.2.1, account.frame.trans h₁.2.2 h₂.2.2⟩

variable {account} {m : EStateM BridgeExc ω α}

/-- A call of the operating system that is settled leaves the client its sockets, … -/
theorem within_onWorld (hm : Within account.Settled m) : Within (Client.Rests account) (onWorld m) := by
  intro c
  refine (ends_onWorld (fun a w hrun => ?_) (fun e w hrun => ?_) : Ends _ _ _ c).after
  · exact ⟨rfl, rfl, hm.of_ok hrun⟩
  · exact ⟨rfl, rfl, hm.of_error hrun⟩

/-- … and so does one that has an answer always. -/
theorem always_onWorld (hm : Always account.Settled m) (c : Client ω) :
    Ends (fun _ t => c.Rests account t ∧ t.Same c) (fun _ _ => False) (onWorld m) c := by
  refine ends_onWorld (fun a w hrun => ?_) (fun e w hrun => (hm c.world).raised hrun)
  exact ⟨⟨rfl, rfl, (hm c.world).returned hrun⟩, rfl, rfl⟩

variable {env : BridgeEnv ω} {options : ClientOptions} {files : FileSystem ω}

theorem within_ofExcept (x : Except BridgeExc α) :
    Within (Client.Rests account) (ofExcept x : ClientM ω α) := by
  cases x with
  | ok a => exact (Client.frame_rests account).pure a
  | error e => exact (Client.frame_rests account).throw e

/-- Sending a message makes no socket, … -/
theorem within_send (h : Accounting account env.network files) (message : List (PyKey × PyVal)) :
    Within (Client.Rests account) (send env options message) := by
  have hR := Client.frame_rests account
  refine hR.bind hR.get (fun c => ?_)
  split
  · exact hR.throw _
  · rename_i sock _
    refine hR.bind (within_ofExcept _) (fun frame => hR.bind ?_ (fun _ => ?_))
    · exact within_modify (fun c => hR.refl c)
    · exact within_onWorld (within_raising (h.sendall sock frame) _)

/-- … and neither does receiving one. -/
theorem within_receive (h : Accounting account env.network files) :
    Within (Client.Rests account) (receive env options) := by
  have hR := Client.frame_rests account
  refine hR.bind hR.get (fun c => ?_)
  split
  · exact hR.throw _
  · rename_i sock _
    refine hR.bind ?_ (fun raw => hR.bind ?_ (fun _ => hR.pure raw))
    · exact within_onWorld (within_recv account.frame (h.recv sock) _ _)
    · exact within_modify (fun c => hR.refl c)

theorem within_exchange (h : Accounting account env.network files)
    (message : List (PyKey × PyVal)) :
    Within (Client.Rests account) (exchange env options message) :=
  (Client.frame_rests account).bind (within_send h message) (fun _ => within_receive h)

/-- **A handshake** sends and receives on the socket that is there. -/
theorem within_handshake (h : Accounting account env.network files) (uid : Option Int)
    (verified : Bool) : Within (Client.Rests account) (handshake env options uid verified) := by
  have hR := Client.frame_rests account
  refine hR.bind (within_exchange h _) (fun ack => hR.bind (within_ofExcept _) (fun session => ?_))
  exact hR.bind (within_modify (fun c => hR.refl c)) (fun _ => hR.pure session)

/-- **A request** does, too, whether it is refused, fails or is answered. -/
theorem within_request (h : Accounting account env.network files) (args : RequestArgs) :
    Within (Client.Rests account) (request env options args) := by
  have hR := Client.frame_rests account
  intro c
  refine (Ends.bind (Ends.get (Ends.bind (ends_ofExcept (fun session _ => ?_)
    (fun _ _ => hR.refl c)))) : Ends (fun _ t => c.Rests account t) _ _ c).after
  refine Ends.bind (Ends.of_ok rfl (Ends.of_after ?_))
  have hstamped : c.Rests account c.stamped := ⟨rfl, rfl, account.frame.refl c.world⟩
  exact hR.trans hstamped
    (hR.bind (within_exchange h _) (fun raw => within_ofExcept _) c.stamped)

/-! ## What changes them

Dialling makes a socket, and a failure closes it again; closing closes the one that the client has.
-/

/-- All that is open is what the client holds, and the number of the next socket is known.  It is
the invariant between the calls of a client. -/
structure Client.Accounted (account : Account ω) (c : Client ω) : Prop where
  made : c.sockets = account.made c.world
  held : ∀ sock, account.isOpen c.world sock → c.socket = some sock

/-- One socket besides may be open. -/
structure Client.Handling (account : Account ω) (sock : ℕ) (c : Client ω) : Prop where
  made : c.sockets = account.made c.world
  held : ∀ sock', account.isOpen c.world sock' → c.socket = some sock' ∨ sock' = sock

variable {c t : Client ω} {sock : ℕ}

theorem Client.Accounted.rests (h : c.Accounted account) (hrests : c.Rests account t) :
    t.Accounted account where
  made := (hrests.2.1.trans h.made).trans hrests.2.2.1.symm
  held sock' hopen := hrests.1.trans (h.held sock' (hrests.2.2.2 sock' hopen))

theorem Client.Handling.rests (h : c.Handling account sock) (hrests : c.Rests account t) :
    t.Handling account sock where
  made := (hrests.2.1.trans h.made).trans hrests.2.2.1.symm
  held sock' hopen := by
    rw [hrests.1]
    exact h.held sock' (hrests.2.2.2 sock' hopen)

/-- None is open where the client holds none. -/
theorem Client.Accounted.none_open (h : c.Accounted account) (hnone : c.socket = none) (sock : ℕ) :
    ¬ account.isOpen c.world sock := by
  intro hopen
  cases hnone.symm.trans (h.held sock hopen)

/-- Once the socket besides is closed, what is open is what the client holds. -/
theorem Client.Handling.closed (h : Accounting account env.network files)
    (hc : c.Handling account sock) {w : ω} (hrun : after (env.network.close sock) c.world = w) :
    ({ c with world := w } : Client ω).Accounted account := by
  subst hrun
  obtain ⟨hsettled, hclosed⟩ := h.closes sock c.world
  refine ⟨hc.made.trans hsettled.1.symm, fun sock' hopen => ?_⟩
  refine (hc.held sock' (hsettled.2 sock' hopen)).resolve_right ?_
  rintro rfl
  exact hclosed hopen

/-- **The socket besides is closed** whatever closing it reports, so that a `finally` can rely on
it. -/
theorem ends_closeSocket (h : Accounting account env.network files) (hc : c.Handling account sock) :
    Ends (fun _ t => t.Accounted account ∧ t.Same c) (fun _ t => t.Accounted account ∧ t.Same c)
      (closeSocket env sock) c := by
  refine ends_onWorld (fun _ w hrun => ⟨?_, rfl, rfl⟩) (fun e w hrun => ⟨?_, rfl, rfl⟩)
  · exact hc.closed h ((after_raising _ _ _).symm.trans (after_of_ok hrun))
  · exact hc.closed h ((after_raising _ _ _).symm.trans (after_of_error hrun))

/-- **A socket that is made** is the one besides, until the client keeps it or it is closed. -/
theorem Client.Accounted.opened (h : Accounting account env.network files)
    (hc : c.Accounted account) {a : Unit} {w : ω}
    (hrun : raising OsError.uncaught env.network.socket c.world = .ok a w) :
    ({ c with world := w, sockets := c.sockets + 1 } : Client ω).Handling account c.sockets := by
  unfold raising at hrun
  split at hrun
  · rename_i hsocket
    cases hrun
    obtain ⟨hmade, hopen⟩ := h.made hsocket
    refine ⟨?_, fun sock' hsock' => ?_⟩
    · rw [hmade, ← hc.made]
    · rw [hc.made]
      exact (hopen sock' hsock').imp_left (hc.held sock')
  · cases hrun

/-- One that is refused is not there. -/
theorem Client.Accounted.refused (h : Accounting account env.network files)
    (hc : c.Accounted account) {e : BridgeExc} {w : ω}
    (hrun : raising OsError.uncaught env.network.socket c.world = .error e w) :
    ({ c with world := w } : Client ω).Accounted account := by
  unfold raising at hrun
  split at hrun
  · cases hrun
  · rename_i hsocket
    cases hrun
    exact hc.rests ⟨rfl, rfl, h.refused hsocket⟩

/-- **Closing** the client closes its socket, and suppresses what that reports. -/
theorem ends_close_accounted (h : Accounting account env.network files)
    (hc : c.Accounted account) :
    Ends (fun _ t => t.Accounted account) (fun _ _ => False) (close env) c := by
  refine Ends.bind (Ends.get (Ends.bind (Ends.of_ok rfl ?_)))
  cases hsocket : c.socket with
  | none =>
      refine Ends.pure ⟨hc.made, fun sock hopen => ?_⟩
      exact absurd hopen (hc.none_open hsocket sock)
  | some sock =>
      have hhandling : ({ c with socket := none, session := none } : Client ω).Handling account
          sock := by
        refine ⟨hc.made, fun sock' hopen => Or.inr ?_⟩
        cases hsocket.symm.trans (hc.held sock' hopen)
        rfl
      refine Ends.bind (ends_onWorld (fun _ w hrun => ?_) (fun e w hrun => ?_))
      · exact Ends.pure (hhandling.closed h ((after_attempt _ _).symm.trans (after_of_ok hrun)))
      · exact (always_attempt (fun w => (h.closes sock w).1) _).raised hrun

/-- **Dialling** closes the socket it made, or gives it to the client.  That the timeout and the
path can be used is asked for here: what they raise is outside of the `try`. -/
theorem ends_dial_accounted (h : Accounting account env.network files) (husable : options.Usable)
    (hc : c.Accounted account) (hnone : c.socket = none) :
    Ends (fun _ t => t.Accounted account) (fun _ t => t.Accounted account) (dial env options) c := by
  refine Ends.bind (Ends.get (Ends.bind (ends_onWorld (fun _ w hrun => ?_)
    (fun e w hrun => hc.refused h hrun))))
  have hopened := hc.opened h hrun
  refine Ends.bind (Ends.modifying (Ends.bind ?_))
  rw [husable.connectTimeout]
  refine Ends.pure (Ends.bind ?_)
  rw [connectSocket, husable.socketPath]
  refine Ends.bind (Ends.pure ?_)
  have hanswer := always_attempt (h.connect c.sockets options.socketPath)
  refine (always_onWorld hanswer _).mono (fun answer t ht => ?_) (fun _ _ hno => hno.elim)
  have hthere := hopened.rests ht.1
  cases answer with
  | none =>
      refine Ends.bind ((ends_closeSocket h hthere).mono (fun _ u hu => ?_) (fun _ u hu => hu.1))
      exact Ends.throw hu.1
  | some _ =>
      refine Ends.bind ((always_onWorld (always_peerUid h c.sockets) t).mono (fun uid u hu => ?_)
        (fun _ _ hno => hno.elim))
      have hthere' := hthere.rests hu.1
      dsimp only
      split
      · refine Ends.bind ((ends_closeSocket h hthere').mono (fun _ v hv => ?_) (fun _ v hv => hv.1))
        split
        · exact Ends.throw hv.1
        · exact Ends.throw hv.1
      · have hsocket : u.socket = none := (hu.1.1.trans ht.1.1).trans hnone
        rw [husable.requestTimeout]
        refine Ends.bind (Ends.pure (Ends.bind (Ends.modifying (Ends.pure ?_))))
        refine ⟨hthere'.made, fun sock' hopen => ?_⟩
        rcases hthere'.held sock' hopen with hheld | rfl
        · cases hsocket.symm.trans hheld
        · rfl

/-- What a probe asks of its socket. -/
theorem ends_connectSocket_handling (h : Accounting account env.network files)
    (hc : c.Handling account sock) (sock' : ℕ) (path : String) :
    Ends (fun _ t => t.Handling account sock ∧ t.Same c)
      (fun _ t => t.Handling account sock ∧ t.Same c) (connectSocket env sock' path) c := by
  refine Ends.bind (ends_ofExcept (fun _ _ => ?_) (fun _ _ => ⟨hc, rfl, rfl⟩))
  exact (always_onWorld (always_attempt (h.connect sock' path)) c).mono
    (fun _ _ ht => ⟨hc.rests ht.1, ht.2⟩) (fun _ _ hno => hno.elim)

/-- **A probe** closes the socket it made, and has no other, whatever its path and its timeout are.
-/
theorem ends_probeSocket (h : Accounting account env.network files) (hc : c.Accounted account)
    (path : String) (timeout : Timeout) :
    Ends (fun _ t => t.Accounted account ∧ t.Same c) (fun _ t => t.Accounted account ∧ t.Same c)
      (probeSocket env path timeout) c := by
  refine Ends.bind (Ends.get (Ends.bind (ends_onWorld (fun _ w hrun => ?_)
    (fun e w hrun => ⟨hc.refused h hrun, rfl, rfl⟩))))
  have hopened := hc.opened h hrun
  refine Ends.bind (Ends.modifying ?_)
  -- however the body ends, the socket is the one besides, which the `finally` closes
  have hclosed : ∀ t : Client ω, t.Handling account c.sockets ∧ t.Same c →
      Ends (fun _ u => u.Accounted account ∧ u.Same c) (fun _ u => u.Accounted account ∧ u.Same c)
        (closeSocket env c.sockets) t := by
    intro t ht
    exact (ends_closeSocket h ht.1).mono (fun _ u hu => ⟨hu.1, hu.2.trans ht.2⟩)
      (fun _ u hu => ⟨hu.1, hu.2.trans ht.2⟩)
  refine Ends.ensuring (Ends.mono (Q := fun _ t => t.Handling account c.sockets ∧ t.Same c)
    (E := fun _ t => t.Handling account c.sockets ∧ t.Same c) ?_ (fun _ t ht => hclosed t ht)
    (fun _ t ht => ⟨fun hno => absurd hno Bool.false_ne_true, fun _ => hclosed t ht⟩))
  refine Ends.bind (ends_ofExcept (fun _ _ => Ends.bind ?_) (fun _ _ => ⟨hopened, rfl, rfl⟩))
  exact (ends_connectSocket_handling h hopened _ path).mono (fun _ _ ht => Ends.pure ht)
    (fun _ _ ht => ht)

/-! ## The invariant -/

/-- What holds of a client between two uses. -/
structure Client.Tidy (account : Account ω) (c : Client ω) : Prop where
  sound : c.Sound
  accounted : c.Accounted account

/-- **Connecting** leaves a client that holds what it opened; where it raises on a client that was
not connected, it holds nothing. -/
theorem ends_connect_tidy (h : Accounting account env.network files) (husable : options.Usable)
    (hc : c.Tidy account) :
    Ends (fun _ t => t.Tidy account)
      (fun _ t => t.Tidy account ∧ (c.connected = false → t.held = (none, none)))
      (connect env options) c := by
  cases hconnected : c.connected with
  | true => exact Ends.of_error (connect_of_connected hconnected) ⟨hc, nofun⟩
  | false =>
      have hnone : c.socket = none := congrArg Prod.fst (hc.sound.of_unconnected hconnected)
      have haccounted : Ends (fun _ t => t.Accounted account) (fun _ t => t.Accounted account)
          (connect env options) c := by
        refine Ends.bind (Ends.get ?_)
        rw [if_neg (Bool.eq_false_iff.mp hconnected)]
        refine Ends.bind ((ends_dial_accounted h husable hc.accounted hnone).mono (fun dialled t ht => ?_)
          (fun _ _ ht => ht))
        have hshaken : Within (Client.Rests account) (handshake env options dialled.1 dialled.2) :=
          within_handshake h _ _
        refine Ends.handling ⟨fun hrun => ht.rests (hshaken.of_ok hrun), fun hrun => ?_⟩
        exact Ends.bind ((ends_close_accounted h (ht.rests (hshaken.of_error hrun))).mono
          (fun _ _ hv => Ends.throw hv) (fun _ _ hno => hno.elim))
      refine ((ends_connect hc.sound hconnected).and haccounted).mono (fun _ t ht => ?_)
        (fun e t ht => ?_)
      · exact ⟨ht.1, ht.2⟩
      · exact ⟨⟨ht.1.1, ht.2⟩, fun _ => ht.1.2⟩

/-- A client that was closed holds nothing. -/
theorem ends_close_tidy (h : Accounting account env.network files) (hc : c.Tidy account) :
    Ends (fun _ t => t.Tidy account ∧ t.held = (none, none)) (fun _ _ => False) (close env) c := by
  refine ((ends_close_sound hc.sound.lawful).and (ends_close_accounted h hc.accounted)).mono
    (fun _ t ht => ?_) (fun _ _ hno => hno.1)
  exact ⟨⟨ht.1.1, ht.2⟩, ht.1.2⟩

/-- **Every call** keeps the invariant, whether it returns or raises. -/
theorem tidy_perform (h : Accounting account env.network files) (husable : options.Usable)
    (call : BridgeCall) :
    Within (Keeps (Client.Tidy account)) (call.perform env options) := by
  have hR := frame_keeps (Client.Tidy (ω := ω) account)
  cases call with
  | connect =>
      refine hR.bind (fun c hc => ?_) (fun _ => hR.pure _)
      exact ((ends_connect_tidy h husable hc).mono (fun _ _ ht => ht) (fun _ _ ht => ht.1)).after
  | request args =>
      refine hR.bind (fun c hc => ?_) (fun _ => hR.pure _)
      refine ⟨?_, hc.accounted.rests (within_request h args c)⟩
      exact ((ends_request hc.sound args).mono (fun _ _ ht => ht.1) (fun _ _ ht => ht)).after
  | close =>
      intro c hc
      exact ((ends_close_tidy h hc).mono (fun _ _ ht => ht.1) (fun _ _ hno => hno.elim)).after

/-- **A `with` block** that is entered ends with a client that is not connected, whatever its body
raised.  One that cannot be entered leaves the client as connecting left it. -/
theorem ends_withClient (h : Accounting account env.network files) (husable : options.Usable)
    (hc : c.Tidy account) (body : List BridgeCall) :
    Ends (fun _ t => t.Tidy account ∧ t.held = (none, none))
      (fun _ t => t.Tidy account ∧ (c.connected = false → t.held = (none, none)))
      (withClient env options body) c := by
  refine Ends.bind ((ends_connect_tidy h husable hc).mono (fun _ t ht => ?_) (fun _ _ ht => ht))
  have hbody : Within (Keeps (Client.Tidy account)) (body.forM (BridgeCall.perform env options)) :=
    (frame_keeps _).forM (tidy_perform h husable) body
  refine Ends.ensuring ((Ends.of_after (hbody t ht)).mono (fun _ u hu => ?_) (fun e u hu => ?_))
  · exact (ends_close_tidy h hu).mono (fun _ _ hv => hv) (fun _ _ hno => hno.elim)
  · refine ⟨fun hno => absurd hno Bool.false_ne_true, fun _ => ?_⟩
    exact (ends_close_tidy h hu).mono (fun _ _ hv => ⟨hv.1, fun _ => hv.2⟩)
      (fun _ _ hno => hno.elim)

/-- A probe and … -/
theorem tidy_probe (h : Accounting account env.network files) (path : String)
    (timeout : Timeout) : Within (Keeps (Client.Tidy account)) (probeSocket env path timeout) := by
  intro c hc
  exact ((ends_probeSocket h hc.accounted path timeout).mono
    (fun _ _ ht => ⟨hc.sound.same ht.2, ht.1⟩) (fun _ _ ht => ⟨hc.sound.same ht.2, ht.1⟩)).after

/-- A call on a path changes no socket. -/
theorem tidy_path {m : EStateM OsError ω α} (hm : Within account.Settled m) :
    Within (Keeps (Client.Tidy account)) (onWorld (raising OsError.uncaught m)) := by
  intro c hc
  refine ⟨?_, hc.accounted.rests (within_onWorld (within_raising hm _) c)⟩
  exact (ends_onWorld (fun _ w _ => hc.sound.same ⟨rfl, rfl⟩)
    (fun e w _ => hc.sound.same ⟨rfl, rfl⟩) : Ends _ _ _ c).after

/-- … a cleanup of a stale socket leave the client tidy, whatever they are given. -/
theorem tidy_cleanup (h : Accounting account env.network files) (path : String)
    (timeout : Timeout) :
    Within (Keeps (Client.Tidy account)) (cleanupStaleSocket env files path timeout) := by
  have hR := frame_keeps (Client.Tidy (ω := ω) account)
  refine hR.bind ?_ (fun _ => hR.bind (tidy_path (h.lstat path)) (fun mode => ?_))
  · cases fsencode path with
    | ok _ => exact hR.pure _
    | error e => exact hR.throw e
  split
  · exact hR.pure _
  split
  · exact hR.throw _
  refine hR.bind (tidy_probe h path timeout) (fun alive => ?_)
  split
  · exact hR.pure _
  · exact hR.bind (tidy_path (h.unlink path)) (fun _ => hR.pure _)

/-! ## Whole runs -/

/-- **One use** of the client leaves it tidy. -/
theorem Client.Tidy.exec (hc : c.Tidy account) (h : Accounting account env.network files)
    (husable : options.Usable) (use : BridgeUse) : (use.exec env options files c).Tidy account := by
  cases use with
  | call made =>
      have hmade : (after (made.perform env options) c).Tidy account :=
        tidy_perform h husable made c hc
      cases made with
      | connect => rwa [BridgeCall.perform, after_bind_pure] at hmade
      | request args => rwa [BridgeCall.perform, after_bind_pure] at hmade
      | close => exact hmade
  | block body =>
      exact ((ends_withClient h husable hc body).mono (fun _ _ ht => ht.1)
        (fun _ _ ht => ht.1)).after
  | probe path timeout => exact tidy_probe h path timeout c hc
  | cleanup path timeout => exact tidy_cleanup h path timeout c hc

/-- So does any number of them. -/
theorem Client.Tidy.run (h : Accounting account env.network files) (husable : options.Usable)
    {uses : List BridgeUse} :
    ∀ {c : Client ω}, c.Tidy account → (runUses env options files c uses).Tidy account := by
  induction uses with
  | nil => exact fun hc => hc
  | cons use uses ih => exact fun hc => ih (hc.exec h husable use)

/-- What is open once a client was used. -/
structure Client.Releases (env : BridgeEnv ω) (options : ClientOptions) (account : Account ω)
    (c : Client ω) : Prop where
  /-- All that is open is the socket that the client holds. -/
  held : ∀ sock, account.isOpen c.world sock → c.socket = some sock
  /-- None is open where it is not connected. -/
  unconnected : c.connected = false → ∀ sock, ¬ account.isOpen c.world sock
  /-- Closing it closes them all. -/
  closed : ∀ sock, ¬ account.isOpen (after (close env) c).world sock
  /-- None is left by a `with` block on a client that is not connected, whatever came of it. -/
  block : c.connected = false → ∀ body sock,
    ¬ account.isOpen (after (withClient env options body) c).world sock

/-- A tidy client has released every socket but the one it holds. -/
theorem Client.Tidy.releases (hc : c.Tidy account) (h : Accounting account env.network files)
    (husable : options.Usable) : c.Releases env options account where
  held := hc.accounted.held
  unconnected hnot := hc.accounted.none_open (congrArg Prod.fst (hc.sound.of_unconnected hnot))
  closed := by
    have hend := ((ends_close_tidy h hc).mono (fun _ _ ht => ht) (fun _ _ hno => hno.elim)).after
    exact hend.1.accounted.none_open (congrArg Prod.fst hend.2)
  block hnot body := by
    have hend : (after (withClient env options body) c).Tidy account ∧
        (after (withClient env options body) c).held = (none, none) :=
      ((ends_withClient h husable hc body).mono (fun _ _ ht => ht)
        (fun _ _ ht => ⟨ht.1, ht.2 hnot⟩)).after
    exact hend.1.accounted.none_open (congrArg Prod.fst hend.2)

end

/-- **Sockets are released** in every run of a new client, over any network. -/
theorem sockets_released {ω : Type} {env : BridgeEnv ω} {files : FileSystem ω} {account : Account ω}
    (h : Accounting account env.network files) {options : ClientOptions} (husable : options.Usable)
    {world : ω}
    (hmade : account.made world = 0) (hnone : ∀ sock, ¬ account.isOpen world sock)
    (uses : List BridgeUse) :
    (runUses env options files { world := world } uses).Releases env options account := by
  have hnew : ({ world := world } : Client ω).Tidy account :=
    ⟨⟨Or.inl rfl, lawful_nil⟩, hmade.symm, fun sock hopen => absurd hopen (hnone sock)⟩
  exact (hnew.run h husable).releases h husable

/-- Sockets that are counted, to a peer that accepts and hangs up. -/
def Small.silentNetwork : Network (ℕ × List ℕ) where
  socket := fun w => .ok () (w.1 + 1, w.1 :: w.2)
  connect := fun _ _ => pure ()
  sendall := fun _ _ => pure ()
  recv := fun _ _ => pure ⟨[], Nat.zero_le _⟩
  close := fun sock w => .ok () (w.1, w.2.filter (· ≠ sock))

/-- The path is a socket that can be removed. -/
def Small.socketFile : FileSystem (ℕ × List ℕ) where
  lstat := fun _ => pure (some 0o140755)
  unlink := fun _ => pure ()

/-- An engine over that network, whose peer says hello and is silent. -/
def Small.silentEnv : BridgeEnv (ℕ × List ℕ) where
  json := json [helloAck]
  printing := { str := fun _ => "", repr := fun _ => "" }
  network := silentNetwork
  expectedUid := some 501
  uuid := tallyId
  unixMs := fun n => n

/-- Its account: the sockets made, and the list of those that are open. -/
def Small.openSockets : Account (ℕ × List ℕ) where
  made := Prod.fst
  isOpen := fun w sock => sock ∈ w.2

/-- The network keeps it. -/
theorem Small.accounting : Accounting openSockets silentNetwork socketFile := by
  have hidle := openSockets.frame.refl
  refine ⟨?_, nofun, fun sock w => ⟨⟨rfl, fun sock' h => ?_⟩, fun h => ?_⟩, fun _ _ => hidle,
    fun _ _ => hidle, fun _ _ => hidle, nofun, nofun, nofun, fun _ => hidle, fun _ => hidle⟩
  · rintro w _ _ ⟨⟩
    refine ⟨rfl, fun sock h => ?_⟩
    rcases List.mem_cons.mp h with rfl | h
    · exact Or.inr rfl
    · exact Or.inl h
  · exact List.mem_of_mem_filter h
  · simp [Small.openSockets, Small.silentNetwork, after] at h

/-- A client that was used three times. -/
def Small.used : Client (ℕ × List ℕ) :=
  runUses silentEnv options socketFile { world := (0, []) }
    [.call .connect, .cleanup "/tmp/bridge.sock", .block []]

/-- Three sockets were made for it and closed again. -/
theorem sockets_released_used :
    Small.used.Releases Small.silentEnv Small.options Small.openSockets ∧ Small.used.sockets = 3 :=
  ⟨sockets_released Small.accounting Small.usable_options rfl (fun _ => List.not_mem_nil) _,
    by decide +kernel⟩

/-- A timeout below zero is looked at once the socket is made: it stays open, and nobody has it. -/
example : 0 ∈ (after (connect Small.silentEnv
    { Small.options with connectTimeout := .seconds (-1) }) { world := (0, []) }).world.2 := by
  decide +kernel

end LiandanluNative.Bridge
