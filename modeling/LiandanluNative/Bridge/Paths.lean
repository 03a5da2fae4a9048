/-
# LiandanluNative.Bridge.Paths — the rest of `desktop_bridge.py`: socket paths, and `with` blocks.

`probe_socket` and `cleanup_stale_socket` make sockets of their own, which are numbered with those of
the client.  A `with` block connects, runs its calls until one raises, and closes; where `__enter__`
raises there is no `__exit__`.
-/
import LiandanluNative.Bridge.Client

namespace LiandanluNative.Bridge

open Lib.Proc

/-- What `lstat` and `unlink` do; `lstat` gives `st_mode`, or `none` for `FileNotFoundError`. -/
structure FileSystem (ω : Type) where
  lstat : String → EStateM OsError ω (Option ℕ)
  unlink : String → EStateM OsError ω Unit

/-- `stat.S_ISSOCK` -/
def isSock (mode : ℕ) : Bool := decide (mode &&& 0o170000 = 0o140000)

section

variable {ω : Type} (env : BridgeEnv ω) (options : ClientOptions) (files : FileSystem ω)

/-- `probe_socket` -/
def probeSocket (path : String) (timeout : Timeout) : ClientM ω Bool := do
  let c ← get
  let sock := c.sockets
  onWorld (raising OsError.uncaught env.network.socket)
  modify fun c => { c with sockets := sock + 1 }
  -- the answer, or what is raised, is lost where closing raises
  ensuring (fun _ => false)
    (do
      ofExcept (settimeout timeout)
      let connected ← connectSocket env sock path
      return connected.isSome)
    (closeSocket env sock)

/-- `cleanup_stale_socket` -/
def cleanupStaleSocket (path : String) (timeout : Timeout) : ClientM ω Bool := do
  ofExcept (fsencode path)
  let mode ← onWorld (raising OsError.uncaught (files.lstat path))
  match mode with
  | none => return false
  | some mode =>
      if !isSock mode then
        throw (.protocolError "refusing to unlink non-socket path")
      else do
        let alive ← probeSocket env path timeout
        if alive then
          return false
        else do
          onWorld (raising OsError.uncaught (files.unlink path))
          return true

/-- A public call whose answer is not looked at. -/
def BridgeCall.perform : BridgeCall → ClientM ω Unit
  | .connect => do
      let _ ← Bridge.connect env options
      return ()
  | .request args => do
      let _ ← Bridge.request env options args
      return ()
  | .close => Bridge.close env

/-- `with client: …` -/
def withClient (body : List BridgeCall) : ClientM ω Unit := do
  let _ ← Bridge.connect env options
  ensuring (fun _ => false) (body.forM (BridgeCall.perform env options)) (Bridge.close env)

/-- What a process does with its client and the paths. -/
inductive BridgeUse where
  | call (call : BridgeCall)
  | block (body : List BridgeCall)
  | probe (path : String) (timeout : Timeout := .seconds (1 / 5))
  | cleanup (path : String) (timeout : Timeout := .seconds (1 / 5))

/-- The client after a use, whether it returned or raised. -/
def BridgeUse.exec (c : Client ω) : BridgeUse → Client ω
  | .call made => made.exec env options c
  | .block body => after (withClient env options body) c
  | .probe path timeout => after (probeSocket env path timeout) c
  | .cleanup path timeout => after (cleanupStaleSocket env files path timeout) c

/-- A run of uses. -/
def runUses (c : Client ω) (uses : List BridgeUse) : Client ω :=
  uses.foldl (BridgeUse.exec env options files) c

end

end LiandanluNative.Bridge
