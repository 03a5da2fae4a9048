/-
# LiandanluNative.Policy — the policy engine of `policy.py`: default deny.

There is no state in it: a decision depends on the policy of the task's workspace and on the action
that is proposed.
-/
import LiandanluNative.Models
import LiandanluNative.Lib.Table

namespace LiandanluNative

open Lib (Table)

/-- What the policy says of an action: it may be done, must not be done, or has to be confirmed
first. -/
inductive PolicyDecision where
  | allow
  | deny
  | requireConfirmation
  deriving DecidableEq, Repr

/-- The policy of a workspace. As it is made it allows no capability, and lets reading and
reversible actions through of those that are allowed later. -/
structure WorkspacePolicy where
  allowedCapabilities : Finset String := ∅
  deniedActions : Finset String := ∅
  confirmRisks : Finset RiskClass := {.mutating, .external, .destructive}
  allowRisks : Finset RiskClass := {.read, .reversible}

/-- `policies`, by workspace. -/
abbrev PolicyEngine := Table (Prod.fst : String × WorkspacePolicy → String)

/-- `evaluate`: the first line that applies decides, and the risks that have to be confirmed come
before those that are allowed.  A workspace without a policy allows nothing. -/
def PolicyEngine.evaluate (engine : PolicyEngine) (workspaceId capability action : String)
    (risk : RiskClass) : PolicyDecision :=
  match engine.get? workspaceId with
  | none => .deny
  | some (_, policy) =>
      if action ∈ policy.deniedActions then .deny
      else if capability ∉ policy.allowedCapabilities then .deny
      else if risk ∈ policy.confirmRisks then .requireConfirmation
      else if risk ∈ policy.allowRisks then .allow
      else .deny

end LiandanluNative
