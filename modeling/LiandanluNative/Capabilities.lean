/-
# LiandanluNative.Capabilities — action specs and their registry (`capabilities.py`).

A proposal passes `ActionSpec.validate` when it names the spec's action, its top-level arguments are
the allowed ones with every required one present, and no mapping at any depth carries a forbidden
key.
-/
import LiandanluNative.Models
import LiandanluNative.Lib.Table
import Mathlib.Data.Finset.Sort
import Mathlib.Data.String.Basic

namespace LiandanluNative

open Lib (Table)

inductive IdempotencyMode where
  | safeRepeat
  | keyed
  | reconcilable
  | nonReconcilable
  deriving DecidableEq, Repr

def IdempotencyMode.value : IdempotencyMode → String
  | .safeRepeat => "SAFE_REPEAT"
  | .keyed => "KEYED"
  | .reconcilable => "RECONCILABLE"
  | .nonReconcilable => "NON_RECONCILABLE"

/-! ## Forbidden keys

The scan of `validate`.  It goes down every mapping, list and tuple, and reports the path to each
key that is forbidden in lower case.
-/

mutual

/-- `_find_forbidden_keys`: where a forbidden key stands in a value. -/
def findForbiddenKeys (py : Builtins) (forbidden : Finset String) (location : String) :
    PyVal → List String
  | .dict items => findForbiddenItems py forbidden location items
  | .list xs => findForbiddenElements py forbidden location 0 xs
  | .tuple xs => findForbiddenElements py forbidden location 0 xs
  | _ => []

/-- The members of a mapping. -/
def findForbiddenItems (py : Builtins) (forbidden : Finset String) (location : String) :
    List (PyKey × PyVal) → List String
  | [] => []
  | (rawKey, child) :: items =>
      let key := rawKey.toStr
      let place := if location = "" then key else location ++ "." ++ key
      (if py.lower key ∈ forbidden then [place] else [])
        ++ findForbiddenKeys py forbidden place child
        ++ findForbiddenItems py forbidden location items

/-- The elements of a list or tuple, counted from `index`. -/
def findForbiddenElements (py : Builtins) (forbidden : Finset String) (location : String)
    (index : Nat) : List PyVal → List String
  | [] => []
  | child :: xs =>
      findForbiddenKeys py forbidden (location ++ "[" ++ toString index ++ "]") child
        ++ findForbiddenElements py forbidden location (index + 1) xs

end

/-! ## Action specs -/

/-- The default of `forbidden_arguments`. -/
def defaultForbidden : Finset String :=
  {"path", "file_path", "absolute_path", "locator", "filesystem_path", "source_path", "target_path",
    "shell_command"}

/-- An action spec. `revisionDomains` is a frozenset in the order it is iterated. -/
structure ActionSpec where
  capability : String
  action : String
  riskClass : RiskClass
  requiredPermission : String
  allowedArguments : Finset String := ∅
  requiredArguments : Finset String := ∅
  revisionDomains : List String := []
  resourceRequest : ResourceRequest := {}
  idempotencyMode : IdempotencyMode := .reconcilable
  forbiddenArguments : Finset String := defaultForbidden

/-- `repr` of a list of strings. -/
def listRepr (texts : List String) : String :=
  "[" ++ String.intercalate ", " (texts.map strRepr) ++ "]"

/-- `sorted(texts)` -/
def sortedTexts (texts : List String) : List String := texts.insertionSort (· ≤ ·)

/-- The key is an allowed argument name. -/
def ActionSpec.allows (spec : ActionSpec) : PyKey → Bool
  | .str name => decide (name ∈ spec.allowedArguments)
  | _ => false

/-- What `validate` raises for unknown arguments. Sorting keys that are not all strings may raise of
its own. -/
def unknownArguments (py : Builtins) (unknown : List PyKey) : Exc :=
  match unknown.mapM PyKey.text? with
  | some names => ⟨.invalidAction, "unknown arguments: " ++ listRepr (sortedTexts names)⟩
  | none =>
      match py.sortedKeys unknown with
      | .ok text => ⟨.invalidAction, "unknown arguments: " ++ text⟩
      | .error text => ⟨.typeError, text⟩

/-- `validate` -/
def ActionSpec.validate (py : Builtins) (spec : ActionSpec) (proposal : ActionProposal) :
    Except Exc Unit :=
  let keys := (proposal.arguments.map Prod.fst).dedup
  let unknown := keys.filter (fun key => !spec.allows key)
  let missing := (spec.requiredArguments.sort (· ≤ ·)).filter
    (fun name => decide (PyKey.str name ∉ keys))
  let forbidden := findForbiddenItems py spec.forbiddenArguments "" proposal.arguments
  if proposal.capability ≠ spec.capability ∨ proposal.action ≠ spec.action then
    .error ⟨.invalidAction, "proposal does not match action spec"⟩
  else if unknown ≠ [] then
    .error (unknownArguments py unknown)
  else if missing ≠ [] then
    .error ⟨.invalidAction, "missing required arguments: " ++ listRepr missing⟩
  else if forbidden ≠ [] then
    .error ⟨.invalidAction,
      "forbidden locator-like arguments: " ++ listRepr (sortedTexts forbidden)⟩
  else
    .ok ()

/-! ## The registry

The specs of all actions, under capability and action.  A proposal is resolved to the spec that it
names, if there is one and its arguments are valid.
-/

/-- The key an action spec is registered under. -/
def ActionSpec.key (spec : ActionSpec) : String × String := (spec.capability, spec.action)

abbrev CapabilityRegistry := Table ActionSpec.key

/-- `CapabilityRegistry.register` -/
def CapabilityRegistry.register (registry : CapabilityRegistry) (spec : ActionSpec) :
    Except Exc CapabilityRegistry :=
  match registry.get? spec.key with
  | some _ =>
      .error ⟨.valueError,
        "duplicate action spec: (" ++ strRepr spec.capability ++ ", " ++ strRepr spec.action ++ ")"⟩
  | none => .ok (registry.put spec)

/-- `CapabilityRegistry.resolve` -/
def CapabilityRegistry.resolve (py : Builtins) (registry : CapabilityRegistry)
    (proposal : ActionProposal) : Except Exc ActionSpec :=
  match registry.get? (proposal.capability, proposal.action) with
  | none =>
      .error ⟨.invalidAction,
        "unregistered action: " ++ proposal.capability ++ "." ++ proposal.action⟩
  | some spec =>
      match spec.validate py proposal with
      | .error e => .error e
      | .ok () => .ok spec

/-- A proposal resolves to a registered spec that it passes. -/
theorem CapabilityRegistry.resolve_eq_ok {py : Builtins} {registry : CapabilityRegistry}
    {proposal : ActionProposal} {spec : ActionSpec} :
    registry.resolve py proposal = .ok spec ↔
      registry.get? (proposal.capability, proposal.action) = some spec ∧
      spec.validate py proposal = .ok () := by
  unfold CapabilityRegistry.resolve
  cases hget : registry.get? (proposal.capability, proposal.action) with
  | none => simp
  | some found =>
      simp only [Option.some.injEq]
      cases hvalid : found.validate py proposal with
      | error e =>
          simp only [reduceCtorEq, false_iff, not_and]
          rintro rfl
          simp [hvalid]
      | ok u =>
          simp only [Except.ok.injEq]
          constructor
          · rintro rfl
            exact ⟨rfl, hvalid⟩
          · exact fun h => h.1

end LiandanluNative
