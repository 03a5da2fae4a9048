/-
# LiandanluNative.Context — the manifest a model is shown (`context.py`).
-/
import LiandanluNative.Models
import Mathlib.Data.List.Sort

namespace LiandanluNative

structure Referent where
  objectRef : String
  source : String
  score : ℚ

/-- The referents, the latest first. -/
structure ReferentStack where
  items : List Referent := []

/-- `push` -/
def ReferentStack.push (stack : ReferentStack) (ref source : String) (score : ℚ) : ReferentStack :=
  let others := stack.items.filter (fun x => decide (x.objectRef ≠ ref))
  { items := (({ objectRef := ref, source := source, score := score } : Referent) :: others).take 32 }

/-- `sorted(self.items, key=lambda x: x.score, reverse=True)`, which keeps the order of items with
one score. -/
def ReferentStack.ranked (stack : ReferentStack) : List Referent :=
  stack.items.insertionSort (fun a b => b.score ≤ a.score)

/-- `resolve` -/
def ReferentStack.resolve (stack : ReferentStack) (minimum ambiguityGap : ℚ) : Option String :=
  match stack.ranked with
  | [] => none
  | first :: rest =>
      if first.score < minimum then
        none
      else if rest.head?.any (fun second => decide (first.score - second.score < ambiguityGap)) then
        none
      else
        some first.objectRef

structure ContextManifest where
  manifestId : String
  taskId : String
  workspaceId : String
  worldRevisions : List (String × Int)
  focusObjectRefs : List String := []
  referentRefs : List String := []
  factMemoryRefs : List String := []
  episodeMemoryRefs : List String := []
  strategyMemoryRefs : List String := []
  recentEventFrom : Option Int := none
  recentEventTo : Option Int := none
  brainSnapshotRef : Option String := none
  constraints : List String := []
  successCriteria : List String := []
  excluded : List (String × String) := []

/-- `manifest.world_revisions[domain]`, or `none` where Python raises `KeyError`. -/
def ContextManifest.revision? (manifest : ContextManifest) (domain : String) : Option Int :=
  (manifest.worldRevisions.find? (fun entry => decide (entry.1 = domain))).map Prod.snd

end LiandanluNative
