/-
# LiandanluNative.Safety.WorldUpdates — what a failing update leaves of the world.

`relate` looks at both its entities before it touches an edge, and `register` has nothing to refuse.
`observe` appends the observation first and looks at its arguments afterwards, so an observation of
a domain without a counter, or of no workspace at all, raises and stays in the list.  The calls that
fail without a trace are exactly the others (`worldUpdate_atomic_iff`).
-/
import LiandanluNative.Runtime.Engine
import LiandanluNative.Runtime.WorldEnds

namespace LiandanluNative

open Lib.Proc

/-! ## The three updates -/

/-- A call of a method of `WorldModel` that changes the world. -/
inductive WorldUpdate where
  | register (entity : Entity)
  | observe (source observationType : String) (value : PyVal) (domain : String)
      (workspaceId : Option String)
  | relate (source relation target : String)

namespace WorldUpdate

/-- The call. -/
def run (env : Env) : WorldUpdate → M Unit
  | register entity => registerEntity env entity
  | observe source observationType value domain workspaceId =>
      LiandanluNative.observe env source observationType value domain workspaceId
  | relate source relation target => LiandanluNative.relate env source relation target

/-- The store takes what the call writes: an entity, the id of a workspace that is bumped, or an
edge. -/
def Storable (s : Sys) : WorldUpdate → Prop
  | register entity => s.persistent = true → entity.storedMetadata.isSome = true
  | observe _ _ _ domain workspaceId =>
      s.persistent = true → domain = "workspace" → ∀ id, workspaceId = some id →
        Bindable [.text id]
  | relate source relation target =>
      s.persistent = true → ∀ sourceEntity targetEntity,
        s.world.AddsEdge source relation target sourceEntity targetEntity →
        Bindable [.text source, .text relation, .text target] ∧
          Bindable [.text sourceEntity.workspaceId]

end WorldUpdate

/-- The domains that `bump` counts. -/
def WorldRevisions.domains : List String := ["desktop", "workspace", "browser", "media", "tasks"]

theorem WorldRevisions.bump_isOk_iff (r : WorldRevisions) (domain : String) :
    (∃ bumped, r.bump domain = .ok bumped) ↔ domain ∈ WorldRevisions.domains := by
  unfold bump domains
  simp only [List.mem_cons, List.not_mem_nil, or_false]
  split_ifs <;> simp_all

/-- An observation can be counted: its domain has a counter, and a workspace is named where the
counter is one of a workspace.  The other two updates need nothing. -/
def WorldUpdate.Countable : WorldUpdate → Prop
  | observe _ _ _ domain workspaceId =>
      domain ∈ WorldRevisions.domains ∧ (domain = "workspace" → workspaceId.isSome = true)
  | _ => True

/-! ## What a failing update leaves

A countable update that the store takes raises before its first change, if it raises; an observation
that cannot be counted is noted first.
-/

section

variable {env : Env} {s : Sys}

/-- A countable update that the store takes raises before its first change. -/
theorem WorldUpdate.ends_run {call : WorldUpdate} (hstorable : call.Storable s)
    (hcountable : call.Countable) :
    Ends (fun _ _ => True) (fun fault t => fault = .crash ∨ t = s) (call.run env) s := by
  cases call with
  | register entity =>
      apply ends_registerEntity
      · exact fun _ _ => trivial
      · intro hpersistent hrefused
        -- the one way to fail is an entity that the store refuses
        have hsome := hstorable hpersistent
        rw [hrefused] at hsome
        cases hsome
      · exact fun _ _ _ _ => Or.inl rfl
  | relate source relation target =>
      apply ends_relate
      · exact fun _ => Or.inr rfl
      · exact fun _ => trivial
      · intro sourceEntity targetEntity hadds
        have htaken := fun hpersistent => hstorable hpersistent sourceEntity targetEntity hadds
        exact ends_relate_adds hadds (fun _ => trivial)
          (fun hpersistent hrefused => absurd (htaken hpersistent).1 hrefused)
          (fun hpersistent _ hrefused => absurd (htaken hpersistent).2 hrefused)
          (fun _ _ => Or.inl rfl)
  | observe source observationType value domain workspaceId =>
      obtain ⟨hdomain, hworkspace⟩ := hcountable
      show Ends _ _ (LiandanluNative.observe env source observationType value domain workspaceId) s
      unfold LiandanluNative.observe modifyWorld
      refine Ends.bind (Ends.modifying ?_)
      split
      · rename_i heq
        obtain ⟨id, rfl⟩ := Option.isSome_iff_exists.mp (hworkspace heq)
        exact ends_bumpWorkspace trivial
          (fun hpersistent hrefused => absurd (hstorable hpersistent heq id rfl) hrefused)
          (fun _ _ => Or.inl rfl)
      · refine Ends.bind (Ends.get (Ends.bind ?_))
        apply ends_liftExcept
        · intro bumped _
          exact Ends.bind (Ends.modifying (ends_persisting
            (fun db => { db with worldRevisions := some bumped }) rfl trivial (Or.inl rfl)))
        · intro e hraised
          obtain ⟨bumped, hbumped⟩ :=
            (WorldRevisions.bump_isOk_iff s.world.revisions domain).mpr hdomain
          cases hraised.symm.trans hbumped

/-- An observation that cannot be counted is noted, and then refused. -/
theorem observe_eq_error {source observationType domain : String} {value : PyVal}
    {workspaceId : Option String}
    (h : ¬ (WorldUpdate.observe source observationType value domain workspaceId).Countable) :
    ∃ e, observe env source observationType value domain workspaceId s
      = .error (.raised e) (s.noted ⟨source, observationType, value, workspaceId⟩) := by
  unfold WorldUpdate.Countable at h
  by_cases hworkspace : domain = "workspace"
  · subst hworkspace
    have hnone : workspaceId = none := by simpa [WorldRevisions.domains] using h
    subst hnone
    exact ⟨⟨.valueError, "workspace_id is required for workspace observations"⟩, rfl⟩
  · have hdomain : domain ∉ WorldRevisions.domains := fun hmem =>
      h ⟨hmem, fun heq => absurd heq hworkspace⟩
    cases hbump : s.world.revisions.bump domain with
    | ok bumped => exact absurd ((WorldRevisions.bump_isOk_iff _ _).mp ⟨bumped, hbump⟩) hdomain
    | error e =>
        refine ⟨e, ?_⟩
        have hlift : (liftExcept (s.world.revisions.bump domain) : M WorldRevisions)
            (s.noted ⟨source, observationType, value, workspaceId⟩)
              = .error (.raised e) (s.noted ⟨source, observationType, value, workspaceId⟩) := by
          rw [hbump]
          rfl
        unfold observe
        rw [if_neg hworkspace]
        show (liftExcept (s.world.revisions.bump domain) >>= fun revisions => do
          modifyWorld fun world => { world with revisions := revisions }
          persistRevisions env) (s.noted ⟨source, observationType, value, workspaceId⟩) = _
        exact after_bind_error hlift

theorem Sys.noted_world_ne (s : Sys) (observation : Observation) :
    (s.noted observation).world ≠ s.world := by
  intro heq
  have hlength := congrArg (fun world => world.observations.length) heq
  simp [WorldModel.noted] at hlength

/-- **A failing update changes nothing, if and only if it can be counted.** -/
theorem worldUpdate_atomic_iff (env : Env) (s : Sys) (call : WorldUpdate)
    (hstorable : call.Storable s) :
    (∀ e t, call.run env s = .error (.raised e) t → t.world = s.world ∧ t.db = s.db) ↔
      call.Countable := by
  constructor
  · intro hatomic
    by_contra hnot
    cases call with
    | register entity => exact hnot trivial
    | relate source relation target => exact hnot trivial
    | observe source observationType value domain workspaceId =>
        obtain ⟨e, hraised⟩ := @observe_eq_error env s _ _ _ _ _ hnot
        exact s.noted_world_ne _ (hatomic e _ hraised).1
  · intro hcountable e t hraised
    rcases (WorldUpdate.ends_run hstorable hcountable).raised hraised with hcrash | rfl
    · cases hcrash
    · exact ⟨rfl, rfl⟩

/-- A registration in the small engine, which has a store. -/
theorem worldUpdate_atomic_small :
    (∀ e t, (WorldUpdate.register Small.document).run Small.env Small.start
        = .error (.raised e) t →
      t.world = Small.start.world ∧ t.db = Small.start.db) ↔
      (WorldUpdate.register Small.document).Countable :=
  worldUpdate_atomic_iff Small.env Small.start (.register Small.document) (fun _ => rfl)

/-- An observation of no workspace raises, and the world has changed. -/
theorem worldUpdate_atomic_fails :
    ¬ ∀ e t, (WorldUpdate.observe "camera" "frame" .none "workspace" none).run Small.env Small.start
        = .error (.raised e) t →
      t.world = Small.start.world ∧ t.db = Small.start.db :=
  fun hatomic => Small.start.noted_world_ne ⟨"camera", "frame", .none, none⟩
    (hatomic ⟨.valueError, "workspace_id is required for workspace observations"⟩ _ rfl).1

end

end LiandanluNative
