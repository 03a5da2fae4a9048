/-
# LiandanluNative.Safety.LocatorSmuggling — no forbidden key at any depth of the arguments.

The scan of `validate` goes down mappings, lists and tuples and reports where it found a forbidden
key.  Where it is makes no difference to whether it is found: a value has a report exactly if some
mapping in it, at whatever depth, has a key that is forbidden in lower case (`findForbiddenKeys_eq_nil`).
So a proposal that is validated smuggles nothing, and one that smuggles nothing is only refused for
what it names and for its top-level arguments (`validate_iff`).

The scan is three functions that call each other, for a value, for the entries of a mapping and for
the elements of a list or a tuple; what it reports carries the path that leads there.  The theorem
is proved for all three at once, and for any path.
-/
import LiandanluNative.Capabilities

namespace LiandanluNative

/-- The key is one of a mapping somewhere in the value. -/
inductive PyVal.HasKey (key : PyKey) : PyVal → Prop
  | here {items : List (PyKey × PyVal)} {child : PyVal} (h : (key, child) ∈ items) :
      HasKey key (.dict items)
  | member {items : List (PyKey × PyVal)} {other : PyKey} {child : PyVal}
      (h : (other, child) ∈ items) (inside : HasKey key child) : HasKey key (.dict items)
  | element {xs : List PyVal} {child : PyVal} (h : child ∈ xs) (inside : HasKey key child) :
      HasKey key (.list xs)
  | component {xs : List PyVal} {child : PyVal} (h : child ∈ xs) (inside : HasKey key child) :
      HasKey key (.tuple xs)

/-- No key of a mapping in the value is forbidden in lower case. -/
def PyVal.Harmless (py : Builtins) (forbidden : Finset String) (value : PyVal) : Prop :=
  ∀ key, value.HasKey key → py.lower key.toStr ∉ forbidden

section

variable {py : Builtins} {forbidden : Finset String}

/-! ## Harmless containers

What it means for a container to be harmless, in terms of what it contains: the equations that the
scan is compared with.
-/

namespace PyVal

/-- An empty mapping has no keys. -/
theorem harmless_dict_nil : Harmless py forbidden (.dict []) := by
  intro key h
  cases h with
  | here h => exact absurd h List.not_mem_nil
  | member h _ => exact absurd h List.not_mem_nil

/-- A mapping is harmless if the first key, the value under it and the other entries are. -/
theorem harmless_dict_cons {key : PyKey} {child : PyVal} {items : List (PyKey × PyVal)} :
    Harmless py forbidden (.dict ((key, child) :: items)) ↔
      py.lower key.toStr ∉ forbidden ∧ child.Harmless py forbidden ∧
        Harmless py forbidden (.dict items) := by
  constructor
  · intro h
    refine ⟨h key (.here List.mem_cons_self),
      fun inner hinner => h inner (.member List.mem_cons_self hinner), fun inner hinner => h inner ?_⟩
    cases hinner with
    | here hin => exact .here (List.mem_cons_of_mem _ hin)
    | member hin inside => exact .member (List.mem_cons_of_mem _ hin) inside
  · rintro ⟨hkey, hchild, hrest⟩ inner hinner
    cases hinner with
    | here hin =>
        rcases List.mem_cons.mp hin with hfirst | hlater
        · cases hfirst
          exact hkey
        · exact hrest inner (.here hlater)
    | member hin inside =>
        rcases List.mem_cons.mp hin with hfirst | hlater
        · cases hfirst
          exact hchild inner inside
        · exact hrest inner (.member hlater inside)

/-- A list is harmless if its elements are. -/
theorem harmless_list {xs : List PyVal} :
    Harmless py forbidden (.list xs) ↔ ∀ child ∈ xs, child.Harmless py forbidden := by
  constructor
  · exact fun h child hchild key hkey => h key (.element hchild hkey)
  · intro h key hkey
    cases hkey with
    | element hchild inside => exact h _ hchild key inside

/-- So is a tuple. -/
theorem harmless_tuple {xs : List PyVal} :
    Harmless py forbidden (.tuple xs) ↔ ∀ child ∈ xs, child.Harmless py forbidden := by
  constructor
  · exact fun h child hchild key hkey => h key (.component hchild hkey)
  · intro h key hkey
    cases hkey with
    | component hchild inside => exact h _ hchild key inside

end PyVal

/-! ## The scan -/

mutual

/-- **The scan reports nothing exactly if the value is harmless**, wherever the value stands. -/
theorem findForbiddenKeys_eq_nil : ∀ (location : String) (value : PyVal),
    findForbiddenKeys py forbidden location value = [] ↔ value.Harmless py forbidden
  | location, .dict items => by
      rw [findForbiddenKeys]
      exact findForbiddenItems_eq_nil location items
  | location, .list xs => by
      rw [findForbiddenKeys, PyVal.harmless_list]
      exact findForbiddenElements_eq_nil location 0 xs
  | location, .tuple xs => by
      rw [findForbiddenKeys, PyVal.harmless_tuple]
      exact findForbiddenElements_eq_nil location 0 xs
  | _, .none | _, .bool _ | _, .int _ | _, .float _ | _, .str _ | _, .other _ => by
      rw [findForbiddenKeys]
      · exact iff_of_true rfl nofun
      all_goals nofun

/-- The same of the entries of a mapping. -/
theorem findForbiddenItems_eq_nil : ∀ (location : String) (items : List (PyKey × PyVal)),
    findForbiddenItems py forbidden location items = [] ↔
      PyVal.Harmless py forbidden (.dict items)
  | _, [] => by
      rw [findForbiddenItems]
      exact iff_of_true rfl PyVal.harmless_dict_nil
  | location, (rawKey, child) :: items => by
      -- the key, what is under it, and the rest
      rw [findForbiddenItems, PyVal.harmless_dict_cons]
      simp only [List.append_eq_nil_iff]
      rw [findForbiddenKeys_eq_nil, findForbiddenItems_eq_nil location items, and_assoc]
      refine and_congr_left' ?_
      split
      · rename_i hin
        exact iff_of_false (List.cons_ne_nil _ _) (not_not_intro hin)
      · rename_i hout
        exact iff_of_true rfl hout

/-- The same of the elements of a list or a tuple. -/
theorem findForbiddenElements_eq_nil : ∀ (location : String) (index : Nat) (xs : List PyVal),
    findForbiddenElements py forbidden location index xs = [] ↔
      ∀ child ∈ xs, child.Harmless py forbidden
  | _, _, [] => by
      rw [findForbiddenElements]
      exact iff_of_true rfl (fun _ h => absurd h List.not_mem_nil)
  | location, index, child :: xs => by
      rw [findForbiddenElements, List.append_eq_nil_iff, findForbiddenKeys_eq_nil,
        findForbiddenElements_eq_nil location (index + 1) xs, List.forall_mem_cons]

end

/-! ## The checks -/

/-- What the check of the top-level arguments comes to. -/
theorem ActionSpec.allows_iff {spec : ActionSpec} {key : PyKey} :
    spec.allows key = true ↔ ∃ name ∈ spec.allowedArguments, key = .str name := by
  cases key with
  | str name =>
      constructor
      · exact fun h => ⟨name, of_decide_eq_true h, rfl⟩
      · rintro ⟨name, hin, ⟨⟩⟩
        exact decide_eq_true hin
  | none | bool | int | float | other =>
      refine iff_of_false Bool.false_ne_true ?_
      rintro ⟨_, _, ⟨⟩⟩

/-- **A proposal is validated exactly if** it names the action of the spec, its top-level arguments
are allowed and include the required ones, and no key of a mapping in them, at any depth, is
forbidden in lower case. -/
theorem ActionSpec.validate_iff (py : Builtins) (spec : ActionSpec) (proposal : ActionProposal) :
    spec.validate py proposal = .ok () ↔
      (proposal.capability = spec.capability ∧ proposal.action = spec.action) ∧
      (∀ key ∈ proposal.arguments.map Prod.fst, ∃ name ∈ spec.allowedArguments, key = .str name) ∧
      (∀ name ∈ spec.requiredArguments, .str name ∈ proposal.arguments.map Prod.fst) ∧
      ∀ key, PyVal.HasKey key (.dict proposal.arguments) →
        py.lower key.toStr ∉ spec.forbiddenArguments := by
  have hunknown : (proposal.arguments.map Prod.fst).dedup.filter (fun key => !spec.allows key) = [] ↔
      ∀ key ∈ proposal.arguments.map Prod.fst, ∃ name ∈ spec.allowedArguments, key = .str name := by
    simp only [List.filter_eq_nil_iff, List.mem_dedup, Bool.not_eq_true', Bool.not_eq_false,
      spec.allows_iff]
  have hmissing : (spec.requiredArguments.sort (· ≤ ·)).filter
        (fun name => decide (PyKey.str name ∉ (proposal.arguments.map Prod.fst).dedup)) = [] ↔
      ∀ name ∈ spec.requiredArguments, .str name ∈ proposal.arguments.map Prod.fst := by
    simp only [List.filter_eq_nil_iff, Finset.mem_sort, List.mem_dedup, decide_eq_true_eq, not_not]
  have hforbidden := @findForbiddenItems_eq_nil py spec.forbiddenArguments "" proposal.arguments
  rw [← hunknown, ← hmissing]
  show _ ↔ _ ∧ _ ∧ _ ∧ PyVal.Harmless py spec.forbiddenArguments (.dict proposal.arguments)
  rw [← hforbidden]
  unfold validate
  dsimp only
  -- the checks in their order, each of which ends the method
  split
  · rename_i hother
    exact iff_of_false nofun (fun h => hother.elim (fun hne => hne h.1.1) (fun hne => hne h.1.2))
  rename_i hnamed
  obtain ⟨hcapability, haction⟩ := not_or.mp hnamed
  split
  · rename_i hsome
    exact iff_of_false nofun (fun h => hsome h.2.1)
  rename_i hallowed
  split
  · rename_i hsome
    exact iff_of_false nofun (fun h => hsome h.2.2.1)
  rename_i hrequired
  split
  · rename_i hsome
    exact iff_of_false nofun (fun h => hsome h.2.2.2)
  rename_i hclean
  exact iff_of_true rfl ⟨⟨not_not.mp hcapability, not_not.mp haction⟩, not_not.mp hallowed,
    not_not.mp hrequired, not_not.mp hclean⟩

end

end LiandanluNative
