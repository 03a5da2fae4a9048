/-
# LiandanluNative.Json — what a value keeps on its way through a JSON column.

`PyVal.jsonDumps` is `json.loads(json.dumps(value))`.  What it returns it returns unchanged the next
time (`jsonDumps_idem`), so a row that is loaded and saved again stays the row it is.

What changes in a round trip are the keys of objects: a key that is a number or a truth value comes
back as its text, and of keys that meet in one text the last one stays.  Everything here is about
that: values keep their kind, so only objects need an argument (`Decoded`, `Names`).
-/
import LiandanluNative.Value
import Mathlib.Data.List.Nodup

namespace LiandanluNative

namespace PyVal

/-! ## Encodable values -/

/-- A dictionary is encodable when its keys and its values are; two keys that meet in one text are
no obstacle. -/
theorem jsonDumpsItems_isSome {items : List (PyKey × PyVal)}
    (h : ∀ item ∈ items, (jsonKey item.1).isSome = true ∧ (jsonDumps item.2).isSome = true) :
    ∃ column, jsonDumpsItems items = some column := by
  induction items with
  | nil => exact ⟨[], by simp only [jsonDumpsItems]⟩
  | cons item items ih =>
      obtain ⟨k, x⟩ := item
      obtain ⟨hk, hx⟩ := h (k, x) List.mem_cons_self
      obtain ⟨name, hname⟩ := Option.isSome_iff_exists.mp hk
      obtain ⟨y, hy⟩ := Option.isSome_iff_exists.mp hx
      obtain ⟨rest, hrest⟩ := ih (fun item hitem => h item (List.mem_cons_of_mem _ hitem))
      simp only [jsonDumpsItems, hname, hy, hrest]
      split
      · exact ⟨_, rfl⟩
      · exact ⟨_, rfl⟩

/-- The payload of an event is encodable when its values are. -/
theorem jsonDumpsItems_payload {fields : List (String × PyVal)}
    (h : ∀ field ∈ fields, (jsonDumps field.2).isSome = true) :
    ∃ column, jsonDumpsItems (payload fields) = some column := by
  refine jsonDumpsItems_isSome (fun item hitem => ?_)
  obtain ⟨field, hfield, rfl⟩ := List.mem_map.mp hitem
  exact ⟨rfl, h field hfield⟩

/-! ## A second round trip

What was decoded is encoded to itself: one round through JSON may change a value, and every later
one leaves it alone.
-/

/-- What an array decodes to when each of its elements stays as it is. -/
theorem jsonDumpsList_self {xs : List PyVal} (h : ∀ x ∈ xs, jsonDumps x = some x) :
    jsonDumpsList xs = some xs := by
  induction xs with
  | nil => simp only [jsonDumpsList]
  | cons x xs ih =>
      have hx := h x List.mem_cons_self
      have hxs := ih (fun y hy => h y (List.mem_cons_of_mem _ hy))
      simp only [jsonDumpsList, hx, hxs]

/-- An array is encodable when its parts are. -/
theorem jsonDumpsList_append {xs ys xs' ys' : List PyVal} (hxs : jsonDumpsList xs = some xs')
    (hys : jsonDumpsList ys = some ys') : jsonDumpsList (xs ++ ys) = some (xs' ++ ys') := by
  induction xs generalizing xs' with
  | nil =>
      simp only [jsonDumpsList, Option.some.injEq] at hxs
      rw [← hxs]
      exact hys
  | cons x xs ih =>
      simp only [jsonDumpsList] at hxs
      split at hxs
      · rename_i y rest hy hrest
        cases hxs
        simp only [List.cons_append, jsonDumpsList, hy, ih hrest]
      · cases hxs

/-- A list of strings stays what it is. -/
theorem jsonDumps_strings (xs : List String) : (strings xs).jsonDumps = some (strings xs) := by
  have hxs : jsonDumpsList (xs.map PyVal.str) = some (xs.map PyVal.str) := by
    refine jsonDumpsList_self (fun x hx => ?_)
    obtain ⟨text, _, rfl⟩ := List.mem_map.mp hx
    rw [jsonDumps]
  unfold strings
  rw [jsonDumps, hxs]
  rfl

/-- The members of an object that was decoded: names, each once, with values that stay.  A
dictionary like that is what it is decoded to. -/
structure Decoded (items : List (PyKey × PyVal)) : Prop where
  names : ∀ item ∈ items, ∃ name, item.1 = .str name
  nodup : (items.map Prod.fst).Nodup
  values : ∀ item ∈ items, jsonDumps item.2 = some item.2

/-- So it is encoded to itself. -/
theorem Decoded.self {items : List (PyKey × PyVal)} (h : Decoded items) :
    jsonDumpsItems items = some items := by
  induction items with
  | nil => simp only [jsonDumpsItems]
  | cons item items ih =>
      have hnodup := h.nodup
      rw [List.map_cons, List.nodup_cons] at hnodup
      have hitems := ih
        { names := fun i hi => h.names i (List.mem_cons_of_mem _ hi)
          nodup := hnodup.2
          values := fun i hi => h.values i (List.mem_cons_of_mem _ hi) }
      obtain ⟨k, x⟩ := item
      obtain ⟨name, rfl⟩ := h.names _ List.mem_cons_self
      have hx : jsonDumps x = some x := h.values _ List.mem_cons_self
      have hnone : items.find? (fun item => decide (item.1 = PyKey.str name)) = Option.none := by
        refine List.find?_eq_none.mpr (fun i hi heq => hnodup.1 ?_)
        exact List.mem_map.mpr ⟨i, hi, of_decide_eq_true heq⟩
      simp only [jsonDumpsItems, jsonKey, hx, hitems, hnone]

mutual

/-- **The second round trip changes nothing.** The induction is over the value that is encoded, with
the lists of elements and of members in it. -/
theorem jsonDumps_idem : ∀ {x y : PyVal}, jsonDumps x = some y → jsonDumps y = some y
  | .none, _, h => by
      simp only [jsonDumps, Option.some.injEq] at h
      rw [← h, jsonDumps]
  | .bool _, _, h => by
      simp only [jsonDumps, Option.some.injEq] at h
      rw [← h, jsonDumps]
  | .int _, _, h => by
      simp only [jsonDumps, Option.some.injEq] at h
      rw [← h, jsonDumps]
  | .float _, _, h => by
      simp only [jsonDumps, Option.some.injEq] at h
      rw [← h, jsonDumps]
  | .str _, _, h => by
      simp only [jsonDumps, Option.some.injEq] at h
      rw [← h, jsonDumps]
  | .list xs, _, h => by
      simp only [jsonDumps, Option.map_eq_some_iff] at h
      obtain ⟨ys, hys, rfl⟩ := h
      simp only [jsonDumps, jsonDumpsList_self (jsonDumpsList_idem hys), Option.map_some]
  | .tuple xs, _, h => by
      simp only [jsonDumps, Option.map_eq_some_iff] at h
      obtain ⟨ys, hys, rfl⟩ := h
      simp only [jsonDumps, jsonDumpsList_self (jsonDumpsList_idem hys), Option.map_some]
  | .dict items, _, h => by
      simp only [jsonDumps, Option.map_eq_some_iff] at h
      obtain ⟨column, hcolumn, rfl⟩ := h
      simp only [jsonDumps, (jsonDumpsItems_decoded hcolumn).self, Option.map_some]
  | .other _, _, h => by
      simp only [jsonDumps] at h
      cases h

/-- The same of the elements of an array, each of which stays. -/
theorem jsonDumpsList_idem : ∀ {xs ys : List PyVal}, jsonDumpsList xs = some ys →
    ∀ y ∈ ys, jsonDumps y = some y
  | [], _, h => by
      simp only [jsonDumpsList, Option.some.injEq] at h
      rw [← h]
      exact fun y hy => absurd hy List.not_mem_nil
  | x :: xs, _, h => by
      simp only [jsonDumpsList] at h
      split at h
      · rename_i y ys hy hys
        cases h
        intro z hz
        rcases List.mem_cons.mp hz with rfl | hz
        · exact jsonDumps_idem hy
        · exact jsonDumpsList_idem hys z hz
      · cases h

/-- And what an object is encoded to has names, each once: a later member takes the place of an
earlier one of the same name. -/
theorem jsonDumpsItems_decoded : ∀ {items column : List (PyKey × PyVal)},
    jsonDumpsItems items = some column → Decoded column
  | [], _, h => by
      simp only [jsonDumpsItems, Option.some.injEq] at h
      rw [← h]
      exact ⟨fun i hi => absurd hi List.not_mem_nil, List.nodup_nil,
        fun i hi => absurd hi List.not_mem_nil⟩
  | (k, x) :: items, _, h => by
      simp only [jsonDumpsItems] at h
      split at h
      · rename_i name y rest hname hy hrest
        -- by induction the later entries are decoded
        have hdecoded := jsonDumpsItems_decoded hrest
        split at h
        · -- the later value of the name takes the earlier one's place
          rename_i later hlater
          cases h
          have hmem := List.mem_of_find?_eq_some hlater
          have hfound := List.find?_some hlater
          have hkey : later.1 = .str name := of_decide_eq_true hfound
          refine ⟨fun i hi => ?_, ?_, fun i hi => ?_⟩
          · rcases List.mem_cons.mp hi with rfl | hi
            · exact ⟨name, hkey⟩
            · exact hdecoded.names i (List.mem_of_mem_filter hi)
          · rw [List.map_cons, List.nodup_cons]
            refine ⟨fun hin => ?_, hdecoded.nodup.sublist (List.filter_sublist.map _)⟩
            obtain ⟨i, hi, heq⟩ := List.mem_map.mp hin
            exact of_decide_eq_true (List.mem_filter.mp hi).2 (heq.trans hkey)
          · rcases List.mem_cons.mp hi with rfl | hi
            · exact hdecoded.values i hmem
            · exact hdecoded.values i (List.mem_of_mem_filter hi)
        -- a name that is not there yet stands before the rest
        · rename_i hnone
          cases h
          refine ⟨fun i hi => ?_, ?_, fun i hi => ?_⟩
          · rcases List.mem_cons.mp hi with rfl | hi
            · exact ⟨name, rfl⟩
            · exact hdecoded.names i hi
          · rw [List.map_cons, List.nodup_cons]
            refine ⟨fun hin => ?_, hdecoded.nodup⟩
            obtain ⟨i, hi, heq⟩ := List.mem_map.mp hin
            exact List.find?_eq_none.mp hnone i hi (decide_eq_true heq)
          · rcases List.mem_cons.mp hi with rfl | hi
            · exact jsonDumps_idem hy
            · exact hdecoded.values i hi
      · cases h

end

/-! ## Looking names up

A name is looked up in a dictionary before it is stored and after, where two keys may have become
one text.  With one entry for a name, both find the same.
-/

/-- A dictionary in which no two keys are the same, and only the name itself is `name` in JSON: so
there is no other key whose value could take its place. -/
structure Names (name : String) (items : List (PyKey × PyVal)) : Prop where
  nodup : (items.map Prod.fst).Nodup
  unique : ∀ item ∈ items, jsonKey item.1 = some name → item.1 = .str name

/-- So it is of the rest of such a dictionary. -/
theorem Names.tail {name : String} {item : PyKey × PyVal} {items : List (PyKey × PyVal)}
    (h : Names name (item :: items)) : Names name items where
  nodup := (List.nodup_cons.mp h.nodup).2
  unique := fun i hi => h.unique i (List.mem_cons_of_mem _ hi)

/-- In an object that was decoded every name is only itself. -/
theorem Decoded.named {items : List (PyKey × PyVal)} (h : Decoded items) (name : String) :
    Names name items where
  nodup := h.nodup
  unique := by
    intro item hitem hkey
    obtain ⟨text, htext⟩ := h.names item hitem
    rw [htext] at hkey ⊢
    exact congrArg PyKey.str (Option.some.inj hkey)

/-- A member with another key is passed over. -/
theorem item?_cons_ne {name : String} {key : PyKey} (hne : key ≠ .str name) (x : PyVal)
    (items : List (PyKey × PyVal)) : item? name ((key, x) :: items) = item? name items := by
  unfold item?
  rw [List.find?_cons_of_neg]
  simpa using hne

/-- Dropping another name does not matter. -/
theorem item?_filter_ne {name other : String} (hne : other ≠ name) (items : List (PyKey × PyVal)) :
    item? name (items.filter (fun item => decide (item.1 ≠ .str other))) = item? name items := by
  unfold item?
  rw [List.find?_filter]
  congr 2
  funext item
  by_cases hkey : item.1 = .str name
  · simp [hkey, hne.symm]
  · simp [hkey]

/-- **What is looked up in the decoded object** is what comes of the value that was encoded. -/
theorem item?_jsonDumpsItems {name : String} : ∀ {items column : List (PyKey × PyVal)},
    Names name items → jsonDumpsItems items = some column →
    item? name column = (item? name items).bind jsonDumps
  | [], _, _, h => by
      simp only [jsonDumpsItems, Option.some.injEq] at h
      rw [← h]
      rfl
  | (k, x) :: items, _, hnames, h => by
      simp only [jsonDumpsItems] at h
      split at h
      swap
      · cases h
      rename_i text y rest htext hy hrest
      have ih := item?_jsonDumpsItems hnames.tail hrest
      by_cases hkey : k = .str name
      · -- the name has no later value
        subst hkey
        cases (show some name = some text from htext)
        have hnone : item? name items = Option.none := by
          unfold item?
          rw [Option.map_eq_none_iff]
          refine List.find?_eq_none.mpr (fun item hitem heq => ?_)
          refine (List.nodup_cons.mp hnames.nodup).1 ?_
          exact List.mem_map.mpr ⟨item, hitem, of_decide_eq_true heq⟩
        rw [hnone, Option.bind_none] at ih
        have hlater : rest.find? (fun item => decide (item.1 = PyKey.str name)) = Option.none := by
          unfold item? at ih
          exact Option.map_eq_none_iff.mp ih
        rw [hlater] at h
        cases h
        simp [item?, hy]
      -- another name, whose text differs as well
      · have htexts : text ≠ name := by
          rintro rfl
          exact hkey (hnames.unique (k, x) List.mem_cons_self htext)
        have hother : PyKey.str text ≠ .str name := fun heq => htexts (PyKey.str.inj heq)
        rw [item?_cons_ne hkey, ← ih]
        split at h
        · rename_i later hlater
          cases h
          have hfound := List.find?_some hlater
          have hsame : later.1 = .str text := of_decide_eq_true hfound
          rw [← item?_filter_ne htexts rest]
          exact item?_cons_ne (by rw [hsame]; exact hother) later.2 _
        · cases h
          exact item?_cons_ne hother y rest

end PyVal

end LiandanluNative
