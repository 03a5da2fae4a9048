/-
# LiandanluNative.Safety.ResponseGrammar — which objects `_parse_response` takes for a response.

The response that an object may be is written down as a grammar: an envelope (type, ids, generation,
status, error), and a result and a list of evidence, each of which may be left out.  The parser puts
a default in the place of every false value before it looks at the kind, so `false`, `0` and an
empty text or list are taken for a result that was left out.  On every other object the parser and
the grammar agree (`parseResponse_grammar_iff`).

The argument is about `value or default` alone.  What comes of it is an object if the value was one,
or null, or anything false (`orDefault_object_iff`, and `orDefault_objects_iff` for the evidence). 
So what the parser accepts is the grammar and what is misread, side by side
(`parseResponse_accepts_iff`), and nothing is both (`Misread.not_grammar`).
-/
import LiandanluNative.Safety.LateReplies

namespace LiandanluNative.Bridge

open PyVal (get payload)

/-! ## The grammar

It is written down from what a response is, not from what the parser does.
-/

/-- An object, or absent or null. -/
def ObjectOrNull (v : PyVal) : Prop := v = .none ∨ ∃ fields, v = .dict fields

/-- A list of objects, or absent or null. -/
def ObjectsOrNull (v : PyVal) : Prop :=
  v = .none ∨ ∃ rows : List (List (PyKey × PyVal)), v = .list (rows.map .dict)

/-- A response to the request, as far as the fields go that no default is put for. -/
structure Envelope (generation : Int) (raw : List (PyKey × PyVal))
    (requestId operationId : String) : Prop where
  type : get "type" raw = .str "response"
  requestId : get "request_id" raw = .str requestId
  operationId : get "operation_id" raw = .str operationId
  generation : (get "bridge_generation" raw).equalsInt generation = true
  status : ∃ status : ResponseStatus, get "status" raw = .str status.value
  error : ObjectOrNull (get "error" raw)

/-- A response to the request. -/
structure ResponseGrammar (generation : Int) (raw : List (PyKey × PyVal))
    (requestId operationId : String) : Prop where
  envelope : Envelope generation raw requestId operationId
  result : ObjectOrNull (get "result" raw)
  evidence : ObjectsOrNull (get "evidence" raw)

/-- Result, evidence and error are what was received, and empty where nothing was. -/
structure BridgeResponse.Carries (response : BridgeResponse) (raw : List (PyKey × PyVal)) :
    Prop where
  result : (get "result" raw = .none ∧ response.result = []) ∨
    get "result" raw = .dict response.result
  evidence : (get "evidence" raw = .none ∧ response.evidence = []) ∨
    get "evidence" raw = .list (response.evidence.map .dict)
  error : (get "error" raw = .none ∧ response.error = none) ∨
    ∃ fields, get "error" raw = .dict fields ∧ response.error = some fields

/-- A false value of another kind than the one that is asked for.  It is taken for one that was left
out. -/
def Swallowed (conforms : PyVal → Prop) (v : PyVal) : Prop := v.truthy = false ∧ ¬ conforms v

/-- Nothing but false values of a wrong kind keeps the object from being a response: it has the
envelope, what is not swallowed is right, and something is swallowed. -/
structure Misread (generation : Int) (raw : List (PyKey × PyVal))
    (requestId operationId : String) : Prop where
  envelope : Envelope generation raw requestId operationId
  result : ObjectOrNull (get "result" raw) ∨ Swallowed ObjectOrNull (get "result" raw)
  evidence : ObjectsOrNull (get "evidence" raw) ∨ Swallowed ObjectsOrNull (get "evidence" raw)
  swallowed : Swallowed ObjectOrNull (get "result" raw) ∨
    Swallowed ObjectsOrNull (get "evidence" raw)

/-! ## Defaults -/

/-- The elements are all objects, and these are they. Induction over the list. -/
theorem mapM_asObject? {items : List PyVal} {rows : List (List (PyKey × PyVal))} :
    items.mapM asObject? = some rows ↔ items = rows.map .dict := by
  induction items generalizing rows with
  | nil =>
      rw [List.mapM_nil]
      constructor
      · intro h
        cases h
        rfl
      · intro h
        rw [List.map_eq_nil_iff.mp h.symm]
        rfl
  | cons item items ih =>
      cases item with
      | dict fields =>
          rw [List.mapM_cons]
          show ((items.mapM asObject?).bind fun rest => some (fields :: rest)) = some rows ↔ _
          rw [Option.bind_eq_some_iff]
          constructor
          · rintro ⟨rest, hrest, hrows⟩
            cases hrows
            rw [ih.mp hrest, List.map_cons]
          · intro h
            obtain ⟨first, rest, rfl, hfirst, hrest⟩ := List.map_eq_cons_iff.mp h.symm
            cases hfirst
            exact ⟨rest, ih.mpr hrest.symm, rfl⟩
      | _ =>
          -- an element of another kind is in no list of objects
          rw [List.mapM_cons]
          constructor
          · intro h
            cases h
          · intro h
            obtain ⟨first, rest, -, hfirst, -⟩ := List.map_eq_cons_iff.mp h.symm
            cases hfirst

/-- What comes of a default is the value itself, or the value is false. -/
theorem orDefault_eq_iff {v default w : PyVal} (honly : w.truthy = false → w = default) :
    v.orDefault default = w ↔ v = w ∨ (v.truthy = false ∧ w = default) := by
  unfold PyVal.orDefault
  cases htruthy : v.truthy with
  | true => simp
  | false =>
      simp only [Bool.false_eq_true, if_false, true_and]
      constructor
      · exact fun h => Or.inr h.symm
      · rintro (rfl | h)
        · exact (honly htruthy).symm
        · exact h.symm

/-- For a result, whose default is the empty object. -/
theorem orDefault_eq_dict {v : PyVal} {fields : List (PyKey × PyVal)} :
    v.orDefault (.dict []) = .dict fields ↔ v = .dict fields ∨ (v.truthy = false ∧ fields = []) := by
  rw [orDefault_eq_iff (by simp [PyVal.truthy]), PyVal.dict.injEq]

/-- For the evidence, whose default is the empty list. -/
theorem orDefault_eq_list {v : PyVal} {items : List PyVal} :
    v.orDefault (.list []) = .list items ↔ v = .list items ∨ (v.truthy = false ∧ items = []) := by
  rw [orDefault_eq_iff (by simp [PyVal.truthy]), PyVal.list.injEq]

/-- What passes for a result is an object or null, or a false value. -/
theorem orDefault_object_iff {v : PyVal} :
    (∃ fields, v.orDefault (.dict []) = .dict fields) ↔
      ObjectOrNull v ∨ Swallowed ObjectOrNull v := by
  constructor
  · rintro ⟨fields, h⟩
    rcases orDefault_eq_dict.mp h with hsame | ⟨hfalse, -⟩
    · exact Or.inl (Or.inr ⟨fields, hsame⟩)
    · by_cases hconforms : ObjectOrNull v
      · exact Or.inl hconforms
      · exact Or.inr ⟨hfalse, hconforms⟩
  · rintro ((rfl | ⟨fields, rfl⟩) | ⟨hfalse, -⟩)
    · exact ⟨[], rfl⟩
    · exact ⟨fields, orDefault_eq_dict.mpr (Or.inl rfl)⟩
    · exact ⟨[], orDefault_eq_dict.mpr (Or.inr ⟨hfalse, rfl⟩)⟩

/-- What passes for the evidence is a list of objects or null, or a false value. -/
theorem orDefault_objects_iff {v : PyVal} :
    (∃ rows : List (List (PyKey × PyVal)), v.orDefault (.list []) = .list (rows.map .dict)) ↔
      ObjectsOrNull v ∨ Swallowed ObjectsOrNull v := by
  constructor
  · rintro ⟨rows, h⟩
    rcases orDefault_eq_list.mp h with hsame | ⟨hfalse, -⟩
    · exact Or.inl (Or.inr ⟨rows, hsame⟩)
    · by_cases hconforms : ObjectsOrNull v
      · exact Or.inl hconforms
      · exact Or.inr ⟨hfalse, hconforms⟩
  · rintro ((rfl | ⟨rows, rfl⟩) | ⟨hfalse, -⟩)
    · exact ⟨[], rfl⟩
    · exact ⟨rows, orDefault_eq_list.mpr (Or.inl rfl)⟩
    · exact ⟨[], orDefault_eq_list.mpr (Or.inr ⟨hfalse, rfl⟩)⟩

/-! ## The parser -/

section

variable {printing : Printing} {generation : Int} {raw : List (PyKey × PyVal)}
  {requestId operationId : String}

/-- An accepted object has the envelope, and the response what the defaults leave of the rest.  The
envelope comes from `parseResponse_ok`, so only the checks of the body are gone through. -/
theorem parseResponse_envelope {response : BridgeResponse}
    (h : parseResponse printing generation raw requestId operationId = .ok response) :
    Envelope generation raw requestId operationId ∧
      (get "result" raw).orDefault (.dict []) = .dict response.result ∧
      (get "evidence" raw).orDefault (.list []) = .list (response.evidence.map .dict) ∧
      ((get "error" raw = .none ∧ response.error = none) ∨
        ∃ fields, get "error" raw = .dict fields ∧ response.error = some fields) := by
  obtain ⟨htype, hrequest, hoperation, hgeneration, hstatus', -, -, -⟩ := parseResponse_ok h
  obtain ⟨status, hstatus⟩ : ∃ status : ResponseStatus, get "status" raw = .str status.value :=
    ⟨_, hstatus'⟩
  have hbody : ∃ result items evidence, (get "result" raw).orDefault (.dict []) = .dict result ∧
      (get "evidence" raw).orDefault (.list []) = .list items ∧
      items.mapM asObject? = some evidence ∧ response.result = result ∧
      response.evidence = evidence ∧ ((get "error" raw = .none ∧ response.error = none) ∨
        ∃ fields, get "error" raw = .dict fields ∧ response.error = some fields) := by
    unfold parseResponse at h
    simp only [PyVal.isStr_iff.mpr htype, PyVal.isStr_iff.mpr hrequest,
      PyVal.isStr_iff.mpr hoperation, hgeneration, hstatus, memberOf_status, Bool.not_true,
      Bool.false_eq_true, if_false, bind, Except.bind] at h
    -- the checks of the body, one after the other
    split at h
    · rename_i result hresult
      split at h
      · rename_i items hitems
        split at h
        · rename_i evidence hevidence
          refine ⟨result, items, evidence, hresult, hitems, hevidence, ?_⟩
          split at h
          · rename_i hnull
            cases h
            exact ⟨rfl, rfl, Or.inl ⟨hnull, rfl⟩⟩
          · rename_i fields herror
            cases h
            exact ⟨rfl, rfl, Or.inr ⟨fields, herror, rfl⟩⟩
          · cases h
        · cases h
      · cases h
    · cases h
  obtain ⟨result, items, evidence, hresult, hitems, hevidence, rfl, rfl, herror⟩ := hbody
  refine ⟨⟨htype, hrequest, hoperation, hgeneration, ⟨status, hstatus⟩, ?_⟩, hresult, ?_, herror⟩
  · rcases herror with ⟨hnull, -⟩ | ⟨fields, hfields, -⟩
    · exact Or.inl hnull
    · exact Or.inr ⟨fields, hfields⟩
  · rw [hitems, mapM_asObject?.mp hevidence]

/-- The envelope, and something that passes for a result and for the evidence, is accepted. -/
theorem Envelope.parseResponse_ok (henvelope : Envelope generation raw requestId operationId)
    {result : List (PyKey × PyVal)} {evidence : List (List (PyKey × PyVal))}
    (hresult : (get "result" raw).orDefault (.dict []) = .dict result)
    (hevidence : (get "evidence" raw).orDefault (.list []) = .list (evidence.map .dict)) :
    ∃ response, parseResponse printing generation raw requestId operationId = .ok response := by
  obtain ⟨htype, hrequest, hoperation, hgeneration, ⟨status, hstatus⟩, herror⟩ := henvelope
  unfold parseResponse
  simp only [PyVal.isStr_iff.mpr htype, PyVal.isStr_iff.mpr hrequest,
    PyVal.isStr_iff.mpr hoperation, hgeneration, hstatus, memberOf_status, Bool.not_true,
    Bool.false_eq_true, if_false, bind, Except.bind, hresult, hevidence,
    mapM_asObject?.mpr (Eq.refl (evidence.map PyVal.dict))]
  rcases herror with hnull | ⟨fields, hfields⟩
  · rw [hnull]
    exact ⟨_, rfl⟩
  · rw [hfields]
    exact ⟨_, rfl⟩

/-- An object is accepted if it is a response, or is misread as one. -/
theorem parseResponse_accepts_iff :
    (∃ response, parseResponse printing generation raw requestId operationId = .ok response) ↔
      ResponseGrammar generation raw requestId operationId ∨
        Misread generation raw requestId operationId := by
  constructor
  · rintro ⟨response, h⟩
    obtain ⟨henvelope, hresult, hevidence, -⟩ := parseResponse_envelope h
    rcases orDefault_object_iff.mp ⟨_, hresult⟩ with hr | hr
    · rcases orDefault_objects_iff.mp ⟨_, hevidence⟩ with he | he
      · exact Or.inl ⟨henvelope, hr, he⟩
      · exact Or.inr ⟨henvelope, Or.inl hr, Or.inr he, Or.inr he⟩
    · exact Or.inr ⟨henvelope, Or.inr hr, orDefault_objects_iff.mp ⟨_, hevidence⟩, Or.inl hr⟩
  · rintro (⟨henvelope, hr, he⟩ | ⟨henvelope, hr, he, -⟩)
    · obtain ⟨result, hresult⟩ := orDefault_object_iff.mpr (Or.inl hr)
      obtain ⟨evidence, hevidence⟩ := orDefault_objects_iff.mpr (Or.inl he)
      exact henvelope.parseResponse_ok hresult hevidence
    · obtain ⟨result, hresult⟩ := orDefault_object_iff.mpr hr
      obtain ⟨evidence, hevidence⟩ := orDefault_objects_iff.mpr he
      exact henvelope.parseResponse_ok hresult hevidence

/-- What is swallowed is of a kind that the grammar has not. -/
theorem Misread.not_grammar (h : Misread generation raw requestId operationId) :
    ¬ ResponseGrammar generation raw requestId operationId := by
  intro hgrammar
  rcases h.swallowed with hr | he
  · exact hr.2 hgrammar.result
  · exact he.2 hgrammar.evidence

/-- A response carries what was received: where the grammar holds, a default stands only for what
was left out, or for what is empty itself. -/
theorem ResponseGrammar.carries {response : BridgeResponse}
    (hgrammar : ResponseGrammar generation raw requestId operationId)
    (h : parseResponse printing generation raw requestId operationId = .ok response) :
    response.Carries raw := by
  obtain ⟨-, hresult, hevidence, herror⟩ := parseResponse_envelope h
  refine ⟨?_, ?_, herror⟩
  · rcases hgrammar.result with hnull | ⟨fields, hfields⟩
    · rw [hnull] at hresult
      have hempty : response.result = [] := by
        simpa [PyVal.orDefault, PyVal.truthy] using hresult.symm
      exact Or.inl ⟨hnull, hempty⟩
    · refine Or.inr ?_
      rcases orDefault_eq_dict.mp hresult with hsame | ⟨hfalse, hempty⟩
      · exact hsame
      · rw [hfields] at hfalse ⊢
        have hnone : fields = [] := by simpa [PyVal.truthy] using hfalse
        rw [hnone, hempty]
  · rcases hgrammar.evidence with hnull | ⟨rows, hrows⟩
    · rw [hnull] at hevidence
      have hempty : response.evidence = [] := by
        simpa [PyVal.orDefault, PyVal.truthy] using hevidence.symm
      exact Or.inl ⟨hnull, hempty⟩
    · refine Or.inr ?_
      rcases orDefault_eq_list.mp hevidence with hsame | ⟨hfalse, hempty⟩
      · exact hsame
      · rw [hrows] at hfalse ⊢
        have hnone : rows = [] := by simpa [PyVal.truthy] using hfalse
        rw [hnone, hempty, List.map_nil]

end

/-- **The parser accepts what the grammar says, and as it was received, exactly if the object is not
misread.** -/
theorem parseResponse_grammar_iff (printing : Printing) (generation : Int)
    (raw : List (PyKey × PyVal)) (requestId operationId : String) :
    (((∃ response, parseResponse printing generation raw requestId operationId = .ok response) ↔
        ResponseGrammar generation raw requestId operationId) ∧
      ∀ response, parseResponse printing generation raw requestId operationId = .ok response →
        response.Carries raw) ↔
    ¬ Misread generation raw requestId operationId := by
  constructor
  · rintro ⟨haccepts, -⟩ hmisread
    exact hmisread.not_grammar (haccepts.mp (parseResponse_accepts_iff.mpr (Or.inr hmisread)))
  · intro hread
    have haccepts : (∃ response,
        parseResponse printing generation raw requestId operationId = .ok response) ↔
          ResponseGrammar generation raw requestId operationId :=
      parseResponse_accepts_iff.trans (or_iff_left hread)
    exact ⟨haccepts, fun response h => (haccepts.mp ⟨response, h⟩).carries h⟩

/-- A response whose result is `false`. -/
def Small.falseResult : List (PyKey × PyVal) :=
  payload [("type", .str "response"), ("request_id", .str "req_1"), ("operation_id", .str "op_1"),
    ("bridge_generation", .int 1), ("status", .str "succeeded"), ("result", .bool false)]

/-- It is accepted, though it is no response: `false` is neither an object nor null. -/
theorem parseResponse_grammar_fails :
    ¬ ((∃ response, parseResponse ⟨fun _ => "", fun _ => ""⟩ 1 Small.falseResult "req_1" "op_1"
          = .ok response) ↔
        ResponseGrammar 1 Small.falseResult "req_1" "op_1") := by
  intro haccepts
  obtain ⟨-, hresult, -⟩ := haccepts.mp ⟨_, rfl⟩
  rcases hresult with hnull | ⟨fields, hfields⟩
  · cases hnull
  · cases hfields

end LiandanluNative.Bridge
