import StepScript.Proofs.Step.Reading

/-!
# Grammar — the objects that are steps

An object is a step if all of its keys are known, it has a type, and under each of the other keys
there is nothing, null, or what the key is for.  A lazy value inside is none of what a key is for.
Reading accepts these objects and no others, in any order of their keys, and a step can be read back
from every object that it is written as.

* `Step.IsForm` is the grammar, said without the reader;
* `Step.Writes` relates a step to the objects that it is written as, `Step.toFields` is one of them;
* `Step.ofValue_grammar` is the main result.
-/

namespace StepScript

namespace Step

variable {fields fields' : Variables} {step : Step}

/-! ## The grammar -/

/-- The keys of the flags. -/
def flagKeys : List String :=
  ["disabled", "runOnFailure", "ignoreError"]

/-- An object that is a step. -/
structure IsForm (fields : Variables) : Prop where
  known : ∀ key ∈ fields.names, key ∈ keys
  type : ∃ type, fields.find? "type" = some (.string type) ∧ type ≠ ""
  values : fields.find? "values" = none ∨ fields.find? "values" = some .null ∨
    ∃ properties, fields.find? "values" = some (.object properties)
  flags : ∀ key ∈ flagKeys, fields.find? key = none ∨ fields.find? key = some .null ∨
    ∃ b, fields.find? key = some (.bool b)
  condition : fields.find? "condition" = none ∨ fields.find? "condition" = some .null ∨
    (∃ code, fields.find? "condition" = some (.string code)) ∨
    ∃ b, fields.find? "condition" = some (.bool b)

/-- The type is a text that is not empty, and there is no default for it. -/
theorem typeOf_eq_ok_iff {type : String} :
    typeOf fields = .ok type ↔ fields.find? "type" = some (.string type) ∧ type ≠ "" := by
  unfold typeOf
  rcases fields.find? "type" with _ | v
  · simp
  · cases v with
    | string t =>
      by_cases hempty : t = ""
      · simp [hempty]
      · simp only [String.isEmpty_iff, hempty, if_false, Except.ok.injEq, Option.some.injEq,
          Value.string.injEq]
        constructor
        · rintro rfl
          exact ⟨rfl, hempty⟩
        · exact And.left
    | _ => simp

/-- The properties are an object, null or missing. -/
theorem exists_valuesOf_iff (type : String) :
    (∃ v, valuesOf type fields = .ok v) ↔
      fields.find? "values" = none ∨ fields.find? "values" = some .null ∨
        ∃ properties, fields.find? "values" = some (.object properties) := by
  unfold valuesOf
  rcases fields.find? "values" with _ | v
  · simp
  · cases v <;> simp

/-- A flag is a boolean, null or missing. -/
theorem exists_flagOf_iff (key : String) :
    (∃ b, flagOf key fields = .ok b) ↔
      fields.find? key = none ∨ fields.find? key = some .null ∨
        ∃ b, fields.find? key = some (.bool b) := by
  unfold flagOf
  rcases fields.find? key with _ | v
  · simp
  · cases v <;> simp

/-- A condition is a text, a boolean, null or missing. -/
theorem exists_conditionOf_iff (type : String) :
    (∃ code, conditionOf type fields = .ok code) ↔
      fields.find? "condition" = none ∨ fields.find? "condition" = some .null ∨
        (∃ code, fields.find? "condition" = some (.string code)) ∨
        ∃ b, fields.find? "condition" = some (.bool b) := by
  unfold conditionOf
  rcases fields.find? "condition" with _ | v
  · simp
  · cases v <;> simp

/-- Each part of a step is read from what is under its own key, so there is a step if each part can
be read. -/
theorem exists_ofFields_iff : (∃ step, ofFields fields = .ok step) ↔ IsForm fields := by
  constructor
  · rintro ⟨step, h⟩
    have hreads : Reads fields step := ofFields_eq_ok_iff.1 h
    refine
      { known := hreads.known
        type := ⟨_, typeOf_eq_ok_iff.1 hreads.type⟩
        values := (exists_valuesOf_iff _).1 ⟨_, hreads.values⟩
        flags := fun key hkey => (exists_flagOf_iff key).1 ?_
        condition := (exists_conditionOf_iff _).1 ⟨_, hreads.condition⟩ }
    simp only [flagKeys, List.mem_cons, List.not_mem_nil, or_false] at hkey
    rcases hkey with rfl | rfl | rfl
    · exact ⟨_, hreads.disabled⟩
    · exact ⟨_, hreads.runOnFailure⟩
    · exact ⟨_, hreads.ignoreError⟩
  · intro h
    have hflag (key : String) (hkey : key ∈ flagKeys) : ∃ b, flagOf key fields = .ok b :=
      (exists_flagOf_iff key).2 (h.flags key hkey)
    obtain ⟨type, htype⟩ := h.type
    obtain ⟨values, hvalues⟩ := (exists_valuesOf_iff type).2 h.values
    obtain ⟨condition, hcondition⟩ := (exists_conditionOf_iff type).2 h.condition
    obtain ⟨disabled, hdisabled⟩ := hflag "disabled" (by decide)
    obtain ⟨runOnFailure, hrunOnFailure⟩ := hflag "runOnFailure" (by decide)
    obtain ⟨ignoreError, hignoreError⟩ := hflag "ignoreError" (by decide)
    exact ⟨⟨type, _, values, disabled, runOnFailure, ignoreError, condition⟩,
      ofFields_eq_ok_iff.2 ⟨h.known, typeOf_eq_ok_iff.2 htype, rfl, hvalues, hdisabled,
        hrunOnFailure, hignoreError, hcondition⟩⟩

/-- A step is read from an object of the described form, which may be lazy, and from nothing
else. -/
theorem exists_ofValue_iff (v : Value) :
    (∃ step, ofValue v = .ok step) ↔ ∃ fields, v.resolved = .object fields ∧ IsForm fields := by
  constructor
  · rintro ⟨step, h⟩
    unfold ofValue at h
    split at h
    · rename_i fields hv
      exact ⟨fields, hv, exists_ofFields_iff.1 ⟨step, h⟩⟩
    · cases h
  · rintro ⟨fields, hv, hform⟩
    rw [ofValue, hv]
    exact exists_ofFields_iff.2 hform

/-! ## The order of the keys -/

/-- The first key of an object that is none of those of a step. -/
def unknown? (fields : Variables) : Option String :=
  fields.names.find? fun k => !keys.contains k

/-- A key that is unknown is refused before anything else is looked at, and named. -/
theorem ofFields_of_unknown? {key : String} (h : unknown? fields = some key) :
    ofFields fields = .error (.unexpectedKey key) := by
  unfold unknown? at h
  unfold ofFields
  rw [h]
  rfl

/-- In another order an object is read in the same way, or it has unknown keys and is refused for the
first one of them. -/
theorem ofFields_perm (hnodup : fields.names.Nodup) (hperm : fields.Perm fields') :
    ofFields fields = ofFields fields' ∨
      ∃ key key', unknown? fields = some key ∧ unknown? fields' = some key' ∧
        ofFields fields = .error (.unexpectedKey key) ∧
        ofFields fields' = .error (.unexpectedKey key') := by
  have hnames (key : String) : key ∈ fields'.names ↔ key ∈ fields.names :=
    (hperm.map Prod.fst).mem_iff.symm
  have hfind (key : String) : fields.find? key = fields'.find? key :=
    Table.find?_perm hperm hnodup key
  cases hunknown : unknown? fields with
  | none =>
    have hknown : ∀ key ∈ fields.names, key ∈ keys := find?_unknown_eq_none_iff.1 hunknown
    have hknown' : ∀ key ∈ fields'.names, key ∈ keys := fun key hkey =>
      hknown key ((hnames key).1 hkey)
    refine .inl (ofFields_congr hknown hknown' (fun key _ _ => hfind key) fun type => ?_)
    simp only [valuesOf, hfind]
  | some key =>
    -- the key is somewhere in the other order too, so that one is refused as well
    cases hunknown' : unknown? fields' with
    | none =>
      have hmem : key ∈ fields.names := List.mem_of_find?_eq_some hunknown
      have hkey : key ∉ keys := by simpa using List.find?_some hunknown
      exact absurd (find?_unknown_eq_none_iff.1 hunknown' key ((hnames key).2 hmem)) hkey
    | some key' =>
      exact .inr ⟨key, key', rfl, rfl, ofFields_of_unknown? hunknown, ofFields_of_unknown? hunknown'⟩

/-! ## Steps that are written -/

def flags (step : Step) : List (String × Bool) :=
  [("disabled", step.disabled), ("runOnFailure", step.runOnFailure),
    ("ignoreError", step.ignoreError)]

/-- An object has the parts of a step under their keys.  A flag that is not set may be left out. -/
structure Writes (step : Step) (fields : Variables) : Prop where
  known : ∀ key ∈ fields.names, key ∈ keys
  type : fields.find? "type" = some (.string step.type)
  name : fields.find? "name" = step.name.map .string
  values : fields.find? "values" = some step.values
  flags : ∀ flag ∈ step.flags, fields.find? flag.1 = some (.bool flag.2) ∨
    flag.2 = false ∧ fields.find? flag.1 = none
  condition : fields.find? "condition" = step.condition.map .string

/-- The object with all parts of a step. -/
def toFields (step : Step) : Variables :=
  ("type", .string step.type) :: (step.name.map fun name => ("name", Value.string name)).toList ++
    ("values", step.values) :: step.flags.map (fun flag => (flag.1, Value.bool flag.2)) ++
    (step.condition.map fun code => ("condition", Value.string code)).toList

/-- A step is written with known keys only. -/
theorem names_toFields_subset (step : Step) : ∀ key ∈ Table.names step.toFields, key ∈ keys := by
  have hall : ∀ named conditional : Bool,
      ∀ key ∈ "type" :: (if named then ["name"] else []) ++ "values" :: flagKeys ++
        (if conditional then ["condition"] else []), key ∈ keys := by decide
  obtain ⟨type, name, values, disabled, runOnFailure, ignoreError, condition⟩ := step
  cases name <;> cases condition
  · exact hall false false
  · exact hall false true
  · exact hall true false
  · exact hall true true

/-- The fields of a step are one way to write it. -/
theorem writes_toFields (step : Step) : Writes step step.toFields := by
  obtain ⟨type, name, values, disabled, runOnFailure, ignoreError, condition⟩ := step
  have hflags {fields : Variables} (hdisabled : fields.find? "disabled" = some (.bool disabled))
      (hrunOnFailure : fields.find? "runOnFailure" = some (.bool runOnFailure))
      (hignoreError : fields.find? "ignoreError" = some (.bool ignoreError)) :
      ∀ flag ∈ [("disabled", disabled), ("runOnFailure", runOnFailure), ("ignoreError", ignoreError)],
        fields.find? flag.1 = some (.bool flag.2) ∨ flag.2 = false ∧ fields.find? flag.1 = none := by
    intro flag hflag
    simp only [List.mem_cons, List.not_mem_nil, or_false] at hflag
    rcases hflag with rfl | rfl | rfl
    · exact .inl hdisabled
    · exact .inl hrunOnFailure
    · exact .inl hignoreError
  -- which keys there are depends on the two parts that a step need not have
  cases name <;> cases condition <;>
    exact ⟨names_toFields_subset _, rfl, rfl, rfl, hflags rfl rfl rfl, rfl⟩

/-- A flag is read back as it has been written, or left out. -/
theorem Writes.flagOf {key : String} {b : Bool} (h : Writes step fields)
    (hflag : (key, b) ∈ step.flags) : flagOf key fields = .ok b := by
  unfold Step.flagOf
  rcases h.flags (key, b) hflag with hset | ⟨hunset, hnone⟩
  · rw [hset]
  · rw [hnone, show b = false from hunset]

/-- A step is read back from every object that it is written as. -/
theorem Writes.ofFields {properties : Variables} (h : Writes step fields) (htype : step.type ≠ "")
    (hvalues : step.values = .object properties) : ofFields fields = .ok step := by
  refine ofFields_eq_ok_iff.2
    { known := h.known
      type := typeOf_eq_ok_iff.2 ⟨h.type, htype⟩
      name := ?_
      values := ?_
      disabled := h.flagOf (by simp [Step.flags])
      runOnFailure := h.flagOf (by simp [Step.flags])
      ignoreError := h.flagOf (by simp [Step.flags])
      condition := ?_ }
  · rw [h.name]
    cases step.name <;> rfl
  · rw [valuesOf, h.values, hvalues]
  · rw [conditionOf, h.condition]
    cases step.condition <;> rfl

/-- A value is read as a step if and only if what it yields is an object that is one.  The order of
the keys makes no difference to the step, nor to the reason for which there is none, except that of
several unknown keys the first one is named.  A step with a type and properties is read back from what
it is written as. -/
theorem ofValue_grammar :
    (∀ v, (∃ step, ofValue v = .ok step) ↔ ∃ fields, v.resolved = .object fields ∧ IsForm fields) ∧
    (∀ v w (fields fields' : Variables), v.resolved = .object fields →
      w.resolved = .object fields' → fields.names.Nodup → fields.Perm fields' →
      ofValue v = ofValue w ∨
        ∃ key key', unknown? fields = some key ∧ unknown? fields' = some key' ∧
          ofValue v = .error (.unexpectedKey key) ∧ ofValue w = .error (.unexpectedKey key')) ∧
    (∀ step properties, step.type ≠ "" → step.values = .object properties →
      Writes step step.toFields ∧
        ∀ fields, Writes step fields → ofValue (.object fields) = .ok step) := by
  refine ⟨exists_ofValue_iff, ?_, ?_⟩
  · intro v w fields fields' hv hw hnodup hperm
    have hv' : ofValue v = ofFields fields := by rw [ofValue, hv]
    have hw' : ofValue w = ofFields fields' := by rw [ofValue, hw]
    rw [hv', hw']
    exact ofFields_perm hnodup hperm
  · intro step properties htype hvalues
    exact ⟨writes_toFields step, fun fields hwrites => hwrites.ofFields htype hvalues⟩

/-- A step with a name, a condition and one flag that is set. -/
def remembering : Step where
  type := "set-variable"
  name := some "remember"
  values := .object [("variable", .string "x")]
  disabled := false
  runOnFailure := false
  ignoreError := true
  condition := some "x > 1"

/-- The step with its keys in another order and without one of the flags. -/
def rememberingFields : Variables :=
  [("condition", .string "x > 1"), ("ignoreError", .bool true), ("name", .string "remember"),
    ("values", .object [("variable", .string "x")]), ("disabled", .bool false),
    ("type", .string "set-variable")]

/-- The step may also be written in this other way. -/
theorem remembering_writes : Writes remembering rememberingFields where
  known := by decide
  type := rfl
  name := rfl
  values := rfl
  flags := by
    intro flag hflag
    simp only [flags, remembering, List.mem_cons, List.not_mem_nil, or_false] at hflag
    rcases hflag with rfl | rfl | rfl
    · exact .inl rfl
    · exact .inr ⟨rfl, rfl⟩
    · exact .inl rfl
  condition := rfl

/-- The step is read from what a lazy value yields and in the reverse order of its keys; with a lazy type
it would be none. -/
theorem remembering_read :
    ofValue (.object rememberingFields) = .ok remembering ∧
      ofValue (.lazy (.object rememberingFields.reverse)) = .ok remembering ∧
      ofValue (.object remembering.toFields) = .ok remembering ∧
      ¬ ∃ step, ofValue (.object [("type", .lazy (.string "log"))]) = .ok step := by
  obtain ⟨haccepts, horder, hwrites⟩ := ofValue_grammar
  obtain ⟨htoFields, hreads⟩ := hwrites remembering [("variable", .string "x")] (by decide) rfl
  have hread := hreads rememberingFields remembering_writes
  have hreverse := horder (.object rememberingFields) (.lazy (.object rememberingFields.reverse)) _ _
    rfl rfl (by decide) (List.reverse_perm rememberingFields).symm
  refine ⟨hread, ?_, hreads _ htoFields, ?_⟩
  · rcases hreverse with hsame | ⟨key, key', -, -, hrefused, -⟩
    · rw [← hsame, hread]
    · rw [hread] at hrefused
      cases hrefused
  · rw [haccepts]
    rintro ⟨fields, hfields, hform⟩
    cases hfields
    obtain ⟨type, htype, -⟩ := hform.type
    cases htype

def strayFields : Variables :=
  [("type", .string "log"), ("timeout", .bool true), ("retry", .bool true)]

/-- In the reverse order of its keys, an object is refused for another one of them. -/
theorem strayFields_reverse :
    strayFields.reverse.Perm strayFields ∧
      ofValue (.object strayFields) = .error (.unexpectedKey "timeout") ∧
      ofValue (.object strayFields.reverse) = .error (.unexpectedKey "retry") ∧
      ofValue (.object strayFields.reverse) ≠ ofValue (.object strayFields) := by
  refine ⟨List.reverse_perm strayFields, rfl, rfl, ?_⟩
  intro hsame
  have hkeys : StepError.unexpectedKey "retry" = .unexpectedKey "timeout" := Except.error.inj hsame
  exact absurd hkeys (by decide)

end Step

end StepScript
