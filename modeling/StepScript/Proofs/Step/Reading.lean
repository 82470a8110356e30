import StepScript.Proofs.Scope.Layers
import StepScript.Proofs.Step.Shorthand

/-!
# Reading — what becomes of the fields of a step

A step is read from an object whose keys are known, each part of the step from what is under its own
key.  Only the type has to be there.  Null under the key of the properties, of the condition or of a
flag counts as nothing; null under the key of the name is a name like any other one.

* `Step.Reads` relates the fields to the step that is read from them;
* `Step.ofFields_null`: what a key without a value changes;
* `Step.ofValue_null_iff` is the main result.
-/

namespace StepScript

namespace Step

/-! ## A step that is read -/

/-- A step has in each of its parts what is written under the key. -/
structure Reads (fields : Variables) (step : Step) : Prop where
  known : ∀ key ∈ fields.names, key ∈ keys
  type : typeOf fields = .ok step.type
  name : (fields.find? "name").map Value.text = step.name
  values : valuesOf step.type fields = .ok step.values
  disabled : flagOf "disabled" fields = .ok step.disabled
  runOnFailure : flagOf "runOnFailure" fields = .ok step.runOnFailure
  ignoreError : flagOf "ignoreError" fields = .ok step.ignoreError
  condition : conditionOf step.type fields = .ok step.condition

/-- No key is found to be unknown exactly if all are known. -/
theorem find?_unknown_eq_none_iff {fields : Variables} :
    (fields.names.find? fun k => !keys.contains k) = none ↔ ∀ key ∈ fields.names, key ∈ keys := by
  simp [List.find?_eq_none]

/-- The fields are read as a step exactly if all parts of the step are read from them. -/
theorem ofFields_eq_ok_iff {fields : Variables} {step : Step} :
    ofFields fields = .ok step ↔ Reads fields step := by
  constructor
  · intro h
    unfold ofFields at h
    split at h
    · cases h
    · rename_i hknown
      rcases ok_of_bind h with ⟨type, htype, h⟩
      rcases ok_of_bind h with ⟨values, hvalues, h⟩
      rcases ok_of_bind h with ⟨condition, hcondition, h⟩
      rcases ok_of_bind h with ⟨disabled, hdisabled, h⟩
      rcases ok_of_bind h with ⟨runOnFailure, hrunOnFailure, h⟩
      rcases ok_of_bind h with ⟨ignoreError, hignoreError, h⟩
      cases h
      exact ⟨find?_unknown_eq_none_iff.1 hknown, htype, rfl, hvalues, hdisabled, hrunOnFailure,
        hignoreError, hcondition⟩
  · intro h
    simp only [ofFields, find?_unknown_eq_none_iff.2 h.known, h.type, h.name, h.values, h.disabled,
      h.runOnFailure, h.ignoreError, h.condition, bind, Except.bind, pure, Except.pure]

theorem Reads.type_eq {fields : Variables} {step : Step} {type : String} (h : Reads fields step)
    (htype : fields.find? "type" = some (.string type)) : step.type = type := by
  have hread := h.type
  simp only [typeOf, htype] at hread
  split at hread
  · cases hread
  · exact (Except.ok.inj hread).symm

theorem Reads.values_eq {fields properties : Variables} {step : Step} (h : Reads fields step)
    (hvalues : fields.find? "values" = some (.object properties)) :
    step.values = .object properties := by
  have hread := h.values
  simp only [valuesOf, hvalues] at hread
  exact (Except.ok.inj hread).symm

/-! ## Steps that are written out -/

section Expanded

variable {registry : Registry} {raw expanded : Value} {step : Step}

/-- The placeholder is disabled if the flag can be read, whatever else is wrong with the step. -/
theorem placeholder_disabled_of_flagOf {fields : Variables} {flag : Bool}
    (hraw : raw.resolved = .object fields) (h : flagOf "disabled" fields = .ok flag) :
    (placeholder raw).disabled = flag := by
  unfold flagOf at h
  simp only [placeholder, hraw]
  cases hfind : fields.find? "disabled" with
  | none =>
    rw [hfind] at h
    exact Except.ok.inj h
  | some v =>
    rw [hfind] at h
    cases v with
    | null => exact Except.ok.inj h
    | bool b => exact Except.ok.inj h
    | _ => cases h

/-- A step that can be read is disabled exactly if it is described so. -/
theorem placeholder_disabled (hexpand : Shorthand.expand registry raw = .ok expanded)
    (hread : ofValue expanded = .ok step) : (placeholder raw).disabled = step.disabled := by
  cases hraw : raw.resolved with
  | object fields =>
    obtain ⟨fields', rfl, hkeys⟩ := Shorthand.expand_metaKey hraw hexpand
    refine placeholder_disabled_of_flagOf hraw ?_
    rw [← (ofFields_eq_ok_iff.1 hread).disabled]
    simp only [flagOf, hkeys "disabled" (by decide)]
  | string type =>
    simp only [Shorthand.expand, hraw] at hexpand
    cases hexpand
    have hreads := ofFields_eq_ok_iff.1 (show ofFields [("type", .string type)] = .ok step from hread)
    have hflag : false = step.disabled := Except.ok.inj hreads.disabled
    simp [placeholder, hraw, ofType, hflag]
  | lazy v => exact absurd hraw (Value.resolved_ne_lazy raw v)
  | _ =>
    -- what is neither a type nor an object stays, and is refused
    simp only [Shorthand.expand, hraw] at hexpand
    cases hexpand
    cases hread

/-- An object with a key that steps do not have can only be read as the short form of this key. -/
theorem type_eq_of_not_mem_keys {fields : Variables} {key : String} (hmem : key ∈ fields.names)
    (hkey : key ∉ keys) (hraw : raw.resolved = .object fields)
    (hexpand : Shorthand.expand registry raw = .ok expanded)
    (hread : ofValue expanded = .ok step) : step.type = key := by
  obtain ⟨fields', rfl, hexpands⟩ := Shorthand.expand_expands hraw hexpand
  have hreads := ofFields_eq_ok_iff.1 (show ofFields fields' = .ok step from hread)
  cases hexpands with
  | stays _ => exact absurd (hreads.known key hmem) hkey
  | @written type values htype =>
    obtain rfl := Shorthand.eq_of_typeOf htype hmem fun hmeta => hkey (metaKeys_subset_keys hmeta)
    exact hreads.type_eq (by simp [Table.find?_insert])

end Expanded

/-! ## Keys without a value -/

/-- The keys of a step that need not be there. -/
def optionalKeys : List String :=
  ["name", "values", "disabled", "runOnFailure", "ignoreError", "condition"]

/-- There is the same under a key of two objects, or null in the first one and nothing in the other. -/
def NullBlind (fields fields' : Variables) (key : String) : Prop :=
  fields.find? key = fields'.find? key ∨
    fields.find? key = some .null ∧ fields'.find? key = none

/-- The properties do not tell null from nothing. -/
theorem valuesOf_nullBlind {fields fields' : Variables} (h : NullBlind fields fields' "values")
    (type : String) : valuesOf type fields = valuesOf type fields' := by
  rcases h with h | ⟨hnull, hnone⟩
  · simp only [valuesOf, h]
  · simp only [valuesOf, hnull, hnone]

theorem conditionOf_nullBlind {fields fields' : Variables} (h : NullBlind fields fields' "condition")
    (type : String) : conditionOf type fields = conditionOf type fields' := by
  rcases h with h | ⟨hnull, hnone⟩
  · simp only [conditionOf, h]
  · simp only [conditionOf, hnull, hnone]

theorem flagOf_nullBlind {fields fields' : Variables} {key : String}
    (h : NullBlind fields fields' key) : flagOf key fields = flagOf key fields' := by
  rcases h with h | ⟨hnull, hnone⟩
  · simp only [flagOf, h]
  · simp only [flagOf, hnull, hnone]

variable {before after : Variables} {key : String}

theorem find?_null (hfresh : key ∉ Table.names (before ++ after)) :
    Table.find? (before ++ (key, Value.null) :: after) key = some .null := by
  have hbefore : key ∉ before.names := fun hmem =>
    hfresh (Table.names_append before after ▸ List.mem_append_left _ hmem)
  rw [Table.find?_append_of_not_mem hbefore]
  exact if_pos rfl

/-- A key without a value is not seen where null counts as nothing. -/
theorem nullBlind_append_cons (hfresh : key ∉ Table.names (before ++ after)) (other : String) :
    NullBlind (before ++ (key, .null) :: after) (before ++ after) other := by
  by_cases hother : key = other
  · subst hother
    exact .inr ⟨find?_null hfresh, Table.find?_eq_none_iff.2 hfresh⟩
  · exact .inl (Table.find?_append_cons_of_ne hother _)

/-- A known key makes no difference to the first key that is unknown. -/
theorem find?_unknown_append_cons (hkey : key ∈ keys) (v : Value) :
    ((Table.names (before ++ (key, v) :: after)).find? fun k => !keys.contains k) =
      (Table.names (before ++ after)).find? fun k => !keys.contains k := by
  have hnames : Table.names (before ++ (key, v) :: after) =
      before.names ++ key :: after.names := Table.names_append _ _
  simp [hnames, Table.names_append, List.find?_append, hkey]

def withNull (key : String) (step : Step) : Step :=
  { step with name := if key = "name" then some "null" else step.name }

/-- An object with a key without a value is read as it is without the key, or refused for the same
reason, except that null is the text of a name. -/
theorem ofFields_null (hkey : key ∈ optionalKeys)
    (hfresh : key ∉ Table.names (before ++ after)) :
    ofFields (before ++ (key, .null) :: after) = withNull key <$> ofFields (before ++ after) := by
  have hknown : key ∈ keys ∧ key ≠ "type" := by
    revert hkey
    simp only [optionalKeys, keys, List.mem_cons]
    grind
  have htype : typeOf (before ++ (key, .null) :: after) = typeOf (before ++ after) := by
    unfold typeOf
    rw [Table.find?_append_cons_of_ne hknown.2]
  have hname : (Table.find? (before ++ (key, .null) :: after) "name").map Value.text =
      if key = "name" then some "null" else (Table.find? (before ++ after) "name").map Value.text := by
    by_cases hkeyName : key = "name"
    · subst hkeyName
      rw [find?_null hfresh]
      rfl
    · rw [Table.find?_append_cons_of_ne hkeyName, if_neg hkeyName]
  unfold ofFields
  rw [find?_unknown_append_cons hknown.1]
  split
  · rfl
  · have hblind := nullBlind_append_cons hfresh
    simp only [htype, valuesOf_nullBlind (hblind "values"),
      conditionOf_nullBlind (hblind "condition"), flagOf_nullBlind (hblind "disabled"),
      flagOf_nullBlind (hblind "runOnFailure"), flagOf_nullBlind (hblind "ignoreError"), hname,
      map_bind, map_pure, withNull]

/-! ## Null and no key -/

/-- A step has no name if there is no key for one. -/
theorem name_of_ofFields {fields : Variables} {step : Step} (hfresh : "name" ∉ fields.names)
    (h : ofFields fields = .ok step) : step.name = none := by
  have hname := (ofFields_eq_ok_iff.1 h).name
  rw [Table.find?_eq_none_iff.2 hfresh] at hname
  exact hname.symm

/-- It makes no difference to a step whether a key that need not be there has null under it or is left
out: both objects are read as the same step, or refused for the same reason.  The exception is the name
of a step that can be read, which is none without the key and the text of null with it. -/
theorem ofValue_null_iff {v w : Value} (hkey : key ∈ optionalKeys)
    (hfresh : key ∉ Table.names (before ++ after))
    (hv : v.resolved = .object (before ++ (key, .null) :: after))
    (hw : w.resolved = .object (before ++ after)) :
    (ofValue v = ofValue w ↔ (key = "name" → ∀ step, ofValue w ≠ .ok step)) ∧
      ∀ step, key = "name" → ofValue w = .ok step →
        step.name = none ∧ ofValue v = .ok { step with name := some "null" } := by
  have hv' : ofValue v = ofFields (before ++ (key, .null) :: after) := by rw [ofValue, hv]
  have hw' : ofValue w = ofFields (before ++ after) := by rw [ofValue, hw]
  have hread : ofValue v = withNull key <$> ofValue w := by
    rw [hv', hw', ofFields_null hkey hfresh]
  have hnamed (step : Step) (hkeyName : key = "name") (hstep : ofValue w = .ok step) :
      step.name = none ∧ ofValue v = .ok { step with name := some "null" } := by
    subst hkeyName
    refine ⟨name_of_ofFields hfresh (hw' ▸ hstep), ?_⟩
    rw [hread, hstep]
    rfl
  refine ⟨⟨fun hsame hkeyName step hstep => ?_, fun hother => ?_⟩, hnamed⟩
  · -- one of the names is none
    obtain ⟨hnone, hnull⟩ := hnamed step hkeyName hstep
    rw [hsame, hstep] at hnull
    have hnames := congrArg name (Except.ok.inj hnull)
    rw [hnone] at hnames
    cases hnames
  · rw [hread]
    cases hstep : ofValue w with
    | error e => rfl
    | ok step =>
      have hkeyName : key ≠ "name" := fun h => hother h step hstep
      simp [withNull, hkeyName]

/-- A step that is named by nothing else, with an empty field between its keys or without it. -/
def sparseLog (field : Variables) : Value :=
  .object ([("condition", .bool true)] ++ field ++ [("type", .string "log"), ("values", .null)])

/-- An empty flag is no different from none.  An empty name is a name, unless the step is refused. -/
theorem sparseLog_reads :
    ofValue (.lazy (sparseLog [("ignoreError", .null)])) = ofValue (sparseLog []) ∧
      (∃ step, ofValue (sparseLog []) = .ok step ∧ step.name = none ∧
        ofValue (sparseLog [("name", .null)]) = .ok { step with name := some "null" }) ∧
      ofValue (.object [("disabled", .string "no"), ("name", .null)]) =
        ofValue (.object [("disabled", .string "no")]) := by
  have hflag := @ofValue_null_iff [("condition", .bool true)]
    [("type", .string "log"), ("values", .null)] "ignoreError"
    (.lazy (sparseLog [("ignoreError", .null)])) (sparseLog []) (by decide) (by decide) rfl rfl
  have hname := @ofValue_null_iff [("condition", .bool true)]
    [("type", .string "log"), ("values", .null)] "name" (sparseLog [("name", .null)]) (sparseLog [])
    (by decide) (by decide) rfl rfl
  have hrefused := @ofValue_null_iff [("disabled", .string "no")] [] "name"
    (.object [("disabled", .string "no"), ("name", .null)]) (.object [("disabled", .string "no")])
    (by decide) (by decide) rfl rfl
  exact ⟨hflag.1.2 fun h => absurd h (by decide), ⟨_, rfl, hname.2 _ rfl rfl⟩,
    hrefused.1.2 fun _ _ h => by cases h⟩

/-- A step that has no name is reported by its type, and with an empty name as `null`. -/
theorem emptyName_reported :
    ∃ step step', ofValue (.object [("type", .string "log"), ("name", .null)]) = .ok step ∧
      ofValue (.object [("type", .string "log")]) = .ok step' ∧
      step.displayName = "null" ∧ step'.displayName = "log" ∧ step ≠ step' := by
  refine ⟨_, _, rfl, rfl, rfl, rfl, fun h => ?_⟩
  cases congrArg name h

end Step

end StepScript
