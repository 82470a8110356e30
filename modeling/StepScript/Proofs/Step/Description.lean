import StepScript.Proofs.Step.Grammar

/-!
# Description — a raw step is described as what is read from it

A raw step is described without being read: by the text of its type, or by its first key that can be one,
and by its name and its flag.  The short forms are written out and read by other rules.  Where they come
to a step, the description has its type, its name and whether it is disabled, so that a step is reported
in the same way whether it is read or not.

* `Step.guessType_of_short`: the first key that can be a type is the one of the short form;
* `Step.placeholder_eq_of_reads` is the main result.
-/

namespace StepScript

namespace Step

variable {registry : Registry} {raw expanded : Value} {step : Step} {fields : Variables}
  {type : String}

/-! ## The type -/

theorem guessType_of_typeOf (h : typeOf fields = .ok type) : guessType fields = some type := by
  rw [guessType, (typeOf_eq_ok_iff.1 h).1]

/-- An object without a type has no other key that can be one than that of its short form. -/
theorem guessType_of_short (hfull : Table.contains fields "type" = false)
    (hshort : Shorthand.typeOf fields = .ok type) : guessType fields = some type := by
  have hnone : fields.find? "type" = none := by simpa [Table.contains] using hfull
  have hmem : "type" ∉ fields.names := Table.find?_eq_none_iff.1 hnone
  -- what can be the type of a short form is what the description looks for
  have hcandidates : (fields.names.filter fun k => !metaKeys.contains k && k != "type") =
      Shorthand.candidates fields := by
    refine List.filter_congr fun key hkey => ?_
    have hne : key ≠ "type" := fun heq => hmem (heq ▸ hkey)
    simp [hne]
  rw [guessType, hnone]
  dsimp only
  rw [← List.head?_filter, hcandidates, Shorthand.candidates_of_typeOf hshort]
  rfl

/-- The type that an object is described by is that of the step. -/
theorem guessType_of_reads (hraw : raw.resolved = .object fields)
    (hexpand : Shorthand.expand registry raw = .ok expanded)
    (hread : ofValue expanded = .ok step) : guessType fields = some step.type := by
  obtain ⟨fields', rfl, hexpands⟩ := Shorthand.expand_expands hraw hexpand
  have hreads := ofFields_eq_ok_iff.1 (show ofFields fields' = .ok step from hread)
  cases hfull : Table.contains fields "type" with
  | true =>
    -- an object with a type is in its full form
    simp only [Shorthand.expand, hraw, hfull] at hexpand
    cases hexpand
    exact guessType_of_typeOf hreads.type
  | false =>
    cases hexpands with
    | stays hcontains =>
      rw [hfull] at hcontains
      cases hcontains
    | @written type values hshort =>
      have htype : step.type = type := hreads.type_eq (by simp [Table.find?_insert])
      rw [guessType_of_short hfull hshort, htype]

/-! ## The description -/

/-- Where a raw step comes to a step, whatever is registered, it is described by the type and the name of
the step and by whether it is disabled, and by nothing else. -/
theorem placeholder_eq_of_reads (registry : Registry) (raw expanded : Value) (step : Step)
    (hexpand : Shorthand.expand registry raw = .ok expanded)
    (hread : ofValue expanded = .ok step) :
    placeholder raw =
      { ofType step.type .null with name := step.name, disabled := step.disabled } := by
  have hdisabled : (placeholder raw).disabled = step.disabled := placeholder_disabled hexpand hread
  cases hraw : raw.resolved with
  | object fields =>
    have htype := guessType_of_reads hraw hexpand hread
    have hname : (Table.find? fields "name").map Value.text = step.name := by
      obtain ⟨fields', rfl, hkeys⟩ := Shorthand.expand_metaKey hraw hexpand
      rw [← (ofFields_eq_ok_iff.1 hread).name, hkeys "name" (by decide)]
    rw [← hdisabled, ← hname]
    simp only [placeholder, hraw, htype, Option.getD_some]
  | string type =>
    simp only [Shorthand.expand, hraw] at hexpand
    cases hexpand
    have hreads := ofFields_eq_ok_iff.1 (show ofFields [("type", .string type)] = .ok step from hread)
    have htype : step.type = type := hreads.type_eq rfl
    have hname : none = step.name := hreads.name
    rw [← hdisabled, ← hname, htype]
    simp only [placeholder, hraw, ofType]
  | lazy v => exact absurd hraw (Value.resolved_ne_lazy raw v)
  | _ =>
    -- what is neither a type nor an object is refused
    simp only [Shorthand.expand, hraw] at hexpand
    cases hexpand
    cases hread

/-- A short form behind a name that is null and a flag.  Its type is a key of the full form, and no action
is registered for it. -/
def unheardShort : Value :=
  .lazy (.object [("name", .null), ("disabled", .bool true), ("values", .string "x")])

/-- It is described by that key, just as it is read. -/
theorem unheardShort_described :
    placeholder unheardShort =
        { ofType "values" .null with name := some "null", disabled := true } ∧
      placeholder (.string "log") = ofType "log" .null :=
  ⟨placeholder_eq_of_reads Registry.builtIn unheardShort
      (.object [("name", .null), ("disabled", .bool true), ("type", .string "values"),
        ("values", .object [])])
      ⟨"values", some "null", .object [], true, false, false, none⟩ rfl rfl,
    placeholder_eq_of_reads Registry.builtIn (.string "log") (.object [("type", .string "log")])
      ⟨"log", none, .object [], false, false, false, none⟩ rfl rfl⟩

end Step

end StepScript
