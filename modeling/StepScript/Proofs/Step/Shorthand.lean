import StepScript.Action.Catalogue
import StepScript.Step.Shorthand

/-!
# Short forms — they are read as what they stand for

A short form names the type of its step by a key, and the value under that key stands for the
properties of the step.  Writing it out and reading what is written gives the same step as the full
form, whatever stands beside the key and in whatever order, and what is written out stays as it is.

* `Shorthand.StandsFor` says what the value of a short form stands for;
* `Shorthand.Abbreviates` says that one object is the short form of another one;
* `Shorthand.short_forms_agree` is the main result;
* `Schema.LeavesOpen` and `Shorthand.pair_disagrees` are about types with several such properties.
-/

namespace StepScript

/-- The properties that are declared as what a short form gives. -/
def Schema.declared (s : Schema) : List String :=
  (List.filter (fun e => e.2.binding) s.properties).map Prod.fst

theorem Schema.bindingProperty_eq_head? (s : Schema) :
    s.bindingProperty = s.declared.head? := by
  unfold bindingProperty declared
  rw [List.head?_map, List.head?_filter]

/-- A schema as it is and with its entries in another order. -/
def Schema.Reorders (s t : Schema) : Prop :=
  List.Perm s.properties t.properties

/-- Where several properties are declared as what a short form gives, it gives one of them, and it is
open which one: for each of them there is an order of the entries in which it is the one. -/
structure Schema.LeavesOpen (s : Schema) : Prop where
  one : s.declared ≠ [] → ∃ key ∈ s.declared, s.bindingProperty = some key
  any : ∀ key ∈ s.declared, ∃ t, s.Reorders t ∧ t.bindingProperty = some key

/-- A schema leaves nothing open but which of its bindings a short form fills. -/
theorem Schema.leavesOpen (s : Schema) : s.LeavesOpen where
  one h := by
    rw [bindingProperty_eq_head?]
    exact ⟨s.declared.head h, List.head_mem h, List.head?_eq_some_head h⟩
  any key h := by
    obtain ⟨entry, hentry, rfl⟩ := List.mem_map.1 h
    obtain ⟨hmem, hbinding⟩ := List.mem_filter.1 hentry
    obtain ⟨before, after, hentries⟩ := List.mem_iff_append.1 hmem
    -- the entry can be the first one of all
    refine ⟨⟨entry :: (before ++ after)⟩, ?_, by simp [bindingProperty, hbinding]⟩
    rw [Reorders, hentries]
    exact List.perm_middle

/-! ## Reading -/

namespace Step

/-- Reading depends on what is under the keys of a step, not on their order. -/
theorem ofFields_congr {fields fields' : Variables} (hkeys : ∀ key ∈ fields.names, key ∈ keys)
    (hkeys' : ∀ key ∈ fields'.names, key ∈ keys)
    (hfind : ∀ key ∈ keys, key ≠ "values" → fields.find? key = fields'.find? key)
    (hvalues : ∀ type, valuesOf type fields = valuesOf type fields') :
    ofFields fields = ofFields fields' := by
  have hknown {t : Variables} (h : ∀ key ∈ t.names, key ∈ keys) :
      (t.names.find? fun k => !keys.contains k) = none := by
    rw [List.find?_eq_none]
    intro key hkey
    simpa using h key hkey
  -- each field of the step is read from what is under its own key
  have htype : typeOf fields = typeOf fields' := by
    simp only [typeOf, hfind "type" (by decide) (by decide)]
  have hcondition (type : String) : conditionOf type fields = conditionOf type fields' := by
    simp only [conditionOf, hfind "condition" (by decide) (by decide)]
  have hflag (key : String) (hkey : key ∈ keys) (hne : key ≠ "values") :
      flagOf key fields = flagOf key fields' := by
    simp only [flagOf, hfind key hkey hne]
  have hname : fields.find? "name" = fields'.find? "name" := hfind "name" (by decide) (by decide)
  simp only [ofFields, hknown hkeys, hknown hkeys', htype, hvalues, hcondition, hname,
    hflag "disabled" (by decide) (by decide), hflag "runOnFailure" (by decide) (by decide),
    hflag "ignoreError" (by decide) (by decide)]

theorem metaKeys_subset_keys {key : String} (h : key ∈ metaKeys) : key ∈ keys := by
  have hsubset : metaKeys ⊆ keys := by decide
  exact hsubset h

end Step

theorem ok_of_bind {ε α β : Type} {x : Except ε α} {f : α → Except ε β} {b : β}
    (h : (x >>= f) = .ok b) : ∃ a, x = .ok a ∧ f a = .ok b := by
  cases x with
  | error e => cases h
  | ok a => exact ⟨a, rfl, h⟩

/-! ## Short forms -/

namespace Shorthand

/-- The properties that the value of a short form stands for: the property that is declared for it, one
of those that are, or all properties where none is. -/
inductive StandsFor (schema : Schema) (v : Value) : Value → Prop
  | property {key : String} :
      schema.declared = [key] → StandsFor schema v (.object [(key, v.resolved)])
  | several {key : String} :
      2 ≤ schema.declared.length → schema.bindingProperty = some key →
      StandsFor schema v (.object [(key, v.resolved)])
  | nothing : schema.declared = [] → v.resolved = .null → StandsFor schema v .null
  | all {fields : Variables} :
      schema.declared = [] → v.resolved = .object fields → StandsFor schema v (.object fields)

/-- The full form of a step of some type with other keys beside its own. -/
def fullForm (type : String) (W : Value) (others : Variables) : Variables :=
  ("type", .string type) :: ("values", W) :: others

/-- One object is the short form of a step, and the other one its full form.  The meta keys are the
same in both, and the keys may stand in any order. -/
inductive Abbreviates (registry : Registry) : Variables → Variables → Prop
  | intro {short full others : Variables} {type : String} {descriptor : Descriptor} {v W : Value} :
      registry.find? type = some descriptor → type ∉ Step.metaKeys → type ≠ "type" →
      others.names.Nodup → (∀ key ∈ others.names, key ∈ Step.metaKeys) →
      StandsFor descriptor.schema v W →
      short.Perm ((type, v) :: others) →
      full.Perm (fullForm type W others) →
      Abbreviates registry short full

variable {registry : Registry} {short full others : Variables} {type : String}
  {descriptor : Descriptor} {v W : Value}

/-- The one key that is not a meta key is the type. -/
theorem typeOf_short (htype : type ∉ Step.metaKeys)
    (hothers : ∀ key ∈ others.names, key ∈ Step.metaKeys)
    (hshort : short.Perm ((type, v) :: others)) : typeOf short = .ok type := by
  -- all the other keys are meta keys, and so no candidates
  have hnone : candidates others = [] := by
    simpa [candidates, List.filter_eq_nil_iff] using hothers
  have hperm : (candidates short).Perm (type :: candidates others) := by
    have hfilter := (hshort.map Prod.fst).filter fun k => !Step.metaKeys.contains k
    simpa [candidates, Table.names, htype] using hfilter
  rw [hnone, List.perm_singleton] at hperm
  unfold typeOf
  rw [hperm]

/-- What is written for the value of a short form is read as the properties that it stands for. -/
theorem values_standsFor (hfind : registry.find? type = some descriptor)
    (hstands : StandsFor descriptor.schema v W) :
    ∃ written, values registry type v.resolved = .ok written ∧
      ∀ (type : String) (fields fields' : Variables), fields.find? "values" = some written →
        fields'.find? "values" = some W → Step.valuesOf type fields = Step.valuesOf type fields' := by
  unfold values
  rw [hfind]
  dsimp only
  cases hstands with
  | several _ hgives =>
    rw [hgives]
    exact ⟨_, rfl, fun type fields fields' h h' => by simp only [Step.valuesOf, h, h']⟩
  | @property key hdeclared =>
    rw [Schema.bindingProperty_eq_head?, hdeclared]
    exact ⟨_, rfl, fun type fields fields' h h' => by simp only [Step.valuesOf, h, h']⟩
  | nothing hdeclared hnull =>
    rw [Schema.bindingProperty_eq_head?, hdeclared, hnull]
    exact ⟨_, rfl, fun type fields fields' h h' => by simp only [Step.valuesOf, h, h']⟩
  | all hdeclared hobject =>
    rw [Schema.bindingProperty_eq_head?, hdeclared, hobject]
    exact ⟨_, rfl, fun type fields fields' h h' => by simp only [Step.valuesOf, h, h']⟩

/-- Writing out a short form takes its key away and adds the two keys of the full form. -/
theorem expand_short {written : Value} (hobject : Table.contains short "type" = false)
    (htype : typeOf short = .ok type) (hv : short.find? type = some v)
    (hwritten : values registry type v.resolved = .ok written) :
    expand registry (.object short) =
      .ok (.object (((short.erase type).insert "type" (.string type)).insert "values" written)) := by
  have hfields : expandFields registry short =
      .ok (((short.erase type).insert "type" (.string type)).insert "values" written) := by
    simp only [expandFields, htype, hv, Option.getD_some, bind, Except.bind, hwritten, pure,
      Except.pure]
  simp only [expand, Value.resolved, hobject, hfields, bind, Except.bind, pure, Except.pure]
  rfl

/-- The full form has its type and properties in front of the other keys. -/
theorem fullForm_names (type : String) (W : Value) (others : Variables) :
    (fullForm type W others).names = "type" :: "values" :: others.names :=
  rfl

/-- The keys of the full form are keys of a step. -/
theorem fullForm_names_subset (hothers : ∀ key ∈ others.names, key ∈ Step.metaKeys) :
    ∀ key ∈ (fullForm type W others).names, key ∈ Step.keys := by
  intro key hkey
  rw [fullForm_names, List.mem_cons, List.mem_cons] at hkey
  rcases hkey with rfl | rfl | hkey
  · decide
  · decide
  · exact Step.metaKeys_subset_keys (hothers key hkey)

theorem fullForm_names_nodup (hnodup : others.names.Nodup)
    (hothers : ∀ key ∈ others.names, key ∈ Step.metaKeys) :
    (fullForm type W others).names.Nodup := by
  have hfresh (key : String) (h : key ∉ Step.metaKeys) : key ∉ others.names :=
    fun hmem => h (hothers key hmem)
  rw [fullForm_names, List.nodup_cons, List.nodup_cons]
  refine ⟨?_, hfresh "values" (by decide), hnodup⟩
  intro hmem
  rcases List.mem_cons.1 hmem with heq | hmem
  · exact absurd heq (by decide)
  · exact hfresh "type" (by decide) hmem

/-- The keys of a short form differ, since its type is none of the others. -/
theorem short_names_nodup (htype : type ∉ Step.metaKeys) (hnodup : others.names.Nodup)
    (hothers : ∀ key ∈ others.names, key ∈ Step.metaKeys)
    (hshort : short.Perm ((type, v) :: others)) : short.names.Nodup := by
  have hfresh : type ∉ others.names := fun hmem => htype (hothers type hmem)
  exact (hshort.map Prod.fst).nodup_iff.2 (List.nodup_cons.2 ⟨hfresh, hnodup⟩)

section Written

variable {written : Value}

/-- What a short form is written out to has known keys only. -/
theorem written_names_subset (hnodup : short.names.Nodup)
    (hothers : ∀ key ∈ others.names, key ∈ Step.metaKeys)
    (hshort : short.Perm ((type, v) :: others)) :
    ∀ key ∈ (((short.erase type).insert "type" (.string type)).insert "values" written).names,
      key ∈ Step.keys := by
  intro key hkey
  rw [Table.mem_names_insert, Table.mem_names_insert, Table.mem_names_erase hnodup] at hkey
  rcases hkey with rfl | rfl | ⟨hkeyType, hkeyShort⟩
  · decide
  · decide
  · have hmem : key ∈ type :: others.names := (hshort.map Prod.fst).mem_iff.1 hkeyShort
    rcases List.mem_cons.1 hmem with heq | hmem
    · exact absurd heq hkeyType
    · exact Step.metaKeys_subset_keys (hothers key hmem)

/-- A type that is neither a meta key nor `type` is a key of a step only if it is `values`. -/
theorem ne_of_mem_keys {key : String} (htype : type ∉ Step.metaKeys) (hne : type ≠ "type")
    (hkey : key ∈ Step.keys) (hkeyValues : key ≠ "values") : type ≠ key := by
  rintro rfl
  have hcases : type = "type" ∨ type = "values" ∨ type ∈ Step.metaKeys := by
    revert hkey
    simp only [Step.keys, Step.metaKeys, List.mem_cons]
    grind
  rcases hcases with heq | heq | hmem
  · exact hne heq
  · exact hkeyValues heq
  · exact htype hmem

/-- Beside the properties, what is written out has the same under each key as the full form. -/
theorem written_find? {key : String} (htype : type ∉ Step.metaKeys) (hne : type ≠ "type")
    (hnodup : short.names.Nodup) (hshort : short.Perm ((type, v) :: others))
    (hkey : key ∈ Step.keys) (hkeyValues : key ≠ "values") :
    (((short.erase type).insert "type" (.string type)).insert "values" written).find? key =
      Table.find? (fullForm type W others) key := by
  by_cases hkeyType : "type" = key
  · simp [fullForm, Table.find?_insert, Table.find?, hkeyType, Ne.symm hkeyValues]
  · have htypeKey : type ≠ key := ne_of_mem_keys htype hne hkey hkeyValues
    have herase : (short.erase type).find? key = Table.find? others key := by
      rw [Table.find?_erase htypeKey, Table.find?_perm hshort hnodup]
      simp [Table.find?, htypeKey]
    simp [fullForm, Table.find?_insert, Table.find?, hkeyType, Ne.symm hkeyValues, herase]

/-- What a short form is written out as has the keys of a step, and under them what the full form
has. -/
theorem written_reads (htype : type ∉ Step.metaKeys) (hne : type ≠ "type")
    (hnodup : short.names.Nodup) (hothers : ∀ key ∈ others.names, key ∈ Step.metaKeys)
    (hshort : short.Perm ((type, v) :: others))
    (hvalues : ∀ (type : String) (fields fields' : Variables), fields.find? "values" = some written →
      fields'.find? "values" = some W → Step.valuesOf type fields = Step.valuesOf type fields') :
    Step.ofFields (((short.erase type).insert "type" (.string type)).insert "values" written) =
      Step.ofFields (fullForm type W others) := by
  refine Step.ofFields_congr (written_names_subset hnodup hothers hshort)
    (fullForm_names_subset hothers) ?_ ?_
  · exact fun key hkey hkeyValues => written_find? htype hne hnodup hshort hkey hkeyValues
  · intro type'
    refine hvalues type' _ _ (Table.find?_insert_self _ _ _) ?_
    simp [fullForm, Table.find?]

end Written

/-- A short form is read as the full form, or both are refused for the same reason. -/
theorem Abbreviates.reads (h : Abbreviates registry short full) :
    (expand registry (.object short) >>= Step.ofValue) = Step.ofValue (.object full) := by
  rcases h with ⟨hfind, htype, hne, hnodup, hothers, hstands, hshort, hfull⟩
  rename_i others type descriptor v W
  obtain ⟨written, hwritten, hvalues⟩ := values_standsFor hfind hstands
  have hshortNames : short.names.Nodup := short_names_nodup htype hnodup hothers hshort
  have hfullNames : full.names.Nodup :=
    (hfull.map Prod.fst).nodup_iff.2 (fullForm_names_nodup hnodup hothers)
  have hfullKeys : ∀ key ∈ full.names, key ∈ Step.keys := fun key hkey =>
    fullForm_names_subset hothers key ((hfull.map Prod.fst).mem_iff.1 hkey)
  -- the short form has no key `type`
  have hobject : Table.contains short "type" = false := by
    have hnone : Table.find? others "type" = none :=
      Table.find?_eq_none_iff.2 fun hmem => absurd (hothers _ hmem) (by decide)
    rw [Table.contains, Table.find?_perm hshort hshortNames]
    simp [Table.find?, hne, hnone]
  have hv : short.find? type = some v := by
    rw [Table.find?_perm hshort hshortNames]
    simp [Table.find?]
  calc (expand registry (.object short) >>= Step.ofValue)
      = Step.ofFields (((short.erase type).insert "type" (.string type)).insert "values" written) := by
        rw [expand_short hobject (typeOf_short htype hothers hshort) hv hwritten]
        rfl
    _ = Step.ofFields (fullForm type W others) :=
        written_reads htype hne hshortNames hothers hshort hvalues
    _ = Step.ofFields full := by
        have hfind (key : String) : Table.find? full key =
            Table.find? (fullForm type W others) key :=
          Table.find?_perm hfull hfullNames key
        refine Step.ofFields_congr (fullForm_names_subset hothers) hfullKeys
          (fun key _ _ => (hfind key).symm) ?_
        intro type'
        simp only [Step.valuesOf, hfind]
    _ = Step.ofValue (.object full) := rfl

/-! ## What is written out -/

/-- A type that is written out is the only one that comes into question. -/
theorem candidates_of_typeOf {fields : Variables} {type : String} (h : typeOf fields = .ok type) :
    candidates fields = [type] := by
  unfold typeOf at h
  split at h
  · rename_i found hcandidates
    cases h
    exact hcandidates
  · cases h
  · cases h

/-- No key that may stand beside a type is taken for one. -/
theorem typeOf_not_metaKey {fields : Variables} {type : String} (h : typeOf fields = .ok type) :
    type ∉ Step.metaKeys := by
  have hmem : type ∈ candidates fields := by
    rw [candidates_of_typeOf h]
    exact List.mem_singleton.2 rfl
  simpa using (List.mem_filter.1 hmem).2

/-- A key that is no meta key can only be the type. -/
theorem eq_of_typeOf {fields : Variables} {type key : String} (h : typeOf fields = .ok type)
    (hmem : key ∈ fields.names) (hkey : key ∉ Step.metaKeys) : key = type := by
  have hcandidate : key ∈ candidates fields := List.mem_filter.2 ⟨hmem, by simpa using hkey⟩
  rw [candidates_of_typeOf h] at hcandidate
  exact List.mem_singleton.1 hcandidate

/-- What becomes of an object: with a type it stays, and otherwise its short form is written out. -/
inductive Expands (fields : Variables) : Variables → Prop
  | stays : Table.contains fields "type" = true → Expands fields fields
  | written {type : String} {values : Value} :
      typeOf fields = .ok type →
      Expands fields (((fields.erase type).insert "type" (.string type)).insert "values" values)

/-- Expanding a raw step writes out its short form or leaves it. -/
theorem expand_expands {raw expanded : Value} {fields : Variables}
    (hraw : raw.resolved = .object fields) (h : expand registry raw = .ok expanded) :
    ∃ fields', expanded = .object fields' ∧ Expands fields fields' := by
  unfold expand at h
  rw [hraw] at h
  dsimp only at h
  split at h
  · rename_i hcontains
    cases h
    exact ⟨fields, rfl, .stays hcontains⟩
  · rcases ok_of_bind h with ⟨fields', hfields, hexpanded⟩
    cases hexpanded
    rcases ok_of_bind hfields with ⟨type, htype, hrest⟩
    rcases ok_of_bind hrest with ⟨values, -, hvalues⟩
    cases hvalues
    exact ⟨_, rfl, .written htype⟩

/-- Writing out a short form leaves the meta keys as they are. -/
theorem expand_metaKey {raw expanded : Value} {fields : Variables}
    (hraw : raw.resolved = .object fields) (h : expand registry raw = .ok expanded) :
    ∃ fields', expanded = .object fields' ∧
      ∀ key ∈ Step.metaKeys, Table.find? fields' key = Table.find? fields key := by
  rcases expand_expands hraw h with ⟨fields', rfl, hexpands⟩
  refine ⟨fields', rfl, fun key hkey => ?_⟩
  cases hexpands with
  | stays _ => rfl
  | @written type values htype =>
    have htypeKey : type ≠ key := fun heq => typeOf_not_metaKey htype (heq ▸ hkey)
    -- neither of the keys that are written is a meta key
    have hwritten : "values" ≠ key ∧ "type" ≠ key := by
      constructor <;> rintro rfl <;> simp [Step.metaKeys] at hkey
    rw [Table.find?_insert, Table.find?_insert, if_neg hwritten.1, if_neg hwritten.2,
      Table.find?_erase htypeKey]

theorem Expands.contains_type {fields fields' : Variables} (h : Expands fields fields') :
    Table.contains fields' "type" = true := by
  cases h with
  | stays hcontains => exact hcontains
  | written htype => simp [Table.contains, Table.find?_insert]

/-- The full form is left as it is. -/
theorem expand_of_contains_type {fields : Variables}
    (htype : Table.contains fields "type" = true) :
    expand registry (.object fields) = .ok (.object fields) := by
  simp [expand, Value.resolved, htype]

/-- What is written out stays as it is. -/
theorem expand_of_expanded {raw expanded : Value} (h : expand registry raw = .ok expanded) :
    expand registry expanded = .ok expanded := by
  cases hraw : raw.resolved with
  | object fields =>
    rcases expand_expands hraw h with ⟨fields', rfl, hexpands⟩
    exact expand_of_contains_type hexpands.contains_type
  | string type =>
    simp only [expand, hraw] at h
    cases h
    exact expand_of_contains_type rfl
  | lazy v => exact absurd hraw (Value.resolved_ne_lazy raw v)
  | _ =>
    -- neither a type nor an object
    simp only [expand, hraw] at h
    cases h
    rfl

/-! ## The agreement of the forms -/

/-- The short form of a step is read as its full form, and both are refused for the same reason; a type
alone stands for the step of that type; and what has been written out is not changed any more.  Where
several properties are declared for the short form, nobody can tell which one it gives. -/
theorem short_forms_agree (registry : Registry) :
    (∀ short full, Abbreviates registry short full →
      (expand registry (.object short) >>= Step.ofValue) = Step.ofValue (.object full)) ∧
    (∀ raw type, raw.resolved = .string type →
      expand registry raw = .ok (.object [("type", .string type)])) ∧
    (∀ raw expanded, expand registry raw = .ok expanded →
      expand registry expanded = .ok expanded) ∧
    ∀ schema : Schema, schema.LeavesOpen := by
  refine ⟨fun short full => Abbreviates.reads, fun raw type hraw => ?_, fun raw expanded =>
    expand_of_expanded, Schema.leavesOpen⟩
  simp only [expand, hraw]

/-- The short form of a step, its key between a name and a flag. -/
def greeting (disabled : Value) : Variables :=
  [("name", .string "greet"), ("echo", .lazy (.string "hi")), ("disabled", disabled)]

/-- The full form of the step, with its keys in another order. -/
def greetingInFull (disabled : Value) : Variables :=
  [("values", .object [("value", .string "hi")]), ("disabled", disabled), ("type", .string "echo"),
    ("name", .string "greet")]

/-- The short step abbreviates the full one, whatever stands under `disabled`. -/
theorem greeting_abbreviates (disabled : Value) :
    Abbreviates Registry.builtIn (greeting disabled) (greetingInFull disabled) := by
  have hshort : (greeting disabled).Perm
      (("echo", .lazy (.string "hi")) :: [("name", .string "greet"), ("disabled", disabled)]) :=
    .swap _ _ _
  have hfull : (greetingInFull disabled).Perm (fullForm "echo" (.object [("value", .string "hi")])
      [("name", .string "greet"), ("disabled", disabled)]) := by
    have hfirst := @List.perm_middle _ ("type", .string "echo")
      [("values", .object [("value", .string "hi")]), ("disabled", disabled)]
      [("name", .string "greet")]
    exact hfirst.trans (.cons _ (.cons _ (.swap _ _ _)))
  refine .intro rfl (by decide) (by decide) ?_ ?_ (.property rfl) hshort hfull
  · change ["name", "disabled"].Nodup
    decide
  · change ∀ key ∈ ["name", "disabled"], key ∈ Step.metaKeys
    decide

/-- A registry of one type, which declares two properties as what its short form gives. -/
def pairRegistry (first second : String) : Registry :=
  Registry.empty.register ["pair"]
    ⟨(Schema.empty.binding first).binding second, fun p => .ok (.leaf (.ok (.object p.fields)))⟩

def pairProperties : Value :=
  .object [("x", .string "$(missing)")]

/-- The pair abbreviates the form in which the first of the two properties is bound. -/
theorem pair_abbreviates :
    Abbreviates (pairRegistry "a" "b") [("pair", pairProperties)]
      (fullForm "pair" (.object [("a", pairProperties)]) []) := by
  have hstands : StandsFor ((Schema.empty.binding "a").binding "b") pairProperties
      (.object [("a", pairProperties)]) := .several (by decide) rfl
  have hnodup : (Table.names ([] : Variables)).Nodup := List.nodup_nil
  exact .intro rfl (by decide) (by decide) hnodup nofun hstands (.refl _) (.refl _)

/-- The forms agree also where a flag is no truth value, so that both of them are refused. -/
theorem greeting_agrees :
    (expand Registry.builtIn (.object (greeting (.bool true))) >>= Step.ofValue) =
        Step.ofValue (.object (greetingInFull (.bool true))) ∧
      (expand Registry.builtIn (.object (greeting (.string "no"))) >>= Step.ofValue) =
        Step.ofValue (.object (greetingInFull (.string "no"))) ∧
      Step.ofValue (.object (greetingInFull (.string "no"))) = .error (.badFlag "disabled" "no") ∧
      expand Registry.builtIn (.lazy (.string "log")) = .ok (.object [("type", .string "log")]) ∧
      expand Registry.builtIn (.object [("type", .string "log")]) =
        .ok (.object [("type", .string "log")]) ∧
      (expand (pairRegistry "a" "b") (.object [("pair", pairProperties)]) >>= Step.ofValue) =
        Step.ofValue (.object (fullForm "pair" (.object [("a", pairProperties)]) [])) := by
  obtain ⟨hreads, htype, hstays, -⟩ := short_forms_agree Registry.builtIn
  have hlog := htype (.lazy (.string "log")) "log" rfl
  exact ⟨hreads _ _ (greeting_abbreviates _), hreads _ _ (greeting_abbreviates _), rfl, hlog,
    hstays _ _ hlog, (short_forms_agree (pairRegistry "a" "b")).1 _ _ pair_abbreviates⟩

/-- Whichever of two properties comes first, an object under the type does not stand for all of the
properties: it is the value of one of them. -/
theorem pair_disagrees :
    let short := Value.object [("pair", pairProperties)]
    let full := Value.object (fullForm "pair" pairProperties [])
    (expand (pairRegistry "a" "b") short >>= Step.ofValue) ≠ Step.ofValue full ∧
      (expand (pairRegistry "b" "a") short >>= Step.ofValue) ≠ Step.ofValue full := by
  intro short full
  have hfull : Step.ofValue full = .ok (.ofType "pair" pairProperties) := rfl
  constructor
  · have hshort : (expand (pairRegistry "a" "b") short >>= Step.ofValue) =
        .ok (.ofType "pair" (.object [("a", pairProperties)])) := rfl
    rw [hshort, hfull]
    simp [Step.ofType, pairProperties]
  · have hshort : (expand (pairRegistry "b" "a") short >>= Step.ofValue) =
        .ok (.ofType "pair" (.object [("b", pairProperties)])) := rfl
    rw [hshort, hfull]
    simp [Step.ofType, pairProperties]

end Shorthand

end StepScript
