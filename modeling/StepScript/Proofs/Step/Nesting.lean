import StepScript.Proofs.Action.Building
import StepScript.Proofs.Step.Reading

/-!
# Nesting — nested steps reach the engine as they are written

The built-in actions of control flow have lists of steps among their properties.  A list that is written
under the key of such a property stays as it is while the step is read, while its properties are
evaluated and while the action is built; the action then hands the very steps that were written to the
engine, which deals with them when their turn comes.

* `Value.Lists` says which steps are written in a value;
* `Descriptor.HandsAsWritten` says that a list goes through a step untouched;
* `Catalogue.nested_steps_untouched` is the main result.
-/

namespace StepScript

/-- The raw steps of a list as they are written: an array of them, or an object with such an array. -/
inductive Value.Lists : Value → List Value → Prop
  | array (steps : List Value) (bindings : Option Variables) : Lists (.array steps bindings) steps
  | object {fields : Variables} {steps : List Value} {bindings : Option Variables} :
      fields.find? "steps" = some (.array steps bindings) → Lists (.object fields) steps

namespace Value.Lists

variable {v : Value} {steps : List Value}

theorem ne_string (h : v.Lists steps) (s : String) : v ≠ .string s := by
  cases h <;> exact nofun

/-- A list is read as the steps that are written in it. -/
theorem steps_eq (h : v.Lists steps) {l : StepList} (hread : StepList.ofValue v = .ok l) :
    l.steps = steps := by
  cases h with
  | array steps bindings =>
    cases hread
    rfl
  | @object fields steps bindings hsteps =>
    have hcontains : Table.contains fields "steps" = true := by simp [Table.contains, hsteps]
    simp only [StepList.ofValue, Value.resolved, hcontains, if_true] at hread
    rcases ok_of_bind hread with ⟨extra, -, hread⟩
    simp only [StepList.stepsOf, hsteps] at hread
    cases hread
    rfl

end Value.Lists

/-! ## Nested steps -/

/-- A raw step that is written in full form or in short form, and its full form. -/
inductive Shorthand.Writes (registry : Registry) (full : Variables) : Value → Prop
  | full : Writes registry full (.object full)
  | short {short : Variables} :
      Abbreviates registry short full → Writes registry full (.object short)

/-- A raw step that writes a full form is read as that form. -/
theorem Shorthand.Writes.reads {registry : Registry} {full : Variables} {raw : Value}
    (h : Writes registry full raw) (htype : Table.contains full "type" = true) :
    (expand registry raw >>= Step.ofValue) = Step.ofFields full := by
  cases h with
  | full =>
    rw [expand_of_contains_type htype]
    rfl
  | short habbreviates => exact habbreviates.reads

/-- The list of steps under a key goes through the evaluation of the properties and the building of the
action as it is written, and its steps are what the action hands over. -/
structure Descriptor.HandsAsWritten (d : Descriptor) (key : String) (v : Value)
    (steps : List Value) (before after : Variables) (properties : Value) : Prop where
  /-- The list is not looked at: the properties are those of a step without it, and the list is put
  beside them. -/
  unseen : ∀ engine, PropertyEvaluation.properties engine d.schema true properties =
    (fun fields => .object (Table.insert fields key v)) <$>
      PropertyEvaluation.evaluateFields engine d.schema.flags true []
        (before ++ (key, .null) :: after) []
  /-- If the properties have values and the action is built, it has the list with these very steps, and
  nothing but its lists is handed over. -/
  handed : ∀ {engine : Engine} {s s₁ s' : RunState} {values : Value} {p : Properties}
    {action : Action} {number : String} {result : Except Failure Value},
    engine.store = Attempt.put →
    ((PropertyEvaluation.properties engine d.schema true properties).run s).Ends (.ok values) s₁ →
    Properties.ofValue values = .ok p → d.build p = .ok action →
    ((Performance.perform engine number action).run s₁).Ends result s' →
    ∃ l handed, action.list? key = some l ∧ l.steps = steps ∧
      engine.Handing number s₁ handed s' ∧ action.Hands s₁ result handed

namespace Catalogue

open PropertyEvaluation

variable {registry : Registry} {type key : String} {v : Value} {steps : List Value}
  {before after : Variables}

/-- No other field is written under the key of a list. -/
theorem writtenName_ne {schema : Schema} {name : String} (hkey : (KeyPlan.ofKey key).name = key)
    (hother : (KeyPlan.ofKey name).name ≠ key) : writtenName schema.flags name ≠ key := by
  unfold writtenName
  split
  · rintro rfl
    exact hother hkey
  · exact hother

/-- The values of the properties have the list under its key. -/
theorem values_find? {engine : Engine} {schema : Schema} {s s₁ : RunState} {properties values : Value}
    {rest : Attempt Variables} {p : Properties}
    (hunseen : PropertyEvaluation.properties engine schema true properties =
      (fun fields => .object (Table.insert fields key v)) <$> rest)
    (hvalues : ((PropertyEvaluation.properties engine schema true properties).run s).Ends
      (.ok values) s₁)
    (hp : Properties.ofValue values = .ok p) : p.get? key = some v := by
  rw [hunseen, map_eq_pure_bind] at hvalues
  rcases Attempt.ends_bind hvalues with ⟨e, -, herror⟩ | ⟨fields, s₂, -, hrest⟩
  · cases herror
  · cases hrest
    cases hp
    exact Table.find?_insert_self fields key v

/-- A list goes through untouched if the schema keeps it, the builder takes it and no other key is
written under its name. -/
theorem handsAsWritten {b : Builder Action} {schema : Schema} (hkeeps : schema.KeepsSteps key)
    (hbuilder : KeepsList b key) (hkey : (KeyPlan.ofKey key).name = key) (hlists : v.Lists steps)
    (hother : ∀ e ∈ before ++ after, (KeyPlan.ofKey e.1).name ≠ key) :
    (descriptor b schema).HandsAsWritten key v steps before after
      (.object (before ++ (key, v) :: after)) := by
  have hunseen (engine : Engine) := properties_of_keepsSteps engine true before hkeeps
    hlists.ne_string fun e he => writtenName_ne hkey (hother e (List.mem_append_right before he))
  refine ⟨hunseen, ?_⟩
  intro engine s s₁ s' values p action number result hstore hvalues hp hbuild hends
  have hget : p.get? key = some v := values_find? (hunseen engine) hvalues hp
  -- the builder reads its list from what is under the key
  obtain ⟨rest, hb⟩ := descriptor_build_ok hbuild
  obtain ⟨l, written, hl, hread, hsteps⟩ := hbuilder hb
  rw [hget] at hread
  obtain ⟨handed, hhanding, hhands⟩ := Performance.perform_hands hstore hl hends
  exact ⟨l, handed, hl, hsteps.trans (hlists.steps_eq hread), hhanding, hhands⟩

/-- The nested steps of a built-in action are dealt with when the action hands them over and not before.
Whatever stands beside the list, the step is read with the list as it is written, the evaluation of its
properties does not look at the list, whichever engine is at work and whatever scope it finds, and what
the action hands over are the steps that were written. -/
theorem nested_steps_untouched {raw : Value} {full : Variables} (hnesting : (type, key) ∈ nesting)
    (hbuiltIn : registry.find? type = Registry.builtIn.find? type)
    (hraw : Shorthand.Writes registry full raw)
    (htype : full.find? "type" = some (.string type))
    (hvalues : full.find? "values" = some (.object (before ++ (key, v) :: after)))
    (hlists : v.Lists steps)
    (hother : ∀ e ∈ before ++ after, (KeyPlan.ofKey e.1).name ≠ key) :
    ∃ d, registry.find? type = some d ∧
      ∀ step, (Shorthand.expand registry raw >>= Step.ofValue) = .ok step →
        step.type = type ∧ d.HandsAsWritten key v steps before after step.values := by
  obtain ⟨b, schema, hfind, hkeeps, hbuilder⟩ := nesting_descriptor hnesting
  refine ⟨descriptor b schema, hbuiltIn.trans hfind, fun step hread => ?_⟩
  rw [hraw.reads (by simp [Table.contains, htype])] at hread
  have hreads := Step.ofFields_eq_ok_iff.1 hread
  rw [hreads.values_eq hvalues]
  exact ⟨hreads.type_eq htype, handsAsWritten hkeeps hbuilder (nesting_unmarked hnesting) hlists hother⟩

/-- A step with a marker whose variable does not exist. -/
def laterSteps : List Value :=
  [.object [("echo", .string "$(later)")]]

def laterLoop : Variables :=
  [("items", .list [.bool true, .bool false]), ("steps", .list laterSteps)]

/-- An engine whose lists have their own raw steps as their results. -/
def echoing : Engine :=
  { Engine.none with runList := fun l _ => pure (.ok l.steps) }

/-- The short form of the loop writes its full form. -/
theorem laterLoop_writes : Shorthand.Writes Registry.builtIn
    (Shorthand.fullForm "for-each" (.object laterLoop) [])
    (.object [("for-each", .object laterLoop)]) := by
  have hnodup : (Table.names ([] : Variables)).Nodup := List.nodup_nil
  exact .short (.intro rfl (by decide) (by decide) hnodup nofun (.all rfl rfl) (.refl _) (.refl _))

/-- In both rounds of the loop, whose short form is written, the step is handed over with its
marker. -/
theorem laterSteps_untouched :
    let full := Shorthand.fullForm "for-each" (.object laterLoop) []
    let s := RunState.start Scope.empty
    ("for-each", "steps") ∈ nesting ∧
      Shorthand.Writes Registry.builtIn full (.object [("for-each", .object laterLoop)]) ∧
      Value.Lists (.list laterSteps) laterSteps ∧
      (∀ e ∈ [("items", Value.list [.bool true, .bool false])] ++ [],
        (KeyPlan.ofKey e.1).name ≠ "steps") ∧
      ∃ d action s' handed, Registry.builtIn.find? "for-each" = some d ∧
        d.build ⟨laterLoop⟩ = .ok action ∧
        ((Performance.perform echoing "1" action).run s).Ends
          (.ok (.list [.list laterSteps, .list laterSteps])) s' ∧
        echoing.Handing "1" s handed s' ∧
        handed.map Handed.list = [⟨laterSteps, none⟩, ⟨laterSteps, none⟩] := by
  intro full s
  have hnesting : ("for-each", "steps") ∈ nesting := by decide
  have hlists : Value.Lists (.list laterSteps) laterSteps := .array laterSteps none
  have hother : ∀ e ∈ [("items", Value.list [.bool true, .bool false])] ++ [],
      (KeyPlan.ofKey e.1).name ≠ "steps" := by
    intro e he
    cases List.mem_singleton.1 he
    decide
  obtain ⟨d, hfind, huntouched⟩ :=
    nested_steps_untouched hnesting rfl laterLoop_writes rfl rfl hlists hother
  -- the step is read, its properties have values, the action is built and comes to an end
  obtain ⟨-, huntouched⟩ := huntouched (.ofType "for-each" (.object laterLoop)) rfl
  cases hfind
  have hvalues : ((PropertyEvaluation.properties echoing Schema.empty true
      (.object laterLoop)).run s).Ends (.ok (.object laterLoop)) s := .finished _ _
  have hends : ∃ s', ((Performance.perform echoing "1" (.loop .item
      [(.bool true, .ofNat 0), (.bool false, .ofNat 1)] ⟨laterSteps, none⟩)).run s).Ends
      (.ok (.list [.list laterSteps, .list laterSteps])) s' := ⟨_, .finished _ _⟩
  obtain ⟨s', hends⟩ := hends
  obtain ⟨l, handed, -, -, hhanding, hhands⟩ := huntouched.handed rfl hvalues rfl rfl hends
  have hboth : handed.map Handed.list = [⟨laterSteps, none⟩, ⟨laterSteps, none⟩] := by
    generalize hresult : Except.ok (Value.list [.list laterSteps, .list laterSteps]) = result at hhands
    cases hhands with
    | @loop _ _ _ _ reach hfollows =>
      -- a list that failed would have failed the loop
      refine hfollows.map_list_eq ?_
      rintro cause rfl
      cases hresult
  exact ⟨hnesting, laterLoop_writes, hlists, hother, _, _, s', handed, rfl, rfl, hends, hhanding,
    hboth⟩

end Catalogue

end StepScript
