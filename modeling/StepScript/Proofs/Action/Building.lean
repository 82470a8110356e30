import StepScript.Action.Catalogue
import StepScript.Proofs.Action.Handing
import StepScript.Proofs.Property.Untouched
import StepScript.Proofs.Step.Shorthand

/-!
# Building — the lists of an action are those of its properties

A builder takes the properties that it knows one after the other.  Taking one of them leaves the others,
so a list of steps is read from what is under its own key, whatever else the builder takes.

* `Catalogue.KeepsList`: the action that is built has the list that is read from a property;
* `Catalogue.nesting` are the types of the actions with nested steps and the keys of their lists;
* `Catalogue.nesting_descriptor`: for each of them the schema keeps the list and the builder does.
-/

namespace StepScript

namespace Properties

/-- Taking a property leaves the others where they are. -/
theorem get?_erase (p : Properties) {key other : String} (hne : key ≠ other) :
    (p.erase key).get? other = p.get? other :=
  Table.find?_erase hne

end Properties

namespace Catalogue

variable {α β : Type} {p p' : Properties} {key other : String} {action : Action}

/-- Building one thing after another succeeds only if both succeed, the second with what the first
leaves. -/
theorem Builder.ok_of_bind {b : Builder α} {next : α → Builder β} {result : β × Properties}
    (h : (b >>= next) p = .ok result) : ∃ a p₁, b p = .ok (a, p₁) ∧ next a p₁ = .ok result := by
  rcases StepScript.ok_of_bind h with ⟨⟨a, p₁⟩, hb, hnext⟩
  exact ⟨a, p₁, hb, hnext⟩

/-- What is built after a success starts with the properties that are left. -/
theorem Builder.bind_of_ok {b : Builder α} {next : α → Builder β} {a : α} (h : b p = .ok (a, p')) :
    (b >>= next) p = next a p' := by
  change Except.bind (b p) _ = _
  rw [h]
  rfl

/-- A builder takes no other property than one. -/
def Takes (b : Builder α) (key : String) : Prop :=
  ∀ ⦃p a p'⦄, b p = .ok (a, p') → p' = p.erase key

/-- However a property is read, nothing but this property is taken. -/
theorem takeBy_takes (find : Properties → String → Except PropertyError α) (key : String) :
    Takes (takeBy find key) key := by
  intro p a p' h
  unfold takeBy at h
  split at h <;> cases h
  rfl

theorem takeBy_ok {find : Properties → String → Except PropertyError α} {key : String}
    {a : α} (h : takeBy find key p = .ok (a, p')) :
    find p key = .ok a ∧ p' = p.erase key := by
  refine ⟨?_, takeBy_takes find key h⟩
  unfold takeBy at h
  cases hfind : find p key with
  | ok found =>
    rw [hfind] at h
    cases h
    rfl
  | error e =>
    rw [hfind] at h
    cases h

theorem takeBy_of_ok {find : Properties → String → Except PropertyError α} {a : α}
    (h : find p key = .ok a) : takeBy find key p = .ok (a, p.erase key) := by
  rw [takeBy, h]

/-- Taking one property leaves the others. -/
theorem Takes.get? {b : Builder α} (hb : Takes b key) (hne : key ≠ other) {a : α}
    (h : b p = .ok (a, p')) : p'.get? other = p.get? other := by
  rw [hb h]
  exact p.get?_erase hne

/-- A list that is taken is the one that is read from its property. -/
theorem takeSteps_ok {l : StepList} (h : takeSteps key p = .ok (l, p')) :
    StepList.ofValue ((p.get? key).getD .null) = .ok l ∧ p' = p.erase key := by
  obtain ⟨raw, p₁, hraw, h⟩ := Builder.ok_of_bind h
  cases hraw
  cases hlist : StepList.ofValue ((p.get? key).getD .null) with
  | ok steps =>
    rw [hlist] at h
    cases h
    exact ⟨rfl, rfl⟩
  | error e =>
    rw [hlist] at h
    cases h

/-- A list that can be read is taken from under its key. -/
theorem takeSteps_of_ok {l : StepList}
    (h : StepList.ofValue ((p.get? key).getD .null) = .ok l) :
    takeSteps key p = .ok (l, p.erase key) := by
  have hraw : takeOrNull key p = .ok ((p.get? key).getD .null, p.erase key) := rfl
  rw [takeSteps, Builder.bind_of_ok hraw, h]
  rfl

theorem takeSteps_takes (key : String) : Takes (takeSteps key) key :=
  fun _ _ _ h => (takeSteps_ok h).2

/-- The action has the list that is read from a property, perhaps with more base variables. -/
def KeepsList (b : Builder Action) (key : String) : Prop :=
  ∀ ⦃p action p'⦄, b p = .ok (action, p') →
    ∃ l written, action.list? key = some l ∧
      StepList.ofValue ((p.get? key).getD .null) = .ok written ∧ l.steps = written.steps

/-- The action of a condition holds the list that stands under its key. -/
theorem branch_keepsList (hkey : key = "then" ∨ key = "else") : KeepsList branch key := by
  intro p action p' h
  obtain ⟨condition, p₁, hcondition, h⟩ := Builder.ok_of_bind h
  obtain ⟨yes, p₂, hyes, h⟩ := Builder.ok_of_bind h
  obtain ⟨no, p₃, hno, h⟩ := Builder.ok_of_bind h
  cases h
  -- the condition and the other list are taken from other keys
  have hothers {key : String} (hne : "condition" ≠ key) : p₁.get? key = p.get? key :=
    (takeBy_takes _ _).get? hne hcondition
  obtain rfl | rfl := hkey
  · refine ⟨yes, yes, rfl, ?_, rfl⟩
    rw [← hothers (by decide)]
    exact (takeSteps_ok hyes).1
  · refine ⟨no, no, rfl, ?_, rfl⟩
    rw [← hothers (by decide), ← (takeSteps_takes "then").get? (by decide) hyes]
    exact (takeSteps_ok hno).1

/-- Every loop holds the list under `steps`. -/
theorem loop_keepsList (kind : LoopKind) : KeepsList (loop kind) "steps" := by
  intro p action p' h
  obtain ⟨source, p₁, hsource, h⟩ := Builder.ok_of_bind h
  cases hentries : entries kind source with
  | error e =>
    rw [hentries] at h
    cases h
  | ok found =>
    rw [hentries] at h
    obtain ⟨steps, p₂, hsteps, h⟩ := Builder.ok_of_bind h
    cases h
    have hother : p₁.get? "steps" = p.get? "steps" :=
      (takeBy_takes _ _).get? (by cases kind <;> decide) hsource
    refine ⟨steps, steps, rfl, ?_, rfl⟩
    rw [← hother]
    exact (takeSteps_ok hsteps).1

theorem runSteps_keepsList : KeepsList runSteps "steps" := by
  intro p action p' h
  obtain ⟨steps, p₁, hsteps, h⟩ := Builder.ok_of_bind h
  obtain ⟨extra, p₂, -, h⟩ := Builder.ok_of_bind h
  have hread := (takeSteps_ok hsteps).1
  -- the base variables that are added do not change the steps
  rcases hvariables : extra.map Value.resolved with _ | added
  · rw [hvariables] at h
    cases h
    exact ⟨steps, steps, rfl, hread, rfl⟩
  · rw [hvariables] at h
    cases added <;> cases h
    · exact ⟨steps, steps, rfl, hread, rfl⟩
    · exact ⟨_, steps, rfl, hread, rfl⟩

theorem pipe_keepsList : KeepsList pipe "steps" := by
  intro p action p' h
  obtain ⟨steps, p₁, hsteps, h⟩ := Builder.ok_of_bind h
  obtain ⟨name, p₂, -, h⟩ := Builder.ok_of_bind h
  obtain ⟨input, p₃, -, h⟩ := Builder.ok_of_bind h
  cases h
  exact ⟨steps, steps, rfl, (takeSteps_ok hsteps).1, rfl⟩

theorem junction_keepsList (deciding : Bool) : KeepsList (junction deciding) "steps" := by
  intro p action p' h
  obtain ⟨steps, p₁, hsteps, h⟩ := Builder.ok_of_bind h
  cases h
  exact ⟨steps, steps, rfl, (takeSteps_ok hsteps).1, rfl⟩

/-! ## The built-in actions with nested steps -/

/-- The types of the actions that have lists of steps, and the properties that these are under. -/
def nesting : List (String × String) :=
  [("if", "then"), ("if", "else"), ("for-each-item", "steps"), ("for-each", "steps"),
   ("for-each-property", "steps"), ("for-each-element", "steps"), ("run-steps", "steps"),
   ("pipe", "steps"), ("all", "steps"), ("or", "steps")]

/-- The keys of the lists carry no mark. -/
theorem nesting_unmarked {type : String} (h : (type, key) ∈ nesting) :
    (KeyPlan.ofKey key).name = key := by
  have hall : ∀ place ∈ nesting, (KeyPlan.ofKey place.2).name = place.2 := by decide
  exact hall (type, key) h

/-- The schema of each of these actions keeps its lists, and what is built has them. -/
theorem nesting_descriptor {type : String} (h : (type, key) ∈ nesting) :
    ∃ (b : Builder Action) (schema : Schema),
      Registry.builtIn.find? type = some (descriptor b schema) ∧ schema.KeepsSteps key ∧
        KeepsList b key := by
  simp only [nesting, List.mem_cons, List.not_mem_nil, or_false, Prod.mk.injEq] at h
  rcases h with ⟨rfl, rfl⟩ | ⟨rfl, rfl⟩ | ⟨rfl, rfl⟩ | ⟨rfl, rfl⟩ | ⟨rfl, rfl⟩ | ⟨rfl, rfl⟩ |
    ⟨rfl, rfl⟩ | ⟨rfl, rfl⟩ | ⟨rfl, rfl⟩ | ⟨rfl, rfl⟩
  · exact ⟨_, _, rfl, by decide, branch_keepsList (.inl rfl)⟩
  · exact ⟨_, _, rfl, by decide, branch_keepsList (.inr rfl)⟩
  · exact ⟨_, _, rfl, by decide, loop_keepsList .item⟩
  · exact ⟨_, _, rfl, by decide, loop_keepsList .item⟩
  · exact ⟨_, _, rfl, by decide, loop_keepsList .property⟩
  · exact ⟨_, _, rfl, by decide, loop_keepsList .element⟩
  · exact ⟨_, _, rfl, by decide, runSteps_keepsList⟩
  · exact ⟨_, _, rfl, by decide, pipe_keepsList⟩
  · exact ⟨_, _, rfl, by decide, junction_keepsList false⟩
  · exact ⟨_, _, rfl, by decide, junction_keepsList true⟩

/-- An action is built if its builder succeeds, whatever properties are left. -/
theorem descriptor_build_of_ok {b : Builder Action} (schema : Schema) {rest : Properties}
    (h : b p = .ok (action, rest)) : (descriptor b schema).build p = .ok action := by
  change (b p).map Prod.fst = _
  rw [h]
  rfl

/-- An action that is built is one that its builder has yielded. -/
theorem descriptor_build_ok {b : Builder Action} {schema : Schema} {p : Properties} {action : Action}
    (h : (descriptor b schema).build p = .ok action) : ∃ rest, b p = .ok (action, rest) := by
  unfold descriptor at h
  cases hb : b p with
  | ok built =>
    simp only [hb] at h
    cases h
    exact ⟨built.2, rfl⟩
  | error e =>
    simp only [hb] at h
    cases h

end Catalogue

end StepScript
