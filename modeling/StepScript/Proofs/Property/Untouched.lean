import StepScript.Run.Properties

/-!
# Untouched — nested steps go through the evaluation of properties as they are written

The fields of an object are evaluated one after the other, and each of them is written under a name
that depends on its key alone.  A list of steps under a key that a schema skips, or under the key
`steps`, is not looked at: evaluation does the very same work with nothing in place of the list, and
then writes the list itself.  This is an equation between tasks, so it holds for every engine, in every
state and among all other work.

* `PropertyEvaluation.writtenName` is the name that a field is written under;
* `Schema.KeepsSteps` says which keys keep a list of steps;
* `PropertyEvaluation.properties_of_keepsSteps` is the main result.
-/

namespace StepScript

instance : LawfulMonad Task :=
  LawfulMonad.mk' Task (fun t => funext fun s => Progress.bind_finished_right (t s))
    (fun _ _ => rfl) (fun t _ _ => funext fun s => Progress.bind_assoc (t s) _ _)

/-- A list of steps under this key is handed over as it is written. -/
def Schema.KeepsSteps (schema : Schema) (key : String) : Prop :=
  (schema.flags key).skip = true ∨ (schema.flags key).nonRecursive = false ∧ key = "steps"

instance (schema : Schema) (key : String) : Decidable (schema.KeepsSteps key) :=
  inferInstanceAs (Decidable (_ ∨ _ ∧ _))

namespace PropertyEvaluation

variable {engine : Engine} {flags : String → PropertyFlags} {recursive : Bool} {trail : Trail}
  {key : String} {v : Value} {fields after done : Variables}

/-! ## One field after the other -/

def writtenName (flags : String → PropertyFlags) (key : String) : String :=
  if (flags key).skip || (flags key).nonRecursive then key else (KeyPlan.ofKey key).name

/-- The first field has a value, whatever stands beside it, and is written before the others. -/
theorem evaluateFields_cons (engine : Engine) (flags : String → PropertyFlags) (recursive : Bool)
    (trail : Trail) (key : String) (v : Value) :
    ∃ value : Attempt Value, ∀ rest done,
      evaluateFields engine flags recursive trail ((key, v) :: rest) done =
        value >>= fun v =>
          evaluateFields engine flags recursive trail rest (done.insert (writtenName flags key) v) := by
  simp only [evaluateFields, writtenName]
  -- a property that is skipped, one that is evaluated once, and all others, treated by their marks
  cases hskip : (flags key).skip with
  | true => exact ⟨pure v, fun rest done => by simp⟩
  | false =>
    cases hnonRecursive : (flags key).nonRecursive with
    | true => exact ⟨evaluate engine false trail v, fun rest done => by simp⟩
    | false =>
      simp only [Bool.false_eq_true, if_false, Bool.or_self]
      obtain ⟨work, treatment, name⟩ := KeyPlan.ofKey key
      cases treatment with
      | raw => exact ⟨workAll engine work v, fun rest done => by simp⟩
      | steps =>
        exact ⟨workAll engine work v >>= stepsValue engine trail, fun rest done => by simp⟩
      | evaluated =>
        cases work with
        | nil => exact ⟨evaluate engine recursive trail v, fun rest done => by simp⟩
        | cons first more =>
          exact ⟨workAll engine (first :: more) v >>= engine.restart recursive trail,
            fun rest done => by simp⟩

/-- Fields are evaluated part by part. -/
theorem evaluateFields_append (before after done : Variables) :
    evaluateFields engine flags recursive trail (before ++ after) done =
      evaluateFields engine flags recursive trail before done >>=
        evaluateFields engine flags recursive trail after := by
  induction before generalizing done with
  | nil => simp [evaluateFields]
  | cons e rest ih =>
    obtain ⟨key, v⟩ := e
    obtain ⟨value, hvalue⟩ := evaluateFields_cons engine flags recursive trail key v
    simp [hvalue, ih]

/-- What stands under a name that no field is written under does not matter to the fields. -/
theorem evaluateFields_insert (hmem : key ∈ done.names)
    (hother : ∀ e ∈ fields, writtenName flags e.1 ≠ key) :
    evaluateFields engine flags recursive trail fields (done.insert key v) =
      (fun result => Table.insert result key v) <$>
        evaluateFields engine flags recursive trail fields done := by
  -- the name has an entry, so it keeps its place when other names are written
  induction fields generalizing done with
  | nil => simp [evaluateFields]
  | cons e rest ih =>
    obtain ⟨name, w⟩ := e
    obtain ⟨hname, hrest⟩ := List.forall_mem_cons.1 hother
    obtain ⟨value, hvalue⟩ := evaluateFields_cons engine flags recursive trail name w
    rw [hvalue, hvalue, map_bind]
    congr 1
    funext w
    rw [← Table.insert_comm hmem hname]
    exact ih ((Table.mem_names_insert _ _ _ _).2 (.inr hmem)) hrest

/-! ## Lists of steps -/

theorem ofKey_steps : KeyPlan.ofKey "steps" = ⟨[], .steps, "steps"⟩ := by
  decide

/-- A list of steps is written as it is. -/
theorem evaluateFields_cons_of_keepsSteps {schema : Schema} (hkeeps : schema.KeepsSteps key)
    (hv : ∀ s, v ≠ .string s) (rest done : Variables) :
    evaluateFields engine schema.flags recursive trail ((key, v) :: rest) done =
      evaluateFields engine schema.flags recursive trail rest (done.insert key v) := by
  rw [evaluateFields]
  by_cases hskip : (schema.flags key).skip = true
  · simp [hskip]
  · obtain ⟨hnonRecursive, rfl⟩ := hkeeps.resolve_left hskip
    have hsteps : stepsValue engine trail v = pure v := by
      cases v with
      | string s => exact absurd rfl (hv s)
      | _ => rfl
    simp [hskip, hnonRecursive, ofKey_steps, workAll, hsteps]

/-- The properties of a step with a list of nested steps are evaluated as if there were nothing in
place of the list, and the list is written beside them as it is: none of its steps is looked at. -/
theorem properties_of_keepsSteps {schema : Schema} (engine : Engine) (recursive : Bool)
    (before : Variables) (hkeeps : schema.KeepsSteps key) (hv : ∀ s, v ≠ .string s)
    (hafter : ∀ e ∈ after, writtenName schema.flags e.1 ≠ key) :
    properties engine schema recursive (.object (before ++ (key, v) :: after)) =
      (fun fields => .object (Table.insert fields key v)) <$>
        evaluateFields engine schema.flags recursive [] (before ++ (key, .null) :: after) [] := by
  -- in front of the list nothing changes, and behind it the null in its place is written over
  have hwritten (done : Variables) :
      evaluateFields engine schema.flags recursive [] ((key, v) :: after) done =
        (fun fields => Table.insert fields key v) <$>
          evaluateFields engine schema.flags recursive [] ((key, .null) :: after) done := by
    rw [evaluateFields_cons_of_keepsSteps hkeeps hv,
      evaluateFields_cons_of_keepsSteps hkeeps (by simp), ← Table.insert_insert_self done key .null v]
    exact evaluateFields_insert ((Table.mem_names_insert _ _ _ _).2 (.inl rfl)) hafter
  simp [properties, evaluateFields_append, hwritten]

end PropertyEvaluation

end StepScript
