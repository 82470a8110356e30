import StepScript.Action.Catalogue
import StepScript.Proofs.Property.Field
import StepScript.Proofs.Property.Marks
import StepScript.Proofs.Run.Ending
import StepScript.Proofs.Scope.Layers
import StepScript.Run.List

/-!
# Naming — the names that the fields of an object are written under

The fields of an object are evaluated one after the other.  What a field is written under is its key
without the marks, whatever its value is and whatever becomes of it.  Fields that are written under the
same name share the place of the first one and have the value of the last one.

* `PropertyEvaluation.FieldsEnd` evaluates fields and lists what is written for each of them;
* `PropertyEvaluation.evaluateFields_ends_iff`: these entries make up the table of an object;
* `PropertyEvaluation.properties_named` is the main result on the names of an object, and
  `PropertyEvaluation.written_nameless_iff` the one on keys that leave no name.
-/

namespace StepScript

namespace PropertyEvaluation

variable {engine : Engine} {flags : String → PropertyFlags} {recursive : Bool} {trail : Trail}
  {fields written done results : Variables} {s s' : RunState}

/-! ## One entry a field -/

/-- Fields come to their values one after the other, each in the state that those before it have left.
The entries that are written have the names and the values of the fields. -/
inductive FieldsEnd (engine : Engine) (flags : String → PropertyFlags) (recursive : Bool)
    (trail : Trail) : Variables → RunState → Variables → RunState → Prop
  | nil (s : RunState) : FieldsEnd engine flags recursive trail [] s [] s
  | cons {key : String} {v w : Value} {rest written : Variables} {s t s' : RunState} :
      ((fieldValue engine flags recursive trail key v).run s).Ends (.ok w) t →
      FieldsEnd engine flags recursive trail rest t written s' →
      FieldsEnd engine flags recursive trail ((key, v) :: rest) s
        ((writtenName flags key, w) :: written) s'

/-- The names are written in the order of the keys, one for each. -/
theorem FieldsEnd.names_written (h : FieldsEnd engine flags recursive trail fields s written s') :
    written.names = fields.names.map (writtenName flags) := by
  induction h with
  | nil s => rfl
  | cons _ _ ih => exact congrArg (_ :: ·) ih

/-- Fields are evaluated exactly by writing their entries, behind those that are done. -/
theorem evaluateFields_ends_iff :
    ((evaluateFields engine flags recursive trail fields done).run s).Ends (.ok results) s' ↔
      ∃ written, FieldsEnd engine flags recursive trail fields s written s' ∧
        results = done.merge written := by
  induction fields generalizing done s with
  | nil =>
    rw [evaluateFields]
    constructor
    · intro h
      cases h
      exact ⟨[], .nil _, rfl⟩
    · rintro ⟨written, hfields, rfl⟩
      cases hfields
      exact .finished _ _
  | cons e rest ih =>
    obtain ⟨key, v⟩ := e
    rw [evaluateFields_cons_eq, Attempt.ends_ok_bind]
    constructor
    · rintro ⟨w, t, hvalue, hrest⟩
      obtain ⟨written, hfields, rfl⟩ := ih.1 hrest
      exact ⟨_, .cons hvalue hfields, rfl⟩
    · rintro ⟨written, hfields, rfl⟩
      cases hfields with
      | cons hvalue hrest => exact ⟨_, _, hvalue, ih.2 ⟨_, hrest, rfl⟩⟩

/-- An object has one name for each of the names of its fields, in the order in which they come up
first, and under each the value of the last field. -/
theorem ofEntries_eq_iff {entries : Variables} :
    Table.ofEntries entries = results ↔ results.names = (Table.names entries).eraseDups ∧
      ∀ name, results.find? name = Variables.last? (· == name) entries := by
  constructor
  · rintro rfl
    exact ⟨Table.names_ofEntries entries, Variables.find?_ofEntries entries⟩
  · rintro ⟨hnames, hfind⟩
    have hempty : (Table.names ([] : Variables)).Nodup := List.nodup_nil
    refine Table.eq_of_find? (Table.nodup_merge hempty entries) ?_ fun name => ?_
    · exact (Table.names_ofEntries entries).trans hnames.symm
    · exact (Variables.find?_ofEntries entries name).trans (hfind name).symm

/-! ## Names -/

/-- The flags of a schema do not matter to the evaluation of some fields. -/
def Unflagged (flags : String → PropertyFlags) (fields : Variables) : Prop :=
  ∀ key ∈ fields.names, (flags key).skip = false ∧ (flags key).nonRecursive = false

/-- Fields without flags are evaluated as those of a value are. -/
theorem evaluateFields_unflagged (h : Unflagged flags fields) :
    evaluateFields engine flags recursive trail fields done =
      evaluateFields engine (fun _ => .none) recursive trail fields done := by
  induction fields generalizing done with
  | nil => rfl
  | cons e rest ih =>
    obtain ⟨key, v⟩ := e
    obtain ⟨⟨hskip, honce⟩, hrest⟩ := List.forall_mem_cons.1 h
    have hvalue : fieldValue engine flags recursive trail key v =
        fieldValue engine (fun _ => .none) recursive trail key v := by
      simp [fieldValue, hskip, honce, PropertyFlags.none]
    have hname : writtenName flags key = writtenName (fun _ => .none) key := by
      simp [writtenName, hskip, honce, PropertyFlags.none]
    rw [evaluateFields_cons_eq, evaluateFields_cons_eq, hvalue, hname]
    simp only [ih hrest]

/-- An object is evaluated by evaluating its fields. -/
theorem evaluate_object_ends_iff {v : Value} :
    ((evaluate engine recursive trail (.object fields)).run s).Ends (.ok v) s' ↔
      ∃ results, ((evaluateFields engine (fun _ => .none) recursive trail fields []).run s).Ends
        (.ok results) s' ∧ v = .object results := by
  rw [evaluate, Attempt.ends_ok_bind]
  constructor
  · rintro ⟨results, t, hfields, hpure⟩
    cases hpure
    exact ⟨results, hfields, rfl⟩
  · rintro ⟨results, hfields, rfl⟩
    exact ⟨results, s', hfields, .finished _ _⟩

/-- The keys of an object are written without their marks.  An object whose fields have no flags comes
to a value exactly if its fields do, one after the other, and the value has the names that are left of
the keys, in the order in which they come up first, each with the value of the last field that has it.
The name that is left of a key depends on the key alone: its marks are taken off from the outside, and
the key is looked at from the beginning once for each of them, so at most once for each character. -/
theorem properties_named (engine : Engine) (schema : Schema) (recursive : Bool) (trail : Trail)
    (fields : Variables) (hflags : Unflagged schema.flags fields) :
    properties engine schema recursive (.object fields) =
        evaluate engine recursive [] (.object fields) ∧
    (∀ s v s', ((evaluate engine recursive trail (.object fields)).run s).Ends (.ok v) s' ↔
      ∃ written results : Variables, v = .object results ∧
        FieldsEnd engine (fun _ => .none) recursive trail fields s written s' ∧
        written.names = fields.names.map (fun key => (KeyPlan.ofKey key).name) ∧
        results.names = written.names.eraseDups ∧
        ∀ name, results.find? name = Variables.last? (· == name) written) ∧
    ∀ key plan, (KeyPlan.ofKey key = plan ↔ KeyPlan.Plans key.toList plan) ∧
      (KeyPlan.ofKey key).work.length ≤ key.length := by
  refine ⟨?_, fun s v s' => ?_, fun key plan => ⟨KeyPlan.ofKey_eq_iff, ?_⟩⟩
  · rw [properties, evaluate, evaluateFields_unflagged hflags]
  · rw [evaluate_object_ends_iff]
    constructor
    · rintro ⟨results, hfields, rfl⟩
      obtain ⟨written, hwritten, hresults⟩ := evaluateFields_ends_iff.1 hfields
      obtain ⟨hnames, hfind⟩ := ofEntries_eq_iff.1 hresults.symm
      exact ⟨written, results, rfl, hwritten, hwritten.names_written, hnames, hfind⟩
    · rintro ⟨written, results, rfl, hwritten, -, hnames, hfind⟩
      have hresults := (ofEntries_eq_iff.2 ⟨hnames, hfind⟩).symm
      exact ⟨results, evaluateFields_ends_iff.2 ⟨written, hwritten, hresults⟩, rfl⟩
  · exact (KeyPlan.ofKey_eq_iff.1 rfl).length_work_le

/-- Two names under two marks each, one of them around another one. -/
def stackedFields : Variables :=
  [("~a", .string "$(x)"), ("b", .bool true), ("$~b", .string "x"), ("<(a)>", .list [])]

/-- Both names stand in the place of their first field and have the value of their last one. -/
theorem stackedFields_named :
    let engine := ListRun.engine (Setup.plain Registry.builtIn) 3
    let s := RunState.start (Scope.ofVariables [("x", .string "y")])
    Unflagged (Schema.empty.skip "x").flags stackedFields ∧
      ((properties engine (Schema.empty.skip "x") true (.object stackedFields)).run s).Ends
        (.ok (.object [("a", .null), ("b", .string "y")])) s ∧
      ∃ written, FieldsEnd engine (fun _ => .none) true [] stackedFields s written s ∧
        written.names = ["a", "b", "b", "a"] := by
  intro engine s
  have hflags : Unflagged (Schema.empty.skip "x").flags stackedFields := by
    unfold Unflagged
    decide
  obtain ⟨hsame, hnamed, -⟩ := properties_named engine (Schema.empty.skip "x") true [] stackedFields
    hflags
  have hrun : (evaluate engine true [] (.object stackedFields)).run s =
      .finished (.ok (.object [("a", .null), ("b", .string "y")])) s := rfl
  have hends : ((evaluate engine true [] (.object stackedFields)).run s).Ends
      (.ok (.object [("a", .null), ("b", .string "y")])) s := by
    rw [hrun]
    exact .finished _ _
  obtain ⟨written, -, -, hwritten, hnames, -⟩ := (hnamed _ _ _).1 hends
  exact ⟨hflags, hsame ▸ hends, written, hwritten, hnames.trans (by decide)⟩

/-! ## Fields without a name -/

/-- The marks of a key count, and they stand around `<>`. -/
def IsNameless (flags : String → PropertyFlags) (key : String) : Prop :=
  (flags key).skip = false ∧ (flags key).nonRecursive = false ∧ KeyPlan.Hollow key.toList

/-- A field is written under the empty name if its key is empty or nothing is left of it. -/
theorem writtenName_eq_empty_iff {key : String} :
    writtenName flags key = "" ↔ key = "" ∨ IsNameless flags key := by
  unfold writtenName IsNameless
  cases (flags key).skip with
  | true => simp
  | false =>
    cases (flags key).nonRecursive with
    | true => simp
    | false =>
      have hplan : KeyPlan.Plans key.toList (KeyPlan.ofKey key) := KeyPlan.ofKey_eq_iff.1 rfl
      simpa using hplan.name_eq_empty_iff

/-- When the fields of an object have come to their values, an entry has been written for each of them.
Its name is empty only if the key was, or if the marks of the key count and stand around `<>`. -/
theorem written_nameless_iff (engine : Engine) (flags : String → PropertyFlags) (recursive : Bool)
    (trail : Trail) (fields results : Variables) (s s' : RunState)
    (hends : ((evaluateFields engine flags recursive trail fields []).run s).Ends (.ok results) s') :
    (∃ written, FieldsEnd engine flags recursive trail fields s written s' ∧
      results = Table.ofEntries written ∧
      List.Forall₂ (fun key name => name = "" ↔ key = "" ∨ IsNameless flags key)
        fields.names written.names) ∧
    ("" ∈ results.names ↔ ∃ key ∈ fields.names, key = "" ∨ IsNameless flags key) := by
  obtain ⟨written, hfields, hresults⟩ := evaluateFields_ends_iff.1 hends
  obtain ⟨hnames, -⟩ := ofEntries_eq_iff.1 hresults.symm
  refine ⟨⟨written, hfields, hresults, ?_⟩, ?_⟩
  · rw [hfields.names_written, List.forall₂_map_right_iff, List.forall₂_same]
    exact fun key _ => writtenName_eq_empty_iff
  · rw [hnames, List.mem_eraseDups, hfields.names_written, List.mem_map]
    exact exists_congr fun key => and_congr_right fun _ => writtenName_eq_empty_iff

/-- Keys with little or nothing inside their marks. -/
def sparseFields : Variables :=
  [("<<>", .list []), ("<(a)>", .list []), ("()", .bool true), ("~<>", .bool false)]

/-- None of these keys is left without a name. -/
theorem sparseFields_named :
    let engine := ListRun.engine (Setup.plain Registry.builtIn) 2
    let flags : String → PropertyFlags := fun _ => .none
    let s := RunState.start Scope.empty
    let results : Variables :=
      [("<", .list []), ("a", .null), ("()", .bool true), ("<>", .bool false)]
    ((evaluateFields engine flags true [] sparseFields []).run s).Ends (.ok results) s ∧
      ∀ key ∈ sparseFields.names, ¬ (key = "" ∨ IsNameless flags key) := by
  intro engine flags s results
  have hrun : (evaluateFields engine flags true [] sparseFields []).run s =
      .finished (.ok results) s := rfl
  have hends : ((evaluateFields engine flags true [] sparseFields []).run s).Ends (.ok results) s := by
    rw [hrun]
    exact .finished _ _
  have hiff := (written_nameless_iff engine flags true [] sparseFields results s s hends).2
  have hnamed : "" ∉ results.names := by decide
  exact ⟨hends, fun key hkey hnameless => hnamed (hiff.2 ⟨key, hkey, hnameless⟩)⟩

/-- Two angles around nothing leave no name. -/
theorem angles_written_empty :
    let engine := ListRun.engine (Setup.plain Registry.builtIn) 2
    let s := RunState.start Scope.empty
    "<>" ≠ "" ∧ ((evaluate engine true [] (.object [("<>", .list [])])).run s).Ends
      (.ok (.object [("", .list [])])) s := by
  intro engine s
  have hrun : (evaluate engine true [] (.object [("<>", .list [])])).run s =
      .finished (.ok (.object [("", .list [])])) s := rfl
  rw [hrun]
  exact ⟨by decide, .finished _ _⟩

end PropertyEvaluation

end StepScript
