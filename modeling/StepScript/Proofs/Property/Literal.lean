import StepScript.Proofs.Marker.Occurrence
import StepScript.Run.Properties

/-!
# Literal — values without markers

A value in which no text holds a marker and no key carries a mark is its own value.  That is so for
every engine, since the engine is never asked for anything: the work finishes at once, in the state
in which it has begun.

`Value.IsLiteral` names these values.  Lazy values and the base variables of arrays are not looked
at.
-/

namespace StepScript

namespace KeyPlan

/-- A mark stands around a name that is not empty. -/
def IsMarked (key : String) : Prop :=
  ∃ name : List Char, name ≠ [] ∧
    (key.toList = '(' :: (name ++ [')']) ∨ ∃ mark ∈ ['^', '<', '$', '~'], key.toList = mark :: name)

/-! ## Keys without a mark -/

variable {key : String}

/-- A key without marks does not run steps. -/
theorem runMark?_of_not_isMarked (h : ¬ IsMarked key) : runMark? key.toList = none := by
  unfold runMark?
  split
  · rename_i rest hkey
    refine if_neg fun hmark => ?_
    obtain ⟨hlast, hlength⟩ : rest.getLast? = some ')' ∧ 1 < rest.length := by simpa using hmark
    obtain ⟨name, rfl⟩ := List.getLast?_eq_some_iff.1 hlast
    have hname : name ≠ [] := by
      rintro rfl
      simp at hlength
    exact h ⟨name, hname, .inl hkey⟩
  · rename_i rest hkey
    exact if_pos (by simpa using fun hrest => h ⟨rest, hrest, .inr ⟨'^', by simp, hkey⟩⟩)
  · rename_i rest hkey
    exact if_pos (by simpa using fun hrest => h ⟨rest, hrest, .inr ⟨'<', by simp, hkey⟩⟩)
  · rfl

/-- A key without marks has none of the marks of one character. -/
theorem behind?_of_not_isMarked (h : ¬ IsMarked key) {mark : Char}
    (hmark : mark ∈ ['^', '<', '$', '~']) : behind? mark key.toList = none := by
  unfold behind?
  split
  · rename_i c rest hkey
    refine if_neg fun hbehind => ?_
    obtain ⟨rfl, hrest⟩ : c = mark ∧ rest ≠ [] := by simpa using hbehind
    exact h ⟨rest, hrest, .inr ⟨c, hmark, hkey⟩⟩
  · rfl

/-- A key without a mark asks for nothing. -/
theorem ofKey_of_not_isMarked (h : ¬ IsMarked key) :
    ofKey key = ⟨[], if key = "steps" then .steps else .evaluated, key⟩ := by
  simp only [ofKey, ofChars, runMark?_of_not_isMarked h,
    behind?_of_not_isMarked h (show '$' ∈ ['^', '<', '$', '~'] by simp),
    behind?_of_not_isMarked h (show '~' ∈ ['^', '<', '$', '~'] by simp), String.toList_inj,
    String.ofList_toList]

/-- A key is marked if one of the three ways to read a mark succeeds. -/
theorem isMarked_iff : IsMarked key ↔ (runMark? key.toList).isSome ∨
    (behind? '$' key.toList).isSome ∨ (behind? '~' key.toList).isSome := by
  constructor
  · rintro ⟨name, hname, hkey | ⟨mark, hmark, hkey⟩⟩
    · simp [hkey, runMark?, List.length_pos_iff, hname]
    · simp only [List.mem_cons, List.not_mem_nil, or_false] at hmark
      obtain rfl | rfl | rfl | rfl := hmark <;> simp [hkey, runMark?, behind?, hname]
  · refine fun hsome => Classical.byContradiction fun h => ?_
    simp [runMark?_of_not_isMarked h, behind?_of_not_isMarked h] at hsome

instance : DecidablePred IsMarked := fun _ => decidable_of_iff _ isMarked_iff.symm

end KeyPlan

/-! ## Values without markers -/

/-- A value whose texts hold no marker and whose keys carry no mark, each of them once. -/
inductive Value.IsLiteral : Value → Prop where
  | null : IsLiteral .null
  | bool (b : Bool) : IsLiteral (.bool b)
  | number (n : Number) : IsLiteral (.number n)
  | string {s : String} (unmarked : ¬ Marker.Occurs s.toList) : IsLiteral (.string s)
  | array {items : List Value} (bindings : Option (List (String × Value)))
      (inside : ∀ v ∈ items, IsLiteral v) : IsLiteral (.array items bindings)
  | object {fields : Variables} (once : fields.names.Nodup)
      (unmarked : ∀ e ∈ fields, ¬ KeyPlan.IsMarked e.1) (inside : ∀ e ∈ fields, IsLiteral e.2) :
      IsLiteral (.object fields)
  | lazy (v : Value) : IsLiteral (.lazy v)

namespace PropertyEvaluation

variable {engine : Engine} {recursive : Bool} {trail : Trail}

/-- The work finishes at once, in the state in which it has begun. -/
def AtOnce {α : Type} (t : Attempt α) (a : α) : Prop :=
  ∀ s, t.run s = .finished (.ok a) s

namespace AtOnce

variable {α β : Type}

theorem pure (a : α) : AtOnce (Pure.pure a) a := fun _ => rfl

/-- What is next to something that finishes at once begins in the same state. -/
theorem bind {t : Attempt α} {a : α} {next : α → Attempt β} {b : β} (h : AtOnce t a)
    (hnext : AtOnce (next a) b) : AtOnce (t >>= next) b := fun s => by
  rw [Attempt.run_bind, h s]
  exact hnext s

end AtOnce

/-- A text without markers is its own value. -/
theorem text_literal {s : String} (h : ¬ Marker.Occurs s.toList) :
    AtOnce (text engine recursive trail s) (.string s) := by
  simp only [text, Marker.codes_pieces_eq_nil_iff.2 h]
  exact .pure _

/-- Steps that are literal are handed on as they are. -/
theorem stepsValue_literal {v : Value} (h : v.IsLiteral) :
    AtOnce (stepsValue engine trail v) v := by
  cases h with
  | string unmarked => exact text_literal unmarked
  | _ => exact .pure _

/-- Items that are their own values make a list that is. -/
theorem evaluateItems_literal {items : List Value}
    (h : ∀ v ∈ items, AtOnce (evaluate engine recursive trail v) v) :
    AtOnce (evaluateItems engine recursive trail items) items := by
  induction items with
  | nil => exact .pure _
  | cons v rest ih =>
    obtain ⟨hv, hrest⟩ := List.forall_mem_cons.1 h
    exact .bind hv (.bind (ih hrest) (.pure _))

/-- A field without marks is written as it is, whatever its flags are. -/
theorem evaluateFields_cons_literal {flags : String → PropertyFlags} {key : String} {v : Value}
    {rest : List (String × Value)} {done result : Variables} (hkey : ¬ KeyPlan.IsMarked key)
    (hv : v.IsLiteral) (ih : ∀ recursive, AtOnce (evaluate engine recursive trail v) v)
    (hrest : AtOnce (evaluateFields engine flags recursive trail rest (done.insert key v)) result) :
    AtOnce (evaluateFields engine flags recursive trail ((key, v) :: rest) done) result := by
  rw [evaluateFields]
  refine AtOnce.bind (a := (key, v)) ?_ hrest
  -- a property that is skipped, one that is evaluated once, and all others
  split
  · exact .pure _
  split
  · exact .bind (ih false) (.pure _)
  · rw [KeyPlan.ofKey_of_not_isMarked hkey]
    by_cases hsteps : key = "steps"
    · simp only [hsteps, if_true]
      exact .bind (.pure _) (.bind (stepsValue_literal hv) (.pure _))
    · simp only [hsteps, if_false]
      exact .bind (ih recursive) (.pure _)

/-- Fields with names that differ are written one behind the other. -/
theorem evaluateFields_literal (flags : String → PropertyFlags) {fields done : Variables}
    (once : (Table.names (done ++ fields)).Nodup)
    (unmarked : ∀ e ∈ fields, ¬ KeyPlan.IsMarked e.1) (inside : ∀ e ∈ fields, e.2.IsLiteral)
    (ih : ∀ e ∈ fields, ∀ recursive, AtOnce (evaluate engine recursive trail e.2) e.2) :
    AtOnce (evaluateFields engine flags recursive trail fields done) (done ++ fields) := by
  -- the fields written so far stay in front, since no later field has one of their names
  induction fields generalizing done with
  | nil =>
    rw [List.append_nil]
    exact .pure _
  | cons e rest ihRest =>
    obtain ⟨key, v⟩ := e
    have hfresh : key ∉ done.names := Table.not_mem_names_of_nodup once
    have happend : done ++ (key, v) :: rest = done.insert key v ++ rest := by
      rw [Table.insert_of_not_mem hfresh, List.append_assoc, List.singleton_append]
    rw [happend] at once ⊢
    obtain ⟨hkey, unmarked⟩ := List.forall_mem_cons.1 unmarked
    obtain ⟨hv, inside⟩ := List.forall_mem_cons.1 inside
    obtain ⟨ihv, ih⟩ := List.forall_mem_cons.1 ih
    exact evaluateFields_cons_literal hkey hv ihv (ihRest once unmarked inside ih)

/-- A literal value is its own value, with and without recursion. -/
theorem evaluate_literal {v : Value} (h : v.IsLiteral) (recursive : Bool) :
    AtOnce (evaluate engine recursive trail v) v := by
  induction h generalizing recursive with
  | string unmarked =>
    rw [evaluate]
    exact text_literal unmarked
  | array bindings _ ih =>
    rw [evaluate]
    exact .bind (evaluateItems_literal fun v hv => ih v hv recursive) (.pure _)
  | object once unmarked inside ih =>
    rw [evaluate]
    exact .bind (evaluateFields_literal _ once unmarked inside ih) (.pure _)
  | _ =>
    rw [evaluate]
    exact .pure _

/-- A value without markers is its own value: whatever the flags of the properties, the trail and
the state of the run are, evaluating it finishes at once, with the very same value in the very same
state.  Nothing is asked of the engine, so no step is run and no event reported. -/
theorem literal_fixed (engine : Engine) (schema : Schema) (recursive : Bool) (trail : Trail)
    {v : Value} (h : v.IsLiteral) (s : RunState) :
    (evaluate engine recursive trail v).run s = .finished (.ok v) s ∧
    (properties engine schema recursive v).run s = .finished (.ok v) s ∧
    ∀ fields, v = .object fields →
      (evaluateFields engine schema.flags recursive trail fields []).run s =
        .finished (.ok fields) s := by
  have hfields (trail : Trail) (fields : Variables) (hv : v = .object fields) :
      AtOnce (evaluateFields engine schema.flags recursive trail fields []) fields := by
    subst hv
    cases h with
    | object once unmarked inside =>
      exact evaluateFields_literal _ once unmarked inside fun e he recursive =>
        evaluate_literal (inside e he) recursive
  have hvalue (trail : Trail) : AtOnce (evaluate engine recursive trail v) v :=
    evaluate_literal h recursive
  refine ⟨hvalue trail s, ?_, fun fields hv => hfields trail fields hv s⟩
  cases v with
  | object fields => exact AtOnce.bind (hfields [] fields rfl) (.pure (Value.object fields)) s
  | _ => exact hvalue [] s

/-- Text that looks like markers, keys that look like marks, nested steps, an array with base
variables, a lazy value. -/
def nearlyMarked : Variables :=
  [("steps", .string "$x (a) $(b"), ("()", .array [.string "$(a(b(c(d))))", .null]
      (some [("x", .string "$(x)")])), ("<", .lazy (.string "$(x)")), ("a(b)$", .bool true)]

/-- Keys that only look like marked ones, and texts that only look like markers, are literal. -/
theorem nearlyMarked_isLiteral : (Value.object nearlyMarked).IsLiteral := by
  refine .object (by decide) (by decide) fun e he => ?_
  simp only [nearlyMarked, List.mem_cons, List.not_mem_nil, or_false] at he
  obtain rfl | rfl | rfl | rfl := he
  · exact .string (by decide)
  · refine .array _ fun v hv => ?_
    simp only [List.mem_cons, List.not_mem_nil, or_false] at hv
    obtain rfl | rfl := hv
    · exact .string (by decide)
    · exact .null
  · exact .lazy _
  · exact .bool true

/-- All of it is kept in its order, where one of the properties is evaluated once, one is skipped,
and an expression is under way. -/
theorem nearlyMarked_fixed :
    let schema := (Schema.empty.nonRecursive "()").skip "<"
    let s := RunState.start (Scope.empty.put "x" (.string "$(y)"))
    (Value.object nearlyMarked).IsLiteral ∧
      (evaluate Engine.none true ["x"] (.object nearlyMarked)).run s =
        .finished (.ok (.object nearlyMarked)) s ∧
      (properties Engine.none schema true (.object nearlyMarked)).run s =
        .finished (.ok (.object nearlyMarked)) s ∧
      (evaluateFields Engine.none schema.flags true ["x"] nearlyMarked []).run s =
        .finished (.ok nearlyMarked) s := by
  obtain ⟨hvalue, hproperties, hfields⟩ := literal_fixed Engine.none
    ((Schema.empty.nonRecursive "()").skip "<") true ["x"] nearlyMarked_isLiteral
    (RunState.start (Scope.empty.put "x" (.string "$(y)")))
  exact ⟨nearlyMarked_isLiteral, hvalue, hproperties, hfields nearlyMarked rfl⟩

end PropertyEvaluation

end StepScript
