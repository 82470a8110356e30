import Mathlib.Order.Filter.AtTopBot.Basic
import StepScript.Proofs.Property.CycleGuard

/-!
# Once — evaluation that does not look at its results

Properties can be evaluated once only: then what a marker yields is part of the result as it is, with
all the markers that it may hold.  The marks of a key are another matter.  What a script yields takes
the place of the value that was written, and goes on to what is left of the key, so that it may be
handed over as it is or be evaluated, once, in its turn.  Steps that the marks of a key ask for are
beyond this: they are evaluated as all steps are.

* `PropertyEvaluation.Once` relates a value to what it becomes, with one rule for each kind of value;
* `PropertyEvaluation.OnceField` is about one field and the flags and the marks that it may have;
* `PropertyEvaluation.MeetsSteps` says that an evaluation comes to a key that asks for steps;
* `PropertyEvaluation.properties_once` is the main result.
-/

namespace StepScript

open Filter

variable {α β : Type} {setup : Setup}

/-! ## Work that runs by itself -/

namespace Attempt

variable {s s' : RunState}

/-- Work that runs by itself comes to its end with a value. -/
def Yields (t : Attempt α) (s : RunState) (a : α) (s' : RunState) : Prop :=
  Task.run t.run s = .ok (.ok a, s')

/-- Work that only has a result yields this one and leaves the state. -/
theorem yields_pure {a b : α} : (Pure.pure a : Attempt α).Yields s b s' ↔ b = a ∧ s' = s := by
  constructor
  · intro h
    cases h
    exact ⟨rfl, rfl⟩
  · rintro ⟨rfl, rfl⟩
    rfl

theorem yields_pure_self (a : α) (s : RunState) : (Pure.pure a : Attempt α).Yields s a s :=
  yields_pure.2 ⟨rfl, rfl⟩

/-- Work yields what its second part does, in the state that the first one leaves. -/
theorem yields_bind {t : Attempt α} {next : α → Attempt β} {b : β} :
    (t >>= next).Yields s b s' ↔ ∃ a s₁, t.Yields s a s₁ ∧ (next a).Yields s₁ b s' := by
  unfold Yields Task.run
  rw [run_bind]
  constructor
  · intro h
    obtain ⟨result, s₁, hfirst, hrest⟩ := Progress.complete_bind h
    cases result with
    | ok a => exact ⟨a, s₁, hfirst, hrest⟩
    | error e => cases hrest
  · rintro ⟨a, s₁, hfirst, hrest⟩
    rw [← Progress.endsAmong_alone] at hfirst hrest ⊢
    exact hfirst.bind hrest

/-- An expression yields its value in the scope, and leaves the state. -/
theorem yields_expression {find : Scope → Except ExpressionError Value} {v : Value} :
    (expression find).Yields s v s' ↔ find s.scope = .ok v ∧ s' = s := by
  unfold Yields Task.run
  rw [run_expression_ended, Progress.complete_ended]
  cases h : find s.scope with
  | ok w => simp [expressionOutcome, Except.map, eq_comm]
  | error e => by_cases hcrash : e.isCrash = true <;> simp [expressionOutcome, hcrash, Except.map]

/-- Nothing but a value is the outcome of an expression that has one. -/
theorem expressionOutcome_eq_iff {found : Except ExpressionError Value} {v : Value} :
    expressionOutcome found = .ok (.ok v) ↔ found = .ok v := by
  cases found with
  | ok w => simp [expressionOutcome]
  | error e => by_cases hcrash : e.isCrash = true <;> simp [expressionOutcome, hcrash]

end Attempt

namespace PropertyEvaluation

open Attempt

/-! ## What values become -/

/-- What the marks of a key yield takes the place of the value, unless they ask for steps. -/
inductive Works (σ : Scope) : List KeyWork → Value → Value → Prop
  | none (v : Value) : Works σ [] v v
  | script {code : String} {rest : List KeyWork} {v w : Value} :
      σ.evaluate code = .ok v → Works σ rest v w → Works σ (.script :: rest) (.string code) w
  | given {rest : List KeyWork} {v w : Value} :
      (∀ code, v ≠ .string code) → Works σ rest v w → Works σ (.script :: rest) v w

/-- The value under a key without marks is handed over as it is. -/
def HandsOver : KeyEnd → Value → Prop
  | .raw, _ => True
  | .steps, v => ∀ string, v ≠ .string string
  | .evaluated, _ => False

/-- The marks of a key make a value of another one that is evaluated in its turn. -/
def GoesOn (σ : Scope) (key : String) (v w : Value) : Prop :=
  Works σ (KeyPlan.ofKey key).work v w ∧ ¬ HandsOver (KeyPlan.ofKey key).treatment w

mutual

/-- What a value becomes when it is evaluated once.  A text becomes what its markers yield, and nothing
is done with that. -/
inductive Once (σ : Scope) : Value → Value → Prop
  | text {string : String} {values : List Value} {v : Value} :
      List.Forall₂ (fun m w => σ.evaluate m.code = .ok w) (Marker.find string) values →
      Interpolates string values v → Once σ (.string string) v
  | array {items results : List Value} {bindings : Option Variables} :
      OnceItems σ items results → Once σ (.array items bindings) (.array results bindings)
  | object {fields results : Variables} :
      OnceFields σ (fun _ => .none) fields [] results → Once σ (.object fields) (.object results)
  | null : Once σ .null .null
  | bool (b : Bool) : Once σ (.bool b) (.bool b)
  | number (n : Number) : Once σ (.number n) (.number n)
  | lazy (v : Value) : Once σ (.lazy v) (.lazy v)

/-- What items become, one after the other. -/
inductive OnceItems (σ : Scope) : List Value → List Value → Prop
  | nil : OnceItems σ [] []
  | cons {v w : Value} {rest results : List Value} :
      Once σ v w → OnceItems σ rest results → OnceItems σ (v :: rest) (w :: results)

/-- What fields become, one after the other, written behind those that are done. -/
inductive OnceFields (σ : Scope) : (String → PropertyFlags) → Variables → Variables → Variables → Prop
  | nil (flags : String → PropertyFlags) (done : Variables) : OnceFields σ flags [] done done
  | cons {flags : String → PropertyFlags} {key : String} {v w : Value}
      {rest done results : Variables} :
      OnceField σ flags key v w →
      OnceFields σ flags rest (done.insert (writtenName flags key) w) results →
      OnceFields σ flags ((key, v) :: rest) done results

/-- What the value of a field becomes, by the flags of its key and by the marks. -/
inductive OnceField (σ : Scope) : (String → PropertyFlags) → String → Value → Value → Prop
  | skipped {flags : String → PropertyFlags} {key : String} (v : Value) :
      (flags key).skip = true → OnceField σ flags key v v
  | flagged {flags : String → PropertyFlags} {key : String} {v w : Value} :
      (flags key).skip = false → (flags key).nonRecursive = true → Once σ v w →
      OnceField σ flags key v w
  | handed {flags : String → PropertyFlags} {key : String} {v w : Value} :
      (flags key).skip = false → (flags key).nonRecursive = false →
      Works σ (KeyPlan.ofKey key).work v w → HandsOver (KeyPlan.ofKey key).treatment w →
      OnceField σ flags key v w
  | evaluated {flags : String → PropertyFlags} {key : String} {v w x : Value} :
      (flags key).skip = false → (flags key).nonRecursive = false →
      GoesOn σ key v w → Once σ w x → OnceField σ flags key v x

end

/-- What the properties of an action become: flags are about the fields of the outermost object. -/
inductive OnceProperties (σ : Scope) (schema : Schema) : Value → Value → Prop
  | object {fields results : Variables} :
      OnceFields σ schema.flags fields [] results →
      OnceProperties σ schema (.object fields) (.object results)
  | other {v w : Value} :
      (∀ fields, v ≠ .object fields) → Once σ v w → OnceProperties σ schema v w

def AsksForSteps (key : String) : Prop :=
  ∃ name collect, KeyWork.runSteps name collect ∈ (KeyPlan.ofKey key).work

/-- The evaluation of a value comes to a key that asks for steps, in the value itself or in what a
script has yielded.  The flags are about the fields of the value itself. -/
inductive MeetsSteps (σ : Scope) : (String → PropertyFlags) → Value → Prop
  | item {flags : String → PropertyFlags} {items : List Value} {bindings : Option Variables}
      {v : Value} :
      v ∈ items → MeetsSteps σ (fun _ => .none) v → MeetsSteps σ flags (.array items bindings)
  | flagged {flags : String → PropertyFlags} {fields : Variables} {key : String} {v : Value} :
      (key, v) ∈ fields → (flags key).skip = false → (flags key).nonRecursive = true →
      MeetsSteps σ (fun _ => .none) v → MeetsSteps σ flags (.object fields)
  | asked {flags : String → PropertyFlags} {fields : Variables} {key : String} {v : Value} :
      (key, v) ∈ fields → (flags key).skip = false → (flags key).nonRecursive = false →
      AsksForSteps key → MeetsSteps σ flags (.object fields)
  | evaluated {flags : String → PropertyFlags} {fields : Variables} {key : String} {v w : Value} :
      (key, v) ∈ fields → (flags key).skip = false → (flags key).nonRecursive = false →
      GoesOn σ key v w → MeetsSteps σ (fun _ => .none) w → MeetsSteps σ flags (.object fields)

/-! ## Texts and marks -/

variable {engine : Engine} {trail : Trail} {string code : String} {v w : Value} {s s' : RunState}

/-- Without recursion a marker is the value of its expression, which is not looked at again. -/
theorem marker_once (engine : Engine) (trail : Trail) (code : String) :
    marker engine false trail code = Attempt.expression fun scope => scope.evaluate code :=
  bind_pure _

/-- The markers of a text have the given outcomes at once. -/
theorem markers_ended (htogether : engine.together = Task.together) (trail : Trail) (string : String)
    (s : RunState) :
    engine.together ((Marker.find string).map fun m => (marker engine false trail m.code).run) s =
      Progress.ended s (gather ((Marker.find string).map fun m =>
        expressionOutcome (s.scope.evaluate m.code))) := by
  rw [htogether]
  apply Task.together_ended
  rw [List.forall₂_map_left_iff, List.forall₂_map_right_iff]
  refine List.forall₂_same.2 fun m _ => ?_
  rw [marker_once]
  exact run_expression_ended _ s

/-- The markers of a text have values together exactly if each has one. -/
theorem gather_markers_iff {values : List Value} :
    gather ((Marker.find string).map fun m => expressionOutcome (s.scope.evaluate m.code)) =
        .ok (.ok values) ↔
      List.Forall₂ (fun m v => s.scope.evaluate m.code = .ok v) (Marker.find string) values := by
  rw [gather_eq_values_iff, ← List.forall₂_eq_eq_eq, List.forall₂_map_left_iff,
    List.forall₂_map_right_iff]
  simp only [expressionOutcome_eq_iff]

/-- A text without markers is its own value, with or without recursion. -/
theorem text_unmarked {recursive : Bool} (h : Marker.find string = []) :
    text engine recursive trail string = Pure.pure (.string string) := by
  unfold text
  dsimp only
  rw [← Marker.map_code_find, h]
  rfl

/-- Without recursion the run of a text is settled by the outcomes of its markers. -/
theorem run_text_once (htogether : engine.together = Task.together) (h : Marker.find string ≠ []) :
    Task.run (text engine false trail string).run s =
      (gather ((Marker.find string).map fun m => expressionOutcome (s.scope.evaluate m.code))).map
        fun found => (found.map (assemble (Marker.pieces string)), s) := by
  unfold Task.run
  rw [run_text h s, markers_ended htogether]
  cases gather ((Marker.find string).map fun m => expressionOutcome (s.scope.evaluate m.code)) with
  | ok found => rfl
  | error why => rfl

/-- A text becomes what its markers yield. -/
theorem text_yields (htogether : engine.together = Task.together) :
    (text engine false trail string).Yields s v s' ↔
      Once s.scope (.string string) v ∧ s' = s := by
  by_cases hmarker : Marker.find string = []
  · rw [text_unmarked hmarker, yields_pure]
    constructor
    · rintro ⟨rfl, rfl⟩
      exact ⟨.text (hmarker ▸ .nil) (interpolates_self hmarker), rfl⟩
    · rintro ⟨honce, rfl⟩
      cases honce with
      | text hvalues hv =>
        rw [hmarker] at hvalues
        cases hvalues
        exact ⟨hv.unique (interpolates_self hmarker), rfl⟩
  · unfold Yields
    rw [run_text_once htogether hmarker]
    constructor
    · intro h
      -- there is a value only if all markers have one
      rcases hfound : gather ((Marker.find string).map fun m =>
          expressionOutcome (s.scope.evaluate m.code)) with why | (e | values)
      · rw [hfound] at h
        cases h
      · rw [hfound] at h
        cases h
      · rw [hfound] at h
        cases h
        have hvalues := gather_markers_iff.1 hfound
        exact ⟨.text hvalues (assemble_interpolates hvalues.length_eq), rfl⟩
    · rintro ⟨honce, rfl⟩
      cases honce with
      | text hvalues hv =>
        rw [gather_markers_iff.2 hvalues, hv.unique (assemble_interpolates hvalues.length_eq)]
        rfl

/-- A script is the value of its text. -/
theorem workOnce_script (engine : Engine) (code : String) :
    workOnce engine .script (.string code) = Attempt.expression fun scope => scope.evaluate code :=
  rfl

/-- Anything but a text under the mark of a script stays. -/
theorem workOnce_given (engine : Engine) (hv : ∀ code, v ≠ .string code) :
    workOnce engine .script v = Pure.pure v := by
  cases v with
  | string code => exact absurd rfl (hv code)
  | _ => rfl

/-- The work of a key without steps yields what is described, and changes nothing. -/
theorem workAll_works {work : List KeyWork}
    (hwork : ∀ name collect, KeyWork.runSteps name collect ∉ work)
    (h : (workAll engine work v).Yields s w s') : Works s.scope work v w ∧ s' = s := by
  induction work generalizing v with
  | nil =>
    obtain ⟨rfl, rfl⟩ := yields_pure.1 h
    exact ⟨.none _, rfl⟩
  | cons first rest ih =>
    rw [workAll] at h
    obtain ⟨yielded, t, hfirst, hrest⟩ := yields_bind.1 h
    have hwork' (name : String) (collect : Collect) : KeyWork.runSteps name collect ∉ rest :=
      fun hmem => hwork name collect (List.mem_cons_of_mem _ hmem)
    cases first with
    | runSteps key collect => exact absurd List.mem_cons_self (hwork key collect)
    | script =>
      by_cases hv : ∀ code, v ≠ .string code
      · rw [workOnce_given _ hv, yields_pure] at hfirst
        obtain ⟨rfl, rfl⟩ := hfirst
        obtain ⟨hworks, rfl⟩ := ih hwork' hrest
        exact ⟨.given hv hworks, rfl⟩
      · push Not at hv
        obtain ⟨code, rfl⟩ := hv
        rw [workOnce_script, yields_expression] at hfirst
        obtain ⟨hvalue, rfl⟩ := hfirst
        obtain ⟨hworks, rfl⟩ := ih hwork' hrest
        exact ⟨.script hvalue hworks, rfl⟩

/-- What is described is what the work yields. -/
theorem Works.workAll {work : List KeyWork} (h : Works s.scope work v w) :
    (PropertyEvaluation.workAll engine work v).Yields s w s := by
  induction h with
  | none v => exact yields_pure_self _ _
  | script hvalue _ ih =>
    rw [PropertyEvaluation.workAll, workOnce_script, yields_bind]
    exact ⟨_, _, yields_expression.2 ⟨hvalue, rfl⟩, ih⟩
  | given hv _ ih =>
    rw [PropertyEvaluation.workAll, workOnce_given _ hv, yields_bind]
    exact ⟨_, _, yields_pure_self _ _, ih⟩

/-! ## Evaluation and what values become -/

/-- What the marks of a key yield is evaluated once in its turn. -/
def RestartsOnce (engine : Engine) : Prop :=
  ∀ v s w s', ¬ MeetsSteps s.scope (fun _ => .none) v → (engine.restart false [] v).Yields s w s' →
    Once s.scope v w ∧ s' = s

/-- A value that is handed over is not evaluated. -/
theorem finish_of_handsOver {recursive : Bool} {plan : KeyPlan} (h : HandsOver plan.treatment v) :
    finish engine recursive trail plan v = Pure.pure v := by
  unfold finish
  cases htreatment : plan.treatment with
  | raw => rfl
  | steps =>
    rw [htreatment] at h
    cases v with
    | string string => exact absurd rfl (h string)
    | _ => rfl
  | evaluated =>
    rw [htreatment] at h
    exact h.elim

/-- What is not handed over is evaluated, in its place or as a new value. -/
theorem finish_of_not_handsOver {plan : KeyPlan} (h : ¬ HandsOver plan.treatment v) :
    finish engine false trail plan v =
      if plan.work = [] ∨ plan.treatment = .steps then evaluate engine false trail v
      else engine.restart false trail v := by
  unfold finish
  cases htreatment : plan.treatment with
  | raw =>
    rw [htreatment] at h
    exact absurd trivial h
  | steps =>
    rw [htreatment] at h
    cases v with
    | string string => simp [stepsValue, evaluate]
    | _ => exact absurd (by simp [HandsOver]) h
  | evaluated => simp

/-- With more fields, an evaluation does not come to less. -/
theorem MeetsSteps.mono {σ : Scope} {flags : String → PropertyFlags} {fields others : Variables}
    (h : MeetsSteps σ flags (.object fields)) (hsubset : fields ⊆ others) :
    MeetsSteps σ flags (.object others) := by
  cases h with
  | flagged hmem hskip honce hv => exact .flagged (hsubset hmem) hskip honce hv
  | asked hmem hskip honce hasks => exact .asked (hsubset hmem) hskip honce hasks
  | evaluated hmem hskip honce hgoes hw => exact .evaluated (hsubset hmem) hskip honce hgoes hw

/-- What a field comes to is as described, if that is known of the value in it. -/
theorem onceField_of_fieldValue {depth : Nat} {flags : String → PropertyFlags} {key : String}
    (h : RestartsOnce (ListRun.engine setup depth))
    (hvalue : ∀ {w : Value} {s s' : RunState}, ¬ MeetsSteps s.scope (fun _ => .none) v →
      (evaluate (ListRun.engine setup depth) false [] v).Yields s w s' → Once s.scope v w ∧ s' = s)
    (hmeets : ¬ MeetsSteps s.scope flags (.object [(key, v)]))
    (hend : (fieldValue (ListRun.engine setup depth) flags false [] key v).Yields s w s') :
    OnceField s.scope flags key v w ∧ s' = s := by
  have hmem : (key, v) ∈ [(key, v)] := List.mem_singleton_self _
  unfold fieldValue at hend
  cases hskip : (flags key).skip with
  | true =>
    rw [if_pos hskip, yields_pure] at hend
    obtain ⟨rfl, rfl⟩ := hend
    exact ⟨.skipped w hskip, rfl⟩
  | false =>
    rw [if_neg (by simp [hskip])] at hend
    cases honce : (flags key).nonRecursive with
    | true =>
      rw [if_pos honce] at hend
      obtain ⟨hw, rfl⟩ := hvalue (fun hv => hmeets (.flagged hmem hskip honce hv)) hend
      exact ⟨.flagged hskip honce hw, rfl⟩
    | false =>
      rw [if_neg (by simp [honce])] at hend
      obtain ⟨x, t, hwork, hfinish⟩ := yields_bind.1 hend
      obtain ⟨hworks, rfl⟩ := workAll_works (fun name collect hasks =>
        hmeets (.asked hmem hskip honce ⟨name, collect, hasks⟩)) hwork
      -- what the marks have yielded is handed over, evaluated in place, or evaluated as a new value
      by_cases hhands : HandsOver (KeyPlan.ofKey key).treatment x
      · rw [finish_of_handsOver hhands, yields_pure] at hfinish
        obtain ⟨rfl, rfl⟩ := hfinish
        exact ⟨.handed hskip honce hworks hhands, rfl⟩
      · have hx : ¬ MeetsSteps t.scope (fun _ => .none) x := fun hx =>
          hmeets (.evaluated hmem hskip honce ⟨hworks, hhands⟩ hx)
        suffices hresult : Once t.scope x w ∧ s' = t from
          ⟨.evaluated hskip honce ⟨hworks, hhands⟩ hresult.1, hresult.2⟩
        rw [finish_of_not_handsOver hhands] at hfinish
        split at hfinish
        · rename_i hplace
          rcases hplace with hnone | hsteps
          · rw [hnone] at hworks
            cases hworks
            exact hvalue hx hfinish
          · have htext : ∃ string, x = .string string := by
              rw [hsteps] at hhands
              simpa [HandsOver] using hhands
            obtain ⟨string, rfl⟩ := htext
            exact (text_yields (engine_together setup depth)).1 hfinish
        · exact h _ _ _ _ hx hfinish

mutual

/-- What a value is evaluated to without recursion is as described, as far as no steps are asked
for. -/
theorem once_of_evaluate {depth : Nat} (h : RestartsOnce (ListRun.engine setup depth)) :
    ∀ {v w : Value} {s s' : RunState}, ¬ MeetsSteps s.scope (fun _ => .none) v →
      (evaluate (ListRun.engine setup depth) false [] v).Yields s w s' → Once s.scope v w ∧ s' = s
  | .string _, _, _, _, _, hend => (text_yields (engine_together setup depth)).1 hend
  | .array items _, _, _, _, hmeets, hend => by
    obtain ⟨results, t, hitems, hrest⟩ := yields_bind.1 hend
    obtain ⟨rfl, rfl⟩ := yields_pure.1 hrest
    obtain ⟨honce, rfl⟩ := onceItems_of_evaluate h (fun v hv hmeet => hmeets (.item hv hmeet)) hitems
    exact ⟨.array honce, rfl⟩
  | .object fields, _, _, _, hmeets, hend => by
    obtain ⟨results, t, hfields, hrest⟩ := yields_bind.1 hend
    obtain ⟨rfl, rfl⟩ := yields_pure.1 hrest
    obtain ⟨honce, rfl⟩ := onceFields_of_evaluate h hmeets hfields
    exact ⟨.object honce, rfl⟩
  | .null, _, _, _, _, hend => by
    obtain ⟨rfl, rfl⟩ := yields_pure.1 hend
    exact ⟨.null, rfl⟩
  | .bool b, _, _, _, _, hend => by
    obtain ⟨rfl, rfl⟩ := yields_pure.1 hend
    exact ⟨.bool b, rfl⟩
  | .number n, _, _, _, _, hend => by
    obtain ⟨rfl, rfl⟩ := yields_pure.1 hend
    exact ⟨.number n, rfl⟩
  | .lazy v, _, _, _, _, hend => by
    obtain ⟨rfl, rfl⟩ := yields_pure.1 hend
    exact ⟨.lazy v, rfl⟩

theorem onceItems_of_evaluate {depth : Nat} (h : RestartsOnce (ListRun.engine setup depth)) :
    ∀ {items results : List Value} {s s' : RunState},
      (∀ v ∈ items, ¬ MeetsSteps s.scope (fun _ => .none) v) →
      (evaluateItems (ListRun.engine setup depth) false [] items).Yields s results s' →
        OnceItems s.scope items results ∧ s' = s
  | [], _, _, _, _, hend => by
    obtain ⟨rfl, rfl⟩ := yields_pure.1 hend
    exact ⟨.nil, rfl⟩
  | v :: rest, _, _, _, hmeets, hend => by
    obtain ⟨w, t, hfirst, hend⟩ := yields_bind.1 hend
    obtain ⟨results, u, hrest, hend⟩ := yields_bind.1 hend
    obtain ⟨rfl, rfl⟩ := yields_pure.1 hend
    obtain ⟨honce, rfl⟩ := once_of_evaluate h (hmeets v List.mem_cons_self) hfirst
    obtain ⟨hothers, rfl⟩ := onceItems_of_evaluate h
      (fun v hv => hmeets v (List.mem_cons_of_mem _ hv)) hrest
    exact ⟨.cons honce hothers, rfl⟩

theorem onceFields_of_evaluate {depth : Nat} (h : RestartsOnce (ListRun.engine setup depth)) :
    ∀ {flags : String → PropertyFlags} {fields : List (String × Value)} {done results : Variables}
      {s s' : RunState}, ¬ MeetsSteps s.scope flags (.object fields) →
      (evaluateFields (ListRun.engine setup depth) flags false [] fields done).Yields s results s' →
        OnceFields s.scope flags fields done results ∧ s' = s
  | _, [], _, _, _, _, _, hend => by
    obtain ⟨rfl, rfl⟩ := yields_pure.1 hend
    exact ⟨.nil _ _, rfl⟩
  | flags, (key, v) :: rest, done, results, s, s', hmeets, hend => by
    rw [evaluateFields_cons_eq] at hend
    obtain ⟨w, t, hfield, hrest⟩ := yields_bind.1 hend
    have hvalue {w : Value} {s s' : RunState} (hmeets : ¬ MeetsSteps s.scope (fun _ => .none) v)
        (hend : (evaluate (ListRun.engine setup depth) false [] v).Yields s w s') :
        Once s.scope v w ∧ s' = s := once_of_evaluate h hmeets hend
    obtain ⟨honce, rfl⟩ := onceField_of_fieldValue h hvalue
      (fun hfirst => hmeets (hfirst.mono (List.cons_subset_cons _ (List.nil_subset _)))) hfield
    obtain ⟨hothers, rfl⟩ := onceFields_of_evaluate h
      (fun hlater => hmeets (hlater.mono (List.subset_cons_self _ _))) hrest
    exact ⟨.cons honce hothers, rfl⟩

end

/-- Once there is room for the value of a mark, there is room to go on with it. -/
theorem eventually_restart
    (h : ∀ᶠ depth in atTop, (evaluate (ListRun.engine setup depth) false [] v).Yields s w s') :
    ∀ᶠ depth in atTop, ((ListRun.engine setup depth).restart false [] v).Yields s w s' := by
  obtain ⟨least, hleast⟩ := eventually_atTop.1 h
  filter_upwards [eventually_ge_atTop (least + 1)] with depth hdepth
  cases depth with
  | zero => exact absurd hdepth (Nat.not_succ_le_zero least)
  | succ depth => exact hleast depth (Nat.le_of_succ_le_succ hdepth)

mutual

/-- What is described is what a value is evaluated to, as soon as enough nesting is allowed. -/
theorem Once.evaluate : ∀ {v w : Value}, Once s.scope v w → ∀ᶠ depth in atTop,
    (PropertyEvaluation.evaluate (ListRun.engine setup depth) false [] v).Yields s w s
  | .string string, _, h =>
    Eventually.of_forall fun depth => (text_yields (engine_together setup depth)).2 ⟨h, rfl⟩
  | _, _, .array hitems => by
    filter_upwards [hitems.evaluate] with depth hitems
    exact yields_bind.2 ⟨_, _, hitems, yields_pure_self _ _⟩
  | _, _, .object hfields => by
    filter_upwards [hfields.evaluate] with depth hfields
    exact yields_bind.2 ⟨_, _, hfields, yields_pure_self _ _⟩
  | _, _, .null => Eventually.of_forall fun _ => yields_pure_self _ _
  | _, _, .bool _ => Eventually.of_forall fun _ => yields_pure_self _ _
  | _, _, .number _ => Eventually.of_forall fun _ => yields_pure_self _ _
  | _, _, .lazy _ => Eventually.of_forall fun _ => yields_pure_self _ _

theorem OnceItems.evaluate : ∀ {items results : List Value}, OnceItems s.scope items results →
    ∀ᶠ depth in atTop, (evaluateItems (ListRun.engine setup depth) false [] items).Yields s results s
  | _, _, .nil => Eventually.of_forall fun _ => yields_pure_self _ _
  | _, _, .cons hv hrest => by
    filter_upwards [hv.evaluate, hrest.evaluate] with depth hv hrest
    exact yields_bind.2 ⟨_, _, hv, yields_bind.2 ⟨_, _, hrest, yields_pure_self _ _⟩⟩

theorem OnceFields.evaluate : ∀ {flags : String → PropertyFlags} {fields done results : Variables},
    OnceFields s.scope flags fields done results → ∀ᶠ depth in atTop,
      (evaluateFields (ListRun.engine setup depth) flags false [] fields done).Yields s results s
  | _, _, _, _, .nil _ _ => Eventually.of_forall fun _ => yields_pure_self _ _
  | _, _, _, _, .cons hfield hrest => by
    filter_upwards [hfield.fieldValue, hrest.evaluate] with depth hfield hrest
    rw [evaluateFields_cons_eq]
    exact yields_bind.2 ⟨_, _, hfield, hrest⟩

/-- What is described of a field is what its value becomes, its own evaluation needing one more
level than that of what its marks yield. -/
theorem OnceField.fieldValue : ∀ {flags : String → PropertyFlags} {key : String} {v w : Value},
    OnceField s.scope flags key v w → ∀ᶠ depth in atTop,
      (PropertyEvaluation.fieldValue (ListRun.engine setup depth) flags false [] key v).Yields s w s
  | _, _, _, _, .skipped _ hskip =>
    Eventually.of_forall fun depth => by
      rw [PropertyEvaluation.fieldValue, if_pos hskip]
      exact yields_pure_self _ _
  | _, _, _, _, .flagged hskip honce hv => by
    filter_upwards [hv.evaluate] with depth hv
    rw [PropertyEvaluation.fieldValue, if_neg (by simp [hskip]), if_pos honce]
    exact hv
  | _, _, _, _, .handed hskip honce hwork hhands =>
    Eventually.of_forall fun depth => by
      rw [PropertyEvaluation.fieldValue, if_neg (by simp [hskip]), if_neg (by simp [honce])]
      refine yields_bind.2 ⟨_, _, hwork.workAll, ?_⟩
      rw [finish_of_handsOver hhands]
      exact yields_pure_self _ _
  | _, _, _, _, .evaluated hskip honce hgoes hx => by
    filter_upwards [hx.evaluate, eventually_restart hx.evaluate] with depth hx hagain
    rw [PropertyEvaluation.fieldValue, if_neg (by simp [hskip]), if_neg (by simp [honce])]
    refine yields_bind.2 ⟨_, _, hgoes.1.workAll, ?_⟩
    rw [finish_of_not_handsOver hgoes.2]
    split
    · exact hx
    · exact hagain

end

/-- The engine evaluates once what the marks of a key yield, at every depth. -/
theorem restartsOnce (setup : Setup) (depth : Nat) : RestartsOnce (ListRun.engine setup depth) := by
  induction depth with
  | zero =>
    intro v s w s' _ hend
    cases hend
  | succ depth ih => exact fun _ _ _ _ hmeets hend => once_of_evaluate ih hmeets hend

/-- Properties without a schema are evaluated as a value is. -/
theorem properties_empty (engine : Engine) (recursive : Bool) (v : Value) :
    properties engine Schema.empty recursive v = evaluate engine recursive [] v := by
  have hflags : Schema.empty.flags = fun _ => PropertyFlags.none := rfl
  unfold properties
  cases v with
  | object fields => rw [hflags, evaluate]
  | _ => rfl

/-- Flags are about the fields of an object. -/
theorem MeetsSteps.of_not_object {σ : Scope} {flags others : String → PropertyFlags}
    (h : MeetsSteps σ flags v) (hv : ∀ fields, v ≠ .object fields) : MeetsSteps σ others v := by
  cases h with
  | item hmem h => exact .item hmem h
  | _ => exact absurd rfl (hv _)

/-- An evaluation of properties ends as described and in no other way, where no steps are asked
for. -/
theorem properties_once_iff (setup : Setup) (schema : Schema) (v w : Value) (s s' : RunState)
    (hmeets : ¬ MeetsSteps s.scope schema.flags v) :
    (∃ depth, EndsWith (ListRun.engine setup depth) schema false v s (.ok w) s') ↔
      OnceProperties s.scope schema v w ∧ s' = s := by
  constructor
  · rintro ⟨depth, hend⟩
    have hend : (properties (ListRun.engine setup depth) schema false v).Yields s w s' := hend
    have hother (hv : ∀ fields, v ≠ .object fields)
        (hend : (evaluate (ListRun.engine setup depth) false [] v).Yields s w s') :
        OnceProperties s.scope schema v w ∧ s' = s := by
      obtain ⟨honce, rfl⟩ := once_of_evaluate (restartsOnce setup depth)
        (fun h => hmeets (h.of_not_object hv)) hend
      exact ⟨.other hv honce, rfl⟩
    unfold properties at hend
    cases v with
    | object fields =>
      obtain ⟨results, t, hfields, hpure⟩ := yields_bind.1 hend
      obtain ⟨rfl, rfl⟩ := yields_pure.1 hpure
      obtain ⟨honce, rfl⟩ := onceFields_of_evaluate (restartsOnce setup depth) hmeets hfields
      exact ⟨.object honce, rfl⟩
    | _ => exact hother (by simp) hend
  · rintro ⟨h, rfl⟩
    cases h with
    | object hfields =>
      obtain ⟨depth, hfields⟩ := hfields.evaluate.exists
      exact ⟨depth, yields_bind.2 ⟨_, _, hfields, yields_pure_self _ _⟩⟩
    | other hv honce =>
      obtain ⟨depth, hend⟩ := honce.evaluate.exists
      refine ⟨depth, ?_⟩
      unfold EndsWith properties
      cases v with
      | object fields => exact absurd rfl (hv fields)
      | _ => exact hend

/-- Where no key asks for steps, properties that are evaluated once become what `OnceProperties` says:
what a marker yields is part of the result as it is, and only what a script yields is evaluated, once,
in its turn.  A property that its schema wants to be evaluated once is evaluated in this way whatever the
others are. -/
theorem properties_once (setup : Setup) (schema : Schema) :
    (∀ v s w s', ¬ MeetsSteps s.scope schema.flags v →
      ((∃ depth, EndsWith (ListRun.engine setup depth) schema false v s (.ok w) s') ↔
        OnceProperties s.scope schema v w ∧ s' = s)) ∧
    ∀ engine recursive before key v after,
      (schema.flags key).skip = false → (schema.flags key).nonRecursive = true →
      properties engine schema recursive (.object (before ++ (key, v) :: after)) = (do
        let done ← evaluateFields engine schema.flags recursive [] before []
        let w ← properties engine Schema.empty false v
        let results ← evaluateFields engine schema.flags recursive [] after (done.insert key w)
        return .object results) := by
  refine ⟨fun v s w s' => properties_once_iff setup schema v w s s', ?_⟩
  intro engine recursive before key v after hskip honce
  have hvalue : fieldValue engine schema.flags recursive [] key v =
      properties engine Schema.empty false v := by
    rw [properties_empty, fieldValue, if_neg (by simp [hskip]), if_pos honce]
  have hname : writtenName schema.flags key = key := by simp [writtenName, honce]
  rw [properties, evaluateFields_append]
  simp only [evaluateFields_cons_eq, hvalue, hname, bind_assoc]

def written : RunState :=
  RunState.start (Scope.ofVariables [("v", .string "$(u)"), ("u", .string "x")])

/-- Properties with a marker and a script that yield the same text. -/
def twice : Value :=
  .object [("marker", .string "$(v)"), ("$script", .string "v")]

/-- What the script of the key yields asks for no steps. -/
theorem twice_meets_no_steps : ¬ MeetsSteps written.scope Schema.empty.flags twice := by
  have hmarker : (KeyPlan.ofKey "marker").work = [] := by decide
  have hscript : (KeyPlan.ofKey "$script").work = [.script] := by decide
  have hentry {entry : String × Value}
      (h : entry ∈ [("marker", Value.string "$(v)"), ("$script", Value.string "v")]) :
      entry = ("marker", .string "$(v)") ∨ entry = ("$script", .string "v") := by
    simpa using h
  intro h
  cases h with
  | flagged _ _ honce _ => cases honce
  | asked hmem _ _ hasks =>
    obtain ⟨name, collect, hwork⟩ := hasks
    rcases hentry hmem with heq | heq <;> cases heq
    · simp [hmarker] at hwork
    · simp [hscript] at hwork
  | evaluated hmem _ _ hgoes hw =>
    -- what is evaluated is a text, either the one that is written or the one that the script yields
    obtain ⟨hworks, -⟩ := hgoes
    rcases hentry hmem with heq | heq <;> cases heq
    · rw [hmarker] at hworks
      cases hworks
      cases hw
    · rw [hscript] at hworks
      cases hworks with
      | script hvalue hrest =>
        cases hrest
        cases hvalue
        cases hw
      | given hv _ => exact hv "v" rfl

/-- With room for one more evaluation, the text that the marker yields stays, and the one that the script
yields is evaluated.  Under a schema that wants a property to be evaluated once, only that one stays. -/
theorem written_once :
    ¬ MeetsSteps written.scope Schema.empty.flags twice ∧
    OnceProperties written.scope Schema.empty twice
      (.object [("marker", .string "$(u)"), ("script", .string "x")]) ∧
    ((Schema.empty.nonRecursive "once").flags "once").skip = false ∧
    ((Schema.empty.nonRecursive "once").flags "once").nonRecursive = true ∧
    EndsWith (ListRun.engine (Setup.plain Registry.builtIn) 2) (Schema.empty.nonRecursive "once") true
      (.object [("once", .string "$(v)"), ("again", .string "$(v)")]) written
      (.ok (.object [("once", .string "$(u)"), ("again", .string "x")])) written := by
  have honce := ((properties_once (Setup.plain Registry.builtIn) Schema.empty).1 twice written
    (.object [("marker", .string "$(u)"), ("script", .string "x")]) written
    twice_meets_no_steps).1 ⟨1, rfl⟩
  refine ⟨twice_meets_no_steps, honce.1, by decide, by decide, ?_⟩
  unfold EndsWith
  have hfield := (properties_once (Setup.plain Registry.builtIn) (Schema.empty.nonRecursive "once")).2
    (ListRun.engine (Setup.plain Registry.builtIn) 2) true [] "once" (.string "$(v)")
    [("again", .string "$(v)")] (by decide) (by decide)
  rw [List.nil_append] at hfield
  rw [hfield]
  rfl

/-- What a script yields is evaluated in its turn. -/
theorem script_evaluated_again :
    written.scope.evaluate "v" = .ok (.string "$(u)") ∧
    EndsWith (ListRun.engine (Setup.plain Registry.builtIn) 1) Schema.empty false
      (.object [("$x", .string "v")]) written (.ok (.object [("x", .string "x")])) written ∧
    ¬ ∃ depth s', EndsWith (ListRun.engine (Setup.plain Registry.builtIn) depth) Schema.empty false
      (.object [("$x", .string "v")]) written (.ok (.object [("x", .string "$(u)")])) s' := by
  have hend : EndsWith (ListRun.engine (Setup.plain Registry.builtIn) 1) Schema.empty false
      (.object [("$x", .string "v")]) written (.ok (.object [("x", .string "x")])) written := rfl
  refine ⟨rfl, hend, ?_⟩
  rintro ⟨depth, s', hother⟩
  -- with room for both runs, they come to the same end
  have hroom := hend.of_approximates (ListRun.engine_approximates (Nat.le_max_left 1 depth))
  have hother := hother.of_approximates (ListRun.engine_approximates (Nat.le_max_right 1 depth))
  have hsame := hroom.symm.trans hother
  simp at hsame

end PropertyEvaluation

end StepScript
