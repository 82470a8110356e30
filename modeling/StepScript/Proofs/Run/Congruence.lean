import StepScript.Run.List

/-!
# Congruence — relations that runs respect

Evaluation of properties, actions and lists never look inside the `Engine` they are given: they only
put its answers together.  So a relation between tasks that is kept by sequencing and by the few ways
of touching the state is kept by all of them, whatever the engines are.

A relation is between any number of tasks, one for each index of a family.  A property of single
tasks is a relation with one index, and a comparison of two runs one with two.

* `Task.Congruence` and `Attempt.Congruence` list what a relation has to keep;
* `Engine.Related` and `Engine.Acts` are what engines have to answer to the evaluation of properties
  and to actions;
* `PropertyEvaluation.evaluate_rel`, `Performance.perform_rel` and `ListRun.visit_rel` are what
  follows.
-/

namespace StepScript

variable {ι : Type}

/-! ## What a relation has to keep -/

/-- A relation between tasks that results and sequences keep. -/
structure Task.Sequencing (rel : ∀ ⦃α : Type⦄, (ι → Task α) → Prop) : Prop where
  pure : ∀ {α : Type} (a : α), rel fun _ => (Pure.pure a : Task α)
  bind : ∀ {α β : Type} {t : ι → Task α} {f : ι → α → Task β},
    rel t → (∀ a, rel fun i => f i a) → rel fun i => t i >>= f i

/-- A relation between tasks that sequencing keeps. -/
structure Task.Congruence (rel : ∀ ⦃α : Type⦄, (ι → Task α) → Prop) : Prop where
  pure : ∀ {α : Type} (a : α), rel fun _ => (Pure.pure a : Task α)
  bind : ∀ {α β : Type} {t : ι → Task α} {f : ι → α → Task β},
    rel t → (∀ a, rel fun i => f i a) → rel fun i => t i >>= f i
  state : rel fun _ => Task.state
  halt : ∀ {α : Type} (why : Halt), rel fun _ => (Task.halt why : Task α)

theorem Task.Congruence.sequencing {rel : ∀ ⦃α : Type⦄, (ι → Task α) → Prop}
    (C : Task.Congruence rel) : Task.Sequencing rel :=
  ⟨C.pure, C.bind⟩

/-- A relation between tasks that the reports of a list keep. -/
structure Task.ReportingCongruence (rel : ∀ ⦃α : Type⦄, (ι → Task α) → Prop) : Prop
    extends Task.Congruence rel where
  report : ∀ event : Event, rel fun _ => Task.report event

/-- A relation between tasks that changes of the scope keep. -/
structure Task.UpdatingCongruence (rel : ∀ ⦃α : Type⦄, (ι → Task α) → Prop) : Prop
    extends Task.Congruence rel where
  updateScope : ∀ change : Scope → Scope, rel fun _ => Task.updateScope change

namespace Attempt

/-- A relation between attempts that the evaluation of properties keeps. -/
structure Congruence (rel : ∀ ⦃α : Type⦄, (ι → Attempt α) → Prop) : Prop where
  pure : ∀ {α : Type} (a : α), rel fun _ => (Pure.pure a : Attempt α)
  fail : ∀ {α : Type} (e : Failure), rel fun _ => (throw e : Attempt α)
  bind : ∀ {α β : Type} {t : ι → Attempt α} {f : ι → α → Attempt β},
    rel t → (∀ a, rel fun i => f i a) → rel fun i => t i >>= f i
  expression : ∀ find : Scope → Except ExpressionError Value,
    rel fun _ => Attempt.expression find

/-- A relation between attempts that the running of actions keeps. -/
structure ActingCongruence (rel : ∀ ⦃α : Type⦄, (ι → Attempt α) → Prop) : Prop
    extends Congruence rel where
  during : ∀ {α : Type} {t : ι → Attempt α} (circumstance : Circumstance),
    rel t → rel fun i => Attempt.during circumstance (t i)
  sleep : ∀ milliseconds : Nat, rel fun _ => ofTask (Task.sleep milliseconds)

def Lifts (rel : ∀ ⦃α : Type⦄, (ι → Task α) → Prop) ⦃α : Type⦄ (t : ι → Attempt α) : Prop :=
  rel fun i => (t i).run

section Lifts

variable {rel : ∀ ⦃α : Type⦄, (ι → Task α) → Prop} {α β : Type}

/-- Work that cannot fail is related where its tasks are. -/
theorem ofTask_lifts (C : Task.Congruence rel) {t : ι → Task α} (h : rel t) :
    Lifts rel fun i => ofTask (t i) :=
  C.bind h fun _ => C.pure _

/-- Work that goes on after a success is related where both parts are. -/
theorem lifts_bind (C : Task.Congruence rel) {t : ι → Attempt α} {f : ι → α → Attempt β}
    (h : Lifts rel t) (hf : ∀ a, Lifts rel fun i => f i a) : Lifts rel fun i => t i >>= f i := by
  refine C.bind h fun result => ?_
  cases result with
  | ok a => exact hf a
  | error e => exact C.pure _

theorem expression_lifts (C : Task.Congruence rel) (find : Scope → Except ExpressionError Value) :
    Lifts rel fun _ => Attempt.expression find := by
  refine lifts_bind C (ofTask_lifts C C.state) fun s => ?_
  cases find s.scope with
  | ok v => exact C.pure _
  | error e =>
    dsimp only
    by_cases hcrash : e.isCrash = true
    · simp only [hcrash, if_true]
      exact ofTask_lifts C (C.halt _)
    · simp only [hcrash]
      exact C.pure _

/-- Telling what was going on keeps a relation. -/
theorem during_lifts (C : Task.Congruence rel) {t : ι → Attempt α} (circumstance : Circumstance)
    (h : Lifts rel t) : Lifts rel fun i => Attempt.during circumstance (t i) := by
  refine C.bind h fun result => ?_
  cases result with
  | ok a => exact C.pure _
  | error e => exact C.pure _

/-- A relation that tasks keep is one that attempts keep. -/
theorem lifts_congruence (C : Task.Congruence rel) : Congruence (Lifts rel) where
  pure _ := C.pure _
  fail _ := C.pure _
  bind := lifts_bind C
  expression := expression_lifts C

/-- A relation that sleeping keeps is one that actions keep. -/
theorem lifts_actingCongruence (C : Task.Congruence rel)
    (hsleep : ∀ milliseconds, rel fun _ => Task.sleep milliseconds) :
    ActingCongruence (Lifts rel) where
  toCongruence := lifts_congruence C
  during := during_lifts C
  sleep _ := ofTask_lifts C (hsleep _)

end Lifts

end Attempt

variable {rel : ∀ ⦃α : Type⦄, (ι → Attempt α) → Prop} {e : ι → Engine} {trail : Trail}

/-- Engines that answer the evaluation of properties under some trail in related ways.  A text on
the trail is never expanded. -/
structure Engine.Related (rel : ∀ ⦃α : Type⦄, (ι → Attempt α) → Prop) (trail : Trail)
    (e : ι → Engine) : Prop where
  expand : ∀ code v, code ∉ trail → rel fun i => (e i).expand (trail ++ [code]) v
  restart : ∀ recursive v, rel fun i => (e i).restart recursive trail v
  runAsSteps : ∀ key collect v, rel fun i => PropertyEvaluation.runAsSteps (e i) key collect v
  together : ∀ ts : List (ι → Attempt Value), (∀ t ∈ ts, rel t) →
    rel fun i => ExceptT.mk ((e i).together (ts.map fun t => (t i).run))

/-- The number of a step that is run for another one goes on behind the number of that one. -/
def Under (outer number : String) : Prop :=
  ∃ mark ∈ ['.', '-'], ∃ rest : List Char, number.toList = outer.toList ++ mark :: rest

/-- Numbers that begin with that of a step and go on. -/
def Numbering.Extends (numbering : Numbering) (number : String) : Prop :=
  ∀ index, Under number (numbering index)

/-- Engines that answer the actions of a step in related ways. -/
structure Engine.Acts (rel : ∀ ⦃α : Type⦄, (ι → Attempt α) → Prop) (number : String)
    (e : ι → Engine) : Prop where
  store : ∀ name v, rel fun i => (e i).store name v
  runSteps : ∀ steps {numbering : Numbering}, numbering.Extends number →
    rel fun i => (e i).runSteps steps numbering

/-! ## Evaluation of properties -/

namespace PropertyEvaluation

section

variable (C : Attempt.Congruence rel) (h : Engine.Related rel trail e)

include C h

/-- A marker is related under engines that expand in related ways. -/
theorem marker_rel (recursive : Bool) (code : String) :
    rel fun i => marker (e i) recursive trail code := by
  refine C.bind (C.expression _) fun v => ?_
  by_cases hexpand : (recursive && !trail.contains code) = true
  · -- a text on the trail is not expanded again
    have hcode : code ∉ trail := by simpa using (Bool.and_eq_true_iff.1 hexpand).2
    simp only [hexpand, if_true]
    exact h.expand code v hcode
  · simp only [hexpand]
    exact C.pure _

/-- A text is related if its markers are. -/
theorem text_rel (recursive : Bool) (s : String) : rel fun i => text (e i) recursive trail s := by
  unfold text
  dsimp only
  cases Marker.codes (Marker.pieces s) with
  | nil => exact C.pure _
  | cons code rest =>
    refine C.bind ?_ fun values => C.pure _
    have hmarkers := h.together ((code :: rest).map fun code i => marker (e i) recursive trail code)
      (List.forall_mem_map.2 fun code _ => marker_rel C h recursive code)
    simpa [Function.comp_def] using hmarkers

/-- The work of a mark is related under engines that run marked lists in related ways. -/
theorem workOnce_rel (work : KeyWork) (v : Value) : rel fun i => workOnce (e i) work v := by
  cases work with
  | runSteps key collect => exact h.runAsSteps key collect v
  | script =>
    unfold workOnce
    cases v with
    | string code => exact C.expression fun s => s.evaluate code
    | _ => exact C.pure _

theorem workAll_rel (work : List KeyWork) (v : Value) : rel fun i => workAll (e i) work v := by
  induction work generalizing v with
  | nil => exact C.pure v
  | cons first rest ih => exact C.bind (workOnce_rel C h first v) fun v => ih v

theorem stepsValue_rel (v : Value) : rel fun i => stepsValue (e i) trail v := by
  unfold stepsValue
  cases v with
  | string s => exact text_rel C h false s
  | _ => exact C.pure _

end

mutual

/-- The value of a value is related, by recursion on its structure. -/
theorem evaluate_rel (C : Attempt.Congruence rel) (h : Engine.Related rel trail e)
    (recursive : Bool) : ∀ v : Value, rel fun i => evaluate (e i) recursive trail v
  | .string s => text_rel C h recursive s
  | .array items _ => C.bind (evaluateItems_rel C h recursive items) fun _ => C.pure _
  | .object fields => C.bind (evaluateFields_rel C h _ recursive fields []) fun _ => C.pure _
  | .null => C.pure _
  | .bool _ => C.pure _
  | .number _ => C.pure _
  | .lazy _ => C.pure _

theorem evaluateItems_rel (C : Attempt.Congruence rel) (h : Engine.Related rel trail e)
    (recursive : Bool) :
    ∀ items : List Value, rel fun i => evaluateItems (e i) recursive trail items
  | [] => C.pure _
  | v :: rest =>
    C.bind (evaluate_rel C h recursive v) fun _ =>
      C.bind (evaluateItems_rel C h recursive rest) fun _ => C.pure _

theorem evaluateFields_rel (C : Attempt.Congruence rel) (h : Engine.Related rel trail e)
    (flags : String → PropertyFlags) (recursive : Bool) :
    ∀ (fields : List (String × Value)) (done : Variables),
      rel fun i => evaluateFields (e i) flags recursive trail fields done
  | [], _ => C.pure _
  | (key, v) :: rest, done => by
    simp only [evaluateFields]
    refine C.bind ?_ fun entry => evaluateFields_rel C h flags recursive rest _
    by_cases hskip : (flags key).skip = true
    · simpa [hskip] using C.pure _
    · by_cases honce : (flags key).nonRecursive = true
      · simpa [hskip, honce] using C.bind (evaluate_rel C h false v) fun _ => C.pure _
      · simp only [hskip, honce, Bool.false_eq_true, if_false]
        rcases KeyPlan.ofKey key with ⟨work, treatment, name⟩
        cases treatment with
        | raw => exact C.bind (workAll_rel C h work v) fun _ => C.pure _
        | steps =>
          exact C.bind (workAll_rel C h work v) fun v =>
            C.bind (stepsValue_rel C h v) fun _ => C.pure _
        | evaluated =>
          cases work with
          | nil => exact C.bind (evaluate_rel C h recursive v) fun _ => C.pure _
          | cons first others =>
            exact C.bind (workAll_rel C h (first :: others) v) fun v =>
              C.bind (h.restart recursive v) fun _ => C.pure _

end

/-- The properties of an action are evaluated under an empty trail. -/
theorem properties_rel (C : Attempt.Congruence rel) (h : Engine.Related rel [] e) (schema : Schema)
    (recursive : Bool) (v : Value) : rel fun i => properties (e i) schema recursive v := by
  unfold properties
  cases v with
  | object fields =>
    exact C.bind (evaluateFields_rel C h schema.flags recursive fields []) fun _ => C.pure _
  | _ => exact evaluate_rel C h recursive _

end PropertyEvaluation

/-! ## Actions -/

namespace Performance

/-- Looking at a condition asks the engine for nothing. -/
theorem verdict_rel (C : Attempt.ActingCongruence rel) (condition : Value) :
    rel fun _ => verdict condition := by
  unfold verdict
  cases condition with
  | string code =>
    dsimp only
    split
    · exact C.pure _
    · exact C.bind (C.during _ (C.expression fun s => s.evaluate code)) fun _ => C.pure _
  | _ => exact C.pure _

theorem extends_dot (number : String) (index : Nat → Nat) :
    Numbering.Extends (fun i => number ++ "." ++ toString (index i)) number :=
  fun i => ⟨'.', by simp, (toString (index i)).toList, by simp⟩

theorem extends_dash (number word mark : String) :
    Numbering.Extends (fun i => number ++ "-" ++ word ++ mark ++ toString i) number :=
  fun i => ⟨'-', by simp, (word ++ mark ++ toString i).toList, by simp⟩

variable {number : String} (C : Attempt.ActingCongruence rel) (h : Engine.Acts rel number e)

include C h

/-- A step that is run by itself is related under engines that run lists in related ways. -/
theorem single_rel (bindings : Option Variables) (index : Nat) (step : Value) :
    rel fun i => single (e i) number bindings index step :=
  C.bind (h.runSteps _ (extends_dot number fun _ => index)) fun _ => C.pure _

theorem rounds_rel (kind : LoopKind) (steps : StepList) (round : Nat)
    (entries : List (Value × Value)) :
    rel fun i => rounds (e i) number kind steps round entries := by
  induction entries generalizing round with
  | nil => exact C.pure _
  | cons entry rest ih =>
    refine C.bind (h.store _ _) fun _ => C.bind (h.store _ _) fun _ => ?_
    have hrun := h.runSteps steps (extends_dash number (toString round) ".")
    refine C.bind (C.during _ hrun) fun results => ?_
    exact C.bind (ih (round + 1)) fun _ => C.pure _

theorem flow_rel (name : String) (bindings : Option Variables) (index : Nat)
    (steps : List Value) (current : Value) :
    rel fun i => flow (e i) number name bindings index steps current := by
  induction steps generalizing index current with
  | nil => exact C.pure _
  | cons step rest ih =>
    refine C.bind (h.store _ _) fun _ => ?_
    exact C.bind (single_rel C h bindings index step) fun _ => ih _ _

theorem decide_rel (deciding : Bool) (bindings : Option Variables) (index : Nat)
    (steps : List Value) :
    rel fun i => decide (e i) number deciding bindings index steps := by
  induction steps generalizing index with
  | nil => exact C.pure _
  | cons step rest ih =>
    refine C.bind (single_rel C h bindings index step) fun result => ?_
    cases result with
    | none => exact ih _
    | some v =>
      by_cases hdecided : (v.isTruthy == deciding) = true
      · simp only [hdecided, if_true]
        exact C.pure _
      · simp only [hdecided]
        exact ih _

/-- Every action of the library is related under engines that answer it in related ways. -/
theorem perform_rel (action : Action) : rel fun i => perform (e i) number action := by
  cases action with
  | setVariable name v => exact C.bind (h.store name v) fun _ => C.pure _
  | getVariable path => exact C.expression fun s => s.lookup path
  | echo v => exact C.pure v
  | check v expected message =>
    by_cases hholds : holds v expected = true
    · simp only [perform, hholds, if_true]
      exact C.pure _
    · simp only [perform, hholds]
      exact C.fail _
  | fail message => exact C.fail _
  | log level message => exact C.pure message
  | sleep milliseconds => exact C.bind (C.sleep milliseconds) fun _ => C.pure _
  | branch condition yes no =>
    refine C.bind (verdict_rel C condition) fun taken => ?_
    have hrun := h.runSteps (if taken then yes else no)
      (extends_dash number (if taken then "then" else "else") "-")
    cases taken with
    | true => exact C.bind hrun fun _ => C.pure _
    | false => exact C.bind hrun fun _ => C.pure _
  | loop kind entries steps =>
    exact C.bind (rounds_rel C h kind steps 0 entries) fun _ => C.pure _
  | runSteps steps =>
    exact C.bind (h.runSteps steps (extends_dot number id)) fun _ => C.pure _
  | pipe steps name input => exact flow_rel C h name steps.bindings 0 steps.steps input
  | junction deciding steps =>
    exact C.bind (decide_rel C h deciding steps.bindings 0 steps.steps) fun _ => C.pure _
  | leaf result =>
    cases result with
    | ok v => exact C.pure v
    | error e => exact C.fail e

end Performance

namespace Engine

variable {R : ∀ ⦃α : Type⦄, (ι → Task α) → Prop}

theorem restore_rel (C : Task.UpdatingCongruence R) (name : String) (saved : Option Value) :
    R fun _ => restore name saved := by
  cases saved with
  | none => exact C.bind C.state fun _ => C.pure _
  | some v => exact C.updateScope fun s => s.put name v

/-- Running a list for an action is related where running the list is. -/
theorem runSteps_rel (C : Task.UpdatingCongruence R) {steps : StepList} {numbering : Numbering}
    (h : R fun i => (e i).runList steps numbering) :
    Attempt.Lifts R fun i => (e i).runSteps steps numbering := by
  have hnested : R fun i => (e i).runNested steps numbering :=
    C.bind C.state fun before => C.bind h fun result =>
      C.bind (restore_rel C _ _) fun _ => C.pure _
  refine C.bind hnested fun result => ?_
  cases result with
  | ok results => exact C.pure _
  | error e => exact C.pure _

/-- Steps for a property are run by a list, whatever it is numbered after. -/
theorem runAsSteps_rel (C : Task.UpdatingCongruence R)
    (h : ∀ steps {number : String} {numbering : Numbering}, numbering.Extends number →
      R fun i => (e i).runMarked steps numbering)
    (key : String) (collect : Collect) (v : Value) :
    Attempt.Lifts R fun i => PropertyEvaluation.runAsSteps (e i) key collect v :=
  Attempt.lifts_bind C.toCongruence (Attempt.ofTask_lifts C.toCongruence C.state) fun _ =>
    Attempt.lifts_bind C.toCongruence
      (runSteps_rel (e := fun i => (e i).marked) C (h _ (Performance.extends_dash _ key "-")))
      fun _ => C.pure _

end Engine

/-! ## Steps -/

namespace ListRun

variable {rel' : ∀ ⦃α : Type⦄, (ι → Attempt α) → Prop} {number : String}

theorem conditionHolds_rel (C : Attempt.ActingCongruence rel) (step : Step) :
    rel fun _ => conditionHolds step := by
  unfold conditionHolds
  cases step.condition with
  | none => exact C.pure _
  | some code =>
    exact C.bind (C.during _ (C.expression fun s => s.evaluate code)) fun _ => C.pure _

section

variable {A : Type} [ActionType A]

/-- The properties of a step may keep a finer relation than the step itself. -/
theorem invoke_rel_of_perform (C : Attempt.Congruence rel) (D : Attempt.ActingCongruence rel')
    (hle : ∀ {α : Type} {t : ι → Attempt α}, rel t → rel' t) (h : Engine.Related rel [] e)
    (step : Step) {descriptor : Descriptor A}
    (hperform : ∀ {p action}, descriptor.build p = .ok action →
      rel' fun i => (ActionType.any action).perform (e i) number step) :
    rel' fun i => invoke (e i) number step descriptor := by
  refine D.bind (conditionHolds_rel D step) fun holds => ?_
  cases holds with
  | false => exact D.pure _
  | true =>
    have hproperties := PropertyEvaluation.properties_rel C h descriptor.schema true step.values
    refine D.bind (D.during _ (hle hproperties)) fun values => ?_
    cases Properties.ofValue values with
    | error e => exact D.fail _
    | ok p =>
      dsimp only
      cases hbuild : descriptor.build p with
      | error cause => exact D.fail cause
      | ok action =>
        have hrun := D.bind (hperform hbuild) fun v => D.pure (some v)
        exact hrun

end

/-- A step of known type is related if evaluating its properties and performing its action are. -/
theorem invoke_rel (C : Attempt.Congruence rel) (D : Attempt.ActingCongruence rel')
    (hle : ∀ {α : Type} {t : ι → Attempt α}, rel t → rel' t) (h : Engine.Related rel [] e)
    (hacts : Engine.Acts rel' number e) (step : Step) (descriptor : Descriptor) :
    rel' fun i => invoke (e i) number step descriptor :=
  invoke_rel_of_perform C D hle h step fun {_ action} _ => Performance.perform_rel D hacts action

/-! ## Lists -/

variable {R : ∀ ⦃α : Type⦄, (ι → Task α) → Prop} {A : Type} {setup : Setup A}

theorem prepare_rel (C : Task.ReportingCongruence R) (number : String) (raw : Value) :
    R fun _ => prepare setup number raw := by
  unfold prepare
  cases Shorthand.expand setup.registry raw with
  | error reason => exact C.pure _
  | ok raw => exact C.bind C.state fun s => C.bind (C.report _) fun _ => C.pure _

/-- A raw step whose short form can be expanded is announced and read. -/
theorem prepare_of_expand_ok {number : String} {raw expanded : Value} {s : RunState}
    (h : Shorthand.expand setup.registry raw = .ok expanded) :
    prepare setup number raw s = .finished (read setup number expanded)
      { s with log := .before number expanded s.clock :: s.log } := by
  unfold prepare
  rw [h]
  rfl

/-- One whose short form cannot be is not announced. -/
theorem prepare_of_expand_error {number : String} {raw : Value} {reason : StepError} {s : RunState}
    (h : Shorthand.expand setup.registry raw = .error reason) :
    prepare setup number raw s = .finished (.error (.invalid number (.step reason))) s := by
  unfold prepare
  rw [h]
  rfl

variable [ActionType A]

/-- What becomes of a raw step depends on what it is read as. -/
theorem handle_of_prepare {engine : Engine} {number : String} {failed : Bool} {raw : Value}
    {s t : RunState} {prepared : Except RunFailure Step}
    (h : prepare setup number raw s = .finished prepared t) :
    handle setup engine number failed raw s =
      conclude setup engine number failed raw prepared t := by
  change (prepare setup number raw s).bind _ = _
  rw [h]
  rfl

/-- A step that runs to a status has ended with it. -/
theorem conclude_of_execute {engine : Engine} {number : String} {failed : Bool} {raw : Value}
    {step : Step} {status : StepStatus}
    (h : execute setup engine number failed step = Pure.pure (.ok status)) :
    conclude setup engine number failed raw (.ok step) = Pure.pure (.ended step status) := by
  change execute setup engine number failed step >>= _ = _
  rw [h]
  rfl

/-- Skipping or running a step is related if running it is, for every type that the registry
knows. -/
theorem execute_rel (C : Task.Sequencing R) {failed : Bool} {step : Step}
    (hinvoke : ∀ descriptor, setup.registry.find? step.type = some descriptor →
      Attempt.Lifts R fun i => invoke (e i) number step descriptor) :
    R fun i => execute setup (e i) number failed step := by
  unfold execute
  by_cases hdisabled : step.disabled = true
  · simp only [hdisabled, if_true]
    exact C.pure _
  · by_cases hfailed : (failed && !step.runOnFailure) = true
    · simp only [hdisabled, hfailed, if_true]
      exact C.pure _
    · simp only [hdisabled, hfailed]
      cases hfind : setup.registry.find? step.type with
      | none => exact C.pure _
      | some descriptor => exact C.bind (hinvoke descriptor hfind) fun _ => C.pure _

theorem conclude_rel (C : Task.Sequencing R) (setup : Setup A) (failed : Bool) (raw : Value)
    (hinvoke : ∀ step descriptor, setup.registry.find? step.type = some descriptor →
      Attempt.Lifts R fun i => invoke (e i) number step descriptor)
    (prepared : Except RunFailure Step) :
    R fun i => conclude setup (e i) number failed raw prepared := by
  cases prepared with
  | error cause =>
    by_cases hdisabled : (Step.placeholder raw).disabled = true
    · simp only [conclude, hdisabled, if_true]
      exact C.pure _
    · simp only [conclude, hdisabled]
      exact C.pure _
  | ok step =>
    refine C.bind (execute_rel C (hinvoke step)) fun result => ?_
    cases result with
    | error cause => exact C.pure _
    | ok status => exact C.pure _

/-- Dealing with a raw step is related if running it is. -/
theorem handle_rel (C : Task.ReportingCongruence R) (setup : Setup A) (failed : Bool) (raw : Value)
    (hinvoke : ∀ step descriptor, setup.registry.find? step.type = some descriptor →
      Attempt.Lifts R fun i => invoke (e i) number step descriptor) :
    R fun i => handle setup (e i) number failed raw :=
  C.bind (prepare_rel C number raw) fun prepared =>
    conclude_rel C.toCongruence.sequencing setup failed raw hinvoke prepared

theorem reportEnd_rel (C : Task.ReportingCongruence R) (number : String) (verdict : Verdict) :
    R fun _ => (do
      reportEnd number verdict.step verdict.status
      return verdict : Task Verdict) :=
  C.bind (C.bind C.state fun _ => C.report _) fun _ => C.pure _

/-- A visit is related if running its step is. -/
theorem visit_rel (C : Task.ReportingCongruence R) (D : Task.UpdatingCongruence R)
    (setup : Setup A) (bindings : Option Variables) (failed : Bool) (raw : Value)
    (hinvoke : ∀ step descriptor, setup.registry.find? step.type = some descriptor →
      Attempt.Lifts R fun i => invoke (e i) number step descriptor) :
    R fun i => visit setup (e i) bindings number failed raw :=
  C.bind (D.updateScope _) fun _ =>
    C.bind (handle_rel C setup failed raw hinvoke) fun verdict => reportEnd_rel C number verdict

namespace Verdict

def value? : Verdict → Option Value
  | .ended _ (.passed v) => some v
  | _ => none

/-- The failure that a step adds to those of its list. -/
def failure? (number : String) : Verdict → Option RunFailure
  | .aborted _ cause => some cause
  | .ended step (.failed cause false) => some (.failed number step.displayName cause)
  | .ended _ _ => none

def aborts : Verdict → Bool
  | .aborted _ _ => true
  | .ended _ _ => false

end Verdict

/-- With what its first step adds, a list is over or goes on. -/
theorem runFrom_cons (engine : Engine) (bindings : Option Variables) (numbering : Numbering)
    (index : Nat) (raw : Value) (rest results : List Value) (failures : List RunFailure) :
    runFrom setup engine bindings numbering index (raw :: rest) results failures =
      visit setup engine bindings (numbering index) (!failures.isEmpty) raw >>= fun verdict =>
        let failures := failures ++ (verdict.failure? (numbering index)).toList
        if verdict.aborts then return .error (RunFailure.collect failures)
        else
          runFrom setup engine bindings numbering (index + 1) rest
            (results ++ verdict.value?.toList) failures := by
  rw [runFrom]
  refine congrArg (visit setup engine bindings (numbering index) _ raw >>= ·) ?_
  funext verdict
  cases verdict with
  | aborted step cause => rfl
  | ended step status =>
    cases status with
    | passed v => simp [Verdict.value?, Verdict.failure?, Verdict.aborts]
    | skipped reason => simp [Verdict.value?, Verdict.failure?, Verdict.aborts]
    | failed cause ignored =>
      cases ignored with
      | true => simp [Verdict.value?, Verdict.failure?, Verdict.aborts]
      | false => simp [Verdict.value?, Verdict.failure?, Verdict.aborts]

/-- A list is related if its visits are. -/
theorem runFrom_rel (C : Task.Sequencing R) {bindings : Option Variables} {numbering : Numbering}
    (hvisit : ∀ index failed raw,
      R fun i => visit setup (e i) bindings (numbering index) failed raw)
    (index : Nat) (steps results : List Value) (failures : List RunFailure) :
    R fun i => runFrom setup (e i) bindings numbering index steps results failures := by
  induction steps generalizing index results failures with
  | nil => exact C.pure _
  | cons raw rest ih =>
    simp only [runFrom_cons]
    refine C.bind (hvisit _ _ _) fun verdict => ?_
    cases verdict.aborts with
    | true => exact C.pure _
    | false => exact ih _ _ _

end ListRun

end StepScript
