import StepScript.Proofs.Action.Building
import StepScript.Proofs.Run.OneByOne
import StepScript.Proofs.Scope.Layers

/-!
# Pipe — the results of steps, folded from the left

A pipe stores a value in a variable before each of its steps: its input at first, and then the result of
the last step that has passed.  A step that is skipped, or whose failure is ignored, leaves that value as
it is.

* `Performance.piping` is how a pipe goes from step to step, `flow_eq` says that it does so;
* `Performance.Folds` describes the steps that a pipe has started, and what it has come to with them;
* `Catalogue.pipe_build` says which properties a pipe is built from;
* `Performance.pipe_folds` is the main result, from the properties of a pipe to all of its runs, at any
  point that a run comes to.
-/

namespace StepScript

open VariableName (normalize)

namespace Catalogue

/-- The name of the variable of a pipe: the text that is given, or the usual one if there is none. -/
inductive Named (p : Properties) : String → Prop
  | usual : p.get? "variable" = none ∨ p.get? "variable" = some .null → Named p "PIPE"
  | given {name : String} : p.get? "variable" = some (.string name) → Named p name

/-- The list, the variable and the input of a pipe, as they stand among its properties. -/
structure Piped (p : Properties) (steps : StepList) (name : String) (input : Value) : Prop where
  steps : StepList.ofValue ((p.get? "steps").getD .null) = .ok steps
  name : Named p name
  input : input = (p.get? "input").getD .null

/-- The variable of a pipe is the one that the optional property says, or else `PIPE`. -/
theorem named_of_optionalString {p : Properties} {found : Option String}
    (h : p.optionalString "variable" = .ok found) : Named p (found.getD "PIPE") := by
  unfold Properties.optionalString at h
  split at h
  · rename_i hnone
    cases h
    exact .usual (.inl hnone)
  · rename_i hnull
    cases h
    exact .usual (.inr hnull)
  · rename_i name hname
    cases h
    exact .given hname
  · cases h

theorem Named.optionalString {p : Properties} {name : String} (h : Named p name) :
    ∃ found, p.optionalString "variable" = .ok found ∧ found.getD "PIPE" = name := by
  unfold Properties.optionalString
  cases h with
  | usual hnone =>
    rcases hnone with hnone | hnull
    · rw [hnone]
      exact ⟨none, rfl, rfl⟩
    · rw [hnull]
      exact ⟨none, rfl, rfl⟩
  | given hname =>
    rw [hname]
    exact ⟨some name, rfl, rfl⟩

/-- A pipe is built from its list of steps, the name of its variable and its input, and it is built
whenever the list can be read and the name is a text, null or missing. -/
theorem pipe_build : ∃ d, Registry.builtIn.find? "pipe" = some d ∧ ∀ p action,
    d.build p = .ok action ↔
      ∃ steps name input, Piped p steps name input ∧ action = .pipe steps name input := by
  refine ⟨descriptor pipe (Schema.empty.binding "steps"), rfl, fun p action => ?_⟩
  -- what is taken before is another property each time
  have hvariable : (p.erase "steps").optionalString "variable" = p.optionalString "variable" := by
    rw [Properties.optionalString, Properties.optionalString, p.get?_erase (by decide)]
  have hinput : ((p.erase "steps").erase "variable").get? "input" = p.get? "input" := by
    rw [Properties.get?_erase _ (by decide), Properties.get?_erase _ (by decide)]
  constructor
  · intro h
    obtain ⟨rest, h⟩ := descriptor_build_ok h
    obtain ⟨steps, p₁, hsteps, h⟩ := Builder.ok_of_bind h
    obtain ⟨name, p₂, hname, h⟩ := Builder.ok_of_bind h
    obtain ⟨input, p₃, hrest, h⟩ := Builder.ok_of_bind h
    cases hrest
    cases h
    obtain ⟨hlist, rfl⟩ := takeSteps_ok hsteps
    obtain ⟨hfound, rfl⟩ := takeBy_ok hname
    rw [hvariable] at hfound
    rw [hinput]
    exact ⟨steps, _, _, ⟨hlist, named_of_optionalString hfound, rfl⟩, rfl⟩
  · rintro ⟨steps, name, input, hpiped, rfl⟩
    obtain ⟨found, hfound, rfl⟩ := hpiped.name.optionalString
    rw [← hvariable] at hfound
    have hpipe : pipe p = .ok (.pipe steps (found.getD "PIPE") input,
        ((p.erase "steps").erase "variable").erase "input") := by
      unfold pipe
      rw [Builder.bind_of_ok (takeSteps_of_ok hpiped.steps), Builder.bind_of_ok (takeBy_of_ok hfound),
        hpiped.input, ← hinput]
      rfl
    exact descriptor_build_of_ok _ hpipe

end Catalogue

namespace Performance

open ListRun

variable {setup : Setup} {engine : Engine} {number name : String} {bindings : Option Variables}

/-! ## From step to step -/

/-- A pipe goes on with the value of a step that has passed, and keeps the one before it otherwise. -/
def piping (name : String) : Conduct Value Value where
  store v scope := scope.put name v
  next v value? := .ok (value?.getD v)
  close := id

/-- The recursion of a pipe is the walk over its steps one by one, with the current value kept
between them. -/
theorem flow_eq (hstore : engine.store = Attempt.put) (index : Nat) (steps : List Value) (v : Value)
    (s : RunState) :
    (flow engine number name bindings index steps v).run s =
      (piping name).steps engine number bindings index steps v s := by
  induction steps generalizing index v s with
  | nil => rfl
  | cons raw rest ih =>
    unfold flow
    rw [hstore, Attempt.run_bind]
    change ((single engine number bindings index raw >>= _).run ((piping name).prepared v s)) = _
    rw [Attempt.run_bind]
    change _ = ((single engine number bindings index raw).run _).bind _
    congr 1
    funext result t
    cases result with
    | error e => rfl
    | ok value? => exact ih (index + 1) _ t

/-- The result of the last step that has passed, or the input of a pipe. -/
def lastPassed (input : Value) (started : List Started) : Value :=
  (started.filterMap Started.value?).getLast?.getD input

/-- The value of a step that has passed takes the place of the input for the steps behind it. -/
theorem lastPassed_cons (input : Value) (x : Started) (rest : List Started) :
    lastPassed input (x :: rest) = lastPassed (x.value?.getD input) rest := by
  unfold lastPassed
  rw [List.filterMap_cons]
  cases x.value? with
  | none => rfl
  | some v => rw [List.getLast?_cons]; rfl

/-- A pipe keeps the last value that a step has passed on. -/
theorem kept_piping (input : Value) (started : List Started) :
    (piping name).kept input started = .ok (lastPassed input started) := by
  induction started generalizing input with
  | nil => rfl
  | cons x rest ih =>
    rw [Conduct.kept_cons (c := piping name) (b := x.value?.getD input) rfl, ih, lastPassed_cons]

/-! ## The variable -/

/-- Neither the base variables of a list nor the step number take the place of a variable. -/
structure Spares (bindings : Option Variables) (name : String) : Prop where
  bindings : ∀ key ∈ Table.names (bindings.getD []), normalize key ≠ normalize name
  stepNumber : normalize name ≠ normalize Scope.stepNumberName

/-- A variable still has its value when a step starts that it was stored for. -/
theorem get?_entered (h : Spares bindings name) (v : Value) (s : RunState) :
    (entered bindings number ((piping name).prepared v s)).scope.get? name = some v := by
  have hlast : Variables.last? (Variables.spells name) (bindings.getD []) = none :=
    Variables.last?_eq_none_iff.2 fun key hkey => beq_eq_false_iff_ne.2 (h.bindings key hkey)
  -- the base variables and the step number are written over it
  change (((s.scope.put name v).extend (bindings.getD [])).put Scope.stepNumberName _).get? name = _
  rw [Scope.get?_put, if_neg (Ne.symm h.stepNumber), Scope.get?_extend, hlast]
  exact Scope.get?_put_self _ _ _

/-- The variable holds the result of the last earlier step that has passed, when a step starts. -/
theorem Course.get?_start {index : Nat} {steps : List Value} {input : Value} {s : RunState}
    {path : List RunState} {started : List Started} {q : Progress (Except Failure Value)}
    (h : Course setup engine number bindings (piping name) index steps input s path started q)
    (hspares : Spares bindings name) {front back : List Started} {x : Started}
    (hstarted : started = front ++ x :: back) :
    x.start.scope.get? name = some (lastPassed input front) := by
  -- what the pipe keeps at each step is the input of the rest of its course
  induction h generalizing front with
  | done => simp at hstarted
  | pending | failed | decided =>
    cases front with
    | nil =>
      obtain ⟨rfl, -⟩ := List.cons.inj hstarted
      exact get?_entered hspares _ _
    | cons y front => simp at hstarted
  | @next index raw rest v v' s t before path verdict started q hvisit hfailure hnext _ ih =>
    cases front with
    | nil =>
      obtain ⟨rfl, -⟩ := List.cons.inj hstarted
      exact get?_entered hspares v s
    | cons y front =>
      obtain ⟨rfl, hrest⟩ := List.cons.inj hstarted
      rw [ih hrest, lastPassed_cons, ← Except.ok.inj hnext]
      rfl

/-! ## Pipes -/

/-- The steps that a pipe has started, and what it has come to with them. -/
structure Folds (number name : String) (steps : List Value) (input : Value) (started : List Started)
    (q : Progress (Except Failure Value)) : Prop extends Proceeds number steps started q where
  /-- When a step starts, the variable holds the result of the last earlier step that has passed, or
  the input. -/
  holds : ∀ front x back, started = front ++ x :: back →
    x.start.scope.get? name = some (lastPassed input front)
  /-- A step that is skipped, or whose failure is ignored, leaves the variable as it is. -/
  unchanged : ∀ front x y back, started = front ++ x :: y :: back → x.Idles →
    y.start.scope.get? name = x.start.scope.get? name
  /-- The pipe has a result if and only if no failure counts, and that is the result of the last step
  that has passed, or the input. -/
  returns_iff : ∀ v, (∃ t, q = .finished (.ok v) t) ↔
    (∀ x ∈ started, x.Completes) ∧ v = lastPassed input started
  /-- It then has gone through all of its steps. -/
  whole : (∀ x ∈ started, x.Completes) → started.map Started.raw = steps

/-- A pipe that has completed all steps that it has started has gone through its list. -/
theorem result_of_completes {count : Nat} {input : Value} {started : List Started}
    {q : Progress (Except Failure Value)} (h : Stands (piping name) count input started q)
    (hcompletes : ∀ x ∈ started, x.Completes) :
    started.length = count ∧ ∃ t, q = .finished (.ok (lastPassed input started)) t := by
  rcases h.ok_of_completes hcompletes with
    ⟨hcount, b, t, hkept, rfl⟩ | ⟨front, x, b, result, t, -, -, hdecided, -⟩
  · rw [kept_piping] at hkept
    cases hkept
    exact ⟨hcount, t, rfl⟩
  · cases hdecided

/-- A pipe returns exactly if all its steps are complete, with the last value that one has passed
on. -/
theorem returned_iff {count : Nat} {input : Value} {started : List Started}
    {q : Progress (Except Failure Value)} (h : Stands (piping name) count input started q) (v : Value) :
    (∃ t, q = .finished (.ok v) t) ↔
      (∀ x ∈ started, x.Completes) ∧ v = lastPassed input started := by
  constructor
  · rintro ⟨t, rfl⟩
    obtain ⟨-, t', hresult⟩ := result_of_completes h h.completes_of_ok
    cases hresult
    exact ⟨h.completes_of_ok, rfl⟩
  · rintro ⟨hcompletes, rfl⟩
    exact (result_of_completes h hcompletes).2

/-- A step that yields nothing does not change the value of the pipe. -/
theorem lastPassed_append_of_idles {input : Value} {front : List Started} {x : Started}
    (h : x.Idles) : lastPassed input (front ++ [x]) = lastPassed input front := by
  simp [lastPassed, h.value?_eq]

/-- Every point of a run of a pipe is one that the account of it allows. -/
theorem Course.folds {steps : List Value} {input : Value} {s : RunState} {path : List RunState}
    {started : List Started} {q : Progress (Except Failure Value)}
    (h : Course setup engine number bindings (piping name) 0 steps input s path started q)
    (hspares : Spares bindings name) : Folds number name steps input started q where
  toProceeds := h.proceeds
  holds _ _ _ hstarted := h.get?_start hspares hstarted
  unchanged := by
    intro front x y back hstarted hidles
    have hnext : started = (front ++ [x]) ++ y :: back := by simpa using hstarted
    rw [h.get?_start hspares hstarted, h.get?_start hspares hnext, lastPassed_append_of_idles hidles]
  returns_iff := returned_iff h.stands
  whole := by
    intro hcompletes
    rw [h.inOrder, (result_of_completes h.stands hcompletes).1, List.take_length]

/-- A pipe is a fold from the left; whatever stands behind a step whose failure counts makes no
difference. -/
theorem folds_of_leads {steps : StepList} {input : Value} {depth : Nat} {s : RunState}
    {path : List RunState} {q : Progress (Except Failure Value)} (hspares : Spares steps.bindings name)
    (h : ((perform (ListRun.engine setup (depth + 1)) number (.pipe steps name input)).run s).Leads
      path q) :
    ∃ started, Course setup (ListRun.engine setup depth) number steps.bindings (piping name) 0
        steps.steps input s path started q ∧
      Folds number name steps.steps input started q ∧
      ((∃ x ∈ started, ∃ cause, x.failure? = some cause) → ∀ later : List Value,
        ((perform (ListRun.engine setup (depth + 1)) number
          (.pipe ⟨steps.steps.take started.length ++ later, steps.bindings⟩ name input)).run
            s).Leads path q) := by
  change ((flow _ number name steps.bindings 0 steps.steps input).run s).Leads path q at h
  rw [flow_eq rfl] at h
  obtain ⟨started, hcourse⟩ := course_of_leads h
  refine ⟨started, hcourse, hcourse.folds hspares, ?_⟩
  rintro ⟨x, hx, cause, hcause⟩ later
  obtain ⟨t, rfl⟩ := (hcourse.proceeds.fails_iff _).2 ⟨x, hx, cause, hcause, rfl⟩
  change ((flow _ number name steps.bindings 0 _ input).run s).Leads path _
  rw [flow_eq rfl]
  exact (hcourse.unobserved (fun b => nofun) later).leads id

/-- The built-in action `pipe` has the list, the variable and the input of its properties, and it is a
fold from the left, in every run and at any point that it comes to. -/
theorem pipe_folds (setup : Setup) (depth : Nat) (number : String) (p : Properties) :
    ∃ d, Registry.builtIn.find? "pipe" = some d ∧
      (∀ action, d.build p = .ok action ↔
        ∃ steps name input, Catalogue.Piped p steps name input ∧ action = .pipe steps name input) ∧
      ∀ steps name input, Catalogue.Piped p steps name input → Spares steps.bindings name →
        ∀ (s : RunState) (path : List RunState) (q : Progress (Except Failure Value)),
          ((perform (ListRun.engine setup (depth + 1)) number (.pipe steps name input)).run s).Leads
            path q →
          ∃ started, Course setup (ListRun.engine setup depth) number steps.bindings (piping name) 0
              steps.steps input s path started q ∧
            Folds number name steps.steps input started q ∧
            ((∃ x ∈ started, ∃ cause, x.failure? = some cause) → ∀ later : List Value,
              ((perform (ListRun.engine setup (depth + 1)) number
                (.pipe ⟨steps.steps.take started.length ++ later, steps.bindings⟩ name input)).run
                  s).Leads path q) := by
  obtain ⟨d, hfind, hbuild⟩ := Catalogue.pipe_build
  exact ⟨d, hfind, hbuild p, fun _ _ _ _ hspares _ _ _ hleads => folds_of_leads hspares hleads⟩

/-- Four steps of a pipe: one is disabled, and the failure of another one is ignored. -/
def tenfold : List Value :=
  [.object [("echo", Value.ofNat 2)],
    .object [("type", .string "echo"), ("values", .object [("value", Value.ofNat 7)]),
      ("disabled", .bool true)],
    .object [("type", .string "fail"), ("ignoreError", .bool true)],
    .object [("echo", .string "$(PIPE * factor)")]]

def tenfoldBindings : Option Variables :=
  some [("factor", Value.ofNat 10)]

/-- The properties of the pipe; its variable and its input are the usual ones. -/
def tenfoldProperties : Properties where
  fields := [("variable", .null), ("steps", .array tenfold tenfoldBindings)]

def tenfoldRun : Progress (Except Failure Value) :=
  (perform (ListRun.engine (Setup.plain Registry.builtIn) 3) "1"
    (.pipe ⟨tenfold, tenfoldBindings⟩ "PIPE" .null)).run (RunState.start Scope.empty)

def yields (k : Int) : Progress (Except Failure Value) → Bool
  | .finished (.ok (.number (.integer n _ _))) _ => n == k
  | _ => false

/-- The pipe yields twenty, its variable being the usual one and its input null. -/
theorem tenfold_folds :
    Catalogue.Piped tenfoldProperties ⟨tenfold, tenfoldBindings⟩ "PIPE" .null ∧
      Spares tenfoldBindings "PIPE" ∧ yields 20 tenfoldRun = true ∧
      ∃ d started, Registry.builtIn.find? "pipe" = some d ∧
        d.build tenfoldProperties = .ok (.pipe ⟨tenfold, tenfoldBindings⟩ "PIPE" .null) ∧
        Folds "1" "PIPE" tenfold .null started tenfoldRun ∧ started.map Started.raw = tenfold := by
  have hpiped : Catalogue.Piped tenfoldProperties ⟨tenfold, tenfoldBindings⟩ "PIPE" .null :=
    ⟨rfl, .usual (.inr rfl), rfl⟩
  have hspares : Spares tenfoldBindings "PIPE" := ⟨by decide +kernel, by decide +kernel⟩
  have hyields : yields 20 tenfoldRun = true := by decide +kernel
  obtain ⟨d, hfind, hbuild, hruns⟩ := pipe_folds (Setup.plain Registry.builtIn) 2 "1" tenfoldProperties
  obtain ⟨started, -, hfolds, -⟩ := hruns _ _ _ hpiped hspares (RunState.start Scope.empty) []
    tenfoldRun (Progress.leads_nil.2 rfl)
  refine ⟨hpiped, hspares, hyields, d, started, hfind, (hbuild _).2 ⟨_, _, _, hpiped, rfl⟩, hfolds,
    hfolds.whole ?_⟩
  unfold yields at hyields
  split at hyields
  · rename_i t hrun
    exact ((hfolds.returns_iff _).1 ⟨t, hrun⟩).1
  · cases hyields

end Performance

end StepScript
