import StepScript.Proofs.Run.Keeping
import StepScript.Proofs.Run.Starting

/-!
# Inside — the step number while nested steps are under way

The steps of a nested list have longer numbers than the step that they belong to.  If no action
writes the step number, the scope holds such a longer number from the first nested step on until the
list has ended and the number is put back.

* `Inside` says that the scope holds a longer number;
* `ListRun.sparing` is the engine in which no action writes the step number;
* `ListRun.sparing_startsInside` and `ListRun.run_starts`: what a list starts waits inside of it.
-/

namespace StepScript

variable {setup : Setup} {e : Engine} {outer : String}

/-! ## Step numbers -/

/-- The scope holds a longer number than that of the step outside. -/
def Inside (outer : String) (scope : Scope) : Prop :=
  ∃ inner, scope.stepNumber = some inner ∧ outer.length < inner.length

/-- Inside of a step the scope does not hold the number of that step. -/
theorem Inside.ne {scope : Scope} (h : Inside outer scope) : scope.stepNumber ≠ some outer := by
  rcases h with ⟨inner, hinner, hlength⟩
  intro houter
  rw [hinner] at houter
  rw [Option.some.inj houter] at hlength
  exact absurd hlength (Nat.lt_irrefl _)

namespace Scope

/-- Storing the step number makes it the number of the step under way. -/
theorem stepNumber_put (s : Scope) (v : Value) :
    (s.put stepNumberName v).stepNumber = some v.text := by
  simp [stepNumber]

/-- Storing any other variable leaves the step number. -/
theorem stepNumber_put_of_ne {s : Scope} {name : String} {v : Value}
    (h : VariableName.normalize name ≠ VariableName.normalize stepNumberName) :
    (s.put name v).stepNumber = s.stepNumber := by
  simp [stepNumber, get?_put, h]

theorem get?_of_stepNumber {s : Scope} {number : String} (h : s.stepNumber = some number) :
    ∃ v, s.get? stepNumberName = some v ∧ v.text = number := by
  unfold stepNumber at h
  cases hget : s.get? stepNumberName with
  | none =>
    rw [hget] at h
    cases h
  | some v =>
    rw [hget] at h
    exact ⟨v, rfl, Option.some.inj h⟩

end Scope

/-- A number beneath another one is longer. -/
theorem Under.length_lt {number : String} (h : Under outer number) :
    outer.length < number.length := by
  obtain ⟨mark, -, rest, hnumber⟩ := h
  rw [← String.length_toList, ← String.length_toList, hnumber]
  simp

def Numbering.Exceeds (numbering : Numbering) (outer : String) : Prop :=
  ∀ index, outer.length < (numbering index).length

/-- Numbers that extend a long number are all longer than that of the step outside. -/
theorem Numbering.Extends.exceeds {numbering : Numbering} {number : String}
    (h : numbering.Extends number) (hlength : outer.length ≤ number.length) :
    numbering.Exceeds outer :=
  fun index => Nat.lt_of_le_of_lt hlength (h index).length_lt

/-! ## Engines that spare the step number -/

namespace Engine

/-- Store a variable other than the step number. -/
def spare (name : String) (v : Value) : Attempt Unit :=
  if VariableName.normalize name = VariableName.normalize Scope.stepNumberName then
    Attempt.ofTask (Task.halt .exhausted)
  else Attempt.put name v

/-- Storing but for the step number stays inside. -/
theorem spare_starts (name : String) (v : Value) : (spare name v).Starts (Inside outer) := by
  unfold spare
  by_cases hname : VariableName.normalize name = VariableName.normalize Scope.stepNumberName
  · rw [if_pos hname]
    exact Attempt.ofTask_starts (Task.halt_starts _)
  · rw [if_neg hname]
    refine Attempt.ofTask_starts fun s hs => ⟨rfl, ?_⟩
    rcases hs with ⟨inner, hinner, hlength⟩
    exact ⟨inner, by rw [← hinner]; exact Scope.stepNumber_put_of_ne hname, hlength⟩

/-- The state behind a nested list, where the step number from before it is put back. -/
def resumed (before after : RunState) : RunState :=
  match before.scope.get? Scope.stepNumberName with
  | some v => { after with scope := after.scope.put Scope.stepNumberName v }
  | Option.none => after

/-- Nested running is running the list and putting the step number back. -/
theorem runNested_eq_resumed (e : Engine) (steps : StepList) (numbering : Numbering) (s : RunState) :
    e.runNested steps numbering s =
      (e.runList steps numbering s).bind fun result t => .finished result (resumed s t) := by
  change (e.runList steps numbering s).bind _ = _
  congr 1
  funext result t
  change (restore Scope.stepNumberName (s.scope.get? Scope.stepNumberName) t).bind _ = _
  unfold resumed
  cases s.scope.get? Scope.stepNumberName with
  | some v => rfl
  | none => rfl

/-- An action that runs a list goes on from where the list has ended. -/
theorem runSteps_eq_resumed (e : Engine) (steps : StepList) (numbering : Numbering) (s : RunState) :
    (e.runSteps steps numbering).run s =
      (e.runList steps numbering s).bind fun result t =>
        .finished (result.mapError Failure.run) (resumed s t) := by
  have hnested := runNested_eq_resumed e steps numbering s
  change (e.runNested steps numbering s).bind _ = _
  rw [hnested]
  refine (Progress.bind_assoc _ _ _).trans (congrArg _ ?_)
  funext result t
  cases result with
  | error e => rfl
  | ok results => rfl

/-- A nested list and the number that is put back after it. -/
theorem runNested_eq {steps : StepList} {numbering : Numbering} {s : RunState} {v : Value}
    (h : s.scope.get? Scope.stepNumberName = some v) :
    e.runNested steps numbering s =
      (e.runList steps numbering s).bind fun result t =>
        .finished result { t with scope := t.scope.put Scope.stepNumberName v } := by
  rw [runNested_eq_resumed]
  unfold resumed
  rw [h]

/-- What a nested list starts waits inside of it. -/
theorem runSteps_starts {steps : StepList} {numbering : Numbering}
    (h : (e.runList steps numbering).Starts (Inside outer)) :
    (e.runSteps steps numbering).Starts (Inside outer) := by
  have hnested : (e.runNested steps numbering).Starts (Inside outer) := by
    intro s hs
    rcases hs with ⟨inner, hinner, hlength⟩
    rcases Scope.get?_of_stepNumber hinner with ⟨v, hv, htext⟩
    rw [runNested_eq hv]
    refine (h s ⟨inner, hinner, hlength⟩).bind fun result t hclock _ => ⟨hclock, ?_⟩
    exact ⟨v.text, Scope.stepNumber_put _ v, by rwa [htext]⟩
  refine hnested.bind fun result => ?_
  cases result with
  | ok results => exact Task.pure_starts _
  | error e => exact Task.pure_starts _

/-- Steps for a property are numbered after the step number that they find. -/
theorem run_runAsSteps {s : RunState} {base : String} (h : s.scope.stepNumber = some base)
    (key : String) (collect : Collect) (v : Value) :
    (PropertyEvaluation.runAsSteps e key collect v).run s =
      ExceptT.run (e.marked.runSteps (StepList.oneOrMany v)
        (fun i => base ++ "-" ++ key ++ "-" ++ toString i) >>= fun results =>
          return PropertyEvaluation.kept collect results) s := by
  have hbase : s.scope.stepNumber.getD "" = base := by rw [h]; rfl
  rw [← hbase]
  rfl

/-- A list that a key asks for stays inside if its numbers are long enough. -/
theorem runAsSteps_starts (key : String) (collect : Collect) (v : Value)
    (h : ∀ steps {numbering : Numbering}, numbering.Exceeds outer →
      (e.runMarked steps numbering).Starts (Inside outer)) :
    (PropertyEvaluation.runAsSteps e key collect v).Starts (Inside outer) := by
  intro s hs
  rcases hs with ⟨inner, hinner, hlength⟩
  have hnumbering := (Performance.extends_dash inner key "-").exceeds (Nat.le_of_lt hlength)
  have hsteps := runSteps_starts (e := e.marked) (h (StepList.oneOrMany v) hnumbering)
  rw [run_runAsSteps hinner]
  exact hsteps.bind (fun results => Task.pure_starts _) s ⟨inner, hinner, hlength⟩

end Engine

/-! ## Lists -/

/-- What an engine starts waits inside of the step outside. -/
structure Engine.StartsInside (outer : String) (e : Engine) : Prop where
  related : ∀ trail, Engine.Related
    (Attempt.Lifts (Task.Each fun _ => Task.Starts (Inside outer))) trail fun _ => e
  acts : ∀ {number : String}, outer.length < number.length →
    Engine.Acts (Attempt.Lifts (Task.Each fun _ => Task.Starts (Inside outer))) number fun _ => e

namespace ListRun

/-- Dealing with a step inside stays inside. -/
theorem handle_starts (setup : Setup) (h : e.StartsInside outer) {number : String} (failed : Bool)
    (raw : Value) (hnumber : outer.length < number.length) :
    (handle setup e number failed raw).Starts (Inside outer) :=
  handle_rel (e := fun _ => e) Task.starts_congruence setup failed raw
    fun step descriptor _ => invoke_rel Attempt.starts_congruence.toCongruence
      Attempt.starts_congruence id (h.related []) (h.acts hnumber) step descriptor

/-- Wherever it begins, a visit leads inside of the step outside. -/
theorem visit_starts (h : e.StartsInside outer) (bindings : Option Variables) {number : String}
    (failed : Bool) (raw : Value) (hnumber : outer.length < number.length) (s : RunState) :
    (visit setup e bindings number failed raw s).Starts s.clock (Inside outer) (Inside outer) := by
  have hrest := (handle_starts setup h failed raw hnumber).bind
    (reportEnd_rel Task.starts_congruence number)
  -- the number is stored before anything else happens
  have hentered : Inside outer
      ((s.scope.extend (bindings.getD [])).put Scope.stepNumberName (.string number)) :=
    ⟨number, Scope.stepNumber_put _ _, hnumber⟩
  exact hrest { s with scope := _ } hentered

theorem runFrom_cons_starts (h : e.StartsInside outer) {bindings : Option Variables}
    {numbering : Numbering} (hnumbering : numbering.Exceeds outer) {index : Nat} {raw : Value}
    {rest : List Value} (results : List Value) (failures : List RunFailure)
    (hrest : ∀ results failures,
      (runFrom setup e bindings numbering (index + 1) rest results failures).Starts (Inside outer))
    (s : RunState) :
    (runFrom setup e bindings numbering index (raw :: rest) results failures s).Starts s.clock
      (Inside outer) (Inside outer) := by
  rw [runFrom_cons]
  refine (visit_starts h bindings _ raw (hnumbering index) s).bind fun verdict t hclock ht => ?_
  rw [← hclock]
  cases verdict.aborts with
  | true => exact ⟨rfl, ht⟩
  | false => exact hrest _ _ t ht

/-- A list stays inside of the step that it is nested in, whenever it waits and in the end. -/
theorem runFrom_starts (h : e.StartsInside outer) {bindings : Option Variables}
    {numbering : Numbering} (hnumbering : numbering.Exceeds outer) (index : Nat)
    (steps results : List Value) (failures : List RunFailure) :
    (runFrom setup e bindings numbering index steps results failures).Starts (Inside outer) := by
  induction steps generalizing index results failures with
  | nil => exact Task.pure_starts _
  | cons raw rest ih =>
    exact fun s _ => runFrom_cons_starts h hnumbering results failures (ih (index + 1)) s

/-- Wherever it begins, a list with steps leads inside of the step outside. -/
theorem run_starts (h : e.StartsInside outer) {steps : StepList} {numbering : Numbering}
    (hnumbering : numbering.Exceeds outer) (hsteps : steps.steps ≠ []) (s : RunState) :
    (run setup e steps numbering s).Starts s.clock (Inside outer) (Inside outer) := by
  rcases steps with ⟨items, bindings⟩
  cases items with
  | nil => exact absurd rfl hsteps
  | cons raw rest =>
    exact runFrom_cons_starts h hnumbering [] [] (runFrom_starts h hnumbering 1 rest) s

/-- Evaluating a value inside stays inside. -/
theorem evaluate_starts (h : e.StartsInside outer) (recursive : Bool) (trail : Trail) (v : Value) :
    (PropertyEvaluation.evaluate e recursive trail v).Starts (Inside outer) :=
  PropertyEvaluation.evaluate_rel (e := fun _ => e) Attempt.starts_congruence.toCongruence
    (h.related trail) recursive v

/-! ## The engine that spares the step number -/

theorem startsInside_of_ways
    (hexpand : ∀ trail v, (e.expand trail v).Starts (Inside outer))
    (hrestart : ∀ recursive trail v, (e.restart recursive trail v).Starts (Inside outer))
    (hrun : ∀ steps {numbering : Numbering}, numbering.Exceeds outer →
      (e.runList steps numbering).Starts (Inside outer))
    (hmarked : e.runMarked = e.runList) (htogether : e.together = Task.together)
    (hstore : e.store = Engine.spare) : e.StartsInside outer where
  related trail :=
    { expand := fun code v _ => hexpand (trail ++ [code]) v
      restart := fun recursive v => hrestart recursive trail v
      runAsSteps := fun key collect v =>
        Engine.runAsSteps_starts key collect v (by rwa [hmarked])
      together := by
        intro ts hts
        rw [htogether]
        exact Task.together_starts (List.forall_mem_map.2 hts) }
  acts hnumber :=
    { store := by
        rw [hstore]
        exact Engine.spare_starts
      runSteps := fun steps numbering hextends =>
        Engine.runSteps_starts (hrun steps (hextends.exceeds (Nat.le_of_lt hnumber))) }

/-- The engine of a run in which no action writes the step number. -/
def sparing (setup : Setup) : Nat → Engine
  | 0 => { Engine.none with store := Engine.spare }
  | depth + 1 => level setup Engine.spare (sparing setup depth)

/-- Where no action writes the step number, everything that begins inside of a step stays there. -/
theorem sparing_startsInside (setup : Setup) (outer : String) (depth : Nat) :
    (sparing setup depth).StartsInside outer := by
  induction depth with
  | zero =>
    refine startsInside_of_ways ?_ ?_ ?_ rfl rfl rfl
    · exact fun _ _ => Attempt.ofTask_starts (Task.halt_starts _)
    · exact fun _ _ _ => Attempt.ofTask_starts (Task.halt_starts _)
    · exact fun _ _ _ => Task.halt_starts _
  | succ depth ih =>
    refine startsInside_of_ways ?_ ?_ ?_ rfl rfl rfl
    · exact fun trail v => evaluate_starts ih true trail v
    · exact fun recursive trail v => evaluate_starts ih recursive trail v
    · exact fun steps numbering hnumbering =>
        runFrom_starts ih hnumbering 0 steps.steps [] []

end ListRun

end StepScript
