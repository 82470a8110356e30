import StepScript.Action.Catalogue
import StepScript.Proofs.Run.Approximation
import StepScript.Proofs.Run.Outcome
import StepScript.Proofs.Run.Turns

/-!
# Base number — the step that nested steps are numbered after

Steps that are run for a property are numbered after the step number that the scope holds when they
begin, and after them the step number is put back.  The markers of one string share the scope, so a
marker that waits in the middle of nested steps leaves their number to those behind it.

Two engines tell when this goes wrong.  Under `ListRun.numbered` a list for a property has to begin
at the step that the string belongs to.  Under `ListRun.inTurns` the markers of a string take turns.
In both of them no action writes the step number.

* `PropertyEvaluation.numbered_iff_inTurns`: nested steps are numbered after the step and the step
  number is put back exactly if the markers of the string take turns;
* `PropertyEvaluation.intruding_misnumbered`: a marker that waits, and a step that is numbered after
  the step on which it waits.
-/

namespace StepScript

variable {α β ε : Type} {setup : Setup} {number : String}

/-! ## Approximations and ends -/

/-- Where a run ends, one that moves in step with it does. -/
theorem Progress.ends_of_settles {frame : Unit} {p p' : Progress α} {a : α} {s' : RunState}
    (h : Progress.Settles Accounting.approximation (fun _ => True) frame p p')
    (hends : p.Ends a s') : p'.Ends a s' := by
  induction h with
  | finished _ _ => exact hends
  | waiting _ _ _ ih =>
    cases hends with
    | waiting hlog hresume => exact .waiting hlog (ih _ () trivial hresume)
  | halted => exact hends
  | cut _ => cases hends

/-- Where an approximation ends, the approximated run ends likewise. -/
theorem Progress.Approximates.ends {p p' : Progress α} (h : p.Approximates p') {a : α}
    {s' : RunState} (hends : p.Ends a s') : p'.Ends a s' :=
  ends_of_settles (h 0) hends

namespace ListRun

/-! ## Engines in which no action writes the step number -/

/-- Storing a variable other than the step number reports nothing. -/
theorem spare_keeps {M : Type} [AddCommMonoid M] {A : Accounting M} {W : M → Prop} (name : String)
    (v : Value) : Attempt.Keeps A W (Engine.spare name v) (Engine.spare name v) := by
  unfold Engine.spare
  split
  · exact Attempt.ofTask_keeps (Task.halt_keeps _)
  · exact Attempt.put_keeps name v

/-- Storing but for the step number approximates storing. -/
theorem spare_approximates {W : Unit → Prop} (name : String) (v : Value) :
    Attempt.Keeps Accounting.approximation W (Engine.spare name v) (Attempt.put name v) := by
  unfold Engine.spare
  split
  · exact fun _ _ _ => .cut trivial
  · exact Attempt.put_keeps name v

/-- Under an engine that spares the step number nothing is taken off the log. -/
theorem sparing_grows (setup : Setup) (depth : Nat) : (sparing setup depth).Grows := by
  intro base
  induction depth with
  | zero => exact none_keeps spare_keeps
  | succ depth ih => exact level_keeps (visits_grow base) spare_keeps ih

/-- A run in which no action writes the step number goes as the real one does. -/
theorem sparing_approximates (setup : Setup) (depth : Nat) :
    (sparing setup depth).Approximates (engine setup depth) := by
  induction depth with
  | zero => exact none_keeps spare_approximates
  | succ depth ih => exact level_keeps visits_approximate spare_approximates ih

/-- A list with steps that ends at once has reported something. -/
theorem log_lt_of_run {depth : Nat} {steps : StepList} {numbering : Numbering} {s t : RunState}
    {result : Except RunFailure (List Value)} (hsteps : steps.steps ≠ [])
    (h : run setup (sparing setup depth) steps numbering s = .finished result t) :
    s.log.length < t.log.length := by
  have hends : (run setup (sparing setup depth) steps numbering s).Ends result t := by
    rw [h]
    exact .finished _ _
  rcases runFrom_walk hends with ⟨visits, hwalk, -⟩
  rcases hwalk.reports (sparing_grows setup depth) with ⟨new, hlog, hreports⟩
  have hvisits : visits ≠ [] := by
    rcases steps with ⟨items, bindings⟩
    cases hwalk with
    | done => exact absurd rfl hsteps
    | aborted _ => simp
    | next _ _ => simp
  have hpos := List.length_pos_of_ne_nil hvisits
  have hle := hreports.length_le
  rw [hlog, List.length_append]
  simp only [List.length_reverse, List.length_map] at hle
  omega

/-! ## Lists for a property -/

theorem run_nil {e : Engine} {steps : StepList} {numbering : Numbering} (h : steps.steps = [])
    (s : RunState) : run setup e steps numbering s = .finished (.ok []) s := by
  rcases steps with ⟨items, bindings⟩
  cases h
  rfl

/-- A list that has to begin at the step of some number, unless it has no steps. -/
def runAt (setup : Setup) (number : String) (engine : Engine) (steps : StepList)
    (numbering : Numbering) : Task (Except RunFailure (List Value)) := fun s =>
  if steps.steps.isEmpty || s.scope.stepNumber == some number then
    run setup engine steps numbering s
  else .halted .exhausted

/-- A list that begins at the step runs as any list does. -/
theorem runAt_of_atStep {e : Engine} {steps : StepList} {numbering : Numbering} {s : RunState}
    (h : AtStep number s.scope) :
    runAt setup number e steps numbering s = run setup e steps numbering s := by
  have hat : s.scope.stepNumber = some number := h
  simp [runAt, hat]

theorem runAt_nil {e : Engine} {steps : StepList} {numbering : Numbering} (h : steps.steps = [])
    (s : RunState) : runAt setup number e steps numbering s = .finished (.ok []) s := by
  have hrun : run setup e steps numbering s = .finished (.ok []) s := run_nil h s
  simp [runAt, h, hrun]

/-- A list with steps that begins inside of the step is cut short. -/
theorem runAt_of_inside {e : Engine} {steps : StepList} {numbering : Numbering} {s : RunState}
    (hsteps : steps.steps ≠ []) (h : Inside number s.scope) :
    runAt setup number e steps numbering s = .halted .exhausted := by
  have hne := h.ne
  simp [runAt, hsteps, hne]

end ListRun

namespace Progress

variable {count clock : Nat} {W F : Scope → Prop} {p : Progress α} {f : α → Except ε β}
  {change : RunState → RunState}

/-- Work that ends with putting the step number back is exact, whatever has happened before. -/
theorem exact_of_change (hchange : ∀ t, AtStep number (change t).scope) (p : Progress α) :
    Exact number (p.bind fun a t => .finished (f a) (change t))
      (p.bind fun a t => .finished (f a) (change t)) := by
  induction p with
  | finished a t => exact .finished (hchange t)
  | waiting due order s resume ih => exact .waiting ih
  | halted why => exact .lost (.halted why)

/-- Work that waits inside of the step and puts the number back. -/
theorem Starts.begins (h : p.Starts clock (Inside number) F)
    (hchange : ∀ t, AtStep number (change t).scope) (hclock : ∀ t, (change t).clock = t.clock) :
    Begins number clock (p.bind fun a t => .finished (f a) (change t))
      (p.bind fun a t => .finished (f a) (change t)) := by
  cases p with
  | finished a t => exact .finished ((hclock t).trans h.1) (hchange t)
  | waiting due order s resume =>
    exact .waiting h.1 h.2.2 h.2.1 fun now => exact_of_change hchange (resume now)
  | halted why => exact .lost (.halted why)

/-- Work that reports something. -/
theorem Starts.intrudes (h : p.Starts clock (Inside number) (Inside number))
    (hlog : ∀ a t, p = .finished a t → count < t.log.length) (why : Halt) :
    Intrudes number clock count p (.halted why) := by
  cases p with
  | finished a t => exact .loud h.1 (hlog a t rfl) h.2
  | waiting due order s resume => exact .waiting h.1 h.2.2 h.2.1
  | halted _ => exact .halted

end Progress

namespace Engine

variable {e e' : Engine} {steps : StepList} {numbering : Numbering} {s : RunState} {v : Value}

/-- The state in which a nested list leaves the step that it belongs to. -/
def backAt (v : Value) (s : RunState) : RunState :=
  { s with scope := s.scope.put Scope.stepNumberName v }

/-- Running a list for an action puts the step number back behind it. -/
theorem run_runSteps (h : s.scope.get? Scope.stepNumberName = some v) :
    (e.runSteps steps numbering).run s =
      (e.runList steps numbering s).bind fun result t =>
        .finished (result.mapError Failure.run) (backAt v t) := by
  rw [runSteps_eq_resumed]
  unfold resumed
  rw [h]
  rfl

/-- A list that may begin everywhere and one that has to begin at the step. -/
theorem runSteps_exact {depth : Nat}
    (hrun : e.runList steps numbering =
      ListRun.run setup (ListRun.sparing setup depth) steps numbering)
    (hrunAt : e'.runList steps numbering =
      ListRun.runAt setup number (ListRun.sparing setup depth) steps numbering)
    (hnumbering : numbering.Exceeds number) :
    Attempt.Exact number (e.runSteps steps numbering) (e'.runSteps steps numbering) := by
  have hinside := ListRun.sparing_startsInside setup number depth
  constructor
  · -- from the step, the list may begin
    intro s hs
    rcases Scope.get?_of_stepNumber hs with ⟨v, hv, htext⟩
    have hback : ∀ t, AtStep number (backAt v t).scope := by
      intro t
      rw [← htext]
      exact Scope.stepNumber_put _ v
    rw [run_runSteps hv, run_runSteps hv, hrun, hrunAt, ListRun.runAt_of_atStep hs]
    by_cases hsteps : steps.steps = []
    · rw [ListRun.run_nil hsteps]
      exact .finished rfl (hback s)
    · exact (ListRun.run_starts hinside hnumbering hsteps s).begins hback fun _ => rfl
  · -- from inside of the step, it may not, unless it has no steps
    intro s hs
    rcases hs with ⟨inner, hinner, hlength⟩
    rcases Scope.get?_of_stepNumber hinner with ⟨v, hv, rfl⟩
    have hback : ∀ t, Inside number (backAt v t).scope :=
      fun t => ⟨v.text, Scope.stepNumber_put _ v, hlength⟩
    have hlist : Progress.Intrudes number s.clock s.log.length
        (ListRun.run setup (ListRun.sparing setup depth) steps numbering s)
        (ListRun.runAt setup number (ListRun.sparing setup depth) steps numbering s) := by
      by_cases hsteps : steps.steps = []
      · rw [ListRun.run_nil hsteps, ListRun.runAt_nil hsteps]
        exact .quiet rfl rfl ⟨_, hinner, hlength⟩
      · rw [ListRun.runAt_of_inside hsteps ⟨_, hinner, hlength⟩]
        refine (ListRun.run_starts hinside hnumbering hsteps s).intrudes ?_ _
        exact fun result t hrun => ListRun.log_lt_of_run hsteps hrun
    rw [run_runSteps hv, run_runSteps hv, hrun, hrunAt]
    exact hlist.bind fun result t _ => .quiet rfl rfl (hback t)

/-- The list that a property asks for goes on from the step exactly where it begins at it. -/
theorem runAsSteps_exact (setup : Setup) (depth : Nat)
    (hrun : e.runMarked = ListRun.run setup (ListRun.sparing setup depth))
    (hrunAt : e'.runMarked = ListRun.runAt setup number (ListRun.sparing setup depth)) (key : String)
    (collect : Collect) (v : Value) :
    Attempt.Exact number (PropertyEvaluation.runAsSteps e key collect v)
      (PropertyEvaluation.runAsSteps e' key collect v) := by
  have hsteps (base : String) (hbase : number.length ≤ base.length) :
      Attempt.Exact number
        (e.marked.runSteps (StepList.oneOrMany v) fun i => base ++ "-" ++ key ++ "-" ++ toString i)
        (e'.marked.runSteps (StepList.oneOrMany v) fun i => base ++ "-" ++ key ++ "-" ++ toString i) := by
    have hnumbering := (Performance.extends_dash base key "-").exceeds hbase
    exact runSteps_exact (congrFun₂ hrun _ _) (congrFun₂ hrunAt _ _) hnumbering
  have hkept (results : List Value) : Attempt.Exact number
      (Pure.pure (PropertyEvaluation.kept collect results) : Attempt Value)
      (Pure.pure (PropertyEvaluation.kept collect results)) :=
    Task.pure_exact _
  constructor
  · intro s hs
    rw [run_runAsSteps hs, run_runAsSteps hs]
    exact ((hsteps number (Nat.le_refl _)).bind hkept).begins s hs
  · intro s hs
    rcases hs with ⟨inner, hinner, hlength⟩
    rw [run_runAsSteps hinner, run_runAsSteps hinner]
    exact ((hsteps inner (Nat.le_of_lt hlength)).bind hkept).intrudes s ⟨inner, hinner, hlength⟩

end Engine

namespace ListRun

/-! ## Engines for the string of a step -/

/-- An engine for the markers of a string, with a way of moving side by side and one of running a
list for a property, whose actions write no step number. -/
def marking (setup : Setup)
    (together : List (Task (Except Failure Value)) → Task (Except Failure (List Value)))
    (list : Engine → StepList → Numbering → Task (Except RunFailure (List Value))) : Nat → Engine
  | 0 => { Engine.none with together := together, store := Engine.spare }
  | depth + 1 =>
    let inner := marking setup together list depth
    { expand := PropertyEvaluation.evaluate inner true
      restart := PropertyEvaluation.evaluate inner
      runList := list (sparing setup depth)
      together := together
      store := Engine.spare }

/-- The engine under which the markers of a string take turns. -/
def inTurns (setup : Setup) : Nat → Engine :=
  marking setup Task.turns (run setup)

/-- The engine under which the lists for a property begin at a step. -/
def numbered (setup : Setup) (number : String) : Nat → Engine :=
  marking setup Task.together (runAt setup number)

/-- The engine under which markers take turns is exactly the one under which lists begin at their
step. -/
theorem inTurns_exact (setup : Setup) (number : String) (depth : Nat) :
    ∀ trail, Engine.Related (Attempt.Exacts number) trail
      (Engine.pair (inTurns setup depth) (numbered setup number depth)) := by
  have htogether (ts : List (Bool → Attempt Value)) (hts : ∀ t ∈ ts, Attempt.Exacts number t) :
      Attempt.Exact number (ExceptT.mk (Task.turns (ts.map fun t => (t false).run)))
        (ExceptT.mk (Task.together (ts.map fun t => (t true).run))) := by
    refine Task.turns_exact ?_
    rw [List.forall₂_map_left_iff, List.forall₂_map_right_iff]
    exact List.forall₂_same.2 hts
  induction depth with
  | zero =>
    exact fun _ =>
      { expand := fun _ _ _ => Attempt.halt_exact _
        restart := fun _ _ => Attempt.halt_exact _
        runAsSteps := fun _ _ _ => ⟨fun _ _ => .lost (.halted _), fun _ _ => .halted⟩
        together := htogether }
  | succ depth ih =>
    have hevaluate (trail : Trail) (recursive : Bool) (v : Value) :=
      PropertyEvaluation.evaluate_rel Attempt.exacts_congruence (ih trail) recursive v
    exact fun trail =>
      { expand := fun code v _ => hevaluate (trail ++ [code]) true v
        restart := hevaluate trail
        runAsSteps := Engine.runAsSteps_exact setup depth rfl rfl
        together := htogether }

/-- The engine under which lists begin at their step approximates the real one. -/
theorem numbered_approximates (setup : Setup) (number : String) (depth : Nat) :
    (numbered setup number depth).Approximates (engine setup depth) := by
  induction depth with
  | zero => exact none_keeps spare_approximates
  | succ depth ih =>
    have hlist (steps : StepList) (numbering : Numbering) :
        Task.Keeps Accounting.approximation Accounting.approximation.outstanding
          ((numbered setup number (depth + 1)).runList steps numbering)
          ((engine setup (depth + 1)).runList steps numbering) := by
      intro s frame hs
      change Progress.Settles _ _ _ (if _ then _ else _) _
      split
      · exact run_keeps visits_approximate (sparing_approximates setup depth) steps numbering s frame hs
      · exact .cut trivial
    exact
      { expand := evaluate_keeps ih true
        restart := evaluate_keeps ih
        runList := hlist
        runMarked := hlist
        together := Task.together_keeps
        store := spare_approximates }

end ListRun

namespace PropertyEvaluation

/-- The markers of a string of a step are evaluated with all nested steps numbered after the step,
and with its number put back in the end, exactly if they take turns. -/
theorem numbered_iff_inTurns (setup : Setup) (depth : Nat) (number : String) (recursive : Bool)
    (trail : Trail) (string : String) (s : RunState) (hs : s.scope.stepNumber = some number)
    (result : Except Failure Value) (s' : RunState) :
    (((text (ListRun.numbered setup number depth) recursive trail string).run s).Ends result s' ∧
        s'.scope.stepNumber = some number ↔
      ((text (ListRun.inTurns setup depth) recursive trail string).run s).Ends result s') ∧
    (((text (ListRun.numbered setup number depth) recursive trail string).run s).Ends result s' →
      ((text (ListRun.engine setup depth) recursive trail string).run s).Ends result s') := by
  constructor
  · have hexact : Attempt.Exact number (text (ListRun.inTurns setup depth) recursive trail string)
        (text (ListRun.numbered setup number depth) recursive trail string) :=
      text_rel Attempt.exacts_congruence (ListRun.inTurns_exact setup number depth trail) recursive
        string
    exact (hexact.begins s hs).exact.ends_iff.symm
  · intro hends
    have hkeeps := ListRun.text_keeps (ListRun.numbered_approximates setup number depth) recursive
      trail string
    exact (Task.Keeps.approximates hkeeps s).ends hends

/-- A scope of step 1 in which one variable waits inside a nested step and another one has a
value. -/
def besideSlow (v : Value) : RunState :=
  RunState.start (Scope.ofVariables
    [(Scope.stepNumberName, .string "1"),
      ("slow", .object [("(a)", .object [("sleep", .string "1")])]), ("fast", v)])

/-- Two markers, one of which waits in a nested step, leave the step number as it was, since the
other one has no steps. -/
theorem waiting_numbered :
    ∃ result s', (besideSlow (.string "x")).scope.stepNumber = some "1" ∧
      ((text (ListRun.numbered (Setup.plain Registry.builtIn) "1" 3) true []
        "$(slow)$(fast)").run (besideSlow (.string "x"))).Ends result s' ∧
      s'.scope.stepNumber = some "1" := by
  have hrun : (match Task.run (text (ListRun.inTurns (Setup.plain Registry.builtIn) 3) true []
        "$(slow)$(fast)").run (besideSlow (.string "x")) with
      | .ok (_, s') => s'.scope.stepNumber == some "1"
      | .error _ => false) = true := by decide +kernel
  split at hrun
  · rename_i result s' h
    have hends := Progress.ends_of_complete h
    have hturns := numbered_iff_inTurns (Setup.plain Registry.builtIn) 3 "1" true []
      "$(slow)$(fast)" (besideSlow (.string "x")) rfl result s'
    exact ⟨result, s', rfl, hturns.1.2 hends⟩
  · cases hrun

/-- The second marker runs a step while the first one waits inside the step `1-a-0`. -/
theorem intruding_misnumbered :
    ∃ result s', Task.run (text (ListRun.engine (Setup.plain Registry.builtIn) 3) true []
        "$(slow)$(fast)").run
        (besideSlow (.object [("(b)", .object [("echo", .string "x")])])) = .ok (result, s') ∧
      s'.events.map Event.number = ["1-a-0", "1-a-0-b-0", "1-a-0-b-0", "1-a-0"] := by
  have hrun : (match Task.run (text (ListRun.engine (Setup.plain Registry.builtIn) 3) true []
        "$(slow)$(fast)").run
        (besideSlow (.object [("(b)", .object [("echo", .string "x")])])) with
      | .ok (_, s') => s'.events.map Event.number == ["1-a-0", "1-a-0-b-0", "1-a-0-b-0", "1-a-0"]
      | .error _ => false) = true := by decide +kernel
  split at hrun
  · rename_i result s' h
    exact ⟨result, s', h, by simpa using hrun⟩
  · cases hrun

end PropertyEvaluation

end StepScript
