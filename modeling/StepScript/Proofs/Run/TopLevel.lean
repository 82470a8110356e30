import StepScript.Proofs.Run.Numbering
import StepScript.Proofs.Run.Outcome
import StepScript.Proofs.Run.Selection

/-!
# TopLevel — the reports on the steps of a test among all reports

Every list that is run for a step gives its own steps numbers with a mark, whatever it is run for.  So
a number without marks is that of a step of the test, and what such reports tell can be read off the
log of the whole run, however much was run in between and side by side.  Actions from outside choose
their numbers themselves, and have to nest them as the other actions do.

* `Registry.Nests`: whatever an action from outside runs is numbered beneath its step;
* `ListRun.engine_hidden`: whatever an engine runs reports no step of the test;
* `ListRun.runFrom_reports`: the reports on the steps of the test are those of the visits that the
  outcome of the test adds up.
-/

namespace StepScript

variable {A : Type} [ActionType A] {setup : Setup A} {e : Engine} {number : String}

/-! ## Numbers without marks -/

/-- The number of a step of a test. -/
def IsTopLevel (number : String) : Prop :=
  '.' ∉ number.toList ∧ '-' ∉ number.toList

instance : DecidablePred IsTopLevel := fun _ => inferInstanceAs (Decidable (_ ∧ _))

/-- A number beneath another one is not of the top level. -/
theorem Under.not_isTopLevel {outer : String} (h : Under outer number) : ¬ IsTopLevel number := by
  obtain ⟨mark, hmark, rest, hnumber⟩ := h
  rintro ⟨hdot, hdash⟩
  simp only [List.mem_cons, List.not_mem_nil, or_false] at hmark
  obtain rfl | rfl := hmark
  · exact hdot (by simp [hnumber])
  · exact hdash (by simp [hnumber])

/-- The steps of a test are numbered at the top level. -/
theorem isTopLevel_topLevel (index : Nat) : IsTopLevel (ListRun.topLevel index) := by
  constructor
  · exact fun hmem => absurd (isDigit_of_mem_toString hmem) (by decide)
  · exact fun hmem => absurd (isDigit_of_mem_toString hmem) (by decide)

def Event.isTopReport : Event → Bool
  | .before _ _ _ => false
  | .after number _ _ _ _ => decide (IsTopLevel number)

/-! ## Nesting -/

/-- All steps that are run are numbered beneath one step. -/
def Outside.Nests (number : String) : Outside → Prop
  | .done _ => True
  | .crash => True
  | .look next => ∀ scope, (next scope).Nests number
  | .change _ next => next.Nests number
  | .sleep _ next => next.Nests number
  | .evaluate _ _ _ next => ∀ found, (next found).Nests number
  | .runSteps _ numbering next => numbering.Extends number ∧ ∀ outcome, (next outcome).Nests number
  | .apart _ work next => work.Nests number ∧ ∀ found own, (next found own).Nests number
  | .beside left right next =>
    left.Nests number ∧ right.Nests number ∧ ∀ found, (next found).Nests number

/-- Running a list beneath the step nests if what comes next does. -/
theorem Outside.runNested_nests {steps : StepList} {numbering : Numbering}
    {next : Except RunFailure (List Value) → Outside} (hnumbering : numbering.Extends number)
    (hnext : ∀ outcome, (next outcome).Nests number) :
    (runNested steps numbering next).Nests number := by
  intro scope
  refine ⟨hnumbering, fun outcome => ?_⟩
  cases hsaved : scope.get? Scope.stepNumberName with
  | none => exact hnext outcome
  | some saved => exact hnext outcome

/-- An action of the library numbers the steps that it runs beneath its own step, and one from outside
has to. -/
def AnyAction.Nests : AnyAction → Prop
  | .known _ => True
  | .outside work => ∀ step number, (work step number).Nests number

/-- All actions that can be built nest. -/
def Registry.Nests (r : Registry A) : Prop :=
  ∀ type d, r.find? type = some d → ∀ p action, d.build p = .ok action →
    (ActionType.any action).Nests

/-- The actions of the library nest. -/
theorem Descriptor.known_nests {d : Descriptor} {p : Properties} {action : AnyAction}
    (h : d.known.build p = .ok action) : action.Nests := by
  change (d.build p).map AnyAction.known = _ at h
  cases hbuild : d.build p with
  | error cause =>
    rw [hbuild] at h
    cases h
  | ok found =>
    rw [hbuild] at h
    cases h
    trivial

namespace Registry

/-- The actions of the library nest anyway. -/
theorem nests (r : Registry) : r.Nests :=
  fun _ _ _ _ _ _ => trivial

/-- An action that is added to those of the library has to nest. -/
theorem nests_of_outside (r : Registry) (types : List String) {d : Descriptor AnyAction}
    (h : ∀ p action, d.build p = .ok action → action.Nests) : (r.known.register types d).Nests := by
  intro type other hfind p action hbuild
  unfold find? at hfind
  split at hfind
  · have hmem : other ∈ r.descriptors.map Descriptor.known ++ [d] := List.mem_of_getElem? hfind
    rcases List.mem_append.1 hmem with hknown | hlast
    · obtain ⟨own, -, rfl⟩ := List.mem_map.1 hknown
      exact Descriptor.known_nests hbuild
    · obtain rfl := List.mem_singleton.1 hlast
      exact h p action hbuild
  · cases hfind

end Registry

/-! ## Engines -/

/-- An engine that, for whatever it is asked, reports no step of the test. -/
structure Engine.Hidden (e : Engine) : Prop where
  runList : ∀ steps {numbering : Numbering}, (∀ index, ¬ IsTopLevel (numbering index)) →
    (e.runList steps numbering).Hides Event.isTopReport
  related : ∀ trail, Related (Attempt.Lifts (Task.Each fun _ => Task.Hides Event.isTopReport)) trail
    fun _ => e
  acts : ∀ number, Acts (Attempt.Lifts (Task.Each fun _ => Task.Hides Event.isTopReport)) number
    fun _ => e

theorem Engine.hidden_of_ways
    (hexpand : ∀ trail v, Task.Hides Event.isTopReport (e.expand trail v).run)
    (hrestart : ∀ recursive trail v, Task.Hides Event.isTopReport (e.restart recursive trail v).run)
    (hrun : ∀ steps {numbering : Numbering}, (∀ index, ¬ IsTopLevel (numbering index)) →
      (e.runList steps numbering).Hides Event.isTopReport)
    (hmarked : e.runMarked = e.runList) (htogether : e.together = Task.together)
    (hstore : e.store = Attempt.put) : e.Hidden := by
  have hnested (steps : StepList) {number : String} {numbering : Numbering}
      (h : numbering.Extends number) : (e.runList steps numbering).Hides Event.isTopReport :=
    hrun steps fun index => (h index).not_isTopLevel
  constructor
  · exact hrun
  · have hkeys := runAsSteps_rel (e := fun _ => e) Task.hides_congruence (by rwa [hmarked])
    exact related_of_hides hexpand hrestart hkeys htogether
  · exact fun number =>
      { store := by
          rw [hstore]
          exact fun _ _ => Attempt.ofTask_lifts Task.hides_congruence.toCongruence
            (Task.hides_congruence.updateScope _)
        runSteps := fun steps _ h => runSteps_rel Task.hides_congruence (hnested steps h) }

/-- An action that nests hides: what it evaluates does, and so do the steps that it runs. -/
theorem Outside.perform_hides (h : e.Hidden) {work : Outside} (hnests : work.Nests number) :
    (work.perform e).run.Hides Event.isTopReport := by
  induction work with
  | done result =>
    cases result with
    | ok v => exact Attempt.hides_congruence.pure v
    | error cause => exact Attempt.hides_congruence.fail cause
  | crash =>
    exact Attempt.ofTask_lifts Task.hides_congruence.toCongruence (Task.hides_congruence.halt _)
  | look next ih =>
    exact Attempt.ofTask_bind_hides Task.hides_congruence.state fun s => ih s.scope (hnests s.scope)
  | change f next ih =>
    exact Attempt.ofTask_bind_hides (Task.hides_congruence.updateScope f) fun _ => ih hnests
  | sleep milliseconds next ih =>
    exact Attempt.ofTask_bind_hides (Task.sleep_hides milliseconds) fun _ => ih hnests
  | evaluate schema recursive v next ih =>
    have hvalue := PropertyEvaluation.properties_rel (e := fun _ => e)
      Attempt.hides_congruence.toCongruence (h.related []) schema recursive v
    exact Attempt.ofTask_bind_hides hvalue fun found => ih found (hnests found)
  | runSteps steps numbering next ih =>
    obtain ⟨hnumbering, hnext⟩ := hnests
    have hrun := h.runList steps fun index => (hnumbering index).not_isTopLevel
    exact Attempt.ofTask_bind_hides hrun fun outcome => ih outcome (hnext outcome)
  | apart own work next ihwork ih =>
    obtain ⟨hwork, hnext⟩ := hnests
    exact Attempt.ofTask_bind_hides ((ihwork hwork).apart own) fun found =>
      ih found.1 found.2 (hnext found.1 found.2)
  | beside left right next ihleft ihright ih =>
    obtain ⟨hleft, hright, hnext⟩ := hnests
    have hboth := Task.together_hides
      (List.forall_mem_cons.2 ⟨ihleft hleft, List.forall_mem_singleton.2 (ihright hright)⟩)
    exact Attempt.ofTask_bind_hides hboth fun found => ih found (hnext found)

/-- An action that nests reports no step of the test. -/
theorem AnyAction.perform_hides (h : e.Hidden) (number : String) (step : Step) {action : AnyAction}
    (hnests : action.Nests) : (action.perform e number step).run.Hides Event.isTopReport := by
  cases action with
  | known action => exact Performance.perform_rel Attempt.hides_congruence (h.acts number) action
  | outside work => exact Outside.perform_hides h (hnests step number)

namespace ListRun

/-- Until a step reports its own end, it hides. -/
theorem handle_hides (hnests : setup.registry.Nests) (h : e.Hidden) (number : String) (failed : Bool)
    (raw : Value) : (handle setup e number failed raw).Hides Event.isTopReport := by
  -- beside nested lists, only the announcement of the step is reported, and it is no report of an end
  have hprepare : (prepare setup number raw).Hides Event.isTopReport := by
    unfold prepare
    cases Shorthand.expand setup.registry raw with
    | error reason => exact Task.hides_congruence.pure _
    | ok expanded =>
      refine Task.hides_congruence.state.bind fun s => ?_
      exact (Task.report_hides rfl).bind fun _ => Task.hides_congruence.pure _
  refine hprepare.bind fun prepared => ?_
  exact conclude_rel (e := fun _ => e) Task.hides_congruence.toCongruence.sequencing setup failed raw
    (fun step descriptor hfind => invoke_rel_of_perform Attempt.hides_congruence.toCongruence
      Attempt.hides_congruence id (h.related []) step fun {p action} hbuild =>
        AnyAction.perform_hides h number step (hnests _ _ hfind p action hbuild)) prepared

/-- A visit with a number of its own beneath a step reports no step of the test. -/
theorem visit_hides (hnests : setup.registry.Nests) (h : e.Hidden) (bindings : Option Variables)
    (hnumber : ¬ IsTopLevel number) (failed : Bool) (raw : Value) :
    (visit setup e bindings number failed raw).Hides Event.isTopReport := by
  have hreport (step : Step) (status : StepStatus) :
      (reportEnd number step status).Hides Event.isTopReport :=
    Task.hides_congruence.state.bind fun s => Task.report_hides (by simp [Event.isTopReport, hnumber])
  refine (Task.hides_congruence.updateScope _).bind fun _ => ?_
  refine (handle_hides hnests h number failed raw).bind fun verdict => ?_
  exact (hreport _ _).bind fun _ => Task.hides_congruence.pure _

/-- A nested list reports no step of the test. -/
theorem run_hides (hnests : setup.registry.Nests) (h : e.Hidden) (steps : StepList)
    {numbering : Numbering} (hnumbering : ∀ index, ¬ IsTopLevel (numbering index)) :
    (run setup e steps numbering).Hides Event.isTopReport :=
  runFrom_rel (e := fun _ => e) Task.hides_congruence.toCongruence.sequencing
    (fun index failed raw => visit_hides hnests h steps.bindings (hnumbering index) failed raw)
    0 steps.steps [] []

/-- Whatever an engine runs reports no step of the test. -/
theorem engine_hidden (hnests : setup.registry.Nests) (depth : Nat) :
    (engine setup depth).Hidden := by
  induction depth with
  | zero =>
    have hhalt : Task.Hides Event.isTopReport
        (Attempt.ofTask (Task.halt .exhausted : Task Value)).run :=
      Attempt.ofTask_lifts Task.hides_congruence.toCongruence (Task.hides_congruence.halt _)
    exact Engine.hidden_of_ways (fun _ _ => hhalt) (fun _ _ _ => hhalt)
      (fun _ _ _ => Task.hides_congruence.halt _) rfl rfl rfl
  | succ depth ih =>
    have hevaluate (recursive : Bool) (trail : Trail) (v : Value) :=
      PropertyEvaluation.evaluate_rel (e := fun _ => engine setup depth)
        Attempt.hides_congruence.toCongruence (ih.related trail) recursive v
    exact Engine.hidden_of_ways (hevaluate true) hevaluate
      (fun steps _ hnumbering => run_hides hnests ih steps hnumbering) rfl rfl rfl

/-! ## The steps of a test -/

variable {bindings : Option Variables} {numbering : Numbering}

/-- A visit of the test reports its own step and no other one of the test. -/
theorem visit_reports (hnests : setup.registry.Nests) (h : e.Hidden) (hnumber : IsTopLevel number)
    {failed : Bool} {raw : Value} {s s' : RunState} {verdict : Verdict}
    (hrun : (visit setup e bindings number failed raw s).complete = .ok (verdict, s')) :
    ∃ t, (handle setup e number failed raw (entered bindings number s)).Ends verdict t ∧
      s' = Visit.reported ⟨number, verdict, t⟩ ∧
      s'.log.filter Event.isTopReport =
        Visit.report ⟨number, verdict, t⟩ :: s.log.filter Event.isTopReport := by
  rw [visit_eq] at hrun
  obtain ⟨found, t, hhandle, hreport⟩ := Progress.complete_bind hrun
  cases hreport
  refine ⟨t, Progress.ends_of_complete hhandle, rfl, ?_⟩
  -- what is run for the step leaves the selection as it was when the step was entered
  have hnested := (handle_hides hnests h number failed raw).filter_log hhandle
  change (Visit.report ⟨number, verdict, t⟩ :: t.log).filter Event.isTopReport = _
  rw [List.filter_cons_of_pos (by simpa [Event.isTopReport, Visit.report] using hnumber), hnested]
  rfl

/-- A list of steps of the test walks over its steps, and its outcome adds up what became of them.
The reports on its steps are those of the walk. -/
theorem runFrom_reports (hnests : setup.registry.Nests) (h : e.Hidden)
    (hnumbering : ∀ index, IsTopLevel (numbering index)) {index : Nat} {steps results : List Value}
    {failures : List RunFailure} {s s' : RunState} {result : Except RunFailure (List Value)}
    (hrun : (runFrom setup e bindings numbering index steps results failures s).complete =
      .ok (result, s')) :
    ∃ visits, Walk setup e bindings numbering index steps (!failures.isEmpty) s visits s' ∧
      result = outcome (results ++ valuesOf visits) (failures ++ failuresOf visits) ∧
      s'.log.filter Event.isTopReport =
        (visits.map Visit.report).reverse ++ s.log.filter Event.isTopReport := by
  -- the reports are those of the visits so far; the outcome adds up what came before the list too
  induction steps generalizing index results failures s with
  | nil =>
    cases hrun
    exact ⟨[], .done, by simp [valuesOf, failuresOf], by simp⟩
  | cons raw rest ih =>
    rw [runFrom_cons] at hrun
    obtain ⟨verdict, u, hvisit, hrest⟩ := Progress.complete_bind hrun
    obtain ⟨t, hhandle, rfl, hreported⟩ := visit_reports hnests h (hnumbering index) hvisit
    cases verdict with
    | aborted step cause =>
      cases hrest
      refine ⟨_, .aborted hhandle, ?_, by simpa using hreported⟩
      simp [failuresOf, Verdict.failure?, outcome]
    | ended step status =>
      obtain ⟨visits, hwalk, rfl, hlater⟩ := ih hrest
      rw [failed_append] at hwalk
      refine ⟨_, .next hhandle hwalk, ?_, by simp [hlater, hreported]⟩
      rw [valuesOf_cons, failuresOf_cons, List.append_assoc, List.append_assoc]

end ListRun

end StepScript
