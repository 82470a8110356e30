import StepScript.Action.Catalogue
import StepScript.Proofs.Run.Ending
import StepScript.Proofs.Run.Gathering

/-!
# Outcome — what a list reports tells how it ends

A list of steps reports the end of each step that it reaches.  These reports, and not those of lists
that are nested in its steps, determine the outcome of the list: it has results if all steps were
reached and no failure counts, and otherwise the failure that puts together those that do.

* `ListRun.Walk` follows a list from report to report; between two of them anything may be reported
  by nested lists and by other work;
* `ListRun.Foretells` says what the reports tell;
* `ListRun.run_foretold` is the main result: every way in which a list comes to an end is such a
  walk, and its outcome is the one that was foretold.
-/

namespace StepScript

/-! ## Reports -/

namespace Event

def number : Event → String
  | .before number _ _ => number
  | .after number _ _ _ _ => number

def value? : Event → Option Value
  | .after _ _ (.passed v) _ _ => some v
  | _ => none

def counts : Event → Bool
  | .after _ _ (.failed _ false) _ _ => true
  | _ => false

/-- The failure that a list raises for a report. -/
inductive Raises : Event → RunFailure → Prop
  | failed {number : String} {step : Step} {cause : Failure} {scopeNumber : Option String}
      {time : Nat} :
      Raises (.after number step (.failed cause false) scopeNumber time)
        (.failed number step.displayName cause)
  | fatal {number : String} {step : Step} {cause : RunFailure} {scopeNumber : Option String}
      {time : Nat} :
      (cause = .unknownType step.type number ∨ ∃ reason, cause = .invalid number reason) →
      Raises (.after number step (.failed (.action (.message cause.message)) false) scopeNumber
        time) cause

/-- What a list raises for a report is a single failure. -/
theorem Raises.isSingle {event : Event} {e : RunFailure} (h : event.Raises e) : e.IsSingle := by
  cases h with
  | failed => trivial
  | fatal hcause =>
    rcases hcause with rfl | ⟨reason, rfl⟩
    · trivial
    · trivial

end Event

namespace ListRun

variable {A : Type} {setup : Setup A} {engine : Engine} {bindings : Option Variables}
  {numbering : Numbering}

/-! ## Verdicts -/

namespace Verdict

/-- A list is only ended by a step of unknown type or one that cannot be read. -/
def IsSound (number : String) : Verdict → Prop
  | .aborted step cause =>
    cause = .unknownType step.type number ∨ ∃ reason, cause = .invalid number reason
  | .ended _ _ => True

end Verdict

theorem read_error {number : String} {raw : Value} {e : RunFailure}
    (h : read setup number raw = .error e) : ∃ reason, e = .invalid number reason := by
  unfold read at h
  cases hreview : setup.review number raw with
  | error reason =>
    rw [hreview] at h
    cases h
    exact ⟨_, rfl⟩
  | ok reviewed =>
    rw [hreview] at h
    dsimp only at h
    cases hread : Step.ofValue reviewed with
    | error reason =>
      rw [hread] at h
      cases h
      exact ⟨_, rfl⟩
    | ok step =>
      rw [hread] at h
      cases h

/-- What makes a step unreadable is told with its number. -/
theorem prepare_error {number : String} {raw : Value} {s t : RunState} {e : RunFailure}
    (h : (prepare setup number raw s).Ends (.error e) t) : ∃ reason, e = .invalid number reason := by
  unfold prepare at h
  cases hexpand : Shorthand.expand setup.registry raw with
  | error reason =>
    rw [hexpand] at h
    cases h
    exact ⟨_, rfl⟩
  | ok expanded =>
    rw [hexpand] at h
    rcases Task.ends_bind.1 h with ⟨before, s₁, _, hreport⟩
    rcases Task.ends_bind.1 hreport with ⟨_, s₂, _, hread⟩
    exact read_error (Progress.ends_finished.1 hread).1.symm

variable [ActionType A]

/-- What becomes of a step that is skipped or run. -/
inductive Executes (setup : Setup A) (engine : Engine) (number : String) (failed : Bool) (step : Step)
    (s : RunState) : Except RunFailure StepStatus → RunState → Prop
  | disabled : step.disabled = true →
      Executes setup engine number failed step s (.ok (.skipped .disabled)) s
  | priorFailure : failed = true → step.runOnFailure = false →
      Executes setup engine number failed step s (.ok (.skipped .priorFailure)) s
  | unknownType : setup.registry.find? step.type = none →
      Executes setup engine number failed step s (.error (.unknownType step.type number)) s
  | invoked {descriptor : Descriptor A} {result : Except Failure (Option Value)} {t : RunState} :
      setup.registry.find? step.type = some descriptor →
      ((invoke engine number step descriptor).run s).Ends result t →
      Executes setup engine number failed step s (.ok (statusOf step result)) t

/-- A step that is executed to an end is skipped, unknown or run. -/
theorem execute_executes {number : String} {failed : Bool} {step : Step} {s t : RunState}
    {result : Except RunFailure StepStatus}
    (h : (execute setup engine number failed step s).Ends result t) :
    Executes setup engine number failed step s result t := by
  unfold execute at h
  split at h
  · rename_i hdisabled
    cases h
    exact .disabled hdisabled
  · split at h
    · rename_i hskips
      cases h
      rw [Bool.and_eq_true, Bool.not_eq_true'] at hskips
      exact .priorFailure hskips.1 hskips.2
    · cases hfind : setup.registry.find? step.type with
      | none =>
        rw [hfind] at h
        cases h
        exact .unknownType hfind
      | some descriptor =>
        rw [hfind] at h
        rcases Task.ends_bind.1 h with ⟨outcome, s₁, hinvoke, hstatus⟩
        cases hstatus
        exact .invoked hfind hinvoke

/-- What becomes of a raw step once it has been read, or could not be. -/
inductive Concludes (setup : Setup A) (engine : Engine) (number : String) (failed : Bool) (raw : Value)
    (s : RunState) : Except RunFailure Step → Verdict → RunState → Prop
  | unread {cause : RunFailure} : (Step.placeholder raw).disabled = true →
      Concludes setup engine number failed raw s (.error cause)
        (.ended (Step.placeholder raw) (.skipped .disabled)) s
  | invalid {cause : RunFailure} :
      Concludes setup engine number failed raw s (.error cause)
        (.aborted (Step.placeholder raw) cause) s
  | aborted {step : Step} {cause : RunFailure} {t : RunState} :
      Executes setup engine number failed step s (.error cause) t →
      Concludes setup engine number failed raw s (.ok step) (.aborted step cause) t
  | ended {step : Step} {status : StepStatus} {t : RunState} :
      Executes setup engine number failed step s (.ok status) t →
      Concludes setup engine number failed raw s (.ok step) (.ended step status) t

/-- A raw step that is concluded was read or not, and has the verdict that follows. -/
theorem conclude_concludes {number : String} {failed : Bool} {raw : Value} {s t : RunState}
    {prepared : Except RunFailure Step} {verdict : Verdict}
    (h : (conclude setup engine number failed raw prepared s).Ends verdict t) :
    Concludes setup engine number failed raw s prepared verdict t := by
  cases prepared with
  | error cause =>
    unfold conclude at h
    dsimp only at h
    split at h
    · rename_i hdisabled
      cases h
      exact .unread hdisabled
    · cases h
      exact .invalid
  | ok step =>
    rcases Task.ends_bind.1 h with ⟨result, s₁, hexecute, hverdict⟩
    cases result with
    | error cause =>
      cases hverdict
      exact .aborted (execute_executes hexecute)
    | ok status =>
      cases hverdict
      exact .ended (execute_executes hexecute)

/-- A raw step that is dealt with is prepared and then concluded. -/
theorem handle_concludes {number : String} {failed : Bool} {raw : Value} {s t : RunState}
    {verdict : Verdict} (h : (handle setup engine number failed raw s).Ends verdict t) :
    ∃ prepared s₁, (prepare setup number raw s).Ends prepared s₁ ∧
      Concludes setup engine number failed raw s₁ prepared verdict t := by
  rcases Task.ends_bind.1 h with ⟨prepared, s₁, hprepare, hconclude⟩
  exact ⟨prepared, s₁, hprepare, conclude_concludes hconclude⟩

/-- A step that is dealt with ends its list only if it is unknown or unreadable. -/
theorem handle_isSound {number : String} {failed : Bool} {raw : Value} {s t : RunState}
    {verdict : Verdict} (h : (handle setup engine number failed raw s).Ends verdict t) :
    verdict.IsSound number := by
  rcases handle_concludes h with ⟨prepared, s₁, hprepare, hconcludes⟩
  cases hconcludes with
  | unread _ => trivial
  | invalid => exact .inr (prepare_error hprepare)
  | aborted hexecutes =>
    cases hexecutes with
    | unknownType _ => exact .inl rfl
  | ended _ => trivial

/-! ## Walks -/

/-- A step that a list has reached: its number, what became of it, and the state in which that is
reported. -/
structure Visit where
  number : String
  verdict : Verdict
  state : RunState

namespace Visit

/-- What is reported of the step. -/
def report (v : Visit) : Event :=
  .after v.number v.verdict.step v.verdict.status v.state.scope.stepNumber v.state.clock

def reported (v : Visit) : RunState :=
  { v.state with log := v.report :: v.state.log }

theorem report_number (v : Visit) : v.report.number = v.number := rfl

theorem report_value? (v : Visit) : v.report.value? = v.verdict.value? := by
  rcases v with ⟨number, verdict, state⟩
  cases verdict with
  | aborted step cause => rfl
  | ended step status => cases status <;> rfl

/-- The report of a visit counts exactly if the visit adds a failure to the list. -/
theorem report_counts (v : Visit) : v.report.counts = (v.verdict.failure? v.number).isSome := by
  rcases v with ⟨number, verdict, state⟩
  cases verdict with
  | aborted step cause => rfl
  | ended step status =>
    cases status with
    | failed cause ignored => cases ignored <;> rfl
    | _ => rfl

/-- The failure that a visit adds is raised for its report. -/
theorem report_raises {v : Visit} {e : RunFailure} (hsound : v.verdict.IsSound v.number)
    (h : v.verdict.failure? v.number = some e) : v.report.Raises e := by
  rcases v with ⟨number, verdict, state⟩
  cases verdict with
  | aborted step cause =>
    cases h
    exact .fatal hsound
  | ended step status =>
    cases status with
    | failed cause ignored =>
      cases ignored with
      | true => cases h
      | false =>
        cases h
        exact .failed
    | _ => cases h

end Visit

/-- The state in which a list deals with a step. -/
def entered (bindings : Option Variables) (number : String) (s : RunState) : RunState :=
  { s with
    scope := (s.scope.extend (bindings.getD [])).put Scope.stepNumberName (.string number) }

/-- A list goes from step to step, beginning with the step of some index. -/
inductive Walk (setup : Setup A) (engine : Engine) (bindings : Option Variables)
    (numbering : Numbering) : Nat → List Value → Bool → RunState → List Visit → RunState → Prop
  | done {index : Nat} {failed : Bool} {s : RunState} :
      Walk setup engine bindings numbering index [] failed s [] s
  | aborted {index : Nat} {raw : Value} {rest : List Value} {failed : Bool} {s t : RunState}
      {step : Step} {cause : RunFailure} :
      (handle setup engine (numbering index) failed raw
        (entered bindings (numbering index) s)).Ends (.aborted step cause) t →
      Walk setup engine bindings numbering index (raw :: rest) failed s
        [⟨numbering index, .aborted step cause, t⟩]
        (Visit.reported ⟨numbering index, .aborted step cause, t⟩)
  | next {index : Nat} {raw : Value} {rest : List Value} {failed : Bool} {s t s' : RunState}
      {step : Step} {status : StepStatus} {visits : List Visit} :
      (handle setup engine (numbering index) failed raw
        (entered bindings (numbering index) s)).Ends (.ended step status) t →
      Walk setup engine bindings numbering (index + 1) rest
        (failed || (Verdict.failure? (numbering index) (.ended step status)).isSome)
        (Visit.reported ⟨numbering index, .ended step status, t⟩) visits s' →
      Walk setup engine bindings numbering index (raw :: rest) failed s
        (⟨numbering index, .ended step status, t⟩ :: visits) s'

def valuesOf (visits : List Visit) : List Value :=
  visits.filterMap fun v => v.verdict.value?

def failuresOf (visits : List Visit) : List RunFailure :=
  visits.filterMap fun v => v.verdict.failure? v.number

/-- A visit deals with the step in the state that the list enters, and reports its end. -/
theorem visit_eq (number : String) (failed : Bool) (raw : Value) (s : RunState) :
    visit setup engine bindings number failed raw s =
      (handle setup engine number failed raw (entered bindings number s)).bind fun verdict t =>
        .finished verdict (Visit.reported ⟨number, verdict, t⟩) :=
  rfl

/-- A visit that ends has dealt with its step and reported on it. -/
theorem visit_ends {number : String} {failed : Bool} {raw : Value} {s s' : RunState}
    {verdict : Verdict} (h : (visit setup engine bindings number failed raw s).Ends verdict s') :
    ∃ t, (handle setup engine number failed raw (entered bindings number s)).Ends verdict t ∧
      s' = Visit.reported ⟨number, verdict, t⟩ := by
  rw [visit_eq] at h
  rcases Progress.ends_bind.1 h with ⟨found, t, hhandle, hreturn⟩
  cases hreturn
  exact ⟨t, hhandle, rfl⟩

/-- A step that is dealt with is reported on, and the visit ends. -/
theorem ends_visit {number : String} {failed : Bool} {raw : Value} {s t : RunState}
    {verdict : Verdict}
    (h : (handle setup engine number failed raw (entered bindings number s)).Ends verdict t) :
    (visit setup engine bindings number failed raw s).Ends verdict
      (Visit.reported ⟨number, verdict, t⟩) := by
  rw [visit_eq]
  exact h.bind (.finished _ _)

/-- A walk only knows whether a failure counts, not which ones do. -/
theorem failed_append (failures : List RunFailure) (failure? : Option RunFailure) :
    (!(failures ++ failure?.toList).isEmpty) = (!failures.isEmpty || failure?.isSome) := by
  cases failures <;> cases failure? <;> rfl

theorem valuesOf_cons (v : Visit) (visits : List Visit) :
    valuesOf (v :: visits) = v.verdict.value?.toList ++ valuesOf visits := by
  rw [valuesOf, List.filterMap_cons]
  cases v.verdict.value? <;> rfl

theorem failuresOf_cons (v : Visit) (visits : List Visit) :
    failuresOf (v :: visits) = (v.verdict.failure? v.number).toList ++ failuresOf visits := by
  rw [failuresOf, List.filterMap_cons]
  cases v.verdict.failure? v.number <;> rfl

/-- A list that comes to an end has walked over its steps, and its outcome adds up what became of
them. -/
theorem runFrom_walk {index : Nat} {steps results : List Value} {failures : List RunFailure}
    {s s' : RunState} {result : Except RunFailure (List Value)}
    (h : (runFrom setup engine bindings numbering index steps results failures s).Ends result s') :
    ∃ visits, Walk setup engine bindings numbering index steps (!failures.isEmpty) s visits s' ∧
      result = outcome (results ++ valuesOf visits) (failures ++ failuresOf visits) := by
  induction steps generalizing index results failures s with
  | nil =>
    cases h
    exact ⟨[], .done, by simp [valuesOf, failuresOf]⟩
  | cons raw rest ih =>
    rw [runFrom_cons] at h
    rcases Task.ends_bind.1 h with ⟨verdict, s₁, hvisit, hrest⟩
    rcases visit_ends hvisit with ⟨t, hhandle, rfl⟩
    cases verdict with
    | aborted step cause =>
      cases hrest
      refine ⟨_, .aborted hhandle, ?_⟩
      simp [failuresOf, Verdict.failure?, outcome]
    | ended step status =>
      rcases ih hrest with ⟨visits, hwalk, rfl⟩
      rw [failed_append] at hwalk
      refine ⟨_, .next hhandle hwalk, ?_⟩
      rw [valuesOf_cons, failuresOf_cons, List.append_assoc, List.append_assoc]

/-! ## What a walk looks like -/

namespace Walk

variable {index : Nat} {steps : List Value} {failed : Bool} {s s' : RunState} {visits : List Visit}

/-- The visits of a walk have the numbers of the list from its index on, without gaps. -/
theorem numbers (h : Walk setup engine bindings numbering index steps failed s visits s') :
    visits.map Visit.number = (List.range' index visits.length).map numbering := by
  induction h with
  | done => rfl
  | aborted hhandle => rfl
  | next hhandle _ ih => simp [ih, List.range'_succ]

/-- A walk visits each step of its list at most once. -/
theorem length_le (h : Walk setup engine bindings numbering index steps failed s visits s') :
    visits.length ≤ steps.length := by
  induction h with
  | done => exact Nat.le_refl _
  | aborted hhandle => simp
  | next hhandle _ ih => simpa using ih

/-- Of a walk, only steps of unknown type or unreadable ones end the list. -/
theorem isSound (h : Walk setup engine bindings numbering index steps failed s visits s') :
    ∀ v ∈ visits, v.verdict.IsSound v.number := by
  induction h with
  | done => simp
  | aborted hhandle => simpa using handle_isSound hhandle
  | next hhandle _ ih =>
    intro v hv
    rcases List.mem_cons.1 hv with rfl | hv
    · exact handle_isSound hhandle
    · exact ih v hv

/-- Only the last visit of a list can have ended it. -/
theorem aborts_dropLast (h : Walk setup engine bindings numbering index steps failed s visits s') :
    ∀ v ∈ visits.dropLast, v.verdict.aborts = false := by
  induction h with
  | done => simp
  | aborted hhandle => simp
  | @next index raw rest failed s t s' step status visits hhandle _ ih =>
    cases visits with
    | nil => simp
    | cons u others =>
      intro v hv
      rw [List.dropLast_cons_cons] at hv
      rcases List.mem_cons.1 hv with rfl | hv
      · rfl
      · exact ih v hv

/-- A list that stops early was ended by its last visit. -/
theorem aborts_of_length_lt
    (h : Walk setup engine bindings numbering index steps failed s visits s')
    (hshort : visits.length < steps.length) : ∃ v ∈ visits, v.verdict.aborts = true := by
  induction h with
  | done => exact absurd hshort (Nat.lt_irrefl _)
  | aborted hhandle => exact ⟨_, List.mem_cons_self, rfl⟩
  | next hhandle _ ih =>
    rcases ih (by simpa using hshort) with ⟨v, hv, haborts⟩
    exact ⟨v, List.mem_cons_of_mem _ hv, haborts⟩

end Walk

/-- Dealing with a step only adds to the log. -/
theorem log_suffix_of_handle {setup : Setup} (hgrows : engine.Grows) {number : String} {failed : Bool} {raw : Value}
    {s t : RunState} {verdict : Verdict}
    (h : (handle setup engine number failed raw s).Ends verdict t) : s.log <:+ t.log :=
  log_suffix_of_ends
    (fun base => handle_keeps (growth_free base) (hgrows base) number failed raw) h

/-- The reports of a list come one after the other among all that is reported meanwhile. -/
theorem Walk.reports {setup : Setup} (hgrows : engine.Grows) {index : Nat} {steps : List Value} {failed : Bool}
    {s s' : RunState} {visits : List Visit}
    (h : Walk setup engine bindings numbering index steps failed s visits s') :
    ∃ new, s'.log = new ++ s.log ∧ (visits.map Visit.report).reverse.Sublist new := by
  induction h with
  | done => exact ⟨[], rfl, List.Sublist.refl _⟩
  | @aborted index raw rest failed s t step cause hhandle =>
    rcases log_suffix_of_handle hgrows hhandle with ⟨nested, hlog⟩
    refine ⟨Visit.report ⟨numbering index, .aborted step cause, t⟩ :: nested, ?_, ?_⟩
    · simpa [Visit.reported, entered] using hlog.symm
    · simp
  | @next index raw rest failed s t s' step status visits hhandle _ ih =>
    -- what is nested in the step comes before its report, and the rest of the list after it
    rcases log_suffix_of_handle hgrows hhandle with ⟨nested, hlog⟩
    rcases ih with ⟨later, hlater, hsublist⟩
    refine ⟨later ++ Visit.report ⟨numbering index, .ended step status, t⟩ :: nested, ?_, ?_⟩
    · rw [hlater, List.append_assoc]
      simpa [Visit.reported, entered] using hlog.symm
    · rw [List.map_cons, List.reverse_cons]
      exact hsublist.append (by simp)

/-! ## What the reports tell -/

/-- What the reports of a list on its own steps tell of its outcome. -/
structure Foretells (numbering : Numbering) (count : Nat) (reports : List Event)
    (result : Except RunFailure (List Value)) : Prop where
  /-- There is one report for each step that was reached, in order. -/
  numbers : reports.map Event.number = (List.range reports.length).map numbering
  length_le : reports.length ≤ count
  /-- The list has results if all steps were reached and no failure counts. -/
  ok_iff : (∃ results, result = .ok results) ↔
    reports.length = count ∧ ∀ report ∈ reports, report.counts = false
  /-- The results are the values that were reported. -/
  results : ∀ results, result = .ok results → results = reports.filterMap Event.value?
  /-- Otherwise there is one failure for each report that counts, in order. -/
  raises : ∀ e, result = .error e →
    List.Forall₂ Event.Raises (reports.filter Event.counts) e.members
  several : ∀ members, result = .error (.several members) →
    2 ≤ members.length ∧ ∀ e ∈ members, e.IsSingle
  /-- All failures but the last one are those of steps that failed. -/
  stepFailures : ∀ e, result = .error e → ∀ member ∈ e.members.dropLast, member.IsStepFailure
  fatal_iff : ∀ e, result = .error e →
    (e.isFatal = true ↔ ∃ member, e.members.getLast? = some member ∧ member.EndsList)
  /-- The list stops early only for a failure that ends it. -/
  stops : reports.length < count → ∃ e, result = .error e ∧ e.isFatal = true

/-- If no report counts, all steps were reached. -/
theorem Foretells.length_eq {count : Nat} {reports : List Event}
    {result : Except RunFailure (List Value)} (h : Foretells numbering count reports result)
    (hnone : reports.filter Event.counts = []) : reports.length = count := by
  by_contra hne
  obtain ⟨e, he, hfatal⟩ := h.stops (Nat.lt_of_le_of_ne h.length_le hne)
  obtain ⟨member, hlast, -⟩ := (h.fatal_iff e he).1 hfatal
  -- the failure that ended the list would have a member without a report
  have hmembers : e.members = [] := by
    have hraises := h.raises e he
    rw [hnone] at hraises
    exact List.forall₂_nil_left_iff.1 hraises
  rw [hmembers] at hlast
  cases hlast

theorem failuresOf_append (visits others : List Visit) :
    failuresOf (visits ++ others) = failuresOf visits ++ failuresOf others := by
  simp [failuresOf]

/-- The failures of visits are raised for those of their reports that count, in order. -/
theorem raises_failuresOf {visits : List Visit} (h : ∀ v ∈ visits, v.verdict.IsSound v.number) :
    List.Forall₂ Event.Raises ((visits.map Visit.report).filter Event.counts)
      (failuresOf visits) := by
  induction visits with
  | nil => exact .nil
  | cons v rest ih =>
    have hrest := ih fun u hu => h u (List.mem_cons_of_mem v hu)
    have hcounts := v.report_counts
    cases hfailure : v.verdict.failure? v.number with
    | none =>
      rw [hfailure] at hcounts
      simpa [failuresOf, hfailure, hcounts] using hrest
    | some e =>
      rw [hfailure] at hcounts
      have hraises := Visit.report_raises (h v List.mem_cons_self) hfailure
      simpa [failuresOf, hfailure, hcounts] using List.Forall₂.cons hraises hrest

/-- There is no failure exactly if no report counts. -/
theorem failuresOf_eq_nil_iff {visits : List Visit} :
    failuresOf visits = [] ↔ ∀ report ∈ visits.map Visit.report, report.counts = false := by
  simp [failuresOf, Visit.report_counts]

/-- The results of visits can be read off their reports. -/
theorem valuesOf_eq (visits : List Visit) :
    valuesOf visits = (visits.map Visit.report).filterMap Event.value? := by
  simp [valuesOf, List.filterMap_map, Visit.report_value?]

/-- A failure that does not end the list is that of a step which failed. -/
theorem Verdict.isStepFailure {number : String} {verdict : Verdict} {e : RunFailure}
    (haborts : verdict.aborts = false) (h : verdict.failure? number = some e) :
    e.IsStepFailure := by
  cases verdict with
  | aborted step cause => cases haborts
  | ended step status =>
    cases status with
    | failed cause ignored =>
      cases ignored with
      | true => cases h
      | false =>
        cases h
        trivial
    | _ => cases h

theorem isStepFailure_of_mem {visits : List Visit} {e : RunFailure}
    (h : ∀ v ∈ visits, v.verdict.aborts = false) (he : e ∈ failuresOf visits) :
    e.IsStepFailure := by
  rcases List.mem_filterMap.1 he with ⟨v, hv, hfailure⟩
  exact Verdict.isStepFailure (h v hv) hfailure

/-- If only the last visit ends the list, all failures but the last are those of steps which
failed. -/
theorem isStepFailure_of_mem_dropLast {visits : List Visit} {e : RunFailure}
    (h : ∀ v ∈ visits.dropLast, v.verdict.aborts = false)
    (he : e ∈ (failuresOf visits).dropLast) : e.IsStepFailure := by
  rcases List.eq_nil_or_concat visits with rfl | ⟨init, last, rfl⟩
  · exact absurd he (by simp [failuresOf])
  · rw [List.concat_eq_append] at h he
    rw [List.dropLast_concat] at h
    rw [failuresOf_append] at he
    cases hfailure : last.verdict.failure? last.number with
    | none =>
      have hnone : failuresOf [last] = [] := by simp [failuresOf, hfailure]
      rw [hnone, List.append_nil] at he
      exact isStepFailure_of_mem h (List.dropLast_subset _ he)
    | some failure =>
      have hsome : failuresOf [last] = [failure] := by simp [failuresOf, hfailure]
      rw [hsome, List.dropLast_concat] at he
      exact isStepFailure_of_mem h he

/-! ## The outcome of a list -/

/-- A list succeeds exactly if there are no failures. -/
theorem outcome_eq_ok {values results : List Value} {failures : List RunFailure} :
    outcome values failures = .ok results ↔ failures = [] ∧ results = values := by
  cases failures with
  | nil => simp [outcome, eq_comm]
  | cons e rest => simp [outcome]

/-- A list fails exactly if there are some, with all of them gathered. -/
theorem outcome_eq_error {values : List Value} {failures : List RunFailure} {e : RunFailure} :
    outcome values failures = .error e ↔ failures ≠ [] ∧ e = .collect failures := by
  cases failures with
  | nil => simp [outcome]
  | cons first rest => simp [outcome, eq_comm]

section Walks

variable {steps : List Value} {s s' : RunState} {visits : List Visit}

/-- All failures of a walk are single ones. -/
theorem Walk.isSingle (h : Walk setup engine bindings numbering 0 steps false s visits s')
    {e : RunFailure} (he : e ∈ failuresOf visits) : e.IsSingle := by
  rcases List.mem_filterMap.1 he with ⟨v, hv, hfailure⟩
  exact (Visit.report_raises (h.isSound v hv) hfailure).isSingle

/-- A list that stops early has a failure that ended it. -/
theorem Walk.isFatal_of_length_lt
    (h : Walk setup engine bindings numbering 0 steps false s visits s')
    (hshort : visits.length < steps.length) : ∃ e ∈ failuresOf visits, e.isFatal = true := by
  rcases h.aborts_of_length_lt hshort with ⟨⟨number, verdict, t⟩, hv, haborts⟩
  cases verdict with
  | ended step status => cases haborts
  | aborted step cause =>
    have hcause : cause ∈ failuresOf visits := List.mem_filterMap.2 ⟨_, hv, rfl⟩
    refine ⟨cause, hcause, (RunFailure.isFatal_iff_of_isSingle (h.isSingle hcause)).2 ?_⟩
    rcases h.isSound _ hv with hcause | ⟨reason, hcause⟩
    · rw [hcause]
      trivial
    · rw [hcause]
      trivial

/-- A walk whose outcome adds up what became of its steps was foretold by its reports. -/
theorem Walk.foretells (h : Walk setup engine bindings numbering 0 steps false s visits s') :
    Foretells numbering steps.length (visits.map Visit.report)
      (outcome (valuesOf visits) (failuresOf visits)) := by
  have hsingle : ∀ e ∈ failuresOf visits, e.IsSingle := fun _ he => h.isSingle he
  have hsteps : ∀ e ∈ (failuresOf visits).dropLast, e.IsStepFailure :=
    fun _ he => isStepFailure_of_mem_dropLast h.aborts_dropLast he
  -- the members of the failure that a list raises are those that its visits add up to
  have hmembers : (RunFailure.collect (failuresOf visits)).members = failuresOf visits :=
    RunFailure.members_collect hsingle
  constructor
  case numbers =>
    simpa [Function.comp_def, Visit.report_number, List.range_eq_range'] using h.numbers
  case length_le => simpa using h.length_le
  case ok_iff =>
    rw [← failuresOf_eq_nil_iff, List.length_map]
    constructor
    · rintro ⟨results, hresults⟩
      have hnone : failuresOf visits = [] := (outcome_eq_ok.1 hresults).1
      refine ⟨?_, hnone⟩
      by_contra hne
      rcases h.isFatal_of_length_lt (Nat.lt_of_le_of_ne h.length_le hne) with ⟨e, he, -⟩
      rw [hnone] at he
      cases he
    · rintro ⟨-, hnone⟩
      exact ⟨_, outcome_eq_ok.2 ⟨hnone, rfl⟩⟩
  case results =>
    intro results hresults
    rw [← valuesOf_eq]
    exact (outcome_eq_ok.1 hresults).2
  case raises =>
    intro e he
    rcases outcome_eq_error.1 he with ⟨-, rfl⟩
    rw [hmembers]
    exact raises_failuresOf h.isSound
  case several =>
    intro members he
    rcases outcome_eq_error.1 he with ⟨hne, hcollect⟩
    rw [← hcollect] at hmembers
    refine ⟨RunFailure.two_le_of_collect_eq_several hsingle hne hcollect.symm, ?_⟩
    rw [show members = failuresOf visits from hmembers]
    exact hsingle
  case stepFailures =>
    intro e he
    rcases outcome_eq_error.1 he with ⟨-, rfl⟩
    rw [hmembers]
    exact hsteps
  case fatal_iff =>
    intro e he
    rcases outcome_eq_error.1 he with ⟨-, rfl⟩
    rw [hmembers]
    exact RunFailure.isFatal_collect_iff_getLast? hsingle hsteps
  case stops =>
    intro hshort
    rw [List.length_map] at hshort
    rcases h.isFatal_of_length_lt hshort with ⟨e, he, hfatal⟩
    have herror : outcome (valuesOf visits) (failuresOf visits) =
        .error (.collect (failuresOf visits)) :=
      outcome_eq_error.2 ⟨List.ne_nil_of_mem he, rfl⟩
    exact ⟨_, herror, (RunFailure.conveys_collect _).isFatal_iff.2 ⟨e, he, hfatal⟩⟩

end Walks

/-- However a list comes to an end, what it reports of its own steps tells its outcome. -/
theorem run_foretold (setup : Setup) (depth : Nat) (steps : StepList) (numbering : Numbering)
    (s s' : RunState) (result : Except RunFailure (List Value))
    (h : (run setup (ListRun.engine setup depth) steps numbering s).Ends result s') :
    ∃ visits new,
      Walk setup (ListRun.engine setup depth) steps.bindings numbering 0 steps.steps false s visits
        s' ∧
      s'.events = s.events ++ new ∧ (visits.map Visit.report).Sublist new ∧
      Foretells numbering steps.steps.length (visits.map Visit.report) result := by
  rcases runFrom_walk h with ⟨visits, hwalk, rfl⟩
  rcases hwalk.reports (engine_grows setup depth) with ⟨later, hlog, hsublist⟩
  refine ⟨visits, later.reverse, hwalk, ?_, ?_, ?_⟩
  · simp [RunState.events, hlog]
  · simpa using hsublist.reverse
  · simpa using hwalk.foretells

/-- A step that fails, one that is skipped for it, and one that cannot be read. -/
def failingSteps : StepList where
  steps := [.object [("fail", .string "no")], .object [("echo", .string "yes")], .bool true]
  bindings := none

/-- The list fails with two failures, the second one ending it. -/
theorem failingSteps_end :
    ∃ e s', (run (Setup.plain Registry.builtIn) (ListRun.engine (Setup.plain Registry.builtIn) 2)
      failingSteps topLevel (RunState.start Scope.empty)).Ends (.error e) s' ∧
      e.members.length = 2 := by
  have hrun : (match Task.run (run (Setup.plain Registry.builtIn)
        (ListRun.engine (Setup.plain Registry.builtIn) 2) failingSteps topLevel)
        (RunState.start Scope.empty) with
      | .ok (.error e, _) => e.members.length == 2
      | .ok (.ok _, _) => false
      | .error _ => false) = true := by decide +kernel
  split at hrun
  · rename_i e s' h
    exact ⟨e, s', Progress.ends_of_complete h, by simpa using hrun⟩
  · cases hrun
  · cases hrun

/-- Its reports tell of these failures, with nothing reported behind the unreadable step. -/
theorem failingSteps_foretold :
    ∃ e s', e.members.length = 2 ∧ ∃ visits new,
      Walk (Setup.plain Registry.builtIn) (ListRun.engine (Setup.plain Registry.builtIn) 2)
        failingSteps.bindings topLevel 0 failingSteps.steps false (RunState.start Scope.empty) visits
        s' ∧
      s'.events = (RunState.start Scope.empty).events ++ new ∧
      (visits.map Visit.report).Sublist new ∧
      Foretells topLevel failingSteps.steps.length (visits.map Visit.report) (.error e) := by
  rcases failingSteps_end with ⟨e, s', hends, hlength⟩
  exact ⟨e, s', hlength, run_foretold _ _ _ _ _ _ _ hends⟩

end ListRun

end StepScript
