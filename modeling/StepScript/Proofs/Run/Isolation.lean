import StepScript.Proofs.Run.Outcome

/-!
# Isolation — what a failure does to the rest of its list

Once a step of a list is reported to have failed, and the failure is not ignored, the list only runs
steps that are to run on failure.  Such a step is dealt with as if nothing had failed; any other one
that can be read is skipped, and nothing of it is looked up or evaluated.

* `ListRun.Comes` says that a list comes to one of its steps, however other work goes on meanwhile
  and whether or not the list will ever come to an end;
* `ListRun.Isolated` is what holds of each step that a list comes to;
* `ListRun.run_isolates` is the main result.
-/

namespace StepScript

namespace ListRun

variable {setup : Setup} {engine : Engine} {bindings : Option Variables} {numbering : Numbering}
  {number : String} {failed : Bool} {raw : Value} {step : Step}

/-! ## Steps that a list comes to -/

/-- A list comes to one of its steps in some state, after visits none of which has ended it. -/
structure Comes (setup : Setup) (engine : Engine) (bindings : Option Variables)
    (numbering : Numbering) (index : Nat) (steps : List Value) (failed : Bool) (s : RunState)
    (visits : List Visit) (raw : Value) (t : RunState) : Prop where
  walk : Walk setup engine bindings numbering index (steps.take visits.length) failed s visits t
  goesOn : ∀ v ∈ visits, v.verdict.aborts = false
  here : steps[visits.length]? = some raw

def someCounts (visits : List Visit) : Bool :=
  visits.any fun v => v.report.counts

section

variable {index : Nat} {steps rest : List Value} {s t : RunState} {visits : List Visit}

/-- A list comes to its first step at once. -/
theorem Comes.first :
    Comes setup engine bindings numbering index (raw :: rest) failed s [] raw s where
  walk := .done
  goesOn := by simp
  here := rfl

/-- A list comes to the steps behind one that has ended and not ended the list. -/
theorem Comes.next {first : Value} {status : StepStatus} {u : RunState}
    (hhandle : (handle setup engine (numbering index) failed first
      (entered bindings (numbering index) s)).Ends (.ended step status) t)
    (h : Comes setup engine bindings numbering (index + 1) rest
      (failed || (Verdict.failure? (numbering index) (.ended step status)).isSome)
      (Visit.reported ⟨numbering index, .ended step status, t⟩) visits raw u) :
    Comes setup engine bindings numbering index (first :: rest) failed s
      (⟨numbering index, .ended step status, t⟩ :: visits) raw u where
  walk := .next hhandle h.walk
  goesOn := List.forall_mem_cons.2 ⟨rfl, h.goesOn⟩
  here := h.here

/-- A list deals with a step that it has come to: whether it has failed before is told by what was
reported of its own steps. -/
def deal (setup : Setup) (engine : Engine) (bindings : Option Variables) (numbering : Numbering)
    (index : Nat) (failed : Bool) (visits : List Visit) (raw : Value) : Task Verdict :=
  visit setup engine bindings (numbering (index + visits.length)) (failed || someCounts visits) raw

/-- Without visits before it a step is dealt with as the list begins. -/
theorem deal_nil :
    deal setup engine bindings numbering index failed [] raw =
      visit setup engine bindings (numbering index) failed raw := by
  simp [deal, someCounts]

/-- A visit before it matters by whether its failure counts. -/
theorem deal_cons (v : Visit) (hv : v.number = numbering index) :
    deal setup engine bindings numbering index failed (v :: visits) raw =
      deal setup engine bindings numbering (index + 1)
        (failed || (v.verdict.failure? (numbering index)).isSome) visits raw := by
  have hindex : index + (visits.length + 1) = index + 1 + visits.length := by omega
  rw [← hv, ← v.report_counts]
  simp [deal, someCounts, Bool.or_assoc, hindex]

/-- Every step that was visited is one that the list has come to. -/
theorem Walk.comes (h : Walk setup engine bindings numbering index steps failed s visits t)
    {earlier later : List Visit} {v : Visit} (hvisits : visits = earlier ++ v :: later) :
    ∃ raw u, Comes setup engine bindings numbering index steps failed s earlier raw u ∧
      (deal setup engine bindings numbering index failed earlier raw u).Ends v.verdict
        v.reported := by
  induction h generalizing earlier with
  | done => simp at hvisits
  | @aborted index raw rest failed s t step cause hhandle =>
    cases earlier with
    | nil =>
      cases hvisits
      refine ⟨raw, s, .first, ?_⟩
      rw [deal_nil]
      exact ends_visit hhandle
    | cons u others => simp at hvisits
  | @next index raw rest failed s t s' step status visits hhandle hwalk ih =>
    cases earlier with
    | nil =>
      cases hvisits
      refine ⟨raw, s, .first, ?_⟩
      rw [deal_nil]
      exact ends_visit hhandle
    | cons u others =>
      -- the failure of the first step is one of those that the later steps come after
      cases hvisits
      rcases ih rfl with ⟨raw', u, hcomes, hends⟩
      refine ⟨raw', u, hcomes.next hhandle, ?_⟩
      rw [deal_cons _ rfl]
      exact hends

/-- Wherever a list has come, it is over or at a step that it has come to. -/
theorem runFrom_leads {results : List Value} {failures : List RunFailure} {path : List RunState}
    {q : Progress (Except RunFailure (List Value))}
    (h : (runFrom setup engine bindings numbering index steps results failures s).Leads path q) :
    ∃ visits u,
      (Walk setup engine bindings numbering index steps (!failures.isEmpty) s visits u ∧
        ∃ result, q = .finished result u) ∨
      ∃ raw after r next,
        Comes setup engine bindings numbering index steps (!failures.isEmpty) s visits raw u ∧
        (deal setup engine bindings numbering index (!failures.isEmpty) visits raw u).Leads after
          r ∧
        q = r.bind next := by
  induction steps generalizing index results failures s path with
  | nil =>
    cases h
    exact ⟨[], s, .inl ⟨.done, _, rfl⟩⟩
  | cons raw rest ih =>
    rw [runFrom_cons] at h
    rcases Progress.leads_bind h with ⟨r, hr, rfl⟩ | ⟨verdict, t, before, after, rfl, hvisit, hrest⟩
    · -- the first step has not come to an end yet
      refine ⟨[], s, .inr ⟨raw, path, r, _, .first, ?_, rfl⟩⟩
      rw [deal_nil]
      exact hr
    · rcases visit_ends hvisit.ends with ⟨u, hhandle, rfl⟩
      cases verdict with
      | aborted step cause =>
        cases hrest
        exact ⟨_, _, .inl ⟨.aborted hhandle, _, rfl⟩⟩
      | ended step status =>
        -- what is behind the list now is the first step and what is behind its rest
        rcases ih hrest with ⟨visits, w, hstage⟩
        rw [failed_append] at hstage
        rcases hstage with ⟨hwalk, hover⟩ | ⟨raw', after', r, next, hcomes, hdeal, rfl⟩
        · exact ⟨_, w, .inl ⟨.next hhandle hwalk, hover⟩⟩
        · refine ⟨_, w, .inr ⟨raw', after', r, next, hcomes.next hhandle, ?_, rfl⟩⟩
          rw [deal_cons _ rfl]
          exact hdeal

/-- To come to a step only the steps up to it are needed. -/
theorem Comes.of_take {n : Nat}
    (h : Comes setup engine bindings numbering index (steps.take n) failed s visits raw t) :
    Comes setup engine bindings numbering index steps failed s visits raw t := by
  have hshort : visits.length < n ∧ steps[visits.length]? = some raw := by
    simpa [List.getElem?_take] using h.here
  have hwalk := h.walk
  rw [List.take_take, Nat.min_eq_left (Nat.le_of_lt hshort.1)] at hwalk
  exact ⟨hwalk, h.goesOn, hshort.2⟩

end

/-! ## What a failure does to a step -/

/-- A raw step can be read: its short form is expanded, and the result is a step. -/
def Reads (setup : Setup) (number : String) (raw expanded : Value) (step : Step) : Prop :=
  Shorthand.expand setup.registry raw = .ok expanded ∧ read setup number expanded = .ok step

/-- A step that can be read is announced before anything else is done with it. -/
theorem visit_of_reads {expanded : Value} (h : Reads setup number raw expanded step)
    (failed : Bool) (s : RunState) :
    visit setup engine bindings number failed raw s =
      (conclude setup engine number failed raw (.ok step)
        { entered bindings number s with
          log := .before number expanded s.clock :: s.log }).bind fun verdict t =>
        .finished verdict (Visit.reported ⟨number, verdict, t⟩) := by
  rw [visit_eq, handle_of_prepare (prepare_of_expand_ok h.1), h.2]
  rfl

/-- Why a step is skipped after a failure. -/
def skipReason (step : Step) : SkipReason :=
  if step.disabled then .disabled else .priorFailure

/-- Skipping a step takes nothing but its flags. -/
theorem conclude_of_failed (hstays : step.runOnFailure = false) :
    conclude setup engine number true raw (.ok step) =
      Pure.pure (.ended step (.skipped (skipReason step))) := by
  refine conclude_of_execute ?_
  unfold execute skipReason
  cases step.disabled with
  | true => rfl
  | false => simp [hstays]

/-- A step that is to run on failure does not depend on one. -/
theorem conclude_of_runOnFailure (hruns : step.runOnFailure = true) (failed : Bool) :
    conclude setup engine number failed raw (.ok step) =
      conclude setup engine number false raw (.ok step) := by
  have hexecute : execute setup engine number failed step =
      execute setup engine number false step := by
    simp [execute, hruns]
  change execute setup engine number failed step >>= _ = _
  rw [hexecute]
  rfl

/-- A step that is run is not skipped for an earlier failure. -/
theorem statusOf_ne_priorFailure (step : Step) (result : Except Failure (Option Value)) :
    statusOf step result ≠ .skipped .priorFailure := by
  cases result with
  | error e => simp [statusOf]
  | ok value =>
    cases value with
    | none => simp [statusOf]
    | some v => simp [statusOf]

/-- Without a failure no step is skipped for one. -/
theorem handle_ne_priorFailure {s t : RunState} {verdict : Verdict}
    (h : (handle setup engine number false raw s).Ends verdict t) :
    verdict.status ≠ .skipped .priorFailure := by
  rcases handle_concludes h with ⟨prepared, s₁, -, hconcludes⟩
  cases hconcludes with
  | unread _ => simp [Verdict.status]
  | invalid => simp [Verdict.status]
  | aborted _ => simp [Verdict.status]
  | ended hexecutes =>
    cases hexecutes with
    | disabled _ => simp [Verdict.status]
    | priorFailure hfailed _ => cases hfailed
    | invoked _ _ => exact statusOf_ne_priorFailure _ _

/-- How a list deals with a step in some state, depending on whether an earlier one has failed. -/
structure Isolated (setup : Setup) (engine : Engine) (bindings : Option Variables)
    (number : String) (failed : Bool) (raw : Value) (s : RunState) : Prop where
  /-- After a failure, a step that can be read and is not to run on failure is skipped at once, with
  nothing but its two reports. -/
  skipped : failed = true → ∀ expanded step, Reads setup number raw expanded step →
    step.runOnFailure = false →
      visit setup engine bindings number failed raw s =
        .finished (.ended step (.skipped (skipReason step)))
          (Visit.reported ⟨number, .ended step (.skipped (skipReason step)),
            { entered bindings number s with
              log := .before number expanded s.clock :: s.log }⟩)
  /-- It is skipped for the same reason whatever its type, its properties and its condition are,
  whatever is registered and whatever an evaluation would come to. -/
  untouched : failed = true → ∀ (registry : Registry) engine step, step.runOnFailure = false →
    conclude { setup with registry := registry } engine number failed raw (.ok step) =
      Pure.pure (.ended step (.skipped (skipReason step)))
  /-- A step that is to run on failure is dealt with as if nothing had failed. -/
  unaffected : ∀ expanded step, Reads setup number raw expanded step → step.runOnFailure = true →
    visit setup engine bindings number failed raw = visit setup engine bindings number false raw
  /-- As long as no failure counts, no step is skipped for one. -/
  spared : failed = false → ∀ verdict t,
    (visit setup engine bindings number failed raw s).Ends verdict t →
      verdict.status ≠ .skipped .priorFailure

/-- Every step is dealt with as described, from any state and whatever has failed before. -/
theorem isolated (setup : Setup) (engine : Engine) (bindings : Option Variables) (number : String)
    (failed : Bool) (raw : Value) (s : RunState) :
    Isolated setup engine bindings number failed raw s where
  skipped hfailed expanded step hreads hstays := by
    rw [visit_of_reads hreads, hfailed, conclude_of_failed hstays]
    rfl
  untouched hfailed registry engine step hstays := by
    rw [hfailed]
    exact conclude_of_failed hstays
  unaffected expanded step hreads hruns := by
    funext t
    rw [visit_of_reads hreads, visit_of_reads hreads, conclude_of_runOnFailure hruns]
  spared hfailed verdict t hends := by
    rw [hfailed] at hends
    rcases visit_ends hends with ⟨u, hhandle, -⟩
    exact handle_ne_priorFailure hhandle

/-- How a list deals with its steps in a run that has come to some point. -/
structure Isolates (setup : Setup) (engine : Engine) (steps : StepList) (numbering : Numbering)
    (s : RunState) (visits : List Visit) (q : Progress (Except RunFailure (List Value))) : Prop where
  /-- The list is over after its visits, or it is dealing with the step that it has come to. -/
  stands :
    (∃ u result, Walk setup engine steps.bindings numbering 0 steps.steps false s visits u ∧
      q = .finished result u) ∨
    ∃ raw u after r next,
      Comes setup engine steps.bindings numbering 0 steps.steps false s visits raw u ∧
      (deal setup engine steps.bindings numbering 0 false visits raw u).Leads after r ∧
      q = r.bind next
  /-- Each visit has dealt with a step that the list had come to after those before it. -/
  behind : ∀ earlier v later, visits = earlier ++ v :: later → ∃ raw t,
    Comes setup engine steps.bindings numbering 0 steps.steps false s earlier raw t ∧
    (deal setup engine steps.bindings numbering 0 false earlier raw t).Ends v.verdict v.reported
  /-- A step that the list comes to is one after a failure if one of its own steps before it is
  reported with a failure that counts. -/
  isolated : ∀ earlier raw t,
    Comes setup engine steps.bindings numbering 0 steps.steps false s earlier raw t →
    Isolated setup engine steps.bindings (numbering earlier.length) (someCounts earlier) raw t

/-- In every run of a list, as far as it has come, a failure that counts isolates the steps after it:
those that are not to run on failure are skipped without a look at them, and the others are dealt with
as without a failure.  No other step is skipped for a failure. -/
theorem run_isolates (setup : Setup) (depth : Nat) (steps : StepList) (numbering : Numbering)
    (s : RunState) (path : List RunState) (q : Progress (Except RunFailure (List Value)))
    (h : (run setup (ListRun.engine setup depth) steps numbering s).Leads path q) :
    ∃ visits, Isolates setup (ListRun.engine setup depth) steps numbering s visits q := by
  have hisolated (earlier : List Visit) (raw : Value) (t : RunState) :=
    isolated setup (ListRun.engine setup depth) steps.bindings (numbering earlier.length)
      (someCounts earlier) raw t
  rcases runFrom_leads h with
    ⟨visits, u, ⟨hwalk, result, hover⟩ | ⟨raw, after, r, next, hcomes, hdeal, hq⟩⟩
  · exact ⟨visits,
      { stands := .inl ⟨u, result, hwalk, hover⟩
        behind := fun _ _ _ hvisits => hwalk.comes hvisits
        isolated := fun earlier raw t _ => hisolated earlier raw t }⟩
  · refine ⟨visits,
      { stands := .inr ⟨raw, u, after, r, next, hcomes, hdeal, hq⟩
        behind := fun _ _ _ hvisits => ?_
        isolated := fun earlier raw t _ => hisolated earlier raw t }⟩
    rcases hcomes.walk.comes hvisits with ⟨raw, t, hearlier, hends⟩
    exact ⟨raw, t, hearlier.of_take, hends⟩

/-- A step of unknown type, the condition of which is not an expression. -/
def unheardStep : Value :=
  .object [("type", .string "unheard"), ("condition", .string "not an expression")]

/-- A step that fails, one that is skipped for it, and one that is to run on failure. -/
def cleanupSteps : StepList where
  steps :=
    [.object [("fail", .string "no")], unheardStep,
      .object [("log", .string "bye"), ("runOnFailure", .bool true)]]
  bindings := none

def listEnds : Progress (Except RunFailure (List Value)) → Bool
  | .finished _ _ => true
  | _ => false

def endsFailing : Progress Verdict → Bool
  | .finished (.ended _ (.failed _ false)) _ => true
  | _ => false

/-- The second step is skipped for the failure of the first one, and the third one runs. -/
theorem cleanupSteps_isolates :
    ∃ result s' visits first step t u,
      (run (Setup.plain Registry.builtIn) (ListRun.engine (Setup.plain Registry.builtIn) 2)
        cleanupSteps topLevel (RunState.start Scope.empty)).Leads [] (.finished result s') ∧
      Isolates (Setup.plain Registry.builtIn) (ListRun.engine (Setup.plain Registry.builtIn) 2)
        cleanupSteps topLevel (RunState.start Scope.empty) visits (.finished result s') ∧
      someCounts [first] = true ∧
      visit (Setup.plain Registry.builtIn) (ListRun.engine (Setup.plain Registry.builtIn) 2)
        cleanupSteps.bindings (topLevel 1) true unheardStep t =
          .finished (.ended step (.skipped .priorFailure)) u := by
  have hrun : listEnds (run (Setup.plain Registry.builtIn)
      (ListRun.engine (Setup.plain Registry.builtIn) 2) cleanupSteps topLevel
      (RunState.start Scope.empty)) = true := by decide +kernel
  have hfails : endsFailing (handle (Setup.plain Registry.builtIn)
      (ListRun.engine (Setup.plain Registry.builtIn) 2) (topLevel 0) false
      (.object [("fail", .string "no")])
      (entered none (topLevel 0) (RunState.start Scope.empty))) = true := by decide +kernel
  have hreads : Reads (Setup.plain Registry.builtIn) (topLevel 1) unheardStep unheardStep
      { Step.ofType "unheard" (.object []) with condition := some "not an expression" } :=
    ⟨rfl, rfl⟩
  unfold listEnds at hrun
  split at hrun
  · rename_i result s' h
    have hleads := Progress.leads_nil.2 h
    rcases run_isolates _ _ _ _ _ _ _ hleads with ⟨visits, hisolates⟩
    unfold endsFailing at hfails
    split at hfails
    · rename_i failing cause t hhandle
      -- the list comes to its second step after the failure of the first one
      have hcomes : Comes (Setup.plain Registry.builtIn)
          (ListRun.engine (Setup.plain Registry.builtIn) 2) cleanupSteps.bindings topLevel 0
          cleanupSteps.steps false (RunState.start Scope.empty)
          [⟨topLevel 0, .ended failing (.failed cause false), t⟩] unheardStep _ :=
        .next (Progress.leads_nil.2 hhandle).ends .first
      have hskipped := (hisolates.isolated _ _ _ hcomes).skipped rfl _ _ hreads rfl
      exact ⟨result, s', visits, ⟨topLevel 0, .ended failing (.failed cause false), t⟩, _, _, _,
        hleads, hisolates, rfl, hskipped⟩
    · cases hfails
  · cases hrun

end ListRun

end StepScript
