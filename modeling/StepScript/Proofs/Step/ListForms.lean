import StepScript.Proofs.Run.Skipping
import StepScript.Proofs.Step.Reading

/-!
# Forms of a list — what the mark of a key takes for a list of steps

A list of steps is written as an array, as an object with `steps`, or as null.  `StepList.ofValue` reads
all of these forms.  `StepList.oneOrMany`, which the mark of a key goes by, reads arrays only; the other
forms of a list are single steps to it, like all that is no list.  No action stands behind such a step:
none of the steps that are written is reached, and the list of the mark ends with a fatal failure,
unless the object is disabled.

* `StepList.Writes` relates a value to the list that is written in it;
* `StepList.oneOrMany_eq_iff` says when both readings agree;
* `ListRun.run_fruitless` is about the run of a step without an action;
* `PropertyEvaluation.Mistaken` is what the mark of a key makes of a list that it takes for a step;
* `StepList.oneOrMany_reads` is the main result.
-/

namespace StepScript

namespace StepList

/-! ## Reading -/

/-- A list as it is written: an array, an object with an array, or null for no steps. -/
inductive Writes : Value → StepList → Prop
  | array (steps : List Value) (bindings : Option Variables) :
      Writes (.array steps bindings) ⟨steps, bindings⟩
  | object {fields : Variables} {steps : List Value} {inner bindings : Option Variables} :
      fields.find? "steps" = some (.array steps inner) → variablesOf fields = .ok bindings →
      Writes (.object fields) ⟨steps, bindings⟩
  | null : Writes .null empty

/-- The steps of an object are an array, whose own base variables are not looked at. -/
theorem stepsOf_eq_ok_iff {fields : Variables} {steps : List Value} :
    stepsOf fields = .ok steps ↔ ∃ inner, fields.find? "steps" = some (.array steps inner) := by
  unfold stepsOf
  constructor
  · intro h
    split at h
    · rename_i items inner hfind
      cases h
      exact ⟨inner, hfind⟩
    · cases h
  · rintro ⟨inner, hfind⟩
    rw [hfind]

/-- A value is read as the list that is written in it. -/
theorem ofValue_eq_ok_iff {v : Value} {l : StepList} : ofValue v = .ok l ↔ Writes v.resolved l := by
  constructor
  · intro h
    unfold ofValue at h
    split at h
    · rename_i steps bindings hv
      cases h
      rw [hv]
      exact .array steps bindings
    · rename_i fields hv
      split at h
      · rcases ok_of_bind h with ⟨bindings, hbindings, h⟩
        rcases ok_of_bind h with ⟨steps, hsteps, h⟩
        cases h
        obtain ⟨inner, hfind⟩ := stepsOf_eq_ok_iff.1 hsteps
        rw [hv]
        exact .object hfind hbindings
      · cases h
    · rename_i hv
      cases h
      rw [hv]
      exact .null
    · cases h
  · intro h
    unfold ofValue
    generalize v.resolved = r at h
    cases h with
    | array steps bindings => rfl
    | null => rfl
    | @object fields steps inner bindings hfind hbindings =>
      have hcontains : Table.contains fields "steps" = true := by simp [Table.contains, hfind]
      have hsteps : stepsOf fields = .ok steps := stepsOf_eq_ok_iff.2 ⟨inner, hfind⟩
      simp only [hcontains, hbindings, hsteps, if_true, bind, Except.bind, pure, Except.pure]

/-- The value, or what it yields, is an array. -/
def InArray (v : Value) : Prop :=
  ∃ steps bindings, v.resolved = .array steps bindings

/-- Anything but an array is a single step, an object too. -/
theorem oneOrMany_of_not_inArray {v : Value} (h : ¬ InArray v) :
    oneOrMany v = ⟨[v.resolved], none⟩ := by
  unfold oneOrMany
  split
  · rename_i steps bindings hv
    exact absurd ⟨steps, bindings, hv⟩ h
  · rfl

/-- What an object has under a key is smaller than the object. -/
theorem sizeOf_lt_of_find? {fields : Variables} {key : String} {v : Value}
    (h : fields.find? key = some v) : sizeOf v < sizeOf fields := by
  induction fields with
  | nil => cases h
  | cons e rest ih =>
    obtain ⟨k, w⟩ := e
    rw [Table.find?] at h
    split at h
    · cases h
      simp
      omega
    · have := ih h
      simp
      omega

/-- No list has the value in which it is written as its only step. -/
theorem Writes.ne_single {v : Value} {l : StepList} (h : Writes v l) : l.steps ≠ [v] := by
  intro hsteps
  cases h with
  | array steps bindings =>
    have hsize := congrArg sizeOf hsteps
    simp at hsize
    omega
  | @object fields steps inner bindings hfind _ =>
    cases hsteps
    have hsize := sizeOf_lt_of_find? hfind
    simp at hsize
    omega
  | null => cases hsteps

/-- The two readings agree on the arrays and on nothing else. -/
theorem oneOrMany_eq_iff {v : Value} {l : StepList} (h : ofValue v = .ok l) :
    oneOrMany v = l ↔ InArray v := by
  constructor
  · intro hsame
    by_contra hv
    rw [oneOrMany_of_not_inArray hv] at hsame
    exact (ofValue_eq_ok_iff.1 h).ne_single (congrArg steps hsame).symm
  · rintro ⟨steps, bindings, hv⟩
    simp only [ofValue, hv] at h
    cases h
    simp only [oneOrMany, hv]

end StepList

/-! ## Steps without an action -/

/-- Work that comes to an end at once and reports of no step but one. -/
def Progress.ReportsOnly {α : Type} (p : Progress α) (number : String) (s : RunState) (a : α) : Prop :=
  ∃ t own, p = .finished a t ∧ t.log = own ++ s.log ∧ ∀ event ∈ own, event.number = number

namespace Progress.ReportsOnly

variable {α β : Type} {p : Progress α} {number : String} {s t : RunState} {a : α}

theorem finished (hlog : t.log = s.log) : (Progress.finished a t).ReportsOnly number s a :=
  ⟨t, [], rfl, hlog, fun _ h => absurd h List.not_mem_nil⟩

theorem report {event : Event} (hnumber : event.number = number) (hlog : t.log = event :: s.log) :
    (Progress.finished a t).ReportsOnly number s a := by
  refine ⟨t, [event], rfl, hlog, fun other hother => ?_⟩
  rw [List.mem_singleton.1 hother, hnumber]

theorem bind {next : α → RunState → Progress β} {b : β} (h : p.ReportsOnly number s a)
    (hnext : ∀ t, (next a t).ReportsOnly number t b) : (p.bind next).ReportsOnly number s b := by
  obtain ⟨t, own, rfl, hlog, hown⟩ := h
  obtain ⟨t', own', hfinished, hlog', hown'⟩ := hnext t
  refine ⟨t', own' ++ own, hfinished, by rw [hlog', hlog, List.append_assoc], fun event hevent => ?_⟩
  rcases List.mem_append.1 hevent with hevent | hevent
  · exact hown' event hevent
  · exact hown event hevent

end Progress.ReportsOnly

namespace ListRun

/-- Whatever a raw step is read as, its type is unknown. -/
def Actionless (registry : Registry) (raw : Value) : Prop :=
  ∀ expanded step, Shorthand.expand registry raw = .ok expanded →
    Step.ofValue expanded = .ok step → registry.find? step.type = none

/-- What becomes of a step without an action: it is skipped if it is disabled, and ends its list
otherwise. -/
inductive Fruitless : Bool → Verdict → Prop
  | skipped (step : Step) : Fruitless true (.ended step (.skipped .disabled))
  | aborted (step : Step) {cause : RunFailure} :
      cause.isFatal = true → Fruitless false (.aborted step cause)

/-- What becomes of a list that consists of such a step. -/
inductive FruitlessList : Bool → Except RunFailure (List Value) → Prop
  | skipped : FruitlessList true (.ok [])
  | aborted {cause : RunFailure} : cause.isFatal = true → FruitlessList false (.error cause)

section Actionless

variable {registry : Registry} {raw : Value}

/-- A step that cannot be read is skipped if its placeholder is disabled, and ends its list
otherwise. -/
theorem conclude_unread_fruitless (registry : Registry) (e : Engine) (number : String) (raw : Value)
    {cause : RunFailure} (hcause : cause.isFatal = true) :
    ∃ verdict, conclude (Setup.plain registry) e number false raw (.error cause) = Pure.pure verdict ∧
      Fruitless (Step.placeholder raw).disabled verdict := by
  refine ⟨_, conclude_unread _ e number false raw cause, ?_⟩
  cases (Step.placeholder raw).disabled with
  | true => exact .skipped _
  | false => exact .aborted _ hcause

/-- A step of unknown type is skipped if it is disabled, and ends its list otherwise. -/
theorem conclude_fruitless (e : Engine) (number : String) (raw : Value) {step : Step}
    (hstep : registry.find? step.type = none) :
    ∃ verdict, conclude (Setup.plain registry) e number false raw (.ok step) = Pure.pure verdict ∧
      Fruitless step.disabled verdict := by
  cases hdisabled : step.disabled with
  | true =>
    refine ⟨_, conclude_of_execute ?_, .skipped step⟩
    unfold execute
    rw [if_pos hdisabled]
  | false =>
    have hexecute : execute (Setup.plain registry) e number false step =
        Pure.pure (.error (.unknownType step.type number)) := by
      simp [execute, hdisabled, Setup.plain, hstep]
    refine ⟨.aborted step (.unknownType step.type number), ?_, .aborted step rfl⟩
    change execute (Setup.plain registry) e number false step >>= _ = _
    rw [hexecute]
    rfl

/-- So a raw step without an action is dealt with at once, and nothing but itself is reported. -/
theorem handle_fruitless (hraw : Actionless registry raw) (e : Engine) (number : String)
    (s : RunState) :
    ∃ verdict, Fruitless (Step.placeholder raw).disabled verdict ∧
      (handle (Setup.plain registry) e number false raw s).ReportsOnly number s verdict := by
  cases hexpand : Shorthand.expand registry raw with
  | error reason =>
    obtain ⟨verdict, hconclude, hfruitless⟩ := conclude_unread_fruitless registry e number raw
      (show (RunFailure.invalid number (.step reason)).isFatal = true from rfl)
    have hprepare : prepare (Setup.plain registry) number raw s =
        .finished (.error (.invalid number (.step reason))) s := prepare_of_expand_error hexpand
    refine ⟨verdict, hfruitless, ?_⟩
    rw [handle_of_prepare hprepare, hconclude]
    exact .finished rfl
  | ok expanded =>
    have hprepared : ∃ verdict, conclude (Setup.plain registry) e number false raw
        (read (Setup.plain registry) number expanded) = Pure.pure verdict ∧
        Fruitless (Step.placeholder raw).disabled verdict := by
      cases hread : read (Setup.plain registry) number expanded with
      | error cause =>
        obtain ⟨reason, rfl⟩ := read_error hread
        exact conclude_unread_fruitless registry e number raw rfl
      | ok step =>
        have hstep := ofValue_of_read hread
        rw [Step.placeholder_disabled hexpand hstep]
        exact conclude_fruitless e number raw (hraw expanded step hexpand hstep)
    obtain ⟨verdict, hconclude, hfruitless⟩ := hprepared
    have hprepare : prepare (Setup.plain registry) number raw s =
        .finished (read (Setup.plain registry) number expanded)
          { s with log := .before number expanded s.clock :: s.log } := prepare_of_expand_ok hexpand
    refine ⟨verdict, hfruitless, ?_⟩
    rw [handle_of_prepare hprepare, hconclude]
    exact .report (rfl : (Event.before number expanded s.clock).number = number) rfl

/-- A list that consists of a step without an action ends at once, and reports of no other step. -/
theorem run_fruitless (hraw : Actionless registry raw) (e : Engine) (bindings : Option Variables)
    (numbering : Numbering) (s : RunState) :
    ∃ outcome, FruitlessList (Step.placeholder raw).disabled outcome ∧
      (run (Setup.plain registry) e ⟨[raw], bindings⟩ numbering s).ReportsOnly (numbering 0) s
        outcome := by
  obtain ⟨verdict, hfruitless, hhandle⟩ :=
    handle_fruitless hraw e (numbering 0) (entered bindings (numbering 0) s)
  have hvisit : (visit (Setup.plain registry) e bindings (numbering 0) false raw s).ReportsOnly
      (numbering 0) s verdict := by
    rw [visit_eq]
    exact hhandle.bind fun t => .report (Visit.report_number ⟨numbering 0, verdict, t⟩) rfl
  unfold run
  rw [runFrom_cons]
  generalize (Step.placeholder raw).disabled = disabled at hfruitless
  cases hfruitless with
  | skipped step => exact ⟨.ok [], .skipped, hvisit.bind fun t => .finished rfl⟩
  | aborted step hcause => exact ⟨.error _, .aborted hcause, hvisit.bind fun t => .finished rfl⟩

end Actionless

end ListRun

namespace Engine

variable {e : Engine} {steps : StepList} {numbering : Numbering} {s : RunState} {number : String}

/-- Nested running reports what the list does. -/
theorem runNested_reportsOnly {outcome : Except RunFailure (List Value)}
    (h : (e.runList steps numbering s).ReportsOnly number s outcome) :
    (e.runNested steps numbering s).ReportsOnly number s outcome := by
  change ((e.runList steps numbering s).bind _).ReportsOnly number s outcome
  refine h.bind fun t => ?_
  change ((restore Scope.stepNumberName (s.scope.get? Scope.stepNumberName) t).bind
    fun _ t => .finished outcome t).ReportsOnly number t outcome
  -- putting the number back reports nothing
  cases s.scope.get? Scope.stepNumberName with
  | some v => exact .finished rfl
  | none => exact .finished rfl

/-- Running a list as steps of an action reports what the list does. -/
theorem runSteps_reportsOnly {outcome : Except RunFailure (List Value)}
    (h : (e.runList steps numbering s).ReportsOnly number s outcome) :
    ((e.runSteps steps numbering).run s).ReportsOnly number s (outcome.mapError Failure.run) := by
  change ((e.runNested steps numbering s).bind _).ReportsOnly number s _
  refine (runNested_reportsOnly h).bind fun t => ?_
  cases outcome with
  | ok results => exact .finished rfl
  | error cause => exact .finished rfl

end Engine

/-! ## Lists that are taken for steps -/

namespace PropertyEvaluation

def markNumbering (key : String) (s : RunState) : Numbering :=
  fun i => s.scope.stepNumber.getD "" ++ "-" ++ key ++ "-" ++ toString i

theorem runAsSteps_reportsOnly {e : Engine} {key : String} {v : Value} {s : RunState}
    {outcome : Except RunFailure (List Value)} (collect : Collect)
    (h : (e.marked.runList (StepList.oneOrMany v) (markNumbering key s) s).ReportsOnly
      (markNumbering key s 0) s outcome) :
    ((runAsSteps e key collect v).run s).ReportsOnly (markNumbering key s 0) s
      ((outcome.mapError Failure.run).map (kept collect)) := by
  have hsteps := Engine.runSteps_reportsOnly h
  change ((e.marked.runSteps (StepList.oneOrMany v) (markNumbering key s) >>= fun results =>
    (return kept collect results : Attempt Value)).run s).ReportsOnly _ s _
  rw [Attempt.run_bind]
  refine hsteps.bind fun t => ?_
  cases outcome with
  | ok results => exact .finished rfl
  | error cause => exact .finished rfl

/-- What the mark of a key makes of a value that it takes for a single step, without an action for it:
nothing if the step is disabled, and a fatal failure otherwise.  No other step is reported. -/
structure Mistaken (registry : Registry) (depth : Nat) (key : String) (collect : Collect)
    (v : Value) (s : RunState) : Prop where
  skipped : (Step.placeholder v).disabled = true →
    ((runAsSteps (ListRun.engine (Setup.plain registry) (depth + 1)) key collect v).run s).ReportsOnly
      (markNumbering key s 0) s (.ok (kept collect []))
  fails : (Step.placeholder v).disabled = false → ∃ cause : RunFailure, cause.isFatal = true ∧
    ((runAsSteps (ListRun.engine (Setup.plain registry) (depth + 1)) key collect v).run s).ReportsOnly
      (markNumbering key s 0) s (.error (.run cause))

end PropertyEvaluation

namespace StepList

open PropertyEvaluation

variable {v : Value} {l : StepList}

/-- A lazy step is described as what it yields. -/
theorem placeholder_resolved (v : Value) : Step.placeholder v.resolved = Step.placeholder v := by
  have hresolved : v.resolved.resolved = v.resolved := by
    induction v using Value.resolved.induct with
    | case1 v ih => exact ih
    | case2 v hv => rw [Value.resolved.eq_2 v hv, Value.resolved.eq_2 v hv]
  simp only [Step.placeholder, hresolved]

/-- The object form of a list, and null, have no action if read as a single step. -/
theorem actionless_of_not_inArray {registry : Registry} (hsteps : registry.find? "steps" = none)
    (hread : ofValue v = .ok l) (hv : ¬ InArray v) : ListRun.Actionless registry v.resolved := by
  intro expanded step hexpand hstep
  have hwrites := ofValue_eq_ok_iff.1 hread
  generalize hr : v.resolved = r at hwrites hexpand
  cases hwrites with
  | array steps bindings => exact absurd ⟨steps, bindings, hr⟩ hv
  | null =>
    cases hexpand
    cases hstep
  | @object fields steps inner bindings hfind _ =>
    -- the object could only be the short form of a step of the type `steps`
    have hmem : "steps" ∈ Table.names fields := by
      by_contra hnot
      rw [Table.find?_eq_none_iff.2 hnot] at hfind
      cases hfind
    rw [Step.type_eq_of_not_mem_keys hmem (by decide) rfl hexpand hstep]
    exact hsteps

/-- A list in a form other than an array comes to a single mistaken step when a key runs it. -/
theorem mistaken_of_not_inArray {registry : Registry} (hsteps : registry.find? "steps" = none)
    (hread : ofValue v = .ok l) (hv : ¬ InArray v) (depth : Nat) (key : String) (collect : Collect)
    (s : RunState) : Mistaken registry depth key collect v s := by
  have hraw := actionless_of_not_inArray hsteps hread hv
  obtain ⟨outcome, houtcome, hrun⟩ := ListRun.run_fruitless hraw
    (ListRun.engine (Setup.plain registry) depth) none (markNumbering key s) s
  rw [← oneOrMany_of_not_inArray hv] at hrun
  have hreports := runAsSteps_reportsOnly
    (e := ListRun.engine (Setup.plain registry) (depth + 1)) collect hrun
  rw [placeholder_resolved] at houtcome
  generalize hdisabled : (Step.placeholder v).disabled = disabled at houtcome
  cases houtcome with
  | skipped =>
    refine ⟨fun _ => hreports, fun henabled => ?_⟩
    rw [hdisabled] at henabled
    cases henabled
  | @aborted cause hcause =>
    refine ⟨fun hskipped => ?_, fun _ => ⟨cause, hcause, hreports⟩⟩
    rw [hdisabled] at hskipped
    cases hskipped

/-- Both readings of a list of steps agree on arrays, with or without base variables.  To the mark of a
key anything else is a single step.  This is right for what is no list; the other forms of a list are
steps without an action then. -/
theorem oneOrMany_reads (v : Value) :
    (∀ reason, ofValue v = .error reason → oneOrMany v = ⟨[v.resolved], none⟩) ∧
      ∀ l, ofValue v = .ok l → (oneOrMany v = l ↔ InArray v) ∧
        (¬ InArray v → oneOrMany v = ⟨[v.resolved], none⟩ ∧
          ∀ registry depth key collect s, Registry.find? registry "steps" = none →
            Mistaken registry depth key collect v s) := by
  constructor
  · intro reason hread
    refine oneOrMany_of_not_inArray ?_
    rintro ⟨steps, bindings, hv⟩
    simp only [ofValue, hv] at hread
    cases hread
  · intro l hread
    exact ⟨oneOrMany_eq_iff hread, fun hv => ⟨oneOrMany_of_not_inArray hv,
      fun registry depth key collect s hsteps =>
        mistaken_of_not_inArray hsteps hread hv depth key collect s⟩⟩

/-- A step and its base variables, in the object form of a list. -/
def greetings : Variables :=
  [("variables", .object [("who", .string "x")]), ("steps", .list [.object [("echo", .string "hi")]])]

/-- In an array the step and its base variables are read, and in the object form the mark of a key does
not find the step. -/
theorem greetings_read :
    let l : StepList := ⟨[.object [("echo", .string "hi")]], some [("who", .string "x")]⟩
    oneOrMany (.lazy l.toValue) = l ∧ ofValue (.object greetings) = .ok l ∧
      oneOrMany (.object greetings) ≠ l ∧
      oneOrMany (.string "log") = ⟨[.string "log"], none⟩ ∧
      ∃ cause : RunFailure, cause.isFatal = true ∧
        ((runAsSteps (ListRun.engine (Setup.plain Registry.builtIn) 2) "k" .last
          (.object greetings)).run (RunState.start Scope.empty)).ReportsOnly "-k-0"
            (RunState.start Scope.empty) (.error (.run cause)) := by
  intro l
  have hnot : ¬ InArray (.object greetings) := by
    rintro ⟨steps, bindings, h⟩
    cases h
  obtain ⟨harray, -⟩ := (oneOrMany_reads (.lazy l.toValue)).2 l rfl
  obtain ⟨hobject, hmistaken⟩ := (oneOrMany_reads (.object greetings)).2 l rfl
  have hfails := ((hmistaken hnot).2 Registry.builtIn 1 "k" .last (RunState.start Scope.empty)
    rfl).fails rfl
  exact ⟨harray.2 ⟨_, _, rfl⟩, rfl, fun hsame => hnot (hobject.1 hsame),
    (oneOrMany_reads (.string "log")).1 _ rfl, hfails⟩

/-- The object form of a list is a list, and the mark of a key takes it for a step. -/
theorem objectForm_single :
    ofValue (.object greetings) =
        .ok ⟨[.object [("echo", .string "hi")]], some [("who", .string "x")]⟩ ∧
      oneOrMany (.object greetings) = ⟨[.object greetings], none⟩ ∧
      ∃ l, ofValue (.object greetings) = .ok l ∧ oneOrMany (.object greetings) ≠ l := by
  refine ⟨rfl, rfl, _, rfl, fun hsame => ?_⟩
  cases congrArg bindings hsame

end StepList

end StepScript
