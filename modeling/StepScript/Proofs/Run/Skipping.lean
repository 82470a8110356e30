import StepScript.Proofs.Run.Likeness
import StepScript.Proofs.Scope.Layers
import StepScript.Proofs.Step.Reading

/-!
# Skipping — a skipped step leaves nothing but its own reports

A step that is skipped changes nothing.  What its list has stored for it, the base variables and its
number, is stored again for the next step.  So a list without the step, whose other steps keep their
numbers, has the same outcome and reports the same of all of its other steps and of those that are
nested in them.

* `Spliced` relates the states of the two runs, which differ in what was reported of the step;
* `ListRun.entered_scope`: for the next step it does not matter what was entered before it;
* `ListRun.skipped_inert` is the main result, which also says that an object with `disabled` set is
  skipped whatever else it has.
-/

namespace StepScript

/-! ## Reports that are left out -/

/-- The second state is the first one in which the log has another beginning. -/
def Spliced (base base' : List Event) (s s' : RunState) : Prop :=
  ∃ new, s.log = new ++ base ∧ s' = { s with log := new ++ base' }

/-- States that differ in the beginning of their logs cannot be told apart by a run. -/
theorem spliced_likeness (base base' : List Event) : Likeness (Spliced base base') where
  scope := by
    rintro s _ ⟨new, -, rfl⟩
    rfl
  clock := by
    rintro s _ ⟨new, -, rfl⟩
    rfl
  timers := by
    rintro s _ ⟨new, -, rfl⟩
    rfl
  store := by
    rintro s _ scope ⟨new, hlog, rfl⟩
    exact ⟨new, hlog, rfl⟩
  advance := by
    rintro s _ clock ⟨new, hlog, rfl⟩
    exact ⟨new, hlog, rfl⟩
  await := by
    rintro s _ ⟨new, hlog, rfl⟩
    exact ⟨new, hlog, rfl⟩
  report := by
    rintro s _ event ⟨new, hlog, rfl⟩
    exact ⟨event :: new, by simp [hlog], rfl⟩
  drop := by
    rintro s _ ⟨new, hlog, rfl⟩
    exact ⟨new, hlog, rfl⟩

/-- Others that do not depend on what was reported do the same to both states. -/
theorem spliced_moves {moves : Moves} (hblind : moves.Blind) {base base' : List Event} ⦃due : Nat⦄
    ⦃s s' now : RunState⦄ (h : Spliced base base' s s') (hmove : moves due s now) :
    ∃ now', moves due s' now' ∧ Spliced base base' now now' := by
  rcases h with ⟨new, hlog, rfl⟩
  rcases hblind hmove with ⟨more, hnow, hany⟩
  refine ⟨_, hany (new ++ base'), more ++ new, ?_, ?_⟩
  · rw [hnow, hlog, List.append_assoc]
  · rw [List.append_assoc]

namespace ListRun

variable {setup : Setup} {e : Engine} {bindings : Option Variables} {numbering : Numbering}
  {number : String} {failed : Bool} {raw : Value} {step : Step}

/-- For the next step it does not matter what was entered for one before it. -/
theorem entered_scope (bindings : Option Variables) (number next : String) {s t : RunState}
    (h : t.scope = (entered bindings number s).scope) :
    (entered bindings next t).scope = (entered bindings next s).scope := by
  have hholds := Scope.holds_extend s.scope (bindings.getD [])
  change (t.scope.extend _).put _ _ = (s.scope.extend _).put _ _
  rw [h]
  change (((s.scope.extend _).put _ _).extend _).put _ _ = _
  rw [Scope.put_extend_put hholds, Scope.extend_extend]

/-! ## Steps that are skipped -/

/-- Evaluating a condition changes nothing. -/
theorem conditionHolds_ends {s t : RunState} {result : Except Failure Bool}
    (h : ((conditionHolds step).run s).Ends result t) : t = s := by
  unfold conditionHolds at h
  cases hcondition : step.condition with
  | none =>
    rw [hcondition] at h
    cases h
    rfl
  | some code =>
    rw [hcondition] at h
    rcases Attempt.ends_bind h with ⟨e, hends, -⟩ | ⟨v, s₁, hends, hrest⟩
    · rcases Attempt.ends_during hends with ⟨found, hfound⟩
      exact Attempt.ends_expression hfound
    · cases hrest
      rcases Attempt.ends_during hends with ⟨found, hfound⟩
      exact Attempt.ends_expression hfound

/-- A step that has no value has not gone beyond its condition. -/
theorem invoke_ends_none {descriptor : Descriptor} {s t : RunState}
    (h : ((invoke e number step descriptor).run s).Ends (.ok none) t) : t = s := by
  rcases Attempt.ends_bind h with ⟨_, -, hfalse⟩ | ⟨holds, s₁, hcondition, hrest⟩
  · cases hfalse
  · cases holds with
    | false =>
      cases hrest
      exact conditionHolds_ends hcondition
    | true =>
      rcases Attempt.ends_bind hrest with ⟨_, -, hfalse⟩ | ⟨values, s₂, -, hrest⟩
      · cases hfalse
      · cases hproperties : Properties.ofValue values with
        | error e =>
          rw [hproperties] at hrest
          cases hrest
        | ok p =>
          rw [hproperties] at hrest
          rcases Attempt.ends_bind hrest with ⟨_, -, hfalse⟩ | ⟨action, s₃, -, hrest⟩
          · cases hfalse
          · rcases Attempt.ends_bind hrest with ⟨_, -, hfalse⟩ | ⟨v, s₄, -, hrest⟩
            · cases hfalse
            · cases hrest

/-- A step that is skipped once it has been read, or could not be, is left at that. -/
theorem conclude_ends_skipped {prepared : Except RunFailure Step} {reason : SkipReason}
    {s t : RunState}
    (h : (conclude setup e number failed raw prepared s).Ends (.ended step (.skipped reason)) t) :
    t = s := by
  cases conclude_concludes h with
  | unread _ => rfl
  | ended hexecutes =>
    generalize hstatus : StepStatus.skipped reason = status at hexecutes
    cases hexecutes with
    | disabled _ => rfl
    | priorFailure _ _ => rfl
    | @invoked descriptor result _ _ hinvoke =>
      rcases result with cause | (_ | v)
      · cases hstatus
      · exact invoke_ends_none hinvoke
      · cases hstatus

/-- A step that is skipped was announced at most. -/
theorem handle_ends_skipped {reason : SkipReason} {s t : RunState}
    (h : (handle setup e number failed raw s).Ends (.ended step (.skipped reason)) t) :
    t = s ∨ ∃ expanded, t = { s with log := .before number expanded s.clock :: s.log } := by
  cases hexpand : Shorthand.expand setup.registry raw with
  | error reason =>
    rw [handle_of_prepare (prepare_of_expand_error hexpand)] at h
    exact .inl (conclude_ends_skipped h)
  | ok expanded =>
    rw [handle_of_prepare (prepare_of_expand_ok hexpand)] at h
    exact .inr ⟨expanded, conclude_ends_skipped h⟩

/-- What is reported of a step that is skipped. -/
inductive Visit.Skips (v : Visit) : List Event → Prop
  | unread : Skips v [v.report]
  | announced (raw : Value) (time : Nat) : Skips v [.before v.number raw time, v.report]

/-- Skipping a step changes no more than entering and reporting it. -/
theorem visit_skipped {reason : SkipReason} {s u : RunState}
    (h : (handle setup e number failed raw (entered bindings number s)).Ends
      (.ended step (.skipped reason)) u) :
    ∃ own, Visit.Skips ⟨number, .ended step (.skipped reason), u⟩ own ∧
      Visit.reported ⟨number, .ended step (.skipped reason), u⟩ =
        { entered bindings number s with log := own.reverse ++ s.log } := by
  rcases handle_ends_skipped h with rfl | ⟨expanded, rfl⟩
  · exact ⟨_, .unread, rfl⟩
  · exact ⟨_, .announced expanded s.clock, rfl⟩

/-! ## Lists without a step -/

/-- The numbers of a list without its step of some index: the others keep theirs. -/
def without (numbering : Numbering) (removed : Nat) : Numbering :=
  fun i => if i < removed then numbering i else numbering (i + 1)

/-- The steps behind the one that is left out are numbered as they are in the whole list. -/
theorem runFrom_without (bindings : Option Variables) (numbering : Numbering) {index removed : Nat}
    (hle : removed ≤ index) (steps results : List Value) (failures : List RunFailure) :
    runFrom setup e bindings (without numbering removed) index steps results failures =
      runFrom setup e bindings numbering (index + 1) steps results failures := by
  induction steps generalizing index results failures with
  | nil => rfl
  | cons raw rest ih =>
    have hnumber : without numbering removed index = numbering (index + 1) :=
      if_neg (Nat.not_lt.2 hle)
    rw [runFrom_cons, runFrom_cons, hnumber]
    refine congrArg (_ >>= ·) ?_
    funext verdict
    simp only [ih (show removed ≤ index + 1 by omega)]

section

variable {moves : Moves} {index : Nat} {rest results : List Value} {failures : List RunFailure}
  {s t s' : RunState} {result : Except RunFailure (List Value)}

/-- A list goes on after a step that was skipped as it would have without that step. -/
theorem runFrom_after_skipped (hblind : moves.Blind)
    (hengine : ∀ base base', Engine.Alike (Spliced base base') False e e) (number : String)
    (own : List Event)
    (h : (runFrom setup e bindings numbering index rest results failures
      { entered bindings number s with log := own ++ s.log }).EndsAmong moves result s') :
    ∃ s'' new,
      (runFrom setup e bindings numbering index rest results failures s).EndsAmong moves result
        s'' ∧
      s'.log = new ++ own ++ s.log ∧ s''.log = new ++ s.log := by
  cases rest with
  | nil =>
    -- what was entered for the step is still in the scope, but there is no next step
    cases h
    exact ⟨s, [], .finished _ _, rfl, rfl⟩
  | cons raw rest =>
    have hscope := entered_scope bindings number (numbering index)
      (s := s) (t := { entered bindings number s with log := own ++ s.log }) rfl
    have hspliced : Spliced (own ++ s.log) s.log
        (entered bindings (numbering index)
          { entered bindings number s with log := own ++ s.log })
        (entered bindings (numbering index) s) := by
      refine ⟨[], rfl, ?_⟩
      unfold entered at hscope ⊢
      dsimp only at hscope ⊢
      rw [hscope]
      rfl
    -- from the next step on, the two lists differ only in what was reported of the skipped one
    have halike : (runFrom setup e bindings numbering index (raw :: rest) results failures _).Alike
        (Spliced (own ++ s.log) s.log) False (fun _ => False) _ :=
      runFrom_alike_of_entered (spliced_likeness _ _) (hengine (own ++ s.log) s.log) bindings
        numbering index raw rest results failures hspliced
    rcases halike.endsAmong (spliced_moves hblind) h with ⟨s'', hends, new, hlog, rfl⟩
    exact ⟨_, new, hends, by rw [hlog, List.append_assoc], rfl⟩

/-- A list without its first step, if that one is skipped. -/
theorem runFrom_without_first (hblind : moves.Blind)
    (hengine : ∀ base base', Engine.Alike (Spliced base base') False e e) {reason : SkipReason}
    {u : RunState}
    (hhandle : (handle setup e (numbering index) failed raw (entered bindings (numbering index) s)).Ends
      (.ended step (.skipped reason)) u)
    (hrest : (runFrom setup e bindings numbering (index + 1) rest results failures
      (Visit.reported ⟨numbering index, .ended step (.skipped reason), u⟩)).EndsAmong moves result s') :
    ∃ s'' before own after,
      (runFrom setup e bindings (without numbering index) index rest results failures s).EndsAmong
        moves result s'' ∧
      Visit.Skips ⟨numbering index, .ended step (.skipped reason), u⟩ own ∧
      s'.events = before ++ own ++ after ∧ s''.events = before ++ after := by
  obtain ⟨own, hown, hreported⟩ := visit_skipped hhandle
  rw [hreported] at hrest
  obtain ⟨s'', new, hends, hlog, hlog'⟩ :=
    runFrom_after_skipped hblind hengine (numbering index) own.reverse hrest
  rw [← runFrom_without bindings numbering (Nat.le_refl index)] at hends
  exact ⟨s'', s.events, own, new.reverse, hends, hown, by simp [RunState.events, hlog],
    by simp [RunState.events, hlog']⟩

/-- A list without one of its steps that were skipped. -/
theorem runFrom_skips (hblind : moves.Blind)
    (hengine : ∀ base base', Engine.Alike (Spliced base base') False e e) {steps : List Value}
    (h : (runFrom setup e bindings numbering index steps results failures s).EndsAmong moves result
      s') :
    ∃ visits, Walk setup e bindings numbering index steps (!failures.isEmpty) s visits s' ∧
      ∀ earlier v later step reason, visits = earlier ++ v :: later →
        v.verdict = .ended step (.skipped reason) →
        ∃ s'' before own after,
          (runFrom setup e bindings (without numbering (index + earlier.length)) index
            (steps.eraseIdx earlier.length) results failures s).EndsAmong moves result s'' ∧
          v.Skips own ∧ s'.events = before ++ own ++ after ∧ s''.events = before ++ after := by
  induction steps generalizing index results failures s with
  | nil =>
    cases h
    exact ⟨[], .done, fun earlier v later _ _ hvisits => by simp at hvisits⟩
  | cons raw rest ih =>
    rw [runFrom_cons] at h
    rcases Progress.endsAmong_bind h with ⟨verdict, t, hvisit, hrest⟩
    rcases visit_ends (hvisit.ends hblind) with ⟨u, hhandle, rfl⟩
    cases verdict with
    | aborted step cause =>
      cases hrest
      refine ⟨_, .aborted hhandle, fun earlier v later step' reason hvisits hskipped => ?_⟩
      cases earlier with
      | nil =>
        cases hvisits
        cases hskipped
      | cons w others => simp at hvisits
    | ended step status =>
      rcases ih hrest with ⟨visits, hwalk, hskips⟩
      rw [failed_append] at hwalk
      refine ⟨_, .next hhandle hwalk, fun earlier v later step' reason hvisits hskipped => ?_⟩
      cases earlier with
      | nil =>
        -- the first step is the one that is left out
        cases hvisits
        cases hskipped
        refine runFrom_without_first hblind hengine hhandle ?_
        simpa [Verdict.value?, Verdict.failure?, Verdict.aborts] using hrest
      | cons w others =>
        -- the first step stays, and so does its number
        cases hvisits
        rcases hskips others v later step' reason rfl hskipped with
          ⟨s'', before, own, after, hends, hown, hevents, hevents'⟩
        refine ⟨s'', before, own, after, ?_, hown, hevents, hevents'⟩
        have hnumber : without numbering (index + (others.length + 1)) index = numbering index :=
          if_pos (by omega)
        have hindex : index + (others.length + 1) = index + 1 + others.length := by omega
        rw [List.length_cons, List.eraseIdx_cons_succ, runFrom_cons, hnumber, hindex]
        exact hvisit.bind hends

end

end ListRun

/-! ## Objects that are disabled -/

namespace ListRun

/-- Where raw steps stay as they are, a step is what its value is read as. -/
theorem ofValue_of_read {registry : Registry} {number : String} {raw : Value} {step : Step}
    (h : read (Setup.plain registry) number raw = .ok step) : Step.ofValue raw = .ok step := by
  simp only [read, Setup.plain] at h
  split at h
  · cases h
  · rename_i found hfound
    cases h
    exact hfound

/-- A step that could not be read is skipped if it is disabled, and ends its list otherwise. -/
theorem conclude_unread (setup : Setup) (e : Engine) (number : String) (failed : Bool) (raw : Value)
    (cause : RunFailure) :
    conclude setup e number failed raw (.error cause) = Pure.pure
      (if (Step.placeholder raw).disabled then .ended (Step.placeholder raw) (.skipped .disabled)
        else .aborted (Step.placeholder raw) cause) := by
  simp only [conclude]
  split <;> rfl

/-- An object with `disabled` set is skipped, whether or not it can be read. -/
theorem visit_disabled {registry : Registry} {e : Engine} {bindings : Option Variables}
    {number : String} {failed : Bool} {raw : Value} {fields : Variables} {s : RunState}
    (hraw : raw.resolved = .object fields)
    (hdisabled : Table.find? fields "disabled" = some (.bool true)) :
    ∃ step u, visit (Setup.plain registry) e bindings number failed raw s =
      .finished (.ended step (.skipped .disabled))
        (Visit.reported ⟨number, .ended step (.skipped .disabled), u⟩) := by
  have hplaceholder : (Step.placeholder raw).disabled = true := by
    unfold Step.placeholder
    rw [hraw]
    dsimp only
    rw [hdisabled]
  have hunread (cause : RunFailure) (t : RunState) :
      conclude (Setup.plain registry) e number failed raw (.error cause) t =
        .finished (.ended (Step.placeholder raw) (.skipped .disabled)) t := by
    rw [conclude_unread, if_pos hplaceholder]
    rfl
  rw [visit_eq]
  cases hexpand : Shorthand.expand registry raw with
  | error reason =>
    rw [handle_of_prepare (prepare_of_expand_error hexpand), hunread]
    exact ⟨_, _, rfl⟩
  | ok expanded =>
    rw [handle_of_prepare (prepare_of_expand_ok hexpand)]
    cases hread : read (Setup.plain registry) number expanded with
    | error cause =>
      rw [hunread]
      exact ⟨_, _, rfl⟩
    | ok step =>
      have hstep : step.disabled = true :=
        (Step.placeholder_disabled hexpand (ofValue_of_read hread)).symm.trans hplaceholder
      have hexecute : execute (Setup.plain registry) e number failed step =
          Pure.pure (.ok (.skipped .disabled)) := by
        unfold execute
        rw [if_pos hstep]
      rw [conclude_of_execute hexecute]
      exact ⟨_, _, rfl⟩

/-- The steps of a list that a run of it has skipped make no difference to the run. -/
structure Inert (setup : Setup) (e : Engine) (moves : Moves) (steps : StepList)
    (numbering : Numbering) (s : RunState) (visits : List Visit)
    (result : Except RunFailure (List Value)) (s' : RunState) : Prop where
  /-- The run has visited the steps of the list in order. -/
  walk : Walk setup e steps.bindings numbering 0 steps.steps false s visits s'
  /-- The list without a step that was skipped, whose other steps keep their numbers, comes to the
  same outcome among the same others, and the reports are the same but for those of the step. -/
  leavesOut : ∀ earlier v later step reason, visits = earlier ++ v :: later →
    v.verdict = .ended step (.skipped reason) →
    ∃ s'' before own after,
      (run setup e { steps with steps := steps.steps.eraseIdx earlier.length }
        (without numbering earlier.length) s).EndsAmong moves result s'' ∧
      v.Skips own ∧ s'.events = before ++ own ++ after ∧ s''.events = before ++ after

/-- In every run of a list the steps that are skipped are inert, whoever runs besides, and an object
with `disabled` set is always skipped. -/
theorem skipped_inert (setup : Setup) (depth : Nat) :
    (∀ (moves : Moves) (steps : StepList) (numbering : Numbering) (s s' : RunState)
      (result : Except RunFailure (List Value)), moves.Blind →
      (run setup (engine setup depth) steps numbering s).EndsAmong moves result s' →
      ∃ visits, Inert setup (engine setup depth) moves steps numbering s visits result s') ∧
    ∀ (registry : Registry) (e : Engine) (bindings : Option Variables) (number : String)
      (failed : Bool) (raw : Value) (fields : Variables) (s : RunState),
      raw.resolved = .object fields → Table.find? fields "disabled" = some (.bool true) →
      ∃ step u, visit (Setup.plain registry) e bindings number failed raw s =
        .finished (.ended step (.skipped .disabled))
          (Visit.reported ⟨number, .ended step (.skipped .disabled), u⟩) := by
  constructor
  · intro moves steps numbering s s' result hblind hends
    have hengine (base base' : List Event) :
        Engine.Alike (Spliced base base') False (engine setup depth) (engine setup depth) :=
      engine_alike (spliced_likeness base base') setup depth
    rcases runFrom_skips hblind hengine hends with ⟨visits, hwalk, hskips⟩
    refine ⟨visits, hwalk, fun earlier v later step reason hvisits hskipped => ?_⟩
    have hskip := hskips earlier v later step reason hvisits hskipped
    rwa [Nat.zero_add] at hskip
  · intro registry e bindings number failed raw fields s hraw hdisabled
    exact visit_disabled hraw hdisabled

/-- A disabled step that has no one type, and a step that runs. -/
def skippingSteps : StepList where
  steps :=
    [.lazy (.object [("echo", .null), ("fail", .null), ("disabled", .bool true)]),
      .object [("echo", .string "yes")]]
  bindings := some [("name", .string "x")]

/-- The disabled step has a verdict of its own, and the list without it ends with the same
result. -/
theorem skippingSteps_inert :
    ∃ result s' v step s'' before own after,
      (run (Setup.plain Registry.builtIn) (engine (Setup.plain Registry.builtIn) 2) skippingSteps
        topLevel (RunState.start Scope.empty)).EndsAmong .alone result s' ∧
      Visit.verdict v = .ended step (.skipped .disabled) ∧
      (run (Setup.plain Registry.builtIn) (engine (Setup.plain Registry.builtIn) 2)
        { skippingSteps with steps := [.object [("echo", .string "yes")]] } (without topLevel 0)
        (RunState.start Scope.empty)).EndsAmong .alone result s'' ∧
      v.Skips own ∧ s'.events = before ++ own ++ after ∧ s''.events = before ++ after := by
  have hrun : (match Task.run (run (Setup.plain Registry.builtIn)
        (engine (Setup.plain Registry.builtIn) 2) skippingSteps topLevel)
        (RunState.start Scope.empty) with
      | .ok _ => true
      | .error _ => false) = true := by decide +kernel
  have hinert := skipped_inert (Setup.plain Registry.builtIn) 2
  rcases hinert.2 Registry.builtIn (engine (Setup.plain Registry.builtIn) 2)
    skippingSteps.bindings (topLevel 0) false
    (.lazy (.object [("echo", .null), ("fail", .null), ("disabled", .bool true)])) _
    (RunState.start Scope.empty) rfl rfl with ⟨step, u, hvisit⟩
  split at hrun
  · rename_i found h
    rcases found with ⟨result, s'⟩
    have hends := Progress.endsAmong_alone.2 h
    rcases hinert.1 .alone skippingSteps topLevel _ s' result Moves.alone_blind hends with
      ⟨visits, hwalk, hleavesOut⟩
    -- the first visit is that of the disabled step
    cases hwalk with
    | aborted hhandle =>
      have hfirst := ends_visit hhandle
      rw [hvisit] at hfirst
      cases (Progress.ends_finished.1 hfirst).1
    | next hhandle _ =>
      have hfirst := ends_visit hhandle
      rw [hvisit] at hfirst
      have hskipped := (Progress.ends_finished.1 hfirst).1
      rcases hleavesOut [] _ _ step .disabled rfl hskipped with
        ⟨s'', before, own, after, hends', hown, hevents, hevents'⟩
      exact ⟨result, s', _, step, s'', before, own, after, hends, hskipped, hends', hown, hevents,
        hevents'⟩
  · cases hrun

end ListRun

end StepScript
