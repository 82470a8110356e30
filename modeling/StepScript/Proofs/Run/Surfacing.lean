import StepScript.Proofs.Run.Likeness

/-!
# Surfacing — a nested failure is a failure of the step it is nested in

A step runs lists of other steps, by its action or for its properties.  If a step of such a list is
reported with a failure that counts, the step that runs the list can only fail itself.  This is an
ordinary failure, whatever the nested one was: it is ignored if the step says so, and otherwise it
counts among those of its list, which goes on in either case.

* `ListRun.watched` is the engine in which the failure of a list that the step runs is noticed: the
  work of the step is halted as soon as such a list reports a failure that counts;
* `ListRun.engine_watched`: where that happens, the step is doomed in the run itself;
* `ListRun.nested_failure_surfaces` is the main result.
-/

namespace StepScript

variable {α : Type} {fails : α → Prop}

/-- Equal states are alike. -/
theorem eq_likeness : Likeness fun s s' : RunState => s = s' where
  scope h := by rw [h]
  clock h := by rw [h]
  timers h := by rw [h]
  store _ h := by rw [h]
  advance _ h := by rw [h]
  await h := by rw [h]
  report _ h := by rw [h]
  drop h := by rw [h]

namespace Progress

theorem Alike.refl {lossy : Prop} (p : Progress α) : p.Alike (· = ·) lossy fails p := by
  induction p with
  | finished a s => exact .finished rfl
  | waiting due order s resume ih =>
    refine .waiting rfl ?_
    rintro now _ rfl
    exact ih now
  | halted why => exact .halted why

/-- Doomed work stays doomed however far it goes. -/
theorem Doomed.leads {p q : Progress α} {path : List RunState} (h : p.Doomed fails)
    (hleads : p.Leads path q) : q.Doomed fails := by
  induction hleads with
  | here p => exact h
  | on _ _ ih =>
    cases h with
    | waiting hresume => exact ih (hresume _)

/-- Where a restricted run is halted on the way, the run itself can only fail. -/
theorem Alike.fails_of_halted {lossy : Prop} {p p' : Progress α}
    (h : p.Alike (· = ·) lossy fails p') {path later : List RunState} {why : Halt} {a : α}
    {t : RunState} (hhalted : p'.Leads path (.halted why))
    (hends : p.Leads (path ++ later) (.finished a t)) : fails a := by
  -- both runs go along the same path, so their states are equal whenever they go on
  induction h generalizing path with
  | finished hs => cases hhalted
  | waiting hs _ ih =>
    cases hhalted with
    | @on _ _ _ now path _ _ hlog hresume =>
      cases hends with
      | on _ hends => exact ih now now rfl hresume hends
  | halted why =>
    cases hhalted
    cases hends
  | lost _ hdoomed =>
    cases hhalted
    cases hdoomed.leads hends with
    | finished ha => exact ha

end Progress

namespace ListRun

variable {setup : Setup} {e : Engine} {bindings : Option Variables} {numbering : Numbering}

/-! ## Lists that are halted by a failure -/

/-- Run the steps of a list from `index` on, until one of them is reported with a failure that
counts. -/
def unfailing (setup : Setup) (engine : Engine) (bindings : Option Variables)
    (numbering : Numbering) : Nat → List Value → List Value → Task (Except RunFailure (List Value))
  | _, [], results => return .ok results
  | index, raw :: rest, results => do
    let verdict ← visit setup engine bindings (numbering index) false raw
    if (verdict.failure? (numbering index)).isSome then Task.halt .exhausted
    else
      unfailing setup engine bindings numbering (index + 1) rest (results ++ verdict.value?.toList)

theorem doomed_unless {aborts : Bool} {failure : RunFailure}
    {rest : Task (Except RunFailure (List Value))} (h : ∀ s, (rest s).Doomed Failed)
    (s : RunState) :
    ((if aborts then return .error failure else rest : Task (Except RunFailure (List Value)))
      s).Doomed Failed := by
  cases aborts with
  | true => exact .finished trivial
  | false => exact h s

/-- A list that has a failure can only fail. -/
theorem runFrom_doomed (index : Nat) (steps results : List Value) {failures : List RunFailure}
    (hne : failures ≠ []) (s : RunState) :
    (runFrom setup e bindings numbering index steps results failures s).Doomed Failed := by
  induction steps generalizing index results failures s with
  | nil =>
    refine .finished ?_
    rw [outcome_eq_error.2 ⟨hne, rfl⟩]
    trivial
  | cons raw rest ih =>
    rw [runFrom_cons]
    refine Progress.Doomed.bind (.of_forall (fun _ => trivial) _) fun verdict t _ => ?_
    exact doomed_unless (ih _ _ (by simp [hne])) t

/-- A list is like itself halted by its first failure: if there is one it can only fail. -/
theorem runFrom_unfailing (index : Nat) (steps results : List Value) (s : RunState) :
    (runFrom setup e bindings numbering index steps results [] s).Alike (· = ·) True Failed
      (unfailing setup e bindings numbering index steps results s) := by
  induction steps generalizing index results s with
  | nil => exact .finished rfl
  | cons raw rest ih =>
    rw [runFrom_cons]
    refine Progress.Alike.bind (.refl _) (fun _ _ _ hnone => absurd hnone id) ?_
    rintro verdict t _ rfl
    cases hfailure : verdict.failure? (numbering index) with
    | some failure =>
      -- one run is halted here, the other one has a failure from now on
      refine .lost trivial (doomed_unless (runFrom_doomed _ _ _ ?_) t)
      simp
    | none =>
      -- both runs go on, since every step that ends its list has a failure that counts
      have hgoes : verdict.aborts = false := by
        cases verdict with
        | aborted step cause => cases hfailure
        | ended step status => rfl
      simp only [hgoes]
      exact ih _ _ t

/-! ## Steps that are watched -/

/-- The engine of a step that is halted as soon as a list that it runs reports a failure that counts.
The lists that are nested in those lists run as ever. -/
def watched (setup : Setup) : Nat → Engine
  | 0 => Engine.none
  | depth + 1 =>
    { expand := PropertyEvaluation.evaluate (watched setup depth) true
      restart := PropertyEvaluation.evaluate (watched setup depth)
      runList := fun steps numbering =>
        unfailing setup (engine setup depth) steps.bindings numbering 0 steps.steps []
      together := Task.together
      store := Attempt.put }

/-- The watched engine goes as the real one does, but for lists that have reported a failure that
counts. -/
theorem engine_watched (setup : Setup) (depth : Nat) :
    Engine.Alike (· = ·) True (engine setup depth) (watched setup depth) := by
  induction depth with
  | zero =>
    exact
      { expand := fun _ _ _ _ _ => .halted _
        restart := fun _ _ _ _ _ _ => .halted _
        runList := fun _ _ _ _ _ => .halted _
        runMarked := fun _ _ _ _ _ => .halted _
        together := Task.together_alike eq_likeness
        store := put_alike eq_likeness }
  | succ depth ih =>
    have hlist (steps : StepList) (numbering : Numbering) : Task.Alike (· = ·) True Failed
        ((engine setup (depth + 1)).runList steps numbering)
        ((watched setup (depth + 1)).runList steps numbering) := by
      rintro s _ rfl
      exact runFrom_unfailing 0 steps.steps [] s
    exact
      { expand := evaluate_alike eq_likeness ih true
        restart := evaluate_alike eq_likeness ih
        runList := hlist
        runMarked := hlist
        together := Task.together_alike eq_likeness
        store := put_alike eq_likeness }

/-- If a list that a step runs has reported a failure that counts, the step can only fail. -/
theorem visit_fails {number : String} {failed : Bool} {raw : Value} {s t : RunState}
    {path later : List RunState} {verdict : Verdict} {why : Halt} (depth : Nat)
    (hhalted : (visit setup (watched setup depth) bindings number failed raw s).Leads path
      (.halted why))
    (hends : (visit setup (engine setup depth) bindings number failed raw s).Leads (path ++ later)
      (.finished verdict t)) : verdict.Fails :=
  (visit_alike eq_likeness (engine_watched setup depth) bindings number failed raw s s
    rfl).fails_of_halted hhalted hends

/-- A failure that a list has already is among those that it ends with. -/
theorem runFrom_collects {index : Nat} {steps results : List Value} {failures : List RunFailure}
    {failure : RunFailure} (hmem : failure ∈ failures) {s s' : RunState}
    {result : Except RunFailure (List Value)}
    (h : (runFrom setup e bindings numbering index steps results failures s).Ends result s') :
    ∃ members, result = .error (RunFailure.collect members) ∧ failure ∈ members := by
  rcases runFrom_walk h with ⟨visits, _, rfl⟩
  have hall : failure ∈ failures ++ failuresOf visits := List.mem_append_left _ hmem
  exact ⟨_, outcome_eq_error.2 ⟨List.ne_nil_of_mem hall, rfl⟩, hall⟩

/-- After a step that came to an end, its list goes on. -/
theorem runFrom_next {index : Nat} {raw : Value} (rest results : List Value)
    {failures : List RunFailure} {path : List RunState} {step : Step} {status : StepStatus}
    {s t : RunState}
    (h : (visit setup e bindings (numbering index) (!failures.isEmpty) raw s).Leads path
      (.finished (.ended step status) t)) :
    (runFrom setup e bindings numbering index (raw :: rest) results failures s).Leads path
      (runFrom setup e bindings numbering (index + 1) rest
        (results ++ (Verdict.ended step status).value?.toList)
        (failures ++ ((Verdict.ended step status).failure? (numbering index)).toList) t) := by
  rw [runFrom_cons]
  exact h.bind _

/-- However other work goes on meanwhile: if a list that a step runs has reported a failure that
counts, and the step comes to an end, then it is reported as failed, and ignored exactly if it says
so.  Its list goes on with the next step, and unless it is ignored the failure of the step is among
those that the list ends with. -/
theorem nested_failure_surfaces (setup : Setup) (depth : Nat) (bindings : Option Variables)
    (numbering : Numbering) (index : Nat) (raw : Value) (rest results : List Value)
    (failures : List RunFailure) (s t : RunState) (path later : List RunState) (verdict : Verdict)
    (hnested : (visit setup (watched setup depth) bindings (numbering index) (!failures.isEmpty) raw
      s).Leads path (.halted .exhausted))
    (hends : (visit setup (engine setup depth) bindings (numbering index) (!failures.isEmpty) raw
      s).Leads (path ++ later) (.finished verdict t)) :
    ∃ step cause u,
      verdict = .ended step (.failed cause step.ignoreError) ∧
      t = Visit.reported ⟨numbering index, verdict, u⟩ ∧
      (runFrom setup (engine setup depth) bindings numbering index (raw :: rest) results failures
          s).Leads (path ++ later)
        (runFrom setup (engine setup depth) bindings numbering (index + 1) rest results
          (failures ++ if step.ignoreError then []
            else [.failed (numbering index) step.displayName cause]) t) ∧
      (step.ignoreError = false → ∀ result s',
        (runFrom setup (engine setup depth) bindings numbering (index + 1) rest results
          (failures ++ [.failed (numbering index) step.displayName cause]) t).Ends result s' →
        ∃ members, result = .error (RunFailure.collect members) ∧
          .failed (numbering index) step.displayName cause ∈ members) := by
  have hfails : verdict.Fails := visit_fails depth hnested hends
  rcases visit_ends hends.ends with ⟨u, -, hreported⟩
  rcases verdict with ⟨step, status⟩ | ⟨step, cause⟩
  · cases status with
    | failed cause ignored =>
      cases hfails
      refine ⟨step, cause, u, rfl, hreported, ?_, ?_⟩
      · -- an ignored failure adds nothing to those of the list
        have hnext := runFrom_next rest results hends
        cases hignored : step.ignoreError with
        | true => simpa [hignored, Verdict.value?, Verdict.failure?] using hnext
        | false => simpa [hignored, Verdict.value?, Verdict.failure?] using hnext
      · intro _ result s' hrest
        exact runFrom_collects (List.mem_append_right _ (List.mem_singleton.2 rfl)) hrest
    | _ => exact absurd hfails id
  · exact absurd hfails id

/-- A step that runs a step of unknown type, which ends the nested list. -/
def unheardNested : Value :=
  .object [("run-steps", .array [.object [("type", .string "unheard")]] none)]

def exhausts : Progress Verdict → Bool
  | .halted why => why == .exhausted
  | _ => false

def endsStrictly : Progress Verdict → Bool
  | .finished (.ended step _) _ => !step.ignoreError
  | _ => false

/-- The step fails with the error of the list that it runs, and the failure counts. -/
theorem unheardNested_surfaces :
    ∃ verdict t step cause,
      (visit (Setup.plain Registry.builtIn) (engine (Setup.plain Registry.builtIn) 3) none
        (topLevel 0) false unheardNested (RunState.start Scope.empty)).Leads []
        (.finished verdict t) ∧
      verdict = .ended step (.failed cause false) ∧
      ∃ members, outcome [] [.failed (topLevel 0) step.displayName cause] =
          .error (RunFailure.collect members) ∧
        .failed (topLevel 0) step.displayName cause ∈ members := by
  have hhalts : exhausts (visit (Setup.plain Registry.builtIn)
      (watched (Setup.plain Registry.builtIn) 3) none (topLevel 0) false unheardNested
      (RunState.start Scope.empty)) = true := by decide +kernel
  have hfinishes : endsStrictly (visit (Setup.plain Registry.builtIn)
      (engine (Setup.plain Registry.builtIn) 3) none (topLevel 0) false unheardNested
      (RunState.start Scope.empty)) = true := by decide +kernel
  unfold exhausts at hhalts
  split at hhalts
  · rename_i why hwatched
    unfold endsStrictly at hfinishes
    split at hfinishes
    · rename_i found status t hvisit
      rw [eq_of_beq hhalts] at hwatched
      have hends := Progress.leads_nil.2 hvisit
      rcases nested_failure_surfaces (Setup.plain Registry.builtIn) 3 none topLevel 0 unheardNested
        [] [] [] (RunState.start Scope.empty) t [] [] _ (Progress.leads_nil.2 hwatched) hends with
        ⟨step, cause, u, hverdict, -, -, hcollects⟩
      cases hverdict
      have hcounts : found.ignoreError = false := by simpa using hfinishes
      refine ⟨_, t, found, cause, hends, ?_, hcollects hcounts _ _ (.finished _ _)⟩
      rw [hcounts]
    · cases hfinishes
  · cases hhalts

end ListRun

end StepScript
