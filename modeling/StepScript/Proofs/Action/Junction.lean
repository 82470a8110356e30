import StepScript.Proofs.Action.Building
import StepScript.Proofs.Run.OneByOne

/-!
# Junction — steps that are run until one of them decides

The action `all` runs its steps until one of them passes with a falsy result, `or` until one passes
with a truthy result.  A step that is skipped, or whose failure is ignored, does not count, and a
failure that is not ignored is one of the junction.

* `Performance.judging` is how a junction goes from step to step, `decide_eq` says that it does so;
* `Performance.Settles` describes the steps that a junction has started, and what it has come to with
  them;
* `Catalogue.junction_build` says which list a junction is built from;
* `Performance.junction_settles` is the main result, from the properties of a junction to all of its
  runs, at any point that a run comes to.
-/

namespace StepScript

namespace Catalogue

/-- The type of a junction: an `or` is decided by a truthy result, an `all` by a falsy one. -/
def junctionType (deciding : Bool) : String :=
  if deciding then "or" else "all"

/-- Both actions are built from their list of steps whenever that can be read; opposite results decide
them. -/
theorem junction_build (deciding : Bool) :
    ∃ d, Registry.builtIn.find? (junctionType deciding) = some d ∧ ∀ p action,
      d.build p = .ok action ↔
        ∃ steps, StepList.ofValue ((p.get? "steps").getD .null) = .ok steps ∧
          action = .junction deciding steps := by
  refine ⟨descriptor (junction deciding) (Schema.empty.binding "steps"), ?_, fun p action => ?_⟩
  · cases deciding <;> rfl
  constructor
  · intro h
    obtain ⟨rest, h⟩ := descriptor_build_ok h
    obtain ⟨steps, p₁, hsteps, h⟩ := Builder.ok_of_bind h
    cases h
    exact ⟨steps, (takeSteps_ok hsteps).1, rfl⟩
  · rintro ⟨steps, hsteps, rfl⟩
    have hjunction : junction deciding p = .ok (.junction deciding steps, p.erase "steps") :=
      Builder.bind_of_ok (takeSteps_of_ok hsteps)
    exact descriptor_build_of_ok _ hjunction

end Catalogue

namespace Performance

open ListRun

variable {setup : Setup} {engine : Engine} {number : String} {bindings : Option Variables}
  {deciding : Bool}

/-! ## From step to step -/

/-- A step has passed with a result that is truthy, or falsy, as it should be to decide. -/
def Started.Decides (deciding : Bool) (x : Started) : Prop :=
  ∃ v, x.value? = some v ∧ v.isTruthy = deciding

/-- A junction has its result when a step decides, and the opposite one if none does. -/
def judging (deciding : Bool) : Conduct Unit Value where
  store _ scope := scope
  next _ value? :=
    if value?.any (fun v => v.isTruthy == deciding) then .error (.bool deciding) else .ok ()
  close _ := .bool (!deciding)

section Judging

variable {x : Started} {started : List Started}

theorem Started.Decides.completes (h : x.Decides deciding) : x.Completes := by
  obtain ⟨v, hvalue, -⟩ := h
  obtain ⟨verdict, hverdict, hpassed⟩ := Option.bind_eq_some_iff.1 hvalue
  refine ⟨verdict, hverdict, ?_⟩
  rcases verdict with ⟨step, status⟩ | ⟨step, cause⟩
  · cases status with
    | passed v => rfl
    | _ => cases hpassed
  · cases hpassed

/-- A value of the truth that is looked for is what makes a step decide. -/
theorem any_truthiness_iff :
    (x.value?.any fun v => v.isTruthy == deciding) = true ↔ x.Decides deciding := by
  cases h : x.value? with
  | none => simp [Started.Decides, h]
  | some v => simp [Started.Decides, h]

/-- A step that decides ends the search with the truth that is looked for. -/
theorem next_judging_of_decides (h : x.Decides deciding) :
    (judging deciding).next () x.value? = .error (.bool deciding) :=
  if_pos (any_truthiness_iff.2 h)

/-- The search goes on after any other step. -/
theorem next_judging_of_not_decides (h : ¬ x.Decides deciding) :
    (judging deciding).next () x.value? = .ok () :=
  if_neg fun hany => h (any_truthiness_iff.1 hany)

/-- The search ends only at a step that decides. -/
theorem next_judging_eq_error {v : Value} (h : (judging deciding).next () x.value? = .error v) :
    x.Decides deciding ∧ v = .bool deciding := by
  by_cases hdecides : x.Decides deciding
  · rw [next_judging_of_decides hdecides] at h
    exact ⟨hdecides, (Except.error.inj h).symm⟩
  · rw [next_judging_of_not_decides hdecides] at h
    cases h

/-- The recursion of a junction is the walk over its steps one by one, with nothing kept between
them. -/
theorem decide_eq (index : Nat) (steps : List Value) (s : RunState) :
    (do return Value.bool (← decide engine number deciding bindings index steps) :
        Attempt Value).run s =
      (judging deciding).steps engine number bindings index steps () s := by
  induction steps generalizing index s with
  | nil => rfl
  | cons raw rest ih =>
    unfold decide
    rw [Attempt.run_bind, Attempt.run_bind, Progress.bind_assoc]
    change _ = ((single engine number bindings index raw).run s).bind _
    congr 1
    funext result t
    rcases result with e | _ | v
    · rfl
    · -- a step without a value does not decide
      rw [← Attempt.run_bind]
      exact ih (index + 1) t
    · rw [← Attempt.run_bind]
      by_cases hdecides : (v.isTruthy == deciding) = true
      · dsimp only
        rw [if_pos hdecides]
        exact (Conduct.after_decided (if_pos hdecides) _ t).symm
      · dsimp only
        rw [if_neg hdecides, Conduct.after_next (if_neg hdecides)]
        exact ih (index + 1) t

/-- A junction goes on behind steps of which none decides. -/
theorem not_decides_of_kept (h : (judging deciding).kept () started = .ok ()) :
    ∀ x ∈ started, ¬ x.Decides deciding := by
  induction started with
  | nil => simp
  | cons x rest ih =>
    by_cases hdecides : x.Decides deciding
    · rw [Conduct.kept, List.foldlM_cons, next_judging_of_decides hdecides] at h
      cases h
    · rw [Conduct.kept_cons (next_judging_of_not_decides hdecides)] at h
      exact List.forall_mem_cons.2 ⟨hdecides, ih h⟩

end Judging

/-! ## Junctions -/

/-- The steps that a junction has started, and what it has come to with them. -/
structure Settles (number : String) (deciding : Bool) (steps : List Value) (started : List Started)
    (q : Progress (Except Failure Value)) : Prop extends Proceeds number steps started q where
  /-- No step is started behind one that decides. -/
  shortest : ∀ front x back, started = front ++ x :: back → x.Decides deciding → back = []
  /-- A step that is skipped, or whose failure is ignored, does not count. -/
  idle : ∀ x ∈ started, x.Idles → x.Completes ∧ ¬ x.Decides deciding
  /-- The junction is decided if and only if one of its steps decides. -/
  decided_iff : (∃ t, q = .finished (.ok (.bool deciding)) t) ↔ ∃ x ∈ started, x.Decides deciding
  /-- It is not if and only if none of its steps decides, and no failure counts. -/
  undecided_iff : (∃ t, q = .finished (.ok (.bool !deciding)) t) ↔
    ∀ x ∈ started, x.Completes ∧ ¬ x.Decides deciding
  /-- It then has gone through all of its steps. -/
  whole : (∀ x ∈ started, x.Completes ∧ ¬ x.Decides deciding) → started.map Started.raw = steps
  /-- There is no other result. -/
  isBool : ∀ v t, q = .finished (.ok v) t → v = .bool deciding ∨ v = .bool !deciding
  /-- An `all` that has a result is true if and only if all steps that have passed are truthy. -/
  all : deciding = false → ∀ v t, q = .finished (.ok v) t →
    (v = .bool true ↔ ∀ x ∈ started, ∀ w, x.value? = some w → w.isTruthy = true)
  /-- An `or` that has a result is true if and only if some step that has passed is truthy. -/
  or : deciding = true → ∀ v t, q = .finished (.ok v) t →
    (v = .bool true ↔ ∃ x ∈ started, ∃ w, x.value? = some w ∧ w.isTruthy = true)

section Stands

variable {count : Nat} {started : List Started} {q : Progress (Except Failure Value)}

/-- No step but the last one that is begun decides. -/
theorem not_decides_dropLast (h : Stands (judging deciding) count () started q) :
    ∀ x ∈ started.dropLast, ¬ x.Decides deciding := by
  cases h with
  | done _ _ hkept => exact fun x hx => not_decides_of_kept hkept x (List.dropLast_subset _ hx)
  | pending front _ hkept _ _ => simpa using not_decides_of_kept hkept
  | failed front _ hkept _ => simpa using not_decides_of_kept hkept
  | decided front _ hkept _ _ => simpa using not_decides_of_kept hkept

/-- Where a step decides, the junction has its result. -/
theorem decided_of_decides (h : Stands (judging deciding) count () started q) {x : Started}
    (hx : x ∈ started) (hdecides : x.Decides deciding) :
    ∃ t, q = .finished (.ok (.bool deciding)) t := by
  -- it is the last one that has been started, and has neither failed nor is it under way
  cases h with
  | done _ _ hkept => exact absurd hdecides (not_decides_of_kept hkept x hx)
  | pending front _ hkept hverdict _ =>
    obtain rfl := eq_last_of_not (not_decides_of_kept hkept) hx (not_not.2 hdecides)
    exact absurd hverdict hdecides.completes.verdict?_ne
  | failed front _ hkept hfailure =>
    obtain rfl := eq_last_of_not (not_decides_of_kept hkept) hx (not_not.2 hdecides)
    exact absurd hdecides.completes (Started.not_completes_of_failure? hfailure)
  | decided front _ _ _ hresult =>
    obtain ⟨-, rfl⟩ := next_judging_eq_error hresult
    exact ⟨_, rfl⟩

/-- A junction has the result of a step that decides, or else the opposite one. -/
theorem result_eq {v : Value} {t : RunState}
    (h : Stands (judging deciding) count () started (.finished (.ok v) t)) :
    (v = .bool deciding ∧ ∃ x ∈ started, x.Decides deciding) ∨
      (v = .bool !deciding ∧ ∀ x ∈ started, x.Completes ∧ ¬ x.Decides deciding) := by
  cases h with
  | done _ hcompletes hkept =>
    exact .inr ⟨rfl, fun x hx => ⟨hcompletes x hx, not_decides_of_kept hkept x hx⟩⟩
  | pending front _ _ _ hpending => exact absurd hpending id
  | decided front _ _ _ hresult =>
    obtain ⟨hdecides, rfl⟩ := next_judging_eq_error hresult
    exact .inl ⟨rfl, _, by simp, hdecides⟩

/-- A junction that no step decides, and in which no failure counts, has gone through its list. -/
theorem result_of_undecided (h : Stands (judging deciding) count () started q)
    (hundecided : ∀ x ∈ started, x.Completes ∧ ¬ x.Decides deciding) :
    started.length = count ∧ ∃ t, q = .finished (.ok (.bool !deciding)) t := by
  rcases h.ok_of_completes fun x hx => (hundecided x hx).1 with
    ⟨hcount, b, t, -, rfl⟩ | ⟨front, x, b, result, t, rfl, -, hresult, -⟩
  · exact ⟨hcount, t, rfl⟩
  · exact absurd (next_judging_eq_error hresult).1 (hundecided x (by simp)).2

end Stands

/-- Every point of a run of a junction is one that the account of it allows. -/
theorem Course.settles {steps : List Value} {s : RunState} {path : List RunState}
    {started : List Started} {q : Progress (Except Failure Value)}
    (h : Course setup engine number bindings (judging deciding) 0 steps () s path started q) :
    Settles number deciding steps started q where
  toProceeds := h.proceeds
  shortest := by
    intro front x back hstarted hdecides
    cases back with
    | nil => rfl
    | cons y back =>
      -- with another step behind it, the step would not be the last one
      exact absurd hdecides (not_decides_dropLast h.stands x (mem_dropLast hstarted))
  idle := by
    intro x _ hidles
    refine ⟨hidles.completes, ?_⟩
    rintro ⟨v, hvalue, -⟩
    rw [hidles.value?_eq] at hvalue
    cases hvalue
  decided_iff := by
    constructor
    · rintro ⟨t, rfl⟩
      rcases result_eq h.stands with ⟨-, hdecides⟩ | ⟨hresult, -⟩
      · exact hdecides
      · cases deciding <;> cases hresult
    · rintro ⟨x, hx, hdecides⟩
      exact decided_of_decides h.stands hx hdecides
  undecided_iff := by
    constructor
    · rintro ⟨t, rfl⟩
      rcases result_eq h.stands with ⟨hresult, -⟩ | ⟨-, hundecided⟩
      · cases deciding <;> cases hresult
      · exact hundecided
    · intro hundecided
      exact (result_of_undecided h.stands hundecided).2
  whole := by
    intro hundecided
    rw [h.inOrder, (result_of_undecided h.stands hundecided).1, List.take_length]
  isBool := by
    rintro v t rfl
    exact (result_eq h.stands).imp And.left And.left
  all := by
    rintro rfl v t rfl
    rcases result_eq h.stands with ⟨rfl, x, hx, w, hvalue, hfalsy⟩ | ⟨rfl, hundecided⟩
    · refine ⟨nofun, fun htruthy => ?_⟩
      rw [htruthy x hx w hvalue] at hfalsy
      cases hfalsy
    · refine ⟨fun _ x hx w hvalue => ?_, fun _ => rfl⟩
      exact Bool.eq_true_of_not_eq_false fun hfalsy => (hundecided x hx).2 ⟨w, hvalue, hfalsy⟩
  or := by
    rintro rfl v t rfl
    rcases result_eq h.stands with ⟨rfl, hdecides⟩ | ⟨rfl, hundecided⟩
    · exact ⟨fun _ => hdecides, fun _ => rfl⟩
    · refine ⟨nofun, ?_⟩
      rintro ⟨x, hx, hdecides⟩
      exact absurd hdecides (hundecided x hx).2

/-- A junction starts its steps up to the first one that decides; whatever stands behind that step, or
behind one whose failure counts, makes no difference. -/
theorem settles_of_leads {steps : StepList} {depth : Nat} {s : RunState} {path : List RunState}
    {q : Progress (Except Failure Value)}
    (h : ((perform (ListRun.engine setup (depth + 1)) number (.junction deciding steps)).run s).Leads
      path q) :
    ∃ started, Course setup (ListRun.engine setup depth) number steps.bindings (judging deciding) 0
        steps.steps () s path started q ∧
      Settles number deciding steps.steps started q ∧
      ((∃ x ∈ started, x.Decides deciding ∨ ∃ cause, x.failure? = some cause) →
        ∀ later : List Value, ((perform (ListRun.engine setup (depth + 1)) number
          (.junction deciding ⟨steps.steps.take started.length ++ later, steps.bindings⟩)).run
            s).Leads path q) := by
  unfold perform at h
  rw [decide_eq] at h
  obtain ⟨started, hcourse⟩ := course_of_leads h
  refine ⟨started, hcourse, hcourse.settles, ?_⟩
  rintro ⟨x, hx, hlast⟩ later
  -- the junction has come to an end with another result than that of a list without more steps
  have hresult : ∃ result t, q = .finished result t ∧ result ≠ .ok (.bool !deciding) := by
    rcases hlast with hdecides | ⟨cause, hcause⟩
    · obtain ⟨t, rfl⟩ := decided_of_decides hcourse.stands hx hdecides
      exact ⟨_, t, rfl, by cases deciding <;> nofun⟩
    · obtain ⟨t, rfl⟩ := (hcourse.proceeds.fails_iff _).2 ⟨x, hx, cause, hcause, rfl⟩
      exact ⟨_, t, rfl, nofun⟩
  obtain ⟨result, t, rfl, hresult⟩ := hresult
  unfold perform
  rw [decide_eq]
  exact (hcourse.unobserved (fun _ => hresult) later).leads id

/-- The built-in actions `all` and `or` have the list of their properties, and they start its steps up
to the first one that decides, in every run and at any point that it comes to. -/
theorem junction_settles (setup : Setup) (depth : Nat) (number : String) (deciding : Bool)
    (p : Properties) :
    ∃ d, Registry.builtIn.find? (Catalogue.junctionType deciding) = some d ∧
      (∀ action, d.build p = .ok action ↔
        ∃ steps, StepList.ofValue ((p.get? "steps").getD .null) = .ok steps ∧
          action = .junction deciding steps) ∧
      ∀ (steps : StepList) (s : RunState) (path : List RunState) (q : Progress (Except Failure Value)),
        ((perform (ListRun.engine setup (depth + 1)) number (.junction deciding steps)).run s).Leads
          path q →
        ∃ started, Course setup (ListRun.engine setup depth) number steps.bindings (judging deciding) 0
            steps.steps () s path started q ∧
          Settles number deciding steps.steps started q ∧
          ((∃ x ∈ started, x.Decides deciding ∨ ∃ cause, x.failure? = some cause) →
            ∀ later : List Value, ((perform (ListRun.engine setup (depth + 1)) number
              (.junction deciding ⟨steps.steps.take started.length ++ later, steps.bindings⟩)).run
                s).Leads path q) := by
  obtain ⟨d, hfind, hbuild⟩ := Catalogue.junction_build deciding
  exact ⟨d, hfind, hbuild p, fun _ _ _ _ hleads => settles_of_leads hleads⟩

/-- Five steps of which the fourth one is the first that passes with a truthy result. -/
def searching : List Value :=
  [.object [("echo", Value.ofNat 0)],
    .object [("type", .string "fail"), ("ignoreError", .bool true)],
    .object [("type", .string "echo"), ("values", .object [("value", Value.ofNat 1)]),
      ("condition", .string "1 > 2")],
    .object [("echo", .string "$(STEP_NUMBER)")],
    .object [("fail", .string "never seen")]]

def searchingProperties : Properties where
  fields := [("steps", .array searching none)]

def searchingRun : Progress (Except Failure Value) :=
  (perform (ListRun.engine (Setup.plain Registry.builtIn) 3) "1"
    (.junction true ⟨searching, none⟩)).run (RunState.start Scope.empty)

def yieldsTrue : Progress (Except Failure Value) → Bool
  | .finished (.ok (.bool b)) _ => b
  | _ => false

/-- An `or` ends with its first truthy step, and whatever stands behind that step makes no
difference. -/
theorem searching_settles :
    yieldsTrue searchingRun = true ∧
      ∃ d started, Registry.builtIn.find? "or" = some d ∧
        d.build searchingProperties = .ok (.junction true ⟨searching, none⟩) ∧
        Settles "1" true searching started searchingRun ∧
        (∃ x ∈ started, x.Decides true) ∧
        ∀ later : List Value, ((perform (ListRun.engine (Setup.plain Registry.builtIn) 3) "1"
          (.junction true ⟨searching.take started.length ++ later, none⟩)).run
            (RunState.start Scope.empty)).Leads [] searchingRun := by
  have htrue : yieldsTrue searchingRun = true := by decide +kernel
  obtain ⟨d, hfind, hbuild, hruns⟩ := junction_settles (Setup.plain Registry.builtIn) 2 "1" true
    searchingProperties
  obtain ⟨started, -, hsettles, hlater⟩ := hruns ⟨searching, none⟩ (RunState.start Scope.empty) []
    searchingRun (Progress.leads_nil.2 rfl)
  have hdecides : ∃ x ∈ started, x.Decides true := by
    refine hsettles.decided_iff.1 ?_
    unfold yieldsTrue at htrue
    split at htrue
    · rename_i b t hrun
      rw [htrue] at hrun
      exact ⟨t, hrun⟩
    · cases htrue
  obtain ⟨x, hx, hfirst⟩ := hdecides
  exact ⟨htrue, d, started, hfind, (hbuild _).2 ⟨_, rfl, rfl⟩, hsettles, ⟨x, hx, hfirst⟩,
    hlater ⟨x, hx, .inl hfirst⟩⟩

end Performance

end StepScript
