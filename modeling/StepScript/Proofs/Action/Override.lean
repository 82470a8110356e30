import StepScript.Proofs.Action.Building
import StepScript.Proofs.Run.Entering
import StepScript.Proofs.Run.Isolation
import StepScript.Proofs.Run.OneByOne

/-!
# Override — variables in place of the base variables of a list

The action `run-steps` runs a list and may have variables of its own, which it writes over the base
variables of the list.  The two are put together by the spellings of their names, in a table where a
spelling stays in the place of its first use, and take effect under normalised names before every step.
So a variable of the action has its value whenever a step starts, whatever earlier steps have written,
unless the list itself has a newer spelling of its name.

* `Catalogue.runSteps_build` says which list the action runs;
* `ListRun.Traverses` are the steps that a list has dealt with, and the one that it is at;
* `Performance.Overrides` is what a step finds under the names of the action's variables;
* `Performance.runSteps_overrides` is the main result, on all lists and in all runs, at any point that a
  run comes to.
-/

namespace StepScript

namespace Catalogue

/-- A list whose base variables have been overridden. -/
def overridden (own : StepList) (extra : Variables) : StepList :=
  { own with bindings := some (Table.merge (own.bindings.getD []) extra) }

/-- The action runs the list of its steps, with its variables over those of the list. -/
theorem runSteps_build {p : Properties} {own : StepList} {given : Value} {extra : Variables}
    (hsteps : StepList.ofValue ((p.get? "steps").getD .null) = .ok own)
    (hgiven : p.get? "variables" = some given) (hextra : given.resolved = .object extra) :
    ∃ d, Registry.builtIn.find? "run-steps" = some d ∧
      d.build p = .ok (.runSteps (overridden own extra)) := by
  have htake : take "variables" (p.erase "steps") =
      .ok (some given, (p.erase "steps").erase "variables") := by
    rw [take, Properties.take, p.get?_erase (by decide), hgiven]
  have hbuild : runSteps p =
      .ok (.runSteps (overridden own extra), (p.erase "steps").erase "variables") := by
    unfold runSteps
    rw [Builder.bind_of_ok (takeSteps_of_ok hsteps), Builder.bind_of_ok htake, Option.map_some, hextra]
    rfl
  exact ⟨_, rfl, descriptor_build_of_ok _ hbuild⟩

end Catalogue

/-! ## The steps of a list -/

namespace ListRun

/-- The steps that a list has dealt with in a run that has come to some point, and the one it is at. -/
structure Traverses (setup : Setup) (engine : Engine) (steps : StepList) (numbering : Numbering)
    (s : RunState) (visits : List Visit) (q : Progress (Except RunFailure (List Value))) : Prop where
  /-- The list is over after its visits, or it is dealing with the step that it has come to. -/
  stands :
    (∃ u result, Walk setup engine steps.bindings numbering 0 steps.steps false s visits u ∧
      q = .finished result u) ∨
    ∃ raw u after r next,
      Comes setup engine steps.bindings numbering 0 steps.steps false s visits raw u ∧
      (deal setup engine steps.bindings numbering 0 false visits raw u).Leads after r ∧
      q = r.bind next
  /-- Each visit has dealt with a step that the list had come to after those before it. -/
  behind : ∀ earlier v later, visits = earlier ++ v :: later → ∃ raw t,
    Comes setup engine steps.bindings numbering 0 steps.steps false s earlier raw t ∧
    (deal setup engine steps.bindings numbering 0 false earlier raw t).Ends v.verdict v.reported

/-- Every point of the run of a list is reached by a walk over its steps. -/
theorem run_traverses {setup : Setup} {engine : Engine} {steps : StepList} {numbering : Numbering}
    {s : RunState} {path : List RunState} {q : Progress (Except RunFailure (List Value))}
    (h : (run setup engine steps numbering s).Leads path q) :
    ∃ visits, Traverses setup engine steps numbering s visits q := by
  rcases runFrom_leads h with
    ⟨visits, u, ⟨hwalk, result, hover⟩ | ⟨raw, after, r, next, hcomes, hdeal, hq⟩⟩
  · exact ⟨visits, .inl ⟨u, result, hwalk, hover⟩, fun _ _ _ hvisits => hwalk.comes hvisits⟩
  · refine ⟨visits, .inr ⟨raw, u, after, r, next, hcomes, hdeal, hq⟩, fun _ _ _ hvisits => ?_⟩
    obtain ⟨raw, t, hearlier, hends⟩ := hcomes.walk.comes hvisits
    exact ⟨raw, t, hearlier.of_take, hends⟩

end ListRun

/-! ## What a step finds -/

namespace Performance

open ListRun
open Engine (resumed)

/-- What a scope has under the names of variables that are written over others. -/
structure Overrides (own extra : Variables) (scope : Scope) : Prop where
  /-- A name has the last value of its newest spelling among all of them. -/
  newest : ∀ name, IsFree name → (∃ key ∈ Table.names extra, Variables.spells name key = true) →
    ∃ key, Variables.IsNewest (own ++ extra) name key ∧
      scope.get? name = Variables.last? (· == key) (own ++ extra)
  /-- That is the last value of the name among the variables written over the others, if and only if the
  name is not overtaken. -/
  given_iff : ∀ name, IsFree name → (∃ key ∈ Table.names extra, Variables.spells name key = true) →
    (scope.get? name = Variables.last? (Variables.spells name) extra ↔
      ¬ Variables.Overtaken (own ++ extra) name)

/-- Merging variables into others is reading all of them as entries of one object. -/
theorem merge_eq_ofEntries {own : Variables} (hnodup : (Table.names own).Nodup) (extra : Variables) :
    Table.merge own extra = Table.ofEntries (own ++ extra) := by
  have hown : Table.ofEntries own = own := Table.ofEntries_of_nodup hnodup
  calc Table.merge own extra = Table.merge (Table.ofEntries own) extra := by rw [hown]
    _ = Table.ofEntries (own ++ extra) := List.foldl_append.symm

/-- Whatever a list has come to, its next step starts with the variables written over the others. -/
theorem entered_overrides {own : StepList} (extra : Variables)
    (hnodup : (Table.names (own.bindings.getD [])).Nodup) (number : String) (s : RunState) :
    Overrides (own.bindings.getD []) extra
      (entered (Catalogue.overridden own extra).bindings number s).scope := by
  have hget {name : String} (hfree : IsFree name) :
      (entered (Catalogue.overridden own extra).bindings number s).scope.get? name =
        (Variables.last? (Variables.spells name)
          (Table.ofEntries (own.bindings.getD [] ++ extra)) <|> s.scope.get? name) := by
    rw [get?_entered_of_free hfree, ← merge_eq_ofEntries hnodup]
    rfl
  constructor
  · rintro name hfree ⟨k, hk, hspells⟩
    have hwritten : k ∈ Table.names (own.bindings.getD [] ++ extra) := by
      rw [Table.names_append]
      exact List.mem_append_right _ hk
    obtain ⟨key, hkey⟩ := Variables.exists_isNewest ⟨k, hwritten, hspells⟩
    obtain ⟨v, hv⟩ : ∃ v, Variables.last? (· == key) (own.bindings.getD [] ++ extra) = some v :=
      Variables.last?_isSome_of_mem hkey.mem (beq_self_eq_true key)
    refine ⟨key, hkey, ?_⟩
    rw [hget hfree, Variables.last?_ofEntries hkey, hv]
    rfl
  · rintro name hfree ⟨k, hk, hspells⟩
    obtain ⟨v, hv⟩ := Variables.last?_isSome_of_mem hk hspells
    have hlast : (Variables.last? (Variables.spells name) (own.bindings.getD [] ++ extra) <|>
        s.scope.get? name) = Variables.last? (Variables.spells name) extra := by
      rw [Variables.last?_append, hv]
      rfl
    rw [hget hfree, ← hlast]
    exact Variables.last?_ofEntries_orElse_iff _ _ _

/-- What an action that runs a list does with what the list comes to. -/
def closing (before : RunState) (result : Except RunFailure (List Value)) (after : RunState) :
    Progress (Except Failure Value) :=
  .finished ((result.mapError Failure.run).map Value.list) (resumed before after)

/-- The action runs its list under the numbers beneath its own and closes with the variables as they
were. -/
theorem perform_runSteps (setup : Setup) (depth : Nat) (number : String) (steps : StepList)
    (s : RunState) :
    (perform (ListRun.engine setup (depth + 1)) number (.runSteps steps)).run s =
      (ListRun.run setup (ListRun.engine setup depth) steps (dotted number) s).bind (closing s) := by
  unfold perform
  rw [Attempt.run_bind, Engine.runSteps_eq_resumed]
  refine (Progress.bind_assoc _ _ _).trans (congrArg _ ?_)
  funext result t
  cases result with
  | error e => rfl
  | ok results => rfl

/-- Whenever the list of the action starts a step, in every run and at any point that it comes to, the
variables of the action have the values that it gives them, unless the list has a newer spelling. -/
theorem runSteps_overrides (setup : Setup) (depth : Nat) (number : String) {p : Properties}
    {own : StepList} {given : Value} {extra : Variables}
    (hsteps : StepList.ofValue ((p.get? "steps").getD .null) = .ok own)
    (hgiven : p.get? "variables" = some given) (hextra : given.resolved = .object extra)
    (hnodup : (Table.names (own.bindings.getD [])).Nodup) :
    ∃ d, Registry.builtIn.find? "run-steps" = some d ∧
      d.build p = .ok (.runSteps (Catalogue.overridden own extra)) ∧
      ∀ (s : RunState) (path : List RunState) (q : Progress (Except Failure Value)),
        ((perform (ListRun.engine setup (depth + 1)) number
          (.runSteps (Catalogue.overridden own extra))).run s).Leads path q →
        ∃ r visits, q = r.bind (closing s) ∧
          Traverses setup (ListRun.engine setup depth) (Catalogue.overridden own extra)
            (dotted number) s visits r ∧
          ∀ earlier raw t,
            Comes setup (ListRun.engine setup depth) (Catalogue.overridden own extra).bindings
              (dotted number) 0 own.steps false s earlier raw t →
            Overrides (own.bindings.getD []) extra
              (entered (Catalogue.overridden own extra).bindings (dotted number earlier.length)
                t).scope := by
  obtain ⟨d, hfind, hbuild⟩ := Catalogue.runSteps_build hsteps hgiven hextra
  refine ⟨d, hfind, hbuild, fun s path q hleads => ?_⟩
  have hstarts (earlier : List Visit) (t : RunState) :=
    entered_overrides extra hnodup (dotted number earlier.length) t
  rw [perform_runSteps] at hleads
  rcases Progress.leads_bind hleads with ⟨r, hr, rfl⟩ | ⟨result, t, before, after, -, hlist, hq⟩
  · obtain ⟨visits, htraverses⟩ := run_traverses hr
    exact ⟨r, visits, rfl, htraverses, fun earlier _ t _ => hstarts earlier t⟩
  · -- the list is over, and nothing else is left to do
    cases hq
    obtain ⟨visits, htraverses⟩ := run_traverses hlist
    exact ⟨_, visits, rfl, htraverses, fun earlier _ t _ => hstarts earlier t⟩

/-- A list with two base variables, and a step that writes one of them. -/
def limited : StepList where
  steps := [.object [("set-variable", .object [("variable", .string "limit"),
      ("value", Value.ofNat 9)])],
    .object [("echo", .string "$(limit)")]]
  bindings := some [("limit", Value.ofNat 1), ("unit", .string "s")]

def raised : Variables :=
  [("limit", Value.ofNat 5)]

def overriding (own : StepList) (extra : Variables) : Properties where
  fields := [("variables", .object extra), ("steps", own.toValue)]

def overriddenRun (own : StepList) (extra : Variables) : Progress (Except Failure Value) :=
  (perform (ListRun.engine (Setup.plain Registry.builtIn) 3) "1"
    (.runSteps (Catalogue.overridden own extra))).run (RunState.start Scope.empty)

def firstScope (own : StepList) (extra : Variables) : Scope :=
  (entered (Catalogue.overridden own extra).bindings (dotted "1" 0) (RunState.start Scope.empty)).scope

def lastInteger? : Progress (Except Failure Value) → Option Int
  | .finished (.ok (.array items _)) _ => items.getLast?.bind fun
    | .number (.integer n _ _) => some n
    | _ => none
  | _ => none

/-- The variable that the action gives is set anew before the second step, although the first has
written it. -/
theorem limited_overridden :
    lastInteger? (overriddenRun limited raised) = some 5 ∧
      ∃ d r visits, Registry.builtIn.find? "run-steps" = some d ∧
        d.build (overriding limited raised) = .ok (.runSteps (Catalogue.overridden limited raised)) ∧
        overriddenRun limited raised = r.bind (closing (RunState.start Scope.empty)) ∧
        Traverses (Setup.plain Registry.builtIn) (ListRun.engine (Setup.plain Registry.builtIn) 2)
          (Catalogue.overridden limited raised) (dotted "1") (RunState.start Scope.empty) visits r ∧
        (firstScope limited raised).get? "limit" = some (Value.ofNat 5) ∧
        ¬ Variables.Overtaken (limited.bindings.getD [] ++ raised) "limit" := by
  have hresult : lastInteger? (overriddenRun limited raised) = some 5 := by decide +kernel
  have hsteps : StepList.ofValue (((overriding limited raised).get? "steps").getD .null) =
      .ok limited := rfl
  have hvariables : (overriding limited raised).get? "variables" = some (.object raised) := rfl
  obtain ⟨d, hfind, hbuild, hruns⟩ := runSteps_overrides (Setup.plain Registry.builtIn) 2 "1" hsteps
    hvariables rfl (by decide)
  obtain ⟨r, visits, hrun, htraverses, hstarts⟩ := hruns (RunState.start Scope.empty) []
    (overriddenRun limited raised) (Progress.leads_nil.2 rfl)
  have hfirst : Overrides (limited.bindings.getD []) raised (firstScope limited raised) :=
    hstarts [] _ _ .first
  have hgiven : (firstScope limited raised).get? "limit" = some (Value.ofNat 5) := rfl
  have hmember : ∃ key ∈ Table.names raised, Variables.spells "limit" key = true :=
    ⟨"limit", by simp [raised, Table.names], by decide +kernel⟩
  exact ⟨hresult, d, r, visits, hfind, hbuild, hrun, htraverses, hgiven,
    (hfirst.given_iff "limit" (by decide +kernel) hmember).1 rfl⟩

def respelled : StepList where
  steps := [.object [("echo", .string "$(a_b)")]]
  bindings := some [("a-b", Value.ofNat 1), ("a_b", Value.ofNat 2)]

def reverted : Variables :=
  [("a-b", Value.ofNat 3)]

/-- The variable keeps the value of its newest spelling. -/
theorem respelled_keeps :
    Variables.last? (Variables.spells "a_b") reverted = some (Value.ofNat 3) ∧
      (firstScope respelled reverted).get? "a_b" = some (Value.ofNat 2) ∧
      lastInteger? (overriddenRun respelled reverted) = some 2 := by
  refine ⟨rfl, rfl, by decide +kernel⟩

end Performance

end StepScript
