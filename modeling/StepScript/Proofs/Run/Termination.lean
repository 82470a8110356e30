import Mathlib.Data.Finset.Card
import Mathlib.Data.Finset.SDiff
import Mathlib.Data.Finset.Insert
import Mathlib.Data.Finset.Dedup
import StepScript.Action.Catalogue
import StepScript.Proofs.Run.Approximation
import StepScript.Proofs.Run.Reaching

/-!
# Termination — when the evaluation of a value comes to an end

The evaluation of a value goes back into evaluation in three ways: the result of a marker is
evaluated inside it, what the marks of a key yield is evaluated in its place, and steps are run,
whose properties are evaluated.  Only the first way leaves a trace on the trail, and the trail holds
only that way back.

`Engine.confined` expands only texts of a finite set, and none that is on the trail; it takes the
other ways at most `nested` times inside each other, and refuses everything else.

* `PropertyEvaluation.ends_iff_confined`: an evaluation comes to an end exactly if it can be confined
  in this way;
* `PropertyEvaluation.ends_of_confined`: how deeply work is nested then;
* `PropertyEvaluation.tagged_never_ends`: a script tag that yields its own object is not confined.
-/

namespace StepScript

open Filter PropertyEvaluation

variable {setup : Setup}

namespace Engine

/-! ## Ways back -/

/-- An engine with the ways back that there are, each leading to an engine one level below. -/
def ways (setup : Setup) (inside : Trail → Option Engine) (again afresh : Option Engine) :
    Engine where
  expand trail v := match inside trail with
    | some e => evaluate e true trail v
    | .none => Engine.none.expand trail v
  restart := match again with
    | some e => evaluate e
    | .none => Engine.none.restart
  runList := match afresh with
    | some e => ListRun.run setup e
    | .none => Engine.none.runList
  together := Task.together
  store := Attempt.put

def WayApproximates (way way' : Option Engine) : Prop :=
  ∀ e, way = some e → ∃ e', way' = some e' ∧ e.Approximates e'

theorem ways_runList_keeps (inside inside' : Trail → Option Engine)
    (again again' : Option Engine) {afresh afresh' : Option Engine}
    (hafresh : WayApproximates afresh afresh') (steps : StepList) (numbering : Numbering) :
    Task.Keeps Accounting.approximation Accounting.approximation.outstanding
      ((ways setup inside again afresh).runList steps numbering)
      ((ways setup inside' again' afresh').runList steps numbering) := by
  unfold ways
  cases afresh with
  | none => exact fun _ _ _ => .cut trivial
  | some e =>
    rcases hafresh e rfl with ⟨e', rfl, he⟩
    exact ListRun.run_keeps ListRun.visits_approximate he steps numbering

/-- Engines approximate each other if their ways back do. -/
theorem ways_approximate {inside inside' : Trail → Option Engine}
    {again again' afresh afresh' : Option Engine}
    (hinside : ∀ trail, WayApproximates (inside trail) (inside' trail))
    (hagain : WayApproximates again again') (hafresh : WayApproximates afresh afresh') :
    (ways setup inside again afresh).Approximates (ways setup inside' again' afresh') where
  expand trail v := by
    dsimp only [ways]
    cases h : inside trail with
    | none => exact fun _ _ _ => .cut trivial
    | some e =>
      rcases hinside trail e h with ⟨e', h', he⟩
      rw [h']
      exact ListRun.evaluate_keeps he true trail v
  restart recursive trail v := by
    unfold ways
    cases again with
    | none => exact fun _ _ _ => .cut trivial
    | some e =>
      rcases hagain e rfl with ⟨e', rfl, he⟩
      exact ListRun.evaluate_keeps he recursive trail v
  runList := ways_runList_keeps inside inside' again again' hafresh
  runMarked := ways_runList_keeps inside inside' again again' hafresh
  together := Task.together_keeps
  store := Attempt.put_keeps

/-- The engine of a run takes every way one level down. -/
theorem engine_eq_ways (depth : Nat) :
    ListRun.engine setup (depth + 1) =
      ways setup (fun _ => some (ListRun.engine setup depth)) (some (ListRun.engine setup depth))
        (some (ListRun.engine setup depth)) :=
  rfl

/-! ## Finitely many texts -/

/-- A text that is put on the trail is one less to be expanded. -/
theorem card_sdiff_append {texts : Finset String} {trail : Trail} {code : String}
    (hcode : code ∈ texts) (hfresh : code ∉ trail) :
    (texts \ (trail ++ [code]).toFinset).card + 1 = (texts \ trail.toFinset).card := by
  have hmem : code ∈ texts \ trail.toFinset :=
    Finset.mem_sdiff.2 ⟨hcode, fun h => hfresh (List.mem_toFinset.1 h)⟩
  have happend : (trail ++ [code]).toFinset = insert code trail.toFinset := by
    ext other
    simp
  rw [happend, Finset.sdiff_insert]
  exact Finset.card_erase_add_one hmem

/-- An engine that expands only some texts, and none that is on the trail, and takes the other ways
`nested` more times; a list of steps starts with an empty trail. -/
def confined (setup : Setup) (texts : Finset String) : Nat → Trail → Engine
  | nested, trail =>
    ways setup
      (fun inner => match inner.getLast? with
        | some code =>
          if _hcode : code ∈ texts ∧ code ∉ trail then
            some (confined setup texts nested (trail ++ [code]))
          else Option.none
        | Option.none => Option.none)
      (match nested with
        | 0 => Option.none
        | nested + 1 => some (confined setup texts nested trail))
      (match nested with
        | 0 => Option.none
        | nested + 1 => some (confined setup texts nested []))
termination_by nested trail => (nested, (texts \ trail.toFinset).card)
decreasing_by
  · exact Prod.Lex.right nested (Nat.lt_of_succ_le (card_sdiff_append _hcode.1 _hcode.2).le)
  · exact Prod.Lex.left _ _ (Nat.lt_succ_self nested)
  · exact Prod.Lex.left _ _ (Nat.lt_succ_self nested)

/-- A confined engine approximates that of a run in which there is room for all texts, time after
time. -/
theorem confined_approximates (setup : Setup) (texts : Finset String) (nested : Nat) (trail : Trail)
    {depth : Nat} (hdepth : nested * (texts.card + 1) + (texts \ trail.toFinset).card < depth) :
    (confined setup texts nested trail).Approximates (ListRun.engine setup depth) := by
  cases depth with
  | zero => exact absurd hdepth (Nat.not_lt_zero _)
  | succ depth =>
    rw [confined.eq_def, engine_eq_ways]
    refine ways_approximate ?_ ?_ ?_
    · -- a text is struck off
      intro inner e he
      cases hlast : inner.getLast? with
      | none => exact absurd he (by simp [hlast])
      | some code =>
        by_cases hcode : code ∈ texts ∧ code ∉ trail
        · have hcard := card_sdiff_append hcode.1 hcode.2
          have hinside : nested * (texts.card + 1) +
              (texts \ (trail ++ [code]).toFinset).card < depth := by omega
          have hconfined : e = confined setup texts nested (trail ++ [code]) := by
            simpa [hlast, hcode] using he.symm
          rw [hconfined]
          exact ⟨_, rfl, confined_approximates setup texts nested (trail ++ [code]) hinside⟩
        · exact absurd he (by simp [hlast, hcode])
    · -- the trail stays
      intro e he
      cases nested with
      | zero => exact absurd he (by simp)
      | succ nested =>
        have hagain : nested * (texts.card + 1) + (texts \ trail.toFinset).card < depth := by
          rw [Nat.succ_mul] at hdepth
          omega
        exact ⟨_, rfl, Option.some.inj he ▸ confined_approximates setup texts nested trail hagain⟩
    · -- the trail is empty again
      intro e he
      cases nested with
      | zero => exact absurd he (by simp)
      | succ nested =>
        have hafresh : nested * (texts.card + 1) + (texts \ List.toFinset []).card < depth := by
          rw [Nat.succ_mul] at hdepth
          rw [List.toFinset_nil, Finset.sdiff_empty]
          omega
        exact ⟨_, rfl, Option.some.inj he ▸ confined_approximates setup texts nested [] hafresh⟩
termination_by (nested, (texts \ trail.toFinset).card)
decreasing_by
  · exact Prod.Lex.right _ (Nat.lt_of_succ_le hcard.le)
  · exact Prod.Lex.left _ _ (by omega)
  · exact Prod.Lex.left _ _ (by omega)

/-! ## Runs that are confined in the end -/

/-- The engine of a run, and engines that are confined to more and more texts. -/
def loosening (setup : Setup) (depth nested : Nat) (trail : Trail) :
    Option (Finset String) → Engine
  | .none => ListRun.engine setup depth
  | .some texts => confined setup texts nested trail

section Loosening

variable (setup) (depth nested : Nat) (trail : Trail)

theorem loosening_together (texts : Option (Finset String)) :
    (loosening setup depth nested trail texts).together = Task.together := by
  cases texts with
  | none => cases depth <;> rfl
  | some texts => rw [loosening, confined.eq_def]; rfl

theorem loosening_store (texts : Option (Finset String)) :
    (loosening setup depth nested trail texts).store = Attempt.put := by
  cases texts with
  | none => cases depth <;> rfl
  | some texts => rw [loosening, confined.eq_def]; rfl

/-- A marked value starts again with one level less. -/
theorem loosening_restart (texts : Option (Finset String)) :
    (loosening setup (depth + 1) (nested + 1) trail texts).restart =
      evaluate (loosening setup depth nested trail texts) := by
  cases texts with
  | none => rfl
  | some texts => rw [loosening, loosening, confined.eq_def]; rfl

/-- A list of steps starts with an empty trail, one level below. -/
theorem loosening_runList (texts : Option (Finset String)) :
    (loosening setup (depth + 1) (nested + 1) trail texts).runList =
      ListRun.run setup (loosening setup depth nested [] texts) := by
  cases texts with
  | none => rfl
  | some texts => rw [loosening, loosening, confined.eq_def]; rfl

theorem loosening_runMarked (texts : Option (Finset String)) :
    (loosening setup (depth + 1) (nested + 1) trail texts).runMarked =
      (loosening setup (depth + 1) (nested + 1) trail texts).runList := by
  cases texts with
  | none => rfl
  | some texts => rw [loosening, confined.eq_def]; rfl

/-- A text that may be expanded is expanded with itself on the trail. -/
theorem confined_expand {texts : Finset String} {code : String} (hcode : code ∈ texts)
    (hfresh : code ∉ trail) (v : Value) :
    (confined setup texts nested trail).expand (trail ++ [code]) v =
      evaluate (confined setup texts nested (trail ++ [code])) true (trail ++ [code]) v := by
  rw [confined.eq_def]
  simp [ways, hcode, hfresh]

end Loosening

/-- In the end a run is confined, since nothing on the trail is ever expanded again. -/
theorem loosening_reached (setup : Setup) {depth nested : Nat} (hle : depth ≤ nested) :
    (∀ trail, Related (Attempt.Lifts (Task.Reached atTop)) trail
      (loosening setup depth nested trail)) ∧
    ∀ trail steps numbering, Task.Reached atTop fun texts =>
      (loosening setup depth nested trail texts).runList steps numbering := by
  -- for all trails at once: an expansion leads to a longer one, a list to the empty one
  induction depth generalizing nested with
  | zero =>
    refine ⟨fun trail => ?_, fun _ _ _ _ => .halted⟩
    exact
      { expand := fun _ _ _ _ => .halted
        restart := fun _ _ _ => .halted
        runAsSteps := fun _ _ _ _ => .halted
        together := by
          intro ts hts
          simp only [loosening_together]
          exact Attempt.together_reached hts }
  | succ depth ih =>
    cases nested with
    | zero => exact absurd hle (Nat.not_succ_le_zero depth)
    | succ nested =>
      have hC : Attempt.Congruence (Attempt.Lifts (Task.Reached (atTop : Filter (Finset String)))) :=
        Attempt.lifts_congruence Task.reached_congruence
      rcases ih (Nat.le_of_succ_le_succ hle) with ⟨hagain, hlists⟩
      rcases ih (Nat.le_of_succ_le hle) with ⟨hinside, -⟩
      have hrun : ∀ trail steps numbering, Task.Reached atTop fun texts =>
          (loosening setup (depth + 1) (nested + 1) trail texts).runList steps numbering := by
        intro trail steps numbering
        simp only [loosening_runList]
        exact ListRun.run_reached (hagain [])
          (acts_of_reached (loosening_store setup depth nested []) (hlists [])) steps numbering
      refine ⟨fun trail => ?_, hrun⟩
      exact
        { expand := by
            intro code v hfresh s
            have hexpanded := evaluate_rel hC (hinside (trail ++ [code])) true v s
            refine hexpanded.congr ?_
            filter_upwards [eventually_ge_atTop {code}] with texts htexts
            have hcode : code ∈ texts := htexts (Finset.mem_singleton_self code)
            simp only [loosening]
            rw [confined_expand setup (nested + 1) trail hcode hfresh]
          restart := by
            intro recursive v
            simp only [loosening_restart]
            exact evaluate_rel hC (hagain trail) recursive v
          runAsSteps := runAsSteps_rel Task.reached_updatingCongruence fun steps _ _ _ => by
            simpa only [loosening_runMarked] using hrun trail steps _
          together := by
            intro ts hts
            simp only [loosening_together]
            exact Attempt.together_reached hts }

end Engine

namespace PropertyEvaluation

/-! ## Evaluations that come to an end -/

/-- The evaluation of properties comes to an end, with a value or a failure, in some state. -/
def EndsWith (engine : Engine) (schema : Schema) (recursive : Bool) (v : Value) (s : RunState)
    (result : Except Failure Value) (s' : RunState) : Prop :=
  Task.run (properties engine schema recursive v).run s = .ok (result, s')

variable {e e' : Engine} {schema : Schema} {recursive : Bool} {v : Value} {s s' : RunState}
  {result : Except Failure Value}

/-- Where an approximation ends, what it approximates ends likewise. -/
theorem EndsWith.of_approximates (h : EndsWith e schema recursive v s result s')
    (he : e.Approximates e') : EndsWith e' schema recursive v s result s' := by
  have hruns := Task.Keeps.approximates (ListRun.properties_keeps he schema recursive v) s
  have hend : ((properties e schema recursive v).run s).complete = .ok (result, s') := h
  have hsame := hruns.complete (by rw [hend]; simp)
  exact hsame.trans hend

/-- A confined evaluation comes to an end, with a bound on how deeply work is nested in it. -/
theorem ends_of_confined {texts : Finset String} {nested depth : Nat}
    (h : EndsWith (Engine.confined setup texts nested []) schema recursive v s result s')
    (hdepth : nested * (texts.card + 1) + texts.card < depth) :
    EndsWith (ListRun.engine setup depth) schema recursive v s result s' := by
  refine h.of_approximates (Engine.confined_approximates setup texts nested [] ?_)
  rwa [List.toFinset_nil, Finset.sdiff_empty]

/-- An evaluation that comes to an end is confined to the texts that it expands. -/
theorem EndsWith.confined {depth : Nat}
    (h : EndsWith (ListRun.engine setup depth) schema recursive v s result s') :
    ∃ texts, EndsWith (Engine.confined setup texts depth []) schema recursive v s result s' := by
  have hrelated := (Engine.loosening_reached setup (Nat.le_refl depth)).1 []
  have hreached := properties_rel (Attempt.lifts_congruence Task.reached_congruence) hrelated schema
    recursive v s
  exact (hreached.complete h).exists

/-- An evaluation comes to an end exactly if it expands only finitely many texts and takes the other
ways back only so often inside each other. -/
theorem ends_iff_confined (setup : Setup) (schema : Schema) (recursive : Bool) (v : Value)
    (s : RunState) (result : Except Failure Value) (s' : RunState) :
    (∃ depth, EndsWith (ListRun.engine setup depth) schema recursive v s result s') ↔
      ∃ texts nested,
        EndsWith (Engine.confined setup texts nested []) schema recursive v s result s' := by
  constructor
  · rintro ⟨depth, h⟩
    rcases h.confined with ⟨texts, hconfined⟩
    exact ⟨texts, depth, hconfined⟩
  · rintro ⟨texts, nested, h⟩
    exact ⟨_, ends_of_confined h (Nat.lt_succ_self _)⟩

/-! ## Evaluations that do not -/

def tagged (code : String) : Value := .object [("$x", .string code)]

/-- A script tag that yields its own object comes back to itself without a trace on the trail. -/
theorem tagged_halts {code : String} (hcode : s.scope.evaluate code = .ok (tagged code))
    (depth : Nat) (recursive : Bool) :
    (evaluate (ListRun.engine setup depth) recursive [] (tagged code)).run s =
      .halted .exhausted := by
  have hplan : KeyPlan.ofKey "$x" = ⟨[.script], .evaluated, "x"⟩ := by decide
  have hwork (e : Engine) :
      (workAll e [.script] (.string code)).run s = .finished (.ok (tagged code)) s := by
    rw [workAll, Attempt.run_bind, workOnce, Attempt.run_expression hcode]
    rfl
  have hback (e : Engine)
      (h : (e.restart recursive [] (tagged code)).run s = .halted .exhausted) :
      (evaluate e recursive [] (tagged code)).run s = .halted .exhausted := by
    rw [tagged, evaluate, Attempt.run_bind, evaluateFields, Attempt.run_bind]
    simp only [hplan, Bool.false_eq_true, if_false, PropertyFlags.none]
    rw [Attempt.run_bind, hwork, Progress.bind_finished]
    dsimp only
    rw [Attempt.run_bind, h]
    rfl
  -- a level further down, the same object is evaluated with the same trail
  induction depth with
  | zero => exact hback _ rfl
  | succ depth ih => exact hback _ ih

/-- An object whose only field is a script that yields it again is never evaluated to an end. -/
theorem tagged_never_ends {code : String} (hcode : s.scope.evaluate code = .ok (tagged code)) :
    ¬ ∃ depth result s', EndsWith (ListRun.engine setup depth) Schema.empty recursive
      (tagged code) s result s' := by
  rintro ⟨depth, result, s', h⟩
  have hflags : Schema.empty.flags = fun _ => PropertyFlags.none := rfl
  have hsame : properties (ListRun.engine setup depth) Schema.empty recursive (tagged code) =
      evaluate (ListRun.engine setup depth) recursive [] (tagged code) := by
    rw [tagged, properties, hflags, evaluate]
  unfold EndsWith Task.run at h
  rw [hsame, tagged_halts hcode] at h
  exact absurd h (by simp [Progress.complete])

/-- A variable that holds a script tag for itself. -/
theorem self_tag_never_ends :
    ¬ ∃ depth result s', EndsWith (ListRun.engine (Setup.plain Registry.builtIn) depth)
      Schema.empty true (tagged "v")
      (RunState.start (Scope.ofVariables [("v", tagged "v")])) result s' :=
  tagged_never_ends rfl

end PropertyEvaluation

end StepScript
