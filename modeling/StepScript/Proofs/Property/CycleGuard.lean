import StepScript.Proofs.Property.Field
import StepScript.Proofs.Property.Interpolation
import StepScript.Proofs.Run.Immediate
import StepScript.Proofs.Run.Termination

/-!
# CycleGuard — no expression is expanded inside its own result

The result of a marker is evaluated again, with the expression of the marker on the trail.  An expression
that is on the trail is not expanded: what it yields is left as it is.  So the trail holds every
expression once, and where only finitely many of them can come up there is an end to the expansions.

* `Engine.watched` answers in some other way as soon as a trail holds a text twice;
* `PropertyEvaluation.Meets` says which values the evaluation of a value comes across, and
  `PropertyEvaluation.StaysIn` that these have only expressions of a finite set;
* `PropertyEvaluation.properties_guarded` is the main result.
-/

namespace StepScript

variable {setup : Setup} {trail : Trail} {depth : Nat}

/-! ## The trail -/

theorem Task.eq_congruence : UpdatingCongruence (Between fun _ => Eq) where
  pure _ := rfl
  bind h hf := congrArg₂ Bind.bind h (funext hf)
  state := rfl
  halt _ := rfl
  updateScope _ := rfl

theorem Task.eq_reportingCongruence : ReportingCongruence (Between fun _ => Eq) where
  toCongruence := eq_congruence.toCongruence
  report _ := rfl

namespace Engine

/-- An engine with other answers wherever the trail holds a text twice. -/
def guarded (e : Engine) (other : Trail → Value → Attempt Value) : Engine :=
  { e with
    expand := fun trail v => if trail.Nodup then e.expand trail v else other trail v
    restart := fun recursive trail v =>
      if trail.Nodup then e.restart recursive trail v else other trail v }

/-- The engine of a run, with other answers wherever a trail holds a text twice, at every depth. -/
def watched (setup : Setup) (other : Nat → Trail → Value → Attempt Value) : Nat → Engine
  | 0 => Engine.none.guarded (other 0)
  | depth + 1 =>
    (ListRun.level setup Attempt.put (watched setup other depth)).guarded (other (depth + 1))

variable {other : Nat → Trail → Value → Attempt Value}

abbrev Agree (trail : Trail) (e e' : Engine) : Prop :=
  Related (Attempt.Lifts (Task.Between fun _ => Eq)) trail (pair e e')

/-- Work that is done together agrees under two engines if each part of it does. -/
theorem together_agrees (together : List (Task (Except Failure Value)) → Task (Except Failure (List Value)))
    (ts : List (Bool → Attempt Value))
    (h : ∀ t ∈ ts, Attempt.Lifts (Task.Between fun _ => Eq) t) :
    Attempt.Lifts (Task.Between fun _ => Eq) fun i =>
      (ExceptT.mk (together (ts.map fun t => (t i).run)) : Attempt (List Value)) := by
  have hsame : (ts.map fun t => (t false).run) = ts.map fun t => (t true).run :=
    List.map_congr_left h
  exact congrArg together hsame

/-- A trail of different texts stays one with a text that is not on it. -/
theorem nodup_append_code {code : String} (htrail : trail.Nodup) (hcode : code ∉ trail) :
    (trail ++ [code]).Nodup := by
  rw [← List.concat_eq_append]
  exact htrail.concat hcode

/-- What an evaluation asks for under a trail without repetitions is guarded in vain. -/
theorem Agree.guarded {e e' : Engine} (htrail : trail.Nodup) (h : Agree trail e e')
    (other : Trail → Value → Attempt Value) : Agree trail (e.guarded other) e' where
  expand code v hcode := by
    change (if (trail ++ [code]).Nodup then _ else _ : Attempt Value).run = _
    rw [if_pos (nodup_append_code htrail hcode)]
    exact h.expand code v hcode
  restart recursive v := by
    change (if trail.Nodup then _ else _ : Attempt Value).run = _
    rw [if_pos htrail]
    exact h.restart recursive v
  runAsSteps := h.runAsSteps
  together := h.together

/-- Where all texts on the trail differ, the watched engine expands as the real one does, and it
runs lists and stores as that one in any case. -/
theorem watched_agrees (setup : Setup) (other : Nat → Trail → Value → Attempt Value) (depth : Nat) :
    (∀ trail, trail.Nodup → Agree trail (watched setup other depth) (ListRun.engine setup depth)) ∧
      (watched setup other depth).runList = (ListRun.engine setup depth).runList ∧
      (watched setup other depth).store = (ListRun.engine setup depth).store := by
  have C : Attempt.Congruence (Attempt.Lifts (Task.Between fun _ => Eq)) :=
    Attempt.lifts_congruence Task.eq_congruence.toCongruence
  have D : Attempt.ActingCongruence (Attempt.Lifts (Task.Between fun _ => Eq)) :=
    Attempt.lifts_actingCongruence Task.eq_congruence.toCongruence fun _ => rfl
  induction depth with
  | zero =>
    refine ⟨fun trail htrail => Agree.guarded htrail ?_ _, rfl, rfl⟩
    exact
      { expand := fun _ _ _ => rfl
        restart := fun _ _ => rfl
        runAsSteps := runAsSteps_rel Task.eq_congruence fun _ _ _ _ => rfl
        together := fun ts => together_agrees Task.together ts }
  | succ depth ih =>
    obtain ⟨hbelow, hlists, hstore⟩ := ih
    -- the lists that are run one level below, and all that they come to
    have hacts (number : String) : Acts (Attempt.Lifts (Task.Between fun _ => Eq)) number
        (pair (watched setup other depth) (ListRun.engine setup depth)) :=
      { store := fun name v => congrArg ExceptT.run (congrFun₂ hstore name v)
        runSteps := fun steps numbering _ =>
          runSteps_rel Task.eq_congruence (congrFun₂ hlists steps numbering) }
    have hrun : ListRun.run setup (watched setup other depth) =
        ListRun.run setup (ListRun.engine setup depth) := by
      funext steps numbering
      refine ListRun.runFrom_rel (e := pair _ _) Task.eq_congruence.toCongruence.sequencing ?_ 0
        steps.steps [] []
      intro index failed raw
      refine ListRun.visit_rel (e := pair _ _) Task.eq_reportingCongruence Task.eq_congruence setup
        steps.bindings failed raw fun step descriptor _ => ?_
      exact ListRun.invoke_rel C D id (hbelow [] List.nodup_nil) (hacts _) step descriptor
    refine ⟨fun trail htrail => Agree.guarded htrail ?_ _, hrun, rfl⟩
    exact
      { expand := fun _ v hcode =>
          PropertyEvaluation.evaluate_rel C (hbelow _ (nodup_append_code htrail hcode)) true v
        restart := fun recursive v =>
          PropertyEvaluation.evaluate_rel C (hbelow trail htrail) recursive v
        runAsSteps := runAsSteps_rel Task.eq_congruence fun steps _ numbering _ =>
          congrFun₂ hrun steps numbering
        together := fun ts => together_agrees Task.together ts }

end Engine

namespace PropertyEvaluation

open Attempt

variable {σ : Scope} {texts : Finset String} {flags : String → PropertyFlags} {recursive : Bool}
  {engine : Engine} {code string : String} {v x : Value}

/-- What an expression on the trail yields is left as it is. -/
theorem marker_of_mem (hcode : code ∈ trail) :
    marker engine recursive trail code = Attempt.expression fun s => s.evaluate code := by
  have hleft : (recursive && !trail.contains code) = false := by simp [hcode]
  unfold marker
  rw [hleft]
  exact bind_pure _

/-! ## What an evaluation comes across -/

/-- The value of a field is evaluated, as its flags and the marks of its key ask for: what its markers
yield is then evaluated too, or it is not. -/
inductive Enters (flags : String → PropertyFlags) (recursive : Bool) (key : String) (v : Value) :
    Bool → Prop
  | once : (flags key).skip = false → (flags key).nonRecursive = true →
      Enters flags recursive key v false
  | evaluated : (flags key).skip = false → (flags key).nonRecursive = false →
      (KeyPlan.ofKey key).treatment = .evaluated → Enters flags recursive key v recursive
  | steps {string : String} : (flags key).skip = false → (flags key).nonRecursive = false →
      (KeyPlan.ofKey key).treatment = .steps → v = .string string →
      Enters flags recursive key v false

/-- The evaluation of a value, whose fields have these flags, comes across another value: a part of
it, or what one of the expressions yields. -/
inductive Meets (σ : Scope) : (String → PropertyFlags) → Bool → Value → Value → Prop
  | here (flags : String → PropertyFlags) (recursive : Bool) (v : Value) : Meets σ flags recursive v v
  | item {flags : String → PropertyFlags} {recursive : Bool} {items : List Value}
      {bindings : Option Variables} {v x : Value} :
      v ∈ items → Meets σ (fun _ => .none) recursive v x →
      Meets σ flags recursive (.array items bindings) x
  | field {flags : String → PropertyFlags} {recursive inner : Bool} {fields : Variables}
      {key : String} {v x : Value} :
      (key, v) ∈ fields → Enters flags recursive key v inner → Meets σ (fun _ => .none) inner v x →
      Meets σ flags recursive (.object fields) x
  | result {flags : String → PropertyFlags} {string code : String} {v x : Value} :
      code ∈ Marker.codes (Marker.pieces string) → σ.evaluate code = .ok v →
      Meets σ (fun _ => .none) true v x → Meets σ flags true (.string string) x

/-- The markers of a text are among the given ones, and the keys of an object ask for no work. -/
def Harmless (texts : Finset String) : Value → Prop
  | .string string => ∀ code ∈ Marker.codes (Marker.pieces string), code ∈ texts
  | .object fields => ∀ e ∈ fields, (KeyPlan.ofKey e.1).work = []
  | _ => True

/-- An evaluation comes across harmless values only. -/
def StaysIn (σ : Scope) (texts : Finset String) (flags : String → PropertyFlags) (recursive : Bool)
    (v : Value) : Prop :=
  ∀ x, Meets σ flags recursive v x → Harmless texts x

/-- Flags are about the fields of an object. -/
theorem StaysIn.unflagged (h : StaysIn σ texts flags recursive v) (hv : ∀ fields, v ≠ .object fields) :
    StaysIn σ texts (fun _ => .none) recursive v := by
  intro x hx
  cases hx with
  | here => exact h v (.here _ _ _)
  | item hitem hrest => exact h x (.item hitem hrest)
  | field => exact absurd rfl (hv _)
  | result hcode hvalue hrest => exact h x (.result hcode hvalue hrest)

/-! ## Evaluations with finitely many expressions -/

/-- There is no answer to one of some expressions. -/
def CrashesIn (σ : Scope) (texts : Finset String) (why : Halt) : Prop :=
  why = .crashed ∧ ∃ code ∈ texts, ∃ e, σ.evaluate code = .error e ∧ e.isCrash = true

/-- What the expressions outside the trail yield is evaluated at once. -/
def ExpandsIn (σ : Scope) (texts : Finset String) (engine : Engine) (trail : Trail) : Prop :=
  ∀ code ∈ texts, code ∉ trail → ∀ v, StaysIn σ texts (fun _ => .none) true v →
    Immediate σ (CrashesIn σ texts) (engine.expand (trail ++ [code]) v)

/-- A marker is dealt with at once, and halted only by an expression without an answer, where its
text and what that yields are. -/
theorem marker_immediate (hexpand : ExpandsIn σ texts engine trail) (hcode : code ∈ texts)
    (hvalue : ∀ v, recursive = true → σ.evaluate code = .ok v →
      StaysIn σ texts (fun _ => .none) true v) :
    Immediate σ (CrashesIn σ texts) (marker engine recursive trail code) := by
  refine expression_bind_immediate (fun e he hcrash => ⟨rfl, code, hcode, e, he, hcrash⟩) ?_
  intro v hv
  by_cases hagain : (recursive && !trail.contains code) = true
  · obtain ⟨hrecursive, hfresh⟩ := Bool.and_eq_true_iff.1 hagain
    rw [if_pos hagain]
    exact hexpand code hcode (by simpa using hfresh) v (hvalue v hrecursive hv)
  · rw [if_neg hagain]
    exact pure_immediate v

/-- A text is dealt with at once if each of its markers is. -/
theorem text_immediate (htogether : engine.together = Task.together)
    (hexpand : ExpandsIn σ texts engine trail) (h : StaysIn σ texts flags recursive (.string string)) :
    Immediate σ (CrashesIn σ texts) (text engine recursive trail string) := by
  have hcodes : ∀ code ∈ Marker.codes (Marker.pieces string), code ∈ texts := h _ (.here _ _ _)
  have hmarker (code : String) (hcode : code ∈ Marker.codes (Marker.pieces string)) :
      Immediate σ (CrashesIn σ texts) (marker engine recursive trail code) := by
    refine marker_immediate hexpand (hcodes code hcode) ?_
    rintro v rfl hv x hx
    exact h x (.result hcode hv hx)
  unfold text
  dsimp only
  rw [htogether]
  cases hpieces : Marker.codes (Marker.pieces string) with
  | nil => exact pure_immediate _
  | cons code rest =>
    rw [hpieces] at hmarker
    have hmarkers := together_immediate
      ((code :: rest).map fun code => marker engine recursive trail code)
      (List.forall_mem_map.2 hmarker)
    rw [List.map_map] at hmarkers
    exact hmarkers.bind fun _ => pure_immediate _

/-- Without work for its marks, a field is handed over or its value is evaluated. -/
theorem fieldValue_immediate {halts : Halt → Prop} {key : String}
    (hwork : (KeyPlan.ofKey key).work = [])
    (h : ∀ inner, Enters flags recursive key v inner →
      Immediate σ halts (evaluate engine inner trail v)) :
    Immediate σ halts (fieldValue engine flags recursive trail key v) := by
  unfold fieldValue
  cases hskip : (flags key).skip with
  | true => exact pure_immediate v
  | false =>
    cases honce : (flags key).nonRecursive with
    | true => exact h false (.once hskip honce)
    | false =>
      simp only [hwork, workAll, pure_bind, Bool.false_eq_true, if_false]
      unfold finish
      cases htreatment : (KeyPlan.ofKey key).treatment with
      | raw => exact pure_immediate v
      | steps =>
        -- only a text is looked at under the name of nested steps
        cases v with
        | string string => exact h false (.steps hskip honce htreatment rfl)
        | _ => exact pure_immediate _
      | evaluated =>
        dsimp only
        rw [if_pos hwork]
        exact h recursive (.evaluated hskip honce htreatment)

mutual

/-- So is a value, by recursion on its structure, as long as the texts on its ways are among the
given ones. -/
theorem evaluate_immediate (htogether : engine.together = Task.together)
    (hexpand : ExpandsIn σ texts engine trail) (recursive : Bool) :
    ∀ v, StaysIn σ texts (fun _ => .none) recursive v →
      Immediate σ (CrashesIn σ texts) (evaluate engine recursive trail v)
  | .string _, h => text_immediate htogether hexpand h
  | .array items _, h =>
    (evaluateItems_immediate htogether hexpand recursive items
      fun _ hv x hx => h x (.item hv hx)).bind fun _ => pure_immediate _
  | .object fields, h =>
    (evaluateFields_immediate htogether hexpand _ recursive fields [] (h _ (.here _ _ _))
      fun _ hfield _ henters x hx => h x (.field hfield henters hx)).bind fun _ => pure_immediate _
  | .null, _ => pure_immediate _
  | .bool _, _ => pure_immediate _
  | .number _, _ => pure_immediate _
  | .lazy _, _ => pure_immediate _

theorem evaluateItems_immediate (htogether : engine.together = Task.together)
    (hexpand : ExpandsIn σ texts engine trail) (recursive : Bool) :
    ∀ items : List Value, (∀ v ∈ items, StaysIn σ texts (fun _ => .none) recursive v) →
      Immediate σ (CrashesIn σ texts) (evaluateItems engine recursive trail items)
  | [], _ => pure_immediate _
  | v :: rest, h => by
    obtain ⟨hv, hrest⟩ := List.forall_mem_cons.1 h
    exact (evaluate_immediate htogether hexpand recursive v hv).bind fun _ =>
      (evaluateItems_immediate htogether hexpand recursive rest hrest).bind fun _ => pure_immediate _

theorem evaluateFields_immediate (htogether : engine.together = Task.together)
    (hexpand : ExpandsIn σ texts engine trail) (flags : String → PropertyFlags) (recursive : Bool) :
    ∀ (fields : List (String × Value)) (done : Variables),
      (∀ e ∈ fields, (KeyPlan.ofKey e.1).work = []) →
      (∀ e ∈ fields, ∀ inner, Enters flags recursive e.1 e.2 inner →
        StaysIn σ texts (fun _ => .none) inner e.2) →
      Immediate σ (CrashesIn σ texts) (evaluateFields engine flags recursive trail fields done)
  | [], _, _, _ => pure_immediate _
  | (key, v) :: rest, done, hwork, hstays => by
    obtain ⟨hplan, hwork⟩ := List.forall_mem_cons.1 hwork
    obtain ⟨hv, hstays⟩ := List.forall_mem_cons.1 hstays
    rw [evaluateFields_cons_eq]
    refine (fieldValue_immediate hplan fun inner henters => ?_).bind fun w => ?_
    · exact evaluate_immediate htogether hexpand inner v (hv inner henters)
    · exact evaluateFields_immediate htogether hexpand flags recursive rest _ hwork hstays

end

/-- With room for the expressions outside the trail, all that they yield is evaluated. -/
theorem engine_expandsIn (setup : Setup) (hcard : (texts \ trail.toFinset).card ≤ depth) :
    ExpandsIn σ texts (ListRun.engine setup depth) trail := by
  intro code hcode hfresh v hv
  -- the expression is struck off, and one level less is left
  have hless := Engine.card_sdiff_append hcode hfresh
  induction depth generalizing trail code v with
  | zero => omega
  | succ depth ih =>
    refine evaluate_immediate (engine_together setup depth) ?_ true v hv
    intro code' hcode' hfresh' v' hv'
    exact ih (by omega) code' hcode' hfresh' v' hv' (Engine.card_sdiff_append hcode' hfresh')

/-- As many nested expansions as there are texts are enough for any properties that stay among
these. -/
theorem properties_immediate (setup : Setup) {schema : Schema} (hcard : texts.card ≤ depth)
    (h : StaysIn σ texts schema.flags recursive v) :
    Immediate σ (CrashesIn σ texts) (properties (ListRun.engine setup depth) schema recursive v) := by
  have hexpand : ExpandsIn σ texts (ListRun.engine setup depth) [] := by
    refine engine_expandsIn setup ?_
    rwa [List.toFinset_nil, Finset.sdiff_empty]
  unfold properties
  cases v with
  | object fields =>
    refine (evaluateFields_immediate (engine_together setup depth) hexpand schema.flags recursive
      fields [] (h _ (.here _ _ _)) ?_).bind fun _ => pure_immediate _
    exact fun _ hfield _ henters x hx => h x (.field hfield henters hx)
  | _ =>
    refine evaluate_immediate (engine_together setup depth) hexpand recursive _ ?_
    exact h.unflagged (by simp)

/-- No expression is expanded inside its own result.  A trail never holds a text twice, whatever the
engine would answer to one that does, and what an expression on the trail yields is left as the scope
has it.  So an evaluation that comes across only finitely many expressions, and across no key that asks
for a script or for steps, comes to its end with no more expansions inside each other than there are
expressions; any room beyond that makes no difference. -/
theorem properties_guarded (setup : Setup) (schema : Schema) (recursive : Bool) (v : Value)
    (s : RunState) :
    (∀ other depth, properties (Engine.watched setup other depth) schema recursive v =
      properties (ListRun.engine setup depth) schema recursive v) ∧
    (∀ engine trail code, code ∈ trail → marker engine recursive trail code =
      Attempt.expression fun scope => scope.evaluate code) ∧
    ∀ texts, StaysIn s.scope texts schema.flags recursive v →
      ∃ outcome : Except Halt (Except Failure Value),
        (∀ why, outcome = .error why → CrashesIn s.scope texts why) ∧
        ∀ depth, texts.card ≤ depth →
          Task.run (properties (ListRun.engine setup depth) schema recursive v).run s =
            outcome.map fun result => (result, s) := by
  refine ⟨fun other depth => ?_, fun _ _ _ => marker_of_mem, fun texts hstays => ?_⟩
  · exact properties_rel (Attempt.lifts_congruence Task.eq_congruence.toCongruence)
      ((Engine.watched_agrees setup other depth).1 [] List.nodup_nil) schema recursive v
  · obtain ⟨outcome, hrun, hhalts⟩ := properties_immediate setup (Nat.le_refl _) hstays s rfl
    have hcomplete : Task.run (properties (ListRun.engine setup texts.card) schema recursive v).run s =
        outcome.map fun result => (result, s) := by
      unfold Task.run
      rw [hrun, Progress.complete_ended]
    refine ⟨outcome, hhalts, fun depth hdepth => ?_⟩
    have hroom : (ListRun.engine setup texts.card).Approximates (ListRun.engine setup depth) :=
      ListRun.engine_approximates hdepth
    have hkeeps := ListRun.properties_keeps hroom schema recursive v
    refine ((Task.Keeps.approximates hkeeps s).complete fun hcut => ?_).trans hcomplete
    -- the run with the least room is not cut short
    have hexhausted : outcome = .error .exhausted := by
      rw [hrun, Progress.complete_ended] at hcut
      cases outcome with
      | ok result => cases hcut
      | error why =>
        cases hcut
        rfl
    cases (hhalts _ hexhausted).1

/-- Two variables that mention each other. -/
def chasing : RunState :=
  RunState.start (Scope.ofVariables [("a", .string "$(b) x"), ("b", .string "$(a)")])

theorem chasing_staysIn : StaysIn chasing.scope {"a", "b"} (fun _ => .none) true (.string "$(a)") := by
  have hcodes : Marker.codes (Marker.pieces "$(a)") = ["a"] := by decide
  have hcodes' : Marker.codes (Marker.pieces "$(b) x") = ["b"] := by decide
  have ha : chasing.scope.evaluate "a" = .ok (.string "$(b) x") := rfl
  have hb : chasing.scope.evaluate "b" = .ok (.string "$(a)") := rfl
  -- the two texts lead to each other and to nothing else
  have hclosed {flags : String → PropertyFlags} {recursive : Bool} {v x : Value}
      (h : Meets chasing.scope flags recursive v x)
      (hv : v = .string "$(a)" ∨ v = .string "$(b) x") :
      x = .string "$(a)" ∨ x = .string "$(b) x" := by
    induction h with
    | here => exact hv
    | item => simp at hv
    | field => simp at hv
    | result hcode hvalue _ ih =>
      apply ih
      rcases hv with hv | hv
      · cases hv
        rw [hcodes, List.mem_singleton] at hcode
        rw [hcode, ha] at hvalue
        cases hvalue
        exact .inr rfl
      · cases hv
        rw [hcodes', List.mem_singleton] at hcode
        rw [hcode, hb] at hvalue
        cases hvalue
        exact .inl rfl
  intro x hx
  rcases hclosed hx (.inl rfl) with rfl | rfl
  · simp [Harmless, hcodes]
  · simp [Harmless, hcodes']

/-- Two variables that mention each other are evaluated to the text of the second one, left as it
is. -/
theorem chasing_guarded :
    StaysIn chasing.scope {"a", "b"} (fun _ => .none) true (.string "$(a)") ∧
    ∀ depth, 2 ≤ depth → EndsWith (ListRun.engine (Setup.plain Registry.builtIn) depth) Schema.empty true
      (.string "$(a)") chasing (.ok (.string "$(b) x x")) chasing := by
  refine ⟨chasing_staysIn, ?_⟩
  obtain ⟨outcome, -, hruns⟩ := (properties_guarded (Setup.plain Registry.builtIn) Schema.empty true
    (.string "$(a)") chasing).2.2 {"a", "b"} chasing_staysIn
  have htwo : EndsWith (ListRun.engine (Setup.plain Registry.builtIn) 2) Schema.empty true
      (.string "$(a)") chasing (.ok (.string "$(b) x x")) chasing := by
    rfl
  intro depth hdepth
  have hcard : ({"a", "b"} : Finset String).card = 2 := rfl
  exact (hruns depth hdepth).trans ((hruns 2 (Nat.le_refl 2)).symm.trans htwo)

end PropertyEvaluation

end StepScript
