import StepScript.Proofs.Run.BaseNumber
import StepScript.Proofs.Run.Likeness

/-!
# Step number — the end of a step is reported under its own number

While nothing waits, the steps of a run are nested in each other like calls: between the announcement
of a step and the report of its end there are the steps that it runs, and nothing else.  If no action
writes the step number either, the scope holds the number of a step whenever its end is reported, and
the steps nested in it have longer numbers that begin with it.

* `Nested` describes such reports;
* `Progress.Prompt` speaks of work only for as long as nothing has begun to wait;
* `ListRun.run_reported_at_step` is the main result.
-/

namespace StepScript

variable {α β ε : Type} {setup : Setup} {e : Engine} {number : String} {belongs : String → Prop}
  {waits : Nat} {F G : RunState → Prop}

/-! ## Nested reports -/

/-- A number of which another one is a proper part at the beginning. -/
def Beneath (outer number : String) : Prop :=
  ∃ rest, rest ≠ "" ∧ number = outer ++ rest

/-- Reports of steps whose numbers belong to a list.  Between the announcement of a step and the
report of its end there are those of the steps beneath it; a step whose short form cannot be expanded
is not announced.  Whenever the end of a step is reported the scope holds its number. -/
inductive Nested : (String → Prop) → List Event → Prop
  | nil {belongs : String → Prop} : Nested belongs []
  | step {belongs : String → Prop} {number : String} {raw : Value} {step : Step}
      {status : StepStatus} {time time' : Nat} {inner rest : List Event} :
      belongs number → Nested (Beneath number) inner → Nested belongs rest →
      Nested belongs
        (.before number raw time :: (inner ++ .after number step status (some number) time' :: rest))
  | unread {belongs : String → Prop} {number : String} {step : Step} {status : StepStatus}
      {time : Nat} {rest : List Event} :
      belongs number → Nested belongs rest →
      Nested belongs (.after number step status (some number) time :: rest)

namespace Nested

/-- Reports of nested steps followed by such reports are again of this kind. -/
theorem append {events others : List Event} (h : Nested belongs events)
    (h' : Nested belongs others) : Nested belongs (events ++ others) := by
  induction h with
  | nil => exact h'
  | step hnumber hinner _ _ ih =>
    rw [List.cons_append, List.append_assoc, List.cons_append]
    exact .step hnumber hinner (ih h')
  | unread hnumber _ ih => exact .unread hnumber (ih h')

theorem mono {events : List Event} {belongs' : String → Prop} (h : Nested belongs events)
    (hle : ∀ number, belongs number → belongs' number) : Nested belongs' events := by
  induction h with
  | nil => exact .nil
  | step hnumber hinner _ _ ih => exact .step (hle _ hnumber) hinner (ih hle)
  | unread hnumber _ ih => exact .unread (hle _ hnumber) (ih hle)

/-- At every depth, the scope holds the number of the step whose end is reported. -/
theorem scopeNumber {events : List Event} (h : Nested belongs events) {number : String}
    {step : Step} {status : StepStatus} {scopeNumber : Option String} {time : Nat}
    (hmem : Event.after number step status scopeNumber time ∈ events) :
    scopeNumber = some number := by
  induction h with
  | nil => cases hmem
  | step _ _ _ ihinner ihrest =>
    rw [List.mem_cons, List.mem_append, List.mem_cons] at hmem
    rcases hmem with hbefore | hinner | hafter | hrest
    · cases hbefore
    · exact ihinner hinner
    · cases hafter
      rfl
    · exact ihrest hrest
  | unread _ _ ih =>
    rcases List.mem_cons.1 hmem with hafter | hrest
    · cases hafter
      rfl
    · exact ih hrest

end Nested

def Adds (belongs : String → Prop) (s t : RunState) : Prop :=
  ∃ new, t.events = s.events ++ new ∧ Nested belongs new

namespace Adds

theorem refl (s : RunState) : Adds belongs s s :=
  ⟨[], (List.append_nil _).symm, .nil⟩

/-- What is added in two parts is added together. -/
theorem trans {s t u : RunState} (h : Adds belongs s t) (h' : Adds belongs t u) :
    Adds belongs s u := by
  rcases h with ⟨new, ht, hnew⟩
  rcases h' with ⟨more, hu, hmore⟩
  exact ⟨new ++ more, by rw [hu, ht, List.append_assoc], hnew.append hmore⟩

theorem mono {belongs' : String → Prop} {s t : RunState} (h : Adds belongs s t)
    (hle : ∀ number, belongs number → belongs' number) : Adds belongs' s t := by
  rcases h with ⟨new, ht, hnew⟩
  exact ⟨new, ht, hnew.mono hle⟩

end Adds

theorem RunState.events_cons (s : RunState) (event : Event) :
    RunState.events { s with log := event :: s.log } = s.events ++ [event] :=
  List.reverse_cons

/-! ## Before anything waits -/

/-- A state in which something has begun to wait after so many waits. -/
def Waited (waits : Nat) (s s' : RunState) : Prop :=
  s = s' ∧ waits < s.timers

/-- A run cannot tell how much has waited before it. -/
theorem waited_likeness (waits : Nat) : Likeness (Waited waits) where
  scope h := by rw [h.1]
  clock h := by rw [h.1]
  timers h := by rw [h.1]
  store _ h := ⟨by rw [h.1], h.2⟩
  advance _ h := ⟨by rw [h.1], h.2⟩
  await h := ⟨by rw [h.1], Nat.lt_succ_of_lt h.2⟩
  report _ h := ⟨by rw [h.1], h.2⟩
  drop h := ⟨by rw [h.1], h.2⟩

namespace Progress

def Late (waits : Nat) (p : Progress α) : Prop :=
  p.Alike (Waited waits) False (fun _ => False) p

/-- Work that is through at once, in a state that `F` holds of, unless something begins to wait. -/
inductive Prompt (waits : Nat) (F : RunState → Prop) : Progress α → Prop
  | finished {a : α} {s : RunState} : s.timers = waits → F s → Prompt waits F (.finished a s)
  | late {p : Progress α} : p.Late waits → Prompt waits F p

/-- Work goes on at once while nothing waits, and is late from then on. -/
theorem Prompt.bind {p : Progress α} {next : α → RunState → Progress β} (h : p.Prompt waits F)
    (hprompt : ∀ a s, s.timers = waits → F s → (next a s).Prompt waits G)
    (hlate : ∀ a s, waits < s.timers → (next a s).Late waits) : (p.bind next).Prompt waits G := by
  cases h with
  | finished hwaits hF => exact hprompt _ _ hwaits hF
  | late h =>
    refine .late (Alike.bind h (fun hlossy => absurd hlossy id) ?_)
    rintro a s _ ⟨rfl, hs⟩
    exact hlate a s hs

theorem Prompt.map {p : Progress α} (f : α → β) (h : p.Prompt waits F) :
    (p.map f).Prompt waits F :=
  h.bind (fun _ _ hwaits hF => .finished hwaits hF) fun _ _ hs => .finished ⟨rfl, hs⟩

theorem Prompt.mono {p : Progress α} (h : p.Prompt waits F) (hle : ∀ s, F s → G s) :
    p.Prompt waits G := by
  cases h with
  | finished hwaits hF => exact .finished hwaits (hle _ hF)
  | late h => exact .late h

theorem Prompt.settle {p : Progress α} (h : p.Prompt waits F) : p.settle.Prompt waits F := by
  cases h with
  | finished hwaits hF => exact .finished hwaits hF
  | late h => exact .late (Alike.settle (waited_likeness waits) h)

/-- Two parts side by side are through at once if both are, one after the other. -/
theorem Prompt.beside {manner : Manner} {left : Progress (Except ε α)}
    {right : RunState → Progress (Except ε β)} (h : left.Prompt waits F)
    (hprompt : ∀ s, s.timers = waits → F s → (right s).Prompt waits F)
    (hlate : Continues (Waited waits) False right right) :
    (left.unlessFailed id fun s => left.beside manner (right s)).Prompt waits F := by
  cases h with
  | @finished result s hwaits hF =>
    cases result with
    | error e => exact .finished hwaits hF
    | ok a => exact (hprompt s hwaits hF).map _
  | late h =>
    exact .late (unlessFailed_beside_alike (waited_likeness waits) (fun _ _ hs => hs) hlate
      h.lossless).lossless

/-- A complete run in which nothing has begun to wait. -/
theorem Prompt.of_complete {p : Progress α} (h : p.Prompt waits F) {a : α} {s' : RunState}
    (hcomplete : p.complete = .ok (a, s')) (hwaits : s'.timers = waits) : F s' := by
  cases h with
  | finished _ hF =>
    cases hcomplete
    exact hF
  | late h =>
    rcases Alike.complete (waited_likeness waits) h hcomplete with ⟨_, _, _, hlt⟩
    exact absurd hwaits (Nat.ne_of_gt hlt)

end Progress

/-! ## Work inside a step -/

/-- The work of a step has reported only steps beneath it, and the scope holds its number. -/
def Returns (number : String) (s t : RunState) : Prop :=
  AtStep number t.scope ∧ Adds (Beneath number) s t

namespace Task

/-- Before anything waits, a task that begins at the step returns to it. -/
structure Orderly (number : String) (t : Task α) : Prop where
  prompt : ∀ s, AtStep number s.scope → (t s).Prompt s.timers (Returns number s)
  late : ∀ waits, Alike (Waited waits) False (fun _ => False) t t

theorem Orderly.bind {t : Task α} {f : α → Task β} (h : t.Orderly number)
    (hf : ∀ a, (f a).Orderly number) : (t >>= f).Orderly number where
  prompt s hs := by
    refine (h.prompt s hs).bind (fun a t hwaits ht => ?_) fun a t ht => ?_
    · rw [← hwaits]
      exact ((hf a).prompt t ht.1).mono fun u hu => ⟨hu.1, ht.2.trans hu.2⟩
    · exact (hf a).late _ t t ⟨rfl, ht⟩
  late waits := (h.late waits).bind (fun hlossy => absurd hlossy id) fun a => (hf a).late waits

/-- A task that always finishes at once has nothing to wait for. -/
theorem orderly_of_finished {t : Task α} (h : ∀ s, ∃ a, t s = .finished a s) :
    t.Orderly number where
  prompt s hs := by
    rcases h s with ⟨a, ha⟩
    rw [ha]
    exact .finished rfl ⟨hs, .refl s⟩
  late waits := by
    rintro s _ ⟨rfl, hs⟩
    rcases h s with ⟨a, ha⟩
    rw [ha]
    exact .finished ⟨rfl, hs⟩

theorem sleep_orderly (milliseconds : Nat) : (sleep milliseconds).Orderly number where
  prompt s hs := by
    unfold sleep
    by_cases hnone : milliseconds = 0
    · rw [if_pos hnone]
      exact .finished rfl ⟨hs, .refl s⟩
    · rw [if_neg hnone]
      exact .late (.waiting ⟨rfl, Nat.lt_succ_self _⟩ fun _ _ hnow => .finished hnow)
  late waits := sleep_alike (waited_likeness waits) milliseconds

theorem orderly_congruence : Congruence (Each fun _ => Orderly number) where
  pure a := orderly_of_finished fun _ => ⟨a, rfl⟩
  bind h hf := Orderly.bind h hf
  state := orderly_of_finished fun s => ⟨s, rfl⟩
  halt _ := ⟨fun _ _ => .late (.halted _), fun _ _ _ _ => .halted _⟩

theorem forall₂_late {ts : List (Task (Except ε α))} (h : ∀ t ∈ ts, t.Orderly number) (waits : Nat) :
    List.Forall₂ (Alike (Waited waits) False Failed) ts ts :=
  List.forall₂_same.2 fun t ht s s' hs => ((h t ht).late waits s s' hs).lossless

theorem join_prompt {ts : List (Task (Except ε α))} (h : ∀ t ∈ ts, t.Orderly number) {s : RunState}
    (hs : AtStep number s.scope) : (join ts s).Prompt s.timers (Returns number s) := by
  induction ts generalizing s with
  | nil => exact .finished rfl ⟨hs, .refl s⟩
  | cons t rest ih =>
    have hrest : ∀ u ∈ rest, u.Orderly number := fun u hu => h u (List.mem_cons_of_mem t hu)
    unfold join
    dsimp only
    rw [← Progress.map_unlessFailed]
    refine Progress.Prompt.map _ (((h t List.mem_cons_self).prompt s hs).beside ?_ ?_)
    · intro u hwaits hu
      rw [← hwaits]
      exact (ih hrest hu.1).mono fun v hv => ⟨hv.1, hu.2.trans hv.2⟩
    · exact join_alike (waited_likeness _) (forall₂_late hrest _)

theorem joinInOrderFrom_prompt {ts : List (Task (Except ε α))} (h : ∀ t ∈ ts, t.Orderly number)
    {s : RunState} {started : Progress (Except ε (List α))}
    (hstarted : started.Prompt s.timers (Returns number s)) :
    (joinInOrderFrom ts started).Prompt s.timers (Returns number s) := by
  induction ts generalizing started with
  | nil => exact hstarted.settle
  | cons t rest ih =>
    have ht : t.Orderly number := h t List.mem_cons_self
    refine ih (fun u hu => h u (List.mem_cons_of_mem t hu)) ?_
    rw [← Progress.map_unlessFailed]
    refine Progress.Prompt.map _ (hstarted.beside ?_ ?_)
    · intro u hwaits hu
      rw [← hwaits]
      exact (ht.prompt u hu.1).mono fun v hv => ⟨hv.1, hu.2.trans hv.2⟩
    · exact fun u u' hu => (ht.late _ u u' hu).lossless

/-- Tasks side by side return to the step if each one does. -/
theorem together_orderly {ts : List (Task (Except ε α))} (h : ∀ t ∈ ts, t.Orderly number) :
    (together ts).Orderly number where
  prompt s hs := by
    unfold together
    by_cases hfew : ts.length ≤ joinLimit
    · rw [if_pos hfew]
      exact join_prompt h hs
    · rw [if_neg hfew]
      exact (joinInOrderFrom_prompt h (.finished rfl ⟨hs, .refl s⟩)).map _
  late waits s s' hs := by
    exact (together_alike (waited_likeness waits) (forall₂_late h waits) s s' hs).lossless

end Task

def Attempt.Orderly (number : String) (t : Attempt α) : Prop :=
  Task.Orderly number t.run

theorem Attempt.orderly_congruence :
    ActingCongruence (Lifts (Task.Each fun _ => Task.Orderly number)) :=
  lifts_actingCongruence Task.orderly_congruence Task.sleep_orderly

theorem Attempt.Orderly.bind {t : Attempt α} {f : α → Attempt β} (h : t.Orderly number)
    (hf : ∀ a, (f a).Orderly number) : (t >>= f).Orderly number :=
  lifts_bind (t := fun _ : Unit => t) (f := fun _ => f) Task.orderly_congruence h hf

theorem Attempt.orderly_of_alike {t : Attempt α}
    (hprompt : ∀ s, AtStep number s.scope → (t.run s).Prompt s.timers (Returns number s))
    (hlate : ∀ waits, Attempt.Alike (Waited waits) False t t) : t.Orderly number where
  prompt := hprompt
  late waits s s' hs := (hlate waits s s' hs).lossless

/-! ## Engines -/

/-- The numbers of a list. -/
def Numbering.Has (numbering : Numbering) (number : String) : Prop :=
  ∃ index, number = numbering index

/-- A number beneath a step has that of the step as its proper beginning. -/
theorem Under.beneath {n : String} (h : Under number n) : Beneath number n := by
  obtain ⟨mark, -, rest, hn⟩ := h
  refine ⟨String.ofList (mark :: rest), by simp, ?_⟩
  rw [← String.toList_inj, hn]
  simp

theorem Numbering.Extends.beneath {numbering : Numbering} (h : numbering.Extends number) (n : String)
    (hn : numbering.Has n) : Beneath number n := by
  rcases hn with ⟨index, rfl⟩
  exact (h index).beneath

namespace Engine

/-- An engine whose answers return to the step that they are for, and whose lists, also those that
the mark of a key asks for, report their own steps and those nested in them. -/
structure Orderly (e : Engine) : Prop where
  late : ∀ waits, Alike (Waited waits) False e e
  expand : ∀ number trail v, Attempt.Orderly number (e.expand trail v)
  restart : ∀ number recursive trail v, Attempt.Orderly number (e.restart recursive trail v)
  runList : ∀ steps numbering s,
    (e.runList steps numbering s).Prompt s.timers (Adds numbering.Has s)
  marked : e.marked = e
  together : ∀ number (ts : List (Task (Except Failure Value))),
    (∀ t ∈ ts, Task.Orderly number t) → Task.Orderly number (e.together ts)
  store : ∀ number name v, Attempt.Orderly number (e.store name v)

/-- Storing but for the step number stays at the step. -/
theorem spare_orderly (name : String) (v : Value) : (spare name v).Orderly number := by
  unfold spare
  by_cases hname : VariableName.normalize name = VariableName.normalize Scope.stepNumberName
  · rw [if_pos hname]
    exact Attempt.ofTask_lifts Task.orderly_congruence (Task.orderly_congruence.halt _)
  · rw [if_neg hname]
    refine Attempt.orderly_of_alike (fun s hs => ?_) fun waits => ?_
    · have hscope : AtStep number (s.scope.put name v) :=
        (Scope.stepNumber_put_of_ne hname).trans hs
      exact .finished rfl ⟨hscope, .refl s⟩
    · exact ListRun.put_alike (waited_likeness waits) name v

variable {steps : StepList} {numbering : Numbering}

/-- Running a list for an action returns to the step, reporting only what is beneath it. -/
theorem runSteps_orderly (h : e.Orderly) (hnumbering : numbering.Extends number) :
    Attempt.Orderly number (e.runSteps steps numbering) := by
  refine Attempt.orderly_of_alike (fun s hs => ?_) fun waits => ?_
  · rcases Scope.get?_of_stepNumber hs with ⟨v, hv, rfl⟩
    rw [run_runSteps hv]
    refine (h.runList steps numbering s).bind (fun result t hwaits ht => ?_) fun result t ht => ?_
    · -- the number is put back
      refine .finished hwaits ⟨Scope.stepNumber_put _ v, ?_⟩
      exact Adds.mono (t := t) ht hnumbering.beneath
    · exact .finished ⟨rfl, ht⟩
  · exact runSteps_alike (waited_likeness waits) ((h.late waits).runList steps numbering)

theorem runAsSteps_orderly (h : e.Orderly) (key : String) (collect : Collect) (v : Value) :
    Attempt.Orderly number (PropertyEvaluation.runAsSteps e key collect v) := by
  refine Attempt.orderly_of_alike (fun s hs => ?_) fun waits => ?_
  · have hsteps : Attempt.Orderly number (e.runSteps (StepList.oneOrMany v) _) :=
      runSteps_orderly h (Performance.extends_dash number key "-")
    have hkept (results : List Value) : Attempt.Orderly number
        (Pure.pure (PropertyEvaluation.kept collect results) : Attempt Value) :=
      Task.orderly_congruence.pure _
    rw [run_runAsSteps hs, h.marked]
    exact (hsteps.bind hkept).prompt s hs
  · exact runAsSteps_alike (waited_likeness waits) (h.late waits).runMarked key collect v

theorem Orderly.related (h : e.Orderly) (trail : Trail) :
    Related (Attempt.Lifts (Task.Each fun _ => Task.Orderly number)) trail fun _ => e where
  expand code v _ := h.expand number (trail ++ [code]) v
  restart recursive v := h.restart number recursive trail v
  runAsSteps := runAsSteps_orderly h
  together _ hts := h.together number _ (List.forall_mem_map.2 hts)

theorem Orderly.acts (h : e.Orderly) :
    Acts (Attempt.Lifts (Task.Each fun _ => Task.Orderly number)) number fun _ => e where
  store := h.store number
  runSteps _ _ hnumbering := runSteps_orderly h hnumbering

end Engine

/-! ## Lists -/

namespace ListRun

/-- What becomes of a raw step returns to the step. -/
theorem conclude_orderly (setup : Setup) (h : e.Orderly) (failed : Bool) (raw : Value)
    (prepared : Except RunFailure Step) :
    Task.Orderly number (conclude setup e number failed raw prepared) :=
  conclude_rel (e := fun _ => e) Task.orderly_congruence.sequencing setup failed raw
    (fun step descriptor _ => invoke_rel Attempt.orderly_congruence.toCongruence
      Attempt.orderly_congruence id (h.related []) h.acts step descriptor) prepared

/-- A visit reports its step around those that are nested in it. -/
theorem visit_prompt (h : e.Orderly) (bindings : Option Variables) (number : String) (failed : Bool)
    (raw : Value) (s : RunState) :
    (visit setup e bindings number failed raw s).Prompt s.timers (Adds (· = number) s) := by
  have hentered : AtStep number (entered bindings number s).scope := Scope.stepNumber_put _ _
  have hfinish (opening inner : List Event) (verdict : Verdict) (t : RunState)
      (ht : AtStep number t.scope) (hevents : t.events = s.events ++ opening ++ inner)
      (hnested : ∀ step status time, Nested (· = number)
        (opening ++ inner ++ [.after number step status (some number) time])) :
      Adds (· = number) s (Visit.reported ⟨number, verdict, t⟩) := by
    refine ⟨_, ?_, hnested verdict.step verdict.status t.clock⟩
    change RunState.events { t with log := _ :: t.log } = _
    rw [RunState.events_cons, hevents, ← ht]
    simp [Visit.report]
  rw [visit_eq]
  cases hexpand : Shorthand.expand setup.registry raw with
  | error reason =>
    rw [handle_of_prepare (prepare_of_expand_error hexpand)]
    have hunread : ∀ verdict, Adds (· = number) s
        (Visit.reported ⟨number, verdict, entered bindings number s⟩) := fun verdict =>
      hfinish [] [] verdict _ hentered (by simp [entered, RunState.events])
        fun _ _ _ => .unread rfl .nil
    unfold conclude
    dsimp only
    split
    · exact .finished rfl (hunread _)
    · exact .finished rfl (hunread _)
  | ok expanded =>
    rw [handle_of_prepare (prepare_of_expand_ok hexpand)]
    have hconclude := (conclude_orderly setup h failed raw (read setup number expanded)).prompt
      { entered bindings number s with
        log := .before number expanded s.clock :: (entered bindings number s).log } hentered
    refine hconclude.bind (fun verdict t hwaits ht => ?_) fun verdict t ht => .finished ⟨rfl, ht⟩
    rcases ht with ⟨hat, new, hnew, hnested⟩
    refine .finished hwaits (hfinish [.before number expanded s.clock] new verdict t hat ?_ ?_)
    · rw [hnew, RunState.events_cons]
      rfl
    · exact fun step status time => .step rfl hnested .nil

/-- Before anything waits, a list reports its own steps and those nested in them. -/
theorem runFrom_prompt (h : e.Orderly) (bindings : Option Variables) (numbering : Numbering)
    (index : Nat) (steps results : List Value) (failures : List RunFailure) (s : RunState) :
    (runFrom setup e bindings numbering index steps results failures s).Prompt s.timers
      (Adds numbering.Has s) := by
  induction steps generalizing index results failures s with
  | nil => exact .finished rfl (.refl s)
  | cons raw rest ih =>
    rw [runFrom_cons]
    refine (visit_prompt h bindings (numbering index) _ raw s).bind ?_ ?_
    · intro verdict t hwaits ht
      have hvisit : Adds numbering.Has s t := ht.mono fun n hn => ⟨index, hn⟩
      by_cases haborts : verdict.aborts = true
      · simp only [haborts, if_true]
        exact .finished hwaits hvisit
      · simp only [haborts]
        rw [← hwaits]
        exact (ih _ _ _ t).mono fun u hu => hvisit.trans hu
    · intro verdict t ht
      by_cases haborts : verdict.aborts = true
      · simp only [haborts, if_true]
        exact .finished ⟨rfl, ht⟩
      · simp only [haborts]
        exact runFrom_alike (waited_likeness s.timers) (h.late s.timers) bindings numbering _ _ _ _
          t t ⟨rfl, ht⟩

/-- Evaluating a value returns to the step. -/
theorem evaluate_orderly (h : e.Orderly) (recursive : Bool) (trail : Trail) (v : Value) :
    Attempt.Orderly number (PropertyEvaluation.evaluate e recursive trail v) :=
  PropertyEvaluation.evaluate_rel (e := fun _ => e) Attempt.orderly_congruence.toCongruence
    (h.related trail) recursive v

/-- An engine that spares the step number is alike to itself, whichever states are alike. -/
theorem sparing_alike {S : RunState → RunState → Prop} (hS : Likeness S) (setup : Setup)
    (depth : Nat) : Engine.Alike S False (sparing setup depth) (sparing setup depth) := by
  have hspare (name : String) (v : Value) :
      Attempt.Alike S False (Engine.spare name v) (Engine.spare name v) := by
    unfold Engine.spare
    split
    · exact Attempt.ofTask_alike fun _ _ _ => .halted _
    · exact put_alike hS name v
  induction depth with
  | zero => exact none_alike hS hspare
  | succ depth ih => exact level_alike hS hspare ih

/-- In a run in which no action writes the step number, all work returns to its step. -/
theorem sparing_orderly (setup : Setup) (depth : Nat) : (sparing setup depth).Orderly := by
  induction depth with
  | zero =>
    exact
      { late := fun waits => sparing_alike (waited_likeness waits) setup 0
        expand := fun _ _ _ =>
          Attempt.ofTask_lifts Task.orderly_congruence (Task.orderly_congruence.halt _)
        restart := fun _ _ _ _ =>
          Attempt.ofTask_lifts Task.orderly_congruence (Task.orderly_congruence.halt _)
        runList := fun _ _ _ => .late (.halted _)
        marked := rfl
        together := fun _ _ hts => Task.together_orderly hts
        store := fun _ name v => Engine.spare_orderly name v }
  | succ depth ih =>
    exact
      { late := fun waits => sparing_alike (waited_likeness waits) setup (depth + 1)
        expand := fun _ => evaluate_orderly ih true
        restart := fun _ => evaluate_orderly ih
        runList := fun steps numbering s =>
          runFrom_prompt ih steps.bindings numbering 0 steps.steps [] [] s
        marked := rfl
        together := fun _ _ hts => Task.together_orderly hts
        store := fun _ name v => Engine.spare_orderly name v }

/-- If nothing waits and no action writes the step number, every step at every depth is reported
while the scope holds its number, and steps that are nested in it have numbers beneath its own. -/
theorem run_reported_at_step (setup : Setup) (depth : Nat) (steps : StepList)
    (numbering : Numbering) (s s' : RunState) (result : Except RunFailure (List Value))
    (h : Task.run (run setup (sparing setup depth) steps numbering) s = .ok (result, s'))
    (hwaits : s'.timers = s.timers) :
    Task.run (run setup (engine setup depth) steps numbering) s = .ok (result, s') ∧
    ∃ new, s'.events = s.events ++ new ∧ Nested numbering.Has new ∧
      ∀ number step status scopeNumber time,
        Event.after number step status scopeNumber time ∈ new → scopeNumber = some number := by
  constructor
  · have hkeeps : Task.Keeps Accounting.approximation Accounting.approximation.outstanding
        (run setup (sparing setup depth) steps numbering)
        (run setup (engine setup depth) steps numbering) :=
      run_keeps visits_approximate (sparing_approximates setup depth) steps numbering
    have hcomplete : (run setup (sparing setup depth) steps numbering s).complete =
      .ok (result, s') := h
    have hne : (run setup (sparing setup depth) steps numbering s).complete ≠ .error .exhausted := by
      rw [hcomplete]
      exact fun hfalse => nomatch hfalse
    exact ((Task.Keeps.approximates hkeeps s).complete hne).trans hcomplete
  · have hprompt : (run setup (sparing setup depth) steps numbering s).Prompt s.timers
        (Adds numbering.Has s) :=
      runFrom_prompt (sparing_orderly setup depth) steps.bindings numbering 0 steps.steps [] [] s
    rcases hprompt.of_complete h hwaits with ⟨new, hevents, hnested⟩
    exact ⟨new, hevents, hnested, fun _ _ _ _ _ hmem => hnested.scopeNumber hmem⟩

/-- A step that runs another one for a property, which fails. -/
def nestingSteps : StepList where
  steps := [.object [("run-steps", .array [.object [("echo", .string "$(key)")]] none)]]
  bindings := some [("key", .object [("(k)", .object [("fail", .string "no")])])]

/-- The failing step is reported with its own number in the scope, and the nested one beneath it. -/
theorem nestingSteps_reported_at_step :
    ∃ result s', s'.timers = (RunState.start Scope.empty).timers ∧
      Task.run (run (Setup.plain Registry.builtIn) (engine (Setup.plain Registry.builtIn) 5)
        nestingSteps topLevel) (RunState.start Scope.empty) = .ok (result, s') ∧
      ∃ new, s'.events = (RunState.start Scope.empty).events ++ new ∧ Nested topLevel.Has new ∧
        ∀ number step status scopeNumber time,
          Event.after number step status scopeNumber time ∈ new → scopeNumber = some number := by
  have hrun : (match Task.run (run (Setup.plain Registry.builtIn)
        (sparing (Setup.plain Registry.builtIn) 5) nestingSteps topLevel)
        (RunState.start Scope.empty) with
      | .ok (_, s') => s'.timers == 0
      | .error _ => false) = true := by decide +kernel
  split at hrun
  · rename_i result s' h
    rw [beq_iff_eq] at hrun
    have hreported := run_reported_at_step (Setup.plain Registry.builtIn) 5 nestingSteps topLevel
      (RunState.start Scope.empty) s' result h hrun
    exact ⟨result, s', hrun, hreported⟩
  · cases hrun

end ListRun

end StepScript
