import StepScript.Proofs.Run.Inside
import StepScript.Proofs.Run.Ending

/-!
# Handing — what a control-flow action hands to the engine

An action of control flow has lists of steps and has them run by the engine.  Whatever the engine does
with a list, and whatever other work does in the meantime, these are the only steps that it is handed,
and in their order: an action runs a whole list, possibly several times, or the steps of a list one by
one, up to the first list that fails or that decides the action.  What the action comes to depends on
nothing but the outcomes of these lists.

* `Action.list?` is the list that an action has for a property;
* `Engine.Handing` follows the work of an action from list to list, each of them run by the engine;
* `Action.Hands` says which lists an action hands over, and what it makes of their outcomes;
* `Performance.perform_hands` is the main result.
-/

namespace StepScript

variable {α β : Type}

/-- The list of steps that an action has for a property. -/
def Action.list? : Action → String → Option StepList
  | .branch _ yes no, key =>
    if key = "then" then some yes else if key = "else" then some no else none
  | .loop _ _ steps, key => if key = "steps" then some steps else none
  | .runSteps steps, key => if key = "steps" then some steps else none
  | .pipe steps _ _, key => if key = "steps" then some steps else none
  | .junction _ steps, key => if key = "steps" then some steps else none
  | _, _ => none

/-- The steps of a list, each of them a list by itself with the same base variables. -/
def StepList.oneByOne (l : StepList) : List StepList :=
  l.steps.map fun step => ⟨[step], l.bindings⟩

/-- A list that has been handed over, and what it has come to. -/
structure Handed where
  list : StepList
  outcome : Except RunFailure (List Value)

namespace Handed

def results (h : Handed) : List Value :=
  h.outcome.toOption.getD []

end Handed

/-- From one state to another, the engine runs lists with numbers that go on behind that of a step.
Behind each list the step number is put back, and beside that only variables are stored. -/
inductive Engine.Handing (engine : Engine) (number : String) :
    RunState → List Handed → RunState → Prop
  | nothing (s : RunState) : Handing engine number s [] s
  | stored (name : String) (v : Value) {s s' : RunState} {handed : List Handed} :
      Handing engine number { s with scope := s.scope.put name v } handed s' →
      Handing engine number s handed s'
  | list {l : StepList} {numbering : Numbering} {outcome : Except RunFailure (List Value)}
      {s s₁ s' : RunState} {handed : List Handed} :
      numbering.Extends number → (engine.runList l numbering s).Ends outcome s₁ →
      Handing engine number (Engine.resumed s s₁) handed s' →
      Handing engine number s (⟨l, outcome⟩ :: handed) s'

/-! ## Plans -/

/-- How an action comes to the end of its plan. -/
inductive Reach where
  | whole
  | failed (cause : RunFailure)
  | decided

/-- The result of an action: its failure, or its value, given whether the action has been decided. -/
def Reach.result (failure : RunFailure → Failure) (value : Bool → α) : Reach → Except Failure α
  | .whole => .ok (value false)
  | .failed cause => .error (failure cause)
  | .decided => .ok (value true)

/-- A function of the result is applied to what the reach of a plan yields when no list fails. -/
theorem Reach.map_result (failure : RunFailure → Failure) (value : Bool → α) (f : α → β)
    (reach : Reach) :
    (reach.result failure value).map f = reach.result failure fun decided => f (value decided) := by
  cases reach <;> rfl

/-- The lists of a plan are handed over one after the other, up to the first one that fails or has
results that decide the action. -/
inductive Action.Follows (decides : List Value → Prop) :
    List StepList → List Handed → Reach → Prop
  | whole : Follows decides [] [] .whole
  | failed {l : StepList} {plan : List StepList} {cause : RunFailure} :
      Follows decides (l :: plan) [⟨l, .error cause⟩] (.failed cause)
  | decided {l : StepList} {plan : List StepList} {results : List Value} :
      decides results → Follows decides (l :: plan) [⟨l, .ok results⟩] .decided
  | next {l : StepList} {plan : List StepList} {results : List Value} {handed : List Handed}
      {reach : Reach} :
      ¬ decides results → Follows decides plan handed reach →
      Follows decides (l :: plan) (⟨l, .ok results⟩ :: handed) reach

def Undecided (_ : List Value) : Prop := False

/-- The last result is truthy, or falsy, as it should be to decide. -/
def Decisive (deciding : Bool) (results : List Value) : Prop :=
  ∃ v, results.getLast? = some v ∧ v.isTruthy = deciding

/-- Where nothing decides an action, it hands over all of its plan unless a list fails. -/
theorem Action.Follows.map_list_eq {plan : List StepList} {handed : List Handed} {reach : Reach}
    (h : Follows Undecided plan handed reach) (hreach : ∀ cause, reach ≠ .failed cause) :
    handed.map Handed.list = plan := by
  induction h with
  | whole => rfl
  | failed => exact absurd rfl (hreach _)
  | decided hdecides => exact hdecides.elim
  | next _ _ ih => rw [List.map_cons, ih hreach]

def ran (outcome : Except RunFailure (List Value)) : Except Failure Value :=
  (outcome.mapError Failure.run).map Value.list

/-- The lists that an action hands over when it begins in some state, and the result that it comes to
with their outcomes. -/
inductive Action.Hands (s : RunState) : Action → Except Failure Value → List Handed → Prop
  | branch {condition : Value} {yes no : StepList} {taken : Bool}
      {outcome : Except RunFailure (List Value)} :
      ((Performance.verdict condition).run s).Ends (.ok taken) s →
      Hands s (.branch condition yes no) (ran outcome) [⟨if taken then yes else no, outcome⟩]
  | undecided {condition : Value} {yes no : StepList} {e : Failure} :
      ((Performance.verdict condition).run s).Ends (.error e) s →
      Hands s (.branch condition yes no) (.error e) []
  /-- A loop has a round for each entry, up to the first round that fails. -/
  | loop {kind : LoopKind} {entries : List (Value × Value)} {steps : StepList}
      {handed : List Handed} {reach : Reach} :
      Follows Undecided (List.replicate entries.length steps) handed reach →
      Hands s (.loop kind entries steps)
        (reach.result (fun cause => .during (.iteration (handed.length - 1)) (.run cause)) fun _ =>
          Value.list (handed.map fun h => Value.list h.results)) handed
  | runSteps {steps : StepList} {outcome : Except RunFailure (List Value)} :
      Hands s (.runSteps steps) (ran outcome) [⟨steps, outcome⟩]
  /-- A pipe goes through its steps up to the first one that fails. -/
  | pipe {steps : StepList} {name : String} {input : Value} {handed : List Handed} {reach : Reach} :
      Follows Undecided steps.oneByOne handed reach →
      Hands s (.pipe steps name input)
        (reach.result .run fun _ => handed.foldl (fun v h => h.results.getLast?.getD v) input) handed
  /-- A junction goes through its steps up to the first one that fails or decides it. -/
  | junction {deciding : Bool} {steps : StepList} {handed : List Handed} {reach : Reach} :
      Follows (Decisive deciding) steps.oneByOne handed reach →
      Hands s (.junction deciding steps)
        (reach.result .run fun decided => .bool (decided == deciding)) handed

/-! ## Following the work -/

namespace Attempt

variable {engine : Engine} {number : String}

/-- A failure tells what was going on, and nothing else changes. -/
theorem run_during (circumstance : Circumstance) (work : Attempt α) (s : RunState) :
    (during circumstance work).run s =
      (work.run s).map (Except.mapError (Failure.during circumstance)) := by
  change (work.run s).bind _ = (work.run s).bind _
  congr 1
  funext result t
  cases result with
  | error e => rfl
  | ok a => rfl

/-- Work that has the engine run one list, and makes something of its outcome. -/
def RunsList (engine : Engine) (number : String) (t : Attempt α) (l : StepList)
    (failure : RunFailure → Failure) (value : List Value → α) : Prop :=
  ∀ ⦃s result s'⦄, (t.run s).Ends result s' → ∃ (numbering : Numbering) (outcome : _) (s₁ : RunState),
    numbering.Extends number ∧ (engine.runList l numbering s).Ends outcome s₁ ∧
      result = (outcome.mapError failure).map value ∧ s' = Engine.resumed s s₁

/-- Running a list as nested steps is running this list and telling its failure as it is. -/
theorem runSteps_runsList (engine : Engine) {numbering : Numbering} (hnumbering : numbering.Extends number)
    (l : StepList) :
    RunsList engine number (engine.runSteps l numbering) l Failure.run id := by
  intro s result s' hends
  rw [Engine.runSteps_eq_resumed] at hends
  obtain ⟨outcome, s₁, houtcome, hrest⟩ := Progress.ends_bind.1 hends
  cases hrest
  refine ⟨numbering, outcome, s₁, hnumbering, houtcome, ?_, rfl⟩
  cases outcome with
  | error cause => rfl
  | ok results => rfl

/-- Work that tells what was going on runs the same list, with the failure told inside. -/
theorem RunsList.during {t : Attempt α} {l : StepList} {failure : RunFailure → Failure}
    {value : List Value → α} (h : RunsList engine number t l failure value)
    (circumstance : Circumstance) :
    RunsList engine number (Attempt.during circumstance t) l
      (fun cause => .during circumstance (failure cause)) value := by
  intro s result s' hends
  rw [run_during] at hends
  obtain ⟨found, t, hfound, hrest⟩ := Progress.ends_bind.1 hends
  cases hrest
  obtain ⟨numbering, outcome, s₁, hnumbering, houtcome, rfl, rfl⟩ := h hfound
  refine ⟨numbering, outcome, s₁, hnumbering, houtcome, ?_, rfl⟩
  cases outcome with
  | error cause => rfl
  | ok results => rfl

theorem RunsList.map {t : Attempt α} {l : StepList} {failure : RunFailure → Failure}
    {value : List Value → α} (h : RunsList engine number t l failure value) (f : α → β) :
    RunsList engine number (do return f (← t)) l failure fun results => f (value results) := by
  intro s result s' hends
  rcases Attempt.ends_bind hends with ⟨e, hfound, rfl⟩ | ⟨a, s₁, hfound, hrest⟩
  · obtain ⟨numbering, outcome, s₁, hnumbering, houtcome, hresult, rfl⟩ := h hfound
    refine ⟨numbering, outcome, s₁, hnumbering, houtcome, ?_, rfl⟩
    cases outcome with
    | error cause => cases hresult; rfl
    | ok results => cases hresult
  · cases hrest
    obtain ⟨numbering, outcome, s₁, hnumbering, houtcome, hresult, rfl⟩ := h hfound
    refine ⟨numbering, outcome, s₁, hnumbering, houtcome, ?_, rfl⟩
    cases outcome with
    | error cause => cases hresult
    | ok results => cases hresult; rfl

/-- Whenever the work comes to an end, the lists that it has handed over are as they should be for its
result. -/
def HandsOver (engine : Engine) (number : String) (t : Attempt α)
    (P : Except Failure α → List Handed → Prop) : Prop :=
  ∀ ⦃s result s'⦄, (t.run s).Ends result s' →
    ∃ handed, engine.Handing number s handed s' ∧ P result handed

end Attempt

namespace Attempt.HandsOver

variable {engine : Engine} {number : String} {P P' : Except Failure α → List Handed → Prop}
  {Q : Except Failure β → List Handed → Prop}

/-- Work that only has a result hands over no list. -/
theorem pure {a : α} (h : P (.ok a) []) : HandsOver engine number (Pure.pure a) P := by
  rintro s _ _ ⟨⟩
  exact ⟨[], .nothing s, h⟩

theorem mono {t : Attempt α} (h : HandsOver engine number t P)
    (hmono : ∀ result handed, P result handed → P' result handed) :
    HandsOver engine number t P' := by
  intro s result s' hends
  obtain ⟨handed, hhanding, hP⟩ := h hends
  exact ⟨handed, hhanding, hmono _ _ hP⟩

/-- A function of the result does not change what is handed over. -/
theorem map {t : Attempt α} {f : α → β} (h : HandsOver engine number t P)
    (hmap : ∀ result handed, P result handed → Q (result.map f) handed) :
    HandsOver engine number (do return f (← t)) Q := by
  intro s result s' hends
  rcases Attempt.ends_bind hends with ⟨e, ht, rfl⟩ | ⟨a, s₁, ht, hrest⟩
  · obtain ⟨handed, hhanding, hP⟩ := h ht
    exact ⟨handed, hhanding, hmap _ _ hP⟩
  · obtain ⟨handed, hhanding, hP⟩ := h ht
    cases hrest
    exact ⟨handed, hhanding, hmap _ _ hP⟩

/-- A variable is stored first. -/
theorem store {next : Unit → Attempt α} (hstore : engine.store = Attempt.put) (name : String)
    (v : Value) (hnext : HandsOver engine number (next ()) P) :
    HandsOver engine number (engine.store name v >>= next) P := by
  intro s result s' hends
  rw [hstore] at hends
  obtain ⟨handed, hhanding, hP⟩ := hnext hends
  exact ⟨handed, .stored name v hhanding, hP⟩

/-- A list is run first. -/
theorem list {t : Attempt β} {l : StepList} {failure : RunFailure → Failure}
    {value : List Value → β} {next : β → Attempt α} (ht : RunsList engine number t l failure value)
    (herror : ∀ cause, P (.error (failure cause)) [⟨l, .error cause⟩])
    (hnext : ∀ results, HandsOver engine number (next (value results)) fun result handed =>
      P result (⟨l, .ok results⟩ :: handed)) :
    HandsOver engine number (t >>= next) P := by
  intro s result s' hends
  rcases Attempt.ends_bind hends with ⟨e, hlist, rfl⟩ | ⟨b, s₁, hlist, hrest⟩
  · obtain ⟨numbering, outcome, s₁, hnumbering, houtcome, hresult, rfl⟩ := ht hlist
    cases outcome with
    | error cause =>
      cases hresult
      exact ⟨_, .list hnumbering houtcome (.nothing _), herror cause⟩
    | ok results => cases hresult
  · obtain ⟨numbering, outcome, t, hnumbering, houtcome, hresult, rfl⟩ := ht hlist
    cases outcome with
    | error cause => cases hresult
    | ok results =>
      cases hresult
      obtain ⟨handed, hhanding, hP⟩ := hnext results hrest
      exact ⟨_, .list hnumbering houtcome hhanding, hP⟩

end Attempt.HandsOver

/-! ## Actions -/

namespace Performance

open Attempt

variable {engine : Engine} {number : String} {s s' : RunState}

/-- The rounds of a loop follow a plan with the same list for each entry. -/
def Rounds (steps : StepList) (round : Nat) (count : Nat) (result : Except Failure (List Value))
    (handed : List Handed) : Prop :=
  ∃ reach, Action.Follows Undecided (List.replicate count steps) handed reach ∧
    result = reach.result (fun cause => .during (.iteration (round + handed.length - 1)) (.run cause))
      fun _ => handed.map fun h => Value.list h.results

/-- A round that succeeds comes before the rounds that a loop goes on with. -/
theorem Rounds.cons {steps : StepList} {round count : Nat} {result : Except Failure (List Value)}
    {handed : List Handed} (results : List Value) (h : Rounds steps (round + 1) count result handed) :
    Rounds steps round (count + 1) (result.map fun others => Value.list results :: others)
      (⟨steps, .ok results⟩ :: handed) := by
  obtain ⟨reach, hfollows, rfl⟩ := h
  refine ⟨reach, .next id hfollows, ?_⟩
  cases reach with
  | whole => rfl
  | decided => rfl
  | failed cause =>
    have hindex : round + 1 + handed.length - 1 = round + (handed.length + 1) - 1 := by omega
    simp [Reach.result, Except.map, hindex]

/-- A loop hands over its list once for each round, and stops at the first round that fails. -/
theorem rounds_handsOver (hstore : engine.store = Attempt.put) (kind : LoopKind) (steps : StepList)
    (round : Nat) (entries : List (Value × Value)) :
    HandsOver engine number (rounds engine number kind steps round entries)
      (Rounds steps round entries.length) := by
  induction entries generalizing round with
  | nil => exact .pure ⟨.whole, .whole, rfl⟩
  | cons entry rest ih =>
    obtain ⟨a, b⟩ := entry
    -- a round stores the two variables of the entry and then runs the list
    refine .store hstore _ _ (.store hstore _ _ ?_)
    have hround := (runSteps_runsList engine
      (extends_dash number (toString round) ".") steps).during (.iteration round)
    refine .list hround (fun cause => ⟨.failed cause, .failed, rfl⟩) fun results => ?_
    exact .map (ih (round + 1)) fun _ _ hrest => hrest.cons results

/-- A step that is run by itself is a list of one step. -/
theorem single_runsList (bindings : Option Variables) (index : Nat) (step : Value) :
    RunsList engine number (single engine number bindings index step) ⟨[step], bindings⟩ Failure.run
      List.getLast? :=
  (runSteps_runsList engine (extends_dot number fun _ => index) _).map List.getLast?

/-- A pipe hands over its steps one by one, and its value is the last one that some step has
yielded. -/
theorem flow_handsOver (hstore : engine.store = Attempt.put) (name : String)
    (bindings : Option Variables) (index : Nat) (steps : List Value) (current : Value) :
    HandsOver engine number (flow engine number name bindings index steps current)
      fun result handed => ∃ reach,
        Action.Follows Undecided (StepList.oneByOne ⟨steps, bindings⟩) handed reach ∧
          result = reach.result .run fun _ =>
            handed.foldl (fun v h => h.results.getLast?.getD v) current := by
  induction steps generalizing index current with
  | nil => exact .pure ⟨.whole, .whole, rfl⟩
  | cons step rest ih =>
    refine .store hstore _ _ ?_
    refine .list (single_runsList bindings index step) (fun cause => ⟨.failed cause, .failed, rfl⟩)
      fun results => ?_
    refine (ih (index + 1) (results.getLast?.getD current)).mono fun result handed hrest => ?_
    obtain ⟨reach, hfollows, hresult⟩ := hrest
    exact ⟨reach, .next id hfollows, hresult⟩

/-- A junction hands over its steps one by one, up to the first that fails or decides. -/
theorem decide_handsOver (deciding : Bool) (bindings : Option Variables) (index : Nat)
    (steps : List Value) :
    HandsOver engine number (decide engine number deciding bindings index steps)
      fun result handed => ∃ reach,
        Action.Follows (Decisive deciding) (StepList.oneByOne ⟨steps, bindings⟩) handed reach ∧
          result = reach.result .run fun decided => decided == deciding := by
  induction steps generalizing index with
  | nil => exact .pure ⟨.whole, .whole, by simp [Reach.result]⟩
  | cons step rest ih =>
    refine .list (single_runsList bindings index step) (fun cause => ⟨.failed cause, .failed, rfl⟩)
      fun results => ?_
    have hrest (hdecisive : ¬ Decisive deciding results) :
        HandsOver engine number (decide engine number deciding bindings (index + 1) rest)
          fun result handed => ∃ reach,
            Action.Follows (Decisive deciding) (StepList.oneByOne ⟨step :: rest, bindings⟩)
              (⟨⟨[step], bindings⟩, .ok results⟩ :: handed) reach ∧
              result = reach.result .run fun decided => decided == deciding := by
      refine (ih (index + 1)).mono fun result handed hfollowed => ?_
      obtain ⟨reach, hfollows, hresult⟩ := hfollowed
      exact ⟨reach, .next hdecisive hfollows, hresult⟩
    -- a step that is skipped does not count, and one that has a result may decide
    cases hlast : results.getLast? with
    | none =>
      refine hrest ?_
      rintro ⟨v, hv, -⟩
      rw [hlast] at hv
      cases hv
    | some v =>
      dsimp only
      by_cases hdecides : v.isTruthy = deciding
      · rw [if_pos (by simpa using hdecides)]
        exact .pure ⟨.decided, .decided ⟨v, hlast, hdecides⟩, by simp [Reach.result]⟩
      · rw [if_neg (by simpa using hdecides)]
        refine hrest ?_
        rintro ⟨w, hw, htruthy⟩
        rw [hlast] at hw
        cases hw
        exact hdecides htruthy

/-- The verdict on a condition leaves the state alone. -/
theorem verdict_ends {condition : Value} {result : Except Failure Bool}
    (h : ((verdict condition).run s).Ends result s') : s' = s := by
  unfold verdict at h
  split at h
  · split at h
    · cases h
      rfl
    · rcases Attempt.ends_bind h with ⟨e, hfound, rfl⟩ | ⟨v, s₁, hfound, hrest⟩
      · obtain ⟨_, hfound⟩ := Attempt.ends_during hfound
        exact Attempt.ends_expression hfound
      · obtain ⟨_, hfound⟩ := Attempt.ends_during hfound
        cases hrest
        exact Attempt.ends_expression hfound
  · cases h
    rfl

/-- A list is run, and its results are put together. -/
theorem runSteps_handsOver {numbering : Numbering} (hnumbering : numbering.Extends number)
    (steps : StepList) :
    HandsOver engine number (do return Value.list (← engine.runSteps steps numbering))
      fun result handed => ∃ outcome, result = ran outcome ∧ handed = [⟨steps, outcome⟩] :=
  .list (runSteps_runsList engine hnumbering steps) (fun cause => ⟨.error cause, rfl, rfl⟩) fun results =>
    .pure ⟨.ok results, rfl, rfl⟩

/-- An action that has a list of steps hands its lists over to the engine, and in their order: nothing
else is run by it, whatever the engine does, and it comes to what the outcomes of the lists lead to. -/
theorem perform_hands (hstore : engine.store = Attempt.put) {action : Action} {key : String}
    {l : StepList} {result : Except Failure Value} (hlist : action.list? key = some l)
    (h : ((perform engine number action).run s).Ends result s') :
    ∃ handed, engine.Handing number s handed s' ∧ action.Hands s result handed := by
  cases action with
  | branch condition yes no =>
    -- without a verdict on the condition neither of the lists is run
    rcases Attempt.ends_bind h with ⟨e, hverdict, rfl⟩ | ⟨taken, s₁, hverdict, hrest⟩
    · obtain rfl := verdict_ends hverdict
      exact ⟨[], .nothing _, .undecided hverdict⟩
    · obtain rfl := verdict_ends hverdict
      cases taken with
      | true =>
        obtain ⟨_, hhanding, outcome, rfl, rfl⟩ :=
          runSteps_handsOver (extends_dash number "then" "-") _ hrest
        exact ⟨_, hhanding, .branch hverdict⟩
      | false =>
        obtain ⟨_, hhanding, outcome, rfl, rfl⟩ :=
          runSteps_handsOver (extends_dash number "else" "-") _ hrest
        exact ⟨_, hhanding, .branch hverdict⟩
  | loop kind entries steps =>
    have hloop : HandsOver engine number (perform engine number (.loop kind entries steps))
        (Action.Hands s (.loop kind entries steps)) := by
      refine (rounds_handsOver hstore kind steps 0 entries).map ?_
      rintro _ handed ⟨reach, hfollows, rfl⟩
      simpa only [Reach.map_result, Nat.zero_add] using Action.Hands.loop hfollows
    exact hloop h
  | runSteps steps =>
    obtain ⟨_, hhanding, outcome, rfl, rfl⟩ :=
      runSteps_handsOver (extends_dot number fun i => i) _ h
    exact ⟨_, hhanding, .runSteps⟩
  | pipe steps name input =>
    obtain ⟨handed, hhanding, reach, hfollows, rfl⟩ :=
      flow_handsOver hstore name steps.bindings 0 steps.steps input h
    exact ⟨handed, hhanding, .pipe hfollows⟩
  | junction deciding steps =>
    have hjunction : HandsOver engine number (perform engine number (.junction deciding steps))
        (Action.Hands s (.junction deciding steps)) := by
      refine (decide_handsOver deciding steps.bindings 0 steps.steps).map ?_
      rintro _ handed ⟨reach, hfollows, rfl⟩
      simpa only [Reach.map_result] using Action.Hands.junction hfollows
    exact hjunction h
  | _ => cases hlist

end Performance

end StepScript
