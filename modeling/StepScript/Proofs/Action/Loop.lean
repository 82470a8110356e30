import StepScript.Proofs.Action.Building
import StepScript.Proofs.Run.Entering
import StepScript.Proofs.Run.OneByOne

/-!
# Loop — a list that is run once for each entry

A loop runs its list in rounds, one for each item of an array or field of an object.  Before each round
it stores the entry in two variables.  What a round leaves in the scope stays there for the next one;
the first round that fails ends the loop.

* `Catalogue.loop_build` says from which properties the actions are built, and what their entries are;
* `Performance.Repetition` follows a loop from round to round, however other work goes on meanwhile and
  whether or not it will ever come to an end;
* `Performance.Repeats` describes the rounds that have been started, and what the loop has come to with
  them;
* `Performance.loop_repeats` is the main result, on all loops and in all runs, at any point that a run
  comes to.
-/

namespace StepScript

open VariableName (normalize)

namespace Catalogue

/-- The types of the loops. -/
def loops : List (String × LoopKind) :=
  [("for-each-item", .item), ("for-each", .item), ("for-each-property", .property),
    ("for-each-element", .element)]

/-- The entries of a loop: the fields of an object in their order, with their names, or the items of an
array with their positions.  Null has none. -/
inductive Sourced : LoopKind → Value → List (Value × Value) → Prop
  | fields {source : Value} {fields : Variables} : source.resolved = .object fields →
      Sourced .property source (fields.map fun f => (.string f.1, f.2))
  | items {kind : LoopKind} {source : Value} {items : List Value} {bindings : Option Variables} :
      kind ≠ .property → source.resolved = .array items bindings →
      Sourced kind source (items.zipIdx.map fun e => (e.1, Value.ofNat e.2))
  | null {kind : LoopKind} {source : Value} : source.resolved = .null → Sourced kind source []

/-- Counting items is what the library does, with the numbers as values. -/
theorem indexed_eq (start : Nat) (items : List Value) :
    indexed start items = (items.zipIdx start).map fun e => (e.1, Value.ofNat e.2) := by
  induction items generalizing start with
  | nil => rfl
  | cons v rest ih =>
    rw [indexed, ih, List.zipIdx_cons]
    rfl

/-- What a loop runs over is read off its collection as the relation says. -/
theorem entries_of_sourced {kind : LoopKind} {source : Value} {found : List (Value × Value)}
    (h : Sourced kind source found) : entries kind source = .ok found := by
  unfold entries
  cases h with
  | fields hsource => rw [hsource]
  | items hkind hsource =>
    rw [hsource]
    cases kind with
    | property => exact absurd rfl hkind
    | _ => exact congrArg _ (indexed_eq 0 _)
  | null hsource =>
    rw [hsource]
    cases kind <;> rfl

/-- A loop is built from its source and its list of steps. -/
theorem loop_build {type : String} {kind : LoopKind} (htype : (type, kind) ∈ loops) {p : Properties}
    {source : Value} {found : List (Value × Value)} {steps : StepList}
    (hsource : p.get? kind.source = some source) (hfound : Sourced kind source found)
    (hsteps : StepList.ofValue ((p.get? "steps").getD .null) = .ok steps) :
    ∃ d, Registry.builtIn.find? type = some d ∧ d.build p = .ok (.loop kind found steps) := by
  have hdescriptor : Registry.builtIn.find? type = some (descriptor (loop kind) Schema.empty) := by
    simp only [loops, List.mem_cons, List.not_mem_nil, or_false, Prod.mk.injEq] at htype
    rcases htype with ⟨rfl, rfl⟩ | ⟨rfl, rfl⟩ | ⟨rfl, rfl⟩ | ⟨rfl, rfl⟩ <;> rfl
  have hrequired : p.required kind.source = .ok source := by rw [Properties.required, hsource]
  have hrest : StepList.ofValue (((p.erase kind.source).get? "steps").getD .null) = .ok steps := by
    rwa [p.get?_erase (by cases kind <;> decide)]
  have hloop : loop kind p = .ok (.loop kind found steps, (p.erase kind.source).erase "steps") := by
    unfold loop
    rw [Builder.bind_of_ok (takeBy_of_ok hrequired), entries_of_sourced hfound]
    exact Builder.bind_of_ok (takeSteps_of_ok hrest)
  exact ⟨_, hdescriptor, descriptor_build_of_ok _ hloop⟩

end Catalogue

namespace Performance

open ListRun
open Engine (resumed)

variable {setup : Setup} {depth : Nat} {engine : Engine} {number : String} {kind : LoopKind}
  {steps : StepList} {s : RunState}

/-! ## From round to round -/

def inRound (number : String) (round : Nat) : Numbering :=
  fun index => number ++ "-" ++ toString round ++ "." ++ toString index

def bound (kind : LoopKind) (entry : Value × Value) (s : RunState) : RunState :=
  { s with scope := (s.scope.put kind.names.1 entry.1).put kind.names.2 entry.2 }

/-- What is left of a loop, when its first rounds have had some results. -/
def remainder (engine : Engine) (number : String) (kind : LoopKind) (steps : StepList)
    (found : List (List Value)) (entries : List (Value × Value)) : Task (Except Failure Value) :=
  fun s => ((rounds engine number kind steps found.length entries).run s).map
    (Except.map fun others => Value.list (found.map Value.list ++ others))

def behind (engine : Engine) (number : String) (kind : LoopKind) (steps : StepList)
    (found : List (List Value)) (entries : List (Value × Value)) :
    Except RunFailure (List Value) → Task (Except Failure Value)
  | .error e => Task.pure (.error (.during (.iteration found.length) (.run e)))
  | .ok results => remainder engine number kind steps (found ++ [results]) entries

/-- A loop begins with all its entries before it and no round behind it. -/
theorem perform_loop (entries : List (Value × Value)) (s : RunState) :
    (perform engine number (.loop kind entries steps)).run s =
      remainder engine number kind steps [] entries s := by
  unfold perform
  rw [Attempt.run_bind]
  change _ = ((rounds engine number kind steps 0 entries).run s).bind _
  congr 1
  funext result t
  cases result with
  | error e => rfl
  | ok others => rfl

theorem remainder_nil (found : List (List Value)) (s : RunState) :
    remainder engine number kind steps found [] s =
      .finished (.ok (Value.list (found.map Value.list))) s := by
  change Progress.finished (Except.ok (Value.list (found.map Value.list ++ []))) s = _
  rw [List.append_nil]

/-- A round binds its entry, runs the list, and goes on with the other entries or fails. -/
theorem remainder_cons (found : List (List Value)) (entry : Value × Value)
    (rest : List (Value × Value)) (s : RunState) :
    remainder (ListRun.engine setup (depth + 1)) number kind steps found (entry :: rest) s =
      (ListRun.run setup (ListRun.engine setup depth) steps (inRound number found.length)
        (bound kind entry s)).bind fun result t =>
          behind (ListRun.engine setup (depth + 1)) number kind steps found rest result
            (resumed (bound kind entry s) t) := by
  change ((Attempt.during (.iteration found.length) ((ListRun.engine setup (depth + 1)).runSteps steps
    (inRound number found.length)) >>= _).run (bound kind entry s)).bind _ = _
  rw [Attempt.run_bind, Attempt.run_during, Engine.runSteps_eq_resumed, Progress.map]
  refine (Progress.bind_assoc _ _ _).trans ((Progress.bind_assoc _ _ _).trans
    ((Progress.bind_assoc _ _ _).trans (congrArg _ ?_)))
  funext result t
  cases result with
  | error e => rfl
  | ok results =>
    -- the results of this round are those of one more
    have hlength : (found ++ [results]).length = found.length + 1 := by simp
    change ((rounds _ number kind steps (found.length + 1) rest >>= _).run _).bind _ =
      remainder _ number kind steps (found ++ [results]) rest _
    rw [remainder, hlength, Attempt.run_bind, Progress.map]
    refine (Progress.bind_assoc _ _ _).trans (congrArg _ ?_)
    funext others u
    cases others with
    | error e => rfl
    | ok others =>
      change Progress.finished _ u = Progress.finished _ u
      simp [Except.map]

/-- A round that a loop has begun. -/
structure Round where
  index : Nat
  entry : Value × Value
  /-- The state in which the list is run. -/
  start : RunState
  /-- What the list has come to and the state that it has left, unless it is still under way. -/
  ended? : Option (Except RunFailure (List Value) × RunState)

namespace Round

def Passes (x : Round) (results : List Value) : Prop :=
  ∃ t, x.ended? = some (.ok results, t)

/-- The list has failed. -/
def Fails (x : Round) (cause : RunFailure) : Prop :=
  ∃ t, x.ended? = some (.error cause, t)

end Round

/-- A loop goes from round to round, behind rounds with some results, while other work leaves the given
states; so far it has begun these rounds and come to this point. -/
inductive Repetition (setup : Setup) (engine : Engine) (number : String) (kind : LoopKind)
    (steps : StepList) : List (List Value) → List (Value × Value) → RunState → List RunState →
      List Round → Progress (Except Failure Value) → Prop
  | done {found : List (List Value)} {s : RunState} :
      Repetition setup engine number kind steps found [] s [] []
        (.finished (.ok (Value.list (found.map Value.list))) s)
  | pending {found : List (List Value)} {entry : Value × Value} {rest : List (Value × Value)}
      {s : RunState} {path : List RunState} {p : Progress (Except RunFailure (List Value))}
      {q : Progress (Except Failure Value)} :
      (run setup engine steps (inRound number found.length) (bound kind entry s)).Leads path p →
      p.IsPending → q.IsPending →
      Repetition setup engine number kind steps found (entry :: rest) s path
        [⟨found.length, entry, bound kind entry s, none⟩] q
  | failed {found : List (List Value)} {entry : Value × Value} {rest : List (Value × Value)}
      {s t : RunState} {path : List RunState} {cause : RunFailure} :
      (run setup engine steps (inRound number found.length) (bound kind entry s)).Leads path
        (.finished (.error cause) t) →
      Repetition setup engine number kind steps found (entry :: rest) s path
        [⟨found.length, entry, bound kind entry s, some (.error cause, t)⟩]
        (.finished (.error (.during (.iteration found.length) (.run cause)))
          (resumed (bound kind entry s) t))
  | next {found : List (List Value)} {entry : Value × Value} {rest : List (Value × Value)}
      {s t : RunState} {before path : List RunState} {results : List Value} {begun : List Round}
      {q : Progress (Except Failure Value)} :
      (run setup engine steps (inRound number found.length) (bound kind entry s)).Leads before
        (.finished (.ok results) t) →
      Repetition setup engine number kind steps (found ++ [results]) rest
        (resumed (bound kind entry s) t) path begun q →
      Repetition setup engine number kind steps found (entry :: rest) s (before ++ path)
        (⟨found.length, entry, bound kind entry s, some (.ok results, t)⟩ :: begun) q

variable {found : List (List Value)} {entries : List (Value × Value)} {path : List RunState}
  {begun : List Round} {q : Progress (Except Failure Value)}

/-- However far a loop has come, it has gone from round to round. -/
theorem repetition_of_leads
    (h : (remainder (ListRun.engine setup (depth + 1)) number kind steps found entries s).Leads path
      q) :
    ∃ begun, Repetition setup (ListRun.engine setup depth) number kind steps found entries s path
      begun q := by
  -- from round to round the state changes, and the results add up
  induction entries generalizing found s path with
  | nil =>
    rw [remainder_nil] at h
    cases h
    exact ⟨[], .done⟩
  | cons entry rest ih =>
    rw [remainder_cons] at h
    rcases Progress.leads_bind_pending h with
      ⟨p, hrun, hpending, rfl⟩ | ⟨result, t, before, after, rfl, hrun, hbehind⟩
    · exact ⟨_, .pending hrun hpending (hpending.bind _)⟩
    · cases result with
      | error cause =>
        cases hbehind
        rw [List.append_nil]
        exact ⟨_, .failed hrun⟩
      | ok results =>
        obtain ⟨begun, hrest⟩ := ih hbehind
        exact ⟨_, .next hrun hrest⟩

namespace Repetition

/-- Rounds up to an end are the way that a loop goes. -/
theorem leads (h : Repetition setup (ListRun.engine setup depth) number kind steps found entries s
    path begun q) (hended : ¬ q.IsPending) :
    (remainder (ListRun.engine setup (depth + 1)) number kind steps found entries s).Leads path q := by
  induction h with
  | done =>
    rw [remainder_nil]
    exact .here _
  | pending _ _ hpending => exact absurd hpending hended
  | failed hrun =>
    rw [remainder_cons]
    exact hrun.bind_eq rfl
  | next hrun _ ih =>
    rw [remainder_cons]
    exact hrun.followed (ih hended)

/-- Behind a round that fails there may be any other entries. -/
theorem unobserved {e : Failure} {t : RunState}
    (h : Repetition setup engine number kind steps found entries s path begun
      (.finished (.error e) t)) (later : List (Value × Value)) :
    Repetition setup engine number kind steps found (entries.take begun.length ++ later) s path begun
      (.finished (.error e) t) := by
  generalize hq : Progress.finished (Except.error e) t = q at h
  induction h with
  | done => cases hq
  | pending _ _ hpending =>
    subst hq
    exact absurd hpending id
  | failed hrun => exact .failed hrun
  | next hrun _ ih => exact .next hrun (ih hq)

/-- The rounds that have begun take the entries in order. -/
theorem inOrder (h : Repetition setup engine number kind steps found entries s path begun q) :
    begun.map Round.entry = entries.take begun.length := by
  induction h with
  | next _ _ ih => exact congrArg _ ih
  | _ => rfl

/-- The rounds are numbered without gaps from the number of those already behind. -/
theorem indices (h : Repetition setup engine number kind steps found entries s path begun q) :
    begun.map Round.index = List.range' found.length begun.length := by
  induction h with
  | next _ _ ih =>
    rw [List.length_append] at ih
    exact congrArg _ ih
  | _ => rfl

/-- A round that has ended is a run of the list of the loop in the state that its entry was bound
in. -/
theorem runs (h : Repetition setup engine number kind steps found entries s path begun q) :
    ∀ x ∈ begun, ∀ result t, x.ended? = some (result, t) →
      (run setup engine steps (inRound number x.index) x.start).Ends result t := by
  induction h with
  | done => simp
  | pending _ _ _ => simp
  | failed hrun =>
    simp only [List.mem_singleton, forall_eq]
    rintro _ _ ⟨⟩
    exact hrun.ends
  | next hrun _ ih =>
    refine List.forall_mem_cons.2 ⟨?_, ih⟩
    rintro _ _ ⟨⟩
    exact hrun.ends

/-- The first round begins with its entry bound in the state in which the loop begins. -/
theorem first (h : Repetition setup engine number kind steps found entries s path begun q) {x : Round}
    {back : List Round} (hbegun : begun = x :: back) : x.start = bound kind x.entry s := by
  cases h with
  | done => cases hbegun
  | pending | failed | next =>
    cases hbegun
    rfl

/-- A round goes on from where the one before it has ended, which has not failed. -/
theorem follows (h : Repetition setup engine number kind steps found entries s path begun q)
    {front back : List Round} {x y : Round} (hbegun : begun = front ++ x :: y :: back) :
    ∃ results t, x.ended? = some (.ok results, t) ∧
      y.start = bound kind y.entry (resumed x.start t) := by
  induction h generalizing front with
  | done => simp at hbegun
  | pending | failed =>
    cases front with
    | nil => simp at hbegun
    | cons z front => simp at hbegun
  | next hrun hrest ih =>
    cases front with
    | nil =>
      obtain ⟨rfl, hback⟩ := List.cons.inj hbegun
      exact ⟨_, _, rfl, hrest.first hback⟩
    | cons z front => exact ih (List.cons.inj hbegun).2

/-- Every round starts from some state with its entry. -/
theorem start_eq (h : Repetition setup engine number kind steps found entries s path begun q) :
    ∀ x ∈ begun, ∃ t, x.start = bound kind x.entry t := by
  induction h with
  | done => simp
  | pending | failed => simp
  | next _ _ ih => exact List.forall_mem_cons.2 ⟨⟨_, rfl⟩, ih⟩

/-- A loop leaves what its last round has left. -/
theorem leaves {result : Except Failure Value} {t : RunState}
    (h : Repetition setup engine number kind steps found entries s path begun q)
    (hq : q = .finished result t) {front : List Round} {x : Round} (hbegun : begun = front ++ [x]) :
    ∃ found u, x.ended? = some (found, u) ∧ t = resumed x.start u := by
  induction h generalizing front with
  | done => simp at hbegun
  | pending _ _ hpending =>
    subst hq
    exact absurd hpending id
  | failed hrun =>
    cases front with
    | nil =>
      cases hbegun
      cases hq
      exact ⟨_, _, rfl, rfl⟩
    | cons y front => simp at hbegun
  | next hrun hrest ih =>
    cases front with
    | nil =>
      -- no round follows, so all is over behind this one
      obtain ⟨rfl, rfl⟩ := List.cons.inj hbegun
      cases hrest
      cases hq
      exact ⟨_, _, rfl, rfl⟩
    | cons y front => exact ih hq (List.cons.inj hbegun).2

end Repetition

/-! ## What the rounds come to -/

/-- How far a loop has come that has begun some of its rounds. -/
inductive Reached (count : Nat) (found : List (List Value)) :
    List Round → Progress (Except Failure Value) → Prop
  | done {begun : List Round} {results : List (List Value)} {t : RunState} :
      begun.length = count → List.Forall₂ Round.Passes begun results →
      Reached count found begun (.finished (.ok (Value.list ((found ++ results).map Value.list))) t)
  | pending (front : List Round) {x : Round} {q : Progress (Except Failure Value)} :
      (∀ y ∈ front, ∃ results, y.Passes results) → x.ended? = none → q.IsPending →
      Reached count found (front ++ [x]) q
  | failed (front : List Round) {x : Round} {cause : RunFailure} {t : RunState} :
      (∀ y ∈ front, ∃ results, y.Passes results) → x.Fails cause →
      Reached count found (front ++ [x])
        (.finished (.error (.during (.iteration x.index) (.run cause))) t)

namespace Round

variable {x : Round}

theorem Passes.ended?_ne {results : List Value} (h : x.Passes results) : x.ended? ≠ none := by
  obtain ⟨t, hended⟩ := h
  rw [hended]
  exact nofun

theorem Fails.ended?_ne {cause : RunFailure} (h : x.Fails cause) : x.ended? ≠ none := by
  obtain ⟨t, hended⟩ := h
  rw [hended]
  exact nofun

theorem Fails.not_passes {cause : RunFailure} (h : x.Fails cause) {results : List Value} :
    ¬ x.Passes results := by
  rintro ⟨u, hpassed⟩
  obtain ⟨t, hended⟩ := h
  rw [hended] at hpassed
  cases hpassed

/-- A round fails in one way at most. -/
theorem Fails.unique {cause cause' : RunFailure} (h : x.Fails cause) (h' : x.Fails cause') :
    cause = cause' := by
  obtain ⟨t, hended⟩ := h
  obtain ⟨u, hended'⟩ := h'
  rw [hended] at hended'
  cases hended'
  rfl

end Round

theorem passes_of_forall₂ {results : List (List Value)}
    (h : List.Forall₂ Round.Passes begun results) : ∀ x ∈ begun, ∃ results, x.Passes results := by
  intro x hx
  obtain ⟨index, rfl⟩ := List.get_of_mem hx
  exact ⟨_, h.get index.isLt (h.length_eq ▸ index.isLt)⟩

/-- A round that has passed counts as found for the rounds behind it. -/
theorem Reached.cons {count : Nat} {x : Round} {results : List Value} (hx : x.Passes results)
    (h : Reached count (found ++ [results]) begun q) : Reached (count + 1) found (x :: begun) q := by
  have hall {front : List Round} (hfront : ∀ y ∈ front, ∃ results, y.Passes results) :
      ∀ y ∈ x :: front, ∃ results, y.Passes results :=
    List.forall_mem_cons.2 ⟨⟨results, hx⟩, hfront⟩
  cases h with
  | done hcount hpasses =>
    rw [List.append_assoc]
    exact .done (congrArg (· + 1) hcount) (.cons hx hpasses)
  | pending front hfront hended hpending => exact .pending (x :: front) (hall hfront) hended hpending
  | failed front hfront hfails => exact .failed (x :: front) (hall hfront) hfails

/-- How far a loop has come can be told from the rounds that it has begun. -/
theorem Repetition.reached
    (h : Repetition setup engine number kind steps found entries s path begun q) :
    Reached entries.length found begun q := by
  induction h with
  | @done found s =>
    have hdone : Reached 0 found [] (.finished (.ok (Value.list ((found ++ []).map Value.list))) s) :=
      .done rfl .nil
    rwa [List.append_nil] at hdone
  | pending _ _ hpending => exact .pending [] (by simp) rfl hpending
  | failed => exact .failed [] (by simp) ⟨_, rfl⟩
  | next _ _ ih => exact ih.cons ⟨_, rfl⟩

namespace Reached

variable {count : Nat}

/-- A round that does not pass is the last one: the loop waits for it or fails with it. -/
theorem of_mem (h : Reached count found begun q) {x : Round} (hx : x ∈ begun) :
    (∃ results, x.Passes results) ∨ (x.ended? = none ∧ q.IsPending) ∨
      ∃ cause t, x.Fails cause ∧
        q = .finished (.error (.during (.iteration x.index) (.run cause))) t := by
  cases h with
  | done _ hpasses => exact .inl (passes_of_forall₂ hpasses x hx)
  | pending front hfront hended hpending =>
    rcases List.mem_append.1 hx with hx | hx
    · exact .inl (hfront x hx)
    · obtain rfl := List.mem_singleton.1 hx
      exact .inr (.inl ⟨hended, hpending⟩)
  | failed front hfront hfails =>
    rcases List.mem_append.1 hx with hx | hx
    · exact .inl (hfront x hx)
    · obtain rfl := List.mem_singleton.1 hx
      exact .inr (.inr ⟨_, _, hfails, rfl⟩)

/-- A loop waits exactly while one of its rounds does. -/
theorem pending_iff (h : Reached count found begun q) :
    q.IsPending ↔ ∃ x ∈ begun, x.ended? = none := by
  constructor
  · intro hq
    cases h with
    | pending front _ hended _ => exact ⟨_, by simp, hended⟩
    | _ => exact absurd hq id
  · rintro ⟨x, hx, hended⟩
    rcases h.of_mem hx with ⟨results, hpasses⟩ | ⟨-, hpending⟩ | ⟨cause, t, hfails, -⟩
    · exact absurd hended hpasses.ended?_ne
    · exact hpending
    · exact absurd hended hfails.ended?_ne

/-- A loop fails exactly if a round has, and tells which. -/
theorem fails_iff (h : Reached count found begun q) (e : Failure) :
    (∃ t, q = .finished (.error e) t) ↔
      ∃ x ∈ begun, ∃ cause, x.Fails cause ∧ e = .during (.iteration x.index) (.run cause) := by
  constructor
  · rintro ⟨t, rfl⟩
    cases h with
    | pending front _ _ hpending => exact absurd hpending id
    | failed front _ hfails => exact ⟨_, by simp, _, hfails, rfl⟩
  · rintro ⟨x, hx, cause, hfails, rfl⟩
    rcases h.of_mem hx with ⟨results, hpasses⟩ | ⟨hended, -⟩ | ⟨cause', t, hfails', rfl⟩
    · exact absurd hpasses hfails.not_passes
    · exact absurd hended hfails.ended?_ne
    · obtain rfl := hfails.unique hfails'
      exact ⟨t, rfl⟩

/-- A loop returns if and only if all rounds that it has begun pass. -/
theorem returns_iff (h : Reached count found begun q) :
    (∃ v t, q = .finished (.ok v) t) ↔ ∀ x ∈ begun, ∃ results, x.Passes results := by
  constructor
  · rintro ⟨v, t, rfl⟩
    cases h with
    | done _ hpasses => exact passes_of_forall₂ hpasses
    | pending front _ _ hpending => exact absurd hpending id
  · intro hpasses
    cases h with
    | done => exact ⟨_, _, rfl⟩
    | pending front _ hended _ =>
      obtain ⟨results, hlast⟩ := hpasses _ List.mem_concat_self
      exact absurd hended hlast.ended?_ne
    | failed front _ hfails =>
      obtain ⟨results, hlast⟩ := hpasses _ List.mem_concat_self
      exact absurd hlast hfails.not_passes

/-- A loop that returns has run all its rounds, and returns the results of each as a list. -/
theorem results (h : Reached count found begun q) {v : Value} {t : RunState}
    (hq : q = .finished (.ok v) t) :
    begun.length = count ∧ ∃ results, List.Forall₂ Round.Passes begun results ∧
      v = Value.list ((found ++ results).map Value.list) := by
  cases h with
  | done hcount hpasses =>
    cases hq
    exact ⟨hcount, _, hpasses, rfl⟩
  | pending front _ _ hpending =>
    subst hq
    exact absurd hpending id
  | failed => cases hq

end Reached

/-! ## Loops -/

/-- The two variables of a loop have the values of an entry. -/
def Holds (kind : LoopKind) (entry : Value × Value) (scope : Scope) : Prop :=
  scope.get? kind.names.1 = some entry.1 ∧ scope.get? kind.names.2 = some entry.2

/-- The base variables of a list are none of the two that a loop sets. -/
structure SparesEntry (bindings : Option Variables) (kind : LoopKind) : Prop where
  first : Spared bindings kind.names.1
  second : Spared bindings kind.names.2

/-- Binding an entry makes the variables of the round what they should be. -/
theorem holds_bound (kind : LoopKind) (entry : Value × Value) (s : RunState) :
    Holds kind entry (bound kind entry s).scope := by
  have hdiffer : normalize kind.names.2 ≠ normalize kind.names.1 := by cases kind <;> decide +kernel
  refine ⟨?_, Scope.get?_put_self _ _ _⟩
  change ((s.scope.put kind.names.1 entry.1).put kind.names.2 entry.2).get? kind.names.1 = _
  rw [Scope.get?_put, if_neg hdiffer, Scope.get?_put_self]

/-- The first step of a round still finds the entry. -/
theorem Holds.entered {entry : Value × Value} {bindings : Option Variables}
    (h : Holds kind entry s.scope) (hspares : SparesEntry bindings kind) (number : String) :
    Holds kind entry (entered bindings number s).scope := by
  have hfirst : IsFree kind.names.1 := by cases kind <;> decide +kernel
  have hsecond : IsFree kind.names.2 := by cases kind <;> decide +kernel
  refine ⟨?_, ?_⟩
  · rw [get?_entered_of_spared hfirst hspares.first]
    exact h.1
  · rw [get?_entered_of_spared hsecond hspares.second]
    exact h.2

/-- The rounds that a loop has begun, and what it has come to with them. -/
structure Repeats (setup : Setup) (engine : Engine) (number : String) (kind : LoopKind)
    (steps : StepList) (entries : List (Value × Value)) (s : RunState) (begun : List Round)
    (q : Progress (Except Failure Value)) : Prop where
  /-- There is one round for each entry, in order, beginning with the first one. -/
  inOrder : begun.map Round.entry = entries.take begun.length
  indices : begun.map Round.index = List.range begun.length
  /-- A round starts with its entry in the two variables, and so does its first step. -/
  holds : ∀ x ∈ begun, Holds kind x.entry x.start.scope ∧
    Holds kind x.entry (entered steps.bindings (inRound number x.index 0) x.start).scope
  /-- The first round starts from where the loop does. -/
  first : ∀ x back, begun = x :: back → x.start = bound kind x.entry s
  /-- A round is followed by another one only if it has not failed, and that goes on from where it has
  ended. -/
  follows : ∀ front x y back, begun = front ++ x :: y :: back →
    ∃ results t, x.ended? = some (.ok results, t) ∧ y.start = bound kind y.entry (resumed x.start t)
  /-- No round is begun behind one that is under way, or that has failed. -/
  stops : ∀ front x back, begun = front ++ x :: back → (∀ results, ¬ x.Passes results) → back = []
  /-- A round that is over has walked over the list, with numbers of its own; its results are those of
  the steps that have passed. -/
  walks : ∀ x ∈ begun, ∀ result t, x.ended? = some (result, t) → ∃ visits,
    Walk setup engine steps.bindings (inRound number x.index) 0 steps.steps false x.start visits t ∧
    Foretells (inRound number x.index) steps.steps.length (visits.map Visit.report) result
  /-- The loop waits, or is halted, with the round that it has begun last. -/
  pending_iff : q.IsPending ↔ ∃ x ∈ begun, x.ended? = none
  /-- The loop returns if and only if no round fails. -/
  returns_iff : (∃ v t, q = .finished (.ok v) t) ↔ ∀ x ∈ begun, ∃ results, x.Passes results
  /-- It then has gone through all of its entries, and returns the results of each round. -/
  results : ∀ v t, q = .finished (.ok v) t → begun.map Round.entry = entries ∧
    ∃ results, List.Forall₂ Round.Passes begun results ∧ v = Value.list (results.map Value.list)
  /-- The loop fails with a round that does, and tells which one. -/
  fails_iff : ∀ e, (∃ t, q = .finished (.error e) t) ↔
    ∃ x ∈ begun, ∃ cause, x.Fails cause ∧ e = .during (.iteration x.index) (.run cause)
  /-- It leaves what its last round has left, whether or not that has failed: all variables but the step
  number, which is put back, are as that round has left them. -/
  leaves : ∀ result t, q = .finished result t → ∀ front x, begun = front ++ [x] →
    ∃ found u, x.ended? = some (found, u) ∧ t = resumed x.start u ∧
      ∀ name, IsFree name → t.scope.get? name = u.scope.get? name

/-- A repetition is all that is said of a loop, where the list leaves the variables of the round
alone. -/
theorem Repetition.repeats
    (h : Repetition setup (ListRun.engine setup depth) number kind steps [] entries s path begun q)
    (hspares : SparesEntry steps.bindings kind) :
    Repeats setup (ListRun.engine setup depth) number kind steps entries s begun q where
  inOrder := h.inOrder
  indices := by
    rw [h.indices, List.range_eq_range']
    rfl
  holds x hx := by
    obtain ⟨t, hstart⟩ := h.start_eq x hx
    have hholds : Holds kind x.entry x.start.scope := by
      rw [hstart]
      exact holds_bound kind x.entry t
    exact ⟨hholds, hholds.entered hspares _⟩
  first _ _ hbegun := h.first hbegun
  follows _ _ _ _ hbegun := h.follows hbegun
  stops front x back hbegun hpasses := by
    cases back with
    | nil => rfl
    | cons y back =>
      obtain ⟨results, t, hended, -⟩ := h.follows hbegun
      exact absurd ⟨t, hended⟩ (hpasses results)
  walks x hx result t hended := by
    obtain ⟨visits, -, hwalk, -, -, hforetells⟩ := run_foretold _ _ _ _ _ _ _ (h.runs x hx _ _ hended)
    exact ⟨visits, hwalk, hforetells⟩
  pending_iff := h.reached.pending_iff
  returns_iff := h.reached.returns_iff
  results v t hq := by
    obtain ⟨hcount, results⟩ := h.reached.results hq
    refine ⟨?_, results⟩
    rw [h.inOrder, hcount, List.take_length]
  fails_iff := h.reached.fails_iff
  leaves _ _ hq _ x hbegun := by
    obtain ⟨found, u, hended, rfl⟩ := h.leaves hq hbegun
    exact ⟨found, u, hended, rfl, fun _ hfree => Engine.get?_resumed hfree x.start u⟩

/-- A loop runs its list once for each entry up to the first round that fails, in every run and at any
point that it comes to; whatever entries stand behind that round make no difference. -/
theorem loop_repeats (setup : Setup) (depth : Nat) (number : String) {type : String} {kind : LoopKind}
    {p : Properties} {source : Value} {entries : List (Value × Value)} {steps : StepList}
    (htype : (type, kind) ∈ Catalogue.loops) (hsource : p.get? kind.source = some source)
    (hentries : Catalogue.Sourced kind source entries)
    (hsteps : StepList.ofValue ((p.get? "steps").getD .null) = .ok steps)
    (hspares : SparesEntry steps.bindings kind) :
    ∃ d, Registry.builtIn.find? type = some d ∧ d.build p = .ok (.loop kind entries steps) ∧
      ∀ (s : RunState) (path : List RunState) (q : Progress (Except Failure Value)),
        ((perform (ListRun.engine setup (depth + 1)) number (.loop kind entries steps)).run s).Leads
          path q →
        ∃ begun, Repetition setup (ListRun.engine setup depth) number kind steps [] entries s path
            begun q ∧
          Repeats setup (ListRun.engine setup depth) number kind steps entries s begun q ∧
          ((∃ x ∈ begun, ∃ cause, x.Fails cause) → ∀ later : List (Value × Value),
            ((perform (ListRun.engine setup (depth + 1)) number
              (.loop kind (entries.take begun.length ++ later) steps)).run s).Leads path q) := by
  obtain ⟨d, hfind, hbuild⟩ := Catalogue.loop_build htype hsource hentries hsteps
  refine ⟨d, hfind, hbuild, fun s path q hleads => ?_⟩
  rw [perform_loop] at hleads
  obtain ⟨begun, hrepetition⟩ := repetition_of_leads hleads
  have hrepeats := hrepetition.repeats hspares
  refine ⟨begun, hrepetition, hrepeats, ?_⟩
  rintro ⟨x, hx, cause, hfails⟩ later
  obtain ⟨t, rfl⟩ := (hrepeats.fails_iff _).2 ⟨x, hx, cause, hfails, rfl⟩
  rw [perform_loop]
  exact (hrepetition.unobserved later).leads id

/-- A loop over three numbers, in which the list checks each of them. -/
def checking : Properties where
  fields := [("items", .array [Value.ofNat 1, Value.ofNat 0, Value.ofNat 2] none),
    ("steps", .array [.object [("check", .string "$(ITEM)")]]
      (some [("limit", Value.ofNat 9)]))]

def checkingSteps : StepList :=
  ⟨[.object [("check", .string "$(ITEM)")]], some [("limit", Value.ofNat 9)]⟩

def checkingEntries : List (Value × Value) :=
  [(Value.ofNat 1, Value.ofNat 0), (Value.ofNat 0, Value.ofNat 1), (Value.ofNat 2, Value.ofNat 2)]

def checkingRun : Progress (Except Failure Value) :=
  (perform (ListRun.engine (Setup.plain Registry.builtIn) 3) "1"
    (.loop .item checkingEntries checkingSteps)).run (RunState.start Scope.empty)

def failingRound? : Progress (Except Failure Value) → Option Nat
  | .finished (.error (.during (.iteration round) (.run _))) _ => some round
  | _ => none

/-- The loop fails in the round for zero, and the third entry is never bound. -/
theorem checking_repeats :
    SparesEntry checkingSteps.bindings .item ∧ failingRound? checkingRun = some 1 ∧
      ∃ d front x, Registry.builtIn.find? "for-each-item" = some d ∧
        d.build checking = .ok (.loop .item checkingEntries checkingSteps) ∧
        Repeats (Setup.plain Registry.builtIn) (ListRun.engine (Setup.plain Registry.builtIn) 2) "1"
          .item checkingSteps checkingEntries (RunState.start Scope.empty) (front ++ [x]) checkingRun ∧
        x.index = 1 ∧ ∃ cause, x.Fails cause := by
  have htype : ("for-each-item", LoopKind.item) ∈ Catalogue.loops := by simp [Catalogue.loops]
  have hsource : checking.get? LoopKind.item.source =
      some (.array [Value.ofNat 1, Value.ofNat 0, Value.ofNat 2] none) := rfl
  have hspares : SparesEntry checkingSteps.bindings .item := ⟨by decide +kernel, by decide +kernel⟩
  have hround : failingRound? checkingRun = some 1 := by decide +kernel
  obtain ⟨d, hfind, hbuild, hruns⟩ := loop_repeats (Setup.plain Registry.builtIn) 2 "1" htype hsource
    (.items nofun rfl) rfl hspares
  obtain ⟨begun, -, hrepeats, -⟩ := hruns (RunState.start Scope.empty) [] checkingRun
    (Progress.leads_nil.2 rfl)
  have hfailed : ∃ t cause, checkingRun =
      .finished (.error (.during (.iteration 1) (.run cause))) t := by
    unfold failingRound? at hround
    split at hround
    · rename_i round cause t hrun
      cases hround
      exact ⟨t, cause, hrun⟩
    · cases hround
  -- the round that the failure tells is the last one
  obtain ⟨t, cause, hrun⟩ := hfailed
  obtain ⟨x, hx, cause', hfails, hcause⟩ := (hrepeats.fails_iff _).1 ⟨t, hrun⟩
  obtain ⟨front, back, rfl⟩ := List.append_of_mem hx
  obtain rfl := hrepeats.stops front x back rfl fun _ => hfails.not_passes
  have hindex : 1 = x.index := Circumstance.iteration.inj (Failure.during.inj hcause).1
  exact ⟨hspares, hround, d, front, x, hfind, hbuild, hrepeats, hindex.symm, _, hfails⟩

end Performance

end StepScript
