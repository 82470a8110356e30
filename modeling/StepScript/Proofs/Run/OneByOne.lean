import StepScript.Proofs.Run.Inside
import StepScript.Proofs.Run.Outcome

/-!
# One by one — steps that an action runs by themselves

A pipe and a junction run the steps of their list one at a time, each of them as a list by itself.  What
became of one step decides with what the action goes on to the next one, or that it comes to its end.

* `Performance.Conduct` is what an action does between its steps;
* `Performance.Course` follows it from step to step, however other work goes on meanwhile and whether
  or not it will ever come to an end;
* `Performance.course_of_leads`: every run of such an action, as far as it has come, is such a course,
  and `Course.leads` is the other direction for one that has come to an end;
* `Performance.Proceeds` is what is common to all of them.
-/

namespace StepScript

variable {α β : Type}

namespace Progress

/-- Work has not come to an end: it waits, or the run is halted. -/
def IsPending : Progress α → Prop
  | .finished _ _ => False
  | _ => True

theorem IsPending.bind {p : Progress α} (h : p.IsPending) (next : α → RunState → Progress β) :
    (p.bind next).IsPending := by
  cases p with
  | finished a s => exact absurd h id
  | _ => trivial

/-- A sequence is in its first part, which is pending, or that has come to an end on the way. -/
theorem leads_bind_pending {p : Progress α} {next : α → RunState → Progress β}
    {path : List RunState} {q : Progress β} (h : (p.bind next).Leads path q) :
    (∃ r, p.Leads path r ∧ r.IsPending ∧ q = r.bind next) ∨
      ∃ a s before after, path = before ++ after ∧ p.Leads before (.finished a s) ∧
        (next a s).Leads after q := by
  rcases leads_bind h with ⟨r, hr, rfl⟩ | hended
  · cases r with
    | finished a s => exact .inr ⟨a, s, path, [], by simp, hr, .here _⟩
    | waiting due order s resume => exact .inl ⟨_, hr, trivial, rfl⟩
    | halted why => exact .inl ⟨_, hr, trivial, rfl⟩
  · exact .inr hended

/-- Work that has led to an end leads on to what comes next. -/
theorem Leads.bind_eq {p : Progress α} {next : α → RunState → Progress β} {a : α} {s : RunState}
    {path : List RunState} {q : Progress β} (h : p.Leads path (.finished a s))
    (hnext : next a s = q) : (p.bind next).Leads path q := by
  subst hnext
  exact h.bind next

/-- What follows a part that has come to an end goes on from there. -/
theorem Leads.followed {p : Progress α} {next : α → RunState → Progress β} {a : α} {s : RunState}
    {before after : List RunState} {q : Progress β} (h : p.Leads before (.finished a s))
    (hnext : (next a s).Leads after q) : (p.bind next).Leads (before ++ after) q := by
  generalize hp : Progress.finished a s = ended at h
  induction h with
  | here p =>
    subst hp
    exact hnext
  | on hlog _ ih => exact .on hlog (ih hp)

end Progress

namespace Performance

open ListRun
open Engine (resumed)

variable {setup : Setup} {depth : Nat} {number : String} {bindings : Option Variables} {σ ρ : Type}

/-! ## A step by itself -/

/-- The numbers of the steps that an action runs by themselves. -/
def dotted (number : String) : Numbering :=
  fun index => number ++ "." ++ toString index

/-- What a step that is run by itself comes to for the action: it fails, or it has a value if it has
passed. -/
def alone (number : String) (verdict : Verdict) : Except Failure (Option Value) :=
  match verdict.failure? number with
  | some e => .error (.run e)
  | none => .ok verdict.value?

/-- A step whose failure counts makes the action fail with it. -/
theorem alone_of_failure {number : String} {verdict : Verdict} {e : RunFailure}
    (h : verdict.failure? number = some e) : alone number verdict = .error (.run e) := by
  rw [alone, h]

/-- A step without such a failure has a value or none. -/
theorem alone_of_none {number : String} {verdict : Verdict} (h : verdict.failure? number = none) :
    alone number verdict = .ok verdict.value? := by
  rw [alone, h]

/-- A list of one step is a visit to it. -/
theorem run_one (setup : Setup) (engine : Engine) (bindings : Option Variables)
    (numbering : Numbering) (raw : Value) (s : RunState) :
    ListRun.run setup engine ⟨[raw], bindings⟩ numbering s =
      (visit setup engine bindings (numbering 0) false raw s).bind fun verdict t =>
        .finished (outcome verdict.value?.toList (verdict.failure? (numbering 0)).toList) t := by
  have hcons : ListRun.run setup engine ⟨[raw], bindings⟩ numbering = _ :=
    runFrom_cons engine bindings numbering 0 raw [] [] []
  rw [hcons]
  refine congrArg ((visit setup engine bindings (numbering 0) false raw s).bind ·) ?_
  funext verdict t
  cases verdict with
  | aborted step cause => rfl
  | ended step status =>
    cases status with
    | failed cause ignored => cases ignored <;> rfl
    | _ => rfl

/-- A step that is run by itself is the only one of a list, and the list has not failed before. -/
theorem single_eq (index : Nat) (raw : Value) (s : RunState) :
    (single (engine setup (depth + 1)) number bindings index raw).run s =
      (visit setup (engine setup depth) bindings (dotted number index) false raw s).bind
        fun verdict t => .finished (alone (dotted number index) verdict) (resumed s t) := by
  have hnested := Engine.runNested_eq_resumed (engine setup (depth + 1)) ⟨[raw], bindings⟩
    (fun _ => dotted number index) s
  have hlist := run_one setup (engine setup depth) bindings (fun _ => dotted number index) raw s
  change (((engine setup (depth + 1)).runNested _ (fun _ => dotted number index) s).bind _).bind _ = _
  rw [hnested]
  change (((ListRun.run setup (engine setup depth) _ _ s).bind _).bind _).bind _ = _
  rw [hlist]
  -- the outcome of the list, the number put back and the last of the results, in this order
  refine (Progress.bind_assoc _ _ _).trans ((Progress.bind_assoc _ _ _).trans
    ((Progress.bind_assoc _ _ _).trans (congrArg _ ?_)))
  funext verdict t
  cases verdict with
  | aborted step cause => rfl
  | ended step status =>
    cases status with
    | failed cause ignored => cases ignored <;> rfl
    | _ => rfl

/-! ## Conducts -/

/-- How an action goes from step to step, with what it keeps (`σ`), up to its result (`ρ`). -/
structure Conduct (σ ρ : Type) where
  /-- What is stored before a step. -/
  store : σ → Scope → Scope
  /-- What to go on with after a step that has not failed, given its value if it has passed; or the
  result, if that step was the last one. -/
  next : σ → Option Value → Except ρ σ
  /-- The result when there are no more steps. -/
  close : σ → ρ

namespace Conduct

def prepared (c : Conduct σ ρ) (a : σ) (s : RunState) : RunState :=
  { s with scope := c.store a s.scope }

def after (c : Conduct σ ρ) (a : σ) (others : σ → Task (Except Failure ρ)) :
    Except Failure (Option Value) → Task (Except Failure ρ)
  | .error e => Task.pure (.error e)
  | .ok value? =>
    match c.next a value? with
    | .error result => Task.pure (.ok result)
    | .ok b => others b

def steps (c : Conduct σ ρ) (engine : Engine) (number : String) (bindings : Option Variables) :
    Nat → List Value → σ → Task (Except Failure ρ)
  | _, [], a => Task.pure (.ok (c.close a))
  | index, raw :: rest, a => fun s =>
    ((single engine number bindings index raw).run (c.prepared a s)).bind
      (c.after a (c.steps engine number bindings (index + 1) rest))

end Conduct

/-- A step that an action has begun to run by itself. -/
structure Started where
  number : String
  raw : Value
  /-- The state in which the step is dealt with. -/
  start : RunState
  /-- What has become of it, unless it is still under way. -/
  verdict? : Option Verdict

namespace Started

def value? (x : Started) : Option Value :=
  x.verdict?.bind Verdict.value?

/-- The failure of a step that has failed, unless it is ignored. -/
def failure? (x : Started) : Option RunFailure :=
  x.verdict?.bind (Verdict.failure? x.number)

def Completes (x : Started) : Prop :=
  ∃ verdict, x.verdict? = some verdict ∧ verdict.failure? x.number = none

def Idles (x : Started) : Prop :=
  ∃ step status, x.verdict? = some (.ended step status) ∧
    ((∃ reason, status = .skipped reason) ∨ ∃ cause, status = .failed cause true)

end Started

def Conduct.started (c : Conduct σ ρ) (bindings : Option Variables) (number : String) (raw : Value)
    (a : σ) (s : RunState) (verdict? : Option Verdict) : Started :=
  ⟨number, raw, entered bindings number (c.prepared a s), verdict?⟩

/-- An action goes from step to step, beginning with the step of some index, while other work leaves
the given states; so far it has started these steps and come to this point. -/
inductive Course (setup : Setup) (engine : Engine) (number : String) (bindings : Option Variables)
    (c : Conduct σ ρ) : Nat → List Value → σ → RunState → List RunState → List Started →
      Progress (Except Failure ρ) → Prop
  | done {index : Nat} {a : σ} {s : RunState} :
      Course setup engine number bindings c index [] a s [] [] (.finished (.ok (c.close a)) s)
  | pending {index : Nat} {raw : Value} {rest : List Value} {a : σ} {s : RunState}
      {path : List RunState} {p : Progress Verdict} {q : Progress (Except Failure ρ)} :
      (visit setup engine bindings (dotted number index) false raw (c.prepared a s)).Leads path p →
      p.IsPending → q.IsPending →
      Course setup engine number bindings c index (raw :: rest) a s path
        [c.started bindings (dotted number index) raw a s none] q
  | failed {index : Nat} {raw : Value} {rest : List Value} {a : σ} {s t : RunState}
      {path : List RunState} {verdict : Verdict} {e : RunFailure} :
      (visit setup engine bindings (dotted number index) false raw (c.prepared a s)).Leads path
        (.finished verdict t) →
      verdict.failure? (dotted number index) = some e →
      Course setup engine number bindings c index (raw :: rest) a s path
        [c.started bindings (dotted number index) raw a s (some verdict)]
        (.finished (.error (.run e)) (resumed (c.prepared a s) t))
  | decided {index : Nat} {raw : Value} {rest : List Value} {a : σ} {s t : RunState}
      {path : List RunState} {verdict : Verdict} {result : ρ} :
      (visit setup engine bindings (dotted number index) false raw (c.prepared a s)).Leads path
        (.finished verdict t) →
      verdict.failure? (dotted number index) = none →
      c.next a verdict.value? = .error result →
      Course setup engine number bindings c index (raw :: rest) a s path
        [c.started bindings (dotted number index) raw a s (some verdict)]
        (.finished (.ok result) (resumed (c.prepared a s) t))
  | next {index : Nat} {raw : Value} {rest : List Value} {a b : σ} {s t : RunState}
      {before path : List RunState} {verdict : Verdict} {started : List Started}
      {q : Progress (Except Failure ρ)} :
      (visit setup engine bindings (dotted number index) false raw (c.prepared a s)).Leads before
        (.finished verdict t) →
      verdict.failure? (dotted number index) = none →
      c.next a verdict.value? = .ok b →
      Course setup engine number bindings c (index + 1) rest b (resumed (c.prepared a s) t) path
        started q →
      Course setup engine number bindings c index (raw :: rest) a s (before ++ path)
        (c.started bindings (dotted number index) raw a s (some verdict) :: started) q

variable {engine : Engine} {c : Conduct σ ρ} {index count : Nat} {steps : List Value} {a b : σ}
  {s : RunState} {path : List RunState} {x : Started} {started : List Started}
  {q : Progress (Except Failure ρ)}

namespace Conduct

/-- An action visits its next step and goes on according to what becomes of it. -/
theorem steps_cons (index : Nat) (raw : Value) (rest : List Value) (a : σ) (s : RunState) :
    c.steps (ListRun.engine setup (depth + 1)) number bindings index (raw :: rest) a s =
      (visit setup (ListRun.engine setup depth) bindings (dotted number index) false raw
        (c.prepared a s)).bind fun verdict t =>
          c.after a (c.steps (ListRun.engine setup (depth + 1)) number bindings (index + 1) rest)
            (alone (dotted number index) verdict) (resumed (c.prepared a s) t) := by
  change ((single _ number bindings index raw).run (c.prepared a s)).bind _ = _
  rw [single_eq]
  exact Progress.bind_assoc _ _ _

theorem after_error (a : σ) (others : σ → Task (Except Failure ρ)) (e : Failure) (s : RunState) :
    c.after a others (.error e) s = .finished (.error e) s := rfl

/-- A step may decide the result of the action. -/
theorem after_decided {value? : Option Value} {result : ρ}
    (h : c.next a value? = .error result) (others : σ → Task (Except Failure ρ)) (s : RunState) :
    c.after a others (.ok value?) s = .finished (.ok result) s := by
  rw [after, h]
  rfl

/-- Otherwise the action goes on with what it keeps. -/
theorem after_next {value? : Option Value} (h : c.next a value? = .ok b)
    (others : σ → Task (Except Failure ρ)) (s : RunState) :
    c.after a others (.ok value?) s = others b s := by
  rw [after, h]

end Conduct

/-- However far an action has come, it has taken a course. -/
theorem course_of_leads
    (h : (c.steps (ListRun.engine setup (depth + 1)) number bindings index steps a s).Leads path q) :
    ∃ started, Course setup (ListRun.engine setup depth) number bindings c index steps a s path
      started q := by
  -- from step to step the state changes, and what the action keeps
  induction steps generalizing index a s path with
  | nil =>
    cases h
    exact ⟨[], .done⟩
  | cons raw rest ih =>
    rw [Conduct.steps_cons] at h
    rcases Progress.leads_bind_pending h with
      ⟨p, hvisit, hpending, rfl⟩ | ⟨verdict, t, before, after, rfl, hvisit, hafter⟩
    · exact ⟨_, .pending hvisit hpending (hpending.bind _)⟩
    · -- the step has come to an end, and the action goes on by what has become of it
      cases hfailure : verdict.failure? (dotted number index) with
      | some e =>
        rw [alone_of_failure hfailure, Conduct.after_error] at hafter
        cases hafter
        rw [List.append_nil]
        exact ⟨_, .failed hvisit hfailure⟩
      | none =>
        cases hnext : c.next a verdict.value? with
        | error result =>
          rw [alone_of_none hfailure, Conduct.after_decided hnext] at hafter
          cases hafter
          rw [List.append_nil]
          exact ⟨_, .decided hvisit hfailure hnext⟩
        | ok b =>
          rw [alone_of_none hfailure, Conduct.after_next hnext] at hafter
          obtain ⟨started, hcourse⟩ := ih hafter
          exact ⟨_, .next hvisit hfailure hnext hcourse⟩

namespace Course

/-- A course that has come to an end is the way that the action goes. -/
theorem leads (h : Course setup (ListRun.engine setup depth) number bindings c index steps a s path
    started q) (hended : ¬ q.IsPending) :
    (c.steps (ListRun.engine setup (depth + 1)) number bindings index steps a s).Leads path q := by
  induction h with
  | done => exact .here _
  | pending _ _ hpending => exact absurd hpending hended
  | failed hvisit hfailure =>
    rw [Conduct.steps_cons]
    refine hvisit.bind_eq ?_
    rw [alone_of_failure hfailure, Conduct.after_error]
  | decided hvisit hfailure hnext =>
    rw [Conduct.steps_cons]
    refine hvisit.bind_eq ?_
    rw [alone_of_none hfailure, Conduct.after_decided hnext]
  | next hvisit hfailure hnext _ ih =>
    rw [Conduct.steps_cons]
    refine hvisit.followed ?_
    rw [alone_of_none hfailure, Conduct.after_next hnext]
    exact ih hended

/-- Behind the step that an action ended with there may be any other steps. -/
theorem unobserved {result : Except Failure ρ} {t : RunState}
    (h : Course setup engine number bindings c index steps a s path started (.finished result t))
    (hresult : ∀ b, result ≠ .ok (c.close b)) (later : List Value) :
    Course setup engine number bindings c index (steps.take started.length ++ later) a s path
      started (.finished result t) := by
  generalize hq : Progress.finished result t = q at h
  induction h with
  | done =>
    -- the list itself came to its end, with a result that is excluded
    cases hq
    exact absurd rfl (hresult _)
  | pending _ _ hpending =>
    subst hq
    exact absurd hpending id
  | failed hvisit hfailure => exact .failed hvisit hfailure
  | decided hvisit hfailure hnext => exact .decided hvisit hfailure hnext
  | next hvisit hfailure hnext _ ih => exact .next hvisit hfailure hnext (ih hq)

/-- The steps are started in order. -/
theorem inOrder
    (h : Course setup engine number bindings c index steps a s path started q) :
    started.map Started.raw = steps.take started.length := by
  induction h with
  | next _ _ _ _ ih => exact congrArg _ ih
  | _ => rfl

/-- The steps are numbered without gaps from the index of the first one. -/
theorem numbers
    (h : Course setup engine number bindings c index steps a s path started q) :
    started.map Started.number = (List.range' index started.length).map (dotted number) := by
  induction h with
  | next _ _ _ _ ih => exact congrArg _ ih
  | _ => rfl

end Course

/-! ## What a course comes to -/

/-- What an action keeps behind some steps, or the result that one of them has led to. -/
def Conduct.kept (c : Conduct σ ρ) (a : σ) (started : List Started) : Except ρ σ :=
  started.foldlM (fun a x => c.next a x.value?) a

/-- How far an action has come that has started some of its steps. -/
inductive Stands (c : Conduct σ ρ) (count : Nat) (a : σ) :
    List Started → Progress (Except Failure ρ) → Prop
  | done {started : List Started} {b : σ} {t : RunState} :
      started.length = count → (∀ x ∈ started, x.Completes) → c.kept a started = .ok b →
      Stands c count a started (.finished (.ok (c.close b)) t)
  | pending (front : List Started) {x : Started} {b : σ} {q : Progress (Except Failure ρ)} :
      (∀ y ∈ front, y.Completes) → c.kept a front = .ok b → x.verdict? = none → q.IsPending →
      Stands c count a (front ++ [x]) q
  | failed (front : List Started) {x : Started} {b : σ} {e : RunFailure} {t : RunState} :
      (∀ y ∈ front, y.Completes) → c.kept a front = .ok b → x.failure? = some e →
      Stands c count a (front ++ [x]) (.finished (.error (.run e)) t)
  | decided (front : List Started) {x : Started} {b : σ} {result : ρ} {t : RunState} :
      (∀ y ∈ front, y.Completes) → c.kept a front = .ok b → x.Completes →
      c.next b x.value? = .error result →
      Stands c count a (front ++ [x]) (.finished (.ok result) t)

/-- What is kept behind a step is the beginning for the others. -/
theorem Conduct.kept_cons (h : c.next a x.value? = .ok b)
    (rest : List Started) : c.kept a (x :: rest) = c.kept b rest := by
  unfold kept
  rw [List.foldlM_cons, h]
  rfl

/-- A step that is complete and decides nothing comes before the ones that the action goes on
with. -/
theorem Stands.cons (hx : x.Completes) (hnext : c.next a x.value? = .ok b)
    (h : Stands c count b started q) : Stands c (count + 1) a (x :: started) q := by
  have hall {front : List Started} (hfront : ∀ y ∈ front, y.Completes) :
      ∀ y ∈ x :: front, y.Completes := List.forall_mem_cons.2 ⟨hx, hfront⟩
  have hkept_cons := c.kept_cons hnext
  cases h with
  | done hcount hcompletes hkept =>
    exact .done (congrArg (· + 1) hcount) (hall hcompletes) ((hkept_cons _).trans hkept)
  | pending front hfront hkept hverdict hpending =>
    exact .pending (x :: front) (hall hfront) ((hkept_cons _).trans hkept) hverdict hpending
  | failed front hfront hkept hfailure =>
    exact .failed (x :: front) (hall hfront) ((hkept_cons _).trans hkept) hfailure
  | decided front hfront hkept hcompletes hdecided =>
    exact .decided (x :: front) (hall hfront) ((hkept_cons _).trans hkept) hcompletes hdecided

/-- How far an action has come can be told from the steps that it has started. -/
theorem Course.stands
    (h : Course setup engine number bindings c index steps a s path started q) :
    Stands c steps.length a started q := by
  induction h with
  | done => exact .done rfl (by simp) rfl
  | pending _ _ hpending => exact .pending [] (by simp) rfl rfl hpending
  | failed _ hfailure => exact .failed [] (by simp) rfl hfailure
  | decided _ hfailure hnext => exact .decided [] (by simp) rfl ⟨_, rfl, hfailure⟩ hnext
  | next _ hfailure hnext _ ih => exact ih.cons ⟨_, rfl, hfailure⟩ hnext

namespace Started

theorem Completes.verdict?_ne (h : x.Completes) : x.verdict? ≠ none := by
  obtain ⟨verdict, hverdict, -⟩ := h
  rw [hverdict]
  exact nofun

theorem Completes.failure?_eq (h : x.Completes) : x.failure? = none := by
  obtain ⟨verdict, hverdict, hfailure⟩ := h
  rw [failure?, hverdict]
  exact hfailure

/-- A step that idles is complete. -/
theorem Idles.completes (h : x.Idles) : x.Completes := by
  obtain ⟨step, status, hverdict, hstatus⟩ := h
  refine ⟨_, hverdict, ?_⟩
  rcases hstatus with ⟨reason, rfl⟩ | ⟨cause, rfl⟩
  · rfl
  · rfl

/-- A step that idles has no value. -/
theorem Idles.value?_eq (h : x.Idles) : x.value? = none := by
  obtain ⟨step, status, hverdict, hstatus⟩ := h
  rw [value?, hverdict]
  rcases hstatus with ⟨reason, rfl⟩ | ⟨cause, rfl⟩
  · rfl
  · rfl

theorem failure?_of_verdict? (h : x.verdict? = none) : x.failure? = none := by
  rw [failure?, h]
  rfl

theorem not_completes_of_failure? {e : RunFailure} (h : x.failure? = some e) : ¬ x.Completes := by
  intro hcompletes
  rw [hcompletes.failure?_eq] at h
  cases h

end Started

/-- What is common to all actions that run steps by themselves. -/
structure Proceeds (number : String) (steps : List Value) (started : List Started)
    (q : Progress (Except Failure ρ)) : Prop where
  /-- The steps are started in order, beginning with the first one. -/
  inOrder : started.map Started.raw = steps.take started.length
  numbers : started.map Started.number = (List.range started.length).map (dotted number)
  /-- No step is started behind one that is under way, or whose failure counts. -/
  stops : ∀ front x back, started = front ++ x :: back → ¬ x.Completes → back = []
  /-- The action waits, or is halted, with the step that it has started last. -/
  pending_iff : q.IsPending ↔ ∃ x ∈ started, x.verdict? = none
  /-- The action fails with the failure of a step that counts. -/
  fails_iff : ∀ e, (∃ t, q = .finished (.error e) t) ↔
    ∃ x ∈ started, ∃ cause, x.failure? = some cause ∧ e = .run cause

/-- A step with others behind it is not the last one. -/
theorem mem_dropLast {front back : List Started} {y : Started}
    (h : started = front ++ x :: y :: back) : x ∈ started.dropLast := by
  rw [h, List.dropLast_append_of_ne_nil (by simp)]
  simp

/-- What holds of all steps but the last fails only at the last one. -/
theorem eq_last_of_not {P : Started → Prop} {front : List Started} {y : Started}
    (hfront : ∀ z ∈ front, P z) (hy : y ∈ front ++ [x]) (h : ¬ P y) : y = x := by
  rcases List.mem_append.1 hy with hmem | hmem
  · exact absurd (hfront y hmem) h
  · exact List.mem_singleton.1 hmem

namespace Stands

/-- All steps but the last one have completed. -/
theorem completes_dropLast (h : Stands c count a started q) : ∀ x ∈ started.dropLast, x.Completes := by
  cases h with
  | done _ hall _ => exact fun x hx => hall x (List.dropLast_subset _ hx)
  | pending front hfront _ _ _ => simpa using hfront
  | failed front hfront _ _ => simpa using hfront
  | decided front hfront _ _ _ => simpa using hfront

/-- A step that does not complete is the last one: the action waits for it or fails with it. -/
theorem of_not_completes (h : Stands c count a started q) (hx : x ∈ started)
    (hcompletes : ¬ x.Completes) :
    (x.verdict? = none ∧ q.IsPending) ∨
      ∃ e t, x.failure? = some e ∧ q = .finished (.error (.run e)) t := by
  cases h with
  | done _ hall _ => exact absurd (hall x hx) hcompletes
  | pending front hfront _ hverdict hpending =>
    obtain rfl := eq_last_of_not hfront hx hcompletes
    exact .inl ⟨hverdict, hpending⟩
  | failed front hfront _ hfailure =>
    obtain rfl := eq_last_of_not hfront hx hcompletes
    exact .inr ⟨_, _, hfailure, rfl⟩
  | decided front hfront _ hlast _ =>
    obtain rfl := eq_last_of_not hfront hx hcompletes
    exact absurd hlast hcompletes

/-- An action waits exactly while one of its steps does. -/
theorem pending_iff (h : Stands c count a started q) :
    q.IsPending ↔ ∃ x ∈ started, x.verdict? = none := by
  constructor
  · intro hq
    cases h with
    | pending front _ _ hverdict _ => exact ⟨_, by simp, hverdict⟩
    | _ => exact absurd hq id
  · rintro ⟨x, hx, hverdict⟩
    rcases h.of_not_completes hx fun hcompletes => hcompletes.verdict?_ne hverdict with
      ⟨-, hpending⟩ | ⟨e, t, hfailure, -⟩
    · exact hpending
    · rw [Started.failure?_of_verdict? hverdict] at hfailure
      cases hfailure

/-- An action fails exactly if the failure of one of its steps counts, and with that failure. -/
theorem fails_iff (h : Stands c count a started q) (e : Failure) :
    (∃ t, q = .finished (.error e) t) ↔
      ∃ x ∈ started, ∃ cause, x.failure? = some cause ∧ e = .run cause := by
  constructor
  · rintro ⟨t, rfl⟩
    cases h with
    | pending front _ _ _ hpending => exact absurd hpending id
    | failed front _ _ hfailure => exact ⟨_, by simp, _, hfailure, rfl⟩
  · rintro ⟨x, hx, cause, hcause, rfl⟩
    rcases h.of_not_completes hx (Started.not_completes_of_failure? hcause) with
      ⟨hverdict, -⟩ | ⟨cause', t, hcause', rfl⟩
    · rw [Started.failure?_of_verdict? hverdict] at hcause
      cases hcause
    · rw [hcause] at hcause'
      cases hcause'
      exact ⟨t, rfl⟩

/-- An action that has a result has completed all steps that it has started. -/
theorem completes_of_ok {result : ρ} {t : RunState}
    (h : Stands c count a started (.finished (.ok result) t)) : ∀ x ∈ started, x.Completes := by
  cases h with
  | done _ hall _ => exact hall
  | pending front _ _ _ hpending => exact absurd hpending id
  | decided front hfront _ hlast _ =>
    exact List.forall_mem_append.2 ⟨hfront, List.forall_mem_singleton.2 hlast⟩

/-- An action that has completed all steps that it has started has a result: there are no more steps,
or the last one has led to it. -/
theorem ok_of_completes (h : Stands c count a started q) (hcompletes : ∀ x ∈ started, x.Completes) :
    (started.length = count ∧
      ∃ b t, c.kept a started = .ok b ∧ q = .finished (.ok (c.close b)) t) ∨
    ∃ front x b result t, started = front ++ [x] ∧ c.kept a front = .ok b ∧
      c.next b x.value? = .error result ∧ q = .finished (.ok result) t := by
  cases h with
  | done hcount _ hkept => exact .inl ⟨hcount, _, _, hkept, rfl⟩
  | pending front _ _ hverdict _ => exact absurd hverdict (hcompletes _ (by simp)).verdict?_ne
  | failed front _ _ hfailure =>
    exact absurd (hcompletes _ (by simp)) (Started.not_completes_of_failure? hfailure)
  | decided front _ hkept _ hdecided => exact .inr ⟨front, _, _, _, _, rfl, hkept, hdecided, rfl⟩

end Stands

/-- Every course from the first step on has what is common to all such actions. -/
theorem Course.proceeds
    (h : Course setup engine number bindings c 0 steps a s path started q) :
    Proceeds number steps started q where
  inOrder := h.inOrder
  numbers := by rw [h.numbers, List.range_eq_range']
  stops := by
    intro front x back hstarted hcompletes
    cases back with
    | nil => rfl
    | cons y back => exact absurd (h.stands.completes_dropLast x (mem_dropLast hstarted)) hcompletes
  pending_iff := h.stands.pending_iff
  fails_iff := h.stands.fails_iff

end Performance

end StepScript
