import StepScript.Proofs.Run.Accounting
import StepScript.Proofs.Run.Ending
import StepScript.Proofs.Run.Inside

/-!
# Turns — work side by side that shares a step number

Tasks side by side find the step number that the others have left.  A task that waits inside of a
nested step leaves a longer number than that of the step outside, and it puts the number back only
when it goes on.  So all tasks find the right number only if they take turns: while one of them
waits, those behind it end at once and run no steps.

* `Task.turns` is the scheduler under which everything else is refused;
* `Progress.Exact` relates two runs of which the first one is refused exactly when the second one
  loses the step number;
* `Task.turns_exact`: side by side, tasks are refused exactly when the step number is lost.
-/

namespace StepScript

variable {α β ε : Type} {number : String} {clock count : Nat}

def AtStep (number : String) (scope : Scope) : Prop :=
  scope.stepNumber = some number

/-! ## Taking turns -/

namespace Progress

def Manner.accepts (manner : Manner) (result : Except ε α) : Bool :=
  result.isOk || !manner.failsAtOnce

/-- Work that ends at once with a result that is accepted, and reports nothing since `s`. -/
def atOnce (accepts : α → Bool) (s : RunState) : Progress α → Progress α
  | .finished a t =>
    if accepts a && t.log.length == s.log.length then .finished a t else .halted .exhausted
  | _ => .halted .exhausted

/-- Work that begins in `s` beside the `first` one and has to end at once if that one waits. -/
def inTurn (manner : Manner) (first : Progress α) (s : RunState) (p : Progress (Except ε β)) :
    Progress (Except ε β) :=
  match first with
  | .waiting _ _ _ _ => p.atOnce manner.accepts s
  | _ => p

end Progress

namespace Task

/-- Tasks side by side that take turns; beside a task that waits none may fail. -/
def joinTurns : List (Task (Except ε α)) → Task (Except ε (List α))
  | [] => pure (.ok [])
  | t :: rest => fun s =>
    let first := t s
    first.unlessFailed id fun s =>
      (first.beside .eager (first.inTurn .eager s (joinTurns rest s))).map
        (Except.map fun r => r.1 :: r.2)

/-- Tasks that take turns with those under way, whose results come last first; a failure counts
when all tasks in front of it have finished. -/
def joinTurnsFrom : List (Task (Except ε α)) → Progress (Except ε (List α)) →
    Progress (Except ε (List α))
  | [], started => started.settle
  | t :: rest, started =>
    let more := started.unlessFailed id fun s =>
      (started.beside .ordered (started.inTurn .ordered s (t s))).map
        (Except.map fun r => r.2 :: r.1)
    joinTurnsFrom rest more

/-- Tasks side by side that take turns, where a failure only counts when all tasks in front of it
have finished. -/
def joinTurnsInOrder (tasks : List (Task (Except ε α))) : Task (Except ε (List α)) := fun s =>
  (joinTurnsFrom tasks (.finished (.ok []) s)).map (Except.map List.reverse)

def turns (tasks : List (Task (Except ε α))) : Task (Except ε (List α)) :=
  if tasks.length ≤ joinLimit then joinTurns tasks else joinTurnsInOrder tasks

end Task

namespace Progress

/-! ## Losing the step number -/

/-- Work that comes to no end, or that fails without putting the step number back. -/
inductive Lost (number : String) : Progress (Except ε α) → Prop
  | halted (why : Halt) : Lost number (.halted why)
  | failed (e : ε) {s : RunState} :
      ¬ AtStep number s.scope → Lost number (.finished (.error e) s)

/-- Two runs that move in step and end at the step; the first one is cut short exactly when the
second one loses the number of the step. -/
inductive Exact (number : String) : Progress (Except ε α) → Progress (Except ε α) → Prop
  | finished {result : Except ε α} {s : RunState} :
      AtStep number s.scope → Exact number (.finished result s) (.finished result s)
  | waiting {due order : Nat} {s : RunState} {resume resume' : RunState → Progress (Except ε α)} :
      (∀ now, Exact number (resume now) (resume' now)) →
      Exact number (.waiting due order s resume) (.waiting due order s resume')
  | lost {why : Halt} {p : Progress (Except ε α)} : Lost number p → Exact number (.halted why) p

/-- Two runs that begin at the step at some time and move in step.  Whenever they wait at once, they
do so inside of the step. -/
inductive Begins (number : String) (clock : Nat) :
    Progress (Except ε α) → Progress (Except ε α) → Prop
  | finished {result : Except ε α} {s : RunState} :
      s.clock = clock → AtStep number s.scope →
      Begins number clock (.finished result s) (.finished result s)
  | waiting {due order : Nat} {s : RunState} {resume resume' : RunState → Progress (Except ε α)} :
      s.clock = clock → clock < due → Inside number s.scope →
      (∀ now, Exact number (resume now) (resume' now)) →
      Begins number clock (.waiting due order s resume) (.waiting due order s resume')
  | lost {why : Halt} {p : Progress (Except ε α)} :
      Lost number p → Begins number clock (.halted why) p

/-- Two runs that begin inside of the step at some time, after so many reports.  The second one
comes to no end, unless the first one ends at once and reports nothing. -/
inductive Intrudes (number : String) (clock count : Nat) : Progress α → Progress α → Prop
  | quiet {a : α} {s : RunState} :
      s.clock = clock → s.log.length = count → Inside number s.scope →
      Intrudes number clock count (.finished a s) (.finished a s)
  | loud {a : α} {s : RunState} {why : Halt} :
      s.clock = clock → count < s.log.length → Inside number s.scope →
      Intrudes number clock count (.finished a s) (.halted why)
  | waiting {due order : Nat} {s : RunState} {resume : RunState → Progress α} {why : Halt} :
      s.clock = clock → clock < due → Inside number s.scope →
      Intrudes number clock count (.waiting due order s resume) (.halted why)
  | halted {why why' : Halt} : Intrudes number clock count (.halted why) (.halted why')

/-- The run that is cut short ends exactly where the other one ends at the step. -/
theorem Exact.ends_iff {p p' : Progress (Except ε α)} (h : Exact number p p')
    {result : Except ε α} {s' : RunState} :
    p.Ends result s' ↔ p'.Ends result s' ∧ AtStep number s'.scope := by
  constructor
  · intro hends
    induction h with
    | finished hs =>
      rcases ends_finished.1 hends with ⟨rfl, rfl⟩
      exact ⟨hends, hs⟩
    | waiting _ ih =>
      cases hends with
      | waiting hlog hresume =>
        rcases ih _ hresume with ⟨hresume', hs⟩
        exact ⟨.waiting hlog hresume', hs⟩
    | lost _ => cases hends
  · rintro ⟨hends, hs⟩
    induction h with
    | finished _ => exact hends
    | waiting _ ih =>
      cases hends with
      | waiting hlog hresume => exact .waiting hlog (ih _ hresume)
    | lost hlost =>
      cases hlost with
      | halted why => cases hends
      | failed e hnot =>
        rcases ends_finished.1 hends with ⟨rfl, rfl⟩
        exact absurd hs hnot

/-- Runs that begin at the step are exact. -/
theorem Begins.exact {p p' : Progress (Except ε α)} (h : Begins number clock p p') :
    Exact number p p' := by
  cases h with
  | finished _ hs => exact .finished hs
  | waiting _ _ _ hresume => exact .waiting hresume
  | lost hlost => exact .lost hlost

/-- After a report, nothing that is to come counts as quiet. -/
theorem Intrudes.after {count' : Nat} {p p' : Progress α} (h : Intrudes number clock count' p p')
    (hcount : count < count') (why : Halt) : Intrudes number clock count p (.halted why) := by
  cases h with
  | quiet hclock hlog hs => exact .loud hclock (by omega) hs
  | loud hclock hlog hs => exact .loud hclock (by omega) hs
  | waiting hclock hdue hs => exact .waiting hclock hdue hs
  | halted => exact .halted

/-! ## Sequences -/

section Bind

variable {ε' : Type} {p p' : Progress (Except ε α)}
  {next next' : Except ε α → RunState → Progress (Except ε' β)}

/-- Work that has lost the step number stays lost if no failure behind it puts the number back. -/
theorem Lost.bind (h : Lost number p)
    (herror : ∀ e s, ¬ AtStep number s.scope → Lost number (next (.error e) s)) :
    Lost number (p.bind next) := by
  cases h with
  | halted why => exact .halted why
  | failed e hs => exact herror e _ hs

/-- Exact runs may go on with runs that begin at the step and lose what is lost. -/
theorem Exact.bind (h : Exact number p p')
    (hnext : ∀ result s, AtStep number s.scope →
      Begins number s.clock (next result s) (next' result s))
    (herror : ∀ e s, ¬ AtStep number s.scope → Lost number (next' (.error e) s)) :
    Exact number (p.bind next) (p'.bind next') := by
  induction h with
  | finished hs => exact (hnext _ _ hs).exact
  | waiting _ ih => exact .waiting ih
  | lost hlost => exact .lost (hlost.bind herror)

theorem Begins.bind (h : Begins number clock p p')
    (hnext : ∀ result s, AtStep number s.scope →
      Begins number s.clock (next result s) (next' result s))
    (herror : ∀ e s, ¬ AtStep number s.scope → Lost number (next' (.error e) s)) :
    Begins number clock (p.bind next) (p'.bind next') := by
  cases h with
  | finished hclock hs =>
    subst hclock
    exact hnext _ _ hs
  | waiting hclock hdue hs hresume =>
    exact .waiting hclock hdue hs fun now => (hresume now).bind hnext herror
  | lost hlost => exact .lost (hlost.bind herror)

end Bind

theorem Intrudes.bind {p p' : Progress α} {next next' : α → RunState → Progress β}
    (h : Intrudes number clock count p p')
    (hnext : ∀ a s, Inside number s.scope →
      Intrudes number s.clock s.log.length (next a s) (next' a s)) :
    Intrudes number clock count (p.bind next) (p'.bind next') := by
  cases h with
  | quiet hclock hlog hs =>
    subst hclock hlog
    exact hnext _ _ hs
  | loud hclock hlog hs =>
    subst hclock
    exact (hnext _ _ hs).after hlog _
  | waiting hclock hdue hs => exact .waiting hclock hdue hs
  | halted => exact .halted

section Map

variable {p p' : Progress (Except ε α)} {f : Except ε α → Except ε β}

theorem Begins.map (hf : ∀ e, f (.error e) = .error e) (h : Begins number clock p p') :
    Begins number clock (p.map f) (p'.map f) := by
  refine h.bind (fun _ _ hs => .finished rfl hs) fun e s hs => ?_
  rw [hf]
  exact .failed e hs

theorem Intrudes.map {p p' : Progress α} (f : α → β) (h : Intrudes number clock count p p') :
    Intrudes number clock count (p.map f) (p'.map f) :=
  h.bind fun _ _ hs => .quiet rfl rfl hs

end Map

/-! ## Settling -/

theorem Lost.settle {p : Progress (Except ε α)} (h : Lost number p) : Lost number p.settle := by
  cases h with
  | halted why => exact .halted why
  | failed e hs => exact .failed e hs

theorem Exact.settle {p p' : Progress (Except ε α)} (h : Exact number p p') :
    Exact number p.settle p'.settle := by
  induction h with
  | finished hs => exact .finished hs
  | @waiting due order s resume resume' _ ih =>
    unfold Progress.settle
    by_cases hdue : due ≤ s.clock
    · simpa [hdue] using ih s
    · simpa [hdue] using Exact.waiting ih
  | lost hlost => exact .lost hlost.settle

theorem Begins.settle {p p' : Progress (Except ε α)} (h : Begins number clock p p') :
    Begins number clock p.settle p'.settle := by
  cases h with
  | finished hclock hs => exact .finished hclock hs
  | @waiting due order s resume resume' hclock hdue hs hresume =>
    have hlater : ¬ due ≤ s.clock := by omega
    simpa [Progress.settle, hlater] using
      Begins.waiting hclock hdue hs fun now => (hresume now).settle
  | lost hlost => exact .lost hlost.settle

theorem Intrudes.settle {p p' : Progress α} (h : Intrudes number clock count p p') :
    Intrudes number clock count p.settle p'.settle := by
  cases h with
  | quiet hclock hlog hs => exact .quiet hclock hlog hs
  | loud hclock hlog hs => exact .loud hclock hlog hs
  | @waiting due order s resume why hclock hdue hs =>
    have hlater : ¬ due ≤ s.clock := by omega
    simpa [Progress.settle, hlater] using Intrudes.waiting hclock hdue hs
  | halted => exact .halted

/-! ## Side by side -/

section Beside

variable {manner : Manner} {left left' : Progress (Except ε α)}
  {right right' : RunState → Progress (Except ε β)}

theorem pairWith_error (a : α) (e : ε) : (pairWith a (.error e) : Except ε (α × β)) = .error e :=
  rfl

theorem pairResults_error (result : Except ε β) (e : ε) :
    (pairResults (.error e) result : Except ε (α × β)) = .error e :=
  rfl

/-- After a result that is accepted the left part waits on. -/
theorem waitOn_of_accepts {due order : Nat} {resume : RunState → Progress (Except ε α)}
    {result : Except ε β} (h : manner.accepts result = true) (s : RunState) :
    waitOn manner due order resume result s =
      (Progress.waiting due order s resume).map fun a => pairResults a result := by
  unfold waitOn
  split
  · rename_i hfails
    rw [Manner.accepts, hfails] at h
    cases h
  · rfl

/-- A result that is not accepted is a failure of both. -/
theorem waitOn_of_not_accepts {due order : Nat} {resume : RunState → Progress (Except ε α)}
    {result : Except ε β} (h : manner.accepts result = false) (s : RunState) :
    ∃ e, waitOn manner due order resume result s = .finished (.error e) s.drop := by
  cases result with
  | ok b => cases h
  | error e =>
    have hfails : manner.failsAtOnce = true := by
      simpa [Manner.accepts, Except.isOk, Except.toBool] using h
    exact ⟨e, by unfold waitOn; rw [hfails]⟩

/-- What has to end at once is refused, unless it ends quietly with an accepted result. -/
theorem Intrudes.atOnce {s : RunState} {p p' : Progress β} (accepts : β → Bool)
    (h : Intrudes number s.clock s.log.length p p') :
    (∃ b t, p' = .finished b t ∧ t.clock = s.clock ∧ Inside number t.scope ∧
      p.atOnce accepts s = if accepts b then .finished b t else .halted .exhausted) ∨
    ∃ why, p' = .halted why ∧ p.atOnce accepts s = .halted .exhausted := by
  cases h with
  | @quiet b t hclock hlog ht =>
    refine Or.inl ⟨b, t, rfl, hclock, ht, ?_⟩
    simp [Progress.atOnce, hlog]
  | @loud b t why hclock hlog ht =>
    refine Or.inr ⟨why, rfl, ?_⟩
    simp [Progress.atOnce, Nat.ne_of_gt hlog]
  | waiting hclock hdue hs => exact Or.inr ⟨_, rfl, rfl⟩
  | halted => exact Or.inr ⟨_, rfl, rfl⟩

/-- Beside waiting work, exactly what would lose the step number is refused. -/
theorem waiting_begins {due order : Nat} {s : RunState}
    {resume resume' : RunState → Progress (Except ε α)} {p p' : Progress (Except ε β)}
    (hdue : s.clock < due) (hresume : ∀ now, Exact number (resume now) (resume' now))
    (h : Intrudes number s.clock s.log.length p p') :
    Begins number s.clock
      ((Progress.waiting due order s resume).beside manner (p.atOnce manner.accepts s))
      ((Progress.waiting due order s resume').beside manner p') := by
  rcases h.atOnce manner.accepts with ⟨result, t, rfl, hclock, ht, hp⟩ | ⟨why, rfl, hp⟩
  · rw [hp]
    cases haccepts : manner.accepts result with
    | true =>
      -- the left part waits on, in the scope that the right part has left
      have hwaiting : Begins number s.clock (.waiting due order t resume)
          (.waiting due order t resume') :=
        .waiting hclock hdue ht hresume
      have hwaits := hwaiting.map (f := fun a => pairResults a result) (pairResults_error result)
      rw [← waitOn_of_accepts haccepts, ← waitOn_of_accepts haccepts] at hwaits
      exact hwaits
    | false =>
      -- the left part is dropped inside of the step and never puts the number back
      rcases waitOn_of_not_accepts haccepts t with ⟨e, hfailed⟩
      refine .lost ?_
      change Lost number (waitOn manner due order resume' result t)
      rw [hfailed]
      exact .failed e ht.ne
  · rw [hp]
    exact .lost (.halted _)

/-- Beside work that begins at the step, other work takes its turn: at the step it begins there, and
inside of it it has to end at once. -/
theorem Begins.beside (h : Begins number clock left left')
    (hbegins : ∀ s, AtStep number s.scope → Begins number s.clock (right s) (right' s))
    (hintrudes : ∀ s, Inside number s.scope →
      Intrudes number s.clock s.log.length (right s) (right' s)) :
    Begins number clock
      (left.unlessFailed id fun s => left.beside manner (left.inTurn manner s (right s)))
      (left'.unlessFailed id fun s => left'.beside manner (right' s)) := by
  cases h with
  | @finished result s hclock hs =>
    subst hclock
    cases result with
    | error e => exact .finished rfl hs
    | ok a => exact (hbegins s hs).map (pairWith_error a)
  | waiting hclock hdue hs hresume =>
    subst hclock
    exact waiting_begins hdue hresume (hintrudes _ hs)
  | lost hlost =>
    cases hlost with
    | halted why => exact .lost (.halted _)
    | failed e hs => exact .lost (.failed e hs)

/-- Work side by side intrudes if both parts do. -/
theorem Intrudes.beside (h : Intrudes number clock count left left')
    (hintrudes : ∀ s, Inside number s.scope →
      Intrudes number s.clock s.log.length (right s) (right' s)) :
    Intrudes number clock count
      (left.unlessFailed id fun s => left.beside manner (left.inTurn manner s (right s)))
      (left'.unlessFailed id fun s => left'.beside manner (right' s)) := by
  cases h with
  | @quiet result s hclock hlog hs =>
    subst hclock hlog
    cases result with
    | error e => exact .quiet rfl rfl hs
    | ok a => exact (hintrudes s hs).map _
  | @loud result s why hclock hlog hs =>
    subst hclock
    cases result with
    | error e => exact .loud rfl hlog hs
    | ok a => exact ((hintrudes s hs).map _).after hlog why
  | @waiting due order s resume why hclock hdue hs =>
    subst hclock
    -- no end is to come of the second run, so the first one need not have one
    dsimp only [unlessFailed, inTurn]
    rcases (hintrudes s hs).atOnce manner.accepts with
      ⟨result, t, -, hclock, ht, hp⟩ | ⟨why, -, hp⟩
    · rw [hp]
      cases haccepts : manner.accepts result with
      | true =>
        have hwaits : Intrudes number s.clock count
            ((Progress.waiting due order t resume).map fun a => pairResults a result)
            (.halted why) :=
          .waiting hclock hdue ht
        rw [← waitOn_of_accepts haccepts] at hwaits
        exact hwaits
      | false => exact .halted
    · rw [hp]
      exact .halted
  | halted => exact .halted

end Beside

end Progress

/-! ## Tasks -/

namespace Task

/-- Two tasks that go as they should from the step and from inside of it. -/
structure Exact (number : String) (t t' : Task (Except ε α)) : Prop where
  begins : ∀ s, AtStep number s.scope → Progress.Begins number s.clock (t s) (t' s)
  intrudes : ∀ s, Inside number s.scope →
    Progress.Intrudes number s.clock s.log.length (t s) (t' s)

theorem pure_exact (result : Except ε α) : Exact number (Pure.pure result) (Pure.pure result) where
  begins _ hs := .finished rfl hs
  intrudes _ hs := .quiet rfl rfl hs

/-- Tasks side by side take turns exactly where they leave the step number in place. -/
theorem joinTurns_exact {ts ts' : List (Task (Except ε α))}
    (h : List.Forall₂ (Exact number) ts ts') : Exact number (joinTurns ts) (join ts') := by
  induction h with
  | nil => exact pure_exact _
  | @cons t t' rest rest' ht _ ih =>
    constructor
    · intro s hs
      unfold joinTurns join
      dsimp only
      rw [← Progress.map_unlessFailed, ← Progress.map_unlessFailed]
      refine Progress.Begins.map (fun _ => rfl) ?_
      exact (ht.begins s hs).beside ih.begins ih.intrudes
    · intro s hs
      unfold joinTurns join
      dsimp only
      rw [← Progress.map_unlessFailed, ← Progress.map_unlessFailed]
      exact ((ht.intrudes s hs).beside ih.intrudes).map _

theorem joinTurnsFrom_begins {ts ts' : List (Task (Except ε α))}
    (h : List.Forall₂ (Exact number) ts ts') {started started' : Progress (Except ε (List α))}
    (hstarted : Progress.Begins number clock started started') :
    Progress.Begins number clock (joinTurnsFrom ts started) (joinInOrderFrom ts' started') := by
  induction h generalizing started started' with
  | nil => exact hstarted.settle
  | cons ht _ ih =>
    refine ih ?_
    rw [← Progress.map_unlessFailed, ← Progress.map_unlessFailed]
    refine Progress.Begins.map (fun _ => rfl) ?_
    exact hstarted.beside ht.begins ht.intrudes

theorem joinTurnsFrom_intrudes {ts ts' : List (Task (Except ε α))}
    (h : List.Forall₂ (Exact number) ts ts') {started started' : Progress (Except ε (List α))}
    (hstarted : Progress.Intrudes number clock count started started') :
    Progress.Intrudes number clock count (joinTurnsFrom ts started)
      (joinInOrderFrom ts' started') := by
  induction h generalizing started started' with
  | nil => exact hstarted.settle
  | cons ht _ ih =>
    refine ih ?_
    rw [← Progress.map_unlessFailed, ← Progress.map_unlessFailed]
    exact (hstarted.beside ht.intrudes).map _

/-- Tasks that take turns are refused exactly when the step number is lost side by side. -/
theorem turns_exact {ts ts' : List (Task (Except ε α))}
    (h : List.Forall₂ (Exact number) ts ts') : Exact number (turns ts) (together ts') := by
  unfold turns together
  rw [h.length_eq]
  by_cases hfew : ts'.length ≤ joinLimit
  · rw [if_pos hfew, if_pos hfew]
    exact joinTurns_exact h
  · rw [if_neg hfew, if_neg hfew]
    constructor
    · intro s hs
      exact (joinTurnsFrom_begins h (.finished rfl hs)).map fun _ => rfl
    · intro s hs
      exact (joinTurnsFrom_intrudes h (.quiet rfl rfl hs)).map _

end Task

/-! ## Attempts -/

namespace Attempt

def Exact (number : String) (t t' : Attempt α) : Prop :=
  Task.Exact number t.run t'.run

theorem Exact.bind {t t' : Attempt α} {f f' : α → Attempt β} (ht : Exact number t t')
    (hf : ∀ a, Exact number (f a) (f' a)) : Exact number (t >>= f) (t' >>= f') := by
  constructor
  · intro s hs
    rw [run_bind, run_bind]
    refine (ht.begins s hs).bind (fun result s hs => ?_) fun e s hs => .failed e hs
    cases result with
    | ok a => exact (hf a).begins s hs
    | error e => exact .finished rfl hs
  · intro s hs
    rw [run_bind, run_bind]
    refine (ht.intrudes s hs).bind fun result s hs => ?_
    cases result with
    | ok a => exact (hf a).intrudes s hs
    | error e => exact .quiet rfl rfl hs

theorem halt_exact (why : Halt) :
    Exact number (ofTask (Task.halt why) : Attempt α) (ofTask (Task.halt why)) where
  begins _ _ := .lost (.halted why)
  intrudes _ _ := .halted

theorem state_exact : Exact number (ofTask Task.state) (ofTask Task.state) where
  begins _ hs := .finished rfl hs
  intrudes _ hs := .quiet rfl rfl hs

theorem expression_exact (find : Scope → Except ExpressionError Value) :
    Exact number (Attempt.expression find) (Attempt.expression find) := by
  refine state_exact.bind fun s => ?_
  cases find s.scope with
  | ok v => exact Task.pure_exact _
  | error e =>
    dsimp only
    by_cases hcrash : e.isCrash = true
    · rw [if_pos hcrash]
      exact halt_exact _
    · rw [if_neg hcrash]
      exact Task.pure_exact _

def Exacts (number : String) ⦃α : Type⦄ (t : Bool → Attempt α) : Prop :=
  Exact number (t false) (t true)

theorem exacts_congruence : Congruence (Exacts number) where
  pure _ := Task.pure_exact _
  fail _ := Task.pure_exact _
  bind ht hf := Exact.bind ht hf
  expression := expression_exact

end Attempt

end StepScript
