import Mathlib.Data.List.Forall2
import StepScript.Run.Task

/-!
# Immediate — work that is over as soon as it begins

Work that neither waits nor changes the state has an outcome there: a result, or the reason why there
is none.  If all parts of work side by side are of this kind, then so is the whole, and it makes no
difference in which manner they are put side by side: the first part that has no value decides.

* `Progress.ended` is the progress of such work, `Task.together_ended` the rule for work side by side;
* `Attempt.Immediate` says that work is over at once in a given scope, with a rule for each way of
  putting attempts together.
-/

namespace StepScript

variable {α β ε : Type}

/-! ## Outcomes -/

/-- Work is over with an outcome, in the state that it has found. -/
def Progress.ended (s : RunState) : Except Halt α → Progress α
  | .ok a => .finished a s
  | .error why => .halted why

@[simp] theorem Progress.complete_ended (s : RunState) (outcome : Except Halt α) :
    (ended s outcome).complete = outcome.map fun a => (a, s) := by
  cases outcome with
  | ok a => rfl
  | error why => rfl

/-- What the outcomes of parts side by side come to: all values, or what the first part without a value
has come to. -/
def gather : List (Except Halt (Except ε α)) → Except Halt (Except ε (List α))
  | [] => .ok (.ok [])
  | .ok (.ok a) :: rest => (gather rest).map (Except.map fun found => a :: found)
  | .ok (.error e) :: _ => .ok (.error e)
  | .error why :: _ => .error why

/-- The parts have values together exactly if each has one. -/
theorem gather_eq_values_iff {outcomes : List (Except Halt (Except ε α))} {values : List α} :
    gather outcomes = .ok (.ok values) ↔ outcomes = values.map fun a => .ok (.ok a) := by
  induction outcomes generalizing values with
  | nil =>
    cases values with
    | nil => simp [gather]
    | cons a values => simp [gather]
  | cons outcome rest ih =>
    match outcome with
    | .error why => cases values <;> simp [gather]
    | .ok (.error e) => cases values <;> simp [gather]
    | .ok (.ok a) =>
      cases values with
      | nil =>
        rcases h : gather rest with why | (e | found) <;> simp [gather, h, Except.map]
      | cons b values =>
        rw [List.map_cons, List.cons.injEq, ← ih]
        rcases h : gather rest with why | (e | found) <;> simp [gather, h, Except.map]

/-- Parts side by side are halted only if one of them is. -/
theorem mem_of_gather_halted {outcomes : List (Except Halt (Except ε α))} {why : Halt}
    (h : gather outcomes = .error why) : .error why ∈ outcomes := by
  induction outcomes with
  | nil => cases h
  | cons outcome rest ih =>
    match outcome with
    | .error why' =>
      cases h
      exact List.mem_cons_self
    | .ok (.error e) => cases h
    | .ok (.ok a) =>
      refine List.mem_cons_of_mem _ (ih ?_)
      rcases hrest : gather rest with why' | found
      · rw [gather, hrest] at h
        exact h
      · rw [gather, hrest] at h
        cases h

/-! ## Side by side -/

namespace Task

open Progress

variable {tasks : List (Task (Except ε α))} {outcomes : List (Except Halt (Except ε α))} {s : RunState}

theorem join_ended (h : List.Forall₂ (fun t outcome => t s = ended s outcome) tasks outcomes) :
    join tasks s = ended s (gather outcomes) := by
  induction h with
  | nil => rfl
  | @cons t outcome tasks outcomes ht _ ih =>
    unfold join
    dsimp only
    rw [ht]
    match outcome with
    | .error why => rfl
    | .ok (.error e) => rfl
    | .ok (.ok a) =>
      change ((join tasks s).map (pairWith a)).map _ = _
      rw [ih]
      rcases hrest : gather outcomes with why | (e | found) <;> simp [gather, hrest] <;> rfl

theorem joinInOrderFrom_ended
    (h : List.Forall₂ (fun t outcome => t s = ended s outcome) tasks outcomes) (done : List α) :
    joinInOrderFrom tasks (.finished (.ok done) s) =
      ended s ((gather outcomes).map (Except.map fun found => found.reverse ++ done)) := by
  -- a part without a value leaves everything behind it where it is
  have hhalted (why : Halt) (tasks : List (Task (Except ε α))) :
      joinInOrderFrom tasks (.halted why) = .halted why := by
    induction tasks with
    | nil => rfl
    | cons t rest ih => exact ih
  have hfailed (e : ε) (tasks : List (Task (Except ε α))) :
      joinInOrderFrom tasks (.finished (.error e) s) = .finished (.error e) s := by
    induction tasks with
    | nil => rfl
    | cons t rest ih => exact ih
  induction h generalizing done with
  | nil => rfl
  | @cons t outcome tasks outcomes ht _ ih =>
    have hnext : joinInOrderFrom (t :: tasks) (.finished (.ok done) s) =
        joinInOrderFrom tasks (((t s).map (pairWith done)).map (Except.map fun r => r.2 :: r.1)) :=
      rfl
    rw [hnext, ht]
    match outcome with
    | .error why => exact hhalted why tasks
    | .ok (.error e) => exact hfailed e tasks
    | .ok (.ok a) =>
      refine (ih (a :: done)).trans ?_
      rcases hrest : gather outcomes with why | (e | found) <;> simp [gather, hrest, Except.map]

/-- Work side by side is over at once if each part is. -/
theorem together_ended (h : List.Forall₂ (fun t outcome => t s = ended s outcome) tasks outcomes) :
    together tasks s = ended s (gather outcomes) := by
  unfold together
  by_cases hfew : tasks.length ≤ joinLimit
  · rw [if_pos hfew]
    exact join_ended h
  · rw [if_neg hfew]
    unfold joinInOrder
    rw [joinInOrderFrom_ended h]
    rcases hall : gather outcomes with why | (e | found) <;> simp [Except.map, ended, Progress.map]

end Task

/-! ## Attempts -/

namespace Attempt

variable {σ : Scope} {halts : Halt → Prop}

/-- Work is over at once in every state with this scope, and it is halted only for some reasons. -/
def Immediate (σ : Scope) (halts : Halt → Prop) (t : Attempt α) : Prop :=
  ∀ s : RunState, s.scope = σ → ∃ outcome, t.run s = Progress.ended s outcome ∧
    ∀ why, outcome = .error why → halts why

theorem pure_immediate (a : α) : Immediate σ halts (Pure.pure a : Attempt α) :=
  fun _ _ => ⟨.ok (.ok a), rfl, fun _ h => by cases h⟩

theorem Immediate.bind {t : Attempt α} {next : α → Attempt β} (h : Immediate σ halts t)
    (hnext : ∀ a, Immediate σ halts (next a)) : Immediate σ halts (t >>= next) := by
  intro s hs
  obtain ⟨outcome, hrun, hhalts⟩ := h s hs
  rw [run_bind, hrun]
  match outcome with
  | .error why => exact ⟨.error why, rfl, fun _ h => by cases h; exact hhalts why rfl⟩
  | .ok (.error e) => exact ⟨.ok (.error e), rfl, fun _ h => by cases h⟩
  | .ok (.ok a) => exact hnext a s hs

def expressionOutcome : Except ExpressionError Value → Except Halt (Except Failure Value)
  | .ok v => .ok (.ok v)
  | .error e => if e.isCrash then .error .crashed else .ok (.error (.expression e))

/-- An expression is over at once, in any state. -/
theorem run_expression_ended (find : Scope → Except ExpressionError Value) (s : RunState) :
    (expression find).run s = Progress.ended s (expressionOutcome (find s.scope)) := by
  cases h : find s.scope with
  | ok v => exact run_expression h
  | error e =>
    rw [run_expression_error h, expressionOutcome]
    by_cases hcrash : e.isCrash = true
    · rw [if_pos hcrash, if_pos hcrash]
      rfl
    · rw [if_neg hcrash, if_neg hcrash]
      rfl

/-- Work goes on with the value of an expression, or it is halted if there is no answer. -/
theorem expression_bind_immediate {find : Scope → Except ExpressionError Value}
    {next : Value → Attempt α} (hcrash : ∀ e, find σ = .error e → e.isCrash = true → halts .crashed)
    (hnext : ∀ v, find σ = .ok v → Immediate σ halts (next v)) :
    Immediate σ halts (expression find >>= next) := by
  rintro s rfl
  rw [run_bind, run_expression_ended]
  cases hvalue : find s.scope with
  | ok v => exact hnext v hvalue s rfl
  | error e =>
    rw [expressionOutcome]
    by_cases hcrashed : e.isCrash = true
    · rw [if_pos hcrashed]
      refine ⟨.error .crashed, rfl, fun why hwhy => ?_⟩
      cases hwhy
      exact hcrash e hvalue hcrashed
    · rw [if_neg hcrashed]
      exact ⟨.ok (.error (.expression e)), rfl, fun _ h => by cases h⟩

/-- Parts side by side are over at once if each is, for the reasons that some part has. -/
theorem together_immediate (ts : List (Attempt α)) (h : ∀ t ∈ ts, Immediate σ halts t) :
    Immediate σ halts (ExceptT.mk (Task.together (ts.map fun t => t.run)) : Attempt (List α)) := by
  intro s hs
  have houtcomes : ∃ outcomes : List (Except Halt (Except Failure α)),
      List.Forall₂ (fun t outcome => t.run s = Progress.ended s outcome) ts outcomes ∧
        ∀ why, .error why ∈ outcomes → halts why := by
    induction ts with
    | nil => exact ⟨[], .nil, fun _ h => by cases h⟩
    | cons t rest ih =>
      obtain ⟨ht, hrest⟩ := List.forall_mem_cons.1 h
      obtain ⟨outcome, hrun, hhalts⟩ := ht s hs
      obtain ⟨outcomes, hruns, hall⟩ := ih hrest
      refine ⟨outcome :: outcomes, .cons hrun hruns, fun why hmem => ?_⟩
      rcases List.mem_cons.1 hmem with heq | hmem
      · exact hhalts why heq.symm
      · exact hall why hmem
  obtain ⟨outcomes, hruns, hhalts⟩ := houtcomes
  have htasks : List.Forall₂ (fun (t : Task (Except Failure α)) outcome =>
      t s = Progress.ended s outcome) (ts.map fun t => t.run) outcomes :=
    List.forall₂_map_left_iff.2 hruns
  refine ⟨gather outcomes, Task.together_ended htasks, fun why hwhy => ?_⟩
  exact hhalts why (mem_of_gather_halted hwhy)

end Attempt

end StepScript
