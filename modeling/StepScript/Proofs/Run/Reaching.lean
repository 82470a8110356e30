import Mathlib.Order.Filter.AtTopBot.Basic
import StepScript.Proofs.Run.Accounting
import StepScript.Proofs.Run.Congruence

/-!
# Reaching — runs that agree in the end

The runs of a family may be held back more and more loosely, until nothing of what holds them back is
met any more.  `Progress.Reached` says that a run is reached in this way: whatever it does and
wherever it goes on from, in the end all runs of the family do the same.  Of a run that is halted
nothing is asked.

* `Task.together_reached`: work side by side is reached if each piece is;
* `Task.reached_congruence`: so evaluation, actions and lists are reached if the engines are;
* `Progress.Reached.complete`: a run that comes to an end is the same, in the end, for all runs of the
  family.
-/

namespace StepScript

open Filter

variable {ι α β ε : Type} {l : Filter ι}

namespace Progress

/-- In the end, the runs of a family go as the given one does. -/
inductive Reached (l : Filter ι) : Progress α → (ι → Progress α) → Prop
  | finished {a : α} {s : RunState} {P : ι → Progress α} :
      (∀ᶠ i in l, P i = .finished a s) → Reached l (.finished a s) P
  | waiting {due order : Nat} {s : RunState} {resume : RunState → Progress α}
      {P : ι → Progress α} (resumes : ι → RunState → Progress α) :
      (∀ᶠ i in l, P i = .waiting due order s (resumes i)) →
      (∀ now, Reached l (resume now) fun i => resumes i now) →
      Reached l (.waiting due order s resume) P
  | halted {why : Halt} {P : ι → Progress α} : Reached l (.halted why) P

/-- Only what the runs of a family are in the end matters. -/
theorem Reached.congr {p : Progress α} {P Q : ι → Progress α} (h : Reached l p P)
    (hPQ : ∀ᶠ i in l, Q i = P i) : Reached l p Q := by
  cases h with
  | finished hP =>
    refine .finished ?_
    filter_upwards [hP, hPQ] with i hi hsame
    rw [hsame, hi]
  | waiting _ hP hresume =>
    refine .waiting _ ?_ hresume
    filter_upwards [hP, hPQ] with i hi hsame
    rw [hsame, hi]
  | halted => exact .halted

/-- If the given run completes, the runs of the family complete likewise in the end. -/
theorem Reached.complete {p : Progress α} {P : ι → Progress α} (h : Reached l p P) {a : α}
    {s : RunState} (hp : p.complete = .ok (a, s)) : ∀ᶠ i in l, (P i).complete = .ok (a, s) := by
  induction h with
  | finished hP =>
    filter_upwards [hP] with i hi
    rw [hi, ← hp]
  | waiting _ hP _ ih =>
    filter_upwards [hP, ih _ hp] with i hi hresume
    rw [hi]
    exact hresume
  | halted => cases hp

/-! ## Sequences -/

theorem Reached.bind {p : Progress α} {P : ι → Progress α} {next : α → RunState → Progress β}
    {nexts : ι → α → RunState → Progress β} (h : Reached l p P)
    (hnext : ∀ a s, Reached l (next a s) fun i => nexts i a s) :
    Reached l (p.bind next) fun i => (P i).bind (nexts i) := by
  induction h with
  | @finished a s P hP =>
    refine (hnext a s).congr ?_
    filter_upwards [hP] with i hi
    rw [hi]
    rfl
  | waiting _ hP _ ih =>
    refine .waiting _ ?_ ih
    filter_upwards [hP] with i hi
    rw [hi]
    rfl
  | halted => exact .halted

theorem Reached.map {p : Progress α} {P : ι → Progress α} (f : α → β) (h : Reached l p P) :
    Reached l (p.map f) fun i => (P i).map f :=
  h.bind fun _ _ => .finished (Eventually.of_forall fun _ => rfl)

theorem Reached.settle {p : Progress α} {P : ι → Progress α} (h : Reached l p P) :
    Reached l p.settle fun i => (P i).settle := by
  induction h with
  | finished hP =>
    refine .finished ?_
    filter_upwards [hP] with i hi
    rw [hi]
    rfl
  | @waiting due order s resume P resumes hP _ ih =>
    unfold Progress.settle
    -- what is due goes on at once
    by_cases hdue : due ≤ s.clock
    · rw [if_pos hdue]
      refine (ih s).congr ?_
      filter_upwards [hP] with i hi
      simp only [hi, hdue, if_true]
    · rw [if_neg hdue]
      refine .waiting (fun i now => (resumes i now).settle) ?_ ih
      filter_upwards [hP] with i hi
      simp only [hi, hdue, if_false]
  | halted => exact .halted

/-! ## Side by side -/

variable {manner : Manner}

theorem waitOn_reached {due order : Nat} {resume : RunState → Progress (Except ε α)}
    {resumes : ι → RunState → Progress (Except ε α)}
    (hresume : ∀ now, Reached l (resume now) fun i => resumes i now) (result : Except ε β)
    (s : RunState) :
    Reached l (waitOn manner due order resume result s) fun i =>
      waitOn manner due order (resumes i) result s := by
  unfold waitOn
  split
  · exact .finished (Eventually.of_forall fun _ => rfl)
  · exact .map _ (.waiting _ (Eventually.of_forall fun _ => rfl) hresume)

/-- Work side by side is reached if both parts are, whichever goes on first. -/
theorem besideWaiting_reached {due order : Nat}
    {moveLeft : RunState → (RunState → Progress (Except ε β)) → Progress (Except ε (α × β))}
    (moveLefts : ι → RunState → (RunState → Progress (Except ε β)) → Progress (Except ε (α × β)))
    {leftAlone : Except ε β → RunState → Progress (Except ε (α × β))}
    {leftAlones : ι → Except ε β → RunState → Progress (Except ε (α × β))}
    {right : Progress (Except ε β)} {rights : ι → Progress (Except ε β)}
    (hmove : ∀ next (nexts : ι → RunState → Progress (Except ε β)),
      (∀ s, Reached l (next s) fun i => nexts i s) → ∀ now,
        Reached l (moveLeft now next) fun i => moveLefts i now (nexts i))
    (halone : ∀ result s, Reached l (leftAlone result s) fun i => leftAlones i result s)
    (h : Reached l right rights) :
    Reached l (besideWaiting manner due order moveLeft leftAlone right) fun i =>
      besideWaiting manner due order (moveLefts i) (leftAlones i) (rights i) := by
  induction h with
  | @finished result s P hP =>
    refine (halone result s).congr ?_
    filter_upwards [hP] with i hi
    rw [hi]
    rfl
  | @waiting due' order' s resume P resumes hP hresume ih =>
    -- the family goes on as the given run does, whichever part it lets move
    refine .waiting (fun i now =>
      if manner.leftMoves due order due' order' now.clock then
        moveLefts i now fun s =>
          if manner.rightFollows due' now.clock then resumes i s
          else .waiting due' order' s (resumes i)
      else besideWaiting manner due order (moveLefts i) (leftAlones i) (resumes i now)) ?_ ?_
    · filter_upwards [hP] with i hi
      rw [hi]
      rfl
    · intro now
      by_cases hmoves : manner.leftMoves due order due' order' now.clock = true
      · simp only [hmoves, if_true]
        refine hmove _ (fun i s =>
          if manner.rightFollows due' now.clock then resumes i s
          else .waiting due' order' s (resumes i)) ?_ now
        intro s
        by_cases hfollows : manner.rightFollows due' now.clock = true
        · simp only [hfollows, if_true]
          exact hresume s
        · simp only [hfollows]
          exact .waiting _ (Eventually.of_forall fun _ => rfl) hresume
      · simp only [hmoves]
        exact ih now
  | halted => exact .halted

theorem unlessFailed_beside_reached {leave : RunState → RunState} {left : Progress (Except ε α)}
    {lefts : ι → Progress (Except ε α)} {next : RunState → Progress (Except ε β)}
    {nexts : ι → RunState → Progress (Except ε β)} (h : Reached l left lefts)
    (hnext : ∀ s, Reached l (next s) fun i => nexts i s) :
    Reached l (left.unlessFailed leave fun s => left.beside manner (next s)) fun i =>
      (lefts i).unlessFailed leave fun s => (lefts i).beside manner (nexts i s) := by
  -- on the left part, however the right part goes on when it has moved
  induction h generalizing leave next nexts with
  | @finished result s P hP =>
    cases result with
    | error e =>
      refine .finished ?_
      filter_upwards [hP] with i hi
      rw [hi]
      rfl
    | ok a =>
      refine ((hnext s).map (pairWith a)).congr ?_
      filter_upwards [hP] with i hi
      rw [hi]
      rfl
  | @waiting due order s resume P resumes hP hresume ih =>
    refine (besideWaiting_reached
      (fun i now right => (resumes i now).unlessFailed RunState.drop fun s =>
        (resumes i now).beside manner (right s))
      (fun _ _ hnext now => ih now hnext) (waitOn_reached hresume) (hnext s)).congr ?_
    filter_upwards [hP] with i hi
    rw [hi]
    rfl
  | halted => exact .halted

end Progress

/-! ## Tasks -/

namespace Task

def Reached (l : Filter ι) ⦃α : Type⦄ (t : Option ι → Task α) : Prop :=
  ∀ s, Progress.Reached l (t none s) fun i => t (some i) s

/-- A task that does not depend on the index and finishes at once is reached. -/
theorem constant_reached (t : Task α) (h : ∀ s, ∃ a s', t s = .finished a s') :
    Reached l fun _ => t := by
  intro s
  rcases h s with ⟨a, s', hs⟩
  dsimp only
  rw [hs]
  exact .finished (Eventually.of_forall fun _ => rfl)

theorem bind_reached {t : Option ι → Task α} {f : Option ι → α → Task β} (h : Reached l t)
    (hf : ∀ a, Reached l fun i => f i a) : Reached l fun i => t i >>= f i :=
  fun s => (h s).bind fun a s => hf a s

theorem sleep_reached (milliseconds : Nat) : Reached l fun _ => sleep milliseconds := by
  intro s
  unfold sleep
  by_cases hnone : milliseconds = 0
  · simp only [hnone, if_true]
    exact .finished (Eventually.of_forall fun _ => rfl)
  · simp only [hnone, if_false]
    refine .waiting _ (Eventually.of_forall fun _ => rfl) fun now => ?_
    exact .finished (Eventually.of_forall fun _ => rfl)

theorem reached_congruence : Congruence (Reached l) where
  pure a := constant_reached _ fun s => ⟨a, s, rfl⟩
  bind := bind_reached
  state := constant_reached _ fun s => ⟨s, s, rfl⟩
  halt _ _ := .halted

theorem reached_reportingCongruence : ReportingCongruence (Reached l) where
  toCongruence := reached_congruence
  report _ := constant_reached _ fun _ => ⟨_, _, rfl⟩

/-- Being reached is kept by changes of the scope. -/
theorem reached_updatingCongruence : UpdatingCongruence (Reached l) where
  toCongruence := reached_congruence
  updateScope _ := constant_reached _ fun _ => ⟨_, _, rfl⟩

section

variable {ts : List (Option ι → Task (Except ε α))}

theorem join_reached (h : ∀ t ∈ ts, Reached l t) : Reached l fun i => join (ts.map fun t => t i) := by
  induction ts with
  | nil => exact reached_congruence.pure _
  | cons t rest ih =>
    intro s
    have hrest := ih fun u hu => h u (List.mem_cons_of_mem t hu)
    simp only [List.map_cons, join]
    simp only [← Progress.map_unlessFailed]
    exact (Progress.unlessFailed_beside_reached (h t List.mem_cons_self s) hrest).map _

theorem joinInOrderFrom_reached (h : ∀ t ∈ ts, Reached l t)
    {started : Progress (Except ε (List α))} {starteds : ι → Progress (Except ε (List α))}
    (hstarted : Progress.Reached l started starteds) :
    Progress.Reached l (joinInOrderFrom (ts.map fun t => t none) started) fun i =>
      joinInOrderFrom (ts.map fun t => t (some i)) (starteds i) := by
  induction ts generalizing started starteds with
  | nil => exact hstarted.settle
  | cons t rest ih =>
    simp only [List.map_cons, joinInOrderFrom]
    simp only [← Progress.map_unlessFailed]
    refine ih (fun u hu => h u (List.mem_cons_of_mem t hu)) ?_
    exact (Progress.unlessFailed_beside_reached hstarted (h t List.mem_cons_self)).map _

/-- Work side by side is reached if each piece is. -/
theorem together_reached (h : ∀ t ∈ ts, Reached l t) :
    Reached l fun i => together (ts.map fun t => t i) := by
  unfold together
  by_cases hfew : ts.length ≤ joinLimit
  · simp only [List.length_map, hfew, if_true]
    exact join_reached h
  · simp only [List.length_map, hfew, if_false]
    intro s
    have hnone : Progress.Reached l (.finished (.ok []) s : Progress (Except ε (List α)))
        fun _ => .finished (.ok []) s :=
      .finished (Eventually.of_forall fun _ => rfl)
    exact (joinInOrderFrom_reached h hnone).map _

end

end Task

/-! ## Engines and lists -/

theorem Attempt.together_reached {ts : List (Option ι → Attempt α)}
    (h : ∀ t ∈ ts, Attempt.Lifts (Task.Reached l) t) :
    Attempt.Lifts (Task.Reached l) fun i =>
      ExceptT.mk (Task.together (ts.map fun t => (t i).run)) := by
  have htasks : ∀ t ∈ ts.map fun t i => (t i).run, Task.Reached l t := List.forall_mem_map.2 h
  have htogether := Task.together_reached htasks
  simp only [List.map_map, Function.comp_def] at htogether
  exact htogether

variable {e : Option ι → Engine} {setup : Setup}

/-- Engines of a family whose lists are reached answer actions as the one that they reach. -/
theorem Engine.acts_of_reached (hstore : ∀ i, (e i).store = Attempt.put)
    (hrun : ∀ steps numbering, Task.Reached l fun i => (e i).runList steps numbering)
    (number : String) : Engine.Acts (Attempt.Lifts (Task.Reached l)) number e where
  store name v := by
    simp only [hstore]
    exact Attempt.ofTask_lifts Task.reached_congruence
      (Task.reached_updatingCongruence.updateScope _)
  runSteps steps _ _ := runSteps_rel Task.reached_updatingCongruence (hrun steps _)

/-- A list is reached if the engines of its steps are. -/
theorem ListRun.run_reached (h : Engine.Related (Attempt.Lifts (Task.Reached l)) [] e)
    (hacts : ∀ number, Engine.Acts (Attempt.Lifts (Task.Reached l)) number e) (steps : StepList)
    (numbering : Numbering) : Task.Reached l fun i => run setup (e i) steps numbering := by
  have hacting : Attempt.ActingCongruence (Attempt.Lifts (Task.Reached l)) :=
    Attempt.lifts_actingCongruence Task.reached_congruence Task.sleep_reached
  refine runFrom_rel Task.reached_congruence.sequencing (fun index failed raw => ?_) 0 steps.steps [] []
  exact visit_rel Task.reached_reportingCongruence Task.reached_updatingCongruence setup
    steps.bindings failed raw fun step descriptor _ =>
      invoke_rel hacting.toCongruence hacting id h (hacts _) step descriptor

end StepScript
