import StepScript.Proofs.Run.Congruence

/-!
# Starting — what work does before it first waits

Work side by side is started piece by piece, and each piece goes as far as it can at once.  So what
a piece finds depends on the states in which those before it began to wait.  `Progress.Starts`
describes such a state; time does not pass before it, and it says nothing about what comes later.

* `Task.together_starts`: pieces that start well do so side by side;
* `Attempt.starts_congruence`: evaluation and actions start as well as the ways back into the run do.
-/

namespace StepScript

variable {α β ε : Type} {W F : Scope → Prop} {clock : Nat}

namespace Progress

/-- Before any time passes, work either waits in a scope that `W` holds of, or ends in one that `F`
holds of. -/
def Starts (clock : Nat) (W F : Scope → Prop) : Progress α → Prop
  | .finished _ s => s.clock = clock ∧ F s.scope
  | .waiting due _ s _ => s.clock = clock ∧ W s.scope ∧ clock < due
  | .halted _ => True

/-- What comes next has to start well from where work can end at once. -/
theorem Starts.bind {F' : Scope → Prop} {p : Progress α} {next : α → RunState → Progress β}
    (h : p.Starts clock W F)
    (hnext : ∀ a s, s.clock = clock → F s.scope → (next a s).Starts clock W F') :
    (p.bind next).Starts clock W F' := by
  cases p with
  | finished a s => exact hnext a s h.1 h.2
  | waiting due order s resume => exact h
  | halted why => trivial

theorem Starts.map {p : Progress α} (f : α → β) (h : p.Starts clock W F) :
    (p.map f).Starts clock W F :=
  h.bind fun _ _ hclock hF => ⟨hclock, hF⟩

/-- Nothing is due before time passes. -/
theorem Starts.settle {p : Progress α} (h : p.Starts clock W F) : p.settle.Starts clock W F := by
  cases p with
  | finished a s => exact h
  | waiting due order s resume =>
    rcases h with ⟨hclock, hW, hdue⟩
    unfold Progress.settle
    rw [if_neg (by omega)]
    exact ⟨hclock, hW, hdue⟩
  | halted why => trivial

/-- What waits for a later time waits in a good scope. -/
theorem Starts.waitOn {manner : Manner} {due order : Nat}
    {resume : RunState → Progress (Except ε α)} {s : RunState} (hclock : s.clock = clock)
    (hW : W s.scope) (hdue : clock < due) (result : Except ε β) :
    (waitOn manner due order resume result s).Starts clock W W := by
  unfold Progress.waitOn
  split
  · exact ⟨hclock, hW⟩
  · exact ⟨hclock, hW, hdue⟩

/-- Work side by side starts well if both parts do. -/
theorem Starts.beside {manner : Manner} {left : Progress (Except ε α)}
    {right : Progress (Except ε β)} (hleft : left.Starts clock W W)
    (hright : right.Starts clock W W) : (left.beside manner right).Starts clock W W := by
  cases left with
  | finished result s =>
    cases result with
    | error e => exact hleft
    | ok a => exact hright.map _
  | waiting due order s resume =>
    rcases hleft with ⟨hclock, hW, hdue⟩
    cases right with
    | finished result s' => exact .waitOn hright.1 hright.2 hdue result
    | waiting due' order' s' resume' =>
      rcases hright with ⟨hclock', hW', hdue'⟩
      exact ⟨hclock', hW', Nat.lt_min.2 ⟨hdue, hdue'⟩⟩
    | halted why => trivial
  | halted why => trivial

theorem Starts.unlessFailed {p : Progress (Except ε α)} {next : RunState → Progress (Except ε β)}
    (h : p.Starts clock W W)
    (hnext : ∀ s, s.clock = clock → W s.scope → (next s).Starts clock W W) :
    (p.unlessFailed id next).Starts clock W W := by
  cases p with
  | finished result s =>
    cases result with
    | error e => exact h
    | ok a => exact hnext s h.1 h.2
  | waiting due order s resume => exact hnext s h.1 h.2.1
  | halted why => trivial

end Progress

/-! ## Tasks -/

namespace Task

/-- Started in a scope that `W` holds of, a task starts well. -/
def Starts (W : Scope → Prop) (t : Task α) : Prop :=
  ∀ s, W s.scope → (t s).Starts s.clock W W

theorem Starts.bind {t : Task α} {next : α → Task β} (h : t.Starts W)
    (hnext : ∀ a, (next a).Starts W) : (t >>= next).Starts W := by
  intro s hs
  refine Progress.Starts.bind (h s hs) fun a s' hclock hs' => ?_
  rw [← hclock]
  exact hnext a s' hs'

theorem pure_starts (a : α) : (Pure.pure a : Task α).Starts W :=
  fun _ hs => ⟨rfl, hs⟩

theorem state_starts : state.Starts W :=
  fun _ hs => ⟨rfl, hs⟩

theorem report_starts (event : Event) : (report event).Starts W :=
  fun _ hs => ⟨rfl, hs⟩

theorem halt_starts (why : Halt) : (halt why : Task α).Starts W :=
  fun _ _ => trivial

theorem sleep_starts (milliseconds : Nat) : (sleep milliseconds).Starts W := by
  intro s hs
  unfold sleep
  by_cases hnone : milliseconds = 0
  · rw [if_pos hnone]
    exact ⟨rfl, hs⟩
  · rw [if_neg hnone]
    exact ⟨rfl, hs, by omega⟩

theorem join_starts {ts : List (Task (Except ε α))} (h : ∀ t ∈ ts, t.Starts W) :
    (join ts).Starts W := by
  induction ts with
  | nil => exact pure_starts _
  | cons t rest ih =>
    intro s hs
    have hfirst := h t List.mem_cons_self s hs
    have hrest := ih fun u hu => h u (List.mem_cons_of_mem t hu)
    refine hfirst.unlessFailed fun s' hclock hs' => ?_
    rw [← hclock] at hfirst ⊢
    exact (hfirst.beside (hrest s' hs')).map _

theorem joinInOrderFrom_starts {ts : List (Task (Except ε α))} (h : ∀ t ∈ ts, t.Starts W)
    {started : Progress (Except ε (List α))} (hstarted : started.Starts clock W W) :
    (joinInOrderFrom ts started).Starts clock W W := by
  induction ts generalizing started with
  | nil => exact hstarted.settle
  | cons t rest ih =>
    refine ih (fun u hu => h u (List.mem_cons_of_mem t hu)) ?_
    refine hstarted.unlessFailed fun s hclock hs => ?_
    have ht := h t List.mem_cons_self s hs
    rw [hclock] at ht
    exact (hstarted.beside ht).map _

theorem together_starts {ts : List (Task (Except ε α))} (h : ∀ t ∈ ts, t.Starts W) :
    (together ts).Starts W := by
  unfold together
  by_cases hfew : ts.length ≤ joinLimit
  · rw [if_pos hfew]
    exact join_starts h
  · rw [if_neg hfew]
    intro s hs
    have hnone : (Progress.finished (.ok []) s : Progress (Except ε (List α))).Starts s.clock W W :=
      ⟨rfl, hs⟩
    exact (joinInOrderFrom_starts h hnone).map _

def Each (P : ∀ ⦃α : Type⦄, Task α → Prop) ⦃α : Type⦄ (t : Unit → Task α) : Prop :=
  P (t ())

theorem starts_congruence : ReportingCongruence (Each fun _ => Starts W) where
  pure _ := pure_starts _
  bind h hf := Starts.bind h hf
  state := state_starts
  halt _ := halt_starts _
  report _ := report_starts _

end Task

/-! ## Attempts -/

namespace Attempt

def Starts (W : Scope → Prop) (t : Attempt α) : Prop :=
  Task.Starts W t.run

theorem ofTask_starts {t : Task α} (h : t.Starts W) : (ofTask t).Starts W :=
  h.bind fun _ => Task.pure_starts _

theorem Starts.bind {t : Attempt α} {f : α → Attempt β} (h : t.Starts W)
    (hf : ∀ a, (f a).Starts W) : (t >>= f).Starts W :=
  lifts_bind (t := fun _ => t) (f := fun _ => f) Task.starts_congruence.toCongruence h hf

theorem starts_congruence : ActingCongruence (Lifts (Task.Each fun _ => Task.Starts W)) :=
  lifts_actingCongruence Task.starts_congruence.toCongruence Task.sleep_starts

end Attempt

end StepScript
