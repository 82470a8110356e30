import StepScript.Proofs.Run.Outcome

/-!
# Likeness — runs that move in step from like states

Two states are alike if a run cannot tell them apart: the scope, the clock and the count of timers
are the same.  Runs from like states move in step, wait and end in like states, and have the same
result.  The other differences between the states, for example in what was reported before, stay
between them.

The second run may also be a restricted form of the first one that is cut short at some point.  Then
the first one has to be doomed: all that can still become of it is a failure.

* `Progress.Alike` relates two runs in this way, `Progress.Doomed` says what is doomed;
* `Task.together_alike`: work side by side is alike if each piece is, and it is doomed with any
  piece that is;
* `ListRun.engine_alike`: a run is like itself from like states.
-/

namespace StepScript

variable {α β ε : Type} {S : RunState → RunState → Prop} {lossy : Prop} {fails : α → Prop}
  {fails' : β → Prop}

/-- Which states are alike.  A run cannot tell them apart, and what it does to both keeps them
alike. -/
structure Likeness (S : RunState → RunState → Prop) : Prop where
  scope : ∀ {s s'}, S s s' → s.scope = s'.scope
  clock : ∀ {s s'}, S s s' → s.clock = s'.clock
  timers : ∀ {s s'}, S s s' → s.timers = s'.timers
  store : ∀ {s s'} scope, S s s' → S { s with scope := scope } { s' with scope := scope }
  advance : ∀ {s s'} clock, S s s' → S { s with clock := clock } { s' with clock := clock }
  await : ∀ {s s'}, S s s' →
    S { s with timers := s.timers + 1 } { s' with timers := s'.timers + 1 }
  report : ∀ {s s'} event, S s s' →
    S { s with log := event :: s.log } { s' with log := event :: s'.log }
  drop : ∀ {s s'}, S s s' → S s.drop s'.drop

def Failed : Except ε α → Prop
  | .error _ => True
  | .ok _ => False

theorem Failed.map {result : Except ε α} (f : α → β) (h : Failed result) :
    Failed (result.map f) := by
  cases result with
  | ok a => exact absurd h id
  | error e => trivial

namespace Progress

theorem failed_pairWith (a : α) {result : Except ε β} (h : Failed result) :
    Failed (pairWith a result) := by
  cases result with
  | ok b => exact absurd h id
  | error e => trivial

theorem failed_pairResults_left {left : Except ε α} (h : Failed left) (right : Except ε β) :
    Failed (pairResults left right) := by
  cases left with
  | ok a => exact absurd h id
  | error e => trivial

theorem failed_pairResults_right (left : Except ε α) {right : Except ε β} (h : Failed right) :
    Failed (pairResults left right) := by
  cases left with
  | ok a => exact failed_pairWith a h
  | error e => trivial

/-! ## Doomed work -/

/-- Work that can only end in certain results, if it ends at all. -/
inductive Doomed (fails : α → Prop) : Progress α → Prop
  | finished {a : α} {s : RunState} : fails a → Doomed fails (.finished a s)
  | waiting {due order : Nat} {s : RunState} {resume : RunState → Progress α} :
      (∀ now, Doomed fails (resume now)) → Doomed fails (.waiting due order s resume)
  | halted (why : Halt) : Doomed fails (.halted why)

/-- Where every result is one of these, all work is doomed. -/
theorem Doomed.of_forall (h : ∀ a, fails a) (p : Progress α) : p.Doomed fails := by
  induction p with
  | finished a s => exact .finished (h a)
  | waiting due order s resume ih => exact .waiting ih
  | halted why => exact .halted why

/-- Doomed work goes on to what its results are doomed to. -/
theorem Doomed.bind {p : Progress α} {next : α → RunState → Progress β} (h : p.Doomed fails)
    (hnext : ∀ a s, fails a → (next a s).Doomed fails') : (p.bind next).Doomed fails' := by
  induction h with
  | finished ha => exact hnext _ _ ha
  | waiting _ ih => exact .waiting ih
  | halted why => exact .halted why

theorem Doomed.map {p : Progress α} {f : α → β} (h : p.Doomed fails)
    (hf : ∀ a, fails a → fails' (f a)) : (p.map f).Doomed fails' :=
  h.bind fun _ _ ha => .finished (hf _ ha)

theorem Doomed.settle {p : Progress α} (h : p.Doomed fails) : p.settle.Doomed fails := by
  induction h with
  | finished ha => exact .finished ha
  | @waiting due order s resume _ ih =>
    unfold Progress.settle
    by_cases hdue : due ≤ s.clock
    · rw [if_pos hdue]
      exact ih s
    · rw [if_neg hdue]
      exact .waiting ih
  | halted why => exact .halted why

/-! ## Like runs -/

/-- Two runs that move in step from like states.  If runs are `lossy`, the second one may be cut
short where the first one is doomed. -/
inductive Alike (S : RunState → RunState → Prop) (lossy : Prop) (fails : α → Prop) :
    Progress α → Progress α → Prop
  | finished {a : α} {s s' : RunState} :
      S s s' → Alike S lossy fails (.finished a s) (.finished a s')
  | waiting {due order : Nat} {s s' : RunState} {resume resume' : RunState → Progress α} :
      S s s' → (∀ now now', S now now' → Alike S lossy fails (resume now) (resume' now')) →
      Alike S lossy fails (.waiting due order s resume) (.waiting due order s' resume')
  | halted (why : Halt) : Alike S lossy fails (.halted why) (.halted why)
  | lost {p : Progress α} {why : Halt} :
      lossy → p.Doomed fails → Alike S lossy fails p (.halted why)

/-- Work that is alike may go on with such work; where runs are lossy, what follows a lost result
has to be doomed. -/
theorem Alike.bind {p p' : Progress α} {next next' : α → RunState → Progress β}
    (h : p.Alike S lossy fails p') (hfails : lossy → ∀ a s, fails a → (next a s).Doomed fails')
    (hnext : ∀ a s s', S s s' → (next a s).Alike S lossy fails' (next' a s')) :
    (p.bind next).Alike S lossy fails' (p'.bind next') := by
  induction h with
  | finished hs => exact hnext _ _ _ hs
  | waiting hs _ ih => exact .waiting hs ih
  | halted why => exact .halted why
  | lost hlossy hdoomed => exact .lost hlossy (hdoomed.bind (hfails hlossy))

theorem Alike.map {p p' : Progress α} {f : α → β} (h : p.Alike S lossy fails p')
    (hf : ∀ a, fails a → fails' (f a)) : (p.map f).Alike S lossy fails' (p'.map f) :=
  h.bind (fun _ _ _ ha => .finished (hf _ ha)) fun _ _ _ hs => .finished hs

/-- Where nothing is lost, it does not matter which results are failures. -/
theorem Alike.lossless {fails' : α → Prop} {p p' : Progress α} (h : p.Alike S False fails p') :
    p.Alike S False fails' p' := by
  induction h with
  | finished hs => exact .finished hs
  | waiting hs _ ih => exact .waiting hs ih
  | halted why => exact .halted why
  | lost hlossy _ => exact absurd hlossy id

theorem Alike.settle (hS : Likeness S) {p p' : Progress α} (h : p.Alike S lossy fails p') :
    p.settle.Alike S lossy fails p'.settle := by
  induction h with
  | finished hs => exact .finished hs
  | @waiting due order s s' resume resume' hs _ ih =>
    have hclock : s.clock = s'.clock := hS.clock hs
    unfold Progress.settle
    by_cases hdue : due ≤ s.clock
    · rw [if_pos hdue, if_pos (by rwa [← hclock])]
      exact ih s s' hs
    · rw [if_neg hdue, if_neg (by rwa [← hclock])]
      exact .waiting hs ih
  | halted why => exact .halted why
  | lost hlossy hdoomed => exact .lost hlossy hdoomed.settle

/-- Complete runs that are alike have the same result and end in like states. -/
theorem Alike.complete (hS : Likeness S) {p p' : Progress α} (h : p.Alike S False fails p') {a : α}
    {s : RunState} (hp : p.complete = .ok (a, s)) : ∃ s', p'.complete = .ok (a, s') ∧ S s s' := by
  induction h with
  | @finished b t t' hs =>
    cases hp
    exact ⟨t', rfl, hs⟩
  | @waiting due order t t' resume resume' hs _ ih =>
    have hclock : t.clock = t'.clock := hS.clock hs
    have hnow : S { t with clock := max t.clock due } { t' with clock := max t'.clock due } := by
      rw [← hclock]
      exact hS.advance _ hs
    exact ih _ _ hnow hp
  | halted why => cases hp
  | lost hlossy _ => exact absurd hlossy id

/-- Work that comes to an end comes to the same end from a like state, if those among whom it runs
do alike things to like states. -/
theorem Alike.endsAmong {moves : Moves} {p p' : Progress α} (h : p.Alike S False fails p')
    (hmoves : ∀ ⦃due s s' now⦄, S s s' → moves due s now → ∃ now', moves due s' now' ∧ S now now')
    {a : α} {s : RunState} (hends : p.EndsAmong moves a s) :
    ∃ s', p'.EndsAmong moves a s' ∧ S s s' := by
  induction h with
  | finished hs =>
    cases hends
    exact ⟨_, .finished _ _, hs⟩
  | waiting hs _ ih =>
    cases hends with
    | waiting hmove hresume =>
      rcases hmoves hs hmove with ⟨now', hmove', hnow⟩
      rcases ih _ _ hnow hresume with ⟨s', hends', hs'⟩
      exact ⟨s', .waiting hmove' hends', hs'⟩
  | halted why => cases hends
  | lost hlossy _ => exact absurd hlossy id

/-! ## Side by side -/

section Beside

variable {manner : Manner}

/-- What has to wait beside a result is doomed if it is when it goes on. -/
theorem waitOn_doomed {due order : Nat} {resume : RunState → Progress (Except ε α)}
    (h : ∀ now, (resume now).Doomed Failed) (result : Except ε β) (s : RunState) :
    (waitOn manner due order resume result s).Doomed Failed := by
  unfold waitOn
  split
  · exact .finished trivial
  · exact (Doomed.waiting h).map fun _ hleft => failed_pairResults_left hleft _

/-- After a failure of the right part, both can only fail. -/
theorem waitOn_doomed_of_failed {due order : Nat} (resume : RunState → Progress (Except ε α))
    {result : Except ε β} (h : Failed result) (s : RunState) :
    (waitOn manner due order resume result s).Doomed Failed := by
  have hleft : (Progress.waiting due order s resume).Doomed fun _ => True :=
    .of_forall (fun _ => trivial) _
  unfold waitOn
  split
  · exact .finished trivial
  · exact hleft.map fun left _ => failed_pairResults_right left h

theorem besideWaiting_doomed {due order : Nat} {ends : Except ε β → Prop}
    {moveLeft : RunState → (RunState → Progress (Except ε β)) → Progress (Except ε (α × β))}
    {leftAlone : Except ε β → RunState → Progress (Except ε (α × β))} {right : Progress (Except ε β)}
    (hmove : ∀ now next, (∀ s, (next s).Doomed ends) → (moveLeft now next).Doomed Failed)
    (halone : ∀ result s, ends result → (leftAlone result s).Doomed Failed)
    (h : right.Doomed ends) :
    (besideWaiting manner due order moveLeft leftAlone right).Doomed Failed := by
  induction h with
  | finished hresult => exact halone _ _ hresult
  | @waiting due' order' s resume hresume ih =>
    refine .waiting fun now => ?_
    by_cases hmoves : manner.leftMoves due order due' order' now.clock = true
    · rw [if_pos hmoves]
      refine hmove now _ fun s => ?_
      split
      · exact hresume s
      · exact .waiting hresume
    · rw [if_neg hmoves]
      exact ih now
  | halted why => exact .halted why

/-- Beside doomed work, everything is doomed. -/
theorem Doomed.beside {left : Progress (Except ε α)} (h : left.Doomed Failed)
    (leave : RunState → RunState) (next : RunState → Progress (Except ε β)) :
    (left.unlessFailed leave fun s => left.beside manner (next s)).Doomed Failed := by
  induction h generalizing leave next with
  | @finished result s hresult =>
    cases result with
    | ok a => exact absurd hresult id
    | error e => exact .finished trivial
  | waiting hresume ih =>
    have hright (p : Progress (Except ε β)) : p.Doomed fun _ => True :=
      .of_forall (fun _ => trivial) p
    exact besideWaiting_doomed (fun now next _ => ih now RunState.drop next)
      (fun result s _ => waitOn_doomed hresume result s) (hright _)
  | halted why => exact .halted why

/-- Work side by side is doomed to fail if its second part is. -/
theorem beside_doomed {next : RunState → Progress (Except ε β)} (h : ∀ s, (next s).Doomed Failed)
    (leave : RunState → RunState) (left : Progress (Except ε α)) :
    (left.unlessFailed leave fun s => left.beside manner (next s)).Doomed Failed := by
  induction left generalizing leave next with
  | finished result s =>
    cases result with
    | ok a => exact (h s).map fun _ hright => failed_pairWith a hright
    | error e => exact .finished trivial
  | waiting due order s resume ih =>
    exact besideWaiting_doomed (fun now next hnext => ih now hnext RunState.drop)
      (fun result s hresult => waitOn_doomed_of_failed resume hresult s) (h s)
  | halted why => exact .halted why

def Continues (S : RunState → RunState → Prop) (lossy : Prop)
    (next next' : RunState → Progress (Except ε α)) : Prop :=
  ∀ s s', S s s' → (next s).Alike S lossy Failed (next' s')

theorem waitOn_alike (hS : Likeness S) {due order : Nat}
    {resume resume' : RunState → Progress (Except ε α)} (h : Continues S lossy resume resume')
    (result : Except ε β) :
    Continues S lossy (waitOn manner due order resume result)
      (waitOn manner due order resume' result) := by
  intro s s' hs
  unfold waitOn
  split
  · exact .finished (hS.drop hs)
  · exact (Alike.waiting hs h).map fun _ hleft => failed_pairResults_left hleft _

/-- Two parts side by side are alike if both are, whichever goes on first. -/
theorem besideWaiting_alike (hS : Likeness S) {due order : Nat}
    {moveLeft moveLeft' :
      RunState → (RunState → Progress (Except ε β)) → Progress (Except ε (α × β))}
    {leftAlone leftAlone' : Except ε β → RunState → Progress (Except ε (α × β))}
    {right right' : Progress (Except ε β)}
    (hmove : ∀ next next', Continues S lossy next next' →
      Continues S lossy (fun now => moveLeft now next) fun now => moveLeft' now next')
    (halone : ∀ result, Continues S lossy (leftAlone result) (leftAlone' result))
    (hdoomed : ∀ {right}, right.Doomed Failed →
      (besideWaiting manner due order moveLeft leftAlone right).Doomed Failed)
    (h : right.Alike S lossy Failed right') :
    (besideWaiting manner due order moveLeft leftAlone right).Alike S lossy Failed
      (besideWaiting manner due order moveLeft' leftAlone' right') := by
  induction h with
  | finished hs => exact halone _ _ _ hs
  | @waiting due' order' s s' resume resume' hs hresume ih =>
    refine .waiting hs fun now now' hnow => ?_
    have hclock : now.clock = now'.clock := hS.clock hnow
    rw [← hclock]
    by_cases hmoves : manner.leftMoves due order due' order' now.clock = true
    · rw [if_pos hmoves, if_pos hmoves]
      refine hmove _ _ (fun t t' ht => ?_) now now' hnow
      by_cases hfollows : manner.rightFollows due' now.clock = true
      · rw [if_pos hfollows, if_pos hfollows]
        exact hresume t t' ht
      · rw [if_neg hfollows, if_neg hfollows]
        exact .waiting ht hresume
    · rw [if_neg hmoves, if_neg hmoves]
      exact ih now now' hnow
  | halted why => exact .halted why
  | lost hlossy hright => exact .lost hlossy (hdoomed hright)

/-- The left part moves, and then the right part. -/
theorem unlessFailed_beside_alike (hS : Likeness S) {leave : RunState → RunState}
    {left left' : Progress (Except ε α)} {next next' : RunState → Progress (Except ε β)}
    (hleave : ∀ s s', S s s' → S (leave s) (leave s')) (hnext : Continues S lossy next next')
    (h : left.Alike S lossy Failed left') :
    (left.unlessFailed leave fun s => left.beside manner (next s)).Alike S lossy Failed
      (left'.unlessFailed leave fun s => left'.beside manner (next' s)) := by
  -- on the left part, however the right part goes on when it has moved
  induction h generalizing leave next next' with
  | @finished result s s' hs =>
    cases result with
    | error e => exact .finished (hleave s s' hs)
    | ok a => exact (hnext s s' hs).map fun _ hright => failed_pairWith a hright
  | @waiting due order s s' resume resume' hs hresume ih =>
    refine besideWaiting_alike hS ?_ (waitOn_alike hS hresume) ?_ (hnext s s' hs)
    · exact fun next next' hfollow now now' hnow =>
        ih now now' hnow (fun _ _ hs => hS.drop hs) hfollow
    · exact fun hright => besideWaiting_doomed
        (fun now next hnext => beside_doomed hnext RunState.drop (resume now))
        (fun result s hresult => waitOn_doomed_of_failed resume hresult s) hright
  | halted why => exact .halted why
  | lost hlossy hdoomed => exact .lost hlossy (hdoomed.beside leave next)

end Beside

end Progress

/-! ## Tasks -/

namespace Task

def Alike (S : RunState → RunState → Prop) (lossy : Prop) (fails : α → Prop) (t t' : Task α) :
    Prop :=
  ∀ s s', S s s' → (t s).Alike S lossy fails (t' s')

theorem Alike.bind {t t' : Task α} {f f' : α → Task β} (h : Alike S lossy fails t t')
    (hfails : lossy → ∀ a s, fails a → (f a s).Doomed fails')
    (hf : ∀ a, Alike S lossy fails' (f a) (f' a)) : Alike S lossy fails' (t >>= f) (t' >>= f') :=
  fun s s' hs => (h s s' hs).bind hfails hf

theorem pure_alike (a : α) : Alike S lossy fails (Pure.pure a) (Pure.pure a) :=
  fun _ _ hs => .finished hs

/-- A task that looks at the state of two runs goes on in like ways. -/
theorem state_bind_alike {f f' : RunState → Task α}
    (h : ∀ s s', S s s' → (f s s).Alike S lossy fails (f' s' s')) :
    Alike S lossy fails (state >>= f) (state >>= f') :=
  h

theorem updateScope_alike (hS : Likeness S) {fails : Unit → Prop} (change : Scope → Scope) :
    Alike S lossy fails (updateScope change) (updateScope change) := by
  intro s s' hs
  have hstored := hS.store (change s.scope) hs
  refine .finished ?_
  dsimp only
  rwa [← hS.scope hs]

theorem sleep_alike (hS : Likeness S) {fails : Unit → Prop} (milliseconds : Nat) :
    Alike S lossy fails (sleep milliseconds) (sleep milliseconds) := by
  intro s s' hs
  unfold sleep
  by_cases hnone : milliseconds = 0
  · rw [if_pos hnone, if_pos hnone]
    exact .finished hs
  · have hdue : s.clock + milliseconds = s'.clock + milliseconds := by rw [hS.clock hs]
    have hwaits := hS.await hs
    rw [if_neg hnone, if_neg hnone, hdue, hS.timers hs]
    rw [hS.timers hs] at hwaits
    exact .waiting hwaits fun _ _ hnow => .finished hnow

theorem join_alike (hS : Likeness S) {ts ts' : List (Task (Except ε α))}
    (h : List.Forall₂ (Alike S lossy Failed) ts ts') : Alike S lossy Failed (join ts) (join ts') := by
  induction h with
  | nil => exact pure_alike _
  | @cons t t' rest rest' ht _ ih =>
    intro s s' hs
    unfold join
    dsimp only
    rw [← Progress.map_unlessFailed, ← Progress.map_unlessFailed]
    exact (Progress.unlessFailed_beside_alike hS (fun _ _ hs => hs) ih (ht s s' hs)).map
      fun _ hresult => Failed.map _ hresult

theorem joinInOrderFrom_alike (hS : Likeness S) {ts ts' : List (Task (Except ε α))}
    (h : List.Forall₂ (Alike S lossy Failed) ts ts') {started started' : Progress (Except ε (List α))}
    (hstarted : started.Alike S lossy Failed started') :
    (joinInOrderFrom ts started).Alike S lossy Failed (joinInOrderFrom ts' started') := by
  induction h generalizing started started' with
  | nil => exact hstarted.settle hS
  | @cons t t' rest rest' ht _ ih =>
    refine ih ?_
    rw [← Progress.map_unlessFailed, ← Progress.map_unlessFailed]
    exact (Progress.unlessFailed_beside_alike hS (fun _ _ hs => hs) ht hstarted).map
      fun _ hresult => Failed.map _ hresult

/-- Work side by side is alike if each piece is. -/
theorem together_alike (hS : Likeness S) {ts ts' : List (Task (Except ε α))}
    (h : List.Forall₂ (Alike S lossy Failed) ts ts') :
    Alike S lossy Failed (together ts) (together ts') := by
  unfold together
  rw [h.length_eq]
  by_cases hfew : ts'.length ≤ joinLimit
  · rw [if_pos hfew, if_pos hfew]
    exact join_alike hS h
  · rw [if_neg hfew, if_neg hfew]
    intro s s' hs
    exact (joinInOrderFrom_alike hS h (.finished hs)).map fun _ hresult => Failed.map _ hresult

end Task

/-! ## Attempts -/

namespace Attempt

def Alike (S : RunState → RunState → Prop) (lossy : Prop) (t t' : Attempt α) : Prop :=
  Task.Alike S lossy Failed t.run t'.run

def Alikes (S : RunState → RunState → Prop) (lossy : Prop) ⦃α : Type⦄ (t : Bool → Attempt α) :
    Prop :=
  Alike S lossy (t false) (t true)

theorem Alike.bind {t t' : Attempt α} {f f' : α → Attempt β} (h : Alike S lossy t t')
    (hf : ∀ a, Alike S lossy (f a) (f' a)) : Alike S lossy (t >>= f) (t' >>= f') := by
  intro s s' hs
  rw [run_bind, run_bind]
  refine (h s s' hs).bind (fun _ result s hresult => ?_) fun result s s' hs => ?_
  · cases result with
    | ok a => exact absurd hresult id
    | error e => exact .finished trivial
  · cases result with
    | ok a => exact hf a s s' hs
    | error e => exact .finished hs

theorem ofTask_alike {t t' : Task α} (h : Task.Alike S lossy (fun _ => False) t t') :
    Alike S lossy (ofTask t) (ofTask t') :=
  h.bind (fun _ _ _ hnone => absurd hnone id) fun _ => Task.pure_alike _

/-- States that are alike have the same scope, and so the same values of expressions. -/
theorem expression_alike (hS : Likeness S) (find : Scope → Except ExpressionError Value) :
    Alike S lossy (Attempt.expression find) (Attempt.expression find) := by
  intro s s' hs
  have hscope : find s'.scope = find s.scope := by rw [hS.scope hs]
  cases hfind : find s.scope with
  | ok v =>
    rw [hfind] at hscope
    rw [run_expression hfind, run_expression hscope]
    exact .finished hs
  | error e =>
    rw [hfind] at hscope
    rw [run_expression_error hfind, run_expression_error hscope]
    by_cases hcrash : e.isCrash = true
    · rw [if_pos hcrash, if_pos hcrash]
      exact .halted _
    · rw [if_neg hcrash, if_neg hcrash]
      exact .finished hs

theorem during_alike {t t' : Attempt α} (circumstance : Circumstance) (h : Alike S lossy t t') :
    Alike S lossy (Attempt.during circumstance t) (Attempt.during circumstance t') := by
  refine Task.Alike.bind h (fun _ result s hresult => ?_) fun result => ?_
  · cases result with
    | ok a => exact absurd hresult id
    | error e => exact .finished trivial
  · cases result with
    | ok a => exact Task.pure_alike _
    | error e => exact Task.pure_alike _

theorem alikes_congruence (hS : Likeness S) : ActingCongruence (Alikes S lossy) where
  pure _ := Task.pure_alike _
  fail _ := Task.pure_alike _
  bind h hf := Alike.bind h hf
  expression := expression_alike hS
  during := during_alike
  sleep _ := ofTask_alike (Task.sleep_alike hS _)

end Attempt

/-! ## Engines -/

namespace Engine

/-- Two engines whose ways back into the run are alike. -/
structure Alike (S : RunState → RunState → Prop) (lossy : Prop) (e e' : Engine) : Prop where
  expand : ∀ trail v, Attempt.Alike S lossy (e.expand trail v) (e'.expand trail v)
  restart : ∀ recursive trail v,
    Attempt.Alike S lossy (e.restart recursive trail v) (e'.restart recursive trail v)
  runList : ∀ steps numbering,
    Task.Alike S lossy Failed (e.runList steps numbering) (e'.runList steps numbering)
  runMarked : ∀ steps numbering,
    Task.Alike S lossy Failed (e.runMarked steps numbering) (e'.runMarked steps numbering)
  together : ∀ {ts ts' : List (Task (Except Failure Value))},
    List.Forall₂ (Task.Alike S lossy Failed) ts ts' →
      Task.Alike S lossy Failed (e.together ts) (e'.together ts')
  store : ∀ name v, Attempt.Alike S lossy (e.store name v) (e'.store name v)

variable {e e' : Engine}

theorem restore_alike (hS : Likeness S) {fails : Unit → Prop} (name : String)
    (saved : Option Value) :
    Task.Alike S lossy fails (restore name saved) (restore name saved) := by
  cases saved with
  | none => exact fun _ _ hs => .finished hs
  | some v => exact Task.updateScope_alike hS fun scope => scope.put name v

/-- Running a list for an action is alike if the list is, a lost list being a failure of the
action. -/
theorem runSteps_alike (hS : Likeness S) {steps : StepList} {numbering : Numbering}
    (h : Task.Alike S lossy Failed (e.runList steps numbering) (e'.runList steps numbering)) :
    Attempt.Alike S lossy (e.runSteps steps numbering) (e'.runSteps steps numbering) := by
  have hnested : Task.Alike S lossy Failed (e.runNested steps numbering)
      (e'.runNested steps numbering) := by
    refine Task.state_bind_alike fun s s' hs => ?_
    -- both put back the number that they have found
    rw [← hS.scope hs]
    refine (h s s' hs).bind (fun _ result t hresult => ?_) fun result t t' ht => ?_
    · cases s.scope.get? Scope.stepNumberName with
      | none => exact .finished hresult
      | some v => exact .finished hresult
    · have hrestore : Task.Alike S lossy (fun _ => False)
          (restore Scope.stepNumberName (s.scope.get? Scope.stepNumberName)) _ :=
        restore_alike hS _ _
      exact (hrestore t t' ht).bind (fun _ _ _ hnone => absurd hnone id) fun _ _ _ ht => .finished ht
  refine Task.Alike.bind hnested (fun _ result s hresult => ?_) fun result => ?_
  · cases result with
    | ok results => exact absurd hresult id
    | error e => exact .finished trivial
  · cases result with
    | ok results => exact Task.pure_alike _
    | error e => exact Task.pure_alike _

theorem runAsSteps_alike (hS : Likeness S)
    (h : ∀ steps numbering,
      Task.Alike S lossy Failed (e.runMarked steps numbering) (e'.runMarked steps numbering))
    (key : String) (collect : Collect) (v : Value) :
    Attempt.Alike S lossy (PropertyEvaluation.runAsSteps e key collect v)
      (PropertyEvaluation.runAsSteps e' key collect v) := by
  intro s s' hs
  have hkept (results : List Value) : Attempt.Alike S lossy
      (Pure.pure (PropertyEvaluation.kept collect results) : Attempt Value) (Pure.pure _) :=
    Task.pure_alike _
  have hsteps (base : String) : Attempt.Alike S lossy
      (e.marked.runSteps (StepList.oneOrMany v) fun i => base ++ "-" ++ key ++ "-" ++ toString i)
      (e'.marked.runSteps (StepList.oneOrMany v) _) := runSteps_alike hS (h _ _)
  have hrun := (hsteps (s.scope.stepNumber.getD "")).bind hkept s s' hs
  have hbase : s.scope.stepNumber.getD "" = s'.scope.stepNumber.getD "" := by rw [hS.scope hs]
  nth_rewrite 2 [hbase] at hrun
  exact hrun

theorem Alike.related (hS : Likeness S) (h : Alike S lossy e e') (trail : Trail) :
    Related (Attempt.Alikes S lossy) trail (pair e e') where
  expand code v _ := h.expand (trail ++ [code]) v
  restart recursive v := h.restart recursive trail v
  runAsSteps := runAsSteps_alike hS h.runMarked
  together ts hts := by
    refine h.together ?_
    rw [List.forall₂_map_left_iff, List.forall₂_map_right_iff]
    exact List.forall₂_same.2 hts

theorem Alike.acts (hS : Likeness S) (h : Alike S lossy e e') (number : String) :
    Acts (Attempt.Alikes S lossy) number (pair e e') where
  store := h.store
  runSteps steps numbering _ := runSteps_alike hS (h.runList steps numbering)

end Engine

/-! ## Lists -/

namespace ListRun

variable {setup : Setup} {e e' : Engine}

theorem evaluate_alike (hS : Likeness S) (h : Engine.Alike S lossy e e') (recursive : Bool)
    (trail : Trail) (v : Value) :
    Attempt.Alike S lossy (PropertyEvaluation.evaluate e recursive trail v)
      (PropertyEvaluation.evaluate e' recursive trail v) :=
  PropertyEvaluation.evaluate_rel (e := Engine.pair e e')
    (Attempt.alikes_congruence hS).toCongruence (h.related hS trail) recursive v

/-- A step of known type is alike under engines that are. -/
theorem invoke_alike (hS : Likeness S) (h : Engine.Alike S lossy e e') (number : String)
    (step : Step) (descriptor : Descriptor) :
    Attempt.Alike S lossy (invoke e number step descriptor) (invoke e' number step descriptor) :=
  invoke_rel (e := Engine.pair e e') (Attempt.alikes_congruence hS).toCongruence
    (Attempt.alikes_congruence hS) id (h.related hS []) (h.acts hS number) step descriptor

theorem prepare_alike (hS : Likeness S) (number : String) (raw : Value) :
    Task.Alike S lossy (fun _ => False) (prepare setup number raw) (prepare setup number raw) := by
  intro s s' hs
  cases hexpand : Shorthand.expand setup.registry raw with
  | error reason =>
    rw [prepare_of_expand_error hexpand, prepare_of_expand_error hexpand]
    exact .finished hs
  | ok expanded =>
    have hevent : Event.before number expanded s'.clock = .before number expanded s.clock := by
      rw [hS.clock hs]
    rw [prepare_of_expand_ok hexpand, prepare_of_expand_ok hexpand, hevent]
    exact .finished (hS.report _ hs)

/-- A verdict that a step has failed, which is ignored exactly if the step says so. -/
def Verdict.Fails : Verdict → Prop
  | .ended step (.failed _ ignored) => ignored = step.ignoreError
  | _ => False

/-- Skipping or running a step is alike, and a lost run is one whose step has failed. -/
theorem execute_alike (hS : Likeness S) (h : Engine.Alike S lossy e e') (number : String)
    (failed : Bool) (step : Step) :
    Task.Alike S lossy (fun result => ∃ cause, result = .ok (.failed cause step.ignoreError))
      (execute setup e number failed step) (execute setup e' number failed step) := by
  unfold execute
  by_cases hdisabled : step.disabled = true
  · simp only [hdisabled, if_true]
    exact Task.pure_alike _
  · by_cases hfailed : (failed && !step.runOnFailure) = true
    · simp only [hdisabled, hfailed, if_true]
      exact Task.pure_alike _
    · simp only [hdisabled, hfailed]
      cases setup.registry.find? step.type with
      | none => exact Task.pure_alike _
      | some descriptor =>
        refine Task.Alike.bind (invoke_alike hS h number step descriptor) ?_ fun _ =>
          Task.pure_alike _
        intro _ result s hresult
        cases result with
        | ok value => exact absurd hresult id
        | error cause => exact .finished ⟨cause, rfl⟩

theorem conclude_alike (hS : Likeness S) (h : Engine.Alike S lossy e e') (number : String)
    (failed : Bool) (raw : Value) (prepared : Except RunFailure Step) :
    Task.Alike S lossy Verdict.Fails (conclude setup e number failed raw prepared)
      (conclude setup e' number failed raw prepared) := by
  cases prepared with
  | error cause =>
    by_cases hdisabled : (Step.placeholder raw).disabled = true
    · simp only [conclude, hdisabled, if_true]
      exact Task.pure_alike _
    · simp only [conclude, hdisabled]
      exact Task.pure_alike _
  | ok step =>
    refine Task.Alike.bind (execute_alike hS h number failed step) ?_ fun result => ?_
    · rintro _ _ s ⟨cause, rfl⟩
      exact .finished rfl
    · cases result with
      | error cause => exact Task.pure_alike _
      | ok status => exact Task.pure_alike _

theorem handle_alike (hS : Likeness S) (h : Engine.Alike S lossy e e') (number : String)
    (failed : Bool) (raw : Value) :
    Task.Alike S lossy Verdict.Fails (handle setup e number failed raw)
      (handle setup e' number failed raw) :=
  Task.Alike.bind (prepare_alike hS number raw) (fun _ _ _ hnone => absurd hnone id)
    (conclude_alike hS h number failed raw)

theorem reportEnd_alike (hS : Likeness S) {fails : Unit → Prop} (number : String) (step : Step)
    (status : StepStatus) :
    Task.Alike S lossy fails (reportEnd number step status) (reportEnd number step status) := by
  refine Task.state_bind_alike fun s s' hs => ?_
  rw [← hS.scope hs, ← hS.clock hs]
  exact .finished (hS.report _ hs)

/-- Visits are alike from all states in which the list deals with the step alike. -/
theorem visit_alike_of_entered (hS : Likeness S) (h : Engine.Alike S lossy e e')
    (bindings : Option Variables) (number : String) (failed : Bool) (raw : Value) {s s' : RunState}
    (hs : S (entered bindings number s) (entered bindings number s')) :
    (visit setup e bindings number failed raw s).Alike S lossy Verdict.Fails
      (visit setup e' bindings number failed raw s') := by
  refine ((handle_alike hS h number failed raw).bind (fun _ _ _ hfails => .finished hfails)
    fun verdict => ?_) _ _ hs
  have hreport : Task.Alike S lossy (fun _ => False)
      (reportEnd number verdict.step verdict.status) _ :=
    reportEnd_alike hS number verdict.step verdict.status
  exact hreport.bind (fun _ _ _ hnone => absurd hnone id) fun _ => Task.pure_alike verdict

/-- A visit is alike under engines that are, and what is lost is a verdict of failure. -/
theorem visit_alike (hS : Likeness S) (h : Engine.Alike S lossy e e')
    (bindings : Option Variables) (number : String) (failed : Bool) (raw : Value) :
    Task.Alike S lossy Verdict.Fails (visit setup e bindings number failed raw)
      (visit setup e' bindings number failed raw) := by
  intro s s' hs
  refine visit_alike_of_entered hS h bindings number failed raw ?_
  unfold entered
  rw [← hS.scope hs]
  exact hS.store _ hs

def Alikes (S : RunState → RunState → Prop) ⦃α : Type⦄ (t : Bool → Task α) : Prop :=
  Task.Alike S False (fun _ => False) (t false) (t true)

theorem alikes_sequencing : Task.Sequencing (Alikes S) where
  pure _ := Task.pure_alike _
  bind h hf := Task.Alike.bind h (fun hlossy => absurd hlossy id) hf

theorem runFrom_alike (hS : Likeness S) (h : Engine.Alike S False e e')
    (bindings : Option Variables) (numbering : Numbering) (index : Nat)
    (steps results : List Value) (failures : List RunFailure) :
    Task.Alike S False (fun _ => False)
      (runFrom setup e bindings numbering index steps results failures)
      (runFrom setup e' bindings numbering index steps results failures) := by
  have hvisit (index : Nat) (failed : Bool) (raw : Value) : Alikes S fun i =>
      visit setup (Engine.pair e e' i) bindings (numbering index) failed raw := fun s s' hs =>
    (visit_alike hS h bindings (numbering index) failed raw s s' hs).lossless
  exact runFrom_rel (e := Engine.pair e e') alikes_sequencing hvisit index steps results failures

/-- Lists are alike from all states in which they deal with their first step alike. -/
theorem runFrom_alike_of_entered (hS : Likeness S) (h : Engine.Alike S False e e')
    (bindings : Option Variables) (numbering : Numbering) (index : Nat) (raw : Value)
    (rest results : List Value) (failures : List RunFailure) {s s' : RunState}
    (hs : S (entered bindings (numbering index) s) (entered bindings (numbering index) s')) :
    (runFrom setup e bindings numbering index (raw :: rest) results failures s).Alike S False
      (fun _ => False)
      (runFrom setup e' bindings numbering index (raw :: rest) results failures s') := by
  rw [runFrom_cons, runFrom_cons]
  refine (visit_alike_of_entered hS h bindings _ _ raw hs).bind (fun hlossy => absurd hlossy id) ?_
  intro verdict t t' ht
  by_cases haborts : verdict.aborts = true
  · simp only [haborts, if_true]
    exact .finished ht
  · simp only [haborts]
    exact runFrom_alike hS h bindings numbering _ rest _ _ t t' ht

/-- Where nothing is lost a list is alike under engines that are. -/
theorem run_alike (hS : Likeness S) (h : Engine.Alike S False e e') (steps : StepList)
    (numbering : Numbering) :
    Task.Alike S False Failed (run setup e steps numbering) (run setup e' steps numbering) :=
  fun s s' hs => (runFrom_alike hS h steps.bindings numbering 0 steps.steps [] [] s s' hs).lossless

theorem put_alike (hS : Likeness S) (name : String) (v : Value) :
    Attempt.Alike S lossy (Attempt.put name v) (Attempt.put name v) :=
  Attempt.ofTask_alike (Task.updateScope_alike hS _)

theorem level_alike (hS : Likeness S) {store store' : String → Value → Attempt Unit}
    (hstore : ∀ name v, Attempt.Alike S False (store name v) (store' name v))
    (h : Engine.Alike S False e e') :
    Engine.Alike S False (level setup store e) (level setup store' e') where
  expand := evaluate_alike hS h true
  restart := evaluate_alike hS h
  runList := run_alike hS h
  runMarked := run_alike hS h
  together := Task.together_alike hS
  store := hstore

theorem none_alike (hS : Likeness S) {store store' : String → Value → Attempt Unit}
    (hstore : ∀ name v, Attempt.Alike S False (store name v) (store' name v)) :
    Engine.Alike S False { Engine.none with store := store }
      { Engine.none with store := store' } where
  expand _ _ _ _ _ := .halted _
  restart _ _ _ _ _ _ := .halted _
  runList _ _ _ _ _ := .halted _
  runMarked _ _ _ _ _ := .halted _
  together := Task.together_alike hS
  store := hstore

/-- The engine of a run answers alike from like states. -/
theorem engine_alike (hS : Likeness S) (setup : Setup) (depth : Nat) :
    Engine.Alike S False (engine setup depth) (engine setup depth) := by
  induction depth with
  | zero => exact none_alike hS (put_alike hS)
  | succ depth ih => exact level_alike hS (put_alike hS) ih

end ListRun

end StepScript
