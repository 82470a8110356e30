import Mathlib.Algebra.Group.Basic
import Mathlib.Data.List.Forall2
import StepScript.Run.Task

/-!
# Accounting — work that shares one log

Tasks that run side by side share the state of the run.  An `Accounting` says what the log has to
look like while the work under way still owes something to it, for example the report that a step
has ended.  `Progress.Keeps` is what one piece of work has to do for its part: it leaves the log in
order whenever it waits or ends, provided that the others have left it in order, whatever else they
did.  What the others owe is its frame.

The relation is between two runs that move in step, of which the first one may be cut short if the
accounting allows for it.  A property of single runs is its diagonal.

* `Progress.Keeps.bind` and `Progress.Keeps.frame` are the rules for sequences and frames;
* `Task.together_keeps` is the rule for work side by side, where a failure drops what waits.
-/

namespace StepScript

/-- What the log has to look like while the work under way owes something. -/
structure Accounting (M : Type) [AddCommMonoid M] where
  /-- The log is in order while `m` is owed, after waiting work was dropped so many times. -/
  holds : List Event → Nat → M → Prop
  /-- What work always owes when it waits inside a list. -/
  outstanding : M → Prop
  /-- Whether the first one of two runs may be cut short. -/
  cuts : Prop
  outstanding_add : ∀ {m : M} (m' : M), outstanding m → outstanding (m + m')
  /-- What dropped work owes is not owed any longer. -/
  drop : ∀ {log : List Event} {dropped : Nat} {m m' : M},
    outstanding m → holds log dropped (m + m') → holds log (dropped + 1) m'

variable {M : Type} [AddCommMonoid M] {A : Accounting M} {W : M → Prop} {α β γ ε : Type}

def Accounting.Fits (A : Accounting M) (s : RunState) (m : M) : Prop :=
  A.holds s.log s.dropped m

namespace Progress

/-- Two runs move in step and keep the log in order: while they wait they owe something that `W`
allows, and with a result they owe what `Q` says. -/
inductive Keeps (A : Accounting M) (W : M → Prop) (Q : α → M → Prop) :
    M → Progress α → Progress α → Prop
  | finished {frame m : M} {a : α} {s : RunState} :
      Q a m → A.Fits s (m + frame) → Keeps A W Q frame (.finished a s) (.finished a s)
  | waiting {frame m : M} {due order : Nat} {s : RunState} {resume resume' : RunState → Progress α} :
      W m → A.Fits s (m + frame) →
      (∀ now frame', A.Fits now (m + frame') → Keeps A W Q frame' (resume now) (resume' now)) →
      Keeps A W Q frame (.waiting due order s resume) (.waiting due order s resume')
  | halted {frame : M} {why : Halt} : Keeps A W Q frame (.halted why) (.halted why)
  | cut {frame : M} {p : Progress α} : A.cuts → Keeps A W Q frame (.halted .exhausted) p

abbrev Settles (A : Accounting M) (W : M → Prop) : M → Progress α → Progress α → Prop :=
  Keeps A W fun _ m => m = 0

/-! ## Rules for one piece of work -/

/-- More may be owed while work waits, and less said of what is owed in the end. -/
theorem Keeps.mono {W' : M → Prop} {Q Q' : α → M → Prop} {frame : M} {p p' : Progress α}
    (hW : ∀ m, W m → W' m) (hQ : ∀ a m, Q a m → Q' a m) (h : Keeps A W Q frame p p') :
    Keeps A W' Q' frame p p' := by
  induction h with
  | finished hq hs => exact .finished (hQ _ _ hq) hs
  | waiting hw hs _ ih => exact .waiting (hW _ hw) hs ih
  | halted => exact .halted
  | cut hcut => exact .cut hcut

/-- What others owe may count as owed by the work itself. -/
theorem Keeps.frame {W' : M → Prop} {Q : α → M → Prop} {m₀ frame : M} {p p' : Progress α}
    (hW : ∀ m, W m → W' (m₀ + m)) (h : Keeps A W Q (m₀ + frame) p p') :
    Keeps A W' (fun a m => ∃ m', Q a m' ∧ m = m₀ + m') frame p p' := by
  generalize hF : m₀ + frame = whole at h
  induction h generalizing frame with
  | @finished _ m a s hq hs =>
    subst hF
    exact .finished ⟨m, hq, rfl⟩ (by rwa [add_assoc, add_left_comm])
  | @waiting _ m due order s resume resume' hw hs _ ih =>
    subst hF
    refine .waiting (hW m hw) (by rwa [add_assoc, add_left_comm]) ?_
    intro now frame' hnow
    refine ih now (m₀ + frame') ?_ rfl
    rwa [add_assoc, add_left_comm] at hnow
  | halted => exact .halted
  | cut hcut => exact .cut hcut

/-- What is owed by the first part is what the next one begins with. -/
theorem Keeps.bind {Q : α → M → Prop} {R : β → M → Prop} {frame : M} {p p' : Progress α}
    {next next' : α → RunState → Progress β} (h : Keeps A W Q frame p p')
    (hnext : ∀ a m s frame, Q a m → A.Fits s (m + frame) →
      Keeps A W R frame (next a s) (next' a s)) :
    Keeps A W R frame (p.bind next) (p'.bind next') := by
  induction h with
  | finished hq hs => exact hnext _ _ _ _ hq hs
  | waiting hw hs _ ih => exact .waiting hw hs ih
  | halted => exact .halted
  | cut hcut => exact .cut hcut

theorem Keeps.map {frame : M} {p p' : Progress α} (f : α → β) (h : Settles A W frame p p') :
    Settles A W frame (p.map f) (p'.map f) :=
  h.bind fun _ _ _ _ hq hs => .finished hq hs

theorem Keeps.settle {Q : α → M → Prop} {frame : M} {p p' : Progress α}
    (h : Keeps A W Q frame p p') : Keeps A W Q frame p.settle p'.settle := by
  induction h with
  | finished hq hs => exact .finished hq hs
  | @waiting _ m due order s resume resume' hw hs _ ih =>
    unfold Progress.settle
    by_cases hdue : due ≤ s.clock
    · simpa [hdue] using ih s _ hs
    · simpa [hdue] using Keeps.waiting hw hs ih
  | halted => exact .halted
  | cut hcut => exact .cut hcut

/-- No account depends on the scope, so work may have one of its own. -/
theorem Keeps.apart {frame : M} {p p' : Progress α} (h : Settles A W frame p p') (outer : Scope) :
    Settles A W frame (p.apart outer) (p'.apart outer) := by
  induction h generalizing outer with
  | finished hq hs => exact .finished hq hs
  | @waiting _ _ _ _ s _ _ hw hs _ ih =>
    -- the log that the run comes back with does not change when the scopes are exchanged
    exact .waiting hw hs fun now frame' hnow =>
      ih { now with scope := s.scope } frame' hnow now.scope
  | halted => exact .halted
  | cut hcut => exact .cut hcut

/-! ## Side by side -/

variable {manner : Manner}

def Follows (A : Accounting M) (v : M) (next next' : RunState → Progress α) : Prop :=
  ∀ s frame, A.Fits s (v + frame) → Settles A A.outstanding frame (next s) (next' s)

/-- Work that waits on keeps the log in order, and so does work that is dropped. -/
theorem waitOn_keeps {w : M} {due order : Nat} {resume resume' : RunState → Progress (Except ε α)}
    (hw : A.outstanding w) (hresume : Follows A w resume resume') (result : Except ε β) :
    Follows A w (waitOn manner due order resume result) (waitOn manner due order resume' result) := by
  intro s frame hs
  unfold waitOn
  split
  · exact .finished rfl (by rw [zero_add]; exact A.drop hw hs)
  · exact .map _ (.waiting hw hs hresume)

/-- Two parts side by side owe what both of them owe, whichever goes on first. -/
theorem besideWaiting_keeps {w frame : M} {due order : Nat}
    {moveLeft moveLeft' :
      RunState → (RunState → Progress (Except ε β)) → Progress (Except ε (α × β))}
    {leftAlone leftAlone' : Except ε β → RunState → Progress (Except ε (α × β))}
    {right right' : Progress (Except ε β)} (hw : A.outstanding w)
    (hmove : ∀ v next next', A.outstanding v → Follows A v next next' →
      Follows A (w + v) (fun now => moveLeft now next) fun now => moveLeft' now next')
    (halone : ∀ result, Follows A w (leftAlone result) (leftAlone' result))
    (h : Settles A A.outstanding (w + frame) right right') :
    Settles A A.outstanding frame (besideWaiting manner due order moveLeft leftAlone right)
      (besideWaiting manner due order moveLeft' leftAlone' right') := by
  -- while the right part moves, what the left part owes belongs to its frame
  generalize hF : w + frame = whole at h
  induction h generalizing frame with
  | @finished _ m result s hq hs =>
    subst hF hq
    rw [zero_add] at hs
    exact halone result s frame hs
  | @waiting _ v due' order' s resume resume' hv hs hresume ih =>
    subst hF
    refine .waiting (m := w + v) (A.outstanding_add v hw) (by rwa [add_assoc, add_left_comm]) ?_
    intro now frame' hnow
    by_cases hmoves : manner.leftMoves due order due' order' now.clock = true
    · rw [if_pos hmoves, if_pos hmoves]
      refine hmove v _ _ hv ?_ now frame' hnow
      intro s frame hs
      dsimp only
      by_cases hfollows : manner.rightFollows due' now.clock = true
      · rw [if_pos hfollows, if_pos hfollows]
        exact hresume s frame hs
      · rw [if_neg hfollows, if_neg hfollows]
        exact .waiting hv hs hresume
    · rw [if_neg hmoves, if_neg hmoves]
      refine ih now (w + frame') ?_ rfl
      rwa [add_assoc, add_left_comm] at hnow
  | halted => exact .halted
  | cut hcut => exact .cut hcut

/-- The left part moves, and then the right part, which owes `v`. -/
theorem unlessFailed_beside_keeps {v frame : M} {leave : RunState → RunState}
    {left left' : Progress (Except ε α)} {next next' : RunState → Progress (Except ε β)}
    (hleave : ∀ s frame, A.Fits s (v + frame) → A.Fits (leave s) frame)
    (hnext : Follows A v next next') (h : Settles A A.outstanding (v + frame) left left') :
    Settles A A.outstanding frame (left.unlessFailed leave fun s => left.beside manner (next s))
      (left'.unlessFailed leave fun s => left'.beside manner (next' s)) := by
  -- on the left part, whatever the right part owes and however it goes on
  generalize hF : v + frame = whole at h
  induction h generalizing v frame leave next next' with
  | @finished _ m result s hq hs =>
    subst hF hq
    rw [zero_add] at hs
    cases result with
    | error e => exact .finished rfl (by rw [zero_add]; exact hleave s frame hs)
    | ok a => exact (hnext s frame hs).map _
  | @waiting _ w due order s resume resume' hw hs hresume ih =>
    subst hF
    refine besideWaiting_keeps hw ?_ (waitOn_keeps hw hresume)
      (hnext s (w + frame) (by rwa [add_left_comm]))
    intro u follow follow' hu hfollow now frame' hnow
    refine ih now (u + frame') ?_ (fun s frame hs => A.drop hu hs) hfollow rfl
    rwa [add_assoc] at hnow
  | halted => exact .halted
  | cut hcut => exact .cut hcut

/-- A function of the results can be applied before or after looking for a failure. -/
theorem map_unlessFailed (f : α → β) (leave : RunState → RunState) (p : Progress (Except ε γ))
    (next : RunState → Progress (Except ε α)) :
    (p.unlessFailed leave next).map (Except.map f) =
      p.unlessFailed leave fun s => (next s).map (Except.map f) := by
  cases p with
  | finished result s =>
    cases result with
    | error e => rfl
    | ok a => rfl
  | waiting due order s resume => rfl
  | halted why => rfl

end Progress

/-- Work that has run to its end has left the log in order. -/
theorem fits_of_complete {frame : M} {p p' : Progress α} (h : Progress.Settles A W frame p p')
    {a : α} {s' : RunState} (hcomplete : p.complete = .ok (a, s')) : A.Fits s' frame := by
  induction h with
  | finished hm hs =>
    cases hcomplete
    subst hm
    rwa [zero_add] at hs
  | @waiting frame m due order s resume resume' hw hs hresume ih =>
    exact ih { s with clock := max s.clock due } frame hs hcomplete
  | halted => cases hcomplete
  | cut hcut => cases hcomplete

/-! ## Tasks -/

namespace Task

def Keeps (A : Accounting M) (W : M → Prop) (t t' : Task α) : Prop :=
  ∀ s frame, A.Fits s frame → Progress.Settles A W frame (t s) (t' s)

/-- A task that keeps the log in order can be what comes next. -/
theorem Keeps.follows {t t' : Task α} (h : Keeps A A.outstanding t t') :
    Progress.Follows A 0 t t' :=
  fun s frame hs => h s frame (by rwa [zero_add] at hs)

theorem Keeps.bind {t t' : Task α} {next next' : α → Task β} (h : Keeps A W t t')
    (hnext : ∀ a, Keeps A W (next a) (next' a)) : Keeps A W (t >>= next) (t' >>= next') :=
  fun s frame hs => (h s frame hs).bind fun a m s frame hm hs =>
    hnext a s frame (by subst hm; rwa [zero_add] at hs)

theorem pure_keeps (a : α) : Keeps A W (Pure.pure a : Task α) (Pure.pure a) :=
  fun _ _ hs => .finished rfl (by rwa [zero_add])

theorem state_keeps : Keeps A W state state :=
  fun _ _ hs => .finished rfl (by rwa [zero_add])

theorem updateScope_keeps (change : Scope → Scope) :
    Keeps A W (updateScope change) (updateScope change) :=
  fun _ _ hs => .finished rfl (by rwa [zero_add])

theorem Keeps.apart {t t' : Task α} (h : Keeps A W t t') (own : Scope) :
    Keeps A W (t.apart own) (t'.apart own) :=
  fun s frame hs => (h { s with scope := own } frame hs).apart s.scope

theorem halt_keeps (why : Halt) : Keeps A W (halt why : Task α) (halt why) :=
  fun _ _ _ => .halted

/-- Sleeping keeps the log in order where nothing has to be owed while waiting. -/
theorem sleep_keeps (hW : W 0) (milliseconds : Nat) :
    Keeps A W (sleep milliseconds) (sleep milliseconds) := by
  intro s frame hs
  unfold sleep
  by_cases hnone : milliseconds = 0
  · rw [if_pos hnone]
    exact .finished rfl (by rwa [zero_add])
  · rw [if_neg hnone]
    exact .waiting hW (by rwa [zero_add]) fun _ _ hnow => .finished rfl hnow

theorem join_keeps {ts ts' : List (Task (Except ε α))}
    (h : List.Forall₂ (Keeps A A.outstanding) ts ts') :
    Keeps A A.outstanding (join ts) (join ts') := by
  induction h with
  | nil => exact pure_keeps _
  | @cons t t' rest rest' ht _ ih =>
    intro s frame hs
    unfold join
    dsimp only
    rw [← Progress.map_unlessFailed, ← Progress.map_unlessFailed]
    refine (Progress.unlessFailed_beside_keeps (v := 0) ?_ ih.follows ?_).map _
    · intro s frame hs
      rwa [zero_add] at hs
    · rw [zero_add]
      exact ht s frame hs

theorem joinInOrderFrom_keeps {ts ts' : List (Task (Except ε α))}
    (h : List.Forall₂ (Keeps A A.outstanding) ts ts') {frame : M}
    {started started' : Progress (Except ε (List α))}
    (hstarted : Progress.Settles A A.outstanding frame started started') :
    Progress.Settles A A.outstanding frame (joinInOrderFrom ts started)
      (joinInOrderFrom ts' started') := by
  induction h generalizing started started' with
  | nil => exact hstarted.settle
  | @cons t t' rest rest' ht _ ih =>
    refine ih ?_
    rw [← Progress.map_unlessFailed, ← Progress.map_unlessFailed]
    refine (Progress.unlessFailed_beside_keeps (v := 0) ?_ ht.follows ?_).map _
    · intro s frame hs
      rwa [zero_add] at hs
    · rwa [zero_add]

/-- Work side by side keeps the log in order if each part does. -/
theorem together_keeps {ts ts' : List (Task (Except ε α))}
    (h : List.Forall₂ (Keeps A A.outstanding) ts ts') :
    Keeps A A.outstanding (together ts) (together ts') := by
  unfold together
  rw [h.length_eq]
  by_cases hfew : ts'.length ≤ joinLimit
  · rw [if_pos hfew, if_pos hfew]
    exact join_keeps h
  · rw [if_neg hfew, if_neg hfew]
    intro s frame hs
    exact (joinInOrderFrom_keeps h (.finished rfl (by rwa [zero_add]))).map _

end Task

end StepScript
