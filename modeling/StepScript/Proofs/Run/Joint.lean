import StepScript.Proofs.Run.Ending

/-!
# Joint — tasks side by side, in whatever order they move

Tasks that run side by side share one state.  In a joint run any of them may begin or go on next, and
others may move in between; nothing is said about when.  The way in which tasks are put side by side
chooses one of these runs, and collects the results of the tasks by their places.

* `Strand` is one of the tasks, and how far it has come; `Joint` is a run of several of them;
* `Progress.Joins` says that work is a joint run of strands and that its result fits them; it is kept by
  sequences (`Joins.bind`), by settling and by putting work side by side (`joins_beside`);
* `Task.together_joins`: tasks side by side end with the results of all strands, in the order of the
  tasks, or with the failure of one of them.
-/

namespace StepScript

variable {ε α β γ δ : Type}

/-! ## Strands -/

/-- The state in which work that has begun in some state leaves the run. -/
def Progress.leaves (p : Progress α) (s : RunState) : RunState :=
  match p with
  | .finished _ t => t
  | .waiting _ _ t _ => t
  | .halted _ => s

/-- One of several tasks side by side: it has not begun, or has come some way. -/
inductive Strand (ε α : Type) where
  | idle (task : Task (Except ε α))
  | begun (progress : Progress (Except ε α))

namespace Strand

def result? : Strand ε α → Option (Except ε α)
  | .begun (.finished result _) => some result
  | _ => none

def IsHalted : Strand ε α → Prop
  | .begun (.halted _) => True
  | _ => False

/-- A strand begins, or goes on after it has waited, with the state that it finds. -/
inductive Advances : Strand ε α → RunState → Strand ε α → RunState → Prop
  | begin (t : Task (Except ε α)) (s : RunState) :
      Advances (.idle t) s (.begun (t s)) ((t s).leaves s)
  | resume {due order : Nat} {left : RunState} (resume : RunState → Progress (Except ε α))
      (s : RunState) :
      Advances (.begun (.waiting due order left resume)) s (.begun (resume s)) ((resume s).leaves s)

def Failed (strands : List (Strand ε α)) (e : ε) : Prop :=
  some (.error e) ∈ strands.map result?

/-- All of several strands have ended with some values, each with the one at its place. -/
def Passed (strands : List (Strand ε α)) (values : List α) : Prop :=
  strands.map result? = values.map fun v => some (.ok v)

/-- A strand that has failed is one of more strands, too. -/
theorem Failed.append {left : List (Strand ε α)} {e : ε} (h : Failed left e)
    (right : List (Strand ε α)) : Failed (left ++ right) e := by
  unfold Failed at h ⊢
  rw [List.map_append]
  exact List.mem_append_left _ h

theorem Failed.behind {right : List (Strand ε α)} {e : ε} (h : Failed right e)
    (left : List (Strand ε α)) : Failed (left ++ right) e := by
  unfold Failed at h ⊢
  rw [List.map_append]
  exact List.mem_append_right _ h

/-- Two groups of strands that have passed have passed together, with the values of both. -/
theorem Passed.append {left right : List (Strand ε α)} {vs ws : List α} (hleft : Passed left vs)
    (hright : Passed right ws) : Passed (left ++ right) (vs ++ ws) := by
  unfold Passed at hleft hright ⊢
  rw [List.map_append, List.map_append, hleft, hright]

/-- No strand fails where all of them pass. -/
theorem Passed.not_failed {strands : List (Strand ε α)} {vs : List α} (h : Passed strands vs) (e : ε) :
    ¬ Failed strands e := by
  intro hfailed
  unfold Failed at hfailed
  rw [h] at hfailed
  simp at hfailed

/-- A strand that has passed has come to an end. -/
theorem Passed.not_halted {strands : List (Strand ε α)} {vs : List α} (h : Passed strands vs)
    {p : Strand ε α} (hp : p ∈ strands) : ¬ p.IsHalted := by
  intro hhalted
  have hresult : p.result? ∈ vs.map fun v => some (Except.ok v) :=
    h ▸ List.mem_map_of_mem (f := result?) hp
  obtain ⟨v, -, hv⟩ := List.mem_map.1 hresult
  -- a strand that is halted has no result
  cases p with
  | idle t => cases hhalted
  | begun progress =>
    cases progress with
    | halted why => cases hv
    | finished result t => cases hhalted
    | waiting due order t resume => cases hhalted

/-- Strands pass with one list of values. -/
theorem Passed.unique {strands : List (Strand ε α)} {vs ws : List α} (h : Passed strands vs)
    (h' : Passed strands ws) : vs = ws := by
  have hinjective : Function.Injective fun v : α => some (Except.ok v : Except ε α) := by
    intro v w hvw
    cases hvw
    rfl
  exact List.map_injective_iff.2 hinjective (h.symm.trans h')

/-- There are as many values as strands. -/
theorem Passed.length_eq {strands : List (Strand ε α)} {vs : List α} (h : Passed strands vs) :
    strands.length = vs.length := by
  have hlength := congrArg List.length h
  rwa [List.length_map, List.length_map] at hlength

end Strand

/-- A joint run of strands among others that move in some way.  A failure may drop what still waits. -/
inductive Joint (others : Moves) :
    List (Strand ε α) → RunState → List (Strand ε α) → RunState → Prop
  | here (strands : List (Strand ε α)) (s : RunState) : Joint others strands s strands s
  | advance {before after strands : List (Strand ε α)} {p q : Strand ε α} {s t s' : RunState} :
      p.Advances s q t → Joint others (before ++ q :: after) t strands s' →
      Joint others (before ++ p :: after) s strands s'
  | others {strands strands' : List (Strand ε α)} {due : Nat} {s now s' : RunState} :
      others due s now → Joint others strands now strands' s' → Joint others strands s strands' s'
  | dropped {strands strands' : List (Strand ε α)} {e : ε} {s s' : RunState} :
      Strand.Failed strands e → Joint others strands s.drop strands' s' →
      Joint others strands s strands' s'

/-- No strand comes or goes. -/
theorem Joint.length_eq {others : Moves} {strands strands' : List (Strand ε α)} {s s' : RunState}
    (h : Joint others strands s strands' s') : strands'.length = strands.length := by
  induction h with
  | here strands s => rfl
  | advance _ _ ih => simpa using ih
  | others _ _ ih => exact ih
  | dropped _ _ ih => exact ih

namespace Progress

/-! ## Work that is a joint run -/

/-- Work is a joint run of strands, and a result that it ends with fits what these have come to. -/
inductive Joins (fits : List (Strand ε α) → β → Prop) :
    List (Strand ε α) → RunState → Progress β → Prop
  | finished {strands : List (Strand ε α)} {b : β} {s : RunState} :
      fits strands b → Joins fits strands s (.finished b s)
  | waiting {strands : List (Strand ε α)} {due order : Nat} {s : RunState}
      {resume : RunState → Progress β} :
      (∀ now, Joins fits strands now (resume now)) →
      Joins fits strands s (.waiting due order s resume)
  | halted {strands : List (Strand ε α)} {s : RunState} {why : Halt} :
      (∃ p ∈ strands, p.IsHalted) → Joins fits strands s (.halted why)
  | advance {before after : List (Strand ε α)} {p q : Strand ε α} {s t : RunState}
      {w : Progress β} :
      p.Advances s q t → Joins fits (before ++ q :: after) t w →
      Joins fits (before ++ p :: after) s w
  | dropped {strands : List (Strand ε α)} {e : ε} {s : RunState} {w : Progress β} :
      Strand.Failed strands e → Joins fits strands s.drop w → Joins fits strands s w

variable {fits : List (Strand ε α) → β → Prop} {fits' : List (Strand ε α) → γ → Prop}
  {strands front back L R : List (Strand ε α)} {s : RunState}

/-- Other strands stay where they are while some move, and work goes on with the result of these. -/
theorem Joins.bind {p : Progress β} {next : β → RunState → Progress γ} (h : Joins fits strands s p)
    (hnext : ∀ strands' b t, fits strands' b → Joins fits' (front ++ strands' ++ back) t (next b t)) :
    Joins fits' (front ++ strands ++ back) s (p.bind next) := by
  induction h with
  | finished hfits => exact hnext _ _ _ hfits
  | waiting _ ih => exact .waiting ih
  | halted hhalted =>
    obtain ⟨p, hp, hhalted⟩ := hhalted
    exact .halted ⟨p, by simp [hp], hhalted⟩
  | @advance before after p q s t w hadvance _ ih =>
    have hmove : Joins fits' ((front ++ before) ++ q :: (after ++ back)) t (w.bind next) := by
      simpa using ih
    simpa using Joins.advance hadvance hmove
  | dropped hfailed _ ih => exact .dropped ((hfailed.behind front).append back) ih

theorem Joins.map {p : Progress β} {f : β → γ} (h : Joins fits strands s p)
    (hfits : ∀ strands b, fits strands b → fits' strands (f b)) : Joins fits' strands s (p.map f) := by
  have hnext (strands' : List (Strand ε α)) (b : β) (t : RunState) (hb : fits strands' b) :
      Joins fits' ([] ++ strands' ++ []) t (.finished (f b) t) := by
    rw [List.nil_append, List.append_nil]
    exact .finished (hfits _ _ hb)
  have hmap := h.bind hnext
  rw [List.nil_append, List.append_nil] at hmap
  exact hmap

/-- Letting everything go on that is due is a part of the joint run. -/
theorem Joins.settle {p : Progress β} (h : Joins fits strands s p) : Joins fits strands s p.settle := by
  induction h with
  | finished hfits => exact .finished hfits
  | @waiting strands due order s resume _ ih =>
    unfold Progress.settle
    by_cases hdue : due ≤ s.clock
    · simpa [hdue] using ih s
    · simpa [hdue] using Joins.waiting ih
  | halted hhalted => exact .halted hhalted
  | advance hadvance _ ih => exact .advance hadvance ih
  | dropped hfailed _ ih => exact .dropped hfailed ih

/-! ## Collecting results -/

/-- A result collects those of strands: the values of all of them, or the failure of one. -/
def Collects (values : β → List α) (strands : List (Strand ε α)) : Except ε β → Prop
  | .ok b => Strand.Passed strands (values b)
  | .error e => Strand.Failed strands e

variable {values : β → List α} {values' : γ → List α}

/-- A task by itself is a joint run of itself. -/
theorem joins_idle (t : Task (Except ε α)) (s : RunState) :
    Joins (Collects fun a => [a]) [.idle t] s (t s) := by
  have hbegun (p : Progress (Except ε α)) (s : RunState) :
      Joins (Collects fun a => [a]) [.begun p] (p.leaves s) p := by
    induction p generalizing s with
    | finished result t =>
      cases result with
      | ok a => exact .finished rfl
      | error e => exact .finished (List.mem_singleton_self _)
    | waiting due order t resume ih =>
      refine .waiting fun now => ?_
      have hrest : Joins (Collects fun a => [a]) ([] ++ [.begun (resume now)])
          ((resume now).leaves now) (resume now) := ih now now
      exact .advance (.resume resume now) hrest
    | halted why => exact .halted ⟨_, List.mem_singleton_self _, trivial⟩
  have hrest : Joins (Collects fun a => [a]) ([] ++ [.begun (t s)]) ((t s).leaves s) (t s) :=
    hbegun (t s) s
  exact .advance (.begin t s) hrest

/-- A result that is changed collects the same values, if the change leaves them as they are. -/
theorem Collects.map {result : Except ε β} (f : β → γ) (hvalues : ∀ b, values' (f b) = values b)
    (h : Collects values strands result) : Collects values' strands (result.map f) := by
  cases result with
  | ok b =>
    change Strand.Passed strands (values' (f b))
    rw [hvalues]
    exact h
  | error e => exact h

/-! ## Side by side -/

def pairedValues (values : β → List α) (values' : γ → List α) (p : β × γ) : List α :=
  values p.1 ++ values' p.2

section Beside

variable {manner : Manner} {due order : Nat}

/-- A value in front of the results of strands is one for the strands in front of them. -/
theorem Collects.pairWith {b : β} {result : Except ε γ} (hleft : Strand.Passed L (values b))
    (hright : Collects values' R result) :
    Collects (pairedValues values values') (L ++ R) (Progress.pairWith b result) := by
  cases result with
  | ok c => exact hleft.append hright
  | error e => exact Strand.Failed.behind hright L

/-- Results of two groups collect those of all strands. -/
theorem Collects.pairResults {first : Except ε β} {result : Except ε γ}
    (hleft : Collects values L first) (hright : Collects values' R result) :
    Collects (pairedValues values values') (L ++ R) (Progress.pairResults first result) := by
  cases first with
  | ok b => exact Collects.pairWith hleft hright
  | error e => exact Strand.Failed.append hleft R

/-- The left part waits on with what the right part has come to, or a failure of that ends both. -/
theorem waitOn_joins {resume : RunState → Progress (Except ε β)} {result : Except ε γ}
    (hleft : ∀ now, Joins (Collects values) L now (resume now))
    (hright : Collects values' R result) (s : RunState) :
    Joins (Collects (pairedValues values values')) (L ++ R) s
      (waitOn manner due order resume result s) := by
  have hwaiting : Joins (Collects values) L s (.waiting due order s resume) := .waiting hleft
  have hpair (L' : List (Strand ε α)) (first : Except ε β) (t : RunState)
      (hfirst : Collects values L' first) :
      Joins (Collects (pairedValues values values')) ([] ++ L' ++ R) t
        (.finished (Progress.pairResults first result) t) :=
    .finished (Collects.pairResults hfirst hright)
  unfold waitOn
  split
  · rename_i e hfails
    have hfailed : Strand.Failed (L ++ R) e := Strand.Failed.behind hright L
    exact .dropped hfailed (.finished hfailed)
  · exact hwaiting.bind hpair

/-- The right part moves while the left part waits. -/
theorem besideWaiting_joins
    {moveLeft : RunState → (RunState → Progress (Except ε γ)) → Progress (Except ε (β × γ))}
    {leftAlone : Except ε γ → RunState → Progress (Except ε (β × γ))}
    {right : Progress (Except ε γ)}
    (hmove : ∀ R now next, (∀ t, Joins (Collects values') R t (next t)) →
      Joins (Collects (pairedValues values values')) (L ++ R) now (moveLeft now next))
    (halone : ∀ R result t, Collects values' R result →
      Joins (Collects (pairedValues values values')) (L ++ R) t (leftAlone result t))
    (h : Joins (Collects values') R s right) :
    Joins (Collects (pairedValues values values')) (L ++ R) s
      (besideWaiting manner due order moveLeft leftAlone right) := by
  induction h with
  | finished hresult => exact halone _ _ _ hresult
  | @waiting R due' order' s resume hresume ih =>
    refine .waiting fun now => ?_
    -- either the left part moves, and the right part after it, or only the right part does
    by_cases hleft : manner.leftMoves due order due' order' now.clock = true
    · rw [if_pos hleft]
      apply hmove
      intro t
      by_cases hfollows : manner.rightFollows due' now.clock = true
      · rw [if_pos hfollows]
        exact hresume t
      · rw [if_neg hfollows]
        exact .waiting hresume
    · rw [if_neg hleft]
      exact ih now
  | halted hhalted =>
    obtain ⟨p, hp, hhalted⟩ := hhalted
    exact .halted ⟨p, List.mem_append_right _ hp, hhalted⟩
  | @advance before after p q s t w hadvance _ ih =>
    rw [← List.append_assoc] at ih ⊢
    exact .advance hadvance ih
  | dropped hfailed _ ih => exact .dropped (hfailed.behind L) ih

/-- Two parts side by side are a joint run of the strands of both. -/
theorem joins_beside {left : Progress (Except ε β)} {right : RunState → Progress (Except ε γ)}
    {leave : RunState → RunState} (hleave : leave = id ∨ leave = RunState.drop)
    (hleft : Joins (Collects values) L s left)
    (hright : ∀ t, Joins (Collects values') R t (right t)) :
    Joins (Collects (pairedValues values values')) (L ++ R) s
      (left.unlessFailed leave fun t => left.beside manner (right t)) := by
  -- by induction on the left part; the right part is whatever is left of it when the left one moves
  induction hleft generalizing R right leave with
  | @finished L result s hresult =>
    cases result with
    | ok b =>
      have hpair (R' : List (Strand ε α)) (second : Except ε γ) (t : RunState)
          (hsecond : Collects values' R' second) :
          Joins (Collects (pairedValues values values')) (L ++ R' ++ []) t
            (.finished (Progress.pairWith b second) t) := by
        rw [List.append_nil]
        exact .finished (Collects.pairWith hresult hsecond)
      have hrest := (hright s).bind hpair
      rw [List.append_nil] at hrest
      exact hrest
    | error e =>
      have hfailed : Strand.Failed (L ++ R) e := Strand.Failed.append hresult R
      rcases hleave with rfl | rfl
      · exact .finished hfailed
      · exact .dropped hfailed (.finished hfailed)
  | @waiting L due order s resume hresume ih =>
    have hmove (R' : List (Strand ε α)) (now : RunState)
        (next : RunState → Progress (Except ε γ))
        (hnext : ∀ t, Joins (Collects values') R' t (next t)) :
        Joins (Collects (pairedValues values values')) (L ++ R') now
          ((resume now).unlessFailed RunState.drop fun t => (resume now).beside manner (next t)) :=
      ih now (.inr rfl) hnext
    have halone (R' : List (Strand ε α)) (result : Except ε γ) (t : RunState)
        (hresult : Collects values' R' result) :
        Joins (Collects (pairedValues values values')) (L ++ R') t
          (waitOn manner due order resume result t) :=
      waitOn_joins hresume hresult t
    exact besideWaiting_joins hmove halone (hright s)
  | halted hhalted =>
    obtain ⟨p, hp, hhalted⟩ := hhalted
    exact .halted ⟨p, List.mem_append_left _ hp, hhalted⟩
  | @advance before after p q s t w hadvance _ ih =>
    have hmove := ih hleave hright
    rw [List.append_assoc, List.cons_append] at hmove ⊢
    exact .advance hadvance hmove
  | dropped hfailed _ ih => exact .dropped (hfailed.append R) (ih hleave hright)

end Beside

end Progress

namespace Task

open Progress

def strands (tasks : List (Task (Except ε α))) : List (Strand ε α) :=
  tasks.map Strand.idle

/-- Tasks side by side are a joint run in which each task is a strand. -/
theorem join_joins (tasks : List (Task (Except ε α))) (s : RunState) :
    Joins (Collects id) (strands tasks) s (join tasks s) := by
  induction tasks generalizing s with
  | nil => exact .finished (show Strand.Passed [] [] from rfl)
  | cons t rest ih =>
    have hpair : Joins (Collects (pairedValues (fun a => [a]) id)) ([.idle t] ++ strands rest) s
        ((t s).unlessFailed id fun u => (t s).beside .eager (join rest u)) :=
      joins_beside (.inl rfl) (joins_idle t s) ih
    have hjoin : Joins (Collects id) ([.idle t] ++ strands rest) s (Progress.map _ _) :=
      hpair.map fun _ _ => Collects.map (fun r : α × List α => r.1 :: r.2) fun _ => rfl
    rw [map_unlessFailed] at hjoin
    exact hjoin

/-- Tasks that are started behind those under way, whose results come last first. -/
theorem joinInOrderFrom_joins (tasks : List (Task (Except ε α))) {begun : List (Strand ε α)}
    {started : Progress (Except ε (List α))} {s : RunState}
    (hstarted : Joins (Collects List.reverse) begun s started) :
    Joins (Collects List.reverse) (begun ++ strands tasks) s (joinInOrderFrom tasks started) := by
  induction tasks generalizing begun started with
  | nil =>
    rw [strands, List.map_nil, List.append_nil]
    exact hstarted.settle
  | cons t rest ih =>
    have hpair : Joins (Collects (pairedValues List.reverse fun a => [a])) (begun ++ [.idle t]) s
        (started.unlessFailed id fun u => started.beside .ordered (t u)) :=
      joins_beside (.inl rfl) hstarted (joins_idle t)
    have hmore : Joins (Collects List.reverse) (begun ++ [.idle t]) s (Progress.map _ _) :=
      hpair.map fun _ _ =>
        Collects.map (fun r : List α × α => r.2 :: r.1) fun r => by simp [pairedValues]
    rw [map_unlessFailed] at hmore
    have hall := ih hmore
    rw [List.append_assoc] at hall
    exact hall

/-- Tasks side by side are a joint run of all of them, and their results stand in their places. -/
theorem together_joins (tasks : List (Task (Except ε α))) (s : RunState) :
    Joins (Collects id) (strands tasks) s (together tasks s) := by
  unfold together
  by_cases hfew : tasks.length ≤ joinLimit
  · rw [if_pos hfew]
    exact join_joins tasks s
  · rw [if_neg hfew]
    have hnone : Joins (Collects List.reverse) [] s (.finished (.ok []) s) :=
      .finished (show Strand.Passed ([] : List (Strand ε α)) [] from rfl)
    have hall := joinInOrderFrom_joins tasks hnone
    exact hall.map fun _ _ => Collects.map List.reverse fun _ => rfl

end Task

/-! ## Ends of work -/

namespace Progress

/-- Work among others comes to its end: it finishes with a result in some state, or it is halted. -/
inductive Arrives (others : Moves) : Progress β → Except Halt (β × RunState) → Prop
  | finished (b : β) (s : RunState) : Arrives others (.finished b s) (.ok (b, s))
  | halted (why : Halt) : Arrives others (.halted why) (.error why)
  | waiting {due order : Nat} {s now : RunState} {resume : RunState → Progress β}
      {fin : Except Halt (β × RunState)} :
      others due s now → Arrives others (resume now) fin →
      Arrives others (.waiting due order s resume) fin

variable {others : Moves} {fin : Except Halt (β × RunState)}

/-- Work always comes to its end, as long as the others let it go on. -/
theorem exists_arrives (hothers : ∀ due s, ∃ now, others due s now) (p : Progress β) :
    ∃ fin, p.Arrives others fin := by
  induction p with
  | finished b s => exact ⟨_, .finished b s⟩
  | waiting due order s resume ih =>
    obtain ⟨now, hnow⟩ := hothers due s
    obtain ⟨fin, hfin⟩ := ih now
    exact ⟨fin, .waiting hnow hfin⟩
  | halted why => exact ⟨_, .halted why⟩

/-- Work by itself comes to the end to which it is run. -/
theorem arrives_alone {p : Progress β} : p.Arrives .alone fin ↔ p.complete = fin := by
  constructor
  · intro h
    induction h with
    | finished b s => rfl
    | halted why => rfl
    | waiting hnow _ ih =>
      cases hnow
      exact ih
  · rintro rfl
    induction p with
    | finished b s => exact .finished b s
    | waiting due order s resume ih => exact .waiting rfl (ih _)
    | halted why => exact .halted why

/-- The end of work fits what its strands have come to. -/
def Accords (fits : List (Strand ε α) → β → Prop) (strands : List (Strand ε α)) (s : RunState) :
    Except Halt (β × RunState) → Prop
  | .ok (b, t) => t = s ∧ fits strands b
  | .error _ => ∃ p ∈ strands, p.IsHalted

/-- Work that is a joint run of strands comes to an end that fits one. -/
theorem Joins.joint {fits : List (Strand ε α) → β → Prop} {strands : List (Strand ε α)}
    {s : RunState} {p : Progress β} (h : Joins fits strands s p) (hfin : p.Arrives others fin) :
    ∃ strands' s', Joint others strands s strands' s' ∧ Accords fits strands' s' fin := by
  induction h with
  | @finished strands b s hfits =>
    cases hfin
    exact ⟨strands, s, .here _ _, rfl, hfits⟩
  | waiting _ ih =>
    cases hfin with
    | waiting hnow hrest =>
      obtain ⟨strands', s', hjoint, haccords⟩ := ih _ hrest
      exact ⟨strands', s', .others hnow hjoint, haccords⟩
  | @halted strands s why hhalted =>
    cases hfin
    exact ⟨strands, s, .here _ _, hhalted⟩
  | advance hadvance _ ih =>
    obtain ⟨strands', s', hjoint, haccords⟩ := ih hfin
    exact ⟨strands', s', .advance hadvance hjoint, haccords⟩
  | dropped hfailed _ ih =>
    obtain ⟨strands', s', hjoint, haccords⟩ := ih hfin
    exact ⟨strands', s', .dropped hfailed hjoint, haccords⟩

end Progress

end StepScript
