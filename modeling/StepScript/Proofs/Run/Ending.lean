import Mathlib.Algebra.Order.PUnit
import StepScript.Proofs.Run.Keeping

/-!
# Ending — how work comes to an end among other work

A piece of work that waits goes on with whatever state the others have left.  `Progress.Ends` holds
of every result that the work can have in this way.  Others may do anything to the scope and the
clock; what has been reported stays reported.

* `Progress.ends_bind` takes sequences apart;
* `Progress.Leads` is about work that may not have come to an end yet, `Progress.EndsAmong` about work
  among others of which something is known;
* `Progress.ends_of_complete`: work that runs by itself comes to such an end;
* `ListRun.log_suffix_of_ends`: a list never takes back what was reported before it began.
-/

namespace StepScript

variable {α β : Type}

namespace Progress

/-- Work comes to an end with a result in some state, going on with any later state whenever it has
waited. -/
inductive Ends : Progress α → α → RunState → Prop
  | finished (a : α) (s : RunState) : Ends (.finished a s) a s
  | waiting {due order : Nat} {s now s' : RunState} {resume : RunState → Progress α} {a : α} :
      s.log <:+ now.log → Ends (resume now) a s' → Ends (.waiting due order s resume) a s'

/-- Finished work has ended with its result. -/
theorem ends_finished {a b : α} {s s' : RunState} :
    (Progress.finished a s).Ends b s' ↔ b = a ∧ s' = s := by
  constructor
  · intro h
    cases h
    exact ⟨rfl, rfl⟩
  · rintro ⟨rfl, rfl⟩
    exact .finished _ _

theorem Ends.bind {p : Progress α} {next : α → RunState → Progress β} {a : α} {b : β}
    {s s' : RunState} (h : p.Ends a s) (hnext : (next a s).Ends b s') : (p.bind next).Ends b s' := by
  induction h with
  | finished a s => exact hnext
  | waiting hlog _ ih => exact .waiting hlog (ih hnext)

/-- Work and what comes next end exactly if both do, one after the other. -/
theorem ends_bind {p : Progress α} {next : α → RunState → Progress β} {b : β} {s' : RunState} :
    (p.bind next).Ends b s' ↔ ∃ a s, p.Ends a s ∧ (next a s).Ends b s' := by
  constructor
  · intro h
    induction p with
    | finished a s => exact ⟨a, s, .finished a s, h⟩
    | waiting due order s resume ih =>
      cases h with
      | waiting hlog hresume =>
        rcases ih _ hresume with ⟨a, t, hends, hnext⟩
        exact ⟨a, t, .waiting hlog hends, hnext⟩
    | halted why => cases h
  · rintro ⟨a, s, h, hnext⟩
    exact h.bind hnext

/-- Work that runs by itself comes to an end. -/
theorem ends_of_complete {p : Progress α} {a : α} {s' : RunState}
    (h : p.complete = .ok (a, s')) : p.Ends a s' := by
  induction p with
  | finished b s =>
    cases h
    exact .finished _ _
  | waiting due order s resume ih =>
    -- by itself, it goes on with the state that it has left
    refine .waiting ?_ (ih _ h)
    exact List.suffix_refl _
  | halted why => cases h

/-- Work has come to some point, having gone on with the given states, one for each time that it has
waited. -/
inductive Leads : Progress α → List RunState → Progress α → Prop
  | here (p : Progress α) : Leads p [] p
  | on {due order : Nat} {s now : RunState} {path : List RunState}
      {resume : RunState → Progress α} {q : Progress α} :
      s.log <:+ now.log → Leads (resume now) path q →
      Leads (.waiting due order s resume) (now :: path) q

theorem Leads.bind {p q : Progress α} {path : List RunState} (h : p.Leads path q)
    (next : α → RunState → Progress β) : (p.bind next).Leads path (q.bind next) := by
  induction h with
  | here p => exact .here _
  | on hlog _ ih => exact .on hlog ih

/-- A sequence is still in its first part, or that has come to an end on the way. -/
theorem leads_bind {p : Progress α} {next : α → RunState → Progress β} {path : List RunState}
    {q : Progress β} (h : (p.bind next).Leads path q) :
    (∃ r, p.Leads path r ∧ q = r.bind next) ∨
      ∃ a s before after, path = before ++ after ∧ p.Leads before (.finished a s) ∧
        (next a s).Leads after q := by
  induction p generalizing path with
  | finished a s => exact .inr ⟨a, s, [], path, rfl, .here _, h⟩
  | waiting due order s resume ih =>
    cases h with
    | here => exact .inl ⟨_, .here _, rfl⟩
    | @on _ _ _ now path _ _ hlog hresume =>
      rcases ih now hresume with ⟨r, hr, rfl⟩ | ⟨a, t, before, after, rfl, hbefore, hafter⟩
      · exact .inl ⟨r, .on hlog hr, rfl⟩
      · exact .inr ⟨a, t, now :: before, after, rfl, .on hlog hbefore, hafter⟩
  | halted why =>
    cases h
    exact .inl ⟨.halted why, .here _, rfl⟩

/-- A point at which work is finished is an end of it. -/
theorem Leads.ends {p : Progress α} {path : List RunState} {a : α} {s' : RunState}
    (h : p.Leads path (.finished a s')) : p.Ends a s' := by
  induction path generalizing p with
  | nil =>
    cases h
    exact .finished _ _
  | cons now rest ih =>
    cases h with
    | on hlog hresume => exact .waiting hlog (ih hresume)

/-- A path of states leads to one end at most. -/
theorem Leads.unique {p : Progress α} {path : List RunState} {a b : α} {s t : RunState}
    (h : p.Leads path (.finished a s)) (h' : p.Leads path (.finished b t)) : a = b ∧ s = t := by
  induction path generalizing p with
  | nil =>
    cases h
    cases h'
    exact ⟨rfl, rfl⟩
  | cons now rest ih =>
    cases h with
    | on _ hresume =>
      cases h' with
      | on _ hresume' => exact ih hresume hresume'

theorem leads_nil {p q : Progress α} : p.Leads [] q ↔ p = q := by
  constructor
  · intro h
    cases h
    rfl
  · rintro rfl
    exact .here _

end Progress

/-! ## Among other work -/

/-- What others may do to a state while work waits until some time. -/
abbrev Moves := Nat → RunState → RunState → Prop

namespace Moves

def alone : Moves :=
  fun due s now => now = { s with clock := max s.clock due }

/-- Others only add to what was reported, and nothing else that they do depends on it. -/
def Blind (moves : Moves) : Prop :=
  ∀ ⦃due s now⦄, moves due s now → ∃ new, now.log = new ++ s.log ∧
    ∀ log, moves due { s with log := log } { now with log := new ++ log }

/-- A clock that only moves depends on no report. -/
theorem alone_blind : alone.Blind := by
  rintro due s _ rfl
  exact ⟨[], rfl, fun _ => rfl⟩

end Moves

namespace Progress

/-- Work comes to an end among others that move in some way. -/
inductive EndsAmong (moves : Moves) : Progress α → α → RunState → Prop
  | finished (a : α) (s : RunState) : EndsAmong moves (.finished a s) a s
  | waiting {due order : Nat} {s now s' : RunState} {resume : RunState → Progress α} {a : α} :
      moves due s now → EndsAmong moves (resume now) a s' →
      EndsAmong moves (.waiting due order s resume) a s'

variable {moves : Moves}

theorem EndsAmong.bind {p : Progress α} {next : α → RunState → Progress β} {a : α} {b : β}
    {s s' : RunState} (h : p.EndsAmong moves a s) (hnext : (next a s).EndsAmong moves b s') :
    (p.bind next).EndsAmong moves b s' := by
  induction h with
  | finished a s => exact hnext
  | waiting hmoves _ ih => exact .waiting hmoves (ih hnext)

/-- Work and what comes next end among others only if both do. -/
theorem endsAmong_bind {p : Progress α} {next : α → RunState → Progress β} {b : β} {s' : RunState}
    (h : (p.bind next).EndsAmong moves b s') :
    ∃ a s, p.EndsAmong moves a s ∧ (next a s).EndsAmong moves b s' := by
  induction p with
  | finished a s => exact ⟨a, s, .finished a s, h⟩
  | waiting due order s resume ih =>
    cases h with
    | waiting hmoves hresume =>
      rcases ih _ hresume with ⟨a, t, hends, hnext⟩
      exact ⟨a, t, .waiting hmoves hends, hnext⟩
  | halted why => cases h

/-- An end among others that are blind is an end of the work. -/
theorem EndsAmong.ends (hblind : moves.Blind) {p : Progress α} {a : α} {s' : RunState}
    (h : p.EndsAmong moves a s') : p.Ends a s' := by
  induction h with
  | finished a s => exact .finished a s
  | waiting hmoves _ ih =>
    rcases hblind hmoves with ⟨new, hlog, -⟩
    exact .waiting ⟨new, hlog.symm⟩ ih

/-- Work that runs by itself is work without others. -/
theorem endsAmong_alone {p : Progress α} {a : α} {s' : RunState} :
    p.EndsAmong .alone a s' ↔ p.complete = .ok (a, s') := by
  constructor
  · intro h
    induction h with
    | finished a s => rfl
    | waiting hmoves _ ih =>
      cases hmoves
      exact ih
  · intro h
    induction p with
    | finished b s =>
      cases h
      exact .finished _ _
    | waiting due order s resume ih => exact .waiting rfl (ih _ h)
    | halted why => cases h

/-- Work that completes has completed its first part before. -/
theorem complete_bind {p : Progress α} {next : α → RunState → Progress β} {b : β} {s' : RunState}
    (h : (p.bind next).complete = .ok (b, s')) :
    ∃ a s, p.complete = .ok (a, s) ∧ (next a s).complete = .ok (b, s') := by
  rcases endsAmong_bind (endsAmong_alone.2 h) with ⟨a, s, hp, hnext⟩
  exact ⟨a, s, endsAmong_alone.1 hp, endsAmong_alone.1 hnext⟩

end Progress

/-- Tasks one after the other end exactly if both do. -/
theorem Task.ends_bind {t : Task α} {next : α → Task β} {b : β} {s s' : RunState} :
    ((t >>= next) s).Ends b s' ↔ ∃ a s₁, (t s).Ends a s₁ ∧ (next a s₁).Ends b s' :=
  Progress.ends_bind

/-- A sequence of attempts fails with its first part or comes to the end of its second one. -/
theorem Attempt.ends_bind {t : Attempt α} {next : α → Attempt β} {result : Except Failure β}
    {s s' : RunState} (h : ((t >>= next).run s).Ends result s') :
    (∃ e, (t.run s).Ends (.error e) s' ∧ result = .error e) ∨
      ∃ a s₁, (t.run s).Ends (.ok a) s₁ ∧ ((next a).run s₁).Ends result s' := by
  rw [run_bind] at h
  rcases Progress.ends_bind.1 h with ⟨first, s₁, hfirst, hrest⟩
  cases first with
  | ok a => exact .inr ⟨a, s₁, hfirst, hrest⟩
  | error e =>
    cases hrest
    exact .inl ⟨e, hfirst, rfl⟩

/-- Attempts one after the other succeed exactly if both do. -/
theorem Attempt.ends_ok_bind {t : Attempt α} {next : α → Attempt β} {b : β} {s s' : RunState} :
    ((t >>= next).run s).Ends (.ok b) s' ↔
      ∃ a s₁, (t.run s).Ends (.ok a) s₁ ∧ ((next a).run s₁).Ends (.ok b) s' := by
  constructor
  · intro h
    rcases ends_bind h with ⟨e, -, herror⟩ | hok
    · cases herror
    · exact hok
  · rintro ⟨a, s₁, hfirst, hrest⟩
    rw [run_bind]
    exact hfirst.bind hrest

/-- Work ends with or without telling what was going on. -/
theorem Attempt.ends_during {t : Attempt α} {circumstance : Circumstance}
    {result : Except Failure α} {s s' : RunState}
    (h : ((during circumstance t).run s).Ends result s') : ∃ found, (t.run s).Ends found s' := by
  rcases Task.ends_bind.1 h with ⟨found, s₁, hfound, hrest⟩
  cases found with
  | ok a =>
    cases hrest
    exact ⟨_, hfound⟩
  | error e =>
    cases hrest
    exact ⟨_, hfound⟩

/-- A sequence of attempts is at its second part once the first one has succeeded. -/
theorem Attempt.leads_bind {t : Attempt α} {next : α → Attempt β} {path : List RunState} {a : α}
    {s s' : RunState} (h : (t.run s).Leads path (.finished (.ok a) s')) :
    ((t >>= next).run s).Leads path ((next a).run s') := by
  rw [run_bind]
  exact h.bind _

theorem Attempt.leads_during (circumstance : Circumstance) {t : Attempt α} {path : List RunState}
    {a : α} {s s' : RunState} (h : (t.run s).Leads path (.finished (.ok a) s')) :
    ((during circumstance t).run s).Leads path (.finished (.ok a) s') :=
  h.bind _

/-- Evaluating an expression changes nothing. -/
theorem Attempt.ends_expression {find : Scope → Except ExpressionError Value} {s t : RunState}
    {result : Except Failure Value} (h : ((expression find).run s).Ends result t) : t = s := by
  cases hfind : find s.scope with
  | ok v =>
    rw [run_expression hfind] at h
    cases h
    rfl
  | error e =>
    rw [run_expression_error hfind] at h
    by_cases hcrash : e.isCrash = true
    · rw [if_pos hcrash] at h
      cases h
    · rw [if_neg hcrash] at h
      cases h
      rfl

/-! ## The log only grows -/

def Accounting.growth (base : List Event) : Accounting Unit where
  holds log _ _ := base <:+ log
  outstanding _ := True
  cuts := False
  outstanding_add _ _ := trivial
  drop _ h := h

/-- What was reported before is still there in the end. -/
theorem Progress.suffix_of_ends {base : List Event} {W : Unit → Prop} {Q : α → Unit → Prop}
    {frame : Unit} {p p' : Progress α}
    (h : Progress.Keeps (Accounting.growth base) W Q frame p p') {a : α} {s' : RunState}
    (hends : p'.Ends a s') : base <:+ s'.log := by
  induction h with
  | finished hq hs =>
    cases hends
    exact hs
  | waiting hw hs hresume ih =>
    cases hends with
    | waiting hlog hends => exact ih _ () (List.IsSuffix.trans hs hlog) hends
  | halted => cases hends
  | cut hcut => exact absurd hcut id

def Engine.Grows (e : Engine) : Prop :=
  ∀ base, Engine.Keep (Accounting.growth base) e e

namespace ListRun

variable {setup : Setup}

/-- Reports are only added to the log. -/
theorem growth_free (base : List Event) : Free (Accounting.growth base) where
  report _ h := List.suffix_cons_iff.2 (Or.inr h)
  outstanding _ := trivial

/-- The visits of a list only add to the log. -/
theorem visits_grow (base : List Event) : VisitsKeep (Accounting.growth base) setup :=
  (growth_free base).visits

/-- Nothing that the engine does takes anything off the log. -/
theorem engine_grows (setup : Setup) (depth : Nat) : (engine setup depth).Grows :=
  fun base => engine_keeps (visits_grow base) depth

/-- The log in which a task begins is the end of the one in which it ends. -/
theorem log_suffix_of_ends {t : Task α} {a : α} {s s' : RunState}
    (h : ∀ base, Task.Keeps (Accounting.growth base) (fun _ => True) t t)
    (hends : (t s).Ends a s') : s.log <:+ s'.log :=
  Progress.suffix_of_ends (h s.log s () (List.suffix_refl _)) hends

end ListRun

end StepScript
