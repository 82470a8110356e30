import StepScript.Proofs.Run.Approximation
import StepScript.Proofs.Run.Ending
import StepScript.Proofs.Run.Numbering
import StepScript.Proofs.Run.Reporting
import StepScript.Proofs.Run.Selection

/-!
# Distinct — no two steps of a run have one number

A step runs the lists of its action one after the other, and it gives each of them numbers of its
own.  So what is reported while one of them runs is told apart from what is reported while the next
one does, by the numbers that lie around it.

`Task.TellsApart` says this of work that runs by itself, and what it reports belongs to a part of the
run; two parts that follow one another must not overlap.  The mark of a key numbers the steps it
asks for after the step under way and the key, and these numbers may be taken already.  They are not
part of the account: `ListRun.keyless` halts a run that comes to such a mark.

* `Performance.perform_tellsApart`: whatever an action runs lies under the number of its step;
* `ListRun.run_distinct`: all steps of a run are told apart by their numbers.
-/

namespace StepScript

variable {α β : Type} {P Q : Bool × String → Prop} {setup : Setup} {e : Engine} {number : String}

/-! ## Events that are told apart -/

/-- Whether an event reports the end of a step, and the number of the step. -/
def Event.tag : Event → Bool × String
  | .before number _ _ => (false, number)
  | .after number _ _ _ _ => (true, number)

/-- The announced numbers are those of the events that are no reports of an end. -/
theorem mem_announced {log : List Event} :
    number ∈ announced log ↔ (false, number) ∈ log.map Event.tag := by
  induction log with
  | nil => simp [announced]
  | cons event log ih => cases event <;> simp [announced, Event.tag, ih]

/-- The reported numbers are those of the other events. -/
theorem mem_reported {log : List Event} :
    number ∈ reported log ↔ (true, number) ∈ log.map Event.tag := by
  induction log with
  | nil => simp [reported]
  | cons event log ih => cases event <;> simp [reported, Event.tag, ih]

/-- Events that are told apart announce each number once and report its end once. -/
theorem nodup_of_tags {log : List Event} (h : (log.map Event.tag).Nodup) :
    (announced log).Nodup ∧ (reported log).Nodup := by
  induction log with
  | nil => exact ⟨.nil, .nil⟩
  | cons event log ih =>
    obtain ⟨hfresh, hrest⟩ := List.nodup_cons.1 h
    obtain ⟨hannounced, hreported⟩ := ih hrest
    cases event with
    | before number raw time =>
      exact ⟨List.nodup_cons.2 ⟨fun hmem => hfresh (mem_announced.1 hmem), hannounced⟩, hreported⟩
    | after number step status scopeNumber time =>
      exact ⟨hannounced, List.nodup_cons.2 ⟨fun hmem => hfresh (mem_reported.1 hmem), hreported⟩⟩

/-- Events of one part of a run that are told apart. -/
structure Apart (P : Bool × String → Prop) (events : List Event) : Prop where
  nodup : (events.map Event.tag).Nodup
  belongs : ∀ event ∈ events, P event.tag

/-- Two parts of a run are told apart together if nothing belongs to both. -/
theorem Apart.append {events others : List Event} (h : Apart P events) (h' : Apart Q others)
    (hdisjoint : ∀ tag, P tag → ¬ Q tag) :
    Apart (fun tag => P tag ∨ Q tag) (others ++ events) where
  nodup := by
    rw [List.map_append, List.nodup_append]
    -- a tag on both sides would belong to both parts of the run
    refine ⟨h'.nodup, h.nodup, fun tag hothers tag' hevents heq => ?_⟩
    obtain ⟨other, hother, rfl⟩ := List.mem_map.1 hothers
    obtain ⟨event, hevent, rfl⟩ := List.mem_map.1 hevents
    refine hdisjoint _ (h.belongs event hevent) ?_
    rw [← heq]
    exact h'.belongs other hother
  belongs event hmem := by
    rcases List.mem_append.1 hmem with hother | hevent
    · exact .inr (h'.belongs event hother)
    · exact .inl (h.belongs event hevent)

/-! ## Work that tells its reports apart -/

namespace Task

/-- What a task reports when it runs by itself is told apart and belongs to a part of the run. -/
def TellsApart (P : Bool × String → Prop) (t : Task α) : Prop :=
  ∀ ⦃s a s'⦄, (t s).complete = .ok (a, s') → ∃ new, s'.log = new ++ s.log ∧ Apart P new

abbrev Silent (t : Task α) : Prop :=
  t.Hides fun _ => true

/-- A task that reports nothing tells everything apart. -/
theorem Silent.tellsApart {t : Task α} (h : t.Silent) : t.TellsApart P := by
  intro s a s' hrun
  have hlog : s'.log = s.log := by simpa using h.filter_log hrun
  exact ⟨[], hlog, .nil, by simp⟩

theorem pure_silent (a : α) : (Pure.pure a : Task α).Silent :=
  hides_congruence.pure a

theorem TellsApart.mono {t : Task α} (h : t.TellsApart P) (hle : ∀ tag, P tag → Q tag) :
    t.TellsApart Q := by
  intro s a s' hrun
  obtain ⟨new, hnew, hapart⟩ := h hrun
  exact ⟨new, hnew, hapart.nodup, fun event hevent => hle _ (hapart.belongs event hevent)⟩

/-- Tasks one after the other tell apart what both report, if nothing belongs to both. -/
theorem TellsApart.bind {t : Task α} {f : α → Task β} (h : t.TellsApart P)
    (hf : ∀ a, (f a).TellsApart Q) (hdisjoint : ∀ tag, P tag → ¬ Q tag) :
    (t >>= f).TellsApart fun tag => P tag ∨ Q tag := by
  intro s b s' hrun
  obtain ⟨a, u, ht, hnext⟩ := Progress.complete_bind hrun
  obtain ⟨new, hnew, hapart⟩ := h ht
  obtain ⟨later, hlater, hapart'⟩ := hf a hnext
  exact ⟨later ++ new, by rw [hlater, hnew, List.append_assoc], hapart.append hapart' hdisjoint⟩

theorem TellsApart.bind_silent {t : Task α} {f : α → Task β} (h : t.TellsApart P)
    (hf : ∀ a, (f a).Silent) : (t >>= f).TellsApart P :=
  (h.bind (fun a => (hf a).tellsApart) fun _ _ => id).mono fun _ => Or.rec id False.elim

theorem Silent.bind_tellsApart {t : Task α} {f : α → Task β} (h : t.Silent)
    (hf : ∀ a, (f a).TellsApart P) : (t >>= f).TellsApart P :=
  (TellsApart.bind h.tellsApart hf fun _ => False.elim).mono fun _ => Or.rec False.elim id

/-- A single event is told apart, having nothing beside it. -/
theorem report_tellsApart (event : Event) : (report event).TellsApart (· = event.tag) := by
  intro s a s' hrun
  cases hrun
  exact ⟨[event], rfl, List.nodup_singleton _, by simp⟩

end Task

namespace Attempt

def TellsApart (P : Bool × String → Prop) (t : Attempt α) : Prop :=
  Task.TellsApart P t.run

def Silent (t : Attempt α) : Prop :=
  Task.Silent t.run

theorem silent_congruence : ActingCongruence (Lifts (Task.Each fun _ => Task.Silent)) :=
  hides_congruence

theorem Silent.tellsApart {t : Attempt α} (h : t.Silent) : t.TellsApart P :=
  Task.Silent.tellsApart h

theorem pure_silent (a : α) : (Pure.pure a : Attempt α).Silent :=
  Task.pure_silent _

theorem put_silent (name : String) (v : Value) : (put name v).Silent :=
  ofTask_lifts Task.hides_congruence.toCongruence (Task.hides_congruence.updateScope _)

theorem fail_silent (e : Failure) : (throw e : Attempt α).Silent :=
  Task.pure_silent _

theorem expression_silent (find : Scope → Except ExpressionError Value) :
    (expression find).Silent :=
  silent_congruence.expression find

theorem TellsApart.mono {t : Attempt α} (h : t.TellsApart P) (hle : ∀ tag, P tag → Q tag) :
    t.TellsApart Q :=
  Task.TellsApart.mono h hle

/-- Telling what was going on is silent. -/
theorem Silent.during {t : Attempt α} (h : t.Silent) (circumstance : Circumstance) :
    (Attempt.during circumstance t).Silent :=
  during_lifts (t := fun _ => t) Task.hides_congruence.toCongruence circumstance h

/-- A failure ends a sequence without another report. -/
theorem tellsApart_next {f : α → Attempt β} (hf : ∀ a, (f a).TellsApart P) :
    ∀ result : Except Failure α, Task.TellsApart P (ExceptT.bindCont f result)
  | .ok a => hf a
  | .error _ => (Task.pure_silent _).tellsApart

theorem silent_next {f : α → Attempt β} (hf : ∀ a, (f a).Silent) :
    ∀ result : Except Failure α, Task.Silent (ExceptT.bindCont f result)
  | .ok a => hf a
  | .error _ => Task.pure_silent _

theorem TellsApart.bind_silent {t : Attempt α} {f : α → Attempt β} (h : t.TellsApart P)
    (hf : ∀ a, (f a).Silent) : (t >>= f).TellsApart P :=
  Task.TellsApart.bind_silent h (silent_next hf)

theorem Silent.bind_tellsApart {t : Attempt α} {f : α → Attempt β} (h : t.Silent)
    (hf : ∀ a, (f a).TellsApart P) : (t >>= f).TellsApart P :=
  Task.Silent.bind_tellsApart h (tellsApart_next hf)

theorem TellsApart.during {t : Attempt α} (h : t.TellsApart P) (circumstance : Circumstance) :
    (Attempt.during circumstance t).TellsApart P := by
  refine Task.TellsApart.bind_silent h fun result => ?_
  cases result with
  | ok a => exact Task.pure_silent _
  | error e => exact Task.pure_silent _

end Attempt

/-! ## Parts of a run that follow one another -/

/-- A number lies within one of the numbers from `index` on. -/
def Numbering.From (numbering : Numbering) (index : Nat) (number : String) : Prop :=
  ∃ i ≥ index, Within (numbering i) number

namespace Numbering

variable {numbering : Numbering} {index : Nat}

theorem From.under (h : numbering.From index number) {outer : String}
    (hextends : numbering.Extends outer) : Under outer number := by
  obtain ⟨i, -, hwithin⟩ := h
  exact (hextends i).trans hwithin

/-- Numbers that are separate do not come back. -/
theorem Separate.not_from (hseparate : numbering.Separate) (h : Within (numbering index) number) :
    ¬ numbering.From (index + 1) number := by
  rintro ⟨i, hi, hwithin⟩
  have hindex : index = i := hseparate h hwithin
  omega

theorem from_of_within_or (h : Within (numbering index) number ∨ numbering.From (index + 1) number) :
    numbering.From index number := by
  rcases h with hwithin | ⟨i, hi, hwithin⟩
  · exact ⟨index, Nat.le_refl index, hwithin⟩
  · exact ⟨i, by omega, hwithin⟩

end Numbering

section Next

variable {numbering : Numbering} {index : Nat}

/-- One number after the other. -/
theorem Task.TellsApart.next (hseparate : numbering.Separate) {t : Task α} {f : α → Task β}
    (h : t.TellsApart (Within (numbering index) ·.2))
    (hf : ∀ a, (f a).TellsApart (numbering.From (index + 1) ·.2)) :
    (t >>= f).TellsApart (numbering.From index ·.2) :=
  (h.bind hf fun _ => hseparate.not_from).mono fun _ => Numbering.from_of_within_or

theorem Attempt.TellsApart.next (hseparate : numbering.Separate) {t : Attempt α}
    {f : α → Attempt β} (h : t.TellsApart (Within (numbering index) ·.2))
    (hf : ∀ a, (f a).TellsApart (numbering.From (index + 1) ·.2)) :
    (t >>= f).TellsApart (numbering.From index ·.2) :=
  Task.TellsApart.next hseparate h (tellsApart_next hf)

end Next

/-! ## Engines -/

/-- An engine whose lists tell their steps apart and that reports nothing else. -/
structure Engine.TellsApart (e : Engine) : Prop where
  list : ∀ steps {numbering : Numbering}, numbering.Separate →
    (e.runList steps numbering).TellsApart (numbering.From 0 ·.2)
  /-- A list of one step has one number. -/
  single : ∀ step bindings numbering,
    (e.runList ⟨[step], bindings⟩ numbering).TellsApart (Within (numbering 0) ·.2)
  store : ∀ name v, (e.store name v).Silent
  properties : ∀ schema recursive v, (PropertyEvaluation.properties e schema recursive v).Silent

/-- Running a list for an action reports what the list does. -/
theorem Engine.runSteps_tellsApart {steps : StepList} {numbering : Numbering}
    (h : (e.runList steps numbering).TellsApart P) :
    (e.runSteps steps numbering).TellsApart P := by
  have hrestore (saved : Option Value) : (restore Scope.stepNumberName saved).Silent :=
    restore_rel Task.hides_congruence _ saved
  have hnested : (e.runNested steps numbering).TellsApart P :=
    Task.Silent.bind_tellsApart Task.hides_congruence.state fun _ => h.bind_silent fun _ =>
      (hrestore _).bind fun _ => Task.pure_silent _
  refine hnested.bind_silent fun result => ?_
  cases result with
  | ok results => exact Task.pure_silent _
  | error e => exact Task.pure_silent _

/-! ## Actions -/

namespace Performance

variable (h : e.TellsApart)

include h

/-- A step that is run by itself is told apart within its number. -/
theorem single_tellsApart (number : String) (bindings : Option Variables) (index : Nat)
    (step : Value) :
    (single e number bindings index step).TellsApart
      (Within (number ++ "." ++ toString index) ·.2) :=
  (Engine.runSteps_tellsApart (h.single step bindings _)).bind_silent fun _ =>
    Attempt.pure_silent _

theorem flow_tellsApart (number name : String) (bindings : Option Variables) (index : Nat)
    (steps : List Value) (current : Value) :
    (flow e number name bindings index steps current).TellsApart
      (Numbering.From (fun i => number ++ "." ++ toString i) index ·.2) := by
  induction steps generalizing index current with
  | nil => exact (Attempt.pure_silent _).tellsApart
  | cons step rest ih =>
    refine (h.store name current).bind_tellsApart fun _ => ?_
    exact (single_tellsApart h number bindings index step).next (Numbering.separate_append _)
      fun result => ih (index + 1) (result.getD current)

theorem decide_tellsApart (number : String) (deciding : Bool) (bindings : Option Variables)
    (index : Nat) (steps : List Value) :
    (decide e number deciding bindings index steps).TellsApart
      (Numbering.From (fun i => number ++ "." ++ toString i) index ·.2) := by
  induction steps generalizing index with
  | nil => exact (Attempt.pure_silent _).tellsApart
  | cons step rest ih =>
    refine (single_tellsApart h number bindings index step).next (Numbering.separate_append _)
      fun result => ?_
    cases result with
    | none => exact ih (index + 1)
    | some v =>
      dsimp only
      split
      · exact (Attempt.pure_silent _).tellsApart
      · exact ih (index + 1)

/-- The rounds of a loop are told apart by the number of the round. -/
theorem rounds_tellsApart (number : String) (kind : LoopKind) (steps : StepList) (round : Nat)
    (entries : List (Value × Value)) :
    (rounds e number kind steps round entries).TellsApart
      (Numbering.From (fun k => number ++ "-" ++ toString k) round ·.2) := by
  induction entries generalizing round with
  | nil => exact (Attempt.pure_silent _).tellsApart
  | cons entry rest ih =>
    obtain ⟨a, b⟩ := entry
    refine (h.store _ _).bind_tellsApart fun _ => (h.store _ _).bind_tellsApart fun _ => ?_
    -- all steps of a round lie under the number of the round
    have hround : (Attempt.during (.iteration round) (e.runSteps steps fun i =>
        number ++ "-" ++ toString round ++ "." ++ toString i)).TellsApart
        (Within (number ++ "-" ++ toString round) ·.2) :=
      ((Engine.runSteps_tellsApart (h.list steps (Numbering.separate_append _))).during _).mono
        fun _ hfrom => (hfrom.under (extends_dot _ id)).within
    refine hround.next (Numbering.separate_append _) fun results => ?_
    exact (ih (round + 1)).bind_silent fun _ => Attempt.pure_silent _

/-- Whatever an action runs lies under the number of its step. -/
theorem perform_tellsApart (number : String) (action : Action) :
    (perform e number action).TellsApart (Under number ·.2) := by
  have hnothing {t : Attempt Value} (ht : t.Silent) : t.TellsApart (Under number ·.2) :=
    ht.tellsApart
  -- lists of their own, pipes and junctions count their steps behind a dot
  have hdots {α : Type} {t : Attempt α} {index : Nat}
      (ht : t.TellsApart (Numbering.From (fun i => number ++ "." ++ toString i) index ·.2)) :
      t.TellsApart (Under number ·.2) := ht.mono fun _ hfrom => hfrom.under (extends_dot number id)
  cases action with
  | setVariable name v =>
    exact (h.store name v).bind_tellsApart fun _ => hnothing (Attempt.pure_silent v)
  | getVariable path => exact hnothing (Attempt.expression_silent fun s => s.lookup path)
  | echo v => exact hnothing (Attempt.pure_silent v)
  | check v expected message =>
    rw [perform]
    split
    · exact hnothing (Attempt.pure_silent v)
    · exact hnothing (Attempt.fail_silent _)
  | fail message => exact hnothing (Attempt.fail_silent _)
  | log level message => exact hnothing (Attempt.pure_silent message)
  | sleep milliseconds =>
    have hsleep : (Attempt.ofTask (Task.sleep milliseconds)).Silent :=
      Attempt.silent_congruence.sleep milliseconds
    exact hsleep.bind_tellsApart fun _ => hnothing (Attempt.pure_silent Value.null)
  | branch condition yes no =>
    have hverdict : (verdict condition).Silent := verdict_rel Attempt.silent_congruence condition
    refine hverdict.bind_tellsApart fun taken => ?_
    have hrun (steps : StepList) (word : String) :
        (e.runSteps steps fun i => number ++ "-" ++ word ++ "-" ++ toString i).TellsApart
          (Under number ·.2) :=
      (Engine.runSteps_tellsApart (h.list steps (Numbering.separate_append _))).mono
        fun _ hfrom => hfrom.under (extends_dash number word "-")
    -- only one branch is run, so the two words need not tell their numbers apart
    cases taken with
    | true => exact (hrun yes "then").bind_silent fun _ => Attempt.pure_silent _
    | false => exact (hrun no "else").bind_silent fun _ => Attempt.pure_silent _
  | loop kind entries steps =>
    have hextends : Numbering.Extends (fun k => number ++ "-" ++ toString k) number :=
      fun k => ⟨'-', by simp, (toString k).toList, by simp⟩
    exact ((rounds_tellsApart h number kind steps 0 entries).mono
      fun _ hfrom => hfrom.under hextends).bind_silent fun _ => Attempt.pure_silent _
  | runSteps steps =>
    exact (hdots (Engine.runSteps_tellsApart
      (h.list steps (Numbering.separate_append _)))).bind_silent fun _ => Attempt.pure_silent _
  | pipe steps name input =>
    exact hdots (flow_tellsApart h number name steps.bindings 0 steps.steps input)
  | junction deciding steps =>
    exact (hdots (decide_tellsApart h number deciding steps.bindings 0
      steps.steps)).bind_silent fun _ => Attempt.pure_silent _
  | leaf result =>
    cases result with
    | ok v => exact hnothing (Attempt.pure_silent v)
    | error e => exact hnothing (Attempt.fail_silent e)

end Performance

/-! ## Lists -/

namespace ListRun

/-- What a step of known type reports is told apart beneath its own number. -/
theorem invoke_tellsApart (h : e.TellsApart) (number : String) (step : Step)
    (descriptor : Descriptor) :
    (invoke e number step descriptor).TellsApart (Under number ·.2) := by
  have hcondition : (conditionHolds step).Silent :=
    conditionHolds_rel Attempt.silent_congruence step
  refine hcondition.bind_tellsApart fun holds => ?_
  cases holds with
  | false => exact (Attempt.pure_silent _).tellsApart
  | true =>
    have hproperties := (h.properties descriptor.schema true step.values).during .properties
    refine hproperties.bind_tellsApart fun values => ?_
    cases Properties.ofValue values with
    | error e => exact (Attempt.fail_silent _).tellsApart
    | ok p =>
      have hbuild : (Attempt.ofExcept (descriptor.build p)).Silent := by
        cases descriptor.build p with
        | error e => exact Attempt.fail_silent e
        | ok action => exact Attempt.pure_silent action
      refine hbuild.bind_tellsApart fun action => ?_
      exact (Performance.perform_tellsApart h number action).bind_silent fun _ =>
        Attempt.pure_silent _

theorem execute_tellsApart (h : e.TellsApart) (number : String) (failed : Bool) (step : Step) :
    (execute setup e number failed step).TellsApart (Under number ·.2) := by
  unfold execute
  split
  · exact (Task.pure_silent _).tellsApart
  split
  · exact (Task.pure_silent _).tellsApart
  split
  · exact (Task.pure_silent _).tellsApart
  · exact Task.TellsApart.bind_silent (invoke_tellsApart h number step _) fun _ => Task.pure_silent _

theorem conclude_tellsApart (h : e.TellsApart) (number : String) (failed : Bool) (raw : Value)
    (prepared : Except RunFailure Step) :
    (conclude setup e number failed raw prepared).TellsApart (Under number ·.2) := by
  cases prepared with
  | error cause =>
    unfold conclude
    dsimp only
    split
    · exact (Task.pure_silent _).tellsApart
    · exact (Task.pure_silent _).tellsApart
  | ok step =>
    refine (execute_tellsApart h number failed step).bind_silent fun result => ?_
    cases result with
    | error cause => exact Task.pure_silent _
    | ok status => exact Task.pure_silent _

theorem prepare_tellsApart (number : String) (raw : Value) :
    (prepare setup number raw).TellsApart (· = (false, number)) := by
  unfold prepare
  cases Shorthand.expand setup.registry raw with
  | error reason => exact (Task.pure_silent _).tellsApart
  | ok expanded =>
    refine Task.Silent.bind_tellsApart Task.hides_congruence.state fun s => ?_
    exact (Task.report_tellsApart (.before number expanded s.clock)).bind_silent fun _ =>
      Task.pure_silent _

theorem reportEnd_tellsApart (number : String) (step : Step) (status : StepStatus) :
    (reportEnd number step status).TellsApart (· = (true, number)) :=
  Task.Silent.bind_tellsApart Task.hides_congruence.state fun s =>
    Task.report_tellsApart (.after number step status s.scope.stepNumber s.clock)

/-- A visit announces its step before all that lies under it and reports its end after that. -/
theorem visit_tellsApart (h : e.TellsApart) (bindings : Option Variables) (number : String)
    (failed : Bool) (raw : Value) :
    (visit setup e bindings number failed raw).TellsApart (Within number ·.2) := by
  have hhandle : (handle setup e number failed raw).TellsApart
      fun tag => tag = (false, number) ∨ Under number tag.2 := by
    refine (prepare_tellsApart number raw).bind (fun prepared =>
      conclude_tellsApart h number failed raw prepared) ?_
    -- the number of the step itself does not lie under it
    rintro _ rfl
    exact not_under_self
  have hend (verdict : Verdict) : Task.TellsApart (· = (true, number)) (do
      reportEnd number verdict.step verdict.status
      return verdict) :=
    (reportEnd_tellsApart number verdict.step verdict.status).bind_silent fun _ =>
      Task.pure_silent _
  have hentered := hhandle.bind hend fun tag hinside hend => by
    subst hend
    exact hinside.elim (fun heq => nomatch heq) not_under_self
  have henter : (enter bindings number).Silent := Task.hides_congruence.updateScope _
  refine henter.bind_tellsApart fun _ => hentered.mono ?_
  rintro _ ((rfl | hunder) | rfl)
  · exact .inl rfl
  · exact .inr hunder
  · exact .inl rfl

/-- The steps of a list are told apart if no number lies within two of theirs. -/
theorem runFrom_tellsApart (h : e.TellsApart) (bindings : Option Variables)
    {numbering : Numbering} (hseparate : numbering.Separate) (index : Nat)
    (steps results : List Value) (failures : List RunFailure) :
    (runFrom setup e bindings numbering index steps results failures).TellsApart
      (numbering.From index ·.2) := by
  induction steps generalizing index results failures with
  | nil => exact (Task.pure_silent _).tellsApart
  | cons raw rest ih =>
    rw [runFrom_cons]
    -- the step has its number to itself, and the rest of the list has those that come after it
    refine (visit_tellsApart h bindings (numbering index) _ raw).next hseparate fun verdict => ?_
    cases verdict.aborts with
    | true => exact (Task.pure_silent _).tellsApart
    | false => exact ih (index + 1) _ _

theorem run_single_tellsApart (h : e.TellsApart) (step : Value) (bindings : Option Variables)
    (numbering : Numbering) :
    (run setup e ⟨[step], bindings⟩ numbering).TellsApart (Within (numbering 0) ·.2) := by
  unfold run
  rw [runFrom_cons]
  refine (visit_tellsApart h bindings (numbering 0) _ step).bind_silent fun verdict => ?_
  cases verdict.aborts with
  | true => exact Task.pure_silent _
  | false => exact Task.pure_silent _

end ListRun

/-! ## Runs without marks that ask for steps -/

namespace ListRun

/-- The engine of a run that is halted as soon as the mark of a key asks for steps. -/
def keyless (setup : Setup) : Nat → Engine
  | 0 => Engine.none
  | depth + 1 =>
    { level setup Attempt.put (keyless setup depth) with
      runMarked := fun _ _ => Task.halt .exhausted }

/-- The run that is halted at the mark of a key approximates the real one. -/
theorem keyless_approximates (setup : Setup) (depth : Nat) :
    (keyless setup depth).Approximates (engine setup depth) := by
  induction depth with
  | zero => exact none_approximates rfl rfl
  | succ depth ih =>
    have hlevel : (level setup Attempt.put (keyless setup depth)).Approximates
        (engine setup (depth + 1)) :=
      level_keeps visits_approximate Attempt.put_keeps ih
    exact
      { expand := hlevel.expand
        restart := hlevel.restart
        runList := hlevel.runList
        runMarked := fun _ _ _ _ _ => .cut trivial
        together := hlevel.together
        store := hlevel.store }

/-- Under the engine, the evaluation of properties reports nothing at all. -/
theorem keyless_related (setup : Setup) (depth : Nat) (trail : Trail) :
    Engine.Related (Attempt.Lifts (Task.Each fun _ => Task.Hides fun _ => true)) trail
      fun _ => keyless setup depth := by
  -- the steps that a mark asks for are never run, at no level
  have hmarked (depth : Nat) (key : String) (collect : Collect) (v : Value) :
      Task.Hides (fun _ => true)
        (PropertyEvaluation.runAsSteps (keyless setup depth) key collect v).run := by
    refine Engine.runAsSteps_rel (e := fun _ => keyless setup depth) Task.hides_congruence
      (fun steps _ _ _ => ?_) key collect v
    cases depth with
    | zero => exact Task.hides_congruence.halt _
    | succ depth => exact Task.hides_congruence.halt _
  induction depth generalizing trail with
  | zero =>
    have hhalt : Task.Hides (fun _ => true)
        (Attempt.ofTask (Task.halt .exhausted : Task Value)).run :=
      Attempt.ofTask_lifts Task.hides_congruence.toCongruence (Task.hides_congruence.halt _)
    exact Engine.related_of_hides (fun _ _ => hhalt) (fun _ _ _ => hhalt) (hmarked 0) rfl trail
  | succ depth ih =>
    have hevaluate (recursive : Bool) (trail : Trail) (v : Value) :=
      PropertyEvaluation.evaluate_rel (e := fun _ => keyless setup depth)
        Attempt.hides_congruence.toCongruence (ih trail) recursive v
    exact Engine.related_of_hides (e := keyless setup (depth + 1)) (hevaluate true) hevaluate
      (hmarked (depth + 1)) rfl trail

/-- Without running steps for a key, the evaluation of properties is silent. -/
theorem keyless_properties_silent (setup : Setup) (depth : Nat) (schema : Schema)
    (recursive : Bool) (v : Value) :
    (PropertyEvaluation.properties (keyless setup depth) schema recursive v).Silent :=
  PropertyEvaluation.properties_rel (e := fun _ => keyless setup depth)
    Attempt.silent_congruence.toCongruence (keyless_related setup depth []) schema recursive v

/-- So all that is reported of a step beside itself comes from the lists of its action. -/
theorem keyless_tellsApart (setup : Setup) (depth : Nat) : (keyless setup depth).TellsApart := by
  have hhalt {α : Type} (P : Bool × String → Prop) :
      (Task.halt .exhausted : Task α).TellsApart P := fun _ _ _ hrun => nomatch hrun
  induction depth with
  | zero =>
    exact
      { list := fun _ _ _ => hhalt _
        single := fun _ _ _ => hhalt _
        store := Attempt.put_silent
        properties := keyless_properties_silent setup 0 }
  | succ depth ih =>
    exact
      { list := fun steps _ hseparate =>
          runFrom_tellsApart ih steps.bindings hseparate 0 steps.steps [] []
        single := run_single_tellsApart ih
        store := Attempt.put_silent
        properties := keyless_properties_silent setup (depth + 1) }

/-- All steps of a run, at every depth and in every round, are told apart by their numbers: none of
them is announced twice, and none has its end reported twice.  The run is the one that the engine of
a run gives, as long as no mark of a key asks for steps. -/
theorem run_distinct (setup : Setup) (depth : Nat) (steps : StepList) (scope : Scope)
    (result : Except RunFailure (List Value)) (s' : RunState)
    (h : Task.run (run setup (keyless setup depth) steps topLevel) (RunState.start scope) =
      .ok (result, s')) :
    Task.run (run setup (engine setup depth) steps topLevel) (RunState.start scope) =
      .ok (result, s') ∧
    (announced s'.log).Nodup ∧ (reported s'.log).Nodup := by
  refine ⟨run_of_approximates (keyless_approximates setup depth) h, ?_⟩
  -- the run starts with an empty log, so all of its log has been reported by the list
  have htells : (run setup (keyless setup depth) steps topLevel).TellsApart _ :=
    runFrom_tellsApart (keyless_tellsApart setup depth) steps.bindings Numbering.separate_topLevel
      0 steps.steps [] []
  obtain ⟨new, hnew, hapart⟩ := htells h
  have hlog : s'.log = new := by simpa [RunState.start] using hnew
  rw [hlog]
  exact nodup_of_tags hapart.nodup

/-- Two rounds of a loop within a branch, a pipe within a junction, and a list of its own. -/
def branchingSteps : StepList where
  steps := [
    .object [("if", .object [("condition", .bool true), ("then", .array [.object [("for-each", .object [
      ("items", .array [.null, .null] none),
      ("steps", .array [.object [("echo", .null)], .object [("echo", .null)]] none)])]] none)])],
    .object [("all", .array [.object [("pipe", .array [.object [("echo", .bool true)],
      .object [("echo", .bool true)]] none)], .object [("run-steps", .object [("fail", .null)])]] none)]]
  bindings := none

/-- Eleven steps are reported, all with different numbers. -/
theorem branchingSteps_distinct :
    ∃ result s', (reported s'.log).length = 11 ∧
      Task.run (run (Setup.plain Registry.builtIn) (engine (Setup.plain Registry.builtIn) 5)
        branchingSteps topLevel) (RunState.start Scope.empty) = .ok (result, s') ∧
      (announced s'.log).Nodup ∧ (reported s'.log).Nodup := by
  have hrun : (match Task.run (run (Setup.plain Registry.builtIn)
        (keyless (Setup.plain Registry.builtIn) 5) branchingSteps topLevel)
        (RunState.start Scope.empty) with
      | .ok (_, s') => (reported s'.log).length == 11
      | .error _ => false) = true := by decide +kernel
  split at hrun
  · rename_i result s' h
    exact ⟨result, s', by simpa using hrun, run_distinct (Setup.plain Registry.builtIn) 5
      branchingSteps Scope.empty result s' h⟩
  · cases hrun

/-- The mark of a key may ask for a step that has the number of a step of a branch. -/
example : (match Task.run (run (Setup.plain Registry.builtIn) (engine (Setup.plain Registry.builtIn) 5)
      ⟨[.object [("if", .object [("condition", .bool true),
        ("<then>", .object [("echo", .object [("echo", .null)])])])]], none⟩ topLevel)
      (RunState.start Scope.empty) with
    | .ok (_, s') => reported s'.log
    | .error _ => []) = ["1", "1-then-0", "1-then-0"] := by
  decide +kernel

end ListRun

end StepScript
