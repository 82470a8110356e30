import StepScript.Proofs.Run.Accounting
import StepScript.Proofs.Run.Congruence

/-!
# Keeping — lists and engines that keep the log in order

An accounting is kept by the evaluation of properties and by actions whatever it is about, since
they never touch the log.  It is kept by a list if every visit of a step keeps it, and by the engine
of a run if that is so for every engine one level below.

* `ListRun.run_keeps` and `ListRun.engine_keeps` reduce an accounting to the visits of single steps;
* `ListRun.Free.visits`: visits keep every accounting in which nothing is ever owed.
-/

namespace StepScript

variable {M : Type} [AddCommMonoid M] {A : Accounting M} {W : M → Prop}

/-! ## Tasks and attempts -/

/-- A relation between two tasks as one between the tasks of a family. -/
def Task.Between (rel : ∀ ⦃α : Type⦄, Task α → Task α → Prop) ⦃α : Type⦄ (t : Bool → Task α) :
    Prop :=
  rel (t false) (t true)

def Engine.pair (e e' : Engine) : Bool → Engine
  | false => e
  | true => e'

namespace Task

theorem keeps_congruence : UpdatingCongruence (Between fun _ => Keeps A W) where
  pure _ := pure_keeps _
  bind h hf := Keeps.bind h hf
  state := state_keeps
  halt _ := halt_keeps _
  updateScope _ := updateScope_keeps _

end Task

namespace Attempt

variable {α : Type}

def Keeps (A : Accounting M) (W : M → Prop) (t t' : Attempt α) : Prop :=
  Task.Keeps A W t.run t'.run

theorem ofTask_keeps {t t' : Task α} (h : Task.Keeps A W t t') :
    Keeps A W (ofTask t) (ofTask t') :=
  h.bind fun _ => Task.pure_keeps _

theorem put_keeps (name : String) (v : Value) :
    Keeps A W (Attempt.put name v) (Attempt.put name v) :=
  ofTask_keeps (Task.updateScope_keeps _)

theorem keeps_congruence : Congruence (Lifts (Task.Between fun _ => Task.Keeps A W)) :=
  lifts_congruence Task.keeps_congruence.toCongruence

/-- Keeping the log in order is kept by actions, which may sleep. -/
theorem keeps_actingCongruence (hW : W 0) :
    ActingCongruence (Lifts (Task.Between fun _ => Task.Keeps A W)) :=
  lifts_actingCongruence Task.keeps_congruence.toCongruence (Task.sleep_keeps hW)

end Attempt

/-! ## Engines -/

namespace Engine

/-- Two engines that keep the log in order. -/
structure Keep (A : Accounting M) (e e' : Engine) : Prop where
  expand : ∀ trail v, Attempt.Keeps A A.outstanding (e.expand trail v) (e'.expand trail v)
  restart : ∀ recursive trail v,
    Attempt.Keeps A A.outstanding (e.restart recursive trail v) (e'.restart recursive trail v)
  runList : ∀ steps numbering,
    Task.Keeps A A.outstanding (e.runList steps numbering) (e'.runList steps numbering)
  runMarked : ∀ steps numbering,
    Task.Keeps A A.outstanding (e.runMarked steps numbering) (e'.runMarked steps numbering)
  together : ∀ {ts ts' : List (Task (Except Failure Value))},
    List.Forall₂ (Task.Keeps A A.outstanding) ts ts' →
      Task.Keeps A A.outstanding (e.together ts) (e'.together ts')
  store : ∀ {W : M → Prop} name v, Attempt.Keeps A W (e.store name v) (e'.store name v)

variable {e e' : Engine}

theorem Keep.related (h : Keep A e e') (trail : Trail) :
    Related (Attempt.Lifts (Task.Between fun _ => Task.Keeps A A.outstanding)) trail
      (pair e e') where
  expand code v _ := h.expand (trail ++ [code]) v
  restart recursive v := h.restart recursive trail v
  runAsSteps := runAsSteps_rel Task.keeps_congruence fun steps _ _ _ => h.runMarked steps _
  together ts hts := by
    refine h.together ?_
    rw [List.forall₂_map_left_iff, List.forall₂_map_right_iff]
    exact List.forall₂_same.2 hts

theorem Keep.acts (h : Keep A e e') (hW : ∀ m, A.outstanding m → W m) (number : String) :
    Acts (Attempt.Lifts (Task.Between fun _ => Task.Keeps A W)) number (pair e e') where
  store := h.store
  runSteps steps numbering _ := by
    refine runSteps_rel Task.keeps_congruence fun s frame hs => ?_
    exact (h.runList steps numbering s frame hs).mono hW fun _ _ hm => hm

end Engine

/-! ## Lists -/

namespace ListRun

variable {setup : Setup} {e e' : Engine}

/-- A step may wait by itself, where `W` allows that nothing is owed. -/
theorem invoke_keeps (hW : ∀ m, A.outstanding m → W m) (hnone : W 0) (h : Engine.Keep A e e')
    (number : String) (step : Step) (descriptor : Descriptor) :
    Attempt.Lifts (Task.Between fun _ => Task.Keeps A W)
      fun i => invoke (Engine.pair e e' i) number step descriptor := by
  refine invoke_rel Attempt.keeps_congruence (Attempt.keeps_actingCongruence hnone) ?_
    (h.related []) (h.acts hW number) step descriptor
  intro α t ht s frame hs
  exact (ht s frame hs).mono hW fun _ _ hm => hm

/-- What becomes of a raw step keeps the log in order. -/
theorem conclude_keeps (setup : Setup) (hW : ∀ m, A.outstanding m → W m) (hnone : W 0)
    (h : Engine.Keep A e e') (number : String) (failed : Bool) (raw : Value)
    (prepared : Except RunFailure Step) :
    Task.Keeps A W (conclude setup e number failed raw prepared)
      (conclude setup e' number failed raw prepared) :=
  conclude_rel (e := Engine.pair e e') Task.keeps_congruence.toCongruence.sequencing setup failed raw
    (fun step descriptor _ => invoke_keeps hW hnone h number step descriptor) prepared

/-- Accountings in which nothing is ever owed. -/
structure Free (A : Accounting M) : Prop where
  report : ∀ {log : List Event} {dropped : Nat} {m : M} (event : Event),
    A.holds log dropped m → A.holds (event :: log) dropped m
  outstanding : ∀ m, A.outstanding m

theorem Free.congruence (hA : Free A) :
    Task.ReportingCongruence (Task.Between fun _ => Task.Keeps A W) where
  toCongruence := Task.keeps_congruence.toCongruence
  report event _ _ hs := .finished rfl (by rw [zero_add]; exact hA.report event hs)

/-- Dealing with a raw step keeps the log in order where nothing is ever owed. -/
theorem handle_keeps (hA : Free A) (h : Engine.Keep A e e') (number : String) (failed : Bool)
    (raw : Value) :
    Task.Keeps A A.outstanding (handle setup e number failed raw)
      (handle setup e' number failed raw) :=
  handle_rel (e := Engine.pair e e') hA.congruence setup failed raw
    fun step descriptor _ =>
      invoke_keeps (fun _ hm => hm) (hA.outstanding 0) h number step descriptor

variable (A setup) in
def VisitsKeep : Prop :=
  ∀ ⦃e e' : Engine⦄, Engine.Keep A e e' → ∀ bindings number failed raw,
    Task.Keeps A A.outstanding (visit setup e bindings number failed raw)
      (visit setup e' bindings number failed raw)

/-- Visits keep an accounting in which nothing is ever owed. -/
theorem Free.visits (hA : Free A) : VisitsKeep A setup :=
  fun _ _ h bindings number failed raw =>
    visit_rel (e := Engine.pair _ _) hA.congruence Task.keeps_congruence setup bindings failed raw
      fun step descriptor _ =>
        invoke_keeps (fun _ hm => hm) (hA.outstanding 0) h number step descriptor

/-- A list keeps the log in order if its visits do. -/
theorem run_keeps (hvisit : VisitsKeep A setup) (h : Engine.Keep A e e') (steps : StepList)
    (numbering : Numbering) :
    Task.Keeps A A.outstanding (run setup e steps numbering) (run setup e' steps numbering) :=
  runFrom_rel (e := Engine.pair e e') Task.keeps_congruence.toCongruence.sequencing
    (fun _ failed raw => hvisit h steps.bindings _ failed raw) 0 steps.steps [] []

/-- An engine all of whose ways lead to one engine below. -/
def level (setup : Setup) (store : String → Value → Attempt Unit) (inner : Engine) : Engine where
  expand := PropertyEvaluation.evaluate inner true
  restart := PropertyEvaluation.evaluate inner
  runList := run setup inner
  together := Task.together
  store := store

/-- Evaluating a value keeps the log in order if the engine does. -/
theorem evaluate_keeps (h : Engine.Keep A e e') (recursive : Bool) (trail : Trail) (v : Value) :
    Attempt.Keeps A A.outstanding (PropertyEvaluation.evaluate e recursive trail v)
      (PropertyEvaluation.evaluate e' recursive trail v) :=
  PropertyEvaluation.evaluate_rel (e := Engine.pair e e') Attempt.keeps_congruence
    (h.related trail) recursive v

theorem text_keeps (h : Engine.Keep A e e') (recursive : Bool) (trail : Trail) (s : String) :
    Attempt.Keeps A A.outstanding (PropertyEvaluation.text e recursive trail s)
      (PropertyEvaluation.text e' recursive trail s) :=
  PropertyEvaluation.text_rel (e := Engine.pair e e') Attempt.keeps_congruence
    (h.related trail) recursive s

theorem properties_keeps (h : Engine.Keep A e e') (schema : Schema) (recursive : Bool) (v : Value) :
    Attempt.Keeps A A.outstanding (PropertyEvaluation.properties e schema recursive v)
      (PropertyEvaluation.properties e' schema recursive v) :=
  PropertyEvaluation.properties_rel (e := Engine.pair e e') Attempt.keeps_congruence
    (h.related []) schema recursive v

theorem level_keeps {store store' : String → Value → Attempt Unit} (hvisit : VisitsKeep A setup)
    (hstore : ∀ {W : M → Prop} name v, Attempt.Keeps A W (store name v) (store' name v))
    (h : Engine.Keep A e e') : Engine.Keep A (level setup store e) (level setup store' e') where
  expand := evaluate_keeps h true
  restart := evaluate_keeps h
  runList := run_keeps hvisit h
  runMarked := run_keeps hvisit h
  together := Task.together_keeps
  store := hstore

theorem none_keeps {store store' : String → Value → Attempt Unit}
    (hstore : ∀ {W : M → Prop} name v, Attempt.Keeps A W (store name v) (store' name v)) :
    Engine.Keep A { Engine.none with store := store } { Engine.none with store := store' } where
  expand _ _ _ _ _ := .halted
  restart _ _ _ _ _ _ := .halted
  runList _ _ _ _ _ := .halted
  runMarked _ _ _ _ _ := .halted
  together := Task.together_keeps
  store := hstore

/-- The engine of a run keeps an accounting if visits do. -/
theorem engine_keeps (hvisit : VisitsKeep A setup) (depth : Nat) :
    Engine.Keep A (engine setup depth) (engine setup depth) := by
  induction depth with
  | zero => exact none_keeps Attempt.put_keeps
  | succ depth ih => exact level_keeps hvisit Attempt.put_keeps ih

end ListRun

end StepScript
