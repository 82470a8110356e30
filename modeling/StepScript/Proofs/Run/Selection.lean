import Mathlib.Algebra.Order.PUnit
import StepScript.Proofs.Run.Keeping
import StepScript.Proofs.Run.Starting

/-!
# Selection — work that reports nothing of some kind

Some events are selected from the log, and a task hides from the selection if it reports none of
them, whatever runs beside it.  This is an accounting in which nothing is ever owed, so it is kept by
sequences, by work side by side and by all that puts such work together.
-/

namespace StepScript

variable {α β ε : Type} {select : Event → Bool}

/-- The accounting that what is selected from the log stays as it is. -/
def Accounting.selection (select : Event → Bool) (base : List Event) : Accounting Unit where
  holds log _ _ := log.filter select = base
  outstanding _ := True
  cuts := False
  outstanding_add _ _ := trivial
  drop _ h := h

namespace Task

/-- A task that reports nothing of what is selected. -/
def Hides (select : Event → Bool) (t : Task α) : Prop :=
  ∀ base, Keeps (Accounting.selection select base) (fun _ => True) t t

/-- A task that hides what is selected leaves the selection from the log. -/
theorem Hides.filter_log {t : Task α} (h : t.Hides select) {s s' : RunState} {a : α}
    (hrun : (t s).complete = .ok (a, s')) : s'.log.filter select = s.log.filter select :=
  fits_of_complete (h _ s () rfl) hrun

theorem Hides.bind {t : Task α} {f : α → Task β} (h : t.Hides select)
    (hf : ∀ a, (f a).Hides select) : (t >>= f).Hides select :=
  fun base => Keeps.bind (h base) fun a => hf a base

theorem hides_congruence : UpdatingCongruence (Each fun _ => Hides select) where
  pure _ _ := pure_keeps _
  bind h hf := h.bind hf
  state _ := state_keeps
  halt _ _ := halt_keeps _
  updateScope _ _ := updateScope_keeps _

theorem sleep_hides (milliseconds : Nat) : (sleep milliseconds).Hides select :=
  fun _ => sleep_keeps trivial milliseconds

theorem report_hides {event : Event} (h : select event = false) : (report event).Hides select := by
  intro base s frame hs
  refine .finished rfl ?_
  change (event :: s.log).filter select = base
  rw [List.filter_cons_of_neg (by simp [h])]
  exact hs

/-- Work on another scope hides what it hides on that of the run. -/
theorem Hides.apart {t : Task α} (h : t.Hides select) (own : Scope) : (t.apart own).Hides select :=
  fun base => (h base).apart own

/-- Tasks side by side hide what each of them hides. -/
theorem together_hides {ts : List (Task (Except ε α))} (h : ∀ t ∈ ts, t.Hides select) :
    (together ts).Hides select :=
  fun base => together_keeps (List.forall₂_same.2 fun t ht => h t ht base)

end Task

theorem Attempt.hides_congruence :
    ActingCongruence (Lifts (Task.Each fun _ => Task.Hides select)) :=
  lifts_actingCongruence Task.hides_congruence.toCongruence Task.sleep_hides

/-- Work that cannot fail may come before what hides. -/
theorem Attempt.ofTask_bind_hides {t : Task α} {f : α → Attempt β} (ht : t.Hides select)
    (hf : ∀ a, (f a).run.Hides select) : (ofTask t >>= f).run.Hides select :=
  hides_congruence.bind (f := fun _ => f)
    (ofTask_lifts (t := fun _ => t) Task.hides_congruence.toCongruence ht) hf

/-- The evaluation of properties hides if the work does that it asks an engine for. -/
theorem Engine.related_of_hides {e : Engine}
    (hexpand : ∀ trail v, Task.Hides select (e.expand trail v).run)
    (hrestart : ∀ recursive trail v, Task.Hides select (e.restart recursive trail v).run)
    (hmarked : ∀ key collect v,
      Task.Hides select (PropertyEvaluation.runAsSteps e key collect v).run)
    (htogether : e.together = Task.together) (trail : Trail) :
    Related (Attempt.Lifts (Task.Each fun _ => Task.Hides select)) trail fun _ => e where
  expand code v _ := hexpand (trail ++ [code]) v
  restart recursive v := hrestart recursive trail v
  runAsSteps := hmarked
  together ts hts := by
    rw [htogether]
    exact Task.together_hides (List.forall_mem_map.2 hts)

end StepScript
