import StepScript.Proofs.Marker.Splice
import StepScript.Proofs.Run.Joint
import StepScript.Action.Catalogue
import StepScript.Run.List

/-!
# Interpolation — the value of a text with markers

The markers of a text are evaluated in a joint run.  When all of them have values, a text that is one
marker has the value of that, and any other text is spliced from its own bytes and the texts of the
values, each in the place of its marker.  The result is not looked at again, and there is none if one of
the evaluations fails.

* `PropertyEvaluation.Interpolates` says what a text becomes, in terms of the bytes of its markers;
* `PropertyEvaluation.Replaces` compares the end of an evaluation with what the markers have come to;
* `PropertyEvaluation.text_replaces`: the comparison holds of every run.
-/

namespace StepScript

namespace PropertyEvaluation

variable {string : String} {values : List Value}

/-- A text becomes some value when its markers have values, given in the order of the markers. -/
inductive Interpolates (string : String) (values : List Value) : Value → Prop
  | whole {v : Value} : Marker.IsMarker string → values = [v] → Interpolates string values v
  | spliced {result : String} : ¬ Marker.IsMarker string →
      Utf8.encode result =
        Marker.splice (Utf8.encode string) 0 (Marker.find string) (values.map Value.text) →
      Interpolates string values (.string result)

/-- A text and the values of its markers determine what is put together. -/
theorem Interpolates.unique {v w : Value} (h : Interpolates string values v)
    (h' : Interpolates string values w) : v = w := by
  cases h with
  | whole hmarker hv =>
    cases h' with
    | whole _ hw => exact List.head_eq_of_cons_eq (hv.symm.trans hw)
    | spliced hnot => exact absurd hmarker hnot
  | spliced hnot hv =>
    cases h' with
    | whole hmarker => exact absurd hmarker hnot
    | spliced _ hw => rw [Marker.encode_injective (hv.trans hw.symm)]

/-- A text without markers stays as it is. -/
theorem interpolates_self (h : Marker.find string = []) :
    Interpolates string [] (.string string) := by
  refine .spliced ?_ ?_
  · rintro ⟨m, hm, -⟩
    rw [h] at hm
    cases hm
  · rw [h]
    rfl

/-- The end of the evaluation of a text, compared with what its markers have come to. -/
structure Replaces (string : String) (strands : List (Strand Failure Value)) (s : RunState)
    (fin : Except Halt (Except Failure Value × RunState)) : Prop where
  /-- The text has a value if and only if all markers have, and it is the one that it becomes with
  them. -/
  returns_iff : ∀ v, (∃ t, fin = .ok (.ok v, t)) ↔
    ∃ values, Strand.Passed strands values ∧ Interpolates string values v
  /-- If no marker has failed or come to no end, all of them have values, and so has the text. -/
  succeeds : (∀ e, ¬ Strand.Failed strands e) → (∀ p ∈ strands, ¬ p.IsHalted) →
    ∃ values v, Strand.Passed strands values ∧ Interpolates string values v ∧ fin = .ok (.ok v, s)
  /-- The text fails only with the failure of a marker. -/
  fails : ∀ e t, fin = .ok (.error e, t) → Strand.Failed strands e
  /-- When a marker has failed the text fails. -/
  failed : (∃ e, Strand.Failed strands e) → (∀ p ∈ strands, ¬ p.IsHalted) →
    ∃ e, fin = .ok (.error e, s)
  /-- The text comes to no end only if a marker does not. -/
  halted : ∀ why, fin = .error why → ∃ p ∈ strands, p.IsHalted
  /-- The text leaves the state that its markers have led to. -/
  leaves : ∀ result t, fin = .ok (result, t) → t = s

/-- Pieces are put together as their text is interpolated. -/
theorem assemble_interpolates (h : (Marker.find string).length = values.length) :
    Interpolates string values (assemble (Marker.pieces string) values) := by
  by_cases hmarker : Marker.IsMarker string
  · obtain ⟨code, hpieces⟩ := Marker.isMarker_iff.1 hmarker
    have hone : values.length = 1 := by
      rw [← h, Marker.find, hpieces]
      rfl
    obtain ⟨v, rfl⟩ := List.length_eq_one_iff.1 hone
    rw [hpieces]
    exact .whole hmarker rfl
  · have hfill : assemble (Marker.pieces string) values =
        .string (String.ofList (Marker.fill (Marker.pieces string) (values.map Value.text))) := by
      unfold assemble
      split
      · rename_i code v hpieces
        exact absurd (Marker.isMarker_iff.2 ⟨code, hpieces⟩) hmarker
      · rfl
    rw [hfill]
    refine .spliced hmarker (Marker.encode_fill ?_)
    rw [h, List.length_map]

/-- A text with markers is evaluated by evaluating these side by side; what is put together then is the
result. -/
theorem run_text {engine : Engine} {recursive : Bool} {trail : Trail}
    (h : Marker.find string ≠ []) (s : RunState) :
    (text engine recursive trail string).run s =
      (engine.together ((Marker.find string).map fun m =>
        (marker engine recursive trail m.code).run) s).map
          (Except.map (assemble (Marker.pieces string))) := by
  have hcodes : Marker.codes (Marker.pieces string) ≠ [] := by
    rw [← Marker.map_code_find]
    simpa using h
  have htasks : ((Marker.find string).map fun m => (marker engine recursive trail m.code).run) =
      (Marker.codes (Marker.pieces string)).map fun code =>
        (marker engine recursive trail code).run := by
    rw [← Marker.map_code_find, List.map_map]
    rfl
  have htext : text engine recursive trail string =
      ExceptT.mk (engine.together ((Marker.codes (Marker.pieces string)).map fun code =>
        (marker engine recursive trail code).run)) >>= fun values =>
          Pure.pure (assemble (Marker.pieces string) values) := by
    obtain ⟨code, rest, hcons⟩ := List.exists_cons_of_ne_nil hcodes
    unfold text
    dsimp only
    rw [hcons]
  rw [htasks, htext, Attempt.run_bind]
  unfold Progress.map
  congr 1
  funext result t
  cases result with
  | ok values => rfl
  | error e => rfl

/-- An end with the results of all strands, or with the failure of one, put together. -/
def Assembles (string : String) (strands : List (Strand Failure Value))
    (result : Except Failure Value) : Prop :=
  ∃ found : Except Failure (List Value), Progress.Collects id strands found ∧
    result = found.map (assemble (Marker.pieces string))

section Ends

variable {strands : List (Strand Failure Value)} {s : RunState}

/-- A text that comes to no end. -/
theorem replaces_of_halted (h : ∃ p ∈ strands, p.IsHalted) (why : Halt) :
    Replaces string strands s (.error why) := by
  obtain ⟨p, hp, hhalted⟩ := h
  refine ⟨fun v => ⟨?_, ?_⟩, fun _ hnone => ?_, ?_, fun _ hnone => ?_, fun _ _ => ?_, ?_⟩
  · rintro ⟨t, hfin⟩
    cases hfin
  · rintro ⟨values, hpassed, -⟩
    exact absurd hhalted (hpassed.not_halted hp)
  · exact absurd hhalted (hnone p hp)
  · rintro e t hfin
    cases hfin
  · exact absurd hhalted (hnone p hp)
  · exact ⟨p, hp, hhalted⟩
  · rintro result t hfin
    cases hfin

/-- A text with the value that it becomes with those of all its markers. -/
theorem replaces_of_passed (h : Strand.Passed strands values) {v : Value}
    (hv : Interpolates string values v) : Replaces string strands s (.ok (.ok v, s)) := by
  refine ⟨fun w => ⟨?_, ?_⟩, fun _ _ => ⟨values, v, h, hv, rfl⟩, ?_, ?_, ?_, ?_⟩
  · rintro ⟨t, hfin⟩
    cases hfin
    exact ⟨values, h, hv⟩
  · rintro ⟨values', h', hw⟩
    obtain rfl := h.unique h'
    exact ⟨s, by rw [hw.unique hv]⟩
  · rintro e t hfin
    cases hfin
  · rintro ⟨e, hfailed⟩
    exact absurd hfailed (h.not_failed e)
  · rintro why hfin
    cases hfin
  · rintro result t hfin
    cases hfin
    rfl

/-- A text that fails like one of its markers. -/
theorem replaces_of_failed {e : Failure} (h : Strand.Failed strands e) :
    Replaces string strands s (.ok (.error e, s)) := by
  refine ⟨fun v => ⟨?_, ?_⟩, fun hnone _ => absurd h (hnone e), ?_, fun _ _ => ⟨e, rfl⟩, ?_, ?_⟩
  · rintro ⟨t, hfin⟩
    cases hfin
  · rintro ⟨values, hpassed, -⟩
    exact absurd h (hpassed.not_failed e)
  · rintro e' t hfin
    cases hfin
    exact h
  · rintro why hfin
    cases hfin
  · rintro result t hfin
    cases hfin
    rfl

/-- Strands that go together replace the markers of a text, each marker having a strand of its
own. -/
theorem replaces_of_accords {fin : Except Halt (Except Failure Value × RunState)}
    (hlength : strands.length = (Marker.find string).length)
    (h : Progress.Accords (Assembles string) strands s fin) : Replaces string strands s fin := by
  cases fin with
  | error why => exact replaces_of_halted h why
  | ok arrived =>
    obtain ⟨result, t⟩ := arrived
    obtain ⟨rfl, found, hfound, rfl⟩ := h
    cases found with
    | ok values =>
      have hpassed : Strand.Passed strands values := hfound
      exact replaces_of_passed hpassed (assemble_interpolates (hlength.symm.trans hpassed.length_eq))
    | error e => exact replaces_of_failed hfound

end Ends

theorem engine_together (setup : Setup) (depth : Nat) :
    (ListRun.engine setup depth).together = Task.together := by
  cases depth <;> rfl

/-- The evaluation of the markers of a text. -/
def markerTasks (engine : Engine) (recursive : Bool) (trail : Trail) (string : String) :
    List (Task (Except Failure Value)) :=
  (Marker.find string).map fun m => (marker engine recursive trail m.code).run

/-- A text with markers is replaced as they come to their ends, in whatever order they do. -/
theorem text_replaces (setup : Setup) (depth : Nat) (recursive : Bool) (trail : Trail)
    (string : String) (hmarker : Marker.find string ≠ []) (others : Moves)
    (hothers : ∀ due s, ∃ now, others due s now) (s : RunState) :
    let engine := ListRun.engine setup depth
    let work := (text engine recursive trail string).run s
    (∃ fin, work.Arrives others fin) ∧
      ∀ fin, work.Arrives others fin → ∃ strands s',
        Joint others (Task.strands (markerTasks engine recursive trail string)) s strands s' ∧
          Replaces string strands s' fin := by
  intro engine work
  refine ⟨Progress.exists_arrives hothers work, ?_⟩
  intro fin hfin
  let tasks := markerTasks engine recursive trail string
  have hwork : work = (Task.together tasks s).map
      (Except.map (assemble (Marker.pieces string))) := by
    rw [← engine_together setup depth]
    exact run_text hmarker s
  have hjoins : Progress.Joins (Assembles string) (Task.strands tasks) s work := by
    rw [hwork]
    exact (Task.together_joins tasks s).map fun _ found hfound => ⟨found, hfound, rfl⟩
  obtain ⟨strands, s', hjoint, haccords⟩ := hjoins.joint hfin
  have hlength : strands.length = (Marker.find string).length := by
    rw [hjoint.length_eq]
    simp [tasks, Task.strands, markerTasks]
  exact ⟨strands, s', hjoint, replaces_of_accords hlength haccords⟩

/-- A text whose first marker waits, and whose second one spells a marker with the text behind it. -/
def seamText : String := "$(slow)é$(sign)(1)"

/-- A state in which the markers of the text have values. -/
def seamState : RunState :=
  RunState.start (Scope.ofVariables
    [("slow", .object [("(a)", .object [("sleep", .string "1")])]), ("sign", .string "$")])

def returnsText (expected : String) : Except Halt (Except Failure Value × RunState) → Bool
  | .ok (.ok (.string result), _) => result == expected
  | _ => false

/-- Values stand beside each other without being scanned again: the end of one and the beginning of
the next look like a marker. -/
theorem seam_replaces :
    let engine := ListRun.engine (Setup.plain Registry.builtIn) 3
    Marker.find seamText ≠ [] ∧ (∀ due s, ∃ now, Moves.alone due s now) ∧
      ∃ strands s' values, Joint .alone (Task.strands (markerTasks engine true [] seamText))
          seamState strands s' ∧ Strand.Passed strands values ∧
        Interpolates seamText values (.string "\x7b\"a\":null\x7dé$(1)") := by
  intro engine
  have hmarker : Marker.find seamText ≠ [] := by decide
  have halone : ∀ due s, ∃ now, Moves.alone due s now := fun _ _ => ⟨_, rfl⟩
  have hrun : returnsText "\x7b\"a\":null\x7dé$(1)"
      (Task.run (text engine true [] seamText).run seamState) = true := by decide +kernel
  unfold returnsText at hrun
  split at hrun
  · rename_i result t h
    obtain rfl : result = "\x7b\"a\":null\x7dé$(1)" := by simpa using hrun
    have hall := text_replaces (Setup.plain Registry.builtIn) 3 true [] seamText hmarker .alone halone
      seamState
    obtain ⟨strands, s', hjoint, hreplaces⟩ := hall.2 _ (Progress.arrives_alone.2 h)
    obtain ⟨values, hpassed, hvalue⟩ := (hreplaces.returns_iff _).1 ⟨t, rfl⟩
    exact ⟨hmarker, halone, strands, s', values, hjoint, hpassed, hvalue⟩
  · cases hrun

end PropertyEvaluation

end StepScript
