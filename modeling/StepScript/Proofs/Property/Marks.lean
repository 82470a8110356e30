import StepScript.Property.KeyPlan

/-!
# Marks — what is taken off a key

The marks of a key are taken off one by one, from the outside.  Each of them asks for some work, and
after that the key inside it is looked at from the beginning.  There is an end to it where no mark is
left, or behind a `~`.

* `KeyPlan.RunMark` is about the marks that run steps, with one rule for each form, and `KeyPlan.Peels`
  about the outermost mark of any kind;
* `KeyPlan.Plans` takes all of them off, and `KeyPlan.ofKey_eq_iff`: this is the plan of a key;
* `KeyPlan.Hollow` is about the keys whose marks stand around `<>`, the only mark that can stand around
  nothing: these are the keys that leave no name (`KeyPlan.Plans.name_eq_empty_iff`).
-/

namespace StepScript

namespace KeyPlan

/-- An outer mark that runs steps, and the key inside it. -/
inductive RunMark : List Char → Collect → List Char → Prop
  | parens {inner : List Char} : inner ≠ [] → RunMark ('(' :: (inner ++ [')'])) .last inner
  | caret {inner : List Char} : inner ≠ [] → RunMark ('^' :: inner) .last inner
  | angles (inner : List Char) : RunMark ('<' :: (inner ++ ['>'])) .all inner
  | angle {inner : List Char} : inner ≠ [] → inner.getLast? ≠ some '>' →
      RunMark ('<' :: inner) .all inner

/-- The outermost mark of a key asks for some work, and leaves the key inside it. -/
inductive Peels : List Char → KeyWork → List Char → Prop
  | steps {key inner : List Char} {collect : Collect} : RunMark key collect inner →
      Peels key (.runSteps (String.ofList inner) collect) inner
  | script {inner : List Char} : inner ≠ [] → Peels ('$' :: inner) .script inner

def IsBare (key : List Char) : Prop :=
  (∀ work inner, ¬ Peels key work inner) ∧ ∀ inner, inner ≠ [] → key ≠ '~' :: inner

/-- The marks of a key are taken off until there is none, or a `~` has been taken off.  Behind each of
the others the key is looked at from the beginning. -/
inductive Plans : List Char → KeyPlan → Prop
  | mark {key inner : List Char} {work : KeyWork} {plan : KeyPlan} : Peels key work inner →
      Plans inner plan → Plans key { plan with work := work :: plan.work }
  | raw {inner : List Char} : inner ≠ [] → Plans ('~' :: inner) ⟨[], .raw, String.ofList inner⟩
  | bare {key : List Char} : IsBare key →
      Plans key ⟨[], if key = "steps".toList then .steps else .evaluated, String.ofList key⟩

variable {key inner : List Char} {collect : Collect} {work : KeyWork} {plan : KeyPlan} {fuel : Nat}

/-! ## The outermost mark -/

/-- A closing angle at the end is taken off. -/
theorem withoutAngle_append (inner : List Char) : withoutAngle (inner ++ ['>']) = inner := by
  simp [withoutAngle]

/-- Without one there is nothing to take off. -/
theorem withoutAngle_of_ne (h : inner.getLast? ≠ some '>') : withoutAngle inner = inner :=
  if_neg h

/-- What is read as a mark for running steps is one of its forms. -/
theorem runMark_of_eq_some (h : runMark? key = some (inner, collect)) : RunMark key collect inner := by
  unfold runMark? at h
  split at h
  · split at h
    · rename_i rest hmark
      obtain ⟨hlast, hlength⟩ : rest.getLast? = some ')' ∧ 1 < rest.length := by simpa using hmark
      obtain ⟨front, rfl⟩ := List.getLast?_eq_some_iff.1 hlast
      have hfront : front ≠ [] := by
        rintro rfl
        simp at hlength
      rw [List.dropLast_concat] at h
      cases h
      exact .parens hfront
    · cases h
  · split at h
    · cases h
    · rename_i rest hrest
      cases h
      exact .caret (by simpa using hrest)
  · split at h
    · cases h
    · rename_i rest hrest
      -- a closing angle is part of the mark, if there is one
      by_cases hlast : rest.getLast? = some '>'
      · obtain ⟨front, rfl⟩ := List.getLast?_eq_some_iff.1 hlast
        rw [withoutAngle_append] at h
        cases h
        exact .angles _
      · rw [withoutAngle_of_ne hlast] at h
        cases h
        exact .angle (by simpa using hrest) hlast
  · cases h

/-- A mark for running steps is read exactly where one of its forms stands. -/
theorem runMark?_eq_some_iff : runMark? key = some (inner, collect) ↔ RunMark key collect inner := by
  refine ⟨runMark_of_eq_some, fun h => ?_⟩
  cases h with
  | parens hinner => simp [runMark?, List.length_pos_iff, hinner]
  | caret hinner => simp [runMark?, hinner]
  | angles => simp [runMark?, withoutAngle_append]
  | angle hinner hlast => simp [runMark?, hinner, withoutAngle_of_ne hlast]

/-- A mark of one character is read only in front of something. -/
theorem behind?_eq_some_iff {mark : Char} :
    behind? mark key = some inner ↔ inner ≠ [] ∧ key = mark :: inner := by
  cases key with
  | nil => simp [behind?]
  | cons c rest =>
    simp only [behind?, Option.ite_none_right_eq_some, Bool.and_eq_true, Bool.not_eq_true',
      List.isEmpty_eq_false_iff, decide_eq_true_eq, Option.some.injEq, List.cons.injEq]
    constructor
    · rintro ⟨⟨hc, hrest⟩, rfl⟩
      exact ⟨hrest, hc, rfl⟩
    · rintro ⟨hinner, hc, rfl⟩
      exact ⟨⟨hc, hinner⟩, rfl⟩

theorem RunMark.length_lt (h : RunMark key collect inner) : inner.length < key.length := by
  cases h with
  | parens | angles =>
    rw [List.length_cons, List.length_append]
    omega
  | caret | angle => exact Nat.lt_succ_self _

theorem Peels.length_lt (h : Peels key work inner) : inner.length < key.length := by
  cases h with
  | steps hmark => exact hmark.length_lt
  | script => exact Nat.lt_succ_self _

/-- A mark stands around something, unless it is `<>`. -/
theorem Peels.ne_nil_or (h : Peels key work inner) : inner ≠ [] ∨ key = ['<', '>'] := by
  cases h with
  | script hinner => exact .inl hinner
  | steps hmark =>
    cases hmark with
    | parens hinner | caret hinner | angle hinner => exact .inl hinner
    | angles =>
      cases inner with
      | nil => exact .inr rfl
      | cons c rest => exact .inl (List.cons_ne_nil c rest)

/-- A key with a mark for running steps is no script. -/
theorem RunMark.not_script (h : RunMark key collect inner) (rest : List Char) :
    key ≠ '$' :: rest := by
  cases h <;> exact nofun

/-- A key has one outermost mark at most. -/
theorem Peels.unique {work' : KeyWork} {inner' : List Char} (h : Peels key work inner)
    (h' : Peels key work' inner') : work = work' ∧ inner = inner' := by
  cases h with
  | steps hmark =>
    cases h' with
    | steps hmark' =>
      have hsame := (runMark?_eq_some_iff.2 hmark).symm.trans (runMark?_eq_some_iff.2 hmark')
      cases hsame
      exact ⟨rfl, rfl⟩
    | script => exact absurd rfl (hmark.not_script _)
  | script =>
    cases h' with
    | steps hmark' => exact absurd rfl (hmark'.not_script _)
    | script => exact ⟨rfl, rfl⟩

/-- A key whose outermost mark asks for work is not raw. -/
theorem Peels.not_raw (h : Peels key work inner) (rest : List Char) : key ≠ '~' :: rest := by
  cases h with
  | steps hmark => cases hmark <;> exact nofun
  | script => exact nofun

/-! ## All of them -/

/-- Marks are taken off in this way as long as there is fuel for the characters of the key. -/
theorem plans_ofChars (h : key.length < fuel) : Plans key (ofChars fuel key) := by
  induction fuel generalizing key with
  | zero => exact absurd h (Nat.not_lt_zero _)
  | succ fuel ih =>
    have hinside {work : KeyWork} {inner : List Char} (hpeels : Peels key work inner) :
        Plans inner (ofChars fuel inner) :=
      ih (Nat.lt_of_lt_of_le hpeels.length_lt (Nat.le_of_lt_succ h))
    unfold ofChars
    split
    · rename_i inner collect hmark
      have hpeels : Peels key _ inner := .steps (runMark?_eq_some_iff.1 hmark)
      exact .mark hpeels (hinside hpeels)
    · rename_i hnone
      split
      · rename_i inner hscript
        obtain ⟨hinner, rfl⟩ := behind?_eq_some_iff.1 hscript
        exact .mark (.script hinner) (hinside (.script hinner))
      · rename_i hnoscript
        split
        · rename_i inner hraw
          obtain ⟨hinner, rfl⟩ := behind?_eq_some_iff.1 hraw
          exact .raw hinner
        · rename_i hnoraw
          have hbare : IsBare key := by
            refine ⟨fun work inner hpeels => ?_, fun inner hinner hkey => ?_⟩
            · cases hpeels with
              | steps hmark => simp [runMark?_eq_some_iff.2 hmark] at hnone
              | script hinner => simp [behind?_eq_some_iff.2 ⟨hinner, rfl⟩] at hnoscript
            · simp [behind?_eq_some_iff.2 ⟨hinner, hkey⟩] at hnoraw
          exact .bare hbare

/-- A key has one plan. -/
theorem Plans.unique {plan' : KeyPlan} (h : Plans key plan) (h' : Plans key plan') : plan = plan' := by
  induction h generalizing plan' with
  | mark hpeels _ ih =>
    cases h' with
    | mark hpeels' hplan' =>
      obtain ⟨rfl, rfl⟩ := hpeels.unique hpeels'
      rw [ih hplan']
    | raw => exact absurd rfl (hpeels.not_raw _)
    | bare hbare => exact absurd hpeels (hbare.1 _ _)
  | raw hinner =>
    cases h' with
    | mark hpeels' _ => exact absurd rfl (hpeels'.not_raw _)
    | raw => rfl
    | bare hbare => exact absurd rfl (hbare.2 _ hinner)
  | bare hbare =>
    cases h' with
    | mark hpeels' _ => exact absurd hpeels' (hbare.1 _ _)
    | raw hinner => exact absurd rfl (hbare.2 _ hinner)
    | bare => rfl

/-- The plan of a key takes its marks off from the outside. -/
theorem ofKey_eq_iff {key : String} : ofKey key = plan ↔ Plans key.toList plan := by
  have hplans : Plans key.toList (ofKey key) := plans_ofChars (Nat.lt_succ_self _)
  constructor
  · rintro rfl
    exact hplans
  · exact fun h => hplans.unique h

example : ofKey "$<(a)" = ⟨[.script, .runSteps "(a)" .all, .runSteps "a" .last], .evaluated, "a"⟩ := by
  decide

example : ofKey "$~(steps)" = ⟨[.script], .raw, "(steps)"⟩ := by
  decide

/-- Each mark is a character of the key at least. -/
theorem Plans.length_work_le (h : Plans key plan) : plan.work.length ≤ key.length := by
  induction h with
  | mark hpeels _ ih => exact Nat.succ_le_of_lt (Nat.lt_of_le_of_lt ih hpeels.length_lt)
  | raw | bare => exact Nat.zero_le _

/-! ## Keys without a name -/

/-- The marks of a key stand around `<>`. -/
inductive Hollow : List Char → Prop
  | angles : Hollow ['<', '>']
  | mark {key inner : List Char} {work : KeyWork} : Peels key work inner → Hollow inner → Hollow key

/-- Taking a mark off leaves a hollow key hollow, or leaves nothing. -/
theorem Peels.hollow_iff (h : Peels key work inner) : Hollow key ↔ inner = [] ∨ Hollow inner := by
  constructor
  · intro hhollow
    cases hhollow with
    | angles =>
      obtain ⟨-, rfl⟩ := h.unique (.steps (.angles []))
      exact .inl rfl
    | mark hpeels hinner =>
      obtain ⟨-, rfl⟩ := h.unique hpeels
      exact .inr hinner
  · rintro (rfl | hinner)
    · obtain hne | rfl := h.ne_nil_or
      · exact absurd rfl hne
      · exact .angles
    · exact .mark h hinner

/-- Nothing is left of a key that is empty or whose marks stand around `<>`, and of no other one. -/
theorem Plans.name_eq_empty_iff (h : Plans key plan) : plan.name = "" ↔ key = [] ∨ Hollow key := by
  induction h with
  | @mark key inner work plan hpeels _ ih =>
    have hkey : key ≠ [] := List.ne_nil_of_length_pos (Nat.zero_lt_of_lt hpeels.length_lt)
    rw [hpeels.hollow_iff, ih, or_iff_right hkey]
  | raw hinner =>
    have hhollow (inner : List Char) : ¬ Hollow ('~' :: inner) := by
      intro h
      cases h with
      | mark hpeels => exact hpeels.not_raw _ rfl
    simp [hinner, hhollow]
  | @bare key hbare =>
    have hhollow : ¬ Hollow key := by
      intro h
      cases h with
      | angles => exact hbare.1 _ _ (.steps (.angles []))
      | mark hpeels => exact hbare.1 _ _ hpeels
    simp [hhollow]

end KeyPlan

end StepScript
