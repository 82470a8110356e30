import StepScript.Proofs.Run.Congruence

/-!
# Numbering — what the number of a step says

The number of a step that is run for another one goes on behind the number of that one with a mark
and a text (`Under`).  No mark is a digit, so a number says where it has come from: of the numbers
that end with a count behind some text, at most one lies around it
(`Numbering.separate_append`).
-/

namespace StepScript

variable {outer number inner : String}

/-! ## Around a number -/

/-- The number of a step, or of one that is run for it. -/
def Within (outer number : String) : Prop :=
  number = outer ∨ Under outer number

/-- A step beneath another one lies within it. -/
theorem Under.within (h : Under outer number) : Within outer number := .inr h

/-- No step lies beneath itself. -/
theorem not_under_self : ¬ Under number number := by
  rintro ⟨mark, -, rest, h⟩
  simp at h

/-- A step within one that lies beneath another lies beneath that one, too. -/
theorem Under.trans (h : Under outer number) (h' : Within number inner) : Under outer inner := by
  obtain ⟨mark, hmark, rest, hnumber⟩ := h
  obtain rfl | ⟨mark', -, rest', hinner⟩ := h'
  · exact ⟨mark, hmark, rest, hnumber⟩
  · exact ⟨mark, hmark, rest ++ mark' :: rest', by simp [hinner, hnumber]⟩

/-- Behind the number of a step that is around another one, there are no digits. -/
theorem Within.takeWhile_isDigit (h : Within outer number) :
    ∃ rest, number.toList = outer.toList ++ rest ∧ rest.takeWhile Char.isDigit = [] := by
  obtain rfl | ⟨mark, hmark, rest, hnumber⟩ := h
  · exact ⟨[], by simp, rfl⟩
  · refine ⟨mark :: rest, hnumber, ?_⟩
    simp only [List.mem_cons, List.not_mem_nil, or_false] at hmark
    obtain rfl | rfl := hmark <;> rfl

/-! ## Counting -/

theorem toList_toString (n : Nat) : (toString n).toList = Nat.toDigits 10 n :=
  Nat.toList_repr

/-- Different indices are written differently. -/
theorem toString_injective {i j : Nat} (h : (toString i).toList = (toString j).toList) : i = j := by
  have hread := congrArg (fun digits => Nat.ofDigitChars 10 digits 0) h
  simpa [toList_toString, Nat.ofDigitChars_toDigits] using hread

/-- An index is written with digits only. -/
theorem isDigit_of_mem_toString {i : Nat} {c : Char} (h : c ∈ (toString i).toList) :
    c.isDigit = true :=
  Nat.isDigit_of_mem_toDigits (b := 10) (by decide) (by decide) (by rwa [toList_toString] at h)

/-- What is read of a count in front of text without digits. -/
theorem takeWhile_toString_append (i : Nat) {rest : List Char}
    (h : rest.takeWhile Char.isDigit = []) :
    ((toString i).toList ++ rest).takeWhile Char.isDigit = (toString i).toList := by
  have hdigits : ∀ c ∈ (toString i).toList, c.isDigit = true := fun _ => isDigit_of_mem_toString
  rw [List.takeWhile_append_of_pos hdigits, h, List.append_nil]

/-- Of two counts behind the same text, only one lies around a number. -/
theorem within_toString_injective {text : String} {i j : Nat}
    (hi : Within (text ++ toString i) number) (hj : Within (text ++ toString j) number) : i = j := by
  obtain ⟨rest, hrest, hnone⟩ := hi.takeWhile_isDigit
  obtain ⟨rest', hrest', hnone'⟩ := hj.takeWhile_isDigit
  have hbehind : (toString i).toList ++ rest = (toString j).toList ++ rest' := by
    rw [hrest, String.toList_append, String.toList_append, List.append_assoc,
      List.append_assoc] at hrest'
    exact List.append_cancel_left hrest'
  have hread := congrArg (List.takeWhile Char.isDigit) hbehind
  rw [takeWhile_toString_append i hnone, takeWhile_toString_append j hnone'] at hread
  exact toString_injective hread

namespace Numbering

/-- No number lies within two of the numbers. -/
def Separate (numbering : Numbering) : Prop :=
  ∀ ⦃i j : Nat⦄ ⦃number : String⦄, Within (numbering i) number → Within (numbering j) number → i = j

/-- Numbers that count behind some text are separate. -/
theorem separate_append (text : String) : Separate fun i => text ++ toString i :=
  fun _ _ _ => within_toString_injective

/-- No number lies within two of the numbers of a test. -/
theorem separate_topLevel : Separate ListRun.topLevel := by
  intro i j number hi hj
  have hcount (i : Nat) : ListRun.topLevel i = "" ++ toString (i + 1) :=
    (String.empty_append).symm
  rw [hcount] at hi hj
  exact Nat.succ.inj (within_toString_injective hi hj)

end Numbering

end StepScript
