import Mathlib.Data.List.Basic
import StepScript.Expression.Alias

/-!
# Renaming — the text of an expression with its short names written out

A call of a function is its name in front of an opening parenthesis, where the name does not continue a
word.  Replacing the calls of one function by those of another leaves all other characters as they are,
whether they stand inside a string or not.

* `Alias.Calls` says that a text calls a function;
* `Alias.Renames` describes a text in which calls are renamed, and `Alias.renames_iff` says that the
  replacement of calls follows the description;
* `Alias.expand_eq_self_iff`: a text is left as it is if and only if it calls neither function;
* `Alias.replaceCall_enclosed`: text between two characters that are in no name is renamed by itself.
-/

namespace StepScript

namespace Alias

variable {name replacement cs out : List Char} {afterWord : Bool}

/-! ## Calls -/

/-- Whether a word may go on behind a text, which stands behind a word or not. -/
def endsInWord (afterWord : Bool) (before : List Char) : Bool :=
  (before.getLast?.map WordChar.isWord).getD afterWord

/-- A text, which stands behind a word or not, calls a function. -/
def CallsBehind (afterWord : Bool) (name cs : List Char) : Prop :=
  ∃ before after, cs = before ++ (name ++ '(' :: after) ∧ endsInWord afterWord before = false

/-- A text calls a function: the name stands in front of a parenthesis and does not continue a word. -/
def Calls (name : String) (text : String) : Prop :=
  CallsBehind false name.toList text.toList

/-- In a text, which stands behind a word or not, the calls of one function are renamed. -/
inductive Renames (name replacement : List Char) : Bool → List Char → List Char → Prop
  | done (afterWord : Bool) : Renames name replacement afterWord [] []
  | call {rest out : List Char} : Renames name replacement false rest out →
      Renames name replacement false (name ++ '(' :: rest) (replacement ++ '(' :: out)
  | keep {afterWord : Bool} {c : Char} {rest out : List Char} :
      (afterWord = false → ¬ name ++ ['('] <+: c :: rest) →
      Renames name replacement (WordChar.isWord c) rest out →
      Renames name replacement afterWord (c :: rest) (c :: out)

theorem endsInWord_cons (afterWord : Bool) (c : Char) (before : List Char) :
    endsInWord afterWord (c :: before) = endsInWord (WordChar.isWord c) before := by
  simp only [endsInWord, List.getLast?_cons]
  cases before.getLast? with
  | none => rfl
  | some d => rfl

theorem not_callsBehind_nil : ¬ CallsBehind afterWord name [] := by
  rintro ⟨before, after, h, -⟩
  simp at h

/-- The first call stands at the front of a text or behind its first character. -/
theorem callsBehind_cons_iff {c : Char} {rest : List Char} :
    CallsBehind afterWord name (c :: rest) ↔ (afterWord = false ∧ name ++ ['('] <+: c :: rest) ∨
      CallsBehind (WordChar.isWord c) name rest := by
  constructor
  · rintro ⟨before, after, htext, hbefore⟩
    cases before with
    | nil => exact .inl ⟨hbefore, after, by simp [htext]⟩
    | cons d before =>
      obtain ⟨rfl, rfl⟩ := List.cons.inj htext
      exact .inr ⟨before, after, rfl, (endsInWord_cons _ _ _).symm.trans hbefore⟩
  · rintro (⟨rfl, after, htext⟩ | ⟨before, after, rfl, hbefore⟩)
    · exact ⟨[], after, by simp [← htext], rfl⟩
    · exact ⟨c :: before, after, rfl, (endsInWord_cons _ _ _).trans hbefore⟩

/-! ## The replacement of calls -/

/-- What is looked for is never empty. -/
theorem exists_cons_append_paren (name : List Char) :
    ∃ first others, name ++ ['('] = first :: others :=
  List.exists_cons_of_ne_nil (by simp)

/-- Characters that belong to a replaced call are passed over. -/
theorem replaceFrom_length (taken rest : List Char) :
    replaceFrom name replacement taken.length afterWord (taken ++ rest) =
      replaceFrom name replacement 0 (endsInWord afterWord taken) rest := by
  induction taken generalizing afterWord with
  | nil => rfl
  | cons c taken ih =>
    rw [endsInWord_cons, List.length_cons, List.cons_append, replaceFrom, ih]

/-- A call of the function is replaced, and the search goes on behind its parenthesis. -/
theorem replaceFrom_call (rest : List Char) :
    replaceFrom (name ++ ['(']) replacement 0 false (name ++ '(' :: rest) =
      replacement ++ replaceFrom (name ++ ['(']) replacement 0 false rest := by
  -- behind the parenthesis no word goes on
  have hend (first : Char) (others : List Char) (h : name ++ ['('] = first :: others) :
      endsInWord (WordChar.isWord first) others = false := by
    rw [← endsInWord_cons false, ← h, endsInWord, List.getLast?_concat]
    decide
  obtain ⟨first, others, hname⟩ := exists_cons_append_paren name
  have htext : name ++ '(' :: rest = first :: (others ++ rest) := by
    rw [← List.cons_append, ← hname, List.append_assoc, List.singleton_append]
  have hprefix : (first :: others).isPrefixOf (first :: (others ++ rest)) = true :=
    List.isPrefixOf_iff_prefix.2 ⟨rest, rfl⟩
  rw [htext, hname, replaceFrom, hprefix, Bool.not_false, Bool.true_and, if_pos rfl,
    List.length_cons, Nat.add_sub_cancel, replaceFrom_length, hend first others hname]

/-- A character where no call begins is kept. -/
theorem replaceFrom_keep {c : Char} {rest : List Char}
    (h : afterWord = false → ¬ name <+: c :: rest) :
    replaceFrom name replacement 0 afterWord (c :: rest) =
      c :: replaceFrom name replacement 0 (WordChar.isWord c) rest := by
  rw [replaceFrom, if_neg]
  rw [Bool.and_eq_true, Bool.not_eq_true', List.isPrefixOf_iff_prefix]
  exact fun hcall => h hcall.1 hcall.2

/-- The replacement of calls renames them, and does nothing else. -/
theorem renames_iff : Renames name replacement afterWord cs out ↔
    replaceFrom (name ++ ['(']) (replacement ++ ['(']) 0 afterWord cs = out := by
  constructor
  · intro h
    induction h with
    | done afterWord => rfl
    | call _ ih => rw [replaceFrom_call, ih, List.append_assoc, List.singleton_append]
    | keep hkeep _ ih => rw [replaceFrom_keep hkeep, ih]
  · rintro rfl
    -- a call takes several characters, so the length bounds the recursion
    induction hlength : cs.length using Nat.strongRecOn generalizing cs afterWord with
    | _ length ih =>
      subst hlength
      cases cs with
      | nil => exact .done afterWord
      | cons c rest =>
        by_cases hcall : afterWord = false ∧ name ++ ['('] <+: c :: rest
        · obtain ⟨rfl, after, htext⟩ := hcall
          have hsplit : c :: rest = name ++ '(' :: after := by simp [← htext]
          rw [hsplit, replaceFrom_call, List.append_assoc, List.singleton_append]
          exact .call (ih after.length (by simp [hsplit]; omega) rfl)
        · have hkeep : afterWord = false → ¬ name ++ ['('] <+: c :: rest := by
            simpa [not_and] using hcall
          rw [replaceFrom_keep hkeep]
          exact .keep hkeep (ih rest.length (by simp) rfl)

/-- Where the new name is longer, a text in which a call is renamed grows, and any other one stays as it
is. -/
theorem Renames.grows (h : Renames name replacement afterWord cs out)
    (hlonger : name.length < replacement.length) :
    (out = cs ∧ ¬ CallsBehind afterWord name cs) ∨
      (cs.length < out.length ∧ CallsBehind afterWord name cs) := by
  induction h with
  | done afterWord => exact .inl ⟨rfl, not_callsBehind_nil⟩
  | @call rest out _ ih =>
    refine .inr ⟨?_, [], rest, rfl, rfl⟩
    have hrest : rest.length ≤ out.length := by
      rcases ih with ⟨rfl, -⟩ | ⟨hgrows, -⟩
      · exact Nat.le_refl _
      · exact Nat.le_of_lt hgrows
    simp only [List.length_append, List.length_cons]
    omega
  | keep hkeep _ ih =>
    rw [callsBehind_cons_iff]
    rcases ih with ⟨rfl, hnone⟩ | ⟨hgrows, hcalls⟩
    · exact .inl ⟨rfl, fun hcalls => hcalls.elim (fun hfront => hkeep hfront.1 hfront.2) hnone⟩
    · exact .inr ⟨Nat.succ_lt_succ hgrows, .inr hcalls⟩

/-- Renaming brings in no characters but those of the new name. -/
theorem Renames.mem (h : Renames name replacement afterWord cs out) {d : Char} (hd : d ∈ out) :
    d ∈ cs ∨ d ∈ replacement := by
  induction h with
  | done => exact .inl hd
  | call _ ih =>
    simp only [List.mem_append, List.mem_cons] at hd ⊢
    rcases hd with hd | rfl | hd
    · exact .inr hd
    · exact .inl (.inr (.inl rfl))
    · exact (ih hd).imp (fun hrest => .inr (.inr hrest)) id
  | keep _ _ ih =>
    rcases List.mem_cons.1 hd with rfl | hd
    · exact .inl List.mem_cons_self
    · exact (ih hd).imp (List.mem_cons_of_mem _) id

/-- A name that is found before a character outside it is found without what follows. -/
theorem prefix_of_prefix_append {d : Char} (hd : d ∉ name) {before after : List Char}
    (h : name <+: before ++ d :: after) : name <+: before := by
  have hfront : before ++ [d] <+: before ++ d :: after := ⟨after, by simp⟩
  rcases List.prefix_or_prefix_of_prefix h hfront with hshort | hlong
  · rcases List.prefix_concat_iff.1 hshort with rfl | hbefore
    · simp at hd
    · exact hbefore
  · exact absurd (hlong.subset (by simp)) hd

/-- Calls do not go over a character that is in no name. -/
theorem Renames.append (h : Renames name replacement afterWord cs out) {d : Char}
    (hd : d ∉ name ++ ['(']) {after out' : List Char}
    (hafter : Renames name replacement (WordChar.isWord d) after out') :
    Renames name replacement afterWord (cs ++ d :: after) (out ++ d :: out') := by
  induction h with
  | done afterWord =>
    refine .keep (fun _ hprefix => hd ?_) hafter
    -- a call at the front would begin with the character
    obtain ⟨first, others, hname⟩ := exists_cons_append_paren name
    rw [hname] at hprefix ⊢
    obtain ⟨rfl, -⟩ := List.cons_prefix_cons.1 hprefix
    exact List.mem_cons_self
  | call _ ih =>
    simp only [List.append_assoc, List.cons_append]
    exact .call ih
  | @keep afterWord c rest out hkeep _ ih =>
    exact .keep (fun hword hprefix => hkeep hword (prefix_of_prefix_append hd hprefix)) ih

/-! ## Both short names -/

/-- The replacement of the program is the relation, from the beginning of the text. -/
theorem replaceCall_renames (name replacement : String) (cs : List Char) :
    Renames name.toList replacement.toList false cs (replaceCall name replacement cs) :=
  renames_iff.2 rfl

/-- A text is left as it is if and only if it calls neither of the functions with short names. -/
theorem expand_eq_self_iff {text : String} :
    expand text = text ↔ ¬ Calls "len" text ∧ ¬ Calls "type" text := by
  have hlen := (replaceCall_renames "len" "size" text.toList).grows (by decide)
  have htype := (replaceCall_renames "type" "type_of"
    (replaceCall "len" "size" text.toList)).grows (by decide)
  rw [expand, ← String.toList_inj, String.toList_ofList]
  rcases hlen with ⟨hsame, hnone⟩ | ⟨hgrows, hcalls⟩
  · rw [hsame] at htype ⊢
    rcases htype with ⟨hsame', hnone'⟩ | ⟨hgrows', hcalls'⟩
    · exact iff_of_true hsame' ⟨hnone, hnone'⟩
    · refine iff_of_false (fun h => ?_) fun h => h.2 hcalls'
      rw [h] at hgrows'
      exact Nat.lt_irrefl _ hgrows'
  · -- the text has grown already, and it does not shrink again
    refine iff_of_false (fun h => ?_) fun h => h.1 hcalls
    have hlonger : text.toList.length <
        (replaceCall "type" "type_of" (replaceCall "len" "size" text.toList)).length := by
      rcases htype with ⟨hsame', -⟩ | ⟨hgrows', -⟩
      · rwa [hsame']
      · exact Nat.lt_trans hgrows hgrows'
    rw [h] at hlonger
    exact Nat.lt_irrefl _ hlonger

/-- Text between two characters that are in no name, and continue none, is renamed by itself. -/
theorem replaceCall_enclosed (name replacement : String) {d : Char} (hd : d ∉ name.toList ++ ['('])
    (hword : WordChar.isWord d = false) (cs : List Char) :
    replaceCall name replacement (d :: (cs ++ [d])) =
      d :: (replaceCall name replacement cs ++ [d]) := by
  have hinside := replaceCall_renames name replacement cs
  have hlast : Renames name.toList replacement.toList (WordChar.isWord d) [] [] := .done _
  have hrest := hinside.append hd hlast
  rw [← hword] at hrest
  exact renames_iff.1 ((Renames.done false).append hd hrest)

/-- The characters of a text with both short names written out are its own and letters. -/
theorem mem_expand {text : String} {d : Char} (h : d ∈ (expand text).toList) :
    d ∈ text.toList ∨ d ∈ "size".toList ∨ d ∈ "type_of".toList := by
  rw [expand, String.toList_ofList] at h
  rcases (replaceCall_renames _ _ _).mem h with h | h
  · exact ((replaceCall_renames _ _ _).mem h).imp id .inl
  · exact .inr (.inr h)

end Alias

end StepScript
