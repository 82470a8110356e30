import Mathlib.Data.List.Infix
import StepScript.Text.Lowercase

/-!
# Caseless — texts without regard to case

Whether a letter is written large or small, it is the same letter, wherever it stands: so a text without
case is made letter by letter.  Lower case is not: a large sigma becomes one letter at the end of a word
and another one everywhere else.  A text that occurs in another one may therefore occur no longer when
both are in lower case, but that takes a sigma.

* `Lowercase.map_oneSigma_lower`: in lower case, texts differ from those without case in sigmas only;
* `Lowercase.infix_lower_iff`: a text without a sigma occurs in lower case where it occurs without case.
-/

namespace StepScript

namespace Lowercase

variable {part whole : String}

def oneSigma (c : Char) : Char :=
  if c = 'ς' then 'σ' else c

def caselessChar (c : Char) : List Char :=
  if c = 'Σ' then ['σ'] else if c = 'İ' then ['i', Char.ofNat 0x307] else [oneSigma (simple c)]

def caseless (s : String) : List Char :=
  s.toList.flatMap caselessChar

/-- Up to its kind of sigma the fold of a text is made letter by letter, whatever stands before. -/
theorem map_oneSigma_fold (before cs : List Char) :
    (fold before cs).map oneSigma = cs.flatMap caselessChar := by
  induction cs generalizing before with
  | nil => rfl
  | cons c rest ih =>
    rw [fold, List.map_append, ih, List.flatMap_cons]
    congr 1
    unfold caselessChar
    split
    · -- both forms of a small sigma are one letter
      split <;> decide
    · split
      · decide
      · rfl

/-- A text in lower case is the text without case, up to the kinds of sigma. -/
theorem map_oneSigma_lower (s : String) : (lower s).toList.map oneSigma = caseless s := by
  rw [lower, String.toList_ofList]
  exact map_oneSigma_fold [] s.toList

/-- What occurs in a text occurs in it without case. -/
theorem infix_caseless (h : part.toList <:+: whole.toList) : caseless part <:+: caseless whole := by
  obtain ⟨front, back, hwhole⟩ := h
  refine ⟨front.flatMap caselessChar, back.flatMap caselessChar, ?_⟩
  rw [caseless, caseless, ← hwhole, List.flatMap_append, List.flatMap_append]

/-- What occurs in lower case occurs without case. -/
theorem infix_caseless_of_lower (h : (lower part).toList <:+: (lower whole).toList) :
    caseless part <:+: caseless whole := by
  rw [← map_oneSigma_lower, ← map_oneSigma_lower]
  exact h.map oneSigma

/-- Letters that are no sigma are what they are. -/
theorem eq_of_map_oneSigma {cs ds : List Char} (h : cs.map oneSigma = ds.map oneSigma)
    (hnone : 'σ' ∉ ds.map oneSigma) : cs = ds := by
  induction cs generalizing ds with
  | nil => exact (List.map_eq_nil_iff.1 h.symm).symm
  | cons c cs ih =>
    obtain ⟨d, ds, rfl, hd, hds⟩ := List.map_eq_cons_iff.1 h.symm
    rw [List.map_cons, List.mem_cons, not_or] at hnone
    have hplain {e : Char} (he : 'σ' ≠ oneSigma e) : oneSigma e = e :=
      if_neg fun heq => he (by rw [heq]; rfl)
    have hhead : c = d :=
      calc c = oneSigma c := (hplain (hd ▸ hnone.1)).symm
        _ = oneSigma d := hd.symm
        _ = d := hplain hnone.1
    rw [hhead, ih hds.symm hnone.2]

/-- A text without a sigma occurs in another one in lower case if and only if it does without case. -/
theorem infix_lower_iff (hnone : 'σ' ∉ caseless part) :
    (lower part).toList <:+: (lower whole).toList ↔ caseless part <:+: caseless whole := by
  refine ⟨infix_caseless_of_lower, ?_⟩
  rw [← map_oneSigma_lower] at hnone ⊢
  rw [← map_oneSigma_lower]
  rintro ⟨front, back, hwhole⟩
  obtain ⟨cs, after, hsplit, hcs, -⟩ := List.map_eq_append_iff.1 hwhole.symm
  obtain ⟨front', part', rfl, -, hpart⟩ := List.map_eq_append_iff.1 hcs
  rw [hsplit, ← eq_of_map_oneSigma hpart hnone]
  exact ⟨front', after, rfl⟩

end Lowercase

end StepScript
