import StepScript.Marker

/-!
# Occurrence — the grammar of a marker

`Marker.Balanced` says which texts may stand inside a marker, and `Marker.Occurs` that a text holds
a marker somewhere.  Reading a marker off the front of a text follows the grammar
(`Marker.first?_eq_some_iff`), and cutting a text into pieces finds a marker exactly when one occurs
(`Marker.codes_pieces_eq_nil_iff`).
-/

namespace StepScript

namespace Marker

/-- Text whose parentheses are closed in order and go no more than some levels deep. -/
inductive Balanced : Nat → List Char → Prop where
  | nil {levels : Nat} : Balanced levels []
  | plain {levels : Nat} {c : Char} {cs : List Char} (hopen : c ≠ '(') (hclose : c ≠ ')')
      (rest : Balanced levels cs) : Balanced levels (c :: cs)
  | group {levels : Nat} {inner cs : List Char} (inside : Balanced levels inner)
      (rest : Balanced (levels + 1) cs) : Balanced (levels + 1) ('(' :: (inner ++ ')' :: cs))

/-- A marker stands somewhere in a text. -/
def Occurs (text : List Char) : Prop :=
  ∃ before code after, text = before ++ '$' :: '(' :: (code ++ ')' :: after) ∧
    Balanced maxDepth code

/-! ## The code of a marker -/

/-- A character that is no parenthesis belongs to the code. -/
theorem body?_plain {c : Char} (hopen : c ≠ '(') (hclose : c ≠ ')') (depth : Nat)
    (rest : List Char) :
    body? depth (c :: rest) = (body? depth rest).map fun b => (c :: b.1, b.2) := by
  simp [body?, hopen, hclose]

/-- An opening parenthesis belongs to the code as long as one level is left. -/
theorem body?_open {depth : Nat} (h : depth < maxDepth) (rest : List Char) :
    body? depth ('(' :: rest) = (body? (depth + 1) rest).map fun b => ('(' :: b.1, b.2) := by
  simp [body?, h]

/-- A closing parenthesis ends a level of the code. -/
theorem body?_close (depth : Nat) (rest : List Char) :
    body? (depth + 1) (')' :: rest) = (body? depth rest).map fun b => (')' :: b.1, b.2) := by
  simp [body?]

/-- Balanced text is read through, whatever stands behind it. -/
theorem Balanced.body?_append {levels : Nat} {inner : List Char} (h : Balanced levels inner)
    {depth : Nat} (hdepth : depth + levels = maxDepth) (rest : List Char) :
    body? depth (inner ++ rest) = (body? depth rest).map fun b => (inner ++ b.1, b.2) := by
  induction h generalizing depth rest with
  | nil => simp
  | plain hopen hclose _ ih =>
    rw [List.cons_append, body?_plain hopen hclose, ih hdepth, Option.map_map]
    rfl
  | @group levels inner cs _ _ ihInside ihRest =>
    -- the group is read one level deeper, and its closing parenthesis leads back to this one
    have hinner : depth + 1 + levels = maxDepth := by omega
    calc body? depth ('(' :: (inner ++ ')' :: cs) ++ rest)
        = body? depth ('(' :: (inner ++ ')' :: (cs ++ rest))) := by simp
      _ = (body? depth rest).map fun b => ('(' :: (inner ++ ')' :: cs) ++ b.1, b.2) := by
          rw [body?_open (by omega), ihInside hinner, body?_close, ihRest hdepth]
          simp [Option.map_map, Function.comp_def]

/-- Text that closes all the parentheses that are open. -/
def Closes : Nat → List Char → Prop
  | 0, code => Balanced maxDepth code
  | depth + 1, code => ∃ inner rest, code = inner ++ ')' :: rest ∧
      Balanced (maxDepth - (depth + 1)) inner ∧ Closes depth rest

theorem Closes.plain {depth : Nat} {c : Char} {code : List Char} (hopen : c ≠ '(')
    (hclose : c ≠ ')') (h : Closes depth code) : Closes depth (c :: code) := by
  cases depth with
  | zero => exact Balanced.plain hopen hclose h
  | succ depth =>
    obtain ⟨inner, rest, rfl, hinner, hrest⟩ := h
    exact ⟨c :: inner, rest, rfl, hinner.plain hopen hclose, hrest⟩

/-- What closes one parenthesis more, behind an opening one. -/
theorem Closes.group {depth : Nat} {code : List Char} (hdepth : depth < maxDepth)
    (h : Closes (depth + 1) code) : Closes depth ('(' :: code) := by
  obtain ⟨inner, rest, rfl, hinner, hrest⟩ := h
  have hlevels : maxDepth - depth = maxDepth - (depth + 1) + 1 := by omega
  cases depth with
  | zero => exact Balanced.group hinner hrest
  | succ depth =>
    -- behind the new group stands what closes the parenthesis around it
    obtain ⟨inner', rest', rfl, hinner', hrest'⟩ := hrest
    refine ⟨'(' :: (inner ++ ')' :: inner'), rest', by simp, ?_, hrest'⟩
    rw [hlevels] at hinner' ⊢
    exact Balanced.group hinner hinner'

/-- What is read as a code closes all its levels, and a parenthesis stands behind it. -/
theorem closes_of_body? {depth : Nat} {cs code after : List Char}
    (h : body? depth cs = some (code, after)) :
    cs = code ++ ')' :: after ∧ Closes depth code := by
  -- each case of the reader takes one character, which `Closes` puts in front of what follows
  fun_induction body? depth cs generalizing code after with
  | case1 => simp at h
  | case2 rest =>
    obtain ⟨rfl, rfl⟩ : code = [] ∧ after = rest := by simpa [eq_comm] using h
    exact ⟨rfl, Balanced.nil⟩
  | case3 rest depth ih =>
    obtain ⟨⟨code, after⟩, hbody, heq⟩ := Option.map_eq_some_iff.1 h
    obtain ⟨rfl, rfl⟩ := Prod.mk.inj heq
    obtain ⟨rfl, hcloses⟩ := ih hbody
    exact ⟨rfl, [], code, rfl, Balanced.nil, hcloses⟩
  | case4 depth rest hdepth _ ih =>
    obtain ⟨⟨code, after⟩, hbody, heq⟩ := Option.map_eq_some_iff.1 h
    obtain ⟨rfl, rfl⟩ := Prod.mk.inj heq
    obtain ⟨rfl, hcloses⟩ := ih hbody
    exact ⟨rfl, hcloses.group hdepth⟩
  | case5 => simp at h
  | case6 depth c rest hclose hopen ih =>
    obtain ⟨⟨code, after⟩, hbody, heq⟩ := Option.map_eq_some_iff.1 h
    obtain ⟨rfl, rfl⟩ := Prod.mk.inj heq
    obtain ⟨rfl, hcloses⟩ := ih hbody
    exact ⟨rfl, hcloses.plain hopen hclose⟩

/-- A code is read exactly if it is balanced and closed by a parenthesis. -/
theorem body?_eq_some_iff {cs code after : List Char} :
    body? 0 cs = some (code, after) ↔ cs = code ++ ')' :: after ∧ Balanced maxDepth code := by
  refine ⟨closes_of_body?, ?_⟩
  rintro ⟨rfl, hcode⟩
  rw [hcode.body?_append (Nat.zero_add _)]
  simp [body?]

/-! ## The markers of a text -/

/-- A marker stands at the front exactly if a dollar sign and a balanced code between parentheses
do. -/
theorem first?_eq_some_iff {cs code after : List Char} :
    first? cs = some (code, after) ↔
      cs = '$' :: '(' :: (code ++ ')' :: after) ∧ Balanced maxDepth code := by
  constructor
  · intro h
    unfold first? at h
    split at h
    · obtain ⟨rfl, hcode⟩ := body?_eq_some_iff.1 h
      exact ⟨rfl, hcode⟩
    · simp at h
  · rintro ⟨rfl, hcode⟩
    exact body?_eq_some_iff.2 ⟨rfl, hcode⟩

theorem not_occurs_nil : ¬ Occurs [] := by
  rintro ⟨before, code, after, h, _⟩
  simp at h

/-- A marker stands at the front of a text or behind its first character. -/
theorem occurs_cons_iff {c : Char} {cs : List Char} :
    Occurs (c :: cs) ↔ (first? (c :: cs)).isSome ∨ Occurs cs := by
  constructor
  · rintro ⟨before, code, after, htext, hcode⟩
    cases before with
    | nil =>
      have hfirst : first? (c :: cs) = some (code, after) := first?_eq_some_iff.2 ⟨htext, hcode⟩
      exact .inl (by simp [hfirst])
    | cons d before =>
      obtain ⟨rfl, rfl⟩ := List.cons.inj htext
      exact .inr ⟨before, code, after, rfl, hcode⟩
  · rintro (hfirst | ⟨before, code, after, rfl, hcode⟩)
    · obtain ⟨⟨code, after⟩, hfirst⟩ := Option.isSome_iff_exists.1 hfirst
      obtain ⟨htext, hcode⟩ := first?_eq_some_iff.1 hfirst
      exact ⟨[], code, after, htext, hcode⟩
    · exact ⟨c :: before, code, after, rfl, hcode⟩

@[simp] theorem codes_consPlain (c : Char) (ps : List Piece) : codes (consPlain c ps) = codes ps := by
  unfold consPlain
  split <;> rfl

/-- No code is found in characters in which no marker occurs, and only there. -/
theorem codes_piecesFrom_eq_nil_iff {fuel : Nat} {cs : List Char} (h : cs.length ≤ fuel) :
    codes (piecesFrom fuel cs) = [] ↔ ¬ Occurs cs := by
  induction fuel generalizing cs with
  | zero =>
    obtain rfl : cs = [] := List.eq_nil_of_length_eq_zero (Nat.le_zero.1 h)
    simp [piecesFrom, codes, not_occurs_nil]
  | succ fuel ih =>
    cases cs with
    | nil => simp [piecesFrom, codes, not_occurs_nil]
    | cons c cs =>
      have hlength : cs.length ≤ fuel := Nat.le_of_succ_le_succ h
      rw [occurs_cons_iff]
      -- a marker at the front is one code already, whatever is cut behind it
      cases hfirst : first? (c :: cs) with
      | none => simp [piecesFrom, hfirst, ih hlength]
      | some b => simp [piecesFrom, hfirst, codes]

theorem codes_pieces_eq_nil_iff {text : String} :
    codes (pieces text) = [] ↔ ¬ Occurs text.toList :=
  codes_piecesFrom_eq_nil_iff (Nat.le_refl _)

instance (text : String) : Decidable (Occurs text.toList) :=
  decidable_of_iff (codes (pieces text) ≠ [])
    (Iff.trans (not_congr codes_pieces_eq_nil_iff) Classical.not_not)

/-- A dollar sign, text in parentheses, a `$(` that is not closed and one that goes too deep are no
markers; what stands behind the dollar sign of such a one may be. -/
example : ¬ Occurs "$x (a) $(b".toList ∧ ¬ Occurs "$(a(b(c(d))))".toList ∧
    Occurs "$(a(b(c $(d))))".toList := by
  decide

end Marker

end StepScript
