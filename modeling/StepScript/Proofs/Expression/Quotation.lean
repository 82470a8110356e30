import StepScript.Proofs.Expression.Renaming
import StepScript.Scope.Basic

/-!
# Quotation — an expression that is a string between single quotes

Text without quotes, backslashes and line ends is put into an expression between single quotes.  Such an
expression is one token and one tree, and has a text as its value in every scope.  But the short names of
functions are written out before the expression is read, between the quotes as well: the value is the
text itself if and only if it calls none of them.

* `Literal.IsPlain` names the characters that stand for themselves between single quotes;
* `Expression.read_quoted`: how the expression is read;
* `Scope.evaluate_quoted` is the main result.
-/

namespace StepScript

namespace Literal

def singleQuote : Char := Char.ofNat 39

/-- A character that stands for itself between single quotes. -/
structure IsPlain (c : Char) : Prop where
  ne_quote : c ≠ singleQuote
  ne_backslash : c ≠ '\\'
  ne_newline : c ≠ '\n'
  ne_return : c ≠ '\r'

instance : DecidablePred IsPlain := fun c =>
  decidable_of_iff (c ≠ singleQuote ∧ c ≠ '\\' ∧ c ≠ '\n' ∧ c ≠ '\r')
    ⟨fun ⟨h, h', h'', h'''⟩ => ⟨h, h', h'', h'''⟩,
      fun ⟨h, h', h'', h'''⟩ => ⟨h, h', h'', h'''⟩⟩

/-- A text between single quotes. -/
def quoted (text : String) : String :=
  String.ofList (singleQuote :: (text.toList ++ [singleQuote]))

example : quoted "a b" = "'a b'" := by decide

variable {cs : List Char}

/-- Whether all characters stand for themselves is checked one after the other. -/
theorem isPlain_of_all (h : (cs.all fun c => decide (IsPlain c)) = true) : ∀ c ∈ cs, IsPlain c :=
  fun c hc => of_decide_eq_true (List.all_eq_true.1 h c hc)

/-! ## One token -/

/-- The end of the string is found at its closing quote. -/
theorem quotedLength?_plain (h : ∀ c ∈ cs, IsPlain c) {fuel : Nat} (hfuel : cs.length < fuel)
    (size : Nat) :
    quotedLength? [singleQuote] fuel (cs ++ [singleQuote]) size = some (size + cs.length + 1) := by
  induction cs generalizing fuel size with
  | nil =>
    obtain ⟨fuel, rfl⟩ := Nat.exists_eq_add_of_lt hfuel
    simp [quotedLength?]
  | cons c rest ih =>
    obtain ⟨hc, hrest⟩ := List.forall_mem_cons.1 h
    cases fuel with
    | zero => exact absurd hfuel (Nat.not_lt_zero _)
    | succ fuel =>
      have hclose : [singleQuote].isPrefixOf (c :: (rest ++ [singleQuote])) = false := by
        simp [List.isPrefixOf, hc.ne_quote.symm]
      have hends := ih hrest (Nat.lt_of_succ_lt_succ hfuel) (size + 1)
      simp only [List.cons_append, quotedLength?, hclose, hc.ne_backslash, hc.ne_newline,
        hc.ne_return, Bool.false_eq_true, if_false, decide_false, Bool.or_self, Bool.and_false, hends,
        List.length_cons]
      congr 1
      omega

/-- The tokenizer finds the closing quote behind plain characters. -/
theorem stringLength?_plain (h : ∀ c ∈ cs, IsPlain c) :
    stringLength? (singleQuote :: (cs ++ [singleQuote])) = some (cs.length + 2) := by
  -- the quotes are not three in a row
  have htriple : [singleQuote, singleQuote].isPrefixOf (cs ++ [singleQuote]) = false := by
    cases cs with
    | nil => rfl
    | cons c rest => simp [List.isPrefixOf, (h c List.mem_cons_self).ne_quote.symm]
  have hfuel : cs.length < (cs ++ [singleQuote]).length + 1 := by
    rw [List.length_append]
    omega
  unfold stringLength?
  change (if _ then (if _ then _ else none) <|>
    quotedLength? [singleQuote] ((cs ++ [singleQuote]).length + 1) (cs ++ [singleQuote]) 1 else none) = _
  rw [if_pos (by decide), if_neg (by simp [htriple]), quotedLength?_plain h hfuel]
  change some (1 + cs.length + 1) = some (cs.length + 2)
  congr 1
  omega

/-- Plain characters are decoded as themselves, one by one. -/
theorem decodeQuoted_plain (h : ∀ c ∈ cs, IsPlain c) {fuel : Nat} (hfuel : cs.length + 1 < fuel)
    (done : List Char) :
    decodeQuoted fuel .single (cs ++ [singleQuote]) done =
      some (String.ofList (done.reverse ++ cs)) := by
  induction cs generalizing fuel done with
  | nil =>
    obtain ⟨fuel, rfl⟩ := Nat.exists_eq_add_of_lt hfuel
    have hquote : Quoting.toggle? .single singleQuote = some .none := by decide
    have hescape : (singleQuote = '\\') = False := by decide
    simp only [List.nil_append, List.length_nil, decodeQuoted, hquote, hescape, decide_false,
      Bool.false_and, Bool.false_eq_true, if_false]
    simp [decodeQuoted]
  | cons c rest ih =>
    obtain ⟨hc, hrest⟩ := List.forall_mem_cons.1 h
    cases fuel with
    | zero => exact absurd hfuel (Nat.not_lt_zero _)
    | succ fuel =>
      have htext : Quoting.toggle? .single c = none := by
        have hquote : c ≠ Char.ofNat 39 := hc.ne_quote
        simp [Quoting.toggle?, hquote]
      have hdecoded := ih hrest (Nat.lt_of_succ_lt_succ hfuel) (c :: done)
      simp only [List.cons_append, decodeQuoted, hc.ne_backslash, decide_false, Bool.false_and,
        Bool.false_eq_true, if_false, htext, hdecoded, reduceCtorEq]
      simp

/-- A text of plain characters between quotes is decoded to that text. -/
theorem decodeString_plain (h : ∀ c ∈ cs, IsPlain c) :
    decodeString (singleQuote :: (cs ++ [singleQuote])) = some (String.ofList cs) := by
  have hopen : Quoting.toggle? .none singleQuote = some .single := by decide
  have hescape : (singleQuote = '\\') = False := by decide
  have hfuel : cs.length + 1 < (singleQuote :: (cs ++ [singleQuote])).length := by simp
  have hdecoded := decodeQuoted_plain h hfuel []
  change decodeQuoted ((singleQuote :: (cs ++ [singleQuote])).length + 1) .none _ [] = _
  simp only [decodeQuoted, hescape, decide_false, Bool.false_and, Bool.false_eq_true, if_false, hopen,
    hdecoded, List.reverse_nil, List.nil_append]

end Literal

/-! ## One tree -/

namespace Token

/-- A quoted plain text is a single token. -/
theorem first_quoted {cs : List Char} (h : ∀ c ∈ cs, Literal.IsPlain c) :
    first (Literal.singleQuote :: (cs ++ [Literal.singleQuote])) =
      .ok (.string (String.ofList cs), cs.length + 2) := by
  have hall : (Literal.singleQuote :: (cs ++ [Literal.singleQuote])).take (cs.length + 2) =
      Literal.singleQuote :: (cs ++ [Literal.singleQuote]) := List.take_of_length_le (by simp)
  simp only [first, quoted?, Literal.stringLength?_plain h, hall, Literal.decodeString_plain h]

/-- A text between single quotes is scanned as one token. -/
theorem scan_quoted {text : String} (h : ∀ c ∈ text.toList, Literal.IsPlain c) :
    scan (Literal.quoted text) = .ok [.string text] := by
  have hblank : isBlank Literal.singleQuote = false := by decide
  have hcomment : (Literal.singleQuote = '/') = False := by decide
  have hrest : (Literal.singleQuote :: (text.toList ++ [Literal.singleQuote])).drop
      (text.toList.length + 2) = [] := List.drop_eq_nil_of_le (by simp)
  simp only [scan, Literal.quoted, String.toList_ofList, scanFrom, hblank, hcomment, first_quoted h,
    hrest, decide_false, Bool.false_and, Bool.false_eq_true, if_false, bind, Except.bind,
    String.ofList_toList]
  simp only [List.length_cons, scanFrom, pure, Except.pure]

end Token

namespace Expression

/-- The short names of functions are written out between the quotes. -/
theorem expand_quoted (text : String) :
    Alias.expand (Literal.quoted text) = Literal.quoted (Alias.expand text) := by
  have hlen := Alias.replaceCall_enclosed "len" "size"
    (d := Literal.singleQuote) (by decide) (by decide) text.toList
  have htype := Alias.replaceCall_enclosed "type" "type_of"
    (d := Literal.singleQuote) (by decide) (by decide) (Alias.replaceCall "len" "size" text.toList)
  simp only [Alias.expand, Literal.quoted, String.toList_ofList, hlen, htype]

/-- A text between single quotes is read as one literal, with the short names written out. -/
theorem read_quoted {text : String} (h : ∀ c ∈ text.toList, Literal.IsPlain c) :
    read (Literal.quoted text) = .ok (.literal (.string (Alias.expand text))) := by
  have hplain : ∀ c ∈ (Alias.expand text).toList, Literal.IsPlain c := by
    have hletters : ∀ c ∈ "size".toList ++ "type_of".toList, Literal.IsPlain c :=
      Literal.isPlain_of_all (by decide)
    intro c hc
    rcases Alias.mem_expand hc with hc | hc
    · exact h c hc
    · exact hletters c (List.mem_append.2 hc)
  have htree : Expr.ofText (Literal.quoted (Alias.expand text)) =
      .ok (.literal (.string (Alias.expand text))) := by
    rw [Expr.ofText, Token.scan_quoted hplain]
    rfl
  simp only [read, expand_quoted, htree]

end Expression

/-- An expression that is a text between single quotes has a text as its value, in every scope: that text
with the short names of functions written out.  It is the same text if and only if none of these
functions is called in it. -/
theorem Scope.evaluate_quoted (scope : Scope) {text : String}
    (h : ∀ c ∈ text.toList, Literal.IsPlain c) :
    scope.evaluate (Literal.quoted text) = .ok (.string (Alias.expand text)) ∧
      (scope.evaluate (Literal.quoted text) = .ok (.string text) ↔
        ¬ Alias.Calls "len" text ∧ ¬ Alias.Calls "type" text) := by
  have hvalue : scope.evaluate (Literal.quoted text) = .ok (.string (Alias.expand text)) := by
    simp only [evaluate, Expression.evaluate, Expression.read_quoted h, bind, Except.bind]
    rfl
  refine ⟨hvalue, ?_⟩
  rw [hvalue, ← Alias.expand_eq_self_iff]
  simp

/-- Double quotes, a name that continues a word, and names that do not stand in front of a
parenthesis. -/
def nearlyCalling : String := "\"xlen(\" étype( len (type)"

/-- This text is not touched by the renaming of functions, although it looks like calls in four
places. -/
theorem nearlyCalling_evaluates :
    (∀ c ∈ nearlyCalling.toList, Literal.IsPlain c) ∧
      ¬ Alias.Calls "len" nearlyCalling ∧ ¬ Alias.Calls "type" nearlyCalling ∧
      (Scope.empty.put "len" .null).evaluate (Literal.quoted nearlyCalling) =
        .ok (.string nearlyCalling) := by
  have hplain : ∀ c ∈ nearlyCalling.toList, Literal.IsPlain c :=
    Literal.isPlain_of_all (by decide)
  have hcalls : ¬ Alias.Calls "len" nearlyCalling ∧ ¬ Alias.Calls "type" nearlyCalling :=
    Alias.expand_eq_self_iff.1 (by decide +kernel)
  exact ⟨hplain, hcalls.1, hcalls.2, (Scope.evaluate_quoted _ hplain).2.2 hcalls⟩

/-- A string in which one of the functions is called comes out as another one. -/
theorem quotedCall_renamed :
    (∀ c ∈ "len(".toList, Literal.IsPlain c) ∧
      Scope.empty.evaluate (Literal.quoted "len(") = .ok (.string "size(") ∧
      Scope.empty.evaluate (Literal.quoted "len(") ≠ .ok (.string "len(") := by
  have hvalue : Scope.empty.evaluate (Literal.quoted "len(") = .ok (.string "size(") := rfl
  refine ⟨Literal.isPlain_of_all (by decide), hvalue, ?_⟩
  rw [hvalue]
  simp

end StepScript
