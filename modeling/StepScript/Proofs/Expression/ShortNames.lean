import StepScript.Expression.Evaluate
import StepScript.Proofs.Expression.Renaming

/-!
# Short names — a call by a short name is a call by the long one

Before the text of an expression is read, the short names of two functions are replaced by the long ones
wherever they are called.  One pass is enough: the long names are no short ones, and at their edges
nothing becomes a call that has been none before.  A text may be cut where no word goes on, and its parts
are renamed by themselves, so what stands around a call makes no difference to it.

* `Alias.Renames.calls_iff`: which functions are called in a text after the calls of one are renamed;
* `Alias.replaceCall_append`: the parts of a text are renamed by themselves;
* `Expression.shortNames_settled` is the main result: nothing is left to rename in an expanded text, and
  the short and the long name of a function may be used for each other.
-/

namespace StepScript

namespace Alias

variable {name replacement other word cs out rest out' : List Char} {afterWord : Bool}

/-- The name of a function: a word. -/
structure IsName (name : List Char) : Prop where
  ne_nil : name ≠ []
  isWord : ∀ c ∈ name, WordChar.isWord c = true

theorem isWord_paren : WordChar.isWord '(' = false := by decide

/-! ## Words in front of a parenthesis -/

/-- In front of a parenthesis there is one word. -/
theorem eq_of_calls_first (hother : ∀ c ∈ other, WordChar.isWord c = true)
    (hword : ∀ c ∈ word, WordChar.isWord c = true)
    (h : other ++ ['('] <+: word ++ '(' :: rest) : other = word := by
  induction other generalizing word with
  | nil =>
    cases word with
    | nil => rfl
    | cons d word =>
      obtain ⟨rfl, -⟩ := List.cons_prefix_cons.1 h
      exact absurd (hword _ List.mem_cons_self) (by rw [isWord_paren]; nofun)
  | cons c other ih =>
    cases word with
    | nil =>
      obtain ⟨rfl, -⟩ := List.cons_prefix_cons.1 h
      exact absurd (hother _ List.mem_cons_self) (by rw [isWord_paren]; nofun)
    | cons d word =>
      obtain ⟨rfl, hrest⟩ := List.cons_prefix_cons.1 h
      rw [ih (fun _ hc => hother _ (List.mem_cons_of_mem _ hc))
        (fun _ hc => hword _ (List.mem_cons_of_mem _ hc)) hrest]

/-- Inside a word no call begins. -/
theorem callsBehind_inside_iff (hword : ∀ c ∈ word, WordChar.isWord c = true) :
    CallsBehind true other (word ++ '(' :: rest) ↔ CallsBehind false other rest := by
  induction word with
  | nil =>
    rw [List.nil_append, callsBehind_cons_iff, isWord_paren]
    simp
  | cons c word ih =>
    obtain ⟨hc, hword⟩ := List.forall_mem_cons.1 hword
    rw [List.cons_append, callsBehind_cons_iff, hc, ih hword]
    simp

/-- The call of a function is a call of no other function. -/
theorem callsBehind_word_iff (hother : IsName other) (hword : IsName word) :
    CallsBehind afterWord other (word ++ '(' :: rest) ↔
      (afterWord = false ∧ other = word) ∨ CallsBehind false other rest := by
  have hfront : other ++ ['('] <+: word ++ '(' :: rest ↔ other = word := by
    refine ⟨eq_of_calls_first hother.isWord hword.isWord, ?_⟩
    rintro rfl
    exact ⟨rest, by simp⟩
  obtain ⟨c, tail, rfl⟩ := List.exists_cons_of_ne_nil hword.ne_nil
  obtain ⟨hc, htail⟩ := List.forall_mem_cons.1 hword.isWord
  rw [← hfront, List.cons_append, callsBehind_cons_iff, hc, callsBehind_inside_iff htail]

/-- Whether a text ends inside a word can be told part by part. -/
theorem endsInWord_append (afterWord : Bool) (front back : List Char) :
    endsInWord afterWord (front ++ back) = endsInWord (endsInWord afterWord front) back := by
  induction front generalizing afterWord with
  | nil => rfl
  | cons c front ih => rw [List.cons_append, endsInWord_cons, endsInWord_cons, ih]

/-- Behind a parenthesis no word goes on. -/
theorem endsInWord_call (afterWord : Bool) (word rest : List Char) :
    endsInWord afterWord (word ++ '(' :: rest) = endsInWord false rest := by
  rw [endsInWord_append, endsInWord_cons, isWord_paren]

/-! ## What renaming leaves -/

/-- A word that goes on is kept. -/
theorem Renames.keep_inside (hword : ∀ c ∈ word, WordChar.isWord c = true)
    (h : Renames name replacement false rest out) :
    Renames name replacement true (word ++ '(' :: rest) (word ++ '(' :: out) := by
  induction word with
  | nil =>
    refine .keep nofun ?_
    rwa [isWord_paren]
  | cons c word ih =>
    obtain ⟨hc, hword⟩ := List.forall_mem_cons.1 hword
    refine .keep nofun ?_
    rw [hc]
    exact ih hword

/-- Calls of other functions are kept. -/
theorem Renames.keep_word (hname : IsName name) (hword : IsName word) (hne : name ≠ word)
    (h : Renames name replacement false rest out) :
    Renames name replacement afterWord (word ++ '(' :: rest) (word ++ '(' :: out) := by
  have hkeep : ¬ name ++ ['('] <+: word ++ '(' :: rest :=
    fun hprefix => hne (eq_of_calls_first hname.isWord hword.isWord hprefix)
  obtain ⟨c, tail, rfl⟩ := List.exists_cons_of_ne_nil hword.ne_nil
  obtain ⟨hc, htail⟩ := List.forall_mem_cons.1 hword.isWord
  refine .keep (fun _ => hkeep) ?_
  rw [hc]
  exact h.keep_inside htail

/-- Where a word goes on, the rest of it and a parenthesis behind it are kept. -/
theorem Renames.prefix_iff (hword : ∀ c ∈ word, WordChar.isWord c = true)
    (h : Renames name replacement true cs out) :
    word ++ ['('] <+: out ↔ word ++ ['('] <+: cs := by
  induction word generalizing cs out with
  | nil =>
    cases h with
    | done => exact Iff.rfl
    | keep _ _ => simp
  | cons d word ih =>
    obtain ⟨hd, hword⟩ := List.forall_mem_cons.1 hword
    cases h with
    | done => exact Iff.rfl
    | @keep _ c rest out _ hrest =>
      rw [List.cons_append, List.cons_prefix_cons, List.cons_prefix_cons]
      refine and_congr_right fun heq => ?_
      subst heq
      rw [hd] at hrest
      exact ih hword hrest

/-- After the calls of one function are renamed, a text calls the functions that it called before, but
for that one. -/
theorem Renames.calls_iff (hname : IsName name) (hreplacement : IsName replacement)
    (hother : IsName other) (hne : other ≠ replacement)
    (h : Renames name replacement afterWord cs out) :
    CallsBehind afterWord other out ↔ CallsBehind afterWord other cs ∧ other ≠ name := by
  induction h with
  | done => exact ⟨fun hcalls => absurd hcalls not_callsBehind_nil,
      fun hcalls => absurd hcalls.1 not_callsBehind_nil⟩
  | @call rest out _ ih =>
    rw [callsBehind_word_iff hother hreplacement, callsBehind_word_iff hother hname, ih]
    by_cases heq : other = name
    · subst heq
      simp [hne]
    · simp [hne, heq]
  | @keep afterWord c rest out hkeep hrest ih =>
    -- a call at the front is one of a word that is kept, and it is not a call to be renamed
    have hfront : (afterWord = false ∧ other ++ ['('] <+: c :: out) ↔
        (afterWord = false ∧ other ++ ['('] <+: c :: rest) ∧ other ≠ name := by
      obtain ⟨d, tail, rfl⟩ := List.exists_cons_of_ne_nil hother.ne_nil
      obtain ⟨hd, htail⟩ := List.forall_mem_cons.1 hother.isWord
      rw [List.cons_append, List.cons_prefix_cons, List.cons_prefix_cons]
      constructor
      · rintro ⟨hword, rfl, hprefix⟩
        rw [hd] at hrest
        have hbefore := (hrest.prefix_iff htail).1 hprefix
        refine ⟨⟨hword, rfl, hbefore⟩, ?_⟩
        rintro rfl
        exact hkeep hword (List.cons_prefix_cons.2 ⟨rfl, hbefore⟩)
      · rintro ⟨⟨hword, rfl, hprefix⟩, -⟩
        rw [hd] at hrest
        exact ⟨hword, rfl, (hrest.prefix_iff htail).2 hprefix⟩
    rw [callsBehind_cons_iff, callsBehind_cons_iff, hfront, ih, or_and_right]

/-- A renamed text ends in a word if the text does. -/
theorem Renames.endsInWord_eq (h : Renames name replacement afterWord cs out) :
    endsInWord afterWord out = endsInWord afterWord cs := by
  induction h with
  | done => rfl
  | call _ ih => rw [endsInWord_call, endsInWord_call, ih]
  | keep _ _ ih => rw [endsInWord_cons, endsInWord_cons, ih]

/-! ## Texts in parts -/

/-- A call does not begin in a part of a text and end in the next one if no word goes on between them. -/
theorem Renames.append_of_boundary (hname : IsName name)
    (h : Renames name replacement afterWord cs out) (hend : endsInWord afterWord cs = false)
    (hrest : Renames name replacement false rest out') :
    Renames name replacement afterWord (cs ++ rest) (out ++ out') := by
  induction h with
  | done afterWord =>
    have hword : afterWord = false := hend
    rw [hword]
    exact hrest
  | call _ ih =>
    rw [endsInWord_call] at hend
    simp only [List.append_assoc, List.cons_append]
    exact .call (ih hend)
  | @keep afterWord c front out hkeep _ ih =>
    rw [endsInWord_cons] at hend
    refine .keep ?_ (ih hend)
    intro hword hprefix
    have hprefix : name ++ ['('] <+: (c :: front) ++ rest := hprefix
    rcases List.prefix_or_prefix_of_prefix hprefix (List.prefix_append _ _) with hshort | hlong
    · exact hkeep hword hshort
    · -- a call that goes on behind the first part begins with a word that ends it
      rcases List.prefix_concat_iff.1 hlong with heq | hfront
      · exact hkeep hword ⟨[], by simp [heq]⟩
      · have hlast : WordChar.isWord ((c :: front).getLast (by simp)) = true :=
          hname.isWord _ (hfront.subset (List.getLast_mem _))
        rw [← endsInWord_cons false, endsInWord, List.getLast?_eq_getLast_of_ne_nil (by simp),
          Option.map_some, Option.getD_some, hlast] at hend
        cases hend

variable {short long spelled : String}

/-- The parts of a text are renamed by themselves where no word goes on. -/
theorem replaceCall_append (hshort : IsName short.toList) (long : String) {front : List Char}
    (hfront : endsInWord false front = false) (back : List Char) :
    replaceCall short long (front ++ back) =
      replaceCall short long front ++ replaceCall short long back :=
  renames_iff.1 ((replaceCall_renames short long front).append_of_boundary hshort hfront
    (replaceCall_renames short long back))

/-- At the front of a text the short call becomes the long one. -/
theorem replaceCall_call (short long : String) (back : List Char) :
    replaceCall short long (short.toList ++ '(' :: back) =
      long.toList ++ '(' :: replaceCall short long back :=
  renames_iff.1 (.call (replaceCall_renames short long back))

/-- A call of any other function at the front of a text stays. -/
theorem replaceCall_word (hshort : IsName short.toList) (hspelled : IsName spelled.toList)
    (hne : short.toList ≠ spelled.toList) (long : String) (back : List Char) :
    replaceCall short long (spelled.toList ++ '(' :: back) =
      spelled.toList ++ '(' :: replaceCall short long back :=
  renames_iff.1 ((replaceCall_renames short long back).keep_word hshort hspelled hne)

/-- Renaming does not change whether a text ends inside a word. -/
theorem endsInWord_replaceCall (short long : String) (cs : List Char) :
    endsInWord false (replaceCall short long cs) = endsInWord false cs :=
  (replaceCall_renames short long cs).endsInWord_eq

/-- Behind a text that ends in no word, a call by the short name and one by the long name become the
same. -/
theorem replaceCall_same (hshort : IsName short.toList) (hlong : IsName long.toList)
    (hne : short.toList ≠ long.toList) {front : List Char} (hfront : endsInWord false front = false)
    (back : List Char) :
    replaceCall short long (front ++ (short.toList ++ '(' :: back)) =
      replaceCall short long (front ++ (long.toList ++ '(' :: back)) := by
  rw [replaceCall_append hshort long hfront, replaceCall_append hshort long hfront,
    replaceCall_call, replaceCall_word hshort hlong hne]

/-! ## Both short names -/

theorem isName_len : IsName "len".toList := ⟨by decide, List.all_eq_true.1 (by decide)⟩

theorem isName_size : IsName "size".toList := ⟨by decide, List.all_eq_true.1 (by decide)⟩

theorem isName_type : IsName "type".toList := ⟨by decide, List.all_eq_true.1 (by decide)⟩

theorem isName_typeOf : IsName "type_of".toList := ⟨by decide, List.all_eq_true.1 (by decide)⟩

/-- In an expanded text no function is called by its short name. -/
theorem not_calls_expand (text : String) :
    ¬ Calls "len" (expand text) ∧ ¬ Calls "type" (expand text) := by
  have hlen := replaceCall_renames "len" "size" text.toList
  have htype := replaceCall_renames "type" "type_of" (replaceCall "len" "size" text.toList)
  have hexpand : (expand text).toList =
      replaceCall "type" "type_of" (replaceCall "len" "size" text.toList) := String.toList_ofList
  unfold Calls
  rw [hexpand, htype.calls_iff isName_type isName_typeOf isName_len (by decide),
    hlen.calls_iff isName_len isName_size isName_len (by decide),
    htype.calls_iff isName_type isName_typeOf isName_type (by decide)]
  exact ⟨fun h => h.1.2 rfl, fun h => h.2 rfl⟩

/-- A text is expanded once and for all. -/
theorem expand_expand (text : String) : expand (expand text) = expand text :=
  expand_eq_self_iff.2 (not_calls_expand text)

/-- The characters of a call between two texts. -/
theorem toList_calling (front spelled back : String) :
    (front ++ spelled ++ "(" ++ back).toList =
      front.toList ++ (spelled.toList ++ '(' :: back.toList) := by
  simp

/-- Where no word goes on, `len` and `size` are written out alike. -/
theorem expand_len {front : String} (hfront : endsInWord false front.toList = false)
    (back : String) :
    expand (front ++ "len" ++ "(" ++ back) = expand (front ++ "size" ++ "(" ++ back) := by
  unfold expand
  rw [toList_calling, toList_calling,
    replaceCall_same isName_len isName_size (by decide) hfront]

/-- Where no word goes on, `type` and `type_of` are written out alike. -/
theorem expand_type {front : String} (hfront : endsInWord false front.toList = false)
    (back : String) :
    expand (front ++ "type" ++ "(" ++ back) = expand (front ++ "type_of" ++ "(" ++ back) := by
  have hfront' : endsInWord false (replaceCall "len" "size" front.toList) = false := by
    rw [endsInWord_replaceCall, hfront]
  unfold expand
  rw [toList_calling, toList_calling, replaceCall_append isName_len "size" hfront,
    replaceCall_append isName_len "size" hfront, replaceCall_word isName_len isName_type (by decide),
    replaceCall_word isName_len isName_typeOf (by decide),
    replaceCall_same isName_type isName_typeOf (by decide) hfront']

end Alias

/-! ## Evaluation -/

namespace Expression

/-- Two evaluations come to the same: a value, or an error that differs at most in the text that it
quotes. -/
inductive Agree : Except ExpressionError Value → Except ExpressionError Value → Prop
  | value (v : Value) : Agree (.ok v) (.ok v)
  | unreadable (text : String) (cause : Token.SyntaxError) :
      Agree (.error (.unreadable text cause)) (.error (.unreadable text cause))
  | failed (code code' : String) (cause : EvalError) :
      Agree (.error (.failed code cause)) (.error (.failed code' cause))
  | tooLong (duration : Duration) :
      Agree (.error (.tooLong duration)) (.error (.tooLong duration))

/-- Texts that are expanded to the same one come to the same. -/
theorem evaluate_agree {code code' : String} (h : Alias.expand code = Alias.expand code')
    (bindings : Variables) : Agree (evaluate code bindings) (evaluate code' bindings) := by
  have hread : read code = read code' := by
    unfold read
    rw [h]
  unfold evaluate
  rw [← hread]
  unfold read
  dsimp only
  cases Expr.ofText (Alias.expand code) with
  | error cause => exact .unreadable _ cause
  | ok e =>
    simp only [bind, Except.bind]
    cases e.evaluate (environment e bindings) with
    | error cause => exact .failed code code' cause
    | ok d =>
      dsimp only
      cases d.toJson with
      | error e => exact .tooLong e.duration
      | ok j => exact .value _

/-- A function may be called by either of two names, whatever stands around the call: in front of the
name any text that does not end in a word, behind the parenthesis any text at all. -/
def Interchangeable (short long : String) : Prop :=
  ∀ front back : String, Alias.endsInWord false front.toList = false → ∀ bindings : Variables,
    Agree (evaluate (front ++ short ++ "(" ++ back) bindings)
      (evaluate (front ++ long ++ "(" ++ back) bindings)

/-- To expand a text once is enough: after that neither function is called by its short name.  With either
name for either function, an expression has the same value or the same error. -/
theorem shortNames_settled (text : String) :
    Alias.expand (Alias.expand text) = Alias.expand text ∧
      ¬ Alias.Calls "len" (Alias.expand text) ∧ ¬ Alias.Calls "type" (Alias.expand text) ∧
      Interchangeable "len" "size" ∧ Interchangeable "type" "type_of" := by
  obtain ⟨hlen, htype⟩ := Alias.not_calls_expand text
  refine ⟨Alias.expand_expand text, hlen, htype, ?_, ?_⟩
  · intro front back hfront bindings
    exact evaluate_agree (Alias.expand_len hfront back) bindings
  · intro front back hfront bindings
    exact evaluate_agree (Alias.expand_type hfront back) bindings

/-- A word that only ends like a call, a call inside another one, and a call inside a string. -/
theorem nestedCalls_settled :
    Alias.expand "typetype(len(len(x)))" = "typetype(size(size(x)))" ∧
      Alias.expand "typetype(size(size(x)))" = "typetype(size(size(x)))" ∧
      Alias.endsInWord false "x + ".toList = false ∧
      evaluate ("x + " ++ "type" ++ "(" ++ "len('type('))") [("x", .string "a ")] =
        .ok (.string "a int") ∧
      Agree (evaluate ("x + " ++ "type" ++ "(" ++ "len('type('))") [("x", .string "a ")])
        (evaluate ("x + " ++ "type_of" ++ "(" ++ "len('type('))") [("x", .string "a ")]) := by
  have hexpand : Alias.expand "typetype(len(len(x)))" = "typetype(size(size(x)))" := by
    decide +kernel
  have hfront : Alias.endsInWord false "x + ".toList = false := by decide
  obtain ⟨hagain, -, -, -, htype⟩ := shortNames_settled "typetype(len(len(x)))"
  rw [hexpand] at hagain
  exact ⟨hexpand, hagain, hfront, rfl, htype "x + " "len('type('))" hfront _⟩

end Expression

end StepScript
