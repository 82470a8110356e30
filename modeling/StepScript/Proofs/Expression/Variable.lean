import Mathlib.Data.List.TakeWhile
import StepScript.Proofs.Value.Plain
import StepScript.Scope.Basic

/-!
# Variable — an expression that is the name of a variable

An expression that consists of a name has the value of the variable: its lazies are resolved and its
base variables dropped, and nothing else is changed on the way into the expression and out of it.

* `Token.IsIdentifier` names the variables that expressions can spell;
* `Datum.toJson_ofValue`: what goes into an expression comes out as the plain data of the value;
* `Scope.evaluate_variable` is the main result.
-/

namespace StepScript

/-! ## Names -/

namespace Token

def keywords : List String :=
  ["in", "true", "false", "null"]

/-- A name that an expression can spell: a letter or an underscore, then letters, digits and
underscores. -/
structure IsIdentifier (name : String) : Prop where
  starts : name.toList.head?.any startsName = true
  continues : name.toList.all continuesName = true
  unreserved : name ∉ keywords

variable {name : String} {c : Char}

/-- Letters by their numbers. -/
theorem isAlpha_iff_toNat : c.isAlpha = true ↔
    (65 ≤ c.toNat ∧ c.toNat ≤ 90) ∨ (97 ≤ c.toNat ∧ c.toNat ≤ 122) := by
  have hupper : c.isUpper = true ↔ 65 ≤ c.toNat ∧ c.toNat ≤ 90 := decide_eq_true_iff
  have hlower : c.isLower = true ↔ 97 ≤ c.toNat ∧ c.toNat ≤ 122 :=
    Bool.and_eq_true_iff.trans (and_congr decide_eq_true_iff decide_eq_true_iff)
  exact Bool.or_eq_true_iff.trans (or_congr hupper hlower)

/-- The code points of the characters of a name. -/
theorem continuesName_range (h : continuesName c = true) :
    (48 ≤ c.toNat ∧ c.toNat ≤ 57) ∨ (65 ≤ c.toNat ∧ c.toNat ≤ 90) ∨ c.toNat = 95 ∨
      (97 ≤ c.toNat ∧ c.toNat ≤ 122) := by
  simp only [continuesName, Char.isAlphanum, Bool.or_eq_true, beq_iff_eq, isAlpha_iff_toNat,
    Char.isDigit_iff_toNat] at h
  rcases h with ((h | h) | h) | rfl
  · exact .inr (.inl h)
  · exact .inr (.inr (.inr h))
  · exact .inl h
  · exact .inr (.inr (.inl rfl))

/-- A name does not begin with a digit. -/
theorem not_isDigit_of_startsName (h : startsName c = true) : c.isDigit = false := by
  simp only [startsName, Bool.or_eq_true, beq_iff_eq, isAlpha_iff_toNat] at h
  have hdigit : c.isDigit = true → 48 ≤ c.toNat ∧ c.toNat ≤ 57 := Char.isDigit_iff_toNat.1
  rw [Bool.eq_false_iff]
  intro hc
  have hrange := hdigit hc
  rcases h with (h | h) | rfl
  · omega
  · omega
  · exact absurd hc (by decide)

/-- A character that starts a name can continue one. -/
theorem continuesName_of_startsName (h : startsName c = true) : continuesName c = true := by
  simp only [startsName, continuesName, Char.isAlphanum, Bool.or_eq_true] at h ⊢
  rcases h with h | h
  · exact .inl (.inl h)
  · exact .inr h

theorem ne_of_continuesName {d : Char} (h : continuesName c = true)
    (hd : continuesName d = false) : c ≠ d := by
  rintro rfl
  rw [h] at hd
  cases hd

/-- No string begins where a name does: there is no quote in a name. -/
theorem stringLength?_name {cs : List Char} (h : ∀ c ∈ cs, continuesName c = true) :
    Literal.stringLength? cs = none := by
  unfold Literal.stringLength?
  split
  rename_i raw body hbody
  -- a letter in front that makes a string raw is taken off
  have hinside : ∀ c ∈ body, continuesName c = true := by
    split at hbody <;> cases hbody <;> simp_all
  split
  · rename_i q rest
    have hq : continuesName q = true := hinside q List.mem_cons_self
    refine if_neg fun hquote => ?_
    rw [Bool.or_eq_true, decide_eq_true_eq, decide_eq_true_eq] at hquote
    rcases hquote with hquote | hquote
    · exact ne_of_continuesName hq (by decide) hquote
    · exact ne_of_continuesName hq (by decide) hquote
  · rfl

/-- No string literal begins inside a name. -/
theorem quoted?_name {cs : List Char} (h : ∀ c ∈ cs, continuesName c = true) :
    quoted? cs = none := by
  simp only [quoted?, stringLength?_name h]
  cases cs with
  | nil => rfl
  | cons c rest =>
    have hrest : Literal.stringLength? rest = none :=
      stringLength?_name (List.forall_mem_cons.1 h).2
    simp only [hrest, Option.map_none, ite_self]

variable {rest : List Char}

/-- The token at the front of a name is all of it. -/
theorem first_name (hc : startsName c = true) (hrest : ∀ d ∈ rest, continuesName d = true) :
    first (c :: rest) = .ok (ofName (String.ofList (c :: rest)), (c :: rest).length) := by
  have hname : ∀ d ∈ c :: rest, continuesName d = true :=
    List.forall_mem_cons.2 ⟨continuesName_of_startsName hc, hrest⟩
  have hpoint : c ≠ '.' := ne_of_continuesName (continuesName_of_startsName hc) (by decide)
  have htext : (c :: rest).takeWhile continuesName = c :: rest := List.takeWhile_eq_self_iff.2 hname
  simp only [first, quoted?_name hname, not_isDigit_of_startsName hc, hpoint, hc, htext,
    decide_false, Bool.false_and, if_true, Bool.false_eq_true, if_false]

theorem not_isBlank_of_startsName (h : startsName c = true) : isBlank c = false := by
  refine Bool.eq_false_iff.2 fun hblank => ?_
  simp only [isBlank, Bool.or_eq_true, beq_iff_eq] at hblank
  rcases hblank with (((rfl | rfl) | rfl) | rfl) | rfl <;> revert h <;> decide

/-- Every word but the few reserved ones is a name. -/
theorem ofName_of_not_mem (h : name ∉ keywords) : ofName name = .name name := by
  simp only [keywords, List.mem_cons, List.not_mem_nil, or_false, not_or] at h
  obtain ⟨hin, htrue, hfalse, hnull⟩ := h
  simp only [ofName, beq_eq_false_iff_ne.2 hin, beq_eq_false_iff_ne.2 htrue,
    beq_eq_false_iff_ne.2 hfalse, beq_eq_false_iff_ne.2 hnull, Bool.false_eq_true, if_false]

/-- A name is scanned as one token. -/
theorem scan_name (h : IsIdentifier name) : scan name = .ok [.name name] := by
  obtain ⟨hstarts, hcontinues, hunreserved⟩ := h
  cases hchars : name.toList with
  | nil => simp [hchars] at hstarts
  | cons c rest =>
    have hc : startsName c = true := by simpa [hchars] using hstarts
    have hrest : ∀ d ∈ rest, continuesName d = true := by
      simp only [hchars, List.all_cons, Bool.and_eq_true, List.all_eq_true] at hcontinues
      exact hcontinues.2
    have hslash : c ≠ '/' := ne_of_continuesName (continuesName_of_startsName hc) (by decide)
    have htoken : ofName (String.ofList (c :: rest)) = .name name := by
      rw [← hchars, String.ofList_toList, ofName_of_not_mem hunreserved]
    have hfirst : first (c :: rest) = .ok (.name name, (c :: rest).length) := by
      rw [first_name hc hrest, htoken]
    simp only [scan, hchars, scanFrom, not_isBlank_of_startsName hc, hslash, hfirst, decide_false,
      Bool.false_and, Bool.false_eq_true, if_false, bind, Except.bind, List.drop_length]
    simp only [List.length_cons, scanFrom, pure, Except.pure]

end Token

/-! ## Reading -/

/-- A text without a parenthesis has no call to replace. -/
theorem Alias.replaceFrom_of_not_mem {name replacement cs : List Char} {afterWord : Bool}
    (hname : '(' ∈ name) (h : '(' ∉ cs) : replaceFrom name replacement 0 afterWord cs = cs := by
  induction cs generalizing afterWord with
  | nil => rfl
  | cons c rest ih =>
    have hprefix : name.isPrefixOf (c :: rest) = false := by
      refine Bool.eq_false_iff.2 fun hprefix => ?_
      exact h ((List.isPrefixOf_iff_prefix.1 hprefix).subset hname)
    have hrest : '(' ∉ rest := fun hmem => h (List.mem_cons_of_mem _ hmem)
    simp only [replaceFrom, hprefix, Bool.and_false, Bool.false_eq_true, if_false, ih hrest]

/-- A text without a call keeps the names it has. -/
theorem Alias.expand_of_not_mem {code : String} (h : '(' ∉ code.toList) : expand code = code := by
  simp only [expand, replaceCall]
  rw [replaceFrom_of_not_mem (by simp) h, replaceFrom_of_not_mem (by simp) h, String.ofList_toList]

/-- A name is read as a reference. -/
theorem Expression.read_name {name : String} (h : Token.IsIdentifier name) :
    read name = .ok (.reference name) := by
  have hcall : '(' ∉ name.toList := fun hmem => by
    have hcontinues := List.all_eq_true.1 h.continues '(' hmem
    revert hcontinues
    decide
  have htree : Expr.ofText name = .ok (.reference name) := by
    rw [Expr.ofText, Token.scan_name h]
    rfl
  simp only [read, Alias.expand_of_not_mem hcall, htree]

/-- A name is stored as it is spelled. -/
theorem VariableName.normalize_name {name : String} (h : Token.IsIdentifier name) :
    normalize name = name := by
  have hkept : ∀ c ∈ name.toList, normalizeChar c = c := by
    intro c hc
    have hcontinues : Token.continuesName c = true := List.all_eq_true.1 h.continues c hc
    have hrange := Token.continuesName_range hcontinues
    have hblank : Blank.isBlank c = false := by
      simp only [Blank.isBlank, CharRange.covers, Blank.edges, CharRange.coversFrom]
      grind
    have hpunctuation : punctuation.contains c = false := by
      refine Bool.eq_false_iff.2 fun hmem => ?_
      simp only [punctuation, List.contains_iff_mem, List.mem_cons, List.not_mem_nil,
        or_false] at hmem
      revert hcontinues
      rcases hmem with rfl | rfl | rfl | rfl | rfl | rfl | rfl | rfl | rfl | rfl | rfl <;> decide
    simp only [normalizeChar, hblank, hpunctuation, Bool.or_self, Bool.false_eq_true, if_false]
  rw [normalize, List.map_congr_left hkept, List.map_id', String.ofList_toList]

/-! ## Values through an expression -/

/-- Every object in a value, and in what its lazies yield, has one entry a name. -/
inductive Value.Keyed : Value → Prop where
  | null : Keyed .null
  | bool (b : Bool) : Keyed (.bool b)
  | number (n : Number) : Keyed (.number n)
  | string (s : String) : Keyed (.string s)
  | array {items : List Value} (bindings : Option (List (String × Value)))
      (inside : ∀ v ∈ items, Keyed v) : Keyed (.array items bindings)
  | object {fields : Variables} (once : fields.names.Nodup) (inside : ∀ e ∈ fields, Keyed e.2) :
      Keyed (.object fields)
  | lazy {v : Value} (inside : Keyed v) : Keyed (.lazy v)

namespace Datum

/-- A number leaves an expression as the number that it was: an integer stays one, signed or not, and so
does a float. -/
theorem toJson_ofNumber (n : Number) : (ofNumber n).toJson = .ok (.number n) := by
  cases n with
  | integer n lower upper =>
    have hinteger : integerJson n = .number (.integer n lower upper) := by
      simp only [integerJson, Number.ofInt?, dif_pos (And.intro lower upper)]
    by_cases hsigned : n ≤ maxInt
    · simp only [ofNumber, if_pos hsigned, toJson, hinteger]
    · -- an unsigned integer is not negative, so no sign is lost
      have hpos : (n.toNat : Int) = n := Int.toNat_of_nonneg (by
        have hmax : (0 : Int) ≤ maxInt := by decide
        omega)
      simp only [ofNumber, if_neg hsigned, toJson, hpos, hinteger]
  | float x finite =>
    simp only [ofNumber, toJson, doubleJson, Number.ofBinary64?, dif_pos finite]

/-- The items of an array survive the way into an expression and back if each of them does. -/
theorem toJsonItems_ofValues {items : List Value}
    (h : ∀ v ∈ items, (ofValue v).toJson = .ok v.toJson) :
    toJsonItems (ofValues items) = .ok (Value.toJsonItems items) := by
  induction items with
  | nil => rfl
  | cons v rest ih =>
    obtain ⟨hv, hrest⟩ := List.forall_mem_cons.1 h
    simp only [ofValues, toJsonItems, hv, ih hrest, Value.toJsonItems]
    rfl

/-- The fields of an object survive it if each of their values does. -/
theorem toJsonEntries_ofFields {fields : Variables}
    (h : ∀ e ∈ fields, (ofValue e.2).toJson = .ok e.2.toJson) :
    toJsonEntries (ofFields fields) = .ok (Value.toJsonFields fields) := by
  induction fields with
  | nil => rfl
  | cons e rest ih =>
    obtain ⟨key, v⟩ := e
    obtain ⟨hv, hrest⟩ := List.forall_mem_cons.1 h
    simp only [ofFields, toJsonEntries, hv, ih hrest, Value.toJsonFields, MapKey.text]
    rfl

/-- What goes into an expression comes out as plain data. -/
theorem toJson_ofValue {v : Value} (h : v.Keyed) : (ofValue v).toJson = .ok v.toJson := by
  induction h with
  | number n => exact toJson_ofNumber n
  | array bindings _ ih =>
    simp only [ofValue, toJson, toJsonItems_ofValues ih, Value.toJson]
    rfl
  | @object fields once _ ih =>
    -- no entry is lost where the entries are written into a table
    have htable : Table.ofEntries (Value.toJsonFields fields) = Value.toJsonFields fields :=
      Table.ofEntries_of_nodup (Value.names_toJsonFields fields ▸ once)
    simp only [ofValue, toJson, toJsonEntries_ofFields ih, Value.toJson]
    change Except.ok (Json.object (Table.ofEntries (Value.toJsonFields fields))) = _
    rw [htable]
  | lazy _ ih => exact ih
  | _ => rfl

end Datum

/-! ## Variables -/

/-- An expression that consists of a name has the value of the variable of that name, without its lazies
and base variables: nothing else is changed, at any depth. -/
theorem Scope.evaluate_variable {scope : Scope} {name : String} {v : Value}
    (hname : Token.IsIdentifier name) (hget : scope.get? name = some v) (hkeys : v.Keyed) :
    scope.evaluate name = .ok v.plain := by
  have hfind : scope.bindings.find? name = some v := by
    rwa [get?, VariableName.normalize_name hname] at hget
  have hseen : Expression.environment (.reference name) scope.bindings name =
      some (Datum.ofValue v) := by
    simp [Expression.environment, Expr.mentions, Expr.names, hfind]
  have hvalue : Expr.evaluate (Expression.environment (.reference name) scope.bindings)
      (.reference name) = .ok (Datum.ofValue v) := by
    rw [Expr.evaluate, hseen]
  simp only [evaluate, Expression.evaluate, Expression.read_name hname, bind, Except.bind, hvalue,
    Datum.toJson_ofValue hkeys, Value.ofJson_toJson]
  rfl

/-- The largest unsigned and the least signed integer, a negative zero, and a number that could be of
either kind. -/
def edgeNumbers : List Value :=
  [.number (.integer 18446744073709551615 (by decide) (by decide)),
    .number (.integer (-9223372036854775808) (by decide) (by decide)),
    .number (.float ⟨0x8000000000000000⟩ (by decide)), .ofNat 2, .ofBinary64 ⟨0x4000000000000000⟩]

/-- The numbers in an array with base variables, inside a lazy value that is a part of an object. -/
def edgeValue : Value :=
  .object [("z", .lazy (.lazy (.array edgeNumbers (some [("base", .null)])))), ("a", .object [])]

/-- The keys of the value differ in each of its objects. -/
theorem edgeValue_keyed : edgeValue.Keyed := by
  refine .object (by decide) fun e he => ?_
  simp only [List.mem_cons, List.not_mem_nil, or_false] at he
  obtain rfl | rfl := he
  · refine .lazy (.lazy (.array _ fun v hv => ?_))
    simp only [edgeNumbers, List.mem_cons, List.not_mem_nil, or_false] at hv
    obtain rfl | rfl | rfl | rfl | rfl := hv <;> exact .number _
  · exact .object List.nodup_nil (by simp)

/-- All of them pass through an expression. -/
theorem edgeValue_passes :
    let scope := (Scope.empty.put "_v2" edgeValue).put "other" .null
    Token.IsIdentifier "_v2" ∧ scope.get? "_v2" = some edgeValue ∧ edgeValue.Keyed ∧
      scope.evaluate "_v2" =
        .ok (.object [("z", .array edgeNumbers none), ("a", .object [])]) := by
  have hname : Token.IsIdentifier "_v2" := ⟨by decide, by decide, by decide⟩
  have hget : ((Scope.empty.put "_v2" edgeValue).put "other" .null).get? "_v2" = some edgeValue := by
    rw [Scope.get?_put, if_neg (by decide), Scope.get?_put_self]
  exact ⟨hname, hget, edgeValue_keyed, Scope.evaluate_variable hname hget edgeValue_keyed⟩

end StepScript
