import Mathlib.Data.List.Basic
import StepScript.Expression.Evaluate

/-!
# Reference — the variables that an expression depends on

Evaluation looks at the variables that an expression mentions and at no others.  This module shows
that nothing is lost in that way: already the variables that are free in an expression, those which
none of its macros binds, decide about its value and about its error.

* `Expr.free` lists the free variables, which are among those mentioned;
* `Expr.evaluate_congr`: environments that agree on them give the same value;
* `Expression.references_suffice` says so of the texts of expressions and of whole scopes.
-/

namespace StepScript

namespace Expr

mutual

/-- The variables whose values an expression asks its environment for.  A macro gives its own variable
a value, and asks for no other value of it. -/
def free : Expr → List String
  | .literal _ => []
  | .reference name => [name]
  | .select operand _ => operand.free
  | .has operand _ => operand.free
  | .unary _ operand => operand.free
  | .binary _ left right => left.free ++ right.free
  | .logical _ left right => left.free ++ right.free
  | .conditional test yes no => test.free ++ yes.free ++ no.free
  | .call _ args => freeOfAll args
  | .method target _ args => target.free ++ freeOfAll args
  | .list items => freeOfAll items
  | .map entries => freeOfEntries entries
  | .message _ => []
  | .fold _ range item keep body =>
    range.free ++ (freeOfOption keep ++ body.free).filter (· != item)

def freeOfAll : List Expr → List String
  | [] => []
  | e :: rest => e.free ++ freeOfAll rest

def freeOfEntries : List (Expr × Expr) → List String
  | [] => []
  | (k, v) :: rest => k.free ++ v.free ++ freeOfEntries rest

def freeOfOption : Option Expr → List String
  | none => []
  | some e => e.free

end

/-! ## Free variables are mentioned -/

theorem append_subset_append {a b c d : List String} (h : a ⊆ c) (h' : b ⊆ d) :
    a ++ b ⊆ c ++ d :=
  List.append_subset.2 ⟨List.subset_append_of_subset_left _ h, List.subset_append_of_subset_right _ h'⟩

mutual

/-- The free variables of an expression are among its names. -/
theorem free_subset_names : ∀ e : Expr, e.free ⊆ e.names
  | .literal _ | .reference _ | .message _ => List.Subset.refl _
  | .select operand _ | .has operand _ | .unary _ operand => free_subset_names operand
  | .binary _ left right | .logical _ left right =>
    append_subset_append (free_subset_names left) (free_subset_names right)
  | .conditional test yes no =>
    append_subset_append
      (append_subset_append (free_subset_names test) (free_subset_names yes))
      (free_subset_names no)
  | .call _ args => freeOfAll_subset args
  | .method target _ args =>
    append_subset_append (free_subset_names target) (freeOfAll_subset args)
  | .list items => freeOfAll_subset items
  | .map entries => freeOfEntries_subset entries
  | .fold _ range item keep body => by
    have hinner : (freeOfOption keep ++ body.free).filter (· != item) ⊆
        namesOfOption keep ++ body.names :=
      List.Subset.trans (List.filter_subset_self _)
        (append_subset_append (freeOfOption_subset keep) (free_subset_names body))
    exact append_subset_append (free_subset_names range)
      (List.Subset.trans hinner (List.subset_cons_self _ _))

theorem freeOfAll_subset : ∀ es : List Expr, freeOfAll es ⊆ namesOfAll es
  | [] => List.Subset.refl _
  | e :: rest => append_subset_append (free_subset_names e) (freeOfAll_subset rest)

theorem freeOfEntries_subset : ∀ es : List (Expr × Expr), freeOfEntries es ⊆ namesOfEntries es
  | [] => List.Subset.refl _
  | (k, v) :: rest =>
    append_subset_append
      (append_subset_append (free_subset_names k) (free_subset_names v))
      (freeOfEntries_subset rest)

theorem freeOfOption_subset : ∀ e : Option Expr, freeOfOption e ⊆ namesOfOption e
  | none => List.Subset.refl _
  | some e => free_subset_names e

end

/-- A free variable is one that the expression is said to mention. -/
theorem mentions_of_mem_free {e : Expr} {name : String} (h : name ∈ e.free) :
    e.mentions name = true := by
  simpa [mentions] using free_subset_names e h

/-! ## Evaluation -/

/-- Environments that agree on the free variables of a body but for the variable that a macro binds
agree on all of them once it is bound. -/
theorem bind_agree {env env' : Environment} {names : List String} {item : String}
    (h : ∀ name ∈ names.filter (· != item), env name = env' name) (d : Datum) :
    ∀ name ∈ names, env.bind item d name = env'.bind item d name := by
  intro name hname
  by_cases hitem : name = item
  · simp only [Environment.bind, if_pos hitem]
  · simp only [Environment.bind, if_neg hitem]
    exact h name (List.mem_filter.2 ⟨hname, bne_iff_ne.2 hitem⟩)

mutual

/-- The value of an expression depends on its free variables alone. -/
theorem evaluate_congr {env env' : Environment} : ∀ e : Expr,
    (∀ name ∈ e.free, env name = env' name) → evaluate env e = evaluate env' e
  | .literal _, _ | .message _, _ => rfl
  | .reference name, h => by
    have hname : env name = env' name := h name (by simp [free])
    simp only [evaluate, hname]
  | .select operand _, h | .has operand _, h | .unary _ operand, h => by
    simp only [evaluate, evaluate_congr operand h]
  | .binary _ left right, h => by
    obtain ⟨hleft, hright⟩ := List.forall_mem_append.1 h
    simp only [evaluate, evaluate_congr left hleft, evaluate_congr right hright]
  | .logical op left right, h => by
    obtain ⟨hleft, hright⟩ := List.forall_mem_append.1 h
    cases op <;> simp only [evaluate, evaluate_congr left hleft, evaluate_congr right hright]
  | .conditional test yes no, h => by
    obtain ⟨htest, hno⟩ := List.forall_mem_append.1 h
    obtain ⟨htest, hyes⟩ := List.forall_mem_append.1 htest
    simp only [evaluate, evaluate_congr test htest, evaluate_congr yes hyes, evaluate_congr no hno]
  | .call _ args, h => by
    simp only [evaluate, outcomes_congr args h]
  | .method target _ args, h => by
    obtain ⟨htarget, hargs⟩ := List.forall_mem_append.1 h
    simp only [evaluate, evaluate_congr target htarget, outcomes_congr args hargs]
  | .list items, h => by
    simp only [evaluate, values_congr items h]
  | .map entries, h => by
    simp only [evaluate, fields_congr entries h]
  | .fold kind source item keep body, h => by
    obtain ⟨hsource, hinner⟩ := List.forall_mem_append.1 h
    -- inside the macro the environments agree on the bound variable too
    have hbound (d : Datum) := List.forall_mem_append.1 (bind_agree hinner d)
    have hbody (d : Datum) : evaluate (env.bind item d) body = evaluate (env'.bind item d) body :=
      evaluate_congr body (hbound d).2
    cases keep with
    | none => simp only [evaluate, evaluate_congr source hsource, hbody]
    | some k =>
      have hkeep (d : Datum) : evaluate (env.bind item d) k = evaluate (env'.bind item d) k :=
        evaluate_congr k (hbound d).1
      simp only [evaluate, evaluate_congr source hsource, hbody, hkeep]

/-- Arguments have the same outcomes where their free variables have the same values. -/
theorem outcomes_congr {env env' : Environment} : ∀ es : List Expr,
    (∀ name ∈ freeOfAll es, env name = env' name) → outcomes env es = outcomes env' es
  | [], _ => rfl
  | e :: rest, h => by
    obtain ⟨he, hrest⟩ := List.forall_mem_append.1 h
    rw [outcomes, outcomes, evaluate_congr e he, outcomes_congr rest hrest]

/-- Items have the same values where their free variables have. -/
theorem values_congr {env env' : Environment} : ∀ es : List Expr,
    (∀ name ∈ freeOfAll es, env name = env' name) → values env es = values env' es
  | [], _ => rfl
  | e :: rest, h => by
    obtain ⟨he, hrest⟩ := List.forall_mem_append.1 h
    rw [values, values, evaluate_congr e he, values_congr rest hrest]

/-- Entries have the same values where their free variables have. -/
theorem fields_congr {env env' : Environment} : ∀ es : List (Expr × Expr),
    (∀ name ∈ freeOfEntries es, env name = env' name) →
    ∀ done, fields env es done = fields env' es done
  | [], _, _ => rfl
  | (k, v) :: rest, h, done => by
    obtain ⟨hentry, hrest⟩ := List.forall_mem_append.1 h
    obtain ⟨hk, hv⟩ := List.forall_mem_append.1 hentry
    simp only [fields, evaluate_congr k hk, evaluate_congr v hv, fields_congr rest hrest]

end

end Expr

/-! ## Texts of expressions -/

namespace Expression

/-- The variables of a scope, all of them as expressions see them. -/
def allVariables (bindings : Variables) : Environment := fun name =>
  (bindings.find? name).map Datum.ofValue

/-- Evaluate the text of an expression in an environment that may depend on the expression. -/
def evaluateIn (env : Expr → Environment) (code : String) : Except ExpressionError Value := do
  let e ← read code
  match e.evaluate (env e) with
  | .error cause => throw (.failed code cause)
  | .ok d =>
    match d.toJson with
    | .ok j => return Value.ofJson j
    | .error e => throw (.tooLong e.duration)

/-- The program evaluates in an environment that it chooses for each expression. -/
theorem evaluate_eq_evaluateIn (code : String) (bindings : Variables) :
    evaluate code bindings = evaluateIn (fun e => environment e bindings) code :=
  rfl

/-- Environments that agree on the free variables give the same outcome. -/
theorem evaluateIn_congr {env env' : Expr → Environment} {code : String}
    (h : ∀ e, read code = .ok e → ∀ name ∈ e.free, env e name = env' e name) :
    evaluateIn env code = evaluateIn env' code := by
  unfold evaluateIn
  cases hread : read code with
  | error _ => rfl
  | ok e =>
    change (match e.evaluate (env e) with | .error _ => _ | .ok d => _ : Except _ _) = _
    rw [Expr.evaluate_congr e (h e hread)]
    rfl

/-- On the variables that are free in an expression nothing is hidden from it. -/
theorem environment_of_mem_free {e : Expr} {name : String} (h : name ∈ e.free)
    (bindings : Variables) : environment e bindings name = allVariables bindings name := by
  simp only [environment, allVariables, Expr.mentions_of_mem_free h, if_true]

/-- The free variables of an expression decide about its outcome, be it a value or an error: scopes
that agree on them give the same one, it is the one that the whole scope gives, and a variable that
the expression does not ask for may have any value, a lazy one too. -/
theorem references_suffice (code : String) :
    (∀ a b : Variables,
      (∀ e, read code = .ok e → ∀ name ∈ e.free, a.find? name = b.find? name) →
      evaluate code a = evaluate code b) ∧
    (∀ bindings, evaluate code bindings = evaluateIn (fun _ => allVariables bindings) code) ∧
    (∀ (bindings : Variables) e name v, read code = .ok e → name ∉ e.free →
      evaluate code (bindings.insert name v) = evaluate code bindings) := by
  have hagree (a b : Variables)
      (h : ∀ e, read code = .ok e → ∀ name ∈ e.free, a.find? name = b.find? name) :
      evaluate code a = evaluate code b := by
    rw [evaluate_eq_evaluateIn, evaluate_eq_evaluateIn]
    refine evaluateIn_congr fun e hread name hname => ?_
    rw [environment_of_mem_free hname, environment_of_mem_free hname, allVariables, allVariables,
      h e hread name hname]
  refine ⟨hagree, fun bindings => ?_, fun bindings e name v hread hfree => ?_⟩
  · rw [evaluate_eq_evaluateIn]
    exact evaluateIn_congr fun e _ name hname => environment_of_mem_free hname bindings
  · refine hagree _ _ fun e' hread' other hother => ?_
    obtain rfl : e = e' := Except.ok.inj (hread.symm.trans hread')
    rw [Table.find?_insert, if_neg]
    rintro rfl
    exact hfree hother

/-- A macro that binds `x` and asks its scope for two other variables. -/
def shiftedItems : String := "items.map(x, x + n)"

/-- Items, what is added to each of them, a variable with the name of the one that is bound, and one
that nothing asks for. -/
def shiftScope (x spare : Value) : Variables :=
  [("x", x), ("items", .list [.ofNat 1, .ofNat 2]), ("spare", spare), ("n", .ofNat 10)]

/-- An outer variable of the name that the macro binds has no influence, and neither has a lazy one. -/
theorem shiftedItems_references :
    ∃ e, read shiftedItems = .ok e ∧ e.free = ["items", "n"] ∧
      evaluate shiftedItems (shiftScope (.string "outer") (.lazy .null)) =
        evaluate shiftedItems (shiftScope .null (.ofNat 3)) ∧
      evaluate shiftedItems (shiftScope .null .null) =
        evaluateIn (fun _ => allVariables (shiftScope .null .null)) shiftedItems ∧
      evaluate shiftedItems ((shiftScope .null .null).insert "spare" (.lazy (.ofNat 1))) =
        evaluate shiftedItems (shiftScope .null .null) := by
  have hread : (match read shiftedItems with
      | .ok e => decide (e.free = ["items", "n"])
      | .error _ => false) = true := by decide +kernel
  obtain ⟨hagree, hwhole, hunasked⟩ := references_suffice shiftedItems
  cases he : read shiftedItems with
  | error _ => simp [he] at hread
  | ok e =>
    have hfree : e.free = ["items", "n"] := by simpa [he] using hread
    refine ⟨e, rfl, hfree, hagree _ _ fun e' he' name hname => ?_, hwhole _,
      hunasked _ e "spare" _ he (by simp [hfree])⟩
    obtain rfl : e = e' := Except.ok.inj (he.symm.trans he')
    simp only [hfree, List.mem_cons, List.not_mem_nil, or_false] at hname
    obtain rfl | rfl := hname <;> rfl

end Expression

end StepScript
