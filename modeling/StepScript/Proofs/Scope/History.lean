import Mathlib.Data.List.Nodup
import StepScript.Proofs.Run.Entering

/-!
# History — what a scope holds after any changes

All that write into a scope write into the same one: values are put, tables of variables are merged, and
variables are removed, in some order.  Whatever the order is, every variable is stored once, under its
normalised name, and so each operation can be told by what it does to the names that are spelled alike.

* `Scope.IsNormal` is the invariant, kept by each change (`Scope.IsNormal.apply`) and by all histories
  (`Scope.IsNormal.after`);
* `Scope.get?_after`: a variable has what the last change that concerns it has made of it;
* `Scope.history_lawful` is the main result.
-/

namespace StepScript

open VariableName (normalize)

namespace Scope

variable {s : Scope} {name other key : String} {entries : Variables}

/-! ## Changes -/

/-- A change of a scope. -/
inductive Change where
  | put (name : String) (value : Value)
  | extend (entries : Variables)
  | remove (name : String)

def Change.apply (s : Scope) : Change → Scope
  | .put name value => s.put name value
  | .extend entries => s.extend entries
  | .remove name => s.remove name

/-- The scope after several changes, in the order in which they are made. -/
def after (s : Scope) (changes : List Change) : Scope :=
  changes.foldl Change.apply s

/-- Every variable is stored once, under its normalised name. -/
structure IsNormal (s : Scope) : Prop where
  normalized : ∀ key ∈ Table.names s.bindings, normalize key = key
  once : (Table.names s.bindings).Nodup

namespace IsNormal

theorem empty : IsNormal Scope.empty where
  normalized _ hkey := absurd hkey List.not_mem_nil
  once := List.nodup_nil

/-- Storing a value keeps the names normal, whatever name is given. -/
theorem put (h : IsNormal s) (name : String) (value : Value) : IsNormal (s.put name value) where
  normalized key hkey := by
    rcases (Table.mem_names_insert _ _ _ _).1 hkey with rfl | hkey
    · exact VariableName.normalize_normalize name
    · exact h.normalized key hkey
  once := Table.nodup_insert h.once _ value

theorem remove (h : IsNormal s) (name : String) : IsNormal (s.remove name) where
  normalized key hkey := h.normalized key ((Table.mem_names_erase h.once).1 hkey).2
  once := by
    change (Table.names (Table.erase s.bindings (normalize name))).Nodup
    rw [Table.names_erase]
    exact h.once.erase _

/-- Storing several values keeps the names normal. -/
theorem extend (h : IsNormal s) (entries : Variables) : IsNormal (s.extend entries) := by
  induction entries generalizing s with
  | nil => exact h
  | cons e rest ih => exact ih (h.put e.1 e.2)

theorem apply (h : IsNormal s) (change : Change) : IsNormal (change.apply s) := by
  cases change with
  | put name value => exact h.put name value
  | extend entries => exact h.extend entries
  | remove name => exact h.remove name

/-- A scope stays normal through any history. -/
theorem after (h : IsNormal s) (changes : List Change) : IsNormal (s.after changes) := by
  induction changes generalizing s with
  | nil => exact h
  | cons change rest ih => exact ih (h.apply change)

end IsNormal

/-! ## What a change does to the variables -/

/-- A scope has a variable if its normalised name is among the stored ones. -/
theorem contains_iff : s.contains name = true ↔ normalize name ∈ Table.names s.bindings := by
  rw [contains, get?, Option.isSome_iff_ne_none, ne_eq, Table.find?_eq_none_iff, not_not]

/-- Two names are spellings of one variable to all operations on a scope. -/
structure Alike (s : Scope) (name other : String) : Prop where
  get? : s.get? name = s.get? other
  contains : s.contains name = s.contains other
  put : ∀ value, s.put name value = s.put other value
  remove : s.remove name = s.remove other

/-- Spellings with one normalised name cannot be told apart by any operation. -/
theorem alike_of_normalize_eq (s : Scope) (h : normalize name = normalize other) :
    Alike s name other where
  get? := by rw [Scope.get?, Scope.get?, h]
  contains := by rw [Scope.contains, Scope.contains, Scope.get?, Scope.get?, h]
  put value := by rw [Scope.put, Scope.put, h]
  remove := by rw [Scope.remove, Scope.remove, h]

/-- A variable that is dropped has no value, and all others keep theirs. -/
theorem get?_remove (h : IsNormal s) (name other : String) :
    (s.remove name).get? other =
      if normalize name = normalize other then none else s.get? other := by
  split
  · rename_i heq
    rw [(alike_of_normalize_eq _ heq.symm).get?]
    exact Table.find?_erase_self h.once _
  · rename_i hne
    exact Table.find?_erase hne

theorem size_eq_length_names (s : Scope) : s.size = (Table.names s.bindings).length :=
  (List.length_map Prod.fst).symm

/-- Storing a value adds a variable only if there is none of that name. -/
theorem size_put (s : Scope) (name : String) (value : Value) :
    (s.put name value).size = if s.contains name then s.size else s.size + 1 := by
  have hnames : Table.names (s.put name value).bindings =
      if normalize name ∈ Table.names s.bindings then Table.names s.bindings
      else Table.names s.bindings ++ [normalize name] := Table.names_insert _ _ _
  rw [size_eq_length_names, size_eq_length_names, hnames]
  simp only [contains_iff]
  split
  · rfl
  · simp

/-- Dropping a variable that is there makes the scope smaller by one. -/
theorem size_remove (s : Scope) (name : String) :
    (s.remove name).size = if s.contains name then s.size - 1 else s.size := by
  have hnames : Table.names (s.remove name).bindings =
      (Table.names s.bindings).erase (normalize name) := Table.names_erase _ _
  rw [size_eq_length_names, size_eq_length_names, hnames, List.length_erase]
  simp only [contains_iff]

/-- The size is the number of the variables, counted by their normalised names. -/
theorem size_eq_of_mem_iff (h : IsNormal s) {names : List String} (hnodup : names.Nodup)
    (hmem : ∀ name, name ∈ names ↔ normalize name = name ∧ s.contains name = true) :
    s.size = names.length := by
  rw [size_eq_length_names]
  refine ((List.perm_ext_iff_of_nodup h.once hnodup).2 fun key => ?_).length_eq
  rw [hmem, contains_iff]
  constructor
  · intro hkey
    have hnormal := h.normalized key hkey
    exact ⟨hnormal, hnormal.symm ▸ hkey⟩
  · rintro ⟨hnormal, hkey⟩
    rwa [hnormal] at hkey

/-- A table of variables binds a name: one of its entries is spelled alike. -/
def Binds (entries : Variables) (name : String) : Prop :=
  ∃ key ∈ Table.names entries, normalize key = normalize name

/-- Entries that do not write a variable hold no value of it. -/
theorem last?_of_not_binds (h : ¬ Binds entries name) :
    Variables.last? (Variables.spells name) entries = none := by
  refine Variables.last?_eq_none_iff.2 fun key hkey => ?_
  exact beq_eq_false_iff_ne.2 fun heq => h ⟨key, hkey, heq⟩

/-- Variables that are not written keep their values. -/
theorem get?_extend_of_not_binds (s : Scope) (h : ¬ Binds entries name) :
    (s.extend entries).get? name = s.get? name := by
  rw [get?_extend, last?_of_not_binds h]
  rfl

/-- What is bound does not depend on what has been there before. -/
theorem get?_extend_of_binds (s t : Scope) (h : Binds entries name) :
    (s.extend entries).get? name = (t.extend entries).get? name := by
  obtain ⟨key, hkey, heq⟩ := h
  obtain ⟨value, hvalue⟩ : ∃ value, Variables.last? (Variables.spells name) entries = some value :=
    Variables.last?_isSome_of_mem hkey (beq_iff_eq.2 heq)
  rw [get?_extend, get?_extend, hvalue]
  rfl

/-- Of the entries that bind a name the last one counts. -/
theorem get?_extend_of_last (s : Scope) (front : Variables) (key : String) (value : Value)
    {back : Variables} (hname : normalize key = normalize name) (hback : ¬ Binds back name) :
    (s.extend (front ++ (key, value) :: back)).get? name = some value := by
  have hspells : Variables.spells name (key, value).1 = true := beq_iff_eq.2 hname
  have hlast : Variables.last? (Variables.spells name) (front ++ (key, value) :: back) =
      some value := by
    rw [Variables.last?_append, Variables.last?_cons, last?_of_not_binds hback, if_pos hspells]
    rfl
  rw [get?_extend, hlast]
  rfl

/-! ## Histories -/

/-- What a change makes of a variable, if it concerns it. -/
def Change.settles? (name : String) : Change → Option (Option Value)
  | .put other value => if normalize other = normalize name then some (some value) else none
  | .extend entries => (Variables.last? (Variables.spells name) entries).map some
  | .remove other => if normalize other = normalize name then some none else none

/-- A change settles the value of some variables and leaves that of the others. -/
theorem get?_apply (h : IsNormal s) (change : Change) (name : String) :
    (change.apply s).get? name = (change.settles? name).getD (s.get? name) := by
  cases change with
  | put other value =>
    rw [Change.apply, get?_put, Change.settles?]
    split <;> rfl
  | extend entries =>
    rw [Change.apply, get?_extend, Change.settles?]
    cases Variables.last? (Variables.spells name) entries <;> rfl
  | remove other =>
    rw [Change.apply, get?_remove h, Change.settles?]
    split <;> rfl

/-- A variable has what the last change that concerns it has made of it. -/
theorem get?_after (h : IsNormal s) (changes : List Change) (name : String) :
    (s.after changes).get? name =
      (changes.reverse.findSome? (Change.settles? name)).getD (s.get? name) := by
  induction changes generalizing s with
  | nil => rfl
  | cons change rest ih =>
    change ((change.apply s).after rest).get? name = _
    rw [ih (h.apply change), get?_apply h, List.reverse_cons, List.findSome?_append,
      List.findSome?_singleton]
    cases rest.reverse.findSome? (Change.settles? name) <;> rfl

/-! ## The laws of a scope -/

/-- The laws of the operations on a scope, for any names. -/
structure Lawful (s : Scope) : Prop where
  normal : IsNormal s
  alike : ∀ name other, normalize name = normalize other → Alike s name other
  get?_put : ∀ name other value, (s.put name value).get? other =
    if normalize name = normalize other then some value else s.get? other
  contains_put : ∀ name other value, (s.put name value).contains other =
    if normalize name = normalize other then true else s.contains other
  get?_remove : ∀ name other, (s.remove name).get? other =
    if normalize name = normalize other then none else s.get? other
  contains_remove : ∀ name other, (s.remove name).contains other =
    if normalize name = normalize other then false else s.contains other
  size_put : ∀ name value, (s.put name value).size = if s.contains name then s.size else s.size + 1
  size_remove : ∀ name, (s.remove name).size = if s.contains name then s.size - 1 else s.size
  /-- The size is the number of normalised names that have a value. -/
  size_eq : ∀ names : List String, names.Nodup →
    (∀ name, name ∈ names ↔ normalize name = name ∧ s.contains name = true) → s.size = names.length
  /-- Of the entries that are merged the last one of a name counts. -/
  extend_bound : ∀ front key value back name, normalize key = normalize name → ¬ Binds back name →
    (s.extend (front ++ (key, value) :: back)).get? name = some value
  extend_kept : ∀ entries name, ¬ Binds entries name → (s.extend entries).get? name = s.get? name
  extend_extend : ∀ entries, (s.extend entries).extend entries = s.extend entries

/-- The laws of the operations follow from the invariant. -/
theorem IsNormal.lawful (h : IsNormal s) : Lawful s where
  normal := h
  alike _ _ := alike_of_normalize_eq s
  get?_put := Scope.get?_put s
  contains_put name other value := by
    rw [contains, contains, Scope.get?_put]
    split <;> rfl
  get?_remove := Scope.get?_remove h
  contains_remove name other := by
    rw [contains, contains, Scope.get?_remove h]
    split <;> rfl
  size_put := Scope.size_put s
  size_remove := Scope.size_remove s
  size_eq _ := size_eq_of_mem_iff h
  extend_bound front key value _ _ := get?_extend_of_last s front key value
  extend_kept _ _ := get?_extend_of_not_binds s
  extend_extend := Scope.extend_extend s

/-- The base variables of a list are written again before a step: whatever has become of the scope since
they were written first, they have their values again, and no other variable changes but the step
number. -/
def Restores (s : Scope) (bindings : Variables) : Prop :=
  ∀ (changes : List Change) (run : RunState), run.scope = (s.extend bindings).after changes →
    ∀ number, ∃ run', ListRun.enter (some bindings) number run = .finished () run' ∧
      ∀ name, IsFree name →
        (Binds bindings name → run'.scope.get? name = (s.extend bindings).get? name) ∧
        (¬ Binds bindings name → run'.scope.get? name = run.scope.get? name)

/-- Entering a step restores the base variables, from any scope to any history. -/
theorem restores (s : Scope) (bindings : Variables) : Restores s bindings := by
  intro changes run hrun number
  refine ⟨ListRun.entered (some bindings) number run, rfl, ?_⟩
  intro name hfree
  have hentered : (ListRun.entered (some bindings) number run).scope.get? name =
      (run.scope.extend bindings).get? name := by
    rw [ListRun.get?_entered_of_free hfree, get?_extend]
    rfl
  rw [hentered]
  exact ⟨get?_extend_of_binds run.scope s, get?_extend_of_not_binds run.scope⟩

/-- After any history the variables of a scope are what the last changes have made of them, its operations
follow their laws, and the base variables of a list can be restored in it. -/
theorem history_lawful (changes : List Change) :
    (∀ name, (empty.after changes).get? name =
        (changes.reverse.findSome? (Change.settles? name)).getD none) ∧
      Lawful (empty.after changes) ∧ ∀ bindings, Restores (empty.after changes) bindings :=
  ⟨get?_after .empty changes, (IsNormal.empty.after changes).lawful, restores _⟩

def respelledHistory : List Change :=
  [.put "a b" (.bool true), .extend [("a-b", .null), ("c", .null), ("a(b", .string "last")],
    .remove "c"]

/-- The three spellings are one variable with the value that was written last. -/
theorem respelledHistory_lawful :
    (empty.after respelledHistory).get? "a/b" = some (.string "last") ∧
      (empty.after respelledHistory).size = 1 ∧ Lawful (empty.after respelledHistory) := by
  obtain ⟨hvalue, hlawful, -⟩ := history_lawful respelledHistory
  exact ⟨(hvalue "a/b").trans rfl, rfl, hlawful⟩

end Scope

end StepScript
