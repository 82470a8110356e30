import StepScript.Proofs.Step.ListForms

/-!
# Base variables of a list — which of them are read

The steps of a list are in an array, which may carry base variables.  A value that is such an array is
read with them.  An object that has the array under `steps` is read with the base variables under
`variables` alone: those that the array carries are dropped.

* `StepList.attached` are the base variables that the array carries, `StepList.explicit` those that an
  object gives;
* `StepList.Inherits` says which base variables a list has that is read;
* `StepList.ofValue_inherits` is the main result, on all values and lists.
-/

namespace StepScript

namespace StepList

def inner (fields : Variables) : Variables :=
  match Table.find? fields "steps" with
  | some (.array _ bindings) => bindings.getD []
  | _ => []

/-- The base variables that are carried by the array which has the steps: the value, or what an object
has under `steps`. -/
def attached (v : Value) : Variables :=
  match v.resolved with
  | .array _ bindings => bindings.getD []
  | .object fields => inner fields
  | _ => []

def given (fields : Variables) : Variables :=
  match Table.find? fields "variables" with
  | some (.object vs) => vs
  | _ => []

/-- The base variables that a value gives explicitly, as an object. -/
def explicit (v : Value) : Variables :=
  match v.resolved with
  | .object fields => given fields
  | _ => []

/-- A list has the base variable of some name that its array carries, unless another one is given
explicitly, which it has then. -/
def HasAttached (v : Value) (l : StepList) (name : String) : Prop :=
  Table.find? (l.bindings.getD []) name =
    (Table.find? (explicit v) name <|> Table.find? (attached v) name)

/-- The base variables of a list that is read. -/
structure Inherits (v : Value) (l : StepList) : Prop where
  /-- An array is read as it is. -/
  array : InArray v → v.resolved = l.toValue
  /-- Of anything else only those base variables are read that are given explicitly. -/
  object : ¬ InArray v → l.bindings.getD [] = explicit v
  /-- So a base variable that the array carries is kept, or gives way to an explicit one, if and only if
  the value is that array itself or there is an explicit one. -/
  hasAttached_iff : ∀ name ∈ Table.names (attached v),
    (HasAttached v l name ↔ InArray v ∨ name ∈ Table.names (explicit v))

variable {v : Value} {l : StepList} {fields : Variables}

/-- An array gives no base variables explicitly. -/
theorem explicit_of_array {steps : List Value} {bindings : Option Variables}
    (h : v.resolved = .array steps bindings) : explicit v = [] := by
  rw [explicit, h]

/-- The base variables that are read from an object are those under `variables`. -/
theorem given_eq {bindings : Option Variables} (h : variablesOf fields = .ok bindings) :
    bindings.getD [] = given fields := by
  unfold variablesOf at h
  unfold given
  split at h
  · rename_i hfind
    cases h
    rw [hfind]
    rfl
  · rename_i hfind
    cases h
    rw [hfind]
    rfl
  · rename_i vs hfind
    cases h
    rw [hfind]
    rfl
  · cases h

theorem not_inArray_of_eq {r : Value} (h : v.resolved = r)
    (hr : ∀ steps bindings, r ≠ .array steps bindings) : ¬ InArray v := by
  rintro ⟨steps, bindings, harray⟩
  exact hr steps bindings (h.symm.trans harray)

/-- Without an array, a base variable that is carried is kept only if it is given explicitly too. -/
theorem hasAttached_iff_of_explicit {name : String} (h : l.bindings.getD [] = explicit v)
    (hname : name ∈ Table.names (attached v)) :
    HasAttached v l name ↔ name ∈ Table.names (explicit v) := by
  unfold HasAttached
  rw [h]
  cases hfind : Table.find? (explicit v) name with
  | some w =>
    have hmem : name ∈ Table.names (explicit v) := by
      by_contra hmissing
      rw [Table.find?_eq_none_iff.2 hmissing] at hfind
      cases hfind
    exact iff_of_true rfl hmem
  | none =>
    refine iff_of_false ?_ (Table.find?_eq_none_iff.1 hfind)
    intro hnone
    exact Table.find?_eq_none_iff.1 hnone.symm hname

/-- Outside an array all follows from having the explicit base variables. -/
theorem Inherits.of_explicit (hnot : ¬ InArray v) (h : l.bindings.getD [] = explicit v) :
    Inherits v l where
  array harray := absurd harray hnot
  object _ := h
  hasAttached_iff name hname := by rw [hasAttached_iff_of_explicit h hname, or_iff_right hnot]

/-- Every way to write a list settles where its base variables come from. -/
theorem Writes.inherits (h : Writes v.resolved l) : Inherits v l := by
  generalize hv : v.resolved = r at h
  cases h with
  | array steps bindings =>
    have harray : InArray v := ⟨steps, bindings, hv⟩
    refine ⟨fun _ => hv, fun hnot => absurd harray hnot, fun name _ => ?_⟩
    refine iff_of_true ?_ (.inl harray)
    rw [HasAttached, explicit_of_array hv, attached, hv]
    rfl
  | @object fields steps inner bindings hsteps hvariables =>
    have hexplicit : explicit v = given fields := by rw [explicit, hv]
    exact .of_explicit (not_inArray_of_eq hv nofun) ((given_eq hvariables).trans hexplicit.symm)
  | null =>
    have hexplicit : explicit v = [] := by rw [explicit, hv]
    exact .of_explicit (not_inArray_of_eq hv nofun) hexplicit.symm

/-- A list that is read has the base variables that the array of its steps carries if and only if the
value is that array or gives them explicitly; and a list that is written as an array is read again. -/
theorem ofValue_inherits (v : Value) (l : StepList) :
    (ofValue v = .ok l → Inherits v l) ∧ ofValue l.toValue = .ok l :=
  ⟨fun h => (ofValue_eq_ok_iff.1 h).inherits, rfl⟩

/-- Steps in an array with two base variables, inside an object that gives one of them. -/
def nestedTag : Value :=
  .object [("variables", .object [("a", Value.ofNat 2)]),
    ("steps", .array [.object [("echo", .string "$(a)")]]
      (some [("a", Value.ofNat 1), ("b", Value.ofNat 1)]))]

/-- The variable that is given explicitly too is kept, with that value, and the other one is
lost. -/
theorem nestedTag_inherits :
    ∃ l, ofValue nestedTag = .ok l ∧ HasAttached nestedTag l "a" ∧ ¬ HasAttached nestedTag l "b" := by
  have hread : ofValue nestedTag = .ok ⟨[.object [("echo", .string "$(a)")]],
      some [("a", Value.ofNat 2)]⟩ := rfl
  have hinherits := (ofValue_inherits nestedTag _).1 hread
  have hnot : ¬ InArray nestedTag := not_inArray_of_eq rfl nofun
  refine ⟨_, hread, ?_, ?_⟩
  · exact (hinherits.hasAttached_iff "a" (by decide +kernel)).2 (.inr (by decide +kernel))
  · intro hkept
    rcases (hinherits.hasAttached_iff "b" (by decide +kernel)).1 hkept with harray | hgiven
    · exact hnot harray
    · exact absurd hgiven (by decide +kernel)

/-- Steps in an array with a base variable, inside an object that gives none. -/
def lostTag : Value :=
  .object [("steps", .array [.object [("echo", .string "$(a)")]] (some [("a", Value.ofNat 1)]))]

/-- The base variable is lost without an error. -/
theorem lostTag_read :
    ofValue lostTag = .ok ⟨[.object [("echo", .string "$(a)")]], none⟩ ∧
      "a" ∈ Table.names (attached lostTag) ∧
      ¬ HasAttached lostTag ⟨[.object [("echo", .string "$(a)")]], none⟩ "a" := by
  refine ⟨rfl, by decide +kernel, ?_⟩
  intro hkept
  cases hkept

end StepList

end StepScript
