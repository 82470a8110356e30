import Mathlib.Data.List.Nodup
import Mathlib.Data.List.Perm.Subperm
import StepScript.Json.Basic
import StepScript.Proofs.Number.Rounding

/-!
# Equality — plain data up to the order of its keys

Equality of plain data is decided field by field: an object looks its fields up in the other one.  As
long as every object has one entry a name, this is an equivalence relation, and two values are equal if
and only if they agree at every position and under every key.

* `Json.Keyed` says that objects have one entry a name, at every depth;
* `Json.equals_array_iff` and `Json.equals_object_iff` say what equality asks of arrays and objects;
* `Json.equals_refl`, `Json.equals_symm` and `Json.equals_trans` are the laws of an equivalence;
* `Json.equals_item_iff` and `Json.equals_field_iff`: it is a congruence.
-/

namespace StepScript

/-! ## Numbers -/

namespace Number

/-- No number is so large that its nearest float is infinite. -/
theorem isFinite_toBinary64 (n : Number) : n.toBinary64.isFinite = true := by
  cases n with
  | integer n lower upper =>
    rw [twoPow_eq_pow] at lower upper
    have hlong : |n| < 2 ^ 1023 := by
      rw [abs_lt]
      omega
    obtain ⟨k, -, hfinite, -⟩ := Binary64.ofInt_rounds hlong
    exact hfinite
  | float x finite => exact finite

/-- Compared as double-precision numbers, two numbers are equal if they have the same value then. -/
theorem eqv_iff {m n : Number} :
    m.toBinary64.eqv n.toBinary64 = true ↔ m.toBinary64.value = n.toBinary64.value :=
  Binary64.eqv_iff m.isFinite_toBinary64 n.isFinite_toBinary64

/-- Numbers are equal if they are of one kind and have the same value. -/
theorem equals_iff {m n : Number} :
    m.equals n = true ↔
      (∃ k lower upper, m = .integer k lower upper ∧ n = .integer k lower upper) ∨
        ∃ x y hx hy, m = .float x hx ∧ n = .float y hy ∧ x.value = y.value := by
  cases m with
  | integer m lower upper =>
    cases n with
    | integer n lower' upper' =>
      rw [equals, beq_iff_eq]
      constructor
      · rintro rfl
        exact .inl ⟨m, lower, upper, rfl, rfl⟩
      · rintro (⟨k, _, _, hm, hn⟩ | ⟨_, _, _, _, hm, _⟩)
        · cases hm
          cases hn
          rfl
        · cases hm
    | float y hy => simp [equals]
  | float x hx =>
    cases n with
    | integer n lower upper => simp [equals]
    | float y hy =>
      rw [equals, Binary64.eqv_iff hx hy]
      constructor
      · exact fun hvalue => .inr ⟨x, y, hx, hy, rfl, rfl, hvalue⟩
      · rintro (⟨_, _, _, hx', _⟩ | ⟨_, _, _, _, hx', hy', hvalue⟩)
        · cases hx'
        · cases hx'
          cases hy'
          exact hvalue

/-- Numbers that are equal structurally are equal as floats, too. -/
theorem eqv_of_equals {m n : Number} (h : m.equals n = true) :
    m.toBinary64.eqv n.toBinary64 = true := by
  rw [eqv_iff]
  rcases equals_iff.1 h with ⟨k, lower, upper, rfl, rfl⟩ | ⟨x, y, hx, hy, rfl, rfl, hvalue⟩
  · rfl
  · exact hvalue

/-- Every number is structurally equal to itself. -/
theorem equals_refl (n : Number) : n.equals n = true := by
  cases n with
  | integer n lower upper => exact equals_iff.2 (.inl ⟨n, lower, upper, rfl, rfl⟩)
  | float x hx => exact equals_iff.2 (.inr ⟨x, x, hx, hx, rfl, rfl, rfl⟩)

theorem equals_symm {m n : Number} (h : m.equals n = true) : n.equals m = true := by
  rw [equals_iff]
  rcases equals_iff.1 h with ⟨k, lower, upper, rfl, rfl⟩ | ⟨x, y, hx, hy, rfl, rfl, hvalue⟩
  · exact .inl ⟨k, lower, upper, rfl, rfl⟩
  · exact .inr ⟨y, x, hy, hx, rfl, rfl, hvalue.symm⟩

theorem equals_trans {m n k : Number} (h : m.equals n = true) (h' : n.equals k = true) :
    m.equals k = true := by
  rw [equals_iff]
  rcases equals_iff.1 h with ⟨i, lower, upper, rfl, rfl⟩ | ⟨x, y, hx, hy, rfl, rfl, hxy⟩
  · rcases equals_iff.1 h' with ⟨j, _, _, hj, rfl⟩ | ⟨_, _, _, _, hfloat, _⟩
    · cases hj
      exact .inl ⟨i, lower, upper, rfl, rfl⟩
    · cases hfloat
  · rcases equals_iff.1 h' with ⟨_, _, _, hinteger, _⟩ | ⟨_, z, _, hz, hfloat, rfl, hyz⟩
    · cases hinteger
    · cases hfloat
      exact .inr ⟨x, z, hx, hz, rfl, rfl, hxy.trans hyz⟩

end Number

namespace Json

/-- Every object in plain data has one entry a name. -/
inductive Keyed : Json → Prop where
  | null : Keyed .null
  | bool (b : Bool) : Keyed (.bool b)
  | number (n : Number) : Keyed (.number n)
  | string (s : String) : Keyed (.string s)
  | array {items : List Json} (inside : ∀ j ∈ items, Keyed j) : Keyed (.array items)
  | object {fields : Table Json} (once : fields.names.Nodup) (inside : ∀ e ∈ fields, Keyed e.2) :
      Keyed (.object fields)

/-- Two values that may be missing are equal if both of them are, or if neither is and they are
equal. -/
abbrev SameAt : Option Json → Option Json → Prop :=
  Option.Rel fun x y => x.equals y = true

section SameAt

variable {x y z : Option Json}

/-- A place agrees with itself if what stands there equals itself. -/
theorem sameAt_refl (h : ∀ v, x = some v → v.equals v = true) : SameAt x x := by
  cases x with
  | none => exact .none
  | some v => exact .some (h v rfl)

/-- Agreement at a place can be turned around where the equality there can. -/
theorem SameAt.symm (hxy : SameAt x y)
    (h : ∀ v w, x = some v → y = some w → v.equals w = true → w.equals v = true) :
    SameAt y x := by
  cases hxy with
  | none => exact .none
  | some hvw => exact .some (h _ _ rfl rfl hvw)

/-- Agreement at a place is transitive where the equality there is. -/
theorem SameAt.trans (hxy : SameAt x y) (hyz : SameAt y z)
    (h : ∀ u v w, x = some u → y = some v → z = some w → u.equals v = true → v.equals w = true →
      u.equals w = true) : SameAt x z := by
  cases hxy with
  | none => exact hyz
  | some huv =>
    cases hyz with
    | some hvw => exact .some (h _ _ _ rfl rfl rfl huv hvw)

end SameAt

/-! ## Arrays -/

/-- Arrays are equal when they agree at every place, past their ends too. -/
theorem equalItems_iff {a b : List Json} :
    equalItems a b = true ↔ ∀ i : Nat, SameAt a[i]? b[i]? := by
  induction a generalizing b with
  | nil =>
    cases b with
    | nil =>
      rw [equalItems]
      exact iff_of_true rfl fun _ => .none
    | cons y b =>
      simp only [equalItems, Bool.false_eq_true, false_iff, not_forall]
      exact ⟨0, nofun⟩
  | cons x a ih =>
    cases b with
    | nil =>
      simp only [equalItems, Bool.false_eq_true, false_iff, not_forall]
      exact ⟨0, nofun⟩
    | cons y b =>
      rw [equalItems, Bool.and_eq_true, ih]
      constructor
      · rintro ⟨hfirst, hrest⟩ i
        cases i with
        | zero => exact .some hfirst
        | succ i => exact hrest i
      · intro h
        refine ⟨?_, fun i => h (i + 1)⟩
        cases h 0 with
        | some hfirst => exact hfirst

/-- Arrays are equal if they are so at every position. -/
theorem equals_array_iff {a b : List Json} :
    (Json.array a).equals (.array b) = true ↔ ∀ i : Nat, SameAt a[i]? b[i]? := by
  rw [equals, equalItems_iff]

/-! ## Objects -/

/-- The fields of one object are all found in the other with equal values. -/
theorem equalFields_iff {a : List (String × Json)} {b : Table Json} :
    equalFields a b = true ↔ ∀ e ∈ a, ∃ w, b.find? e.1 = some w ∧ e.2.equals w = true := by
  induction a with
  | nil => simp [equalFields]
  | cons e rest ih =>
    obtain ⟨k, v⟩ := e
    rw [equalFields, Bool.and_eq_true, ih, List.forall_mem_cons]
    refine and_congr_left' ?_
    cases b.find? k with
    | none => simp
    | some w => simp

/-- Objects are equal if they are so under every name: their lengths leave no room for other fields in
the second one. -/
theorem equals_object_iff {a b : Table Json} (ha : a.names.Nodup) (hb : b.names.Nodup) :
    (Json.object a).equals (.object b) = true ↔ ∀ name, SameAt (a.find? name) (b.find? name) := by
  rw [equals, Bool.and_eq_true, beq_iff_eq, equalFields_iff]
  constructor
  · rintro ⟨hlength, hfields⟩ name
    have hsubset : a.names ⊆ b.names := by
      intro name hmem
      obtain ⟨e, he, rfl⟩ := List.mem_map.1 hmem
      obtain ⟨w, hw, -⟩ := hfields e he
      by_contra hnone
      rw [Table.find?_eq_none_iff.2 hnone] at hw
      cases hw
    have hperm : a.names.Perm b.names :=
      (ha.subperm hsubset).perm_of_length_le (by simp [Table.names, hlength])
    cases hname : a.find? name with
    | some v =>
      obtain ⟨w, hw, hequal⟩ := hfields (name, v) ((Table.find?_eq_some_iff ha).1 hname)
      rw [hw]
      exact .some hequal
    | none =>
      have hnone : name ∉ b.names := fun hmem =>
        Table.find?_eq_none_iff.1 hname (hperm.mem_iff.2 hmem)
      rw [Table.find?_eq_none_iff.2 hnone]
      exact .none
  · intro hsame
    constructor
    · have hperm : a.names.Perm b.names := by
        refine (List.perm_ext_iff_of_nodup ha hb).2 fun name => ?_
        rw [← not_iff_not, ← Table.find?_eq_none_iff, ← Table.find?_eq_none_iff]
        have hname := hsame name
        generalize a.find? name = x at hname
        generalize b.find? name = y at hname
        cases hname with
        | none => simp
        | some _ => simp
      simpa [Table.names] using hperm.length_eq
    · intro e he
      have hname := hsame e.1
      rw [(Table.find?_eq_some_iff ha).2 he] at hname
      cases hw : b.find? e.1 with
      | none =>
        rw [hw] at hname
        cases hname
      | some w =>
        rw [hw] at hname
        cases hname with
        | some hequal => exact ⟨w, rfl, hequal⟩

/-! ## An equivalence -/

/-- Data with different keys in its objects equals itself. -/
theorem equals_refl {a : Json} (h : a.Keyed) : a.equals a = true := by
  induction h with
  | null => rfl
  | bool b => simp [equals]
  | number n => exact n.equals_refl
  | string s => simp [equals]
  | array inside ih =>
    exact equals_array_iff.2 fun i => sameAt_refl fun v hv => ih v (List.mem_of_getElem? hv)
  | object once inside ih =>
    exact (equals_object_iff once once).2 fun name => sameAt_refl fun v hv =>
      ih (name, v) ((Table.find?_eq_some_iff once).1 hv)

/-- Between such data equality can be turned around, although only one side is gone through. -/
theorem equals_symm {a b : Json} (ha : a.Keyed) (hb : b.Keyed) (h : a.equals b = true) :
    b.equals a = true := by
  -- data of two kinds is never equal
  induction ha generalizing b with
  | null =>
    cases hb with
    | null => rfl
    | _ => cases h
  | bool b =>
    cases hb with
    | bool c =>
      rw [equals, beq_iff_eq] at h ⊢
      exact h.symm
    | _ => cases h
  | number n =>
    cases hb with
    | number m => exact Number.equals_symm h
    | _ => cases h
  | string s =>
    cases hb with
    | string t =>
      rw [equals, beq_iff_eq] at h ⊢
      exact h.symm
    | _ => cases h
  | array inside ih =>
    cases hb with
    | array inside' =>
      refine equals_array_iff.2 fun i => (equals_array_iff.1 h i).symm fun v w hv hw hvw => ?_
      exact ih v (List.mem_of_getElem? hv) (inside' w (List.mem_of_getElem? hw)) hvw
    | _ => cases h
  | object once inside ih =>
    cases hb with
    | object once' inside' =>
      refine (equals_object_iff once' once).2 fun name =>
        ((equals_object_iff once once').1 h name).symm fun v w hv hw hvw => ?_
      exact ih (name, v) ((Table.find?_eq_some_iff once).1 hv)
        (inside' (name, w) ((Table.find?_eq_some_iff once').1 hw)) hvw
    | _ => cases h

/-- Equality of such data is transitive. -/
theorem equals_trans {a b c : Json} (ha : a.Keyed) (hb : b.Keyed) (hc : c.Keyed)
    (h : a.equals b = true) (h' : b.equals c = true) : a.equals c = true := by
  induction ha generalizing b c with
  | null =>
    cases hb with
    | null => exact h'
    | _ => cases h
  | bool b =>
    cases hb with
    | bool c =>
      rw [equals, beq_iff_eq] at h
      exact h ▸ h'
    | _ => cases h
  | number n =>
    cases hb with
    | number m =>
      cases hc with
      | number k => exact Number.equals_trans h h'
      | _ => cases h'
    | _ => cases h
  | string s =>
    cases hb with
    | string t =>
      rw [equals, beq_iff_eq] at h
      exact h ▸ h'
    | _ => cases h
  | array inside ih =>
    cases hb with
    | array inside' =>
      cases hc with
      | array inside'' =>
        refine equals_array_iff.2 fun i =>
          (equals_array_iff.1 h i).trans (equals_array_iff.1 h' i) fun u v w hu hv hw => ?_
        exact ih u (List.mem_of_getElem? hu) (inside' v (List.mem_of_getElem? hv))
          (inside'' w (List.mem_of_getElem? hw))
      | _ => cases h'
    | _ => cases h
  | object once inside ih =>
    cases hb with
    | object once' inside' =>
      cases hc with
      | object once'' inside'' =>
        refine (equals_object_iff once once'').2 fun name =>
          ((equals_object_iff once once').1 h name).trans
            ((equals_object_iff once' once'').1 h' name) fun u v w hu hv hw => ?_
        exact ih (name, u) ((Table.find?_eq_some_iff once).1 hu)
          (inside' (name, v) ((Table.find?_eq_some_iff once').1 hv))
          (inside'' (name, w) ((Table.find?_eq_some_iff once'').1 hw))
      | _ => cases h'
    | _ => cases h

/-! ## Equality inside other data -/

/-- Arrays that differ in one item are equal if the items are. -/
theorem equals_item_iff {before after : List Json} (haround : ∀ j ∈ before ++ after, j.Keyed)
    (x y : Json) : (Json.array (before ++ x :: after)).equals (.array (before ++ y :: after)) = true ↔
      x.equals y = true := by
  have hself (items : List Json) (h : ∀ j ∈ items, j.Keyed) : equalItems items items = true :=
    equals_refl (.array h)
  simp only [List.mem_append] at haround
  rw [equals]
  induction before with
  | nil =>
    have hafter := hself after fun j hj => haround j (.inr hj)
    simp [equalItems, hafter]
  | cons j rest ih =>
    have hj : j.equals j = true := equals_refl (haround j (.inl List.mem_cons_self))
    have hrest := ih fun k hk => haround k (hk.imp (List.mem_cons_of_mem j) id)
    simp [equalItems, hj, hrest]

/-- Objects that differ in one field are equal if its values are. -/
theorem equals_field_iff {before after : Table Json} {key : String} {x y : Json}
    (once : (Table.names (before ++ (key, x) :: after)).Nodup)
    (haround : ∀ e ∈ before ++ after, e.2.Keyed) :
    (Json.object (before ++ (key, x) :: after)).equals (.object (before ++ (key, y) :: after)) = true ↔
      x.equals y = true := by
  have once' : (Table.names (before ++ (key, y) :: after)).Nodup := by
    simpa [Table.names] using once
  have hfind {z : Json} (h : (Table.names (before ++ (key, z) :: after)).Nodup) :
      Table.find? (before ++ (key, z) :: after) key = some z :=
    (Table.find?_eq_some_iff h).2 (by simp)
  have hrest : (Table.names (before ++ after)).Nodup :=
    List.Nodup.sublist (((List.sublist_cons_self _ _).append_left before).map Prod.fst) once
  rw [equals_object_iff once once']
  constructor
  · intro h
    have hkey := h key
    rw [hfind once, hfind once'] at hkey
    cases hkey with
    | some hequal => exact hequal
  · intro hequal name
    by_cases hname : key = name
    · subst hname
      rw [hfind once, hfind once']
      exact .some hequal
    · rw [Table.find?_append_cons_of_ne hname, Table.find?_append_cons_of_ne hname]
      exact sameAt_refl fun v hv =>
        equals_refl (haround (name, v) ((Table.find?_eq_some_iff hrest).1 hv))

/-- Objects that have their fields in another order are equal. -/
theorem equals_object_of_perm {fields fields' : Table Json} (h : (Json.object fields).Keyed)
    (hperm : fields.Perm fields') : (Json.object fields).equals (.object fields') = true := by
  cases h with
  | object once inside =>
    have once' : (Table.names fields').Nodup := (hperm.map Prod.fst).nodup_iff.1 once
    refine (equals_object_iff once once').2 fun name => ?_
    rw [← Table.find?_perm hperm once]
    exact sameAt_refl fun v hv => equals_refl (inside (name, v) ((Table.find?_eq_some_iff once).1 hv))

end Json

end StepScript
