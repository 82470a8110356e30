import StepScript.Proofs.Action.Check
import StepScript.Proofs.Expression.Variable
import StepScript.Proofs.Json.Equality

/-!
# Acceptance — which values a check accepts as equal

A check compares two numbers as double-precision numbers, and everything else as plain data.  So the
relation is reflexive and symmetric, and blind to the order of keys, to base variables and to lazies;
but what is accepted by itself need not be accepted inside an array or an object, where numbers of two
kinds differ.

* `Value.Place` is a place inside a value, and `Place.fill` puts a value there;
* `Value.Restyles` changes what plain data does not show, at some place;
* `ListRun.Accepts` says that checks of two values pass, in whatever run;
* `ListRun.accepts_laws` says when acceptance is carried to a place, and what it does not depend on.
-/

namespace StepScript

namespace Value

/-! ## Places -/

/-- A place inside a value: what stands around it. -/
inductive Place where
  /-- The whole value. -/
  | here
  /-- An item of an array. -/
  | item (before : List Value) (inner : Place) (after : List Value)
      (bindings : Option (List (String × Value)))
  /-- A field of an object. -/
  | field (before : Variables) (key : String) (inner : Place) (after : Variables)
  /-- What a lazy value yields. -/
  | yielded (inner : Place)

namespace Place

/-- Put a value in a place. -/
def fill : Place → Value → Value
  | .here, v => v
  | .item before inner after bindings, v => .array (before ++ inner.fill v :: after) bindings
  | .field before key inner after, v => .object (before ++ (key, inner.fill v) :: after)
  | .yielded inner, v => .lazy (inner.fill v)

/-- The place is inside an array or an object. -/
def IsInside : Place → Prop
  | .here => False
  | .item _ _ _ _ => True
  | .field _ _ _ _ => True
  | .yielded inner => inner.IsInside

end Place

/-- One value is another one in which, at some place, the fields of an object stand in another order, an
array has other base variables, or a lazy value has been computed. -/
inductive Restyles : Value → Value → Prop
  | order (place : Place) {fields fields' : Variables} (h : fields.Perm fields') :
      Restyles (place.fill (.object fields)) (place.fill (.object fields'))
  | bindings (place : Place) (items : List Value) (bindings bindings' : Option Variables) :
      Restyles (place.fill (.array items bindings)) (place.fill (.array items bindings'))
  | computed (place : Place) (v : Value) : Restyles (place.fill (.lazy v)) (place.fill v)

/-- Plain data of a value with one entry a name has that too. -/
theorem Keyed.toJson {v : Value} (h : v.Keyed) : v.toJson.Keyed := by
  induction h with
  | null => exact .null
  | bool b => exact .bool b
  | number n => exact .number n
  | string s => exact .string s
  | array bindings inside ih =>
    refine .array ?_
    rw [toJsonItems_eq_map]
    exact List.forall_mem_map.2 ih
  | object once inside ih =>
    refine .object ?_ ?_
    · rw [names_toJsonFields]
      exact once
    · rw [toJsonFields_eq_map]
      exact List.forall_mem_map.2 ih
  | lazy inside ih => exact ih

/-! ## Values in places -/

namespace Place

/-- The names of an object do not depend on the value under one of them. -/
theorem names_around {before after : Variables} {key : String} (v w : Value) :
    Table.names (before ++ (key, v) :: after) = Table.names (before ++ (key, w) :: after) := by
  simp [Table.names]

/-- An array has different names throughout exactly if each of its items has, the one at a place and
those around it. -/
theorem keyed_array_around_iff {before after : List Value} {bindings : Option Variables} {w : Value} :
    (Value.array (before ++ w :: after) bindings).Keyed ↔
      (∀ x ∈ before ++ after, x.Keyed) ∧ w.Keyed := by
  constructor
  · rintro (_ | _ | _ | _ | ⟨_, inside⟩)
    simp only [List.mem_append, List.mem_cons] at inside ⊢
    exact ⟨fun x hx => inside x (by tauto), inside w (by tauto)⟩
  · rintro ⟨haround, hw⟩
    refine .array _ fun x hx => ?_
    simp only [List.mem_append, List.mem_cons] at haround hx
    rcases hx with hx | rfl | hx
    · exact haround x (.inl hx)
    · exact hw
    · exact haround x (.inr hx)

/-- An object has different names throughout exactly if its own names differ and the value at a
place and those around it have. -/
theorem keyed_object_around_iff {before after : Variables} {key : String} {w : Value} :
    (Value.object (before ++ (key, w) :: after)).Keyed ↔
      ((Table.names (before ++ (key, .null) :: after)).Nodup ∧
        ∀ e ∈ before ++ after, e.2.Keyed) ∧ w.Keyed := by
  constructor
  · rintro (_ | _ | _ | _ | _ | ⟨once, inside⟩)
    rw [names_around w .null] at once
    simp only [List.mem_append, List.mem_cons] at inside ⊢
    exact ⟨⟨once, fun e he => inside e (by tauto)⟩, inside (key, w) (by tauto)⟩
  · rintro ⟨⟨once, haround⟩, hw⟩
    rw [names_around .null w] at once
    refine .object once fun e he => ?_
    simp only [List.mem_append, List.mem_cons] at haround he
    rcases he with he | rfl | he
    · exact haround e (.inl he)
    · exact hw
    · exact haround e (.inr he)

/-- What is put in a place has one entry a name if the place and the value have. -/
theorem keyed_fill_iff {place : Place} {v : Value} :
    (place.fill v).Keyed ↔ (place.fill .null).Keyed ∧ v.Keyed := by
  induction place with
  | here => simp [fill, Keyed.null]
  | item before inner after bindings ih =>
    rw [fill, fill, keyed_array_around_iff, keyed_array_around_iff, ih]
    exact and_assoc.symm
  | field before key inner after ih =>
    rw [fill, fill, keyed_object_around_iff, keyed_object_around_iff, ih]
    exact and_assoc.symm
  | yielded inner ih =>
    have hlazy (w : Value) : (Value.lazy w).Keyed ↔ w.Keyed :=
      ⟨fun h => by cases h with | lazy inside => exact inside, .lazy⟩
    rw [fill, fill, hlazy, hlazy, ih]

/-- A place that is not inside a collection leaves the plain data of what is put there. -/
theorem toJson_fill_of_not_isInside {place : Place} (h : ¬ place.IsInside) (v : Value) :
    (place.fill v).toJson = v.toJson := by
  induction place with
  | here => rfl
  | item => exact absurd trivial h
  | field => exact absurd trivial h
  | yielded inner ih => exact ih h

/-- What is put inside a collection makes plain data that is no number. -/
theorem toJson_fill_of_isInside {place : Place} (h : place.IsInside) (v : Value) (n : Number) :
    (place.fill v).toJson ≠ .number n := by
  induction place with
  | here => exact absurd h id
  | item => simp [fill, toJson]
  | field => simp [fill, toJson]
  | yielded inner ih => exact ih h

/-- Plain data is equal at a place exactly when it is equal by itself. -/
theorem equals_fill_iff {place : Place} (hplace : (place.fill .null).Keyed) (a b : Value) :
    (place.fill a).toJson.equals (place.fill b).toJson = true ↔ a.toJson.equals b.toJson = true := by
  induction place with
  | here => rfl
  | item before inner after bindings ih =>
    obtain ⟨around, inside⟩ := keyed_array_around_iff.1 hplace
    have haround : ∀ j ∈ before.map Value.toJson ++ after.map Value.toJson, j.Keyed := by
      rw [← List.map_append]
      exact List.forall_mem_map.2 fun x hx => (around x hx).toJson
    rw [← ih inside]
    simp only [fill, toJson, toJsonItems_eq_map, List.map_append, List.map_cons]
    exact Json.equals_item_iff haround _ _
  | field before key inner after ih =>
    obtain ⟨⟨once, around⟩, inside⟩ := keyed_object_around_iff.1 hplace
    rw [names_around _ (inner.fill a), ← names_toJsonFields] at once
    have haround : ∀ e ∈ toJsonFields before ++ toJsonFields after, e.2.Keyed := by
      rw [toJsonFields_eq_map, toJsonFields_eq_map, ← List.map_append]
      exact List.forall_mem_map.2 fun e he => (around e he).toJson
    rw [← ih inside]
    simp only [fill, toJson]
    simp only [toJsonFields_eq_map, List.map_append, List.map_cons] at once haround ⊢
    exact Json.equals_field_iff once haround
  | yielded inner ih =>
    rw [fill] at hplace
    cases hplace with
    | lazy inside => exact ih inside

end Place

/-- To restyle a value changes nothing in its plain data but the order of keys. -/
theorem Restyles.equals {a a' : Value} (h : Restyles a a') (ha : a.Keyed) :
    a'.Keyed ∧ a.toJson.equals a'.toJson = true := by
  cases h with
  | order place hperm =>
    obtain ⟨hplace, hfields⟩ := Place.keyed_fill_iff.1 ha
    cases hfields with
    | object once inside =>
      have hfields' : (Value.object _).Keyed := .object ((hperm.map Prod.fst).nodup_iff.1 once)
        fun e he => inside e (hperm.mem_iff.2 he)
      refine ⟨Place.keyed_fill_iff.2 ⟨hplace, hfields'⟩, (Place.equals_fill_iff hplace _ _).2 ?_⟩
      simp only [toJson]
      refine Json.equals_object_of_perm (Keyed.object once inside).toJson ?_
      rw [toJsonFields_eq_map, toJsonFields_eq_map]
      exact hperm.map _
  | bindings place items bindings bindings' =>
    obtain ⟨hplace, hitems⟩ := Place.keyed_fill_iff.1 ha
    cases hitems with
    | array _ inside =>
      refine ⟨Place.keyed_fill_iff.2 ⟨hplace, .array bindings' inside⟩,
        (Place.equals_fill_iff hplace _ _).2 ?_⟩
      exact Json.equals_refl (Keyed.array bindings inside).toJson
  | computed place v =>
    obtain ⟨hplace, hv⟩ := Place.keyed_fill_iff.1 ha
    cases hv with
    | lazy inside =>
      exact ⟨Place.keyed_fill_iff.2 ⟨hplace, inside⟩,
        (Place.equals_fill_iff hplace _ _).2 (Json.equals_refl inside.toJson)⟩

end Value

/-! ## What is the same to a check -/

namespace Performance

variable {a b : Value}

/-- Two values are the same to a check if their plain data is equal, or if they stand for numbers that are
equal as double-precision numbers. -/
theorem same_iff : same a b = true ↔ a.toJson.equals b.toJson = true ∨
    ∃ m n, a.toJson = .number m ∧ b.toJson = .number n ∧ m.toBinary64.eqv n.toBinary64 = true := by
  unfold same
  split
  · rename_i m n hm hn
    rw [hm, hn]
    constructor
    · exact fun h => .inr ⟨m, n, rfl, rfl, h⟩
    · rintro (h | ⟨_, _, hm', hn', h⟩)
      · exact Number.eqv_of_equals h
      · cases hm'
        cases hn'
        exact h
  · rename_i hnumbers
    constructor
    · exact .inl
    · rintro (h | ⟨m, n, hm, hn, -⟩)
      · exact h
      · exact absurd hn (hnumbers m n hm)

/-- Plain data is equal if it is the same to a check, and numbers are of one kind. -/
theorem equals_toJson_iff : a.toJson.equals b.toJson = true ↔ same a b = true ∧
    ∀ m n, a.resolved = .number m → b.resolved = .number n → m.equals n = true := by
  constructor
  · refine fun h => ⟨same_iff.2 (.inl h), fun m n hm hn => ?_⟩
    rw [Value.toJson_eq_number_iff.2 hm, Value.toJson_eq_number_iff.2 hn] at h
    exact h
  · rintro ⟨hsame, hnumbers⟩
    rcases same_iff.1 hsame with h | ⟨m, n, hm, hn, -⟩
    · exact h
    · rw [hm, hn]
      exact hnumbers m n (Value.toJson_eq_number_iff.1 hm) (Value.toJson_eq_number_iff.1 hn)

/-- Data with different names compares equal to itself. -/
theorem same_refl (ha : a.Keyed) : same a a = true :=
  same_iff.2 (.inl (Json.equals_refl ha.toJson))

/-- The comparison does not depend on which value is expected. -/
theorem same_symm (ha : a.Keyed) (hb : b.Keyed) (h : same a b = true) : same b a = true := by
  rw [same_iff]
  rcases same_iff.1 h with h | ⟨m, n, hm, hn, h⟩
  · exact .inl (Json.equals_symm ha.toJson hb.toJson h)
  · exact .inr ⟨n, m, hn, hm, Number.eqv_iff.2 (Number.eqv_iff.1 h).symm⟩

/-- Values with equal plain data are the same to the same values. -/
theorem same_of_equals {a' : Value} (ha : a.Keyed) (ha' : a'.Keyed) (hb : b.Keyed)
    (hequal : a.toJson.equals a'.toJson = true) (h : same a b = true) : same a' b = true := by
  have hback : a'.toJson.equals a.toJson = true := Json.equals_symm ha.toJson ha'.toJson hequal
  rw [same_iff]
  rcases same_iff.1 h with h | ⟨m, n, hm, hn, h⟩
  · exact .inl (Json.equals_trans ha'.toJson ha.toJson hb.toJson hback h)
  · -- only a number is equal to a number
    rw [hm] at hback
    cases hm' : a'.toJson with
    | number m' =>
      rw [hm'] at hback
      have hvalue := Number.eqv_iff.1 (Number.eqv_of_equals hback)
      exact .inr ⟨m', n, rfl, hn, Number.eqv_iff.2 (hvalue.trans (Number.eqv_iff.1 h))⟩
    | _ =>
      rw [hm'] at hback
      cases hback

end Performance

/-! ## What checks accept -/

namespace ListRun

/-- A check accepts one value as equal to another: any check of the two that is due, once its properties
have been evaluated, passes. -/
def Accepts (value expected : Value) : Prop :=
  ∀ (review : String → Value → Except Failure Value) (engine : Engine) (number : String)
    (failed : Bool) (step : Step) (path : List RunState) (s t : RunState) (message : Option String),
    Checks engine failed step path s value expected message t →
      (execute ⟨Registry.builtIn, review⟩ engine number failed step s).Leads path
        (.finished (.ok (.passed value)) t)

def rawCheck (value expected : Value) : Step where
  type := "check"
  name := none
  values := .object [("~value", value), ("~equals", expected)]
  disabled := false
  runOnFailure := false
  ignoreError := false
  condition := none

/-- A check whose properties are data without markers compares just these. -/
theorem rawCheck_checks (engine : Engine) (value expected : Value) (s : RunState) :
    Checks engine false (rawCheck value expected) [] s value expected none s where
  type := .inr rfl
  enabled := rfl
  due h := absurd h Bool.false_ne_true
  condition := rfl
  properties := ⟨[("value", value), ("equals", expected)], .here _, rfl, rfl, rfl⟩

/-- A check accepts exactly the pairs that the comparison of the program finds equal. -/
theorem accepts_iff {a b : Value} : Accepts a b ↔ Performance.same a b = true := by
  constructor
  · intro h
    have hchecks := rawCheck_checks Engine.none a b (RunState.start Scope.empty)
    have hpassed := h (fun _ raw => .ok raw) _ "1" _ _ _ _ _ _ hchecks
    have hstatus := (hpassed.unique hchecks.leads).1
    unfold checked at hstatus
    by_contra hsame
    rw [if_neg hsame] at hstatus
    cases hstatus
  · intro hsame review engine number failed step path s t message hchecks
    have hleads : (execute ⟨Registry.builtIn, review⟩ engine number failed step s).Leads path
        (.finished (.ok (checked step a b message)) t) := hchecks.leads
    rwa [checked, if_pos hsame] at hleads

/-- What a check accepts by itself it accepts inside an array or an object, at any depth, unless the two
values stand for numbers that are only equal as double-precision numbers; at the place of a whole value
this is no exception.  Acceptance is reflexive and symmetric, and does not depend on the order of keys,
on base variables and on lazies. -/
theorem accepts_laws (place : Value.Place) {a b : Value} (hplace : (place.fill .null).Keyed)
    (ha : a.Keyed) (hb : b.Keyed) :
    (Accepts (place.fill a) (place.fill b) ↔ Accepts a b ∧ (place.IsInside →
        ∀ m n, a.resolved = .number m → b.resolved = .number n → m.equals n = true)) ∧
      Accepts a a ∧ (Accepts a b ↔ Accepts b a) ∧
      ∀ a', a.Restyles a' → (Accepts a b ↔ Accepts a' b) := by
  simp only [accepts_iff]
  refine ⟨?_, Performance.same_refl ha,
    ⟨Performance.same_symm ha hb, Performance.same_symm hb ha⟩, fun a' hstyle => ?_⟩
  · by_cases hinside : place.IsInside
    · calc
        Performance.same (place.fill a) (place.fill b) = true ↔
            (place.fill a).toJson.equals (place.fill b).toJson = true := by
          rw [Performance.same_iff]
          refine or_iff_left ?_
          rintro ⟨m, n, hm, -⟩
          exact Value.Place.toJson_fill_of_isInside hinside a m hm
        _ ↔ a.toJson.equals b.toJson = true := Value.Place.equals_fill_iff hplace a b
        _ ↔ _ := by
          rw [Performance.equals_toJson_iff]
          simp only [hinside, true_implies]
    · have hsame : Performance.same (place.fill a) (place.fill b) = Performance.same a b := by
        simp only [Performance.same, Value.Place.toJson_fill_of_not_isInside hinside]
      rw [hsame]
      simp only [hinside, false_implies, and_true]
  · obtain ⟨ha', hequal⟩ := hstyle.equals ha
    exact ⟨Performance.same_of_equals ha ha' hb hequal,
      Performance.same_of_equals ha' ha hb (Json.equals_symm ha.toJson ha'.toJson hequal)⟩

def two : Value := .number (.integer 2 (by decide) (by decide))

def twoFloat : Value := .number (.float ⟨0x4000000000000000⟩ (by decide))

/-- A place in a lazy array with base variables, which is a field of an object. -/
def deepPlace : Value.Place :=
  .field [("first", .null)] "then"
    (.yielded (.item [twoFloat] .here [.list [two]] (some [("base", .null)]))) []

/-- The two numbers are equal by themselves, also if one of them is lazy, but not in that place. -/
theorem twos_laws :
    (deepPlace.fill .null).Keyed ∧ two.Keyed ∧ twoFloat.Keyed ∧ Accepts two twoFloat ∧
      ¬ Accepts (deepPlace.fill two) (deepPlace.fill twoFloat) ∧
      (Value.lazy two).Restyles two ∧ Accepts (.lazy two) twoFloat ∧
      Accepts (.lazy two) (.lazy two) ∧ Accepts twoFloat (.lazy two) := by
  have htwo : two.Keyed := .number _
  have htwoFloat : twoFloat.Keyed := .number _
  have hplace : (deepPlace.fill .null).Keyed := by
    refine .object (by decide) fun e he => ?_
    simp only [List.nil_append, List.cons_append, List.mem_cons, List.not_mem_nil, or_false] at he
    obtain rfl | rfl := he
    · exact .null
    · refine .lazy (.array _ fun v hv => ?_)
      simp only [List.nil_append, List.cons_append, List.mem_cons, List.not_mem_nil, or_false] at hv
      obtain rfl | rfl | rfl := hv
      · exact htwoFloat
      · exact .null
      · exact .array _ fun v hv => List.mem_singleton.1 hv ▸ htwo
  have haccepts : Accepts two twoFloat := accepts_iff.2 (by decide +kernel)
  have hstyle : (Value.lazy two).Restyles two := .computed .here two
  obtain ⟨hinside, -⟩ := accepts_laws deepPlace hplace htwo htwoFloat
  obtain ⟨-, hself, hback, hstyles⟩ := accepts_laws deepPlace hplace (.lazy htwo) htwoFloat
  have hlazy : Accepts (.lazy two) twoFloat := (hstyles two hstyle).2 haccepts
  refine ⟨hplace, htwo, htwoFloat, haccepts, fun h => ?_, hstyle, hlazy, hself, hback.1 hlazy⟩
  have hequal := (hinside.1 h).2 trivial _ _ rfl rfl
  exact absurd hequal (by decide)

/-- A test that checks a list of the one against a list of the other fails. -/
theorem nestedTwos_refused :
    Accepts two twoFloat ∧ ¬ Accepts (.list [two]) (.list [twoFloat]) ∧
      (match Task.run (run (Setup.plain Registry.builtIn)
          (ListRun.engine (Setup.plain Registry.builtIn) 1)
          ⟨[.object [("type", .string "check"),
            ("values", .object [("value", .list [two]), ("equals", .list [twoFloat])])]], none⟩
          topLevel) (RunState.start Scope.empty) with
        | .ok (.error e, _) =>
          e.message == "Step 1 (check) failed: Assertion failed: expected [2.0], got [2]"
        | _ => false) = true := by
  refine ⟨accepts_iff.2 (by decide +kernel), ?_, by decide +kernel⟩
  rw [accepts_iff]
  decide +kernel

end ListRun

end StepScript
