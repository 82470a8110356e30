import StepScript.Value.Basic

/-!
# Plain — values and plain data

Plain data is a value, and every value has plain data: what its lazies finally yield, without base
variables, at every depth.  Nothing else is lost, and what a value is worth in a condition and how it
reads inside a text depend on its plain data alone.

* `Value.FinallyYields` and `Value.Settles` say what is done with lazies and base variables;
* `Value.settles_iff`: the value that is described in this way is `Value.plain`;
* `Value.plain_data_settles` is the main result.
-/

namespace StepScript

namespace Value

/-! ## Settled values -/

/-- What a value finally yields: as long as it is lazy, it is computed. -/
inductive FinallyYields : Value → Value → Prop
  | itself {v : Value} (h : ∀ w, v ≠ .lazy w) : FinallyYields v v
  | computed {v w : Value} : FinallyYields v w → FinallyYields (.lazy v) w

mutual

/-- The second value is the first one with every lazy replaced by what it finally yields and without base
variables, at every depth. -/
inductive Settles : Value → Value → Prop
  | null : Settles .null .null
  | bool (b : Bool) : Settles (.bool b) (.bool b)
  | number (n : Number) : Settles (.number n) (.number n)
  | string (s : String) : Settles (.string s) (.string s)
  | array {items settled : List Value} (bindings : Option Variables) :
      SettlesItems items settled → Settles (.array items bindings) (.array settled none)
  | object {fields settled : Variables} :
      SettlesFields fields settled → Settles (.object fields) (.object settled)
  | lazy {v yielded settled : Value} :
      FinallyYields (.lazy v) yielded → Settles yielded settled → Settles (.lazy v) settled

/-- Items settle place by place. -/
inductive SettlesItems : List Value → List Value → Prop
  | nil : SettlesItems [] []
  | cons {v w : Value} {rest settled : List Value} :
      Settles v w → SettlesItems rest settled → SettlesItems (v :: rest) (w :: settled)

/-- Fields settle under their keys, in the same order. -/
inductive SettlesFields : Variables → Variables → Prop
  | nil : SettlesFields [] []
  | cons {key : String} {v w : Value} {rest settled : Variables} :
      Settles v w → SettlesFields rest settled →
      SettlesFields ((key, v) :: rest) ((key, w) :: settled)

end

variable {v w : Value}

theorem finallyYields_resolved (v : Value) : v.FinallyYields v.resolved := by
  fun_induction resolved v with
  | case1 v ih => exact .computed ih
  | case2 v hv => exact .itself hv

/-- A value finally yields what is found behind its outer lazies. -/
theorem finallyYields_iff : v.FinallyYields w ↔ w = v.resolved := by
  constructor
  · intro h
    induction h with
    | itself hv => exact (resolved.eq_2 _ hv).symm
    | computed _ ih => rw [ih, resolved]
  · rintro rfl
    exact finallyYields_resolved v

/-- The outer lazies make no difference to the plain value. -/
theorem plain_resolved (v : Value) : v.resolved.plain = v.plain := by
  fun_induction resolved v with
  | case1 v ih => rw [ih, plain]
  | case2 v hv => rfl

/-- A lazy value settles as what it computes does. -/
theorem Settles.computed (h : v.Settles w) : (Value.lazy v).Settles w := by
  cases v with
  | lazy v =>
    cases h with
    | lazy hyields hsettles => exact .lazy (.computed hyields) hsettles
  | _ => exact .lazy (.computed (.itself fun _ heq => by cases heq)) h

mutual

/-- Every value settles to its plain value. -/
theorem settles_plain : ∀ v : Value, v.Settles v.plain
  | .null => .null
  | .bool b => .bool b
  | .number n => .number n
  | .string s => .string s
  | .array items bindings => .array bindings (settlesItems_plainItems items)
  | .object fields => .object (settlesFields_plainFields fields)
  | .lazy v => (settles_plain v).computed

theorem settlesItems_plainItems : ∀ items : List Value, SettlesItems items (plainItems items)
  | [] => .nil
  | v :: rest => .cons (settles_plain v) (settlesItems_plainItems rest)

theorem settlesFields_plainFields : ∀ fields : Variables, SettlesFields fields (plainFields fields)
  | [] => .nil
  | (_, v) :: rest => .cons (settles_plain v) (settlesFields_plainFields rest)

end

mutual

/-- A value settles to nothing but its plain value. -/
theorem Settles.eq_plain : ∀ {v w : Value}, v.Settles w → w = v.plain
  | _, _, .null | _, _, .bool _ | _, _, .number _ | _, _, .string _ => rfl
  | _, _, .array _ h => by rw [plain, h.eq_plainItems]
  | _, _, .object h => by rw [plain, h.eq_plainFields]
  | _, _, .lazy hyields h => by rw [h.eq_plain, finallyYields_iff.1 hyields, plain_resolved]

theorem SettlesItems.eq_plainItems : ∀ {items settled : List Value},
    SettlesItems items settled → settled = plainItems items
  | _, _, .nil => rfl
  | _, _, .cons h hrest => by rw [plainItems, h.eq_plain, hrest.eq_plainItems]

theorem SettlesFields.eq_plainFields : ∀ {fields settled : Variables},
    SettlesFields fields settled → settled = plainFields fields
  | _, _, .nil => rfl
  | _, _, .cons h hrest => by rw [plainFields, h.eq_plain, hrest.eq_plainFields]

end

/-- There is exactly one settled value. -/
theorem settles_iff : v.Settles w ↔ w = v.plain := by
  constructor
  · exact Settles.eq_plain
  · rintro rfl
    exact settles_plain v

/-! ## Plain data -/

/-- Turning fields into data keeps their names. -/
theorem names_toJsonFields : ∀ fields : Variables,
    Table.names (toJsonFields fields) = fields.names
  | [] => rfl
  | (key, _) :: rest => congrArg (key :: ·) (names_toJsonFields rest)

/-- The outer lazies make no difference to the data. -/
theorem toJson_resolved (v : Value) : v.resolved.toJson = v.toJson := by
  induction v using resolved.induct with
  | case1 v ih => rw [resolved, ih, toJson]
  | case2 v hv => rw [resolved.eq_2 v hv]

/-- A value stands for a number if it is one, behind all outer lazies. -/
theorem toJson_eq_number_iff {v : Value} {n : Number} :
    v.toJson = .number n ↔ v.resolved = .number n := by
  rw [← toJson_resolved]
  have hlazy : ∀ w, v.resolved ≠ .lazy w := resolved_ne_lazy v
  generalize v.resolved = w at hlazy
  cases w with
  | lazy w => exact absurd rfl (hlazy w)
  | _ => simp [toJson]

theorem toJsonItems_eq_map (items : List Value) : toJsonItems items = items.map toJson := by
  induction items with
  | nil => rfl
  | cons v rest ih => rw [toJsonItems, ih, List.map_cons]

theorem toJsonFields_eq_map (fields : Variables) :
    toJsonFields fields = fields.map fun e => (e.1, e.2.toJson) := by
  induction fields with
  | nil => rfl
  | cons e rest ih => rw [toJsonFields, ih, List.map_cons]

mutual

/-- Plain data that is taken for a value has not changed. -/
theorem toJson_ofJson : ∀ j : Json, (ofJson j).toJson = j
  | .null | .bool _ | .number _ | .string _ => rfl
  | .array items => by rw [ofJson, toJson, toJsonItems_ofJsonItems items]
  | .object fields => by rw [ofJson, toJson, toJsonFields_ofJsonFields fields]

/-- Items made from data have this data. -/
theorem toJsonItems_ofJsonItems : ∀ items : List Json, toJsonItems (ofJsonItems items) = items
  | [] => rfl
  | j :: rest => by rw [ofJsonItems, toJsonItems, toJson_ofJson j, toJsonItems_ofJsonItems rest]

theorem toJsonFields_ofJsonFields : ∀ fields : List (String × Json),
    toJsonFields (ofJsonFields fields) = fields
  | [] => rfl
  | (_, j) :: rest => by
    rw [ofJsonFields, toJsonFields, toJson_ofJson j, toJsonFields_ofJsonFields rest]

end

mutual

/-- The plain data of a value is the value without its lazies and base variables. -/
theorem ofJson_toJson : ∀ v : Value, ofJson v.toJson = v.plain
  | .null | .bool _ | .number _ | .string _ => rfl
  | .array items _ => by rw [toJson, ofJson, ofJsonItems_toJsonItems items, plain]
  | .object fields => by rw [toJson, ofJson, ofJsonFields_toJsonFields fields, plain]
  | .lazy v => by rw [toJson, ofJson_toJson v, plain]

/-- Items go through data as plain items. -/
theorem ofJsonItems_toJsonItems : ∀ items : List Value,
    ofJsonItems (toJsonItems items) = plainItems items
  | [] => rfl
  | v :: rest => by
    rw [toJsonItems, ofJsonItems, ofJson_toJson v, ofJsonItems_toJsonItems rest, plainItems]

theorem ofJsonFields_toJsonFields : ∀ fields : List (String × Value),
    ofJsonFields (toJsonFields fields) = plainFields fields
  | [] => rfl
  | (_, v) :: rest => by
    rw [toJsonFields, ofJsonFields, ofJson_toJson v, ofJsonFields_toJsonFields rest, plainFields]

end

/-- A value and its plain value have the same data. -/
theorem toJson_plain (v : Value) : v.plain.toJson = v.toJson := by
  rw [← ofJson_toJson, toJson_ofJson]

/-! ## Truth and text -/

/-- A value is as truthy as its plain value. -/
theorem isTruthy_plain (v : Value) : v.plain.isTruthy = v.isTruthy := by
  induction v using isTruthy.induct with
  | case7 v ih => rw [plain, ih, isTruthy]
  | _ => rfl

/-- A value reads inside a text as its plain value does. -/
theorem text_plain (v : Value) : v.plain.text = v.text := by
  fun_induction text v with
  | case1 s => rfl
  | case2 v ih => exact ih
  | case3 v hstring hlazy =>
    -- neither is the settled value a text, so both are written as their plain data
    have htext : v.plain.text = v.plain.toJson.compact := by
      cases v with
      | string s => exact absurd rfl (hstring s)
      | lazy w => exact absurd rfl (hlazy w)
      | _ => rfl
    rw [htext, toJson_plain]

/-- Plain data that is taken for a value is given back as it was, with the order of its keys and the kinds
of its numbers.  The plain data of a value, taken for a value, is the settled one, which has the same
truth and the same text. -/
theorem plain_data_settles :
    (∀ j : Json, (ofJson j).toJson = j) ∧
    ∀ v : Value,
      (∀ w, v.FinallyYields w ↔ w = v.resolved) ∧
      (∀ w, v.Settles w ↔ w = ofJson v.toJson) ∧
      (ofJson v.toJson).isTruthy = v.isTruthy ∧
      (ofJson v.toJson).text = v.text := by
  refine ⟨toJson_ofJson, fun v => ?_⟩
  rw [ofJson_toJson]
  exact ⟨fun w => finallyYields_iff, fun w => settles_iff, isTruthy_plain v, text_plain v⟩

/-- A lazy inside what another one yields, in an array with base variables. -/
example :
    let items : Value := .array [.lazy (.ofNat 2), .ofBinary64 ⟨0x4000000000000000⟩]
      (some [("base", .null)])
    ofJson (Value.toJson (.object [("b", .lazy (.lazy items)), ("a", .string "")])) =
      .object [("b", .list [.ofNat 2, .ofBinary64 ⟨0x4000000000000000⟩]), ("a", .string "")] := rfl

end Value

end StepScript
