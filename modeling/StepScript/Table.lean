/-!
# Table — named entries in the order they were first written

A table keeps one entry a name.  Writing a name again replaces its value and leaves it where it
stands; removing a name keeps the order of the others.  Objects of test files, the variables of a
scope and the base variables of a step list are all tables.

The main statements say what `find?` sees after each operation.
-/

namespace StepScript

/-- Named entries, in the order their names were first written. -/
abbrev Table (α : Type) := List (String × α)

namespace Table

variable {α : Type}

def find? : Table α → String → Option α
  | [], _ => none
  | (k, v) :: rest, name => if k = name then some v else find? rest name

def contains (t : Table α) (name : String) : Bool :=
  (t.find? name).isSome

/-- Write a name: replace its value in place, or add it at the end. -/
def insert : Table α → String → α → Table α
  | [], name, value => [(name, value)]
  | (k, v) :: rest, name, value =>
    if k = name then (k, value) :: rest else (k, v) :: insert rest name value

def erase : Table α → String → Table α
  | [], _ => []
  | (k, v) :: rest, name => if k = name then rest else (k, v) :: erase rest name

def merge (t : Table α) (entries : List (String × α)) : Table α :=
  entries.foldl (fun t e => t.insert e.1 e.2) t

/-- The table of a list of entries: the last value of a name wins, at the place of the first. -/
def ofEntries (entries : List (String × α)) : Table α :=
  merge [] entries

def names (t : Table α) : List String :=
  t.map Prod.fst

/-! ## What a lookup sees -/

@[simp] theorem find?_nil (name : String) : find? ([] : Table α) name = none := rfl

/-- A name that is written has the new value, and all others keep theirs. -/
theorem find?_insert (t : Table α) (name other : String) (value : α) :
    (t.insert name value).find? other = if name = other then some value else t.find? other := by
  induction t with
  | nil => simp [insert, find?]
  | cons e rest ih =>
    obtain ⟨k, v⟩ := e
    by_cases h : k = name
    · subst h
      by_cases h' : k = other <;> simp [insert, find?, h']
    · by_cases h' : k = other
      · subst h'
        simp [insert, find?, h, Ne.symm h]
      · simp [insert, find?, h, h', ih]

@[simp] theorem find?_insert_self (t : Table α) (name : String) (value : α) :
    (t.insert name value).find? name = some value := by
  simp [find?_insert]

/-- An entry under another name makes no difference to what is under a name. -/
theorem find?_append_cons_of_ne {front back : Table α} {name other : String} (hne : name ≠ other)
    (value : α) :
    Table.find? (front ++ (name, value) :: back) other = Table.find? (front ++ back) other := by
  induction front with
  | nil => simp [find?, hne]
  | cons e rest ih => simp [find?, ih]

theorem mem_names_insert (t : Table α) (name other : String) (value : α) :
    other ∈ (t.insert name value).names ↔ other = name ∨ other ∈ t.names := by
  induction t with
  | nil => simp [insert, names]
  | cons e rest ih =>
    obtain ⟨k, v⟩ := e
    by_cases h : k = name
    · subst h
      simp [insert, names]
    · simp only [insert, h, if_false, names, List.map_cons, List.mem_cons] at ih ⊢
      rw [ih]
      constructor <;> rintro (h | h | h) <;> simp [h]

/-- A name without an entry is written at the end. -/
theorem insert_of_not_mem {t : Table α} {name : String} (h : name ∉ t.names) (value : α) :
    t.insert name value = t ++ [(name, value)] := by
  induction t with
  | nil => rfl
  | cons e rest ih =>
    obtain ⟨k, v⟩ := e
    obtain ⟨hk, hrest⟩ : k ≠ name ∧ name ∉ names rest := by simpa [names, eq_comm] using h
    simp [insert, hk, ih hrest]

theorem find?_erase {t : Table α} {name other : String} (hne : name ≠ other) :
    (t.erase name).find? other = t.find? other := by
  induction t with
  | nil => rfl
  | cons e rest ih =>
    obtain ⟨k, v⟩ := e
    by_cases h : k = name
    · simp [erase, find?, h, hne]
    · simp [erase, find?, h, ih]

/-! ## Writing twice -/

/-- Writing a name again takes the place of what was written. -/
theorem insert_insert_self (t : Table α) (name : String) (value last : α) :
    (t.insert name value).insert name last = t.insert name last := by
  induction t with
  | nil => simp [insert]
  | cons e rest ih =>
    obtain ⟨k, v⟩ := e
    by_cases h : k = name
    · simp [insert, h]
    · simp [insert, h, ih]

/-- To write what is there already changes nothing. -/
theorem insert_of_find? {t : Table α} {name : String} {value : α}
    (h : t.find? name = some value) : t.insert name value = t := by
  induction t with
  | nil => cases h
  | cons e rest ih =>
    obtain ⟨k, v⟩ := e
    by_cases hk : k = name
    · rw [find?, if_pos hk] at h
      cases h
      rw [insert, if_pos hk]
    · rw [find?, if_neg hk] at h
      rw [insert, if_neg hk, ih h]

/-- A name that has an entry already keeps its place, whatever else is written. -/
theorem insert_comm {t : Table α} {name other : String} (hmem : other ∈ t.names)
    (hne : name ≠ other) (value value' : α) :
    (t.insert name value).insert other value' = (t.insert other value').insert name value := by
  induction t with
  | nil => simp [names] at hmem
  | cons e rest ih =>
    obtain ⟨k, v⟩ := e
    by_cases hname : k = name
    · simp [insert, hname, hne]
    · by_cases hother : k = other
      · simp [insert, hother, Ne.symm hne]
      · have hrest : other ∈ names rest := by
          simpa [names, Ne.symm hother] using hmem
        simp [insert, hname, hother, ih hrest]

theorem find?_eq_none_iff {t : Table α} {name : String} :
    t.find? name = none ↔ name ∉ t.names := by
  induction t with
  | nil => simp [names]
  | cons e rest ih =>
    obtain ⟨k, v⟩ := e
    by_cases h : k = name
    · simp [find?, names, h]
    · simpa [find?, names, h, Ne.symm h] using ih

/-! ## One entry a name -/

/-- In entries with one a name, an entry has another name than those in front of it. -/
theorem not_mem_names_of_nodup {t rest : Table α} {name : String} {value : α}
    (h : (names (t ++ (name, value) :: rest)).Nodup) : name ∉ t.names := by
  have hsplit : (t.names ++ name :: names rest).Nodup := by simpa [names] using h
  exact fun hmem => (List.nodup_append.1 hsplit).2.2 name hmem name List.mem_cons_self rfl

/-- Entries whose names are new and differ are written one behind the other. -/
theorem merge_of_nodup {t entries : Table α} (h : (names (t ++ entries)).Nodup) :
    merge t entries = t ++ entries := by
  induction entries generalizing t with
  | nil => rw [List.append_nil, merge, List.foldl_nil]
  | cons e rest ih =>
    obtain ⟨k, v⟩ := e
    have hinsert : t.insert k v = t ++ [(k, v)] :=
      insert_of_not_mem (not_mem_names_of_nodup h) v
    have hmove : t ++ (k, v) :: rest = t ++ [(k, v)] ++ rest := by simp
    calc merge t ((k, v) :: rest)
        = merge (t ++ [(k, v)]) rest := by rw [merge, List.foldl_cons, hinsert, merge]
      _ = t ++ [(k, v)] ++ rest := ih (hmove ▸ h)
      _ = t ++ (k, v) :: rest := hmove.symm

/-- Entries with different names are a table as they are. -/
theorem ofEntries_of_nodup {entries : Table α} (h : entries.names.Nodup) :
    ofEntries entries = entries :=
  merge_of_nodup h

/-- What is written has one entry a name, as long as it has had that before. -/
theorem nodup_insert {t : Table α} (h : t.names.Nodup) (name : String) (value : α) :
    (t.insert name value).names.Nodup := by
  induction t with
  | nil => simp [insert, names]
  | cons e rest ih =>
    obtain ⟨k, v⟩ := e
    obtain ⟨hfresh, hrest⟩ : k ∉ names rest ∧ (names rest).Nodup := List.nodup_cons.1 h
    by_cases hk : k = name
    · rw [insert, if_pos hk]
      exact List.nodup_cons.2 ⟨hfresh, hrest⟩
    · rw [insert, if_neg hk]
      refine List.nodup_cons.2 ⟨fun hmem => ?_, ih hrest⟩
      rcases (mem_names_insert rest name k value).1 hmem with heq | hmem
      · exact hk heq
      · exact hfresh hmem

theorem nodup_merge {t : Table α} (h : t.names.Nodup) (entries : List (String × α)) :
    (merge t entries).names.Nodup := by
  induction entries generalizing t with
  | nil => exact h
  | cons e rest ih => exact ih (nodup_insert h e.1 e.2)

/-- In a table with one entry a name, a lookup finds exactly the entries. -/
theorem find?_eq_some_iff {t : Table α} (hnames : t.names.Nodup) {name : String} {value : α} :
    t.find? name = some value ↔ (name, value) ∈ t := by
  induction t with
  | nil => simp
  | cons e rest ih =>
    obtain ⟨k, v⟩ := e
    obtain ⟨hfresh, hrest⟩ : k ∉ names rest ∧ (names rest).Nodup := List.nodup_cons.1 hnames
    by_cases h : k = name
    · subst h
      have hnone : (k, value) ∉ rest := fun hmem => hfresh (List.mem_map_of_mem hmem)
      simp [find?, hnone, eq_comm]
    · simp [find?, h, Ne.symm h, ih hrest]

/-- The order of the entries does not matter to a lookup. -/
theorem find?_perm {t t' : Table α} (h : t.Perm t') (hnames : t.names.Nodup) (name : String) :
    t.find? name = t'.find? name := by
  have hnames' : t'.names.Nodup := (h.map Prod.fst).nodup_iff.1 hnames
  have hsame (value : α) : t.find? name = some value ↔ t'.find? name = some value := by
    rw [find?_eq_some_iff hnames, find?_eq_some_iff hnames', h.mem_iff]
  cases hfind : t.find? name with
  | some value => exact ((hsame value).1 hfind).symm
  | none =>
    cases hfind' : t'.find? name with
    | none => rfl
    | some value => exact absurd ((hsame value).2 hfind') (by simp [hfind])

/-- Removing a name leaves the others. -/
theorem mem_names_erase {t : Table α} (hnames : t.names.Nodup) {name other : String} :
    other ∈ (t.erase name).names ↔ other ≠ name ∧ other ∈ t.names := by
  induction t with
  | nil => simp [erase, names]
  | cons e rest ih =>
    obtain ⟨k, v⟩ := e
    obtain ⟨hfresh, hrest⟩ : k ∉ names rest ∧ (names rest).Nodup := List.nodup_cons.1 hnames
    by_cases h : k = name
    · subst h
      have hne : other ∈ names rest → other ≠ k := fun hmem heq => hfresh (heq ▸ hmem)
      have herase : erase ((k, v) :: rest) k = rest := by simp [erase]
      have hcons : other ∈ names ((k, v) :: rest) ↔ other = k ∨ other ∈ names rest :=
        List.mem_cons
      rw [herase, hcons]
      constructor
      · exact fun hmem => ⟨hne hmem, .inr hmem⟩
      · rintro ⟨hother, rfl | hmem⟩
        · exact absurd rfl hother
        · exact hmem
    · have herase : erase ((k, v) :: rest) name = (k, v) :: erase rest name := by
        simp [erase, h]
      have hcons (l : Table α) : other ∈ names ((k, v) :: l) ↔ other = k ∨ other ∈ names l :=
        List.mem_cons
      rw [herase, hcons, hcons, ih hrest]
      constructor
      · rintro (rfl | ⟨hother, hmem⟩)
        · exact ⟨h, .inl rfl⟩
        · exact ⟨hother, .inr hmem⟩
      · rintro ⟨hother, rfl | hmem⟩
        · exact .inl rfl
        · exact .inr ⟨hother, hmem⟩

end Table

end StepScript
