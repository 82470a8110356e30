import Mathlib.Data.List.Induction
import Mathlib.Tactic.ByContra
import StepScript.Test.Runner

/-!
# Layers — which of several variables a test sees

A test starts in a scope that is written layer by layer: the environment, what is known about the
agent, the variables of the test, and those that override them.  A scope stores variables under
normalised names, so entries with different spellings can be the same variable, and the last one that
is written counts.  Overriding variables are collected in a table of their spellings before they are
written, where a spelling stays in the place of its first use.

* `Variables.last?` is the last value among the entries with some names;
* `Scope.extend_extend`: variables that are written a second time change nothing;
* `TestRunner.get?_buildScope`: the last layer that has a variable gives it its value;
* `Variables.IsNewest` is the spelling of a variable that was the last one to be used first, and
  `Variables.last?_ofEntries` says that it is the one that counts in a table of spellings;
* `Variables.Overtaken`: a variable was written last in an older spelling, with another value.
-/

namespace StepScript

open VariableName (normalize)

/-! ## Entries written into a table -/

namespace Table

variable {α : Type}

theorem names_append (front back : Table α) :
    names (front ++ back) = front.names ++ back.names :=
  List.map_append

/-- A name that stands in the front part is written there. -/
theorem insert_append_of_mem {front : Table α} {name : String} (h : name ∈ front.names)
    (back : Table α) (value : α) :
    Table.insert (front ++ back) name value = front.insert name value ++ back := by
  induction front with
  | nil => cases h
  | cons e rest ih =>
    obtain ⟨k, v⟩ := e
    by_cases hk : k = name
    · simp [insert, hk]
    · have hrest : name ∈ names rest := by
        simpa [names, Ne.symm hk] using h
      simp [insert, hk, ih hrest]

/-- A name that does not is written in the back part. -/
theorem insert_append_of_not_mem {front : Table α} {name : String} (h : name ∉ front.names)
    (back : Table α) (value : α) :
    Table.insert (front ++ back) name value = front ++ back.insert name value := by
  induction front with
  | nil => rfl
  | cons e rest ih =>
    obtain ⟨k, v⟩ := e
    obtain ⟨hk, hrest⟩ : k ≠ name ∧ name ∉ names rest := by simpa [names, eq_comm] using h
    simp [insert, hk, ih hrest]

theorem find?_append_of_not_mem {front : Table α} {name : String} (h : name ∉ front.names)
    (back : Table α) : Table.find? (front ++ back) name = back.find? name := by
  induction front with
  | nil => rfl
  | cons e rest ih =>
    obtain ⟨k, v⟩ := e
    obtain ⟨hk, hrest⟩ : k ≠ name ∧ name ∉ names rest := by simpa [names, eq_comm] using h
    simp [find?, hk, ih hrest]

/-- The names after a merge are those of both sides. -/
theorem mem_names_merge {t : Table α} {entries : List (String × α)} {name : String} :
    name ∈ (t.merge entries).names ↔ name ∈ t.names ∨ name ∈ names entries := by
  induction entries generalizing t with
  | nil => simp [merge, names]
  | cons e rest ih =>
    change name ∈ ((t.insert e.1 e.2).merge rest).names ↔ _
    have hcons : name ∈ names (e :: rest) ↔ name = e.1 ∨ name ∈ names rest := List.mem_cons
    rw [ih, mem_names_insert, hcons, or_assoc, or_left_comm]

theorem mem_names_ofEntries {entries : List (String × α)} {name : String} :
    name ∈ (ofEntries entries).names ↔ name ∈ names entries := by
  rw [ofEntries, mem_names_merge]
  simp [names]

/-- Writing adds a name at the end, unless it is there already. -/
theorem names_insert (t : Table α) (name : String) (value : α) :
    (t.insert name value).names = if name ∈ t.names then t.names else t.names ++ [name] := by
  split
  · rename_i hmem
    induction t with
    | nil => cases hmem
    | cons e rest ih =>
      obtain ⟨k, v⟩ := e
      by_cases hk : k = name
      · simp [insert, hk, names]
      · have hrest : name ∈ names rest := by simpa [names, Ne.symm hk] using hmem
        rw [insert, if_neg hk]
        exact congrArg (k :: ·) (ih hrest)
  · rename_i hmem
    rw [insert_of_not_mem hmem, names_append]
    rfl

theorem names_erase (t : Table α) (name : String) : (t.erase name).names = t.names.erase name := by
  induction t with
  | nil => rfl
  | cons e rest ih =>
    obtain ⟨k, v⟩ := e
    by_cases hk : k = name
    · simp [erase, names, hk]
    · have hcons : erase ((k, v) :: rest) name = (k, v) :: erase rest name := if_neg hk
      have hnames : names ((k, v) :: rest) = k :: names rest := rfl
      rw [hcons, hnames, List.erase_cons_tail (by simpa using hk), ← ih]
      rfl

theorem find?_erase_self {t : Table α} (hnames : t.names.Nodup) (name : String) :
    (t.erase name).find? name = none := by
  rw [find?_eq_none_iff, names_erase]
  exact hnames.not_mem_erase

/-- The names of a table stand in the order in which they were first written. -/
theorem names_ofEntries (entries : List (String × α)) :
    (ofEntries entries).names = (names entries).eraseDups := by
  induction entries using List.reverseRecOn with
  | nil => rfl
  | append_singleton rest e ih =>
    have hlast : ofEntries (rest ++ [e]) = insert (ofEntries rest) e.1 e.2 := by
      simp [ofEntries, merge, List.foldl_append]
    have hname : names [e] = [e.1] := rfl
    rw [hlast, names_insert, ih, names_append, List.eraseDups_append, hname]
    by_cases hmem : e.1 ∈ names rest
    · simp [List.removeAll, hmem]
    · simp [List.removeAll, hmem, List.eraseDups_cons]

/-- A table is known by the order of its names and by what is found under them. -/
theorem eq_of_find? {t t' : Table α} (hnodup : t.names.Nodup) (hnames : t.names = t'.names)
    (hfind : ∀ name, t.find? name = t'.find? name) : t = t' := by
  induction t generalizing t' with
  | nil => exact (List.map_eq_nil_iff.1 hnames.symm).symm
  | cons e rest ih =>
    obtain ⟨k, v⟩ := e
    obtain ⟨⟨k', v'⟩, rest', rfl, hk, hrest⟩ := List.map_eq_cons_iff.1 hnames.symm
    dsimp only at hk
    subst hk
    obtain ⟨hfresh, hnodup⟩ : k' ∉ names rest ∧ (names rest).Nodup := List.nodup_cons.1 hnodup
    have hhead : v = v' := by simpa [find?] using hfind k'
    have hnames : names rest = names rest' := hrest.symm
    have htail (name : String) : find? rest name = find? rest' name := by
      by_cases hname : k' = name
      · subst hname
        rw [find?_eq_none_iff.2 hfresh, find?_eq_none_iff.2 (hnames ▸ hfresh)]
      · simpa [find?, hname] using hfind name
    rw [hhead, ih hnodup hnames htail]

end Table

/-! ## The last of several entries -/

namespace Variables

variable {entries : Variables} {name key : String}

/-- The value of the last entry with a name of some kind. -/
def last? (kind : String → Bool) (entries : Variables) : Option Value :=
  (entries.reverse.find? fun e => kind e.1).map Prod.snd

def spells (name key : String) : Bool :=
  normalize key == normalize name

/-- The last value is looked for in the back part first. -/
theorem last?_append (kind : String → Bool) (front back : Variables) :
    last? kind (front ++ back) = (last? kind back <|> last? kind front) := by
  unfold last?
  rw [List.reverse_append, List.find?_append]
  cases List.find? (fun e => kind e.1) back.reverse <;> rfl

theorem last?_singleton (kind : String → Bool) (e : String × Value) :
    last? kind [e] = if kind e.1 then some e.2 else none := by
  unfold last?
  by_cases h : kind e.1 = true
  · simp [h]
  · simp [h]

theorem last?_cons (kind : String → Bool) (e : String × Value) (rest : Variables) :
    last? kind (e :: rest) = (last? kind rest <|> if kind e.1 then some e.2 else none) := by
  rw [← last?_singleton, ← last?_append, List.singleton_append]

/-- There is no last value exactly if no name is of the kind. -/
theorem last?_eq_none_iff {kind : String → Bool} :
    last? kind entries = none ↔ ∀ k ∈ Table.names entries, kind k = false := by
  simp [last?, Table.names]

/-- There is a last value where one entry is followed by none of its kind. -/
theorem last?_eq_some_iff {kind : String → Bool} {value : Value} :
    last? kind entries = some value ↔ ∃ front key back, entries = front ++ (key, value) :: back ∧
      kind key = true ∧ ∀ k ∈ Table.names back, kind k = false := by
  constructor
  · intro h
    obtain ⟨⟨key, v⟩, hfind, rfl⟩ := Option.map_eq_some_iff.1 h
    obtain ⟨hkind, back, front, hsplit, hback⟩ := List.find?_eq_some_iff_append.1 hfind
    refine ⟨front.reverse, key, back.reverse, ?_, hkind, ?_⟩
    · rw [← List.reverse_inj, hsplit]
      simp
    · intro k hk
      obtain ⟨e, he, rfl⟩ := List.mem_map.1 hk
      simpa using hback e (List.mem_reverse.1 he)
  · rintro ⟨front, key, back, rfl, hkind, hback⟩
    have hnone : last? kind back = none := last?_eq_none_iff.2 hback
    rw [last?_append, last?_cons, hnone, if_pos hkind]
    rfl

theorem last?_isSome_of_mem {kind : String → Bool} (hmem : key ∈ Table.names entries)
    (hkind : kind key = true) : ∃ value, last? kind entries = some value := by
  cases h : last? kind entries with
  | some value => exact ⟨value, rfl⟩
  | none =>
    rw [last?_eq_none_iff.1 h key hmem] at hkind
    cases hkind

/-! ## Spellings -/

/-- A spelling of a variable is the newest one: when it is used first, all others that are ever used
have been used before. -/
def IsNewest (entries : Variables) (name key : String) : Prop :=
  ∃ front value back, entries = front ++ (key, value) :: back ∧ spells name key = true ∧
    key ∉ Table.names front ∧
    ∀ k ∈ Table.names back, spells name k = true → k = key ∨ k ∈ Table.names front

/-- A variable was written last in an older spelling, with another value than the one that its newest
spelling has. -/
def Overtaken (entries : Variables) (name : String) : Prop :=
  ∃ key, IsNewest entries name key ∧ last? (· == key) entries ≠ last? (spells name) entries

/-- The newest spelling is one that is used. -/
theorem IsNewest.mem (h : IsNewest entries name key) : key ∈ Table.names entries := by
  obtain ⟨front, value, back, rfl, -⟩ := h
  rw [Table.names_append]
  exact List.mem_append_right _ List.mem_cons_self

theorem IsNewest.isSpelling (h : IsNewest entries name key) : spells name key = true := by
  obtain ⟨front, value, back, -, hspells, -⟩ := h
  exact hspells

/-- A spelling stays the newest one as long as only known spellings follow. -/
theorem IsNewest.append {rest : Variables} (h : IsNewest entries name key)
    (hrest : ∀ k ∈ Table.names rest, spells name k = true → k ∈ Table.names entries) :
    IsNewest (entries ++ rest) name key := by
  obtain ⟨front, value, back, rfl, hspells, hfresh, hback⟩ := h
  refine ⟨front, value, back ++ rest, by simp, hspells, hfresh, ?_⟩
  intro k hk hspell
  rw [Table.names_append, List.mem_append] at hk
  rcases hk with hk | hk
  · exact hback k hk hspell
  · have hmem := hrest k hk hspell
    rw [Table.names_append, List.mem_append] at hmem
    rcases hmem with hfront | hmem
    · exact .inr hfront
    · rcases List.mem_cons.1 hmem with rfl | hmem
      · exact .inl rfl
      · exact hback k hmem hspell

/-- A variable that is written has a newest spelling. -/
theorem exists_isNewest (h : ∃ k ∈ Table.names entries, spells name k = true) :
    ∃ key, IsNewest entries name key := by
  induction entries using List.reverseRecOn with
  | nil =>
    obtain ⟨k, hk, -⟩ := h
    cases hk
  | append_singleton rest e ih =>
    obtain ⟨k, v⟩ := e
    by_cases hnew : spells name k = true ∧ k ∉ Table.names rest
    · refine ⟨k, rest, v, [], rfl, hnew.1, hnew.2, ?_⟩
      intro _ hmem
      cases hmem
    · -- the last entry uses a spelling that has been used before, or none at all
      have hold : spells name k = true → k ∈ Table.names rest := by
        intro hspells
        by_contra hfresh
        exact hnew ⟨hspells, hfresh⟩
      obtain ⟨k', hk', hspells'⟩ := h
      have hrest : ∃ k ∈ Table.names rest, spells name k = true := by
        rw [Table.names_append, List.mem_append] at hk'
        rcases hk' with hk' | hk'
        · exact ⟨k', hk', hspells'⟩
        · obtain rfl : k' = k := List.mem_singleton.1 hk'
          exact ⟨k', hold hspells', hspells'⟩
      obtain ⟨key, hkey⟩ := ih hrest
      refine ⟨key, hkey.append ?_⟩
      intro k' hk'
      obtain rfl : k' = k := List.mem_singleton.1 hk'
      exact hold

/-- A table of spellings has the last value of each of them. -/
theorem find?_merge (t : Variables) (entries : Variables) (key : String) :
    (Table.merge t entries).find? key = (last? (· == key) entries <|> t.find? key) := by
  induction entries generalizing t with
  | nil => rfl
  | cons e rest ih =>
    change (Table.merge (t.insert e.1 e.2) rest).find? key = _
    rw [ih, last?_cons, Table.find?_insert]
    cases last? (· == key) rest with
    | some v => rfl
    | none =>
      by_cases h : e.1 = key
      · simp [h]
      · simp [h]

/-- The table of some entries has the value that was written last under each key. -/
theorem find?_ofEntries (entries : Variables) (key : String) :
    (Table.ofEntries entries).find? key = last? (· == key) entries := by
  rw [Table.ofEntries, find?_merge]
  simp

/-- In a table, some older spellings stand in front of the newest one, and none stands behind it. -/
def Placed (name key : String) (older : List String) (t : Variables) : Prop :=
  ∃ front value back, t = front ++ (key, value) :: back ∧ key ∉ Table.names front ∧
    older ⊆ Table.names front ∧ ∀ k ∈ Table.names back, spells name k = false

/-- To write a spelling that has been used before, or another variable, changes no place. -/
theorem Placed.insert {older : List String} {t : Variables} (h : Placed name key older t) {k : String}
    (hk : spells name k = true → k = key ∨ k ∈ older) (v : Value) :
    Placed name key older (Table.insert t k v) := by
  obtain ⟨front, value, back, rfl, hfresh, holder, hback⟩ := h
  by_cases hfront : k ∈ Table.names front
  · refine ⟨Table.insert front k v, value, back, Table.insert_append_of_mem hfront _ v, ?_, ?_, hback⟩
    · intro hmem
      rcases (Table.mem_names_insert _ _ _ _).1 hmem with rfl | hmem
      · exact hfresh hfront
      · exact hfresh hmem
    · intro k' hk'
      exact (Table.mem_names_insert _ _ _ _).2 (.inr (holder hk'))
  · rw [Table.insert_append_of_not_mem hfront]
    by_cases hkey : key = k
    · refine ⟨front, v, back, ?_, hfresh, holder, hback⟩
      rw [Table.insert, if_pos hkey]
    · -- a name that is neither the newest spelling nor an older one is no spelling
      refine ⟨front, value, Table.insert back k v, ?_, hfresh, holder, ?_⟩
      · rw [Table.insert, if_neg hkey]
      · intro k' hk'
        rcases (Table.mem_names_insert _ _ _ _).1 hk' with rfl | hk'
        · by_contra hspells
          rcases hk (by simpa using hspells) with heq | hmem
          · exact hkey heq.symm
          · exact hfront (holder hmem)
        · exact hback k' hk'

/-- Entries under the newest spelling, or under older ones, keep it in its place. -/
theorem Placed.merge {older : List String} {t rest : Variables} (h : Placed name key older t)
    (hrest : ∀ k ∈ Table.names rest, spells name k = true → k = key ∨ k ∈ older) :
    Placed name key older (Table.merge t rest) := by
  -- the invariant of writing: what stands behind the newest spelling stays another variable
  induction rest generalizing t with
  | nil => exact h
  | cons e rest ih =>
    apply ih
    · exact h.insert (hrest e.1 List.mem_cons_self) e.2
    · intro k hk
      exact hrest k (List.mem_cons_of_mem _ hk)

/-- The last value of the variable in the table stands under its newest spelling. -/
theorem Placed.last? {older : List String} {t : Variables} (h : Placed name key older t)
    (hspells : spells name key = true) :
    Variables.last? (spells name) t = Table.find? t key := by
  obtain ⟨front, value, back, rfl, hfresh, -, hback⟩ := h
  rw [Table.find?_append_of_not_mem hfresh, Table.find?, if_pos rfl]
  exact last?_eq_some_iff.2 ⟨front, key, back, rfl, hspells, hback⟩

/-- In a table of spellings the newest one counts, with the last value that it has been given. -/
theorem last?_ofEntries (h : IsNewest entries name key) :
    last? (spells name) (Table.ofEntries entries) = last? (· == key) entries := by
  have hfind := find?_ofEntries entries key
  obtain ⟨front, value, back, rfl, hspells, hfresh, hback⟩ := h
  -- when it is used first, the newest spelling is put behind the older ones
  have hfirst : Placed name key (Table.names front)
      (Table.insert (Table.ofEntries front) key value) := by
    have hfresh' : key ∉ Table.names (Table.ofEntries front) :=
      fun hmem => hfresh (Table.mem_names_ofEntries.1 hmem)
    refine ⟨Table.ofEntries front, value, [], Table.insert_of_not_mem hfresh' value, hfresh', ?_, ?_⟩
    · exact fun k hk => Table.mem_names_ofEntries.2 hk
    · intro k hk
      cases hk
  have htable : Table.ofEntries (front ++ (key, value) :: back) =
      Table.merge (Table.insert (Table.ofEntries front) key value) back := by
    rw [Table.ofEntries, Table.merge, List.foldl_append]
    rfl
  rw [← hfind, htable]
  exact (hfirst.merge hback).last? hspells

/-- A variable that is not written is in no table of spellings. -/
theorem last?_ofEntries_of_forall (h : ∀ k ∈ Table.names entries, spells name k = false) :
    last? (spells name) (Table.ofEntries entries) = none := by
  rw [last?_eq_none_iff]
  intro k hk
  exact h k (Table.mem_names_ofEntries.1 hk)

/-- Whatever is found of a variable that is not written, a table of spellings has the last value that
was written unless the variable was overtaken. -/
theorem last?_ofEntries_orElse_iff (entries : Variables) (name : String) (other : Option Value) :
    (last? (spells name) (Table.ofEntries entries) <|> other) =
        (last? (spells name) entries <|> other) ↔ ¬ Overtaken entries name := by
  by_cases hwritten : ∃ k ∈ Table.names entries, spells name k = true
  · obtain ⟨k, hk, hspells⟩ := hwritten
    obtain ⟨last, hlast⟩ := last?_isSome_of_mem hk hspells
    have hcounts {key : String} (hkey : IsNewest entries name key) :
        (last? (spells name) (Table.ofEntries entries) <|> other) = last? (· == key) entries := by
      obtain ⟨found, hfound⟩ : ∃ found, last? (· == key) entries = some found :=
        last?_isSome_of_mem hkey.mem (beq_self_eq_true key)
      rw [last?_ofEntries hkey, hfound]
      rfl
    have hclaimed : (last? (spells name) entries <|> other) = last? (spells name) entries := by
      rw [hlast]
      rfl
    rw [hclaimed]
    -- what counts is the newest spelling, so the last value is found if and only if it has it
    constructor
    · rintro heq ⟨key, hkey, hdiffers⟩
      exact hdiffers ((hcounts hkey).symm.trans heq)
    · intro hkept
      obtain ⟨key, hkey⟩ := exists_isNewest ⟨k, hk, hspells⟩
      by_contra hdiffers
      exact hkept ⟨key, hkey, fun heq => hdiffers ((hcounts hkey).trans heq)⟩
  · have hnone : ∀ k ∈ Table.names entries, spells name k = false := by
      intro k hk
      by_contra hspells
      exact hwritten ⟨k, hk, by simpa using hspells⟩
    rw [last?_ofEntries_of_forall hnone, last?_eq_none_iff.2 hnone]
    refine iff_of_true rfl ?_
    rintro ⟨key, hkey, -⟩
    have hspells : spells name key = true := hkey.isSpelling
    rw [hnone key hkey.mem] at hspells
    cases hspells

end Variables

/-! ## Storing twice -/

namespace Scope

/-- Storing a value again under another spelling takes the place of the first value. -/
theorem put_put_of_eq (s : Scope) {name other : String} (value value' : Value)
    (h : VariableName.normalize name = VariableName.normalize other) :
    (s.put name value).put other value' = s.put other value' := by
  simp [put, h, Table.insert_insert_self]

def Holds (s : Scope) (bindings : Variables) : Prop :=
  ∀ e ∈ bindings, VariableName.normalize e.1 ∈ s.bindings.names

/-- A scope that has some variables still has them when one is stored. -/
theorem Holds.put {s : Scope} {bindings : Variables} (h : s.Holds bindings) (name : String)
    (value : Value) : (s.put name value).Holds bindings :=
  fun e he => (Table.mem_names_insert _ _ _ _).2 (.inr (h e he))

/-- Several values are stored one after the other. -/
theorem extend_concat (s : Scope) (bindings : Variables) (e : String × Value) :
    s.extend (bindings ++ [e]) = (s.extend bindings).put e.1 e.2 := by
  simp [extend]

/-- A scope has the variables that have been stored in it. -/
theorem holds_extend (s : Scope) (bindings : Variables) : (s.extend bindings).Holds bindings := by
  induction bindings using List.reverseRecOn with
  | nil => simp [Holds]
  | append_singleton bindings last ih =>
    rw [extend_concat]
    intro e he
    rcases List.mem_append.1 he with he | hlast
    · exact ih.put last.1 last.2 e he
    · rw [List.mem_singleton.1 hlast]
      exact (Table.mem_names_insert _ _ _ _).2 (.inl rfl)

/-- A value that is overwritten in the end leaves no trace. -/
theorem put_extend_put {s : Scope} {bindings : Variables} (h : s.Holds bindings) (name : String)
    (value last : Value) :
    ((s.put name value).extend bindings).put name last = (s.extend bindings).put name last := by
  induction bindings generalizing s with
  | nil => exact put_put_of_eq s value last rfl
  | cons e rest ih =>
    have hrest : (s.put e.1 e.2).Holds rest :=
      Holds.put (fun e' he' => h e' (List.mem_cons_of_mem e he')) e.1 e.2
    change (((s.put name value).put e.1 e.2).extend rest).put name last =
      ((s.put e.1 e.2).extend rest).put name last
    by_cases hname : VariableName.normalize name = VariableName.normalize e.1
    · rw [put_put_of_eq s value e.2 hname]
    · -- the name of the entry has its place already, so the order does not matter
      have hcomm : (s.put name value).put e.1 e.2 = (s.put e.1 e.2).put name value := by
        simp [put, Table.insert_comm (h e List.mem_cons_self) hname]
      rw [hcomm, ih hrest]

/-- Storing the same variables a second time changes nothing. -/
theorem extend_extend (s : Scope) (bindings : Variables) :
    (s.extend bindings).extend bindings = s.extend bindings := by
  induction bindings using List.reverseRecOn with
  | nil => rfl
  | append_singleton bindings last ih =>
    rw [extend_concat, extend_concat, put_extend_put (holds_extend s bindings), ih]

end Scope

/-! ## Layers of a scope -/

def Agent.facts (agent : Agent) : Variables :=
  [("AGENT_HOSTNAME", .string agent.hostName), ("AGENT_OS", .string agent.os),
    ("AGENT_ARCH", .string agent.arch), ("AGENT_VERSION", .string agent.version),
    ("AGENT_IP", .lazy (.string agent.address))]

def Variables.ofEnvironment (environment : List (String × String)) : Variables :=
  environment.map fun e => (e.1, .string e.2)

namespace Scope

/-- A variable has the last value that is stored under any of its spellings, or else the former
one. -/
theorem get?_extend (s : Scope) (entries : Variables) (name : String) :
    (s.extend entries).get? name =
      (Variables.last? (Variables.spells name) entries <|> s.get? name) := by
  induction entries generalizing s with
  | nil => rfl
  | cons e rest ih =>
    change ((s.put e.1 e.2).extend rest).get? name = _
    rw [ih, Variables.last?_cons, get?_put]
    cases Variables.last? (Variables.spells name) rest with
    | some v => rfl
    | none =>
      by_cases h : normalize e.1 = normalize name
      · simp [Variables.spells, h]
      · simp [Variables.spells, h]

/-- What is known about the agent is a layer of variables. -/
theorem seedAgent_eq (s : Scope) (agent : Agent) : s.seedAgent agent = s.extend agent.facts := rfl

/-- The environment is a layer of variables. -/
theorem seedEnvironment_eq (s : Scope) (environment : List (String × String)) :
    s.seedEnvironment environment = s.extend (Variables.ofEnvironment environment) := by
  rw [seedEnvironment, extend, Variables.ofEnvironment, List.foldl_map]

end Scope

namespace TestRunner

def ownVariables (test : TestDefinition) : Variables :=
  test.bindings.map fun e => (e.1, Value.ofJson e.2)

/-- What a test finds under a name that is not overridden: its last variable of that name, or else a
fact about the agent, or else a variable of the environment if that is copied. -/
def inherited (r : TestRunner) (test : TestDefinition) (name : String) : Option Value :=
  Variables.last? (Variables.spells name) (ownVariables test) <|>
    Variables.last? (Variables.spells name) r.agent.facts <|>
    r.environment.bind fun environment =>
      Variables.last? (Variables.spells name) (Variables.ofEnvironment environment)

/-- The last layer that has a variable gives it its value. -/
theorem get?_buildScope (r : TestRunner) (test : TestDefinition) (name : String) :
    (r.buildScope test).get? name =
      (Variables.last? (Variables.spells name) r.overrides <|> r.inherited test name) := by
  unfold buildScope inherited
  dsimp only
  rw [Scope.get?_extend, Scope.get?_extend, Scope.seedAgent_eq, Scope.get?_extend,
    Scope.seedEnvironment_eq, Scope.get?_extend]
  have hempty : Scope.empty.get? name = none := rfl
  rw [hempty, ownVariables]
  cases r.environment with
  | none => simp [Variables.ofEnvironment, Variables.last?]
  | some environment => simp

end TestRunner

end StepScript
