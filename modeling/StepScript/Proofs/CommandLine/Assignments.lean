import StepScript.CommandLine.Session
import StepScript.Proofs.Scope.Layers
import StepScript.Proofs.Step.Shorthand

/-!
# Assignments — the variables of a command line

Variables are given on the command line as `--var NAME=VALUE` or `--var=NAME=VALUE`, any number of
times.  They override the variables of every test.

* `Arguments.assigned` are the texts of the variables, in order, and `Arguments.read_assignments` says
  that the options have exactly what these texts assign;
* `Session.get?_scope` is the main result: in the scope of a test, a variable has the value that it was
  given last on the command line, or else in the definition of the test, as a fact about the agent or in
  the environment, if and only if it was not overtaken by an older spelling of its name.
-/

namespace StepScript

namespace Arguments

variable {s s' : State} {text : String} {option : CliOption}

/-! ## The texts of variables -/

/-- The text of a variable that is attached to its option. -/
def attached? (text : String) : Option String :=
  match text.toList with
  | '-' :: '-' :: 'v' :: 'a' :: 'r' :: '=' :: value => some (String.ofList value)
  | _ => none

/-- The texts of the variables among the arguments. -/
def assigned : List String → List String
  | [] => []
  | text :: rest => (if text = "--var" then rest.head? else attached? text).toList ++ assigned rest

def State.Awaits (s : State) : Prop :=
  s.pending = some (.assign, none)

/-- The text of a variable that has been read and not been looked at. -/
def State.unread (s : State) : List String :=
  match s.pending with
  | some (.assign, some value) => [value]
  | _ => []

def State.Records (s : State) (texts : List String) : Prop :=
  ∃ seen, seen.mapM assignment = .ok s.options.assignments ∧ texts = seen ++ s.unread

def textOf (option : CliOption) (value : String) : List String :=
  if option = .assign then [value] else []

/-- Texts of variables are read one by one. -/
theorem mapM_assignment_append {seen seen' : List String} {found found' : List (String × Value)}
    (h : seen.mapM assignment = .ok found) (h' : seen'.mapM assignment = .ok found') :
    (seen ++ seen').mapM assignment = .ok (found ++ found') := by
  rw [List.mapM_append, h, h']
  rfl

/-- Setting an option adds the text of a variable behind those already read, and no other option
adds one. -/
theorem setValue_records {o o' : Options} {value : String} {seen : List String}
    (hseen : seen.mapM assignment = .ok o.assignments) (h : setValue o option value = .ok o') :
    (seen ++ textOf option value).mapM assignment = .ok o'.assignments := by
  cases option with
  | assign =>
    unfold setValue at h
    dsimp only at h
    cases hassignment : assignment value with
    | error cause =>
      rw [hassignment] at h
      cases h
    | ok found =>
      rw [hassignment] at h
      cases h
      have hone : [value].mapM assignment = .ok [found] := by
        rw [List.mapM_cons, hassignment]
        rfl
      exact mapM_assignment_append hseen hone
  | reportFormat =>
    unfold setValue at h
    dsimp only at h
    rw [textOf, if_neg (by decide), List.append_nil, hseen]
    split at h
    · cases h
      rfl
    · split at h <;> cases h
  | _ =>
    cases h
    rw [textOf, if_neg (by decide), List.append_nil, hseen]

/-- Giving an option its value changes only what is asked for. -/
theorem give_ok {value : String} (h : give s option value = .ok s') :
    s'.pending = s.pending ∧ setValue s.options option value = .ok s'.options := by
  unfold give at h
  split at h
  · cases h
  · cases hset : setValue s.options option value with
    | error e =>
      simp only [hset] at h
      cases h
    | ok o =>
      simp only [hset] at h
      cases h
      exact ⟨rfl, rfl⟩

/-- To settle what is pending looks at the text that has been read. -/
structure Settles (s s' : State) : Prop where
  answered : ¬ s.Awaits
  pending : s'.pending = none
  records : ∀ texts, s.Records texts → texts.mapM assignment = .ok s'.options.assignments

/-- Settling succeeds only if no option waits, and what was unread is then among the variables. -/
theorem settle_settles (h : settle s = .ok s') : Settles s s' := by
  -- an option that still waits for its value cannot be settled, which gives `answered`
  unfold settle at h
  cases hpending : s.pending with
  | none =>
    rw [hpending] at h
    cases h
    refine ⟨by simp [State.Awaits, hpending], hpending, ?_⟩
    rintro _ ⟨seen, hseen, rfl⟩
    rw [State.unread, hpending, List.append_nil, hseen]
  | some pending =>
    obtain ⟨option, value⟩ := pending
    rw [hpending] at h
    cases value with
    | none => cases h
    | some value =>
      obtain ⟨hnone, hset⟩ := give_ok h
      refine ⟨by simp [State.Awaits, hpending], hnone, ?_⟩
      rintro _ ⟨seen, hseen, rfl⟩
      have hunread : s.unread = textOf option value := by
        unfold State.unread textOf
        rw [hpending]
        cases option <;> rfl
      rw [hunread]
      exact setValue_records hseen hset

/-- With nothing left to look at, the texts read so far are those of the variables found. -/
theorem records_of_unread {texts : List String} (hunread : s.unread = [])
    (h : texts.mapM assignment = .ok s.options.assignments) : s.Records texts :=
  ⟨texts, h, by rw [hunread, List.append_nil]⟩

/-! ## Reading an argument -/

/-- An argument that begins options has been read, with the texts of variables in it. -/
structure Begins (s : State) (texts : List String) (s' : State) : Prop where
  answered : ¬ s.Awaits
  records : ∀ seen, s.Records seen → s'.Records (seen ++ texts)

/-- A value that is given after settling. -/
theorem Settles.begins {between : State} {value : String} (h : Settles s between)
    (hgive : give between option value = .ok s') :
    Begins s (textOf option value) s' ∧ s'.pending = none := by
  obtain ⟨hpending, hset⟩ := give_ok hgive
  rw [h.pending] at hpending
  refine ⟨⟨h.answered, ?_⟩, hpending⟩
  intro seen hseen
  refine records_of_unread ?_ (setValue_records (h.records seen hseen) hset)
  rw [State.unread, hpending]

/-- What reading options leads to: on to a state, with the texts of variables in them, or to an answer,
which is no run. -/
def Progress.Follows (s : State) (texts : List String) (awaits : Prop) : Progress → Prop
  | .more s' => Begins s texts s' ∧ (s'.Awaits ↔ awaits)
  | .answer request => ∀ o, request ≠ .run o

variable {progress : Progress}

/-- An option without a value adds no text of a variable. -/
theorem flag_follows (hflag : option.takesValue = false) (h : flag s option = .ok progress) :
    progress.Follows s [] False := by
  obtain ⟨between, hsettle, h⟩ := ok_of_bind h
  have hassign : option ≠ .assign := by
    rintro rfl
    cases hflag
  have hgiven (h : (do return .more (← give between option "")) = Except.ok progress) :
      progress.Follows s [] False := by
    obtain ⟨given, hgive, h⟩ := ok_of_bind h
    cases h
    obtain ⟨hbegins, hpending⟩ := (settle_settles hsettle).begins hgive
    rw [textOf, if_neg hassign] at hbegins
    exact ⟨hbegins, by simp [State.Awaits, hpending]⟩
  cases option with
  | help =>
    cases h
    intro o hrun
    cases hrun
  | version =>
    cases h
    intro o hrun
    cases hrun
  | verbose => exact hgiven h
  | noEnvironment => exact hgiven h
  | _ => cases hflag

/-- An option with a value adds its text if that is attached; only the option for variables adds
one, and waits for it otherwise. -/
theorem valued_follows {attached : Option String} (h : valued s option attached = .ok progress) :
    progress.Follows s (attached.elim [] (textOf option)) (option = .assign ∧ attached = none) := by
  obtain ⟨between, hsettle, h⟩ := ok_of_bind h
  cases attached with
  | some value =>
    obtain ⟨given, hgive, h⟩ := ok_of_bind h
    cases h
    obtain ⟨hbegins, hpending⟩ := (settle_settles hsettle).begins hgive
    exact ⟨hbegins, by simp [State.Awaits, hpending]⟩
  | none =>
    cases h
    have hsettles := settle_settles hsettle
    refine ⟨⟨hsettles.answered, ?_⟩, by simp [State.Awaits]⟩
    intro seen hseen
    rw [Option.elim_none, List.append_nil]
    exact records_of_unread (by cases option <;> rfl) (hsettles.records seen hseen)

/-- The value of another option is no text of a variable. -/
theorem valued_follows_of_ne {attached : Option String} (hassign : option ≠ .assign)
    (h : valued s option attached = .ok progress) : progress.Follows s [] False := by
  have hfollows := valued_follows h
  have htexts : attached.elim [] (textOf option) = [] := by
    cases attached with
    | none => rfl
    | some value => exact if_neg hassign
  have hawaits : (option = .assign ∧ attached = none) = False :=
    propext (iff_false_intro fun hboth => hassign hboth.1)
  rwa [htexts, hawaits] at hfollows

/-- No letter stands for the option for variables. -/
theorem ofLetter?_ne_assign (c : Char) : CliOption.ofLetter? c ≠ some .assign := by
  unfold CliOption.ofLetter?
  split <;> simp

theorem ofLong?_eq_assign_iff {name : String} :
    CliOption.ofLong? name = some .assign ↔ name = "var" := by
  constructor
  · intro h
    unfold CliOption.ofLong? at h
    split at h <;> first | rfl | cases h
  · rintro rfl
    rfl

/-- A flag that is followed by other options. -/
theorem Begins.follows {between : State} {texts texts' : List String} {awaits : Prop}
    (h : Begins s texts between) (h' : progress.Follows between texts' awaits) :
    progress.Follows s (texts ++ texts') awaits := by
  cases progress with
  | answer request => exact h'
  | more s' =>
    obtain ⟨hbegins, hawaits⟩ := h'
    refine ⟨⟨h.answered, ?_⟩, hawaits⟩
    intro seen hseen
    rw [← List.append_assoc]
    exact hbegins.records _ (h.records seen hseen)

/-- No variable is given by a letter. -/
theorem letters_follows {cs : List Char} (h : letters s cs = .ok progress) :
    (cs = [] ∧ progress = .more s) ∨ progress.Follows s [] False := by
  -- flags go on with the next letter, an option with a value takes all that is left
  induction cs generalizing s with
  | nil =>
    cases h
    exact .inl ⟨rfl, rfl⟩
  | cons c rest ih =>
    right
    unfold letters at h
    split at h
    · cases h
    · rename_i option hletter
      split at h
      · refine valued_follows_of_ne ?_ h
        rintro rfl
        exact ofLetter?_ne_assign c hletter
      · rename_i hvalue
        obtain ⟨first, hflag, h⟩ := ok_of_bind h
        have hfirst := flag_follows (by simpa using hvalue) hflag
        cases first with
        | answer request =>
          cases h
          exact hfirst
        | more between =>
          rcases ih h with ⟨-, rfl⟩ | hrest
          · exact hfirst
          · exact hfirst.1.follows hrest

/-- A value is attached to the option exactly behind its long name and the equals sign. -/
theorem attached?_eq_some_iff {value : List Char} :
    attached? text = some (String.ofList value) ↔
      text.toList = '-' :: '-' :: 'v' :: 'a' :: 'r' :: '=' :: value := by
  unfold attached?
  split
  · rename_i rest hrest
    rw [hrest]
    simp [String.ofList_inj]
  · rename_i hother
    simp only [reduceCtorEq, false_iff]
    exact fun hrest => hother value hrest

theorem takeWhile_of_var {body value : List Char} (h : body = 'v' :: 'a' :: 'r' :: '=' :: value) :
    body.takeWhile (· != '=') = ['v', 'a', 'r'] ∧ body.dropWhile (· != '=') = '=' :: value := by
  subst h
  constructor <;> rfl

/-- An argument with another long name attaches no text of a variable. -/
theorem attached?_of_ne {body : List Char} (htext : text.toList = '-' :: '-' :: body)
    (hname : body.takeWhile (· != '=') ≠ ['v', 'a', 'r']) : attached? text = none ∧ text ≠ "--var" := by
  constructor
  · rw [Option.eq_none_iff_forall_not_mem]
    intro value hvalue
    have hattached : attached? text = some (String.ofList value.toList) := by
      rw [String.ofList_toList]
      exact hvalue
    have hchars := attached?_eq_some_iff.1 hattached
    rw [htext] at hchars
    exact hname (takeWhile_of_var (by simpa using hchars)).1
  · rintro rfl
    have hbody : body = ['v', 'a', 'r'] := by simpa using htext.symm
    subst hbody
    exact hname rfl

/-- An argument with the name of the option for variables attaches what is behind the name. -/
theorem attached?_of_var {body : List Char} (htext : text.toList = '-' :: '-' :: body)
    (hname : body.takeWhile (· != '=') = ['v', 'a', 'r']) :
    (body.dropWhile (· != '=') = [] → attached? text = none ∧ text = "--var") ∧
      (∀ c value, body.dropWhile (· != '=') = c :: value →
        attached? text = some (String.ofList value) ∧ text ≠ "--var") := by
  have hbody : body = ['v', 'a', 'r'] ++ body.dropWhile (· != '=') := by
    rw [← hname, List.takeWhile_append_dropWhile]
  constructor
  · intro hrest
    rw [hrest, List.append_nil] at hbody
    have hvar : text = "--var" := by
      rw [← String.toList_inj, htext, hbody]
      rfl
    subst hvar
    exact ⟨rfl, rfl⟩
  · intro c value hrest
    have hequals : c = '=' := by
      have hne : body.dropWhile (· != '=') ≠ [] := by simp [hrest]
      simpa [hrest] using List.head_dropWhile_not (· != '=') hne
    rw [hrest, hequals] at hbody
    refine ⟨attached?_eq_some_iff.2 (by rw [htext, hbody]; rfl), ?_⟩
    rintro rfl
    rw [hbody] at htext
    simp at htext

/-- What an argument with a long name attaches is the text of a variable if that is its option. -/
theorem long_follows {body : List Char} (htext : text.toList = '-' :: '-' :: body)
    (h : long s body = .ok progress) :
    progress.Follows s (attached? text).toList (text = "--var") := by
  unfold long at h
  dsimp only at h
  split at h
  · cases h
  · rename_i option hlong
    by_cases hname : body.takeWhile (· != '=') = ['v', 'a', 'r']
    · obtain ⟨hnone, hsome⟩ := attached?_of_var htext hname
      obtain rfl : option = .assign := by
        rw [hname] at hlong
        exact (Option.some.inj hlong).symm
      rw [if_pos (show CliOption.assign.takesValue = true from rfl)] at h
      have hfollows := valued_follows h
      cases hrest : body.dropWhile (· != '=') with
      | nil =>
        obtain ⟨hattached, hvar⟩ := hnone hrest
        rw [hrest] at hfollows
        rw [hattached]
        simpa [hvar] using hfollows
      | cons c value =>
        obtain ⟨hattached, hvar⟩ := hsome c value hrest
        rw [hrest] at hfollows
        simpa [hattached, hvar, textOf] using hfollows
    · obtain ⟨hattached, hvar⟩ := attached?_of_ne htext hname
      have hassign : option ≠ .assign := by
        rintro rfl
        have hlongName := ofLong?_eq_assign_iff.1 hlong
        exact hname (by rw [← String.ofList_inj, hlongName])
      have hother : progress.Follows s [] False := by
        split at h
        · exact valued_follows_of_ne hassign h
        · rename_i hflag
          split at h
          · cases h
          · exact flag_follows (by simpa using hflag) h
      simpa [hattached, hvar] using hother

/-- One argument has been read: it is the text that the option for a variable waits for, or else there
may be a text attached to it. -/
structure Reads (s : State) (text : String) (s' : State) : Prop where
  awaited : s.Awaits → attached? text = none ∧ text ≠ "--var"
  records : ∀ seen, s.Records seen →
    (s.Awaits → s'.Records (seen ++ [text])) ∧
      (¬ s.Awaits → s'.Records (seen ++ (attached? text).toList))
  awaits : s'.Awaits ↔ text = "--var"

def Progress.Read (s : State) (text : String) : Progress → Prop
  | .more s' => Reads s text s'
  | .answer request => ∀ o, request ≠ .run o

/-- The rules for options together say what one argument adds. -/
theorem Progress.Follows.read (h : progress.Follows s (attached? text).toList (text = "--var")) :
    progress.Read s text := by
  cases progress with
  | answer request => exact h
  | more s' =>
    obtain ⟨hbegins, hawaits⟩ := h
    refine ⟨fun hs => absurd hs hbegins.answered, ?_, hawaits⟩
    intro seen hseen
    exact ⟨fun hs => absurd hs hbegins.answered, fun _ => hbegins.records seen hseen⟩

/-- An argument that does not begin with two dashes attaches no text of a variable. -/
theorem attached?_of_forall (h : ∀ body, text.toList ≠ '-' :: '-' :: body) :
    attached? text = none ∧ text ≠ "--var" := by
  constructor
  · unfold attached?
    split
    · rename_i value hvalue
      exact absurd hvalue (h _)
    · rfl
  · rintro rfl
    exact h ['v', 'a', 'r'] rfl

/-- Reading an argument adds the text of a variable that it is or holds, and nothing else. -/
theorem argument_read (h : argument s text = .ok progress) : progress.Read s text := by
  unfold argument at h
  split at h
  · rename_i body htext
    exact (long_follows htext h).read
  · rename_i c rest hdash htext
    have hother : attached? text = none ∧ text ≠ "--var" := by
      apply attached?_of_forall
      intro body hbody
      rw [htext] at hbody
      exact hdash (List.cons.inj (List.cons.inj hbody).2).1
    rcases letters_follows h with ⟨hnil, -⟩ | hfollows
    · cases hnil
    · apply Progress.Follows.read
      simpa [hother] using hfollows
  · -- the value of an option, which is a text of a variable if that is the option
    rename_i option hpending hlong hletters
    have hother := attached?_of_forall hlong
    cases h
    refine ⟨fun _ => hother, ?_, iff_of_false (by simp [State.Awaits]) hother.2⟩
    rintro _ ⟨seen, hseen, rfl⟩
    have hunread : s.unread = [] := by
      unfold State.unread
      rw [hpending]
      cases option <;> rfl
    rw [hunread, List.append_nil, hother.1]
    by_cases hassign : option = .assign
    · subst hassign
      exact ⟨fun _ => ⟨seen, hseen, rfl⟩, fun hs => absurd hpending hs⟩
    · refine ⟨fun hs => ?_, fun _ => ⟨seen, hseen, ?_⟩⟩
      · rw [State.Awaits, hpending] at hs
        simp [hassign] at hs
      · cases option with
        | assign => exact absurd rfl hassign
        | _ => rfl
  · cases h

/-! ## Reading all arguments -/

/-- The texts of the variables that are still to be read: the one that an option waits for, and those of
the arguments. -/
def State.toCome (s : State) (arguments : List String) : List String :=
  (match s.pending with
    | some (.assign, none) => arguments.head?.toList
    | _ => []) ++ assigned arguments

/-- Where the option waits, the next argument is its text, whatever it looks like. -/
theorem State.toCome_of_awaits (h : s.Awaits) (arguments : List String) :
    s.toCome arguments = arguments.head?.toList ++ assigned arguments := by
  rw [toCome, h]

theorem State.toCome_of_not_awaits (h : ¬ s.Awaits) (arguments : List String) :
    s.toCome arguments = assigned arguments := by
  unfold toCome
  split
  · rename_i hpending
    exact absurd hpending h
  · rfl

/-- Where there are no more texts of variables, those that have been seen are all of them. -/
theorem Settles.records_toCome {settled : State} {arguments seen : List String}
    (h : Settles s settled) (hs : s.Records seen) (hnone : assigned arguments = []) :
    (seen ++ s.toCome arguments).mapM assignment = .ok settled.options.assignments := by
  rw [State.toCome_of_not_awaits h.answered, hnone, List.append_nil]
  exact h.records seen hs

/-- One argument moves what it has of the texts to those that have been seen. -/
theorem Reads.records_toCome {s' : State} {seen : List String} (h : Reads s text s')
    (hs : s.Records seen) (rest : List String) :
    ∃ seen', s'.Records seen' ∧ seen' ++ s'.toCome rest = seen ++ s.toCome (text :: rest) := by
  obtain ⟨hawaited, hother⟩ := h.records seen hs
  by_cases hawaits : s.Awaits
  · obtain ⟨hattached, hvar⟩ := h.awaited hawaits
    refine ⟨seen ++ [text], hawaited hawaits, ?_⟩
    rw [State.toCome_of_not_awaits (mt h.awaits.1 hvar), State.toCome_of_awaits hawaits, assigned,
      if_neg hvar, hattached]
    simp
  · refine ⟨seen ++ (attached? text).toList, hother hawaits, ?_⟩
    rw [State.toCome_of_not_awaits hawaits, assigned]
    by_cases hvar : text = "--var"
    · -- the text of this variable is the next argument, which is the head of the rest
      rw [State.toCome_of_awaits (h.awaits.2 hvar), if_pos hvar, hvar]
      simp [show attached? "--var" = none from rfl]
    · rw [State.toCome_of_not_awaits (mt h.awaits.1 hvar), if_neg hvar, List.append_assoc]

/-- Whatever has been read before, all texts of variables are read in order. -/
theorem readAll_records {arguments : List String} {o : Options} {seen : List String}
    (hs : s.Records seen) (h : readAll s arguments = .ok (.run o)) :
    (seen ++ s.toCome arguments).mapM assignment = .ok o.assignments := by
  -- the induction is on the arguments; `seen` grows by what the state records after each of them
  induction arguments generalizing s seen with
  | nil =>
    obtain ⟨settled, hsettle, h⟩ := ok_of_bind h
    cases h
    exact (settle_settles hsettle).records_toCome hs rfl
  | cons text rest ih =>
    unfold readAll at h
    split at h
    · rename_i hdashes
      obtain rfl : text = "--" := by simpa using hdashes
      cases rest with
      | cons extra _ => cases h
      | nil =>
        obtain ⟨settled, hsettle, h⟩ := ok_of_bind h
        cases h
        exact (settle_settles hsettle).records_toCome hs rfl
    · obtain ⟨progress, hargument, h⟩ := ok_of_bind h
      have hread := argument_read hargument
      cases progress with
      | answer request =>
        cases h
        exact absurd rfl (hread o)
      | more between =>
        have hreads : Reads s text between := hread
        obtain ⟨seen', hseen, heq⟩ := hreads.records_toCome hs rest
        rw [← heq]
        exact ih hseen h

/-- The options have what the texts of the variables assign, in order. -/
theorem read_assignments {environment : Table String} {arguments : List String} {o : Options}
    (h : read environment arguments = .ok (.run o)) :
    (assigned arguments).mapM assignment = .ok o.assignments := by
  obtain ⟨request, hread, h⟩ := ok_of_bind h
  cases request with
  | run o' =>
    cases h
    have hstart : State.start.Records [] := ⟨[], rfl, rfl⟩
    have hall := readAll_records hstart hread
    rwa [State.toCome_of_not_awaits (by simp [State.Awaits, State.start])] at hall
  | help => cases h
  | version => cases h

end Arguments

/-! ## The scope of a test -/

namespace Session

open Variables (last? spells IsNewest Overtaken)

/-- In the scope of a test, a variable that is given on the command line has the last value of its
newest spelling, and any other what the test, the agent or the environment says.  The value is the one
that was given last, or else what they say, if and only if the variable was not overtaken. -/
theorem get?_scope (s : Surroundings) (arguments : List String) (o : Options)
    (h : Arguments.read s.environment arguments = .ok (.run o)) (test : TestDefinition)
    (name : String) :
    ∃ given : Variables,
      (Arguments.assigned arguments).mapM Arguments.assignment = .ok given ∧
      let found := ((runner s o).buildScope test).get? name
      let inherited := (runner s o).inherited test name
      (∀ key, IsNewest given name key → found = last? (· == key) given) ∧
        ((∀ key ∈ Table.names given, spells name key = false) → found = inherited) ∧
        (found = (last? (spells name) given <|> inherited) ↔ ¬ Overtaken given name) := by
  refine ⟨o.assignments, Arguments.read_assignments h, ?_⟩
  intro found inherited
  have hfound : found = (last? (spells name) (Table.ofEntries o.assignments) <|> inherited) :=
    (runner s o).get?_buildScope test name
  rw [hfound]
  refine ⟨?_, ?_, Variables.last?_ofEntries_orElse_iff _ _ _⟩
  · intro key hkey
    obtain ⟨value, hvalue⟩ : ∃ value, last? (· == key) o.assignments = some value :=
      Variables.last?_isSome_of_mem hkey.mem (beq_self_eq_true key)
    rw [Variables.last?_ofEntries hkey, hvalue]
    rfl
  · intro hother
    rw [Variables.last?_ofEntries_of_forall hother]
    rfl

def bare : Surroundings :=
  ⟨⟨.directory [], []⟩, [("HOME", "/")], ⟨"host", "linux", "x86_64", "0.1.0", "::1"⟩, id⟩

def variableTest : TestDefinition :=
  ⟨"test", none, [], [("a b", .bool true)], []⟩

def isInteger (n : Int) : Option Value → Bool
  | some (.number (.integer k _ _)) => k == n
  | _ => false

/-- An integer is determined by the test for it. -/
theorem eq_of_isInteger {n : Int} {v w : Option Value} (hv : isInteger n v = true)
    (hw : isInteger n w = true) : v = w := by
  have hinteger {u : Option Value} (hu : isInteger n u = true) :
      ∃ lower upper, u = some (.number (.integer n lower upper)) := by
    unfold isInteger at hu
    split at hu
    · rename_i k lower upper
      obtain rfl : k = n := by simpa using hu
      exact ⟨lower, upper, rfl⟩
    · cases hu
  obtain ⟨lower, upper, rfl⟩ := hinteger hv
  obtain ⟨lower', upper', rfl⟩ := hinteger hw
  rfl

/-- Arguments that give a variable under two spellings, one behind the other. -/
def turningArguments : List String :=
  ["--var", "a-b=1", "-v", "--var=a_b=2"]

def givesInteger (n : Int) (name : String) : Except UsageError Request → Bool
  | .ok (.run o) => isInteger n (((runner bare o).buildScope variableTest).get? name)
  | _ => false

def assignsInteger (n : Int) (name : String) : Except AssignmentError Variables → Bool
  | .ok given => isInteger n (last? (spells name) given)
  | .error _ => false

/-- The variable that is given last has its effect, although the other spelling was there before
it. -/
theorem turningArguments_scope :
    ∃ o, Arguments.read bare.environment turningArguments = .ok (.run o) ∧
      isInteger 2 (((runner bare o).buildScope variableTest).get? "a b") = true ∧
      ∃ given : Variables,
        (Arguments.assigned turningArguments).mapM Arguments.assignment = .ok given ∧
          ¬ Overtaken given "a b" := by
  have hrun : givesInteger 2 "a b" (Arguments.read bare.environment turningArguments) = true := by
    decide +kernel
  have hlast : assignsInteger 2 "a b"
      ((Arguments.assigned turningArguments).mapM Arguments.assignment) = true := by decide +kernel
  unfold givesInteger at hrun
  split at hrun
  · rename_i o hread
    obtain ⟨given, hgiven, -, -, hrule⟩ := get?_scope bare turningArguments o hread variableTest "a b"
    rw [hgiven] at hlast
    dsimp only [assignsInteger] at hlast
    refine ⟨o, hread, hrun, given, hgiven, hrule.1 ?_⟩
    -- both values are the same integer
    apply eq_of_isInteger hrun
    cases hvalue : last? (spells "a b") given with
    | none =>
      rw [hvalue] at hlast
      cases hlast
    | some value =>
      rw [hvalue] at hlast
      exact hlast
  · cases hrun

/-- Arguments that return to the first of two spellings. -/
def returningArguments : List String :=
  ["--var", "a-b=1", "--var", "a_b=2", "--var", "a-b=3"]

/-- The variable keeps the value of its newest spelling. -/
theorem returningArguments_scope :
    (match Arguments.read bare.environment returningArguments with
      | .ok (.run o) => isInteger 2 (((runner bare o).buildScope variableTest).get? "a_b")
      | _ => false) = true ∧
    (match (Arguments.assigned returningArguments).mapM Arguments.assignment with
      | .ok given => isInteger 3 (last? (spells "a_b") given)
      | .error _ => false) = true := by
  decide +kernel

end Session

end StepScript
