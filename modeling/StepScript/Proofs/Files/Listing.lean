import StepScript.Files.System

/-!
# Listing — the entries of a directory by their paths

A directory is listed by the names of its entries, and each of them is looked up again by the path that
leads from the directory to its name.  For an ordinary name this finds the entry itself, whatever way
the path of the directory goes.

* `FilePath.fileName?_join`: the last part of such a path is the name;
* `FileTree.descend_concat`: a way into a directory goes on to its entries;
* `FileTree.IsListed` are the trees in which the names of all entries are ordinary;
* `FileSystem.find?_join` is the main result.
-/

namespace StepScript

namespace FilePath

variable {directory name : String}

/-- An ordinary name of an entry: it leads neither nowhere nor up, and is not divided by slashes. -/
structure IsOrdinary (name : String) : Prop where
  ne_empty : name ≠ ""
  ne_dot : name ≠ "."
  ne_dots : name ≠ ".."
  undivided : '/' ∉ name.toList

instance (name : String) : Decidable (IsOrdinary name) :=
  decidable_of_iff (name ≠ "" ∧ name ≠ "." ∧ name ≠ ".." ∧ '/' ∉ name.toList)
    ⟨fun ⟨hempty, hdot, hdots, hslash⟩ => ⟨hempty, hdot, hdots, hslash⟩,
      fun h => ⟨h.ne_empty, h.ne_dot, h.ne_dots, h.undivided⟩⟩

/-- A name without a slash is a path of one part. -/
theorem parts_of_undivided (h : '/' ∉ name.toList) : parts name = [name] := by
  rw [parts, List.splitOn_eq_singleton h, List.map_singleton, String.ofList_toList]

/-- The parts of two paths that a slash joins. -/
theorem parts_append (front back : String) :
    parts (front ++ "/" ++ back) = parts front ++ parts back := by
  have hsplit : (front ++ "/" ++ back).toList = front.toList ++ '/' :: back.toList := by simp
  rw [parts, hsplit, List.splitOn_append_cons_self, List.map_append]
  rfl

/-- A path that ends in a slash has an empty part behind it. -/
theorem parts_slash (front : String) : parts (front ++ "/") = parts front ++ [""] := by
  have hempty : parts "" = [""] := parts_of_undivided (by simp)
  rw [← hempty, ← parts_append, String.append_empty]

theorem exists_of_endsWith (h : directory.endsWith "/" = true) :
    ∃ front, directory = front ++ "/" := by
  rw [String.endsWith_eq_endsWith_toSlice, String.Slice.endsWith_string_iff, String.copy_toSlice] at h
  obtain ⟨front, hfront⟩ := h
  refine ⟨String.ofList front, ?_⟩
  rw [← String.toList_inj, ← hfront]
  simp

/-- A path into a directory adds a name to the path of the directory, behind a slash that may be there
already. -/
theorem join_eq (hdirectory : directory ≠ "") (name : String) :
    join directory name = directory ++ "/" ++ name ∨
      ∃ front, directory = front ++ "/" ∧ join directory name = front ++ "/" ++ name := by
  have hempty : directory.isEmpty = false := by simpa using hdirectory
  unfold join
  rw [hempty]
  by_cases hslash : directory.endsWith "/" = true
  · obtain ⟨front, rfl⟩ := exists_of_endsWith hslash
    exact .inr ⟨front, rfl, by simp [hslash]⟩
  · exact .inl (by simp [hslash])

/-- The last part of a path into a directory is the name. -/
theorem fileName?_join (directory : String) (h : IsOrdinary name) :
    fileName? (join directory name) = some name := by
  have hlast (front : List String) : ((front ++ [name]).filter fun p => p != "" && p != ".").getLast? =
      some name := by
    simp [h.ne_empty, h.ne_dot]
  have hparts : ∃ front, parts (join directory name) = front ++ [name] := by
    by_cases hdirectory : directory = ""
    · subst hdirectory
      exact ⟨[], parts_of_undivided h.undivided⟩
    · rcases join_eq hdirectory name with hjoin | ⟨front, -, hjoin⟩
      · exact ⟨parts directory, by rw [hjoin, parts_append, parts_of_undivided h.undivided]⟩
      · exact ⟨parts front, by rw [hjoin, parts_append, parts_of_undivided h.undivided]⟩
  obtain ⟨front, hparts⟩ := hparts
  unfold fileName?
  rw [hparts]
  simp only [hlast]
  simp [h.ne_dots]

end FilePath

namespace FileTree

variable {above : List FileTree} {tree found : FileTree} {entries : Table FileTree} {way : List String}
  {name : String}

/-- Go one part of a way on from a tree inside the directories above it. -/
def go (place : List FileTree × FileTree) (part : String) : Option (List FileTree × FileTree) :=
  match place.2 with
  | .directory entries =>
    if part == "" || part == "." then some place
    else if part == ".." then
      match place.1 with
      | [] => some place
      | parent :: above => some (above, parent)
    else (Table.find? entries part).map fun child => (place.2 :: place.1, child)
  | _ => none

/-- A way goes on from where its first part leads. -/
theorem descend_cons (above : List FileTree) (tree : FileTree) (part : String) (rest : List String) :
    descend above tree (part :: rest) =
      (go (above, tree) part).bind fun place => descend place.1 place.2 rest := by
  cases tree with
  | file text => cases above <;> rfl
  | closed => cases above <;> rfl
  | directory entries =>
    unfold go
    cases above with
    | nil =>
      rw [descend.eq_2]
      dsimp only
      split
      · rfl
      · split
        · rfl
        · cases Table.find? entries part <;> rfl
    | cons parent above =>
      rw [descend.eq_3]
      dsimp only
      split
      · rfl
      · split
        · rfl
        · cases Table.find? entries part <;> rfl

/-- A way goes on from where its first parts lead. -/
theorem descend_append (above : List FileTree) (tree : FileTree) (way rest : List String) :
    descend above tree (way ++ rest) =
      (way.foldlM go (above, tree)).bind fun place => descend place.1 place.2 rest := by
  induction way generalizing above tree with
  | nil => rfl
  | cons part way ih =>
    rw [List.cons_append, descend_cons, List.foldlM_cons]
    change _ = ((go (above, tree) part).bind fun place => way.foldlM go place).bind _
    rw [Option.bind_assoc]
    exact congrArg _ (funext fun place => ih place.1 place.2)

/-- Going down a way is going one part on, again and again. -/
theorem descend_eq (above : List FileTree) (tree : FileTree) (way : List String) :
    descend above tree way = (way.foldlM go (above, tree)).map Prod.snd := by
  have happend := descend_append above tree way []
  rw [List.append_nil] at happend
  rw [happend, Option.map_eq_bind]
  rfl

/-- A way into a directory goes on to its entries. -/
theorem descend_concat (h : descend above tree way = some (.directory entries))
    (hname : FilePath.IsOrdinary name) :
    descend above tree (way ++ [name]) = Table.find? entries name := by
  rw [descend_eq, Option.map_eq_some_iff] at h
  obtain ⟨⟨inside, there⟩, hway, rfl⟩ := h
  rw [descend_append, hway, Option.bind_some, descend_cons]
  unfold go
  dsimp only
  rw [if_neg (by simp [hname.ne_empty, hname.ne_dot]), if_neg (by simp [hname.ne_dots])]
  cases Table.find? entries name with
  | none => rfl
  | some child => rfl

/-- An empty part at the end of a way changes nothing. -/
theorem descend_of_slash (h : descend above tree (way ++ [""]) = some found) :
    descend above tree way = some found := by
  rw [descend_append, Option.bind_eq_some_iff] at h
  obtain ⟨⟨inside, there⟩, hway, hfound⟩ := h
  rw [descend_eq, hway, ← hfound]
  cases there with
  | directory entries => cases inside <;> rfl
  | file text => cases hfound
  | closed => cases hfound

/-! ## Listings -/

/-- The entries of a directory have different names, and all of them are ordinary. -/
structure IsListing (entries : Table FileTree) : Prop where
  once : entries.names.Nodup
  ordinary : ∀ name ∈ entries.names, FilePath.IsOrdinary name

instance (entries : Table FileTree) : Decidable (IsListing entries) :=
  decidable_of_iff (entries.names.Nodup ∧ ∀ name ∈ entries.names, FilePath.IsOrdinary name)
    ⟨fun ⟨honce, hordinary⟩ => ⟨honce, hordinary⟩, fun h => ⟨h.once, h.ordinary⟩⟩

/-- All directories in a tree have listings. -/
inductive IsListed : FileTree → Prop
  | file (text : Option String) : IsListed (.file text)
  | closed : IsListed .closed
  | directory {entries : Table FileTree} : IsListing entries → (∀ e ∈ entries, IsListed e.2) →
      IsListed (.directory entries)

theorem IsListed.isListing (h : IsListed (.directory entries)) : IsListing entries := by
  cases h with
  | directory hlisting _ => exact hlisting

/-- Every part of a way stays among directories with listings. -/
theorem IsListed.go {place next : List FileTree × FileTree} {part : String}
    (habove : ∀ outer ∈ place.1, IsListed outer) (h : IsListed place.2)
    (hgo : FileTree.go place part = some next) :
    (∀ outer ∈ next.1, IsListed outer) ∧ IsListed next.2 := by
  obtain ⟨above, tree⟩ := place
  cases h with
  | file text => cases hgo
  | closed => cases hgo
  | @directory entries hlisting hinside =>
    unfold FileTree.go at hgo
    dsimp only at hgo habove
    split at hgo
    · cases hgo
      exact ⟨habove, .directory hlisting hinside⟩
    · split at hgo
      · split at hgo
        · cases hgo
          exact ⟨habove, .directory hlisting hinside⟩
        · cases hgo
          exact ⟨fun outer houter => habove outer (List.mem_cons_of_mem _ houter),
            habove _ List.mem_cons_self⟩
      · obtain ⟨child, hchild, rfl⟩ := Option.map_eq_some_iff.1 hgo
        refine ⟨List.forall_mem_cons.2 ⟨.directory hlisting hinside, habove⟩, ?_⟩
        exact hinside (part, child) ((Table.find?_eq_some_iff hlisting.once).1 hchild)

/-- A way through a well-formed tree stays in well-formed trees, also where it goes up. -/
theorem IsListed.foldlM_go {place next : List FileTree × FileTree} {way : List String}
    (habove : ∀ outer ∈ place.1, IsListed outer) (h : IsListed place.2)
    (hgo : way.foldlM FileTree.go place = some next) : IsListed next.2 := by
  induction way generalizing place with
  | nil =>
    cases hgo
    exact h
  | cons part rest ih =>
    rw [List.foldlM_cons, Option.bind_eq_bind, Option.bind_eq_some_iff] at hgo
    obtain ⟨there, hpart, hrest⟩ := hgo
    obtain ⟨habove', hthere⟩ := IsListed.go habove h hpart
    exact ih habove' hthere hrest

end FileTree

namespace FileSystem

variable {fs : FileSystem} {directory name : String} {entries : Table FileTree}

/-- A path begins at the root or not, whatever is joined behind it. -/
theorem startsWith_append {front : String} (h : front ≠ "") (back : String) :
    (front ++ back).startsWith "/" = front.startsWith "/" := by
  rw [Bool.eq_iff_iff, String.startsWith_string_iff, String.startsWith_string_iff, String.toList_append]
  cases hfront : front.toList with
  | nil => exact absurd (String.toList_inj.1 hfront) h
  | cons c rest => simp

/-- Every path but the empty one is found on its way from the root. -/
theorem find?_of_ne {path : String} (h : path ≠ "") :
    fs.find? path = fs.root.descend [] (fs.way path) := by
  have hempty : path.isEmpty = false := by simpa using h
  rw [find?, hempty]
  rfl

/-- Whatever is found in a tree in which all directories have listings is such a tree. -/
theorem isListed_of_find? (hfs : fs.root.IsListed) {path : String} {tree : FileTree}
    (h : fs.find? path = some tree) : tree.IsListed := by
  have hpath : path ≠ "" := by
    rintro rfl
    cases h
  rw [find?_of_ne hpath, FileTree.descend_eq, Option.map_eq_some_iff] at h
  obtain ⟨place, hplace, rfl⟩ := h
  exact .foldlM_go (by simp) hfs hplace

/-- All paths that go on from a path start from the same place. -/
theorem exists_way_append (fs : FileSystem) (h : directory ≠ "") :
    ∃ base, ∀ back, fs.way (directory ++ back) = base ++ FilePath.parts (directory ++ back) := by
  by_cases hroot : directory.startsWith "/" = true
  · exact ⟨[], fun back => if_pos ((startsWith_append h back).trans hroot)⟩
  · refine ⟨fs.working, fun back => if_neg ?_⟩
    rwa [startsWith_append h]

/-- The path from a directory to an ordinary name leads to the entry of that name, if there is one. -/
theorem find?_join (h : fs.find? directory = some (.directory entries))
    (hname : FilePath.IsOrdinary name) :
    fs.find? (FilePath.join directory name) = Table.find? entries name := by
  have hdirectory : directory ≠ "" := by
    rintro rfl
    cases h
  obtain ⟨base, hbase⟩ := exists_way_append fs hdirectory
  have hthere : fs.root.descend [] (base ++ FilePath.parts directory) =
      some (.directory entries) := by
    have hway := hbase ""
    rw [String.append_empty] at hway
    rw [← hway, ← find?_of_ne hdirectory, h]
  have hundivided := FilePath.parts_of_undivided hname.undivided
  rcases FilePath.join_eq hdirectory name with hjoin | ⟨front, rfl, hjoin⟩
  · have hne : directory ++ "/" ++ name ≠ "" := by simp [hname.ne_empty]
    rw [hjoin, find?_of_ne hne, String.append_assoc, hbase, ← String.append_assoc,
      FilePath.parts_append, hundivided, ← List.append_assoc]
    exact FileTree.descend_concat hthere hname
  · -- the path of the directory has one slash more than its way needs
    rw [FilePath.parts_slash, ← List.append_assoc] at hthere
    have hne : front ++ "/" ++ name ≠ "" := by simp [hname.ne_empty]
    rw [hjoin, find?_of_ne hne, hbase, FilePath.parts_append, hundivided, ← List.append_assoc]
    exact FileTree.descend_concat (FileTree.descend_of_slash hthere) hname

end FileSystem

end StepScript
