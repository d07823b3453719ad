import Playscript.Conversion
import Playscript.Proofs.CopiedTrees

/-! # What a new role is to hold

    A role has directories of files, whose names start with that word.  Their directories are
    carried over into the new role unless they are hidden, and everything below them is wanted
    there (`Wanted`).  A role is convertible if this can be had.  It can if the place for the files
    is new and outside of the old ones (`free_of_fresh`, `apart_of_outside`), and no directory of
    files gets the name of another or of what is in `files` (`unique_of_names`).  Old and new places
    are reached by paths relative to the tree. -/

namespace Playscript

/-! ## The names of directories of files -/

/-- Replacing brings in no characters but those of the replacement. -/
theorem Text.mem_replaceFrom {old new : List Char} {c : Char} (cs : List Char) : ∀ {skip : Nat},
    c ∈ replaceFrom old new skip cs → c ∈ new ∨ c ∈ cs := by
  induction cs with
  | nil =>
      intro skip h
      rw [replaceFrom] at h
      cases h
  | cons d rest ih =>
      intro skip h
      cases skip with
      | succ skip => exact (ih h).imp_right (List.mem_cons_of_mem d)
      | zero =>
          rw [replaceFrom] at h
          split at h
          · rcases List.mem_append.mp h with hnew | hrest
            · exact .inl hnew
            · exact (ih hrest).imp_right (List.mem_cons_of_mem d)
          · rcases List.mem_cons.mp h with rfl | hrest
            · exact .inr List.mem_cons_self
            · exact (ih hrest).imp_right (List.mem_cons_of_mem d)

/-- What starts with a name, and has no slash in it, is a name: a start of `.` or `..` is none. -/
theorem Path.IsName.of_start {name longer : String} (h : Path.IsName name)
    (hstart : name.toList <+: longer.toList) (hslash : '/' ∉ longer.toList) :
    Path.IsName longer := by
  -- what starts a name of dots alone is one of the texts that are no names
  have hdots : ∀ n, longer.toList = List.replicate n '.' →
      ∃ m ≤ n, name = String.ofList (List.replicate m '.') := by
    intro n heq
    rw [heq, List.prefix_replicate_iff] at hstart
    exact ⟨_, hstart.1, by rw [← hstart.2, String.ofList_toList]⟩
  have hshort : ∀ n ≤ 2, longer.toList ≠ List.replicate n '.' := by
    intro n hn heq
    obtain ⟨m, hm, rfl⟩ := hdots n heq
    have hm : m = 0 ∨ m = 1 ∨ m = 2 := by omega
    rcases hm with rfl | rfl | rfl
    · exact h.ne_empty rfl
    · exact h.ne_dot rfl
    · exact h.ne_up rfl
  refine ⟨hslash, ?_, ?_, ?_⟩
  · rintro rfl
    exact hshort 0 (by decide) rfl
  · rintro rfl
    exact hshort 1 (by decide) rfl
  · rintro rfl
    exact hshort 2 (by decide) rfl

namespace RoleConversion

/-- The name of a directory of files starts with that word. -/
def IsFiles (name : String) : Prop :=
  "files".toList <+: name.toList

instance (name : String) : Decidable (IsFiles name) :=
  inferInstanceAs (Decidable ("files".toList <+: name.toList))

/-- The role in the place of `files` makes a name of a name. -/
theorem isName_filesName {role name : String} (hrole : Path.IsName role) (hname : Path.IsName name)
    (hfiles : IsFiles name) : Path.IsName (filesName role name) := by
  rw [filesName]
  split
  · exact hname
  · refine hrole.of_start ?_ ?_
    · obtain ⟨rest, hrest⟩ := hfiles
      rw [Text.replaceAll, String.toList_ofList, ← hrest]
      exact List.prefix_append _ _
    · rw [Text.replaceAll, String.toList_ofList]
      intro hslash
      exact (Text.mem_replaceFrom _ hslash).elim hrole.no_slash hname.no_slash

/-! ## What a role is to hold -/

/-- The place of the files of the new role. -/
def filesPlace (c : RoleConversion) : List String :=
  Path.names c.filesRoot ++ ["files"]

/-- The place that the files of a directory go to: the one for all files, or a directory in it. -/
def goalOf (c : RoleConversion) (name : String) : List String :=
  if name = "files" then c.filesPlace else c.filesPlace ++ [filesName c.name name]

/-- A directory of files has a directory in it that is not hidden. -/
structure Carries (tree : FileTree) (role : List String) (name top : String) : Prop where
  files : IsFiles name
  visible : Wildcard.isHidden top = false
  directory : tree.get? (role ++ [name, top]) = some .directory

/-- What is wanted in the new role: the directories that are carried over, with all that is below
    them, and what is around. -/
inductive Wanted (c : RoleConversion) (tree : FileTree) (role : List String) :
    List String → FileEntry → Prop
  | around {place : List String} (h : place <+: c.filesPlace) : Wanted c tree role place .directory
  | goal {name top : String} (h : Carries tree role name top) :
      Wanted c tree role (c.goalOf name) .directory
  | below {name top : String} (h : Carries tree role name top) {rest : List String}
      {entry : FileEntry} (hentry : tree.get? (role ++ name :: top :: rest) = some entry) :
      Wanted c tree role (c.goalOf name ++ top :: rest) entry

/-- A role that can be converted.  The tree is one that can be: names are names, and everything
    stands in a directory.  The role is there, and no name of its directories of files holds a sign
    of a pattern.  No two things are wanted at one place of the new role, nothing of another kind is
    in the way there, and the new role is not inside what is copied. -/
structure Convertible (c : RoleConversion) (tree : FileTree) (role : List String) : Prop where
  named : tree.WellNamed
  closed : tree.Closed
  leads : tree.follow c.directory = .ok role
  there : tree.get? role = some .directory
  plain : Wildcard.isPattern c.directory = false
  plain_files : ∀ name, IsFiles name → tree.get? (role ++ [name]) ≠ none →
    Wildcard.isPattern name = false
  name : Path.IsName c.name
  own : ∀ name, IsFiles name → name ≠ "files" → tree.get? (role ++ [name]) ≠ none →
    filesName c.name name ≠ "files"
  relative : Path.isAbsolute c.filesRoot = false
  upless : ".." ∉ Path.names c.filesRoot
  unique : ∀ {place entry entry'}, c.Wanted tree role place entry →
    c.Wanted tree role place entry' → entry = entry'
  free : ∀ {place entry found}, c.Wanted tree role place entry → tree.get? place = some found →
    (found = .directory ↔ entry = .directory)
  apart : ∀ {name place entry}, IsFiles name → c.Wanted tree role place entry →
    ¬ role ++ [name] <+: place

section Convertible

variable {c : RoleConversion} {tree : FileTree} {role : List String}

theorem Carries.isName {name top : String} (hcarries : Carries tree role name top)
    (h : Convertible c tree role) : Path.IsName top :=
  h.named.isName_of_get? (FileTree.there_of_get? hcarries.directory) top (by simp)

/-- A directory of files that is carried over is a directory, as something is in it. -/
theorem Carries.inside {name top : String} (hcarries : Carries tree role name top)
    (h : Convertible c tree role) : tree.get? (role ++ [name]) = some .directory := by
  refine h.closed _ top ?_
  rw [List.append_assoc]
  exact FileTree.there_of_get? hcarries.directory

theorem Carries.isName_files {name top : String} (hcarries : Carries tree role name top)
    (h : Convertible c tree role) : Path.IsName name :=
  h.named.isName_of_get? (FileTree.there_of_get? hcarries.directory) name (by simp)

/-- What stands around something wanted is wanted as a directory: by cases, it is on the way to the
    place for files, or it is a goal, or it has a source in which it stands. -/
theorem wanted_outer (hclosed : tree.Closed) {place : List String} {name : String}
    {entry : FileEntry} (h : c.Wanted tree role (place ++ [name]) entry) :
    c.Wanted tree role place .directory := by
  generalize hplace : place ++ [name] = whole at h
  have hfront : place <+: whole := hplace ▸ List.prefix_append place [name]
  cases h with
  | around hwhole => exact .around (hfront.trans hwhole)
  | goal h =>
      refine .around ?_
      rw [goalOf] at hplace hfront
      split at hplace
      · rwa [if_pos ‹_›] at hfront
      · obtain ⟨rfl, -⟩ := List.append_inj' hplace rfl
        exact List.prefix_refl _
  | @below top first h rest entry hentry =>
      cases rest using List.reverseRecOn with
      | nil =>
          rw [(List.append_inj' hplace rfl).1]
          exact .goal h
      | append_singleton front last =>
          rw [← List.cons_append, ← List.append_assoc] at hplace
          rw [(List.append_inj' hplace rfl).1]
          refine .below h (hclosed _ last ?_)
          rw [List.append_assoc]
          exact FileTree.there_of_get? hentry

namespace Convertible

/-- What a convertible role wants can be had. -/
theorem meetable (h : Convertible c tree role) : tree.Meetable (c.Wanted tree role) where
  unique := h.unique
  outer := wanted_outer h.closed
  free := h.free

/-- Nothing is wanted inside the directories of files themselves. -/
theorem not_wanted (h : Convertible c tree role) {name : String} (hname : IsFiles name)
    (rest : List String) (entry : FileEntry) :
    ¬ c.Wanted tree role (role ++ name :: rest) entry := by
  intro hwanted
  exact h.apart hname hwanted ⟨rest, List.append_assoc _ _ _⟩

/-- What is in the directories of files stays as it is. -/
theorem get?_source (h : Convertible c tree role) {now : FileTree}
    (hmeets : FileTree.Meets (c.Wanted tree role) tree now) {name : String} (hname : IsFiles name)
    (rest : List String) : now.get? (role ++ name :: rest) = tree.get? (role ++ name :: rest) :=
  hmeets.elsewhere (h.not_wanted hname rest)

/-- A directory that is carried over can be copied, also when others have been copied before. -/
theorem portable (h : Convertible c tree role) {now : FileTree}
    (hmeets : FileTree.Meets (c.Wanted tree role) tree now) {name top : String}
    (hcarries : Carries tree role name top) :
    now.Portable (c.Wanted tree role) (role ++ [name, top]) (c.goalOf name ++ [top])
      (now.entries.length + 1) := by
  have hsame : ∀ q, now.get? (role ++ [name, top] ++ q) = tree.get? (role ++ name :: top :: q) := by
    intro q
    rw [List.append_assoc]
    exact h.get?_source hmeets hcarries.files (top :: q)
  constructor
  · intro q entry hq
    rw [hsame] at hq
    rw [List.append_assoc]
    exact .below hcarries hq
  · intro q entry
    rw [List.append_assoc]
    exact h.not_wanted hcarries.files (top :: q) entry
  · intro q last hq
    rw [List.append_assoc, hsame] at hq
    exact h.named.isName_of_get? hq last (by simp)
  · intro q last hq
    rw [List.append_assoc, hsame] at hq
    rw [hsame]
    refine h.closed _ last ?_
    rwa [List.append_assoc]
  · intro q hq
    rw [List.append_assoc] at hq
    have hlength : (role ++ ([name, top] ++ q)).length ≤ now.entries.length := by
      refine FileTree.length_le_entries fun way hway => ?_
      by_cases hend : way = role ++ ([name, top] ++ q)
      · rwa [hend]
      · -- the directories on the way stay directories
        have hthere : tree.get? (role ++ ([name, top] ++ q)) ≠ none :=
          h.get?_source hmeets hcarries.files (top :: q) ▸ hq
        exact FileTree.there_of_get?
          (hmeets.directories h.meetable way (h.closed.directory hthere way hway hend))
    rw [List.length_append, List.length_append] at hlength
    omega

/-- The path for a directory of files leads straight down to its goal. -/
theorem down_filesTarget (h : Convertible c tree role) {name : String} (hfiles : IsFiles name)
    (hname : Path.IsName name) : Path.Down (c.filesTarget name) (c.goalOf name) := by
  have hdown : Path.Down (Path.join c.filesRoot "files") c.filesPlace :=
    Path.down_join h.relative h.upless (by decide)
  rw [filesTarget, goalOf]
  split
  · exact hdown
  · exact hdown.join (isName_filesName h.name hname hfiles)

end Convertible

end Convertible

/-! ## Roles that can be converted -/

section Fresh

variable {c : RoleConversion} {tree : FileTree} {role : List String}

/-- All that is wanted lies on the way to the place for files or below it. -/
theorem wanted_place {place : List String} {entry : FileEntry}
    (h : c.Wanted tree role place entry) :
    (place <+: c.filesPlace ∧ entry = .directory) ∨ c.filesPlace <+: place := by
  have hgoal : ∀ name, c.filesPlace <+: c.goalOf name := by
    intro name
    rw [goalOf]
    split
    · exact List.prefix_refl _
    · exact List.prefix_append _ _
  cases h with
  | around h => exact .inl ⟨h, rfl⟩
  | goal h => exact .inr (hgoal _)
  | below h hentry => exact .inr ((hgoal _).trans (List.prefix_append _ _))

/-- Nothing is in the way if the place for the files is new. -/
theorem free_of_fresh (hfresh : ∀ place, c.filesPlace <+: place → tree.get? place = none)
    (hway : ∀ q, q <+: c.filesPlace → ∀ content, tree.get? q ≠ some (.file content))
    {place : List String} {entry found : FileEntry} (h : c.Wanted tree role place entry)
    (hfound : tree.get? place = some found) : found = .directory ↔ entry = .directory := by
  rcases wanted_place h with ⟨hplace, rfl⟩ | hplace
  · cases found with
    | directory => exact Iff.rfl
    | file content => exact absurd hfound (hway place hplace content)
  · rw [hfresh place hplace] at hfound
    cases hfound

/-- The new role is outside of what is copied if neither is inside the other. -/
theorem apart_of_outside
    (houtside : ∀ name, IsFiles name →
      ¬ role ++ [name] <+: c.filesPlace ∧ ¬ c.filesPlace <+: role ++ [name])
    {name : String} {place : List String} {entry : FileEntry} (hname : IsFiles name)
    (h : c.Wanted tree role place entry) : ¬ role ++ [name] <+: place := by
  obtain ⟨hinside, haround⟩ := houtside name hname
  intro hplace
  rcases wanted_place h with ⟨hfront, -⟩ | hfront
  · exact hinside (hplace.trans hfront)
  · exact (List.prefix_or_prefix_of_prefix hplace hfront).elim hinside haround

/-- The goal of a directory is the place for files, or one level below. -/
theorem length_goalOf (c : RoleConversion) (name : String) :
    c.filesPlace.length ≤ (c.goalOf name).length ∧
      (c.goalOf name).length ≤ c.filesPlace.length + 1 := by
  rw [goalOf]
  split
  · exact ⟨Nat.le_refl _, Nat.le_succ _⟩
  · rw [List.length_append]
    exact ⟨Nat.le_add_right _ _, Nat.le_refl _⟩

/-- What is wanted is a directory not far below the place for files, or has a source. -/
theorem wanted_cases {place : List String} {entry : FileEntry}
    (h : c.Wanted tree role place entry) :
    (entry = .directory ∧ place.length ≤ c.filesPlace.length + 1) ∨
      ∃ name top rest, Carries tree role name top ∧ place = c.goalOf name ++ top :: rest ∧
        tree.get? (role ++ name :: top :: rest) = some entry := by
  cases h with
  | around h => exact .inl ⟨rfl, Nat.le_succ_of_le h.length_le⟩
  | goal h => exact .inl ⟨rfl, (length_goalOf c _).2⟩
  | below h hentry => exact .inr ⟨_, _, _, h, rfl, hentry⟩

/-- What has a source and is not far below is a directory. -/
theorem entry_of_shallow {name top : String} {rest : List String} {entry : FileEntry}
    (hcarries : Carries tree role name top)
    (hentry : tree.get? (role ++ name :: top :: rest) = some entry)
    (hlength : (c.goalOf name ++ top :: rest).length ≤ c.filesPlace.length + 1) :
    entry = .directory := by
  have hgoal := (length_goalOf c name).1
  rw [List.length_append, List.length_cons] at hlength
  obtain rfl : rest = [] := List.length_eq_zero_iff.mp (by omega)
  exact Option.some.inj (hentry.symm.trans hcarries.directory)

section Names

variable (hnames : ∀ name top name' top', Carries tree role name top →
  Carries tree role name' top' → name ≠ name' → filesName c.name name ≠ filesName c.name name' ∧
    (name = "files" → top ≠ filesName c.name name'))

include hnames

/-- Two directories of files do not meet at one place: the names that they get differ, and none of
    them is that of a directory in `files`. -/
theorem name_eq_of_goal {name top name' top' : String} {rest rest' : List String}
    (h : Carries tree role name top) (h' : Carries tree role name' top')
    (hgoal : c.goalOf name ++ top :: rest = c.goalOf name' ++ top' :: rest') : name = name' := by
  by_contra hne
  obtain ⟨hown, hfiles⟩ := hnames _ _ _ _ h h' hne
  obtain ⟨-, hfiles'⟩ := hnames _ _ _ _ h' h (Ne.symm hne)
  simp only [goalOf] at hgoal
  by_cases hname : name = "files" <;> by_cases hname' : name' = "files"
  · exact hne (hname.trans hname'.symm)
  · simp [hname, hname'] at hgoal
    exact hfiles hname hgoal.1
  · simp [hname, hname'] at hgoal
    exact hfiles' hname' hgoal.1.symm
  · simp [hname, hname'] at hgoal
    exact hown hgoal.1

/-- No two things are wanted at one place if the directories of files get names of their own, which
    no directory in `files` has. -/
theorem unique_of_names {place : List String} {entry entry' : FileEntry}
    (h : c.Wanted tree role place entry) (h' : c.Wanted tree role place entry') :
    entry = entry' := by
  rcases wanted_cases h with ⟨rfl, hlength⟩ | ⟨name, top, rest, hcarries, rfl, hentry⟩
  · rcases wanted_cases h' with ⟨rfl, -⟩ | ⟨name, top, rest, hcarries, rfl, hentry⟩
    · rfl
    · exact (entry_of_shallow hcarries hentry hlength).symm
  · rcases wanted_cases h' with ⟨rfl, hlength⟩ | ⟨name', top', rest', hcarries', hgoal, hentry'⟩
    · exact entry_of_shallow hcarries hentry hlength
    · obtain rfl := name_eq_of_goal hnames hcarries hcarries' hgoal
      rw [← List.append_cancel_left hgoal] at hentry'
      exact Option.some.inj (hentry.symm.trans hentry')

end Names

end Fresh

/-! ## A role with files of all kinds -/

/-- A role with files of all kinds: in a directory of files itself, below a hidden directory, and
    below visible ones, for the role and for a part of it. -/
def mixedRole : FileTree :=
  ⟨[(["roles"], .directory), (["roles", "foo"], .directory),
    (["roles", "foo", "files"], .directory),
    (["roles", "foo", "files", "top"], .file "T".toUTF8),
    (["roles", "foo", "files", ".ssh"], .directory),
    (["roles", "foo", "files", ".ssh", "key"], .file "K".toUTF8),
    (["roles", "foo", "files", "etc"], .directory),
    (["roles", "foo", "files", "etc", ".x"], .file "X".toUTF8),
    (["roles", "foo", "files.a"], .directory),
    (["roles", "foo", "files.a", "usr"], .directory),
    (["roles", "foo", "files.a", "usr", "y"], .file "Y".toUTF8)]⟩

/-- The conversion of that role. -/
def mixedConversion : RoleConversion where
  directory := "roles/foo"
  outputDirectory := "out/roles/foo"
  name := "foo"
  filesRoot := "out/roles/foo"
  config := []

/-- What is in that role, one by one. -/
theorem mixedRole_names {rest : List String}
    (h : mixedRole.get? (["roles", "foo"] ++ rest) ≠ none) (hne : rest ≠ []) :
    rest ∈ [["files"], ["files", "top"], ["files", ".ssh"], ["files", ".ssh", "key"],
      ["files", "etc"], ["files", "etc", ".x"], ["files.a"], ["files.a", "usr"],
      ["files.a", "usr", "y"]] := by
  have hmem := (FileTree.mem_places_iff (by simp)).mpr h
  simpa [mixedRole, hne] using hmem

/-- Two directories of it are carried over. -/
theorem mixedRole_carries {name top : String}
    (h : Carries mixedRole ["roles", "foo"] name top) :
    (name = "files" ∧ top = "etc") ∨ (name = "files.a" ∧ top = "usr") := by
  obtain ⟨-, hvisible, hdirectory⟩ := h
  have hmem := mixedRole_names (FileTree.there_of_get? hdirectory) (by simp)
  simp at hmem
  rcases hmem with ⟨rfl, rfl⟩ | ⟨rfl, rfl⟩ | hetc | husr
  · cases hdirectory
  · cases hvisible
  · exact .inl hetc
  · exact .inr husr

theorem mixedRole_isFiles {name : String} (h : mixedRole.get? (["roles", "foo"] ++ [name]) ≠ none) :
    name = "files" ∨ name = "files.a" := by
  simpa using mixedRole_names h (by simp)

/-- Nothing stands in the output. -/
theorem mixedRole_out (rest : List String) : mixedRole.get? ("out" :: rest) = none := by
  by_contra h
  have hmem := (FileTree.mem_places_iff (List.cons_ne_nil "out" rest)).mpr h
  simp [mixedRole] at hmem

theorem mixedConversion_filesPlace :
    mixedConversion.filesPlace = ["out", "roles", "foo", "files"] := by
  decide +kernel

/-- What that conversion asks of a tree in which nothing stands where the new role goes. -/
theorem mixedConversion_convertible {tree : FileTree} (hnamed : tree.WellNamed)
    (hclosed : tree.Closed) (hleads : tree.follow mixedConversion.directory = .ok ["roles", "foo"])
    (hthere : tree.get? ["roles", "foo"] = some .directory)
    (hout : ∀ rest, tree.get? ("out" :: rest) = none)
    (hfiles : ∀ name, tree.get? (["roles", "foo"] ++ [name]) ≠ none →
      Wildcard.isPattern name = false ∧
        (name ≠ "files" → filesName mixedConversion.name name ≠ "files"))
    (hnames : ∀ name top name' top', Carries tree ["roles", "foo"] name top →
      Carries tree ["roles", "foo"] name' top' → name ≠ name' →
      filesName mixedConversion.name name ≠ filesName mixedConversion.name name' ∧
        (name = "files" → top ≠ filesName mixedConversion.name name')) :
    Convertible mixedConversion tree ["roles", "foo"] where
  named := hnamed
  closed := hclosed
  leads := hleads
  there := hthere
  plain := by decide +kernel
  plain_files name _ h := (hfiles name h).1
  name := by decide +kernel
  own name _ hne h := (hfiles name h).2 hne
  relative := by decide +kernel
  upless := by decide +kernel
  unique := unique_of_names hnames
  free := by
    refine free_of_fresh (fun place hplace => ?_) fun q hq content hfile => ?_
    · rw [mixedConversion_filesPlace] at hplace
      obtain ⟨rest, rfl⟩ := hplace
      exact hout _
    · rw [mixedConversion_filesPlace] at hq
      cases q with
      | nil => cases hfile
      | cons first rest =>
          rw [(List.cons_prefix_cons.mp hq).1, hout] at hfile
          cases hfile
  apart := by
    refine apart_of_outside fun name _ => ?_
    rw [mixedConversion_filesPlace]
    simp [List.cons_prefix_cons]

/-- So the role is convertible. -/
theorem mixedRole_convertible : Convertible mixedConversion mixedRole ["roles", "foo"] := by
  refine mixedConversion_convertible ?_ ?_ ?_ rfl mixedRole_out ?_ ?_
  · unfold FileTree.WellNamed
    decide +kernel
  · refine FileTree.closed_of_entries fun known hknown => ?_
    simp only [mixedRole, List.mem_cons, List.not_mem_nil, or_false] at hknown
    rcases hknown with rfl | rfl | rfl | rfl | rfl | rfl | rfl | rfl | rfl | rfl | rfl <;> rfl
  · decide +kernel
  · intro name h
    rcases mixedRole_isFiles h with rfl | rfl <;> decide +kernel
  · intro name top name' top' h h' hne
    rcases mixedRole_carries h with ⟨rfl, rfl⟩ | ⟨rfl, rfl⟩ <;>
      rcases mixedRole_carries h' with ⟨rfl, rfl⟩ | ⟨rfl, rfl⟩
    · exact absurd rfl hne
    · decide +kernel
    · decide +kernel
    · exact absurd rfl hne

end RoleConversion

end Playscript
