import Mathlib.Data.List.Basic
import Playscript.FileTree
import Playscript.Proofs.Matching
import Playscript.Proofs.Runs
import Playscript.World

/-! # Following paths and writing files

    A path is followed through directories, so where it leads hangs on the directories of a
    tree alone (`Leads.mono`), and a path that ends in a name leads to that name in the directory
    that the front of the path leads to (`leads_join`).  Writing a file sets one place
    (`write_ok_iff`), and making directories puts directories where nothing was
    (`makeDirectories_adds`).  All paths are relative to the tree: one from the root leads
    nowhere. -/

namespace Playscript

/-! ## The names of a path -/

namespace Path

/-- A path in front of another one: the characters of the other stand behind a slash. -/
theorem toList_join {outer inner : String} (hinner : isAbsolute inner = false)
    (houter : outer ≠ "") : ∃ front, (outer.toList = front ∨ outer.toList = front ++ ['/']) ∧
      (join outer inner).toList = front ++ '/' :: inner.toList := by
  have hempty : outer.isEmpty = false := by
    rw [← Bool.not_eq_true, String.isEmpty_iff]
    exact houter
  by_cases hslash : endsInSlash outer = true
  · obtain ⟨front, hfront⟩ := List.getLast?_eq_some_iff.mp (beq_iff_eq.mp hslash)
    refine ⟨front, .inr hfront, ?_⟩
    simp [join, hinner, hslash, hfront]
  · refine ⟨outer.toList, .inl rfl, ?_⟩
    simp [join, hinner, hslash, hempty]

/-- In front of a relative path the empty one adds no slash. -/
theorem join_empty {inner : String} (h : isAbsolute inner = false) : join "" inner = inner := by
  simp [join, h]

/-- It is the path in front that tells whether a path starts at the root. -/
theorem isAbsolute_join {inner : String} (h : isAbsolute inner = false) (outer : String) :
    isAbsolute (join outer inner) = isAbsolute outer := by
  by_cases houter : outer = ""
  · rw [houter, join_empty h, h]
    rfl
  · obtain ⟨front, hfront, hjoin⟩ := toList_join h houter
    rw [isAbsolute, isAbsolute, hjoin]
    cases front with
    | nil =>
        rcases hfront with hfront | hfront
        · exact absurd (String.toList_eq_nil_iff.mp hfront) houter
        · rw [hfront]
          rfl
    | cons c front => rcases hfront with hfront | hfront <;> rw [hfront] <;> rfl

/-- The names of a path inside another one come behind the names of the other. -/
theorem names_join {inner : String} (h : isAbsolute inner = false) (outer : String) :
    names (join outer inner) = names outer ++ names inner := by
  by_cases houter : outer = ""
  · rw [houter, join_empty h]
    rfl
  · obtain ⟨front, hfront, hjoin⟩ := toList_join h houter
    have hnames : names outer = (((Text.splitOnChar '/' front).map String.ofList).filter
        fun name => name != "" && name != ".") := by
      rcases hfront with hfront | hfront
      · rw [names, segments, hfront]
      · -- the slash at the end makes one gap more, which is no name
        rw [names, segments, hfront, Text.splitOnChar_append_mark, List.map_append,
          List.filter_append]
        exact List.append_nil _
    rw [hnames, names, segments, hjoin, Text.splitOnChar_append_mark, List.map_append,
      List.filter_append]
    rfl

/-- Whatever it is put behind, a path that is not empty stays so. -/
theorem join_ne_empty {inner : String} (hinner : isAbsolute inner = false) (h : inner ≠ "")
    (outer : String) : join outer inner ≠ "" := by
  by_cases houter : outer = ""
  · rw [houter, join_empty hinner]
    exact h
  · obtain ⟨front, -, hjoin⟩ := toList_join hinner houter
    intro hempty
    rw [hempty] at hjoin
    simp at hjoin

/-- A name that can stand in a directory. -/
structure IsName (name : String) : Prop where
  no_slash : '/' ∉ name.toList
  ne_empty : name ≠ ""
  ne_dot : name ≠ "."
  ne_up : name ≠ ".."

instance (name : String) : Decidable (IsName name) :=
  decidable_of_iff ('/' ∉ name.toList ∧ name ≠ "" ∧ name ≠ "." ∧ name ≠ "..")
    ⟨fun ⟨hslash, hempty, hdot, hup⟩ => ⟨hslash, hempty, hdot, hup⟩,
      fun h => ⟨h.no_slash, h.ne_empty, h.ne_dot, h.ne_up⟩⟩

namespace IsName

variable {name : String}

/-- A name is the only one in its own path. -/
theorem names_eq (h : IsName name) : names name = [name] := by
  rw [names, segments, Text.splitOnChar_of_not_mem h.no_slash, List.map_singleton,
    String.ofList_toList]
  simp [h.ne_empty, h.ne_dot]

theorem not_absolute (h : IsName name) : isAbsolute name = false := by
  rw [isAbsolute, beq_eq_false_iff_ne]
  intro hhead
  exact h.no_slash (List.mem_of_head? hhead)

/-- A path that ends in a name does not ask for a directory. -/
theorem not_endsInSlash (h : IsName name) (outer : String) :
    endsInSlash (join outer name) = false := by
  have hname : name.toList ≠ [] := fun hnil => h.ne_empty (String.toList_eq_nil_iff.mp hnil)
  have hlast : (join outer name).toList.getLast? = name.toList.getLast? := by
    by_cases houter : outer = ""
    · rw [houter, join_empty h.not_absolute]
    · obtain ⟨front, -, hjoin⟩ := toList_join h.not_absolute houter
      rw [hjoin, List.getLast?_append_of_ne_nil _ (List.cons_ne_nil _ _),
        List.getLast?_cons_of_ne_nil hname]
  rw [endsInSlash, hlast, beq_eq_false_iff_ne]
  intro hslash
  exact h.no_slash (List.mem_of_getLast? hslash)

end IsName

end Path

/-! ## Places of a tree -/

namespace FileTree

/-- The entry that was set is the one that is found, be it new or in the place of another. -/
theorem lookup_setEntry_self (entries : List (List String × FileEntry)) (place : List String)
    (entry : FileEntry) : (setEntry entries place entry).lookup place = some entry := by
  induction entries with
  | nil => simp [setEntry]
  | cons known rest ih =>
      by_cases h : known.1 = place
      · simp [setEntry, h]
      · rw [setEntry, if_neg h, List.lookup_cons, beq_eq_false_iff_ne.mpr (Ne.symm h)]
        exact ih

/-- All other entries are found as before. -/
theorem lookup_setEntry_of_ne (entries : List (List String × FileEntry)) {place other : List String}
    (entry : FileEntry) (h : other ≠ place) :
    (setEntry entries place entry).lookup other = entries.lookup other := by
  induction entries with
  | nil => rw [setEntry, List.lookup_cons, beq_eq_false_iff_ne.mpr h]
  | cons known rest ih =>
      by_cases hknown : known.1 = place
      · have hother : (other == known.1) = false := beq_eq_false_iff_ne.mpr (hknown ▸ h)
        rw [setEntry, if_pos hknown, List.lookup_cons, List.lookup_cons, hother,
          beq_eq_false_iff_ne.mpr h]
      · rw [setEntry, if_neg hknown, List.lookup_cons, List.lookup_cons, ih]

/-- The directory of the tree is always there. -/
@[simp] theorem get?_nil (tree : FileTree) : tree.get? [] = some .directory := rfl

theorem there_of_get? {tree : FileTree} {place : List String} {entry : FileEntry}
    (h : tree.get? place = some entry) : tree.get? place ≠ none :=
  h ▸ Option.some_ne_none entry

/-- Setting a place puts the entry there; the directory of the tree itself cannot be set. -/
theorem get?_set_self (tree : FileTree) {place : List String} (h : place ≠ []) (entry : FileEntry) :
    (tree.set place entry).get? place = some entry := by
  rw [get?, if_neg (by simpa using h)]
  exact lookup_setEntry_self _ _ _

/-- Every other place is as it was. -/
theorem get?_set_of_ne (tree : FileTree) {place other : List String} (entry : FileEntry)
    (h : other ≠ place) : (tree.set place entry).get? other = tree.get? other := by
  rw [get?, get?]
  split
  · rfl
  · exact lookup_setEntry_of_ne _ _ h

/-! ## Following names -/

/-- A name is followed in a directory. -/
theorem followFrom_cons_ok_iff {tree : FileTree} {place goal : List String} {name : String}
    {rest : List String} : tree.followFrom place (name :: rest) = .ok goal ↔
      tree.get? place = some .directory ∧
      tree.followFrom (if name == ".." then place.dropLast else place ++ [name]) rest
        = .ok goal := by
  rw [followFrom]
  cases tree.get? place with
  | none => simp
  | some entry => cases entry <;> simp

/-- Names in a row are followed up to a place in between, and from there on. -/
theorem followFrom_append_ok_iff {tree : FileTree} {names more : List String} :
    ∀ {place goal : List String}, tree.followFrom place (names ++ more) = .ok goal ↔
      ∃ p, tree.followFrom place names = .ok p ∧ tree.followFrom p more = .ok goal := by
  induction names with
  | nil => intro place goal; simp [followFrom]
  | cons name rest ih =>
      intro place goal
      simp only [List.cons_append, followFrom_cons_ok_iff, ih]
      constructor
      · rintro ⟨hplace, p, hrest, hmore⟩
        exact ⟨p, ⟨hplace, hrest⟩, hmore⟩
      · rintro ⟨p, ⟨hplace, hrest⟩, hmore⟩
        exact ⟨hplace, p, hrest, hmore⟩

/-- Where names lead hangs on the directories of a tree alone. -/
theorem followFrom_mono {tree tree' : FileTree}
    (h : ∀ place, tree.get? place = some .directory → tree'.get? place = some .directory)
    {names : List String} : ∀ {place goal : List String},
      tree.followFrom place names = .ok goal → tree'.followFrom place names = .ok goal := by
  induction names with
  | nil => intro place goal hgoal; exact hgoal
  | cons name rest ih =>
      intro place goal hgoal
      rw [followFrom_cons_ok_iff] at hgoal ⊢
      exact ⟨h place hgoal.1, ih hgoal.2⟩

/-- The place that a path leads to through directories. -/
def Leads (tree : FileTree) (path : String) (place : List String) : Prop :=
  Path.isAbsolute path = false ∧ tree.followFrom [] (Path.names path) = .ok place

/-- The empty path leads nowhere, although it has no names; else following a path is being led. -/
theorem follow_ok_iff {tree : FileTree} {path : String} {place : List String} :
    tree.follow path = .ok place ↔ path ≠ "" ∧ tree.Leads path place := by
  rw [follow, Leads]
  by_cases hpath : path = ""
  · simp [hpath]
  · cases Path.isAbsolute path <;> simp [hpath]

/-- A path leads to one place. -/
theorem Leads.unique {tree : FileTree} {path : String} {place place' : List String}
    (h : tree.Leads path place) (h' : tree.Leads path place') : place = place' :=
  Except.ok.inj (h.2.symm.trans h'.2)

/-- More directories do not change where a path leads. -/
theorem Leads.mono {tree tree' : FileTree} {path : String} {place : List String}
    (h : tree.Leads path place)
    (directories : ∀ place, tree.get? place = some .directory → tree'.get? place = some .directory) :
    tree'.Leads path place :=
  ⟨h.1, followFrom_mono directories h.2⟩

/-- Nor where it is followed to. -/
theorem follow_mono {tree tree' : FileTree} {path : String} {place : List String}
    (h : tree.follow path = .ok place)
    (directories : ∀ place, tree.get? place = some .directory → tree'.get? place = some .directory) :
    tree'.follow path = .ok place := by
  obtain ⟨hpath, hleads⟩ := follow_ok_iff.mp h
  exact follow_ok_iff.mpr ⟨hpath, hleads.mono directories⟩

/-- A path that ends in a name leads to it in the directory that its front leads to. -/
theorem leads_join {tree : FileTree} {outer name : String} {place : List String}
    (hname : Path.IsName name) : tree.Leads (Path.join outer name) place ↔
      ∃ p, tree.Leads outer p ∧ tree.get? p = some .directory ∧ place = p ++ [name] := by
  have hup : (name == "..") = false := beq_eq_false_iff_ne.mpr hname.ne_up
  simp only [Leads, Path.isAbsolute_join hname.not_absolute, Path.names_join hname.not_absolute,
    hname.names_eq, followFrom_append_ok_iff, followFrom_cons_ok_iff, hup]
  constructor
  · rintro ⟨hrelative, p, hp, hdirectory, hplace⟩
    exact ⟨p, ⟨hrelative, hp⟩, hdirectory, (Except.ok.inj hplace).symm⟩
  · rintro ⟨p, ⟨hrelative, hp⟩, hdirectory, rfl⟩
    exact ⟨hrelative, p, hp, hdirectory, rfl⟩

/-- The same of following: a path that ends in a name is not empty. -/
theorem follow_join_ok_iff {tree : FileTree} {outer name : String} {place : List String}
    (hname : Path.IsName name) : tree.follow (Path.join outer name) = .ok place ↔
      ∃ p, tree.Leads outer p ∧ tree.get? p = some .directory ∧ place = p ++ [name] := by
  rw [follow_ok_iff, leads_join hname]
  exact and_iff_right (Path.join_ne_empty hname.not_absolute hname.ne_empty outer)

/-- A file is read at the place that its path leads to. -/
theorem read_of_follow {tree : FileTree} {path : String} {place : List String} {content : ByteArray}
    (h : tree.follow path = .ok place) (hslash : Path.endsInSlash path = false)
    (hplace : tree.get? place = some (.file content)) : tree.read path = .ok content := by
  simp [read, find, h, hplace, hslash, bind, Except.bind, pure, Except.pure]

/-- What can be read is somewhere. -/
theorem follow_of_read {tree : FileTree} {path : String} {content : ByteArray}
    (h : tree.read path = .ok content) : ∃ place, tree.follow path = .ok place := by
  cases hfollow : tree.follow path with
  | ok place => exact ⟨place, rfl⟩
  | error f => simp [read, find, hfollow, bind, Except.bind] at h

/-- What is read hangs on the place that the path leads to. -/
theorem read_congr {tree tree' : FileTree} {path : String} {place : List String}
    (h : tree.follow path = .ok place) (h' : tree'.follow path = .ok place)
    (hplace : tree'.get? place = tree.get? place) : tree'.read path = tree.read path := by
  simp only [read, find, h, h', hplace, bind, Except.bind]

/-- What is there is somewhere. -/
theorem follow_of_exists {tree : FileTree} {path : String} (h : tree.exists? path = true) :
    ∃ place, tree.follow path = .ok place := by
  cases hfollow : tree.follow path with
  | ok place => exact ⟨place, rfl⟩
  | error f => simp [exists?, find, hfollow, bind, Except.bind] at h

/-- Something at the place is there for the path, unless the path ends in a slash. -/
theorem exists_of_follow {tree : FileTree} {path : String} {place : List String} {entry : FileEntry}
    (h : tree.follow path = .ok place) (hslash : Path.endsInSlash path = false)
    (hplace : tree.get? place = some entry) : tree.exists? path = true := by
  cases entry <;>
    simp [exists?, find, h, hplace, hslash, bind, Except.bind, pure, Except.pure]

/-! ## Files at places -/

/-- The content of the file at a place. -/
def contentAt (tree : FileTree) (place : List String) : Option ByteArray :=
  match tree.get? place with
  | some (.file content) => some content
  | _ => none

/-- The content hangs on the entry at the place alone. -/
theorem contentAt_congr {tree tree' : FileTree} {place : List String}
    (h : tree'.get? place = tree.get? place) : tree'.contentAt place = tree.contentAt place := by
  rw [contentAt, contentAt, h]

/-- The directories of two trees are the same. -/
def SameDirectories (tree tree' : FileTree) : Prop :=
  ∀ place, tree'.get? place = some .directory ↔ tree.get? place = some .directory

/-- With the same directories all paths lead to the same places. -/
theorem SameDirectories.follow {tree tree' : FileTree} (h : SameDirectories tree tree')
    {path : String} {place : List String} (hfollow : tree.follow path = .ok place) :
    tree'.follow path = .ok place := by
  rw [follow_ok_iff] at hfollow ⊢
  exact ⟨hfollow.1, hfollow.2.mono fun place => (h place).mpr⟩

theorem SameDirectories.symm {tree tree' : FileTree} (h : SameDirectories tree tree') :
    SameDirectories tree' tree :=
  fun place => (h place).symm

theorem SameDirectories.trans {t u v : FileTree} (h : SameDirectories t u)
    (h' : SameDirectories u v) : SameDirectories t v :=
  fun place => (h' place).trans (h place)

/-- A file that takes the place of no directory leaves the directories as they are. -/
theorem sameDirectories_set {tree : FileTree} {place : List String} (content : ByteArray)
    (h : tree.get? place ≠ some .directory) :
    SameDirectories tree (tree.set place (.file content)) := by
  have hne : place ≠ [] := by
    rintro rfl
    exact h rfl
  intro other
  by_cases hother : other = place
  · rw [hother, tree.get?_set_self hne]
    exact iff_of_false (fun hfile => by cases hfile) h
  · rw [tree.get?_set_of_ne _ hother]

/-- A tree with files written to places one after the other. -/
def setFiles (tree : FileTree) (files : List (List String × ByteArray)) : FileTree :=
  files.foldl (fun tree file => tree.set file.1 (.file file.2)) tree

/-- Files in two lists, one after the other. -/
theorem setFiles_append (tree : FileTree) (files more : List (List String × ByteArray)) :
    tree.setFiles (files ++ more) = (tree.setFiles files).setFiles more :=
  List.foldl_append

/-- A place of none of the files is as it was. -/
theorem get?_setFiles_of_not_mem {place : List String} (files : List (List String × ByteArray))
    (h : place ∉ files.map Prod.fst) :
    ∀ tree : FileTree, (tree.setFiles files).get? place = tree.get? place := by
  induction files with
  | nil => intro tree; rfl
  | cons file rest ih =>
      intro tree
      rw [List.map_cons, List.mem_cons, not_or] at h
      show ((tree.set file.1 (.file file.2)).setFiles rest).get? place = _
      rw [ih h.2, tree.get?_set_of_ne _ h.1]

/-- Of files that have a place each, every one is there in the end. -/
theorem get?_setFiles_of_mem {file : List String × ByteArray}
    (files : List (List String × ByteArray))
    (hplaces : (files.map Prod.fst).Nodup) (hmem : file ∈ files) (hne : file.1 ≠ []) :
    ∀ tree : FileTree, (tree.setFiles files).get? file.1 = some (.file file.2) := by
  induction files with
  | nil => cases hmem
  | cons first rest ih =>
      intro tree
      rw [List.map_cons, List.nodup_cons] at hplaces
      show ((tree.set first.1 (.file first.2)).setFiles rest).get? file.1 = _
      rcases List.mem_cons.mp hmem with rfl | hrest
      · rw [get?_setFiles_of_not_mem rest hplaces.1, tree.get?_set_self hne]
      · exact ih hplaces.2 hrest _

end FileTree

/-! ## Writing -/

namespace Filing

section Write

variable {tree : FileTree} {path : String} {place : List String} (content : ByteArray)

/-- The four ways in which writing a file ends, by where its path leads: nowhere, to a directory, to
    a place that a file can have, or there but with a slash behind it. -/
theorem run_write_of_error {failure : Failure} (h : tree.follow path = .error failure) :
    (write path content).run tree = (.error failure, tree) := by
  rw [write, Run.get_bind, Run.liftM_bind_error h]

theorem run_write_directory (h : tree.follow path = .ok place)
    (hplace : tree.get? place = some .directory) :
    (write path content).run tree = (.error .isDirectory, tree) := by
  rw [write, Run.get_bind, Run.liftM_bind_ok h, hplace]
  rfl

theorem run_write (h : tree.follow path = .ok place) (hplace : tree.get? place ≠ some .directory)
    (hslash : Path.endsInSlash path = false) :
    (write path content).run tree = (.ok (), tree.set place (.file content)) := by
  rw [write, Run.get_bind, Run.liftM_bind_ok h, hslash]
  cases hentry : tree.get? place with
  | none => rfl
  | some entry =>
      cases entry with
      | directory => exact absurd hentry hplace
      | file old => rfl

theorem run_write_slash (h : tree.follow path = .ok place)
    (hplace : tree.get? place ≠ some .directory) (hslash : Path.endsInSlash path = true) :
    ∃ failure, (write path content).run tree = (.error failure, tree) := by
  rw [write, Run.get_bind, Run.liftM_bind_ok h, hslash]
  cases hentry : tree.get? place with
  | none => exact ⟨_, rfl⟩
  | some entry =>
      cases entry with
      | directory => exact absurd hentry hplace
      | file old => exact ⟨_, rfl⟩

variable (tree path) in
/-- Writing a file fails and leaves the tree alone, or sets the place that its path leads to. -/
theorem run_write_cases :
    (∃ failure, (write path content).run tree = (.error failure, tree)) ∨
      ∃ place, tree.follow path = .ok place ∧ tree.get? place ≠ some .directory ∧
        Path.endsInSlash path = false ∧
        (write path content).run tree = (.ok (), tree.set place (.file content)) := by
  cases hfollow : tree.follow path with
  | error f => exact .inl ⟨f, run_write_of_error content hfollow⟩
  | ok place =>
      by_cases hplace : tree.get? place = some .directory
      · exact .inl ⟨_, run_write_directory content hfollow hplace⟩
      · cases hslash : Path.endsInSlash path with
        | true => exact .inl (run_write_slash content hfollow hplace hslash)
        | false => exact .inr ⟨place, rfl, hplace, rfl, run_write content hfollow hplace hslash⟩

/-- **Writing a file sets one place**: the one that its path leads to, if it is no directory. -/
theorem write_ok_iff {tree' : FileTree} : (write path content).run tree = (.ok (), tree') ↔
      ∃ place, tree.follow path = .ok place ∧ tree.get? place ≠ some .directory ∧
        Path.endsInSlash path = false ∧ tree' = tree.set place (.file content) := by
  constructor
  · intro hrun
    rcases run_write_cases tree path content with ⟨f, hf⟩ | ⟨place, hfollow, hplace, hslash, hset⟩
    · rw [hf] at hrun
      cases hrun
    · rw [hset] at hrun
      exact ⟨place, hfollow, hplace, hslash, (congrArg Prod.snd hrun).symm⟩
  · rintro ⟨place, hfollow, hplace, hslash, rfl⟩
    exact run_write content hfollow hplace hslash

end Write

/-! ## Making directories -/

/-- All that was there is as it was, and what is new is of some kind. -/
def Adds (new : List String → FileEntry → Prop) (tree tree' : FileTree) : Prop :=
  ∀ place, tree'.get? place = tree.get? place ∨
    tree.get? place = none ∧ ∃ entry, tree'.get? place = some entry ∧ new place entry

namespace Adds

variable {new : List String → FileEntry → Prop}

theorem refl (tree : FileTree) : Adds new tree tree :=
  fun _ => .inl rfl

/-- Adding twice is adding: the second step finds what the first has added and leaves it. -/
theorem trans ⦃t u v : FileTree⦄ (h : Adds new t u) (h' : Adds new u v) : Adds new t v := by
  intro place
  rcases h place with hu | ⟨ht, entry, hu, hentry⟩
  · rw [← hu]
    exact h' place
  · -- what the first one added is there for the second one
    rcases h' place with hv | ⟨hnone, -⟩
    · exact .inr ⟨ht, entry, hv.trans hu, hentry⟩
    · rw [hu] at hnone
      cases hnone

/-- What is new may be said more loosely. -/
theorem mono {new' : List String → FileEntry → Prop} {tree tree' : FileTree}
    (h : Adds new tree tree') (imp : ∀ place entry, new place entry → new' place entry) :
    Adds new' tree tree' := by
  intro place
  rcases h place with hsame | ⟨hnone, entry, hentry, hnew⟩
  · exact .inl hsame
  · exact .inr ⟨hnone, entry, hentry, imp place entry hnew⟩

/-- Setting a place where nothing was. -/
theorem set {tree : FileTree} {place : List String} {entry : FileEntry}
    (hplace : tree.get? place = none) (h : new place entry) :
    Adds new tree (tree.set place entry) := by
  have hne : place ≠ [] := by
    rintro rfl
    cases hplace
  intro other
  by_cases hother : other = place
  · rw [hother]
    exact .inr ⟨hplace, entry, tree.get?_set_self hne _, h⟩
  · exact .inl (tree.get?_set_of_ne _ hother)

/-- Every directory is still there. -/
theorem directories {tree tree' : FileTree} (h : Adds new tree tree') (place : List String)
    (hplace : tree.get? place = some .directory) : tree'.get? place = some .directory := by
  rcases h place with hsame | ⟨hnone, -⟩
  · rw [hsame, hplace]
  · rw [hplace] at hnone
    cases hnone

end Adds

/-- What is new is a directory. -/
def IsDirectory (_ : List String) (entry : FileEntry) : Prop :=
  entry = .directory

/-- Making one directory fails or sets its place, where nothing was. -/
theorem makeDirectory_adds (path : String) :
    Run.Respects (Adds IsDirectory) (makeDirectory path) := by
  intro tree
  rw [makeDirectory, Run.get_bind]
  cases hfollow : tree.follow path with
  | error f =>
      rw [Run.liftM_bind_error rfl]
      exact .refl tree
  | ok place =>
      rw [Run.liftM_bind_ok rfl]
      cases hplace : tree.get? place with
      | some entry => exact .refl tree
      | none => exact .set hplace rfl

theorem ask_adds {α : Type} (question : FileTree → α) :
    Run.Respects (Adds IsDirectory) (ask question) :=
  Adds.refl

/-- A directory that is there already is as good as a new one. -/
theorem makeLast_adds (last path : String) : Run.Respects (Adds IsDirectory)
    (if last != "." then
      tryCatch (makeDirectory path) fun failure => do
        if !(← ask (·.isDirectory path)) then throw failure
    else pure ()) := by
  split
  · refine (makeDirectory_adds path).tryCatch Adds.trans fun failure => ?_
    refine (ask_adds _).bind Adds.trans fun found => ?_
    split
    · exact Adds.refl
    · exact Adds.refl
  · exact Adds.refl

/-- By induction on the names, the last one first: those around it are made unless they are there,
    and then the last one. -/
theorem makeNames_adds (start : String) (names : List String) :
    Run.Respects (Adds IsDirectory) (makeNames start names) := by
  induction names with
  | nil => exact Adds.refl
  | cons last before ih =>
      rw [makeNames]
      refine (ask_adds _).bind Adds.trans fun found => ?_
      -- the directories around come first, unless they are there; the last one is made either way
      by_cases houter : (!before.isEmpty && !found) = true
      · simp only [houter, if_true]
        exact ih.bind Adds.trans fun _ => makeLast_adds _ _
      · simp only [houter]
        exact makeLast_adds _ _

/-- **Making directories only adds directories**, however it ends. -/
theorem makeDirectories_adds (path : String) :
    Run.Respects (Adds IsDirectory) (makeDirectories path) := by
  unfold makeDirectories
  simp only []
  split
  · split
    · exact Adds.refl
    · exact Adds.refl
  · exact makeNames_adds _ _

end Filing

/-! ## Work on the tree of a world -/

namespace Work

variable {α : Type} {w w' : World}

/-- Work on files changes the tree of the world and nothing else. -/
theorem run_files (filing : Filing α) (w : World) : (files filing).run w =
    ((filing.run w.tree).1, { w with tree := (filing.run w.tree).2 }) := by
  rw [files, Run.get_bind]
  rfl

/-- So it ends well in a world exactly if it does on the tree. -/
theorem files_ok_iff {filing : Filing α} {a : α} : (files filing).run w = (.ok a, w') ↔
    ∃ tree, filing.run w.tree = (.ok a, tree) ∧ w' = { w with tree := tree } := by
  rw [run_files]
  constructor
  · intro h
    obtain ⟨hresult, hworld⟩ := Prod.mk.inj h
    exact ⟨(filing.run w.tree).2, Prod.ext hresult rfl, hworld.symm⟩
  · rintro ⟨tree, hrun, rfl⟩
    rw [hrun]

/-- A text is what the bytes of a file stand for; reading leaves the world as it is. -/
theorem run_readText (path : String) (w : World) : (readText path).run w =
    ((do (Text.ofBytes (← w.tree.read path)).mapError fun _ => .badEncoding), w) := by
  rw [readText, Run.get_bind]
  cases w.tree.read path with
  | error f => rw [Run.liftM_bind_error rfl]; rfl
  | ok bytes =>
      rw [Run.liftM_bind_ok rfl]
      show _ = ((Text.ofBytes bytes).mapError _, w)
      cases Text.ofBytes bytes <;> rfl

/-- A relation of the trees of two worlds. -/
def OnTree (R : FileTree → FileTree → Prop) (w w' : World) : Prop :=
  R w.tree w'.tree

/-- What holds between the trees before and after holds between the worlds. -/
theorem respects_files {R : FileTree → FileTree → Prop} {filing : Filing α}
    (h : Run.Respects R filing) : Run.Respects (OnTree R) (files filing) := by
  intro w
  rw [run_files]
  exact h w.tree

/-- Writing a file with a name writes it to the directory that the path in front leads to. -/
theorem writeText_join_ok_iff {outer name text : String} (hname : Path.IsName name) :
    (writeText (Path.join outer name) text).run w = (.ok (), w') ↔
      ∃ p, w.tree.Leads outer p ∧ w.tree.get? p = some .directory ∧
        w.tree.get? (p ++ [name]) ≠ some .directory ∧
        w' = { w with tree := w.tree.set (p ++ [name]) (.file text.toUTF8) } := by
  rw [writeText, files_ok_iff]
  constructor
  · rintro ⟨tree, hwrite, rfl⟩
    obtain ⟨place, hfollow, hplace, -, rfl⟩ := (Filing.write_ok_iff _).mp hwrite
    obtain ⟨p, hleads, hp, rfl⟩ := (FileTree.follow_join_ok_iff hname).mp hfollow
    exact ⟨p, hleads, hp, hplace, rfl⟩
  · rintro ⟨p, hleads, hp, hplace, rfl⟩
    have hfollow := (FileTree.follow_join_ok_iff hname).mpr ⟨p, hleads, hp, rfl⟩
    exact ⟨_, Filing.run_write _ hfollow hplace (hname.not_endsInSlash outer), rfl⟩

end Work

end Playscript
