import Playscript.Proofs.Listings
import Playscript.Proofs.PathNames
import Playscript.Wildcard

/-! # What a pattern stands for

    A pattern behind a directory without signs of a pattern stands for the names in that directory
    that fit it (`mem_expand`).  All names fit a star, and those with a given start fit the start
    and a star (`fits_files`); hidden names are left out.  The directory is given by a path relative
    to the tree. -/

namespace Playscript.Wildcard

/-! ## Names that fit -/

/-- Among the ends of a text is the empty one. -/
theorem someRest_isEmpty (cs : List Char) : someRest List.isEmpty cs = true := by
  induction cs with
  | nil => rfl
  | cons c rest ih => rw [someRest, ih, Bool.or_true]

/-- A star at the end of a pattern takes whatever is left. -/
theorem fitsFrom_any (cs : List Char) : fitsFrom [.any] cs = true := by
  rw [fitsFrom]
  exact someRest_isEmpty cs

theorem fits_star (name : String) : fits "*" name = true :=
  fitsFrom_any name.toList

/-- Characters in a pattern stand for themselves, so with a star behind them they fit what starts
    so. -/
theorem fitsFrom_start (start cs : List Char) :
    fitsFrom (start.map Part.char ++ [.any]) cs = true ↔ start <+: cs := by
  induction start generalizing cs with
  | nil => exact iff_of_true (fitsFrom_any cs) List.nil_prefix
  | cons d rest ih =>
      cases cs with
      | nil => simp [fitsFrom]
      | cons c cs =>
          rw [List.map_cons, List.cons_append, fitsFrom, Bool.and_eq_true, beq_iff_eq, ih,
            List.cons_prefix_cons, eq_comm]

theorem fits_files {name : String} : fits "files*" name = true ↔ "files".toList <+: name.toList :=
  fitsFrom_start "files".toList name.toList

/-! ## Paths that fit -/

/-- The directory in front of a pattern, as the paths that fit have it. -/
def front (directory pattern : String) : String :=
  Path.directoryName (directory ++ "/" ++ pattern)

/-- A directory, a slash and a pattern, as characters. -/
theorem toList_path (directory pattern : String) :
    directory ++ "/" ++ pattern = String.ofList (directory.toList ++ '/' :: pattern.toList) := by
  rw [← String.toList_inj, String.toList_ofList, String.toList_append, String.toList_append,
    List.append_assoc]
  rfl

section Front

variable {directory pattern : String} (hpattern : '/' ∉ pattern.toList)

include hpattern

/-- Extra slashes between the directory and the pattern lead nowhere else. -/
theorem names_front : Path.names (front directory pattern) = Path.names directory := by
  rw [front, toList_path, Path.names_directoryName_cut _ hpattern, String.ofList_toList]

/-- Nor do they make a path one from the root. -/
theorem isAbsolute_front (hne : directory ≠ "") :
    Path.isAbsolute (front directory pattern) = Path.isAbsolute directory := by
  have hchars : directory.toList ≠ [] := fun hnil => hne (String.toList_eq_nil_iff.mp hnil)
  rw [front, toList_path, Path.isAbsolute_directoryName_cut _ hpattern, Path.isAbsolute,
    Path.isAbsolute, String.toList_ofList, List.head?_append_of_ne_nil _ hchars]

/-- What stands in front is never empty: slashes alone are not stripped. -/
theorem front_ne_empty : front directory pattern ≠ "" := by
  rw [front, toList_path, Path.directoryName_cut _ hpattern, Ne, ← String.toList_eq_nil_iff]
  cases hall : directory.toList.all (· == '/') with
  | true => simp
  | false =>
      have hhead := Path.head?_stripSlashes hall
      simp only [Bool.false_eq_true, if_false]
      rw [String.toList_ofList]
      intro hnil
      rw [hnil] at hhead
      rw [List.head?_eq_none_iff.mp hhead.symm] at hall
      cases hall

/-- A directory that does not end in a slash stands in front as it is. -/
theorem front_eq (hne : directory ≠ "") (hslash : Path.endsInSlash directory = false) :
    front directory pattern = directory := by
  have hlast : directory.toList.getLast? ≠ some '/' := by
    rw [Path.endsInSlash, beq_eq_false_iff_ne] at hslash
    exact hslash
  have hall : directory.toList.all (· == '/') ≠ true := by
    intro hall
    obtain ⟨c, hc⟩ := Option.ne_none_iff_exists'.mp
      (mt List.getLast?_eq_none_iff.mp (mt String.toList_eq_nil_iff.mp hne))
    have hslash := List.all_eq_true.mp hall c (List.mem_of_getLast? hc)
    rw [beq_iff_eq.mp hslash] at hc
    exact hlast hc
  rw [front, toList_path, Path.directoryName_cut _ hpattern, if_neg hall,
    Path.stripSlashes_of_last hlast, String.ofList_toList]

/-- Taking slashes away makes no pattern of a path. -/
theorem isPattern_front (hplain : isPattern directory = false) :
    isPattern (front directory pattern) = false := by
  have hchars : ∀ c ∈ (front directory pattern).toList, c ∈ directory.toList ∨ c = '/' := by
    intro c hc
    rw [front, toList_path, Path.directoryName_cut _ hpattern] at hc
    split at hc
    · rw [String.toList_ofList, List.mem_append, List.mem_singleton] at hc
      exact hc
    · rw [String.toList_ofList] at hc
      exact .inl (Path.mem_of_mem_stripSlashes hc)
  rw [isPattern, List.any_eq_false] at hplain ⊢
  intro c hc
  rcases hchars c hc with hc | rfl
  · exact hplain c hc
  · decide

/-- So the front leads where the directory leads. -/
theorem follow_front (tree : FileTree) (hne : directory ≠ "") :
    tree.follow (front directory pattern) = tree.follow directory := by
  rw [FileTree.follow, FileTree.follow, names_front hpattern, isAbsolute_front hpattern hne,
    String.isEmpty_eq_false_iff.mpr (front_ne_empty hpattern),
    String.isEmpty_eq_false_iff.mpr hne]

end Front

/-- Two paths without signs of a pattern have none together. -/
theorem isPattern_join {outer name : String} (houter : isPattern outer = false)
    (hname : isPattern name = false) : isPattern (Path.join outer name) = false := by
  rw [Path.join]
  split
  · exact hname
  · split
    · rw [isPattern, String.toList_append, List.any_append, ← isPattern, ← isPattern, houter, hname]
      rfl
    · rw [isPattern, String.toList_append, String.toList_append, List.any_append, List.any_append,
        ← isPattern, ← isPattern, ← isPattern, houter, hname]
      rfl

/-- **What a pattern in a directory stands for**: the names in it that fit, hidden ones only if the
    pattern starts with a dot. -/
theorem mem_expand {tree : FileTree} {directory pattern path : String}
    (hplain : isPattern directory = false) (hsigns : isPattern pattern = true)
    (hslash : '/' ∉ pattern.toList) :
    path ∈ expand tree (directory ++ "/" ++ pattern) ↔
      ∃ name ∈ tree.list (front directory pattern),
        (isHidden pattern || !isHidden name) = true ∧ fits pattern name = true ∧
          path = Path.join (front directory pattern) name := by
  have hbase : Path.baseName (directory ++ "/" ++ pattern) = pattern := by
    rw [toList_path, Path.baseName_cut _ hslash, String.ofList_toList]
  have hpath : isPattern (directory ++ "/" ++ pattern) = true := by
    rw [isPattern, String.toList_append, List.any_append, ← isPattern, ← isPattern, hsigns,
      Bool.or_true]
  have hempty : (front directory pattern).isEmpty = false :=
    String.isEmpty_eq_false_iff.mpr (front_ne_empty hslash)
  have hexpand : expandPath tree ((directory ++ "/" ++ pattern).length + 1)
      (directory ++ "/" ++ pattern) false
      = (namesFitting tree (front directory pattern) pattern false).map
          (Path.join (front directory pattern)) := by
    have hfront : Path.directoryName (directory ++ "/" ++ pattern) = front directory pattern := rfl
    rw [expandPath]
    simp only [hbase, hpath, hfront, hempty, isPattern_front hslash hplain, hsigns, Bool.and_false,
      Bool.not_true, Bool.false_eq_true, if_false, if_true, List.flatMap_cons, List.flatMap_nil,
      List.append_nil]
  rw [expand, List.mem_mergeSort, hexpand, namesFitting, hempty]
  simp only [Bool.false_eq_true, if_false, Bool.not_false, Bool.true_or, Bool.and_true,
    List.mem_map, List.mem_filter, Bool.and_eq_true]
  constructor
  · rintro ⟨name, ⟨hname, hhidden, hfits⟩, rfl⟩
    exact ⟨name, hname, hhidden, hfits, rfl⟩
  · rintro ⟨name, hname, hhidden, hfits, rfl⟩
    exact ⟨name, ⟨hname, hhidden, hfits⟩, rfl⟩

section Places

variable {tree : FileTree} {directory path : String} {place : List String}
  (hplain : isPattern directory = false) (hfollow : tree.follow directory = .ok place)

include hplain hfollow

/-- A star stands for all names in the directory that are not hidden, and for nothing if there is no
    directory. -/
theorem mem_expand_star (hslash : Path.endsInSlash directory = false) :
    path ∈ expand tree (directory ++ "/*") ↔
      ∃ name, tree.get? place = some .directory ∧ tree.get? (place ++ [name]) ≠ none ∧
        isHidden name = false ∧ path = Path.join directory name := by
  have hne := (FileTree.follow_ok_iff.mp hfollow).1
  have hpath : directory ++ "/*" = directory ++ "/" ++ "*" := by
    rw [String.append_assoc]
    rfl
  rw [hpath, mem_expand hplain (by decide) (by decide), front_eq (by decide) hne hslash]
  have hvisible : ∀ name, (isHidden "*" || !isHidden name) = true ↔ isHidden name = false := by
    intro name
    rw [show isHidden "*" = false from rfl, Bool.false_or, Bool.not_eq_true']
  simp only [FileTree.mem_list, fits_star, hvisible]
  constructor
  · rintro ⟨name, ⟨found, hfound, hdirectory, hthere⟩, hname, -, rfl⟩
    obtain rfl := Except.ok.inj (hfollow.symm.trans hfound)
    exact ⟨name, hdirectory, hthere, hname, rfl⟩
  · rintro ⟨name, hdirectory, hthere, hname, rfl⟩
    exact ⟨name, ⟨place, hfollow, hdirectory, hthere⟩, hname, trivial, rfl⟩

/-- The pattern that finds directories of files stands for the names with that start; as it is no
    dot, they are not hidden. -/
theorem mem_expand_files (hthere : tree.get? place = some .directory) :
    path ∈ expand tree (directory ++ "/files*") ↔
      ∃ name, "files".toList <+: name.toList ∧ tree.get? (place ++ [name]) ≠ none ∧
        path = Path.join (front directory "files*") name := by
  have hne := (FileTree.follow_ok_iff.mp hfollow).1
  have hpath : directory ++ "/files*" = directory ++ "/" ++ "files*" := by
    rw [String.append_assoc]
    rfl
  have hfront : tree.follow (front directory "files*") = .ok place :=
    (follow_front (by decide) tree hne).trans hfollow
  rw [hpath, mem_expand hplain (by decide) (by decide)]
  simp only [FileTree.mem_list, fits_files]
  constructor
  · rintro ⟨name, ⟨found, hfound, -, hname⟩, -, hfiles, rfl⟩
    obtain rfl := Except.ok.inj (hfront.symm.trans hfound)
    exact ⟨name, hfiles, hname, rfl⟩
  · rintro ⟨name, hfiles, hname, rfl⟩
    refine ⟨name, ⟨place, hfront, hthere, hname⟩, ?_, hfiles, rfl⟩
    -- a name that starts with an `f` does not start with a dot
    obtain ⟨rest, hrest⟩ := hfiles
    rw [isHidden, isHidden, ← hrest]
    rfl

end Places

end Playscript.Wildcard
