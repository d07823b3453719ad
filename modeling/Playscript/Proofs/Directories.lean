import Mathlib.Data.List.Induction
import Playscript.Proofs.FileTrees

/-! # Making directories

    A directory is made with all those around it, and the path for each of them is put together
    anew from its parts.  Such a path leads where the names among its parts lead
    (`leads_intercalate`).  Where a path leads to a directory already, making it changes nothing
    (`run_makeDirectories_of_there`); once a directory has been made under a name, it is there
    (`makeDirectories_join_ok`).  A path that never goes up leads to its own names, and making it
    puts a directory on every place along them and touches nothing else
    (`run_makeDirectories_upless`).  Paths are relative to the tree, and none from the root leads
    anywhere. -/

namespace Playscript

/-- The pieces of a text that is cut at a mark do not have the mark. -/
theorem Text.not_mem_of_mem_splitOnChar {mark : Char} {cs : List Char} :
    ∀ piece ∈ splitOnChar mark cs, mark ∉ piece := by
  induction cs with
  | nil =>
      intro piece hpiece
      rw [List.mem_singleton.mp hpiece]
      exact List.not_mem_nil
  | cons c rest ih =>
      rw [splitOnChar]
      split
      · intro piece hpiece
        rcases List.mem_cons.mp hpiece with rfl | hrest
        · exact List.not_mem_nil
        · exact ih piece hrest
      · rename_i hc
        obtain ⟨first, more, hpieces⟩ := List.exists_cons_of_ne_nil (splitOnChar_ne_nil mark rest)
        rw [hpieces] at ih ⊢
        intro piece hpiece
        rcases List.mem_cons.mp hpiece with rfl | hmore
        · rw [List.mem_cons, not_or]
          exact ⟨Ne.symm hc, ih first List.mem_cons_self⟩
        · exact ih piece (List.mem_cons_of_mem first hmore)

/-! ## Paths from their parts -/

namespace Path

/-- A text that can stand between two slashes. -/
structure IsPart (s : String) : Prop where
  no_slash : '/' ∉ s.toList
  ne_empty : s ≠ ""

/-- What stands between the slashes of a path, without the gaps. -/
def parts (path : String) : List String :=
  (segments path).filter (· != "")

/-- So what stands between slashes can. -/
theorem isPart_of_mem_parts {path : String} : ∀ s ∈ parts path, IsPart s := by
  intro s hs
  obtain ⟨hsegment, hne⟩ := List.mem_filter.mp hs
  obtain ⟨piece, hpiece, rfl⟩ := List.mem_map.mp hsegment
  refine ⟨?_, by simpa using hne⟩
  rw [String.toList_ofList]
  exact Text.not_mem_of_mem_splitOnChar piece hpiece

/-- Names are parts other than `.`, which leads nowhere. -/
theorem names_eq_parts (path : String) : names path = (parts path).filter (· != ".") := by
  rw [names, parts, List.filter_filter]
  refine List.filter_congr fun name _ => ?_
  rw [Bool.and_comm]

theorem toList_intercalate_cons_cons (s t : String) (more : List String) :
    ("/".intercalate (s :: t :: more)).toList
      = s.toList ++ '/' :: ("/".intercalate (t :: more)).toList := by
  rw [String.intercalate_cons_cons, String.toList_append, String.toList_append]
  simp

/-- Parts with slashes between them are cut into the parts again. -/
theorem segments_intercalate {segs : List String} (hne : segs ≠ [])
    (h : ∀ s ∈ segs, IsPart s) : segments ("/".intercalate segs) = segs := by
  induction segs with
  | nil => exact absurd rfl hne
  | cons s rest ih =>
      have hs : IsPart s := h s List.mem_cons_self
      cases rest with
      | nil =>
          rw [String.intercalate_singleton, segments, Text.splitOnChar_of_not_mem hs.no_slash,
            List.map_singleton, String.ofList_toList]
      | cons t more =>
          have hmore := ih (List.cons_ne_nil t more) fun u hu => h u (List.mem_cons_of_mem s hu)
          rw [segments] at hmore ⊢
          rw [toList_intercalate_cons_cons, Text.splitOnChar_append hs.no_slash, List.map_cons,
            hmore, String.ofList_toList]

/-- So their path has them as its names. -/
theorem names_intercalate {segs : List String} (h : ∀ s ∈ segs, IsPart s) :
    names ("/".intercalate segs) = segs.filter (· != ".") := by
  by_cases hne : segs = []
  · rw [hne]
    rfl
  · rw [names, segments_intercalate hne h]
    refine List.filter_congr fun s hs => ?_
    simp [(h s hs).ne_empty]

/-- And it does not start at the root, as its first part does not start with a slash. -/
theorem isAbsolute_intercalate {segs : List String} (h : ∀ s ∈ segs, IsPart s) :
    isAbsolute ("/".intercalate segs) = false := by
  cases segs with
  | nil => rfl
  | cons s rest =>
      have hs : IsPart s := h s List.mem_cons_self
      obtain ⟨c, cs, hchars⟩ := List.exists_cons_of_ne_nil
        fun hnil => hs.ne_empty (String.toList_eq_nil_iff.mp hnil)
      have hc : c ≠ '/' := by
        rintro rfl
        exact hs.no_slash (hchars ▸ List.mem_cons_self)
      have hhead : ("/".intercalate (s :: rest)).toList.head? = some c := by
        cases rest with
        | nil => rw [String.intercalate_singleton, hchars, List.head?_cons]
        | cons t more =>
            rw [toList_intercalate_cons_cons, hchars, List.cons_append, List.head?_cons]
      rw [isAbsolute, hhead]
      simpa using hc

/-- A path of at least one part is not empty. -/
theorem intercalate_ne_empty {segs : List String} (hne : segs ≠ []) (h : ∀ s ∈ segs, IsPart s) :
    "/".intercalate segs ≠ "" := by
  intro hempty
  have hsegments := segments_intercalate hne h
  rw [hempty] at hsegments
  exact (h "" (hsegments ▸ List.mem_cons_self)).ne_empty rfl

/-- A path that ends in a name has that name for its last part. -/
theorem parts_join {name : String} (hname : IsName name) (outer : String) :
    ∃ before, parts (join outer name) = before ++ [name] := by
  have hone : segments name = [name] := by
    rw [segments, Text.splitOnChar_of_not_mem hname.no_slash, List.map_singleton,
      String.ofList_toList]
  have hpart : ∀ front : List String, (front ++ [name]).filter (· != "")
      = front.filter (· != "") ++ [name] := by
    intro front
    simp [hname.ne_empty]
  by_cases houter : outer = ""
  · rw [houter, join_empty hname.not_absolute, parts, hone]
    exact ⟨_, hpart []⟩
  · obtain ⟨front, -, hjoin⟩ := toList_join hname.not_absolute houter
    rw [parts, segments, hjoin, Text.splitOnChar_append_mark, List.map_append]
    rw [segments] at hone
    rw [hone]
    exact ⟨_, hpart _⟩

end Path

namespace FileTree

/-- So the path leads where the parts lead. -/
theorem leads_intercalate {tree : FileTree} {segs place : List String}
    (h : ∀ s ∈ segs, Path.IsPart s) : tree.Leads ("/".intercalate segs) place ↔
      tree.followFrom [] (segs.filter (· != ".")) = .ok place := by
  rw [Leads, Path.isAbsolute_intercalate h, Path.names_intercalate h]
  exact and_iff_right rfl

/-- Names that never go up lead to the place that they spell, through the directories on the
    way. -/
theorem followFrom_upless_iff {tree : FileTree} {names : List String} (hup : ".." ∉ names) :
    ∀ {place goal : List String}, tree.followFrom place names = .ok goal ↔
      goal = place ++ names ∧
        ∀ q, q <+: names → q ≠ names → tree.get? (place ++ q) = some .directory := by
  induction names with
  | nil =>
      intro place goal
      rw [followFrom, List.append_nil]
      constructor
      · intro h
        refine ⟨(Except.ok.inj h).symm, fun q hq hne => ?_⟩
        exact absurd (List.prefix_nil.mp hq) hne
      · rintro ⟨rfl, -⟩
        rfl
  | cons name rest ih =>
      intro place goal
      rw [List.mem_cons, not_or] at hup
      have hname : (name == "..") = false := beq_eq_false_iff_ne.mpr (Ne.symm hup.1)
      rw [followFrom_cons_ok_iff, hname]
      simp only [Bool.false_eq_true, if_false]
      rw [ih hup.2, List.append_assoc, List.singleton_append]
      constructor
      · rintro ⟨hplace, rfl, hrest⟩
        refine ⟨rfl, fun q hq hne => ?_⟩
        cases q with
        | nil =>
            rw [List.append_nil]
            exact hplace
        | cons first q =>
            obtain ⟨rfl, hrest'⟩ := List.cons_prefix_cons.mp hq
            have h := hrest q hrest' fun heq => hne (by rw [heq])
            rwa [List.append_assoc, List.singleton_append] at h
      · rintro ⟨rfl, hall⟩
        refine ⟨?_, rfl, fun q hq hne => ?_⟩
        · have h := hall [] List.nil_prefix (List.cons_ne_nil _ _).symm
          rwa [List.append_nil] at h
        · rw [List.append_assoc, List.singleton_append]
          exact hall (name :: q) (List.cons_prefix_cons.mpr ⟨rfl, hq⟩)
            fun heq => hne (List.tail_eq_of_cons_eq heq)

/-- A path is that of a directory if it leads to the place of one, also with a slash at its end. -/
theorem isDirectory_iff {tree : FileTree} {path : String} : tree.isDirectory path = true ↔
    ∃ place, tree.follow path = .ok place ∧ tree.get? place = some .directory := by
  cases hfollow : tree.follow path with
  | error f => simp [isDirectory, find, hfollow, bind, Except.bind]
  | ok place =>
      cases hplace : tree.get? place with
      | none => simp [isDirectory, find, hfollow, hplace, bind, Except.bind, throw, throwThe,
          MonadExceptOf.throw]
      | some entry =>
          cases entry with
          | directory => simp [isDirectory, find, hfollow, hplace, bind, Except.bind, pure,
              Except.pure]
          | file content =>
              cases hslash : Path.endsInSlash path <;>
                simp [isDirectory, find, hfollow, hplace, hslash, bind, Except.bind, pure,
                  Except.pure, throw, throwThe, MonadExceptOf.throw]

/-- What exists stands at the place that its path leads to. -/
theorem entry_of_exists {tree : FileTree} {path : String} (h : tree.exists? path = true) :
    ∃ place, tree.follow path = .ok place ∧ ∃ entry, tree.get? place = some entry := by
  obtain ⟨place, hfollow⟩ := follow_of_exists h
  refine ⟨place, hfollow, ?_⟩
  cases hplace : tree.get? place with
  | some entry => exact ⟨entry, rfl⟩
  | none => simp [exists?, find, hfollow, hplace, bind, Except.bind, throw, throwThe,
      MonadExceptOf.throw] at h

/-- In particular something is there. -/
theorem exists_of_isDirectory {tree : FileTree} {path : String}
    (h : tree.isDirectory path = true) : tree.exists? path = true := by
  rw [isDirectory] at h
  rw [exists?]
  cases hfind : tree.find path with
  | ok entry => rfl
  | error f =>
      rw [hfind] at h
      cases h

end FileTree

/-! ## One directory -/

namespace Filing

open Playscript.Path (IsPart)

section MakeDirectory

variable {tree : FileTree} {path : String} {place : List String}

/-- The three ways in which making one directory ends, by where its path leads: nowhere, to
    something that is there, or to a free place. -/
theorem run_makeDirectory_of_error {failure : Failure} (h : tree.follow path = .error failure) :
    (makeDirectory path).run tree = (.error failure, tree) := by
  rw [makeDirectory, Run.get_bind, Run.liftM_bind_error h]

theorem run_makeDirectory_of_some {entry : FileEntry} (h : tree.follow path = .ok place)
    (hplace : tree.get? place = some entry) :
    (makeDirectory path).run tree = (.error .fileExists, tree) := by
  rw [makeDirectory, Run.get_bind, Run.liftM_bind_ok h, hplace]
  rfl

theorem run_makeDirectory_of_none (h : tree.follow path = .ok place)
    (hplace : tree.get? place = none) :
    (makeDirectory path).run tree = (.ok (), tree.set place .directory) := by
  rw [makeDirectory, Run.get_bind, Run.liftM_bind_ok h, hplace]
  rfl

end MakeDirectory

/-- Makes the last directory of a path; one that is there is as good as a new one. -/
def makeLast (last path : String) : Filing Unit :=
  if last != "." then
    tryCatch (makeDirectory path) fun failure => do
      if !(← ask (·.isDirectory path)) then throw failure
  else pure ()

theorem makeLast_dot (path : String) : makeLast "." path = pure () := rfl

/-- A failure is looked into: if a directory is there, it does not count. -/
theorem makeLast_of_ne {last : String} (h : last ≠ ".") (path : String) : makeLast last path =
    tryCatch (makeDirectory path) (fun failure => do
      if !(← ask (·.isDirectory path)) then throw failure) := by
  rw [makeLast, if_pos (bne_iff_ne.mpr h)]

/-- What stands in the way of a new directory is fine if it is one. -/
theorem run_makeLast_of_error {last path : String} (hlast : last ≠ ".") {tree : FileTree}
    {failure : Failure} (h : (makeDirectory path).run tree = (.error failure, tree)) :
    (makeLast last path).run tree
      = (if tree.isDirectory path then .ok () else .error failure, tree) := by
  rw [makeLast_of_ne hlast, Run.tryCatch_of_error h, ask, bind_assoc, Run.get_bind, pure_bind]
  cases hdirectory : tree.isDirectory path with
  | true => rfl
  | false => rfl

/-- Where the directory is there, nothing is done. -/
theorem run_makeLast_of_isDirectory {path : String} (last : String) {tree : FileTree}
    (h : tree.isDirectory path = true) : (makeLast last path).run tree = (.ok (), tree) := by
  by_cases hlast : last = "."
  · rw [hlast, makeLast_dot]
    rfl
  · obtain ⟨place, hfollow, hplace⟩ := FileTree.isDirectory_iff.mp h
    rw [run_makeLast_of_error hlast (run_makeDirectory_of_some hfollow hplace), h]
    rfl

/-- Once the last directory has been made, the path leads to it. -/
theorem makeLast_ok {last path : String} (hlast : last ≠ ".") {tree tree' : FileTree}
    (hrun : (makeLast last path).run tree = (.ok (), tree')) : tree'.isDirectory path = true := by
  have of_error : ∀ {failure : Failure}, (makeDirectory path).run tree = (.error failure, tree) →
      tree'.isDirectory path = true := by
    intro failure h
    rw [run_makeLast_of_error hlast h] at hrun
    cases hdirectory : tree.isDirectory path with
    | false =>
        rw [hdirectory] at hrun
        cases hrun
    | true =>
        rw [hdirectory] at hrun
        obtain rfl : tree = tree' := congrArg Prod.snd hrun
        exact hdirectory
  cases hfollow : tree.follow path with
  | error failure => exact of_error (run_makeDirectory_of_error hfollow)
  | ok place =>
      cases hplace : tree.get? place with
      | some entry => exact of_error (run_makeDirectory_of_some hfollow hplace)
      | none =>
          have hne : place ≠ [] := by
            rintro rfl
            cases hplace
          rw [makeLast_of_ne hlast,
            Run.tryCatch_of_ok (run_makeDirectory_of_none hfollow hplace)] at hrun
          obtain rfl : tree.set place .directory = tree' := congrArg Prod.snd hrun
          rw [FileTree.isDirectory_iff]
          -- a new directory leaves those that the path goes through
          have hadds : Adds IsDirectory tree (tree.set place .directory) := .set hplace rfl
          exact ⟨place, FileTree.follow_mono hfollow hadds.directories, tree.get?_set_self hne _⟩

/-! ## Directories with those around them -/

/-- The directories around come first, unless they are there. -/
theorem run_makeNames (start last : String) (before : List String) (tree : FileTree) :
    (makeNames start (last :: before)).run tree =
      (if !before.isEmpty && !tree.exists? (start ++ "/".intercalate before.reverse) then
        makeNames start before >>= fun _ =>
          makeLast last (start ++ "/".intercalate (last :: before).reverse)
      else makeLast last (start ++ "/".intercalate (last :: before).reverse)).run tree := by
  rw [makeNames, ask, bind_assoc, Run.get_bind, pure_bind]
  cases h : !before.isEmpty && !tree.exists? (start ++ "/".intercalate before.reverse) with
  | true => rfl
  | false => rfl

/-- Once a directory has been made with those around it, the path leads to it. -/
theorem makeNames_ok {start last : String} {before : List String} (hlast : last ≠ ".")
    {tree tree' : FileTree} (hrun : (makeNames start (last :: before)).run tree = (.ok (), tree')) :
    tree'.isDirectory (start ++ "/".intercalate (last :: before).reverse) = true := by
  rw [run_makeNames] at hrun
  split at hrun
  · obtain ⟨-, tree₁, -, hmade⟩ := Run.bind_ok_iff.mp hrun
    exact makeLast_ok hlast hmade
  · exact makeLast_ok hlast hrun

/-- The parts of a path are made one after the other, from the root if it starts there. -/
theorem makeDirectories_of_parts {path : String} (h : Path.parts path ≠ []) :
    makeDirectories path
      = makeNames (if Path.isAbsolute path then "/" else "") (Path.parts path).reverse := by
  have hparts : ((Path.segments path).filter (· != "")).isEmpty = false := by
    rw [List.isEmpty_eq_false_iff]
    exact h
  unfold makeDirectories
  simp only [hparts]
  rfl

/-- Names that lead to a directory go through the directories around it. -/
theorem exists_outer {tree : FileTree} {segs place : List String} {last : String}
    (hparts : ∀ s ∈ segs ++ [last], IsPart s) (hne : segs ≠ [])
    (hleads : tree.followFrom [] ((segs ++ [last]).filter (· != ".")) = .ok place)
    (hplace : tree.get? place = some .directory) :
    tree.isDirectory ("/".intercalate segs) = true := by
  have hsegs : ∀ s ∈ segs, IsPart s := fun s hs => hparts s (List.mem_append_left _ hs)
  rw [List.filter_append, FileTree.followFrom_append_ok_iff] at hleads
  obtain ⟨p, hp, hrest⟩ := hleads
  refine FileTree.isDirectory_iff.mpr ⟨p, ?_, ?_⟩
  · exact FileTree.follow_ok_iff.mpr
      ⟨Path.intercalate_ne_empty hne hsegs, (FileTree.leads_intercalate hsegs).mpr hp⟩
  · by_cases hlast : last = "."
    · -- a dot leads nowhere else
      rw [hlast] at hrest
      rw [Except.ok.inj hrest]
      exact hplace
    · have hone : [last].filter (· != ".") = [last] := by simp [hlast]
      rw [hone, FileTree.followFrom_cons_ok_iff] at hrest
      exact hrest.1

/-- **Making a directory that is there changes nothing.** -/
theorem run_makeDirectories_of_there {tree : FileTree} {path : String} {place : List String}
    (hparts : Path.parts path ≠ []) (hleads : tree.Leads path place)
    (hplace : tree.get? place = some .directory) :
    (makeDirectories path).run tree = (.ok (), tree) := by
  obtain ⟨segs, last, hsegs⟩ : ∃ segs last, Path.parts path = segs ++ [last] :=
    ⟨_, _, (List.dropLast_concat_getLast hparts).symm⟩
  have hpart : ∀ s ∈ segs ++ [last], IsPart s := hsegs ▸ Path.isPart_of_mem_parts
  have hfollow : tree.followFrom [] ((segs ++ [last]).filter (· != ".")) = .ok place := by
    rw [← hsegs, ← Path.names_eq_parts]
    exact hleads.2
  rw [makeDirectories_of_parts hparts, hleads.1, hsegs, List.reverse_concat]
  simp only [Bool.false_eq_true, if_false]
  rw [run_makeNames, String.empty_append, String.empty_append, List.reverse_cons,
    List.reverse_reverse, if_neg]
  · refine run_makeLast_of_isDirectory last (FileTree.isDirectory_iff.mpr ⟨place, ?_, hplace⟩)
    exact FileTree.follow_ok_iff.mpr
      ⟨Path.intercalate_ne_empty (by simp) hpart, (FileTree.leads_intercalate hpart).mpr hfollow⟩
  · by_cases hne : segs = []
    · simp [hne]
    · rw [FileTree.exists_of_isDirectory (exists_outer hpart hne hfollow hplace)]
      simp

/-- Once a directory has been made under a name, it is there. -/
theorem makeDirectories_join_ok {outer name : String} (hname : Path.IsName name)
    {tree tree' : FileTree}
    (hrun : (makeDirectories (Path.join outer name)).run tree = (.ok (), tree')) :
    ∃ p, tree'.Leads outer p ∧ tree'.get? p = some .directory ∧
      tree'.get? (p ++ [name]) = some .directory := by
  obtain ⟨segs, hsegs⟩ := Path.parts_join hname outer
  have hpart : ∀ s ∈ segs ++ [name], IsPart s := hsegs ▸ Path.isPart_of_mem_parts
  rw [makeDirectories_of_parts (by simp [hsegs]), hsegs, List.reverse_concat] at hrun
  obtain ⟨place, hfollow, hplace⟩ :=
    FileTree.isDirectory_iff.mp (makeNames_ok hname.ne_dot hrun)
  rw [List.reverse_cons, List.reverse_reverse] at hfollow
  obtain ⟨-, hleads⟩ := FileTree.follow_ok_iff.mp hfollow
  -- a path from the root is never found, so this one was put together from its parts alone
  have hrelative : Path.isAbsolute (Path.join outer name) = false := by
    cases habsolute : Path.isAbsolute (Path.join outer name) with
    | false => rfl
    | true =>
        rw [habsolute] at hleads
        have hroot := hleads.1
        simp [Path.isAbsolute] at hroot
  rw [hrelative] at hleads
  simp only [Bool.false_eq_true, if_false, String.empty_append] at hleads
  rw [FileTree.leads_intercalate hpart, ← hsegs, ← Path.names_eq_parts] at hleads
  obtain ⟨p, hp, hhome, rfl⟩ := (FileTree.leads_join hname).mp ⟨hrelative, hleads⟩
  exact ⟨p, hp, hhome, hplace⟩

/-! ## Along names that never go up -/

/-- Directories on every place along some names, and all else as it was. -/
structure Along (place : List String) (tree tree' : FileTree) : Prop where
  made : ∀ q, q <+: place → tree'.get? q = some .directory
  kept : ∀ q, ¬ q <+: place → tree'.get? q = tree.get? q

/-- Directories along the names are as they have to be. -/
theorem Along.refl {tree : FileTree} {place : List String}
    (h : ∀ q, q <+: place → tree.get? q = some .directory) : Along place tree tree :=
  ⟨h, fun _ _ => rfl⟩

/-- From directories along a place to one more at its end, if nothing else changes. -/
theorem Along.concat {tree tree₁ tree' : FileTree} {place : List String} {name : String}
    (h : Along place tree tree₁) (h' : ∀ q, q ≠ place ++ [name] → tree'.get? q = tree₁.get? q)
    (hmade : tree'.get? (place ++ [name]) = some .directory) :
    Along (place ++ [name]) tree tree' := by
  constructor
  · intro q hq
    rcases List.prefix_concat_iff.mp hq with rfl | hq
    · exact hmade
    · have hne : q ≠ place ++ [name] := by
        rintro rfl
        have hlength := hq.length_le
        rw [List.length_append, List.length_singleton] at hlength
        omega
      rw [h' q hne]
      exact h.made q hq
  · intro q hq
    rw [List.prefix_concat_iff, not_or] at hq
    rw [h' q hq.1]
    exact h.kept q hq.2

/-- Where a path without a way up exists, directories are on every place along its names, unless
    a file is at the end. -/
theorem along_of_exists {segs : List String} (hpart : ∀ s ∈ segs, IsPart s) (hup : ".." ∉ segs)
    {tree : FileTree} (hfile : ∀ content, tree.get? (segs.filter (· != ".")) ≠ some (.file content))
    (h : tree.exists? ("/".intercalate segs) = true) :
    Along (segs.filter (· != ".")) tree tree := by
  obtain ⟨place, hfollow, entry, hentry⟩ := FileTree.entry_of_exists h
  have hleads := (FileTree.leads_intercalate hpart).mp (FileTree.follow_ok_iff.mp hfollow).2
  obtain ⟨rfl, hdirectories⟩ := (FileTree.followFrom_upless_iff
    fun hmem => hup (List.mem_filter.mp hmem).1).mp hleads
  rw [List.nil_append] at hentry
  refine .refl fun q hq => ?_
  by_cases hlast : q = segs.filter (· != ".")
  · rw [hlast]
    cases entry with
    | directory => exact hentry
    | file content => exact absurd hentry (hfile content)
  · exact hdirectories q hq hlast

/-- A place is no start of what is around it. -/
theorem not_isPrefix_concat (place : List String) (name : String) :
    ¬ place ++ [name] <+: place := by
  intro h
  have hlength := h.length_le
  rw [List.length_append, List.length_singleton] at hlength
  omega

/-- The last directory is made where those around it are there. -/
theorem run_makeLast_upless {segs : List String} {last : String}
    (hpart : ∀ s ∈ segs ++ [last], IsPart s) (hup : ".." ∉ segs ++ [last]) (hdot : last ≠ ".")
    {tree tree₁ : FileTree} (halong : Along (segs.filter (· != ".")) tree tree₁)
    (hfile : ∀ content, tree.get? (segs.filter (· != ".") ++ [last]) ≠ some (.file content)) :
    ∃ tree', (makeLast last ("/".intercalate (segs ++ [last]))).run tree₁ = (.ok (), tree') ∧
      Along (segs.filter (· != ".") ++ [last]) tree tree' := by
  have hnames : (segs ++ [last]).filter (· != ".") = segs.filter (· != ".") ++ [last] := by
    simp [hdot]
  have hfollow : tree₁.follow ("/".intercalate (segs ++ [last]))
      = .ok (segs.filter (· != ".") ++ [last]) := by
    refine FileTree.follow_ok_iff.mpr ⟨Path.intercalate_ne_empty (by simp) hpart, ?_⟩
    rw [FileTree.leads_intercalate hpart,
      FileTree.followFrom_upless_iff fun hmem => hup (List.mem_filter.mp hmem).1, hnames]
    refine ⟨rfl, fun q hq hne => ?_⟩
    rcases List.prefix_concat_iff.mp hq with rfl | hq
    · exact absurd rfl hne
    · exact halong.made q hq
  cases hplace : tree₁.get? (segs.filter (· != ".") ++ [last]) with
  | none =>
      refine ⟨tree₁.set (segs.filter (· != ".") ++ [last]) .directory, ?_, ?_⟩
      · rw [makeLast_of_ne hdot, Run.tryCatch_of_ok (run_makeDirectory_of_none hfollow hplace)]
      · exact halong.concat (fun q hq => tree₁.get?_set_of_ne _ hq)
          (tree₁.get?_set_self (by simp) _)
  | some entry =>
      cases entry with
      | file content =>
          rw [halong.kept _ (not_isPrefix_concat _ _)] at hplace
          exact absurd hplace (hfile content)
      | directory =>
          refine ⟨tree₁, run_makeLast_of_isDirectory last
            (FileTree.isDirectory_iff.mpr ⟨_, hfollow, hplace⟩), ?_⟩
          exact halong.concat (fun _ _ => rfl) hplace

/-- Directories are made along names where no file stands in the way. -/
theorem run_makeNames_upless {segs : List String} (hpart : ∀ s ∈ segs, IsPart s)
    (hup : ".." ∉ segs) {tree : FileTree}
    (hfree : ∀ q, q <+: segs.filter (· != ".") → ∀ content, tree.get? q ≠ some (.file content)) :
    ∃ tree', (makeNames "" segs.reverse).run tree = (.ok (), tree') ∧
      Along (segs.filter (· != ".")) tree tree' := by
  induction segs using List.reverseRecOn with
  | nil =>
      refine ⟨tree, rfl, .refl fun q hq => ?_⟩
      rw [List.prefix_nil.mp hq]
      rfl
  | append_singleton segs last ih =>
      have hsegs : ∀ s ∈ segs, IsPart s := fun s hs => hpart s (List.mem_append_left _ hs)
      have hup' : ".." ∉ segs := fun h => hup (List.mem_append_left _ h)
      rw [List.filter_append] at hfree ⊢
      have hfree' : ∀ q, q <+: segs.filter (· != ".") → ∀ content,
          tree.get? q ≠ some (.file content) :=
        fun q hq => hfree q (hq.trans (List.prefix_append _ _))
      -- the directories around are there, or are made first
      obtain ⟨tree₁, hbefore, halong⟩ : ∃ tree₁, (makeNames "" (last :: segs.reverse)).run tree
          = (makeLast last ("/".intercalate (segs ++ [last]))).run tree₁ ∧
          Along (segs.filter (· != ".")) tree tree₁ := by
        rw [run_makeNames, String.empty_append, String.empty_append, List.reverse_cons,
          List.reverse_reverse]
        obtain ⟨tree₁, hmade, halong⟩ := ih hsegs hup' hfree'
        split
        · exact ⟨tree₁, Run.bind_of_ok hmade _, halong⟩
        · rename_i hthere
          by_cases hne : segs = []
          · rw [hne] at hmade halong ⊢
            cases hmade
            exact ⟨tree, rfl, halong⟩
          · exact ⟨tree, rfl, along_of_exists hsegs hup' (hfree' _ (List.prefix_refl _))
              (by simpa [hne] using hthere)⟩
      rw [List.reverse_concat, hbefore]
      by_cases hdot : last = "."
      · have hnone : [last].filter (· != ".") = [] := by simp [hdot]
        rw [hnone, List.append_nil]
        exact ⟨tree₁, by rw [hdot, makeLast_dot]; rfl, halong⟩
      · have hone : [last].filter (· != ".") = [last] := by simp [hdot]
        rw [hone] at hfree ⊢
        exact run_makeLast_upless hpart hup hdot halong (hfree _ (List.prefix_refl _))

/-- **A path that never goes up is made along its names**, if no file stands in the way. -/
theorem run_makeDirectories_upless {path : String} (hrelative : Path.isAbsolute path = false)
    (hparts : Path.parts path ≠ []) (hup : ".." ∉ Path.names path) {tree : FileTree}
    (hfree : ∀ q, q <+: Path.names path → ∀ content, tree.get? q ≠ some (.file content)) :
    ∃ tree', (makeDirectories path).run tree = (.ok (), tree') ∧
      Along (Path.names path) tree tree' := by
  rw [Path.names_eq_parts] at hup hfree ⊢
  rw [makeDirectories_of_parts hparts, hrelative]
  refine run_makeNames_upless Path.isPart_of_mem_parts (fun h => hup ?_) hfree
  exact List.mem_filter.mpr ⟨h, by decide⟩

end Filing

end Playscript
