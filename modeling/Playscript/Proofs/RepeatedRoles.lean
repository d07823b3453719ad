import Playscript.Proofs.Directories
import Playscript.Proofs.RoleFiles

/-! # Writing a role once more

    A role that has been written is furnished: its folders and main files are there
    (`writeRole_furnished`).  Making the structure of a furnished role changes nothing
    (`Furnished.run_makeStructure`), so a second run sets the files of the first one again, and
    the same files set twice are the files set once, also where several of them have one place
    (`setFiles_setFiles`).  The directory of a role is a path relative to the tree: from the root
    no role is written. -/

namespace Playscript

/-! ## Files set twice -/

namespace FileTree

/-- Something stands at a place. -/
def Holds (tree : FileTree) (place : List String) : Prop :=
  (tree.entries.lookup place).isSome = true

/-- Of two entries for one place the second stays. -/
theorem setEntry_setEntry_self (entries : List (List String × FileEntry)) (place : List String)
    (first second : FileEntry) :
    setEntry (setEntry entries place first) place second = setEntry entries place second := by
  induction entries with
  | nil => simp [setEntry]
  | cons known rest ih =>
      by_cases h : known.1 = place
      · simp [setEntry, h]
      · simp [setEntry, h, ih]

/-- Setting two places commutes where the first one is taken already; a new place goes to the end,
    so two new ones do not commute. -/
theorem setEntry_comm {entries : List (List String × FileEntry)} {place other : List String}
    (hne : place ≠ other) (hholds : (entries.lookup place).isSome = true)
    (first second : FileEntry) :
    setEntry (setEntry entries place first) other second
      = setEntry (setEntry entries other second) place first := by
  induction entries with
  | nil => cases hholds
  | cons known rest ih =>
      by_cases hplace : known.1 = place
      · have hother : known.1 ≠ other := fun h => hne (hplace.symm.trans h)
        simp [setEntry, hplace, hne]
      · by_cases hother : known.1 = other
        · simp [setEntry, hother, Ne.symm hne]
        · rw [List.lookup_cons, beq_eq_false_iff_ne.mpr (Ne.symm hplace)] at hholds
          simp only [setEntry, if_neg hplace, if_neg hother, ih hholds]

theorem holds_set_self (tree : FileTree) (place : List String) (entry : FileEntry) :
    (tree.set place entry).Holds place := by
  rw [Holds, set, lookup_setEntry_self]
  rfl

/-- A place that has an entry has one after any other is set. -/
theorem Holds.set {tree : FileTree} {place : List String} (h : tree.Holds place)
    (other : List String) (entry : FileEntry) : (tree.set other entry).Holds place := by
  by_cases heq : place = other
  · rw [heq]
    exact tree.holds_set_self other entry
  · rw [Holds, FileTree.set, lookup_setEntry_of_ne _ _ heq]
    exact h

/-- A place that has a file, or is given one, has a file in the end. -/
theorem holds_setFiles {place : List String} (files : List (List String × ByteArray)) :
    ∀ {tree : FileTree}, tree.Holds place ∨ place ∈ files.map Prod.fst →
      (tree.setFiles files).Holds place := by
  induction files with
  | nil =>
      intro tree h
      exact h.resolve_right List.not_mem_nil
  | cons file rest ih =>
      intro tree h
      refine ih ?_
      rcases h with hholds | hmem
      · exact .inl (hholds.set _ _)
      · rcases List.mem_cons.mp hmem with rfl | hrest
        · exact .inl (tree.holds_set_self _ _)
        · exact .inr hrest

/-- A place that is set again later may be left out before. -/
theorem setFiles_set_of_mem {place : List String} (entry : FileEntry)
    (files : List (List String × ByteArray)) : ∀ {tree : FileTree}, tree.Holds place →
      place ∈ files.map Prod.fst → (tree.set place entry).setFiles files = tree.setFiles files := by
  induction files with
  | nil =>
      intro tree _ hmem
      cases hmem
  | cons file rest ih =>
      intro tree hholds hmem
      show ((tree.set place entry).set file.1 (.file file.2)).setFiles rest
        = (tree.set file.1 (.file file.2)).setFiles rest
      by_cases heq : place = file.1
      · rw [heq, set, set, setEntry_setEntry_self]
        rfl
      · have hcomm : (tree.set place entry).set file.1 (.file file.2)
            = (tree.set file.1 (.file file.2)).set place entry :=
          congrArg FileTree.mk (setEntry_comm heq hholds _ _)
        rw [hcomm]
        exact ih (hholds.set _ _) ((List.mem_cons.mp hmem).resolve_left heq)

/-- A place apart may as well be set behind places that are taken already. -/
theorem setFiles_set_of_not_mem {place : List String} (entry : FileEntry)
    (files : List (List String × ByteArray)) : ∀ {tree : FileTree},
      (∀ file ∈ files, tree.Holds file.1) → place ∉ files.map Prod.fst →
      (tree.set place entry).setFiles files = (tree.setFiles files).set place entry := by
  induction files with
  | nil => intro tree _ _; rfl
  | cons file rest ih =>
      intro tree hholds hmem
      rw [List.map_cons, List.mem_cons, not_or] at hmem
      show ((tree.set place entry).set file.1 (.file file.2)).setFiles rest
        = ((tree.set file.1 (.file file.2)).setFiles rest).set place entry
      have hcomm : (tree.set file.1 (.file file.2)).set place entry
          = (tree.set place entry).set file.1 (.file file.2) :=
        congrArg FileTree.mk
          (setEntry_comm (Ne.symm hmem.1) (hholds file List.mem_cons_self) _ _)
      rw [← hcomm]
      exact ih (fun f hf => (hholds f (List.mem_cons_of_mem _ hf)).set _ _) hmem.2

/-- **Files set twice are the files set once**, also where several of them have one place. -/
theorem setFiles_setFiles (tree : FileTree) (files : List (List String × ByteArray)) :
    (tree.setFiles files).setFiles files = tree.setFiles files := by
  induction files using List.reverseRecOn with
  | nil => rfl
  | append_singleton files last ih =>
      rw [setFiles_append, setFiles_append]
      -- the last file is either set in front of all others again, or apart from them
      show (((tree.setFiles files).set last.1 (.file last.2)).setFiles files).set last.1
        (.file last.2) = (tree.setFiles files).set last.1 (.file last.2)
      by_cases hmem : last.1 ∈ files.map Prod.fst
      · rw [setFiles_set_of_mem _ files (holds_setFiles files (.inr hmem)) hmem, ih]
      · have hholds : ∀ file ∈ files, (tree.setFiles files).Holds file.1 :=
          fun file hfile => holds_setFiles files (.inr (List.mem_map_of_mem hfile))
        rw [setFiles_set_of_not_mem _ files hholds hmem, ih]
        exact congrArg FileTree.mk (setEntry_setEntry_self _ _ _ _)

/-- A place that files have been set to holds one of them. -/
theorem isFile_setFiles {place : List String} (hne : place ≠ [])
    (files : List (List String × ByteArray)) : ∀ {tree : FileTree},
      place ∈ files.map Prod.fst → ∃ content, (tree.setFiles files).get? place
        = some (.file content) := by
  induction files using List.reverseRecOn with
  | nil => intro tree hmem; cases hmem
  | append_singleton files last ih =>
      intro tree hmem
      rw [setFiles_append]
      show ∃ content, ((tree.setFiles files).set last.1 (.file last.2)).get? place = _
      by_cases heq : place = last.1
      · rw [← heq, get?_set_self _ hne]
        exact ⟨last.2, rfl⟩
      · rw [get?_set_of_ne _ _ heq]
        refine ih ?_
        rw [List.map_append, List.mem_append] at hmem
        exact hmem.resolve_right fun h => heq (List.mem_singleton.mp h)

end FileTree

/-! ## What only grows -/

/-- Directories stay, and nothing goes away. -/
structure Grows (tree tree' : FileTree) : Prop where
  directories : ∀ place, tree.get? place = some .directory → tree'.get? place = some .directory
  entries : ∀ place, tree.get? place ≠ none → tree'.get? place ≠ none

namespace Grows

theorem refl (tree : FileTree) : Grows tree tree :=
  ⟨fun _ h => h, fun _ h => h⟩

theorem trans ⦃t u v : FileTree⦄ (h : Grows t u) (h' : Grows u v) : Grows t v :=
  ⟨fun place hplace => h'.directories place (h.directories place hplace),
    fun place hplace => h'.entries place (h.entries place hplace)⟩

/-- A tree that is added to grows. -/
theorem of_adds {new : List String → FileEntry → Prop} {tree tree' : FileTree}
    (h : Filing.Adds new tree tree') : Grows tree tree' := by
  refine ⟨h.directories, fun place hplace => ?_⟩
  rcases h place with hsame | ⟨hnone, -⟩
  · rw [hsame]
    exact hplace
  · exact absurd hnone hplace

/-- So does one in which a file is set, where there is no directory. -/
theorem set {tree : FileTree} {place : List String} (content : ByteArray)
    (h : tree.get? place ≠ some .directory) : Grows tree (tree.set place (.file content)) := by
  have hne : place ≠ [] := by
    rintro rfl
    exact h rfl
  refine ⟨fun other => (FileTree.sameDirectories_set content h other).mpr, fun other hother => ?_⟩
  by_cases heq : other = place
  · rw [heq]
    exact FileTree.there_of_get? (tree.get?_set_self hne _)
  · rw [tree.get?_set_of_ne _ heq]
    exact hother

end Grows

/-- Writing a text sets one file or fails. -/
theorem Work.writeText_grows (path text : String) :
    Run.Respects (OnTree Grows) (writeText path text) := by
  refine respects_files fun tree => ?_
  rcases Filing.run_write_cases tree path text.toUTF8 with ⟨f, hrun⟩ | ⟨place, -, hplace, -, hrun⟩
  · rw [hrun]
    exact .refl tree
  · rw [hrun]
    exact .set _ hplace

/-- Work over a list in which no round moves the state does not move it. -/
theorem Run.forM_of_unmoved {σ α : Type} {f : α → ExceptT Failure (StateM σ) Unit} {s : σ}
    {xs : List α} (h : ∀ x ∈ xs, (f x).run s = (.ok (), s)) : (xs.forM f).run s = (.ok (), s) := by
  induction xs with
  | nil => rfl
  | cons x rest ih =>
      show (f x >>= fun _ => rest.forM f).run s = _
      rw [Run.bind_of_ok (h x List.mem_cons_self)]
      exact ih fun y hy => h y (List.mem_cons_of_mem x hy)

namespace Generator

/-! ## Furnished roles -/

theorem isName_of_mem_roleDirectories : ∀ {folder : String}, folder ∈ roleDirectories →
    Path.IsName folder := by
  decide

/-- A role whose folders and main files are all there. -/
structure Furnished (tree : FileTree) (directory : String) (p : List String) : Prop
    extends RoleAt tree directory p where
  made : ∀ folder ∈ roleDirectories, tree.get? (p ++ [folder]) = some .directory
  mains : ∀ folder ∈ mainDirectories, tree.get? (p ++ [folder] ++ ["main.yml"]) ≠ none

/-- What has been furnished stays so in a tree that grows. -/
theorem Furnished.grow {tree tree' : FileTree} {directory : String} {p : List String}
    (h : Furnished tree directory p) (hgrows : Grows tree tree') : Furnished tree' directory p :=
  ⟨h.toRoleAt.mono hgrows.directories,
    fun folder hfolder => hgrows.directories _ (h.made folder hfolder),
    fun folder hfolder => hgrows.entries _ (h.mains folder hfolder)⟩

/-- The folders of a furnished role are there, so making them changes nothing. -/
theorem Furnished.run_makeDirectories {directory folder : String} {p : List String} {w : World}
    (h : Furnished w.tree directory p) (hfolder : folder ∈ roleDirectories) :
    (Work.files (Filing.makeDirectories (Path.join directory folder))).run w = (.ok (), w) := by
  have hname := isName_of_mem_roleDirectories hfolder
  have hleads : w.tree.Leads (Path.join directory folder) (p ++ [folder]) :=
    (FileTree.leads_join hname).mpr ⟨p, h.leads, h.home, rfl⟩
  have hparts : Path.parts (Path.join directory folder) ≠ [] := by
    obtain ⟨before, hbefore⟩ := Path.parts_join hname directory
    simp [hbefore]
  rw [Work.run_files, Filing.run_makeDirectories_of_there hparts hleads (h.made folder hfolder)]

/-- Making the structure of a furnished role changes nothing. -/
theorem Furnished.run_makeStructure {directory : String} {p : List String} {w : World}
    (h : Furnished w.tree directory p) : (makeStructure directory).run w = (.ok (), w) := by
  have hdirectories : (roleDirectories.forM fun name =>
      Work.files (Filing.makeDirectories (Path.join directory name))).run w = (.ok (), w) :=
    Run.forM_of_unmoved fun folder hfolder => h.run_makeDirectories hfolder
  rw [makeStructure, Run.bind_of_ok hdirectories]
  refine Run.forM_of_unmoved fun folder hfolder => ?_
  obtain ⟨entry, hentry⟩ := Option.ne_none_iff_exists'.mp (h.mains folder hfolder)
  rw [run_writeStub, if_pos (FileTree.exists_of_follow (h.toRoleAt.follow hfolder isName_main)
    (isName_main.not_endsInSlash _) hentry)]

/-- A main file is there once it has been looked after. -/
theorem writeStub_there {directory folder : String} {w w' : World}
    (hrun : (writeStub directory folder).run w = (.ok (), w')) :
    ∃ place, w'.tree.follow (Path.join (Path.join directory folder) "main.yml") = .ok place ∧
      w'.tree.get? place ≠ none := by
  rw [run_writeStub] at hrun
  split at hrun
  · rename_i hthere
    cases hrun
    obtain ⟨place, hfollow, entry, hentry⟩ := FileTree.entry_of_exists hthere
    exact ⟨place, hfollow, FileTree.there_of_get? hentry⟩
  · obtain ⟨q, hq, hdirectory, hplace, rfl⟩ := (Work.writeText_join_ok_iff isName_main).mp hrun
    have hfollow := (FileTree.follow_join_ok_iff isName_main).mpr ⟨q, hq, hdirectory, rfl⟩
    have hself := w.tree.get?_set_self (List.concat_ne_nil "main.yml" q) (.file stub.toUTF8)
    exact ⟨q ++ ["main.yml"], (FileTree.sameDirectories_set stub.toUTF8 hplace).follow hfollow,
      FileTree.there_of_get? hself⟩

/-- Once its structure has been made, a role is furnished. -/
theorem makeStructure_furnished {directory : String} {w w' : World}
    (hrun : (makeStructure directory).run w = (.ok (), w')) :
    ∃ p, Furnished w'.tree directory p := by
  obtain ⟨p, hrole⟩ := makeStructure_ok hrun
  obtain ⟨⟨⟩, w₁, hfolders, hstubs⟩ := Run.bind_ok_iff.mp hrun
  refine ⟨p, hrole, fun folder hfolder => ?_, fun folder hfolder => ?_⟩
  · obtain ⟨v, v', -, hmake, hlater⟩ := Run.forM_ok_of_mem (fun _ => .refl _)
      (fun _ _ _ h h' => h.trans h') (fun _ => makeDirectories_adds _) hfolders hfolder
    obtain ⟨tree, hmade, rfl⟩ := Work.files_ok_iff.mp hmake
    obtain ⟨p', hp', -, hat⟩ :=
      Filing.makeDirectories_join_ok (isName_of_mem_roleDirectories hfolder) hmade
    have hlast := Run.Respects.forM (fun _ => .refl _) (fun _ _ _ h h' => h.trans h')
      (writeStub_adds directory) mainDirectories w₁
    rw [hstubs] at hlast
    have hall : Filing.Adds IsStructure tree w'.tree := hlater.trans hlast
    rw [hrole.leads.unique (hp'.mono hall.directories)]
    exact hall.directories _ hat
  · obtain ⟨v, v', -, hstub, hlater⟩ := Run.forM_ok_of_mem (fun _ => .refl _)
      (fun _ _ _ h h' => h.trans h') (writeStub_adds directory) hstubs hfolder
    obtain ⟨place, hfollow, hplace⟩ := writeStub_there hstub
    have hgrows : Grows v'.tree w'.tree := .of_adds hlater
    have hfollow' := FileTree.follow_mono hfollow hgrows.directories
    rw [Except.ok.inj ((hrole.follow hfolder isName_main).symm.trans hfollow')]
    exact hgrows.entries place hplace

theorem makeDirectories_grows (path : String) :
    Run.Respects (Work.OnTree Grows) (Work.files (Filing.makeDirectories path)) :=
  Work.respects_files fun tree => .of_adds (Filing.makeDirectories_adds path tree)

theorem onTree_grows_trans ⦃t u v : World⦄ (h : Work.OnTree Grows t u)
    (h' : Work.OnTree Grows u v) : Work.OnTree Grows t v :=
  Grows.trans h h'

/-- By induction on the sections: each writes one file, or none if it has no tasks. -/
theorem writeSections_grows (job : Job) (format : Format) (directory : String)
    (sections : List Section) :
    Run.Respects (Work.OnTree Grows) (writeSections job format directory sections) := by
  induction sections with
  | nil => exact fun w => .refl w.tree
  | cons s rest ih =>
      rw [writeSections]
      refine Run.Respects.bind onTree_grows_trans (fun w => .refl w.tree) fun tasks => ?_
      split
      · refine Run.Respects.bind onTree_grows_trans (fun w => .refl w.tree) fun items => ?_
        refine (Work.writeText_grows _ _).bind onTree_grows_trans fun _ => ?_
        exact ih.bind onTree_grows_trans fun _ => fun w => .refl w.tree
      · exact ih

/-- What is written once the structure of a role has been made. -/
def writeFiles (job : Job) (format : Format) (directory : String) : Work Unit := do
  Work.files (Filing.makeDirectories (Path.join directory "tasks"))
  let (entries, exports) ← writeSections job format directory job.sections
  Work.writeText (taskPath directory "main.yml") (format.serialize (.list entries))
  if !exports.isEmpty then
    Work.writeText (varsPath directory) (Yaml.render .exports (.list exports))

/-- Writing a role is making its structure and then writing its files. -/
theorem run_writeRole_eq {job : Job} {directory : String}
    (h : job.outputDirectory = .ok directory) (format : Format) (w : World) :
    (writeRole job format).run w
      = (makeStructure directory >>= fun _ => writeFiles job format directory).run w := by
  rw [writeRole, Run.liftM_bind_ok h]
  rfl

/-- None of the files of a role takes the place of a directory. -/
theorem writeFiles_grows (job : Job) (format : Format) (directory : String) :
    Run.Respects (Work.OnTree Grows) (writeFiles job format directory) := by
  refine (makeDirectories_grows _).bind onTree_grows_trans fun _ => ?_
  refine (writeSections_grows job format directory job.sections).bind onTree_grows_trans
    fun (entries, exports) => ?_
  refine (Work.writeText_grows _ _).bind onTree_grows_trans fun _ => ?_
  split
  · exact Work.writeText_grows _ _
  · exact fun w => .refl w.tree

/-- A role that has been written is furnished, and nothing went away. -/
theorem writeRole_furnished {job : Job} {format : Format} {directory : String} {w w' : World}
    (hdirectory : job.outputDirectory = .ok directory)
    (hrun : (writeRole job format).run w = (.ok (), w')) :
    Grows w.tree w'.tree ∧ ∃ p, Furnished w'.tree directory p := by
  rw [run_writeRole_eq hdirectory] at hrun
  obtain ⟨⟨⟩, w₁, hstructure, hfiles⟩ := Run.bind_ok_iff.mp hrun
  have hfirst := makeStructure_adds directory w
  have hrest := writeFiles_grows job format directory w₁
  rw [hstructure] at hfirst
  rw [hfiles] at hrest
  obtain ⟨p, hfurnished⟩ := makeStructure_furnished hstructure
  exact ⟨(Grows.of_adds hfirst).trans hrest, p, hfurnished.grow hrest⟩

/-! ## The second run -/

/-- A file in a folder of a role is set at its place, unless a directory is there. -/
theorem run_writeText_inRole {directory folder file : String} {p : List String} {w : World}
    (hrole : RoleAt w.tree directory p) (hfolder : folder ∈ mainDirectories)
    (hfile : Path.IsName file) (hplace : w.tree.get? (p ++ [folder] ++ [file]) ≠ some .directory)
    (text : String) : (Work.writeText (Path.join (Path.join directory folder) file) text).run w
      = (.ok (), { w with tree := w.tree.setFiles [(p ++ [folder] ++ [file], text.toUTF8)] }) := by
  rw [Work.writeText, Work.run_files, Filing.run_write _ (hrole.follow hfolder hfile) hplace
    (hfile.not_endsInSlash _)]
  rfl

/-- No directory stands where a file is to go. -/
def Free (tree : FileTree) (files : List (List String × ByteArray)) : Prop :=
  ∀ place ∈ files.map Prod.fst, tree.get? place ≠ some .directory

/-- Files in places that are free of directories leave the directories as they are. -/
theorem sameDirectories_setFiles (files : List (List String × ByteArray)) :
    ∀ {tree : FileTree}, Free tree files → tree.SameDirectories (tree.setFiles files) := by
  induction files with
  | nil => intro tree _ place; rfl
  | cons file rest ih =>
      intro tree hfree
      have hfirst := FileTree.sameDirectories_set file.2 (hfree file.1 List.mem_cons_self)
      refine hfirst.trans (ih fun other hother hdirectory => ?_)
      exact hfree other (List.mem_cons_of_mem _ hother) ((hfirst _).mp hdirectory)

theorem Free.of_same {tree tree' : FileTree} {files : List (List String × ByteArray)}
    (h : Free tree files) (hsame : tree.SameDirectories tree') : Free tree' files :=
  fun place hplace hdirectory => h place hplace ((hsame place).mp hdirectory)

/-- Sections with variables that can be gone through are written where nothing is in the way. -/
theorem run_writeSections {job : Job} {format : Format} {directory : String} {p : List String}
    (hopened : job.opened = true) : ∀ {sections : List Section} {w : World},
      (∀ s ∈ filled sections, Path.IsName (taskFile s)) →
      (∀ s ∈ filled sections, ∃ items, s.exportItems = .ok items) →
      RoleAt w.tree directory p → Free w.tree (taskFiles format p (filled sections)) →
      (writeSections job format directory sections).run w
        = (.ok ((filled sections).map includeEntry,
            (filled sections).flatMap Section.variableItems),
          { w with tree := w.tree.setFiles (taskFiles format p (filled sections)) }) := by
  intro sections
  induction sections with
  | nil => intro w _ _ _ _; rfl
  | cons s rest ih =>
      intro w hnames hitems hrole hfree
      have htasks : job.tasksOf s = .ok s.tasks := by rw [Job.tasksOf, if_pos hopened]
      rw [writeSections, Run.liftM_bind_ok htasks]
      by_cases hfilled : s.tasks.isTruthy = true
      · have hsections : filled (s :: rest) = s :: filled rest := List.filter_cons_of_pos hfilled
        rw [hsections] at hnames hitems hfree ⊢
        obtain ⟨items, hitem⟩ := hitems s List.mem_cons_self
        have hplace : w.tree.get? (taskPlace p (taskFile s)) ≠ some .directory :=
          hfree _ List.mem_cons_self
        have hsame := FileTree.sameDirectories_set (format.serialize s.tasks).toUTF8 hplace
        have hwrite : (Work.writeText (taskPath directory (taskFile s))
            (format.serialize s.tasks)).run w = _ :=
          run_writeText_inRole hrole (by decide) (hnames s List.mem_cons_self) hplace _
        rw [if_pos hfilled, Run.liftM_bind_ok hitem, Run.bind_of_ok hwrite]
        refine (Run.bind_of_ok (ih ?_ ?_ ?_ ?_) _).trans ?_
        · exact fun t ht => hnames t (List.mem_cons_of_mem s ht)
        · exact fun t ht => hitems t (List.mem_cons_of_mem s ht)
        · exact hrole.mono fun place => (hsame place).mpr
        · exact Free.of_same (fun place hmem => hfree place (List.mem_cons_of_mem _ hmem)) hsame
        · rw [List.flatMap_cons, Section.exportItems_ok hitem]
          rfl
      · have hsections : filled (s :: rest) = filled rest := List.filter_cons_of_neg hfilled
        rw [hsections] at hnames hitems hfree ⊢
        rw [if_neg hfilled]
        exact ih hnames hitems hrole hfree

/-- A furnished role gets its files, where nothing is in the way. -/
theorem Furnished.run_writeRole {job : Job} {format : Format} {directory : String}
    {p : List String} {w : World} (hfurnished : Furnished w.tree directory p)
    (hdirectory : job.outputDirectory = .ok directory) (hopened : job.opened = true)
    (hnames : ∀ s ∈ filled job.sections, Path.IsName (taskFile s))
    (hitems : ∀ s ∈ filled job.sections, ∃ items, s.exportItems = .ok items)
    (hfree : Free w.tree (roleFiles format p (filled job.sections))) :
    (writeRole job format).run w
      = (.ok (),
          { w with tree := w.tree.setFiles (roleFiles format p (filled job.sections)) }) := by
  rw [roleFiles, FileTree.setFiles_append, FileTree.setFiles_append]
  -- each list of files leaves the directories for the next one as they are
  have hfree₁ : Free w.tree (taskFiles format p (filled job.sections)) := by
    intro place hplace
    refine hfree place ?_
    rw [roleFiles, List.map_append, List.map_append]
    exact List.mem_append_left _ (List.mem_append_left _ hplace)
  have hsame₁ := sameDirectories_setFiles _ hfree₁
  have hrole₁ := hfurnished.toRoleAt.mono fun place => (hsame₁ place).mpr
  have hmain : (w.tree.setFiles (taskFiles format p (filled job.sections))).get?
      (taskPlace p "main.yml") ≠ some .directory := by
    refine fun hdirectory => hfree _ ?_ ((hsame₁ _).mp hdirectory)
    rw [roleFiles, List.map_append, List.map_append]
    exact List.mem_append_left _ (List.mem_append_right _ List.mem_cons_self)
  have hsame₂ := hsame₁.trans (FileTree.sameDirectories_set
    (format.serialize (.list ((filled job.sections).map includeEntry))).toUTF8 hmain)
  have hwrite : ∀ text, (Work.writeText (taskPath directory "main.yml") text).run
      { w with tree := w.tree.setFiles (taskFiles format p (filled job.sections)) } = _ :=
    run_writeText_inRole hrole₁ (by decide) isName_main hmain
  rw [run_writeRole_eq hdirectory, Run.bind_of_ok hfurnished.run_makeStructure, writeFiles,
    Run.bind_of_ok (hfurnished.run_makeDirectories (by decide)),
    Run.bind_of_ok (run_writeSections hopened hnames hitems hfurnished.toRoleAt hfree₁)]
  refine (Run.bind_of_ok (hwrite _) _).trans ?_
  cases hexports : (filled job.sections).flatMap Section.variableItems with
  | nil => rfl
  | cons item more =>
      refine run_writeText_inRole (hfurnished.toRoleAt.mono fun place => (hsame₂ place).mpr)
        (by decide) isName_vars (fun hdirectory => ?_) _
      refine hfree _ ?_ ((hsame₂ _).mp hdirectory)
      rw [roleFiles, hexports, List.map_append]
      exact List.mem_append_right _ List.mem_cons_self

/-- Sections that were written have given out their tasks, with variables to go through. -/
theorem writeSections_items {job : Job} {format : Format} {directory : String} :
    ∀ {sections : List Section} {w w' : World} {found : List Value × List Value},
      (writeSections job format directory sections).run w = (.ok found, w') →
      (job.opened = true ∨ sections = []) ∧
        ∀ s ∈ filled sections, ∃ items, s.exportItems = .ok items := by
  intro sections
  induction sections with
  | nil =>
      intro w w' found _
      exact ⟨.inr rfl, fun s hs => by cases hs⟩
  | cons s rest ih =>
      intro w w' found hrun
      obtain ⟨tasks, htasks, hrun⟩ := Run.liftM_bind_ok_iff.mp hrun
      have hopened : job.opened = true := by
        by_contra hclosed
        rw [Job.tasksOf, if_neg hclosed] at htasks
        cases htasks
      rw [Job.tasksOf, if_pos hopened] at htasks
      cases htasks
      refine ⟨.inl hopened, ?_⟩
      by_cases hfilled : s.tasks.isTruthy = true
      · rw [if_pos hfilled] at hrun
        obtain ⟨items, hitems, hrun⟩ := Run.liftM_bind_ok_iff.mp hrun
        obtain ⟨⟨⟩, w₁, -, hrun⟩ := Run.bind_ok_iff.mp hrun
        obtain ⟨more, w₂, hrest, -⟩ := Run.bind_ok_iff.mp hrun
        have hsections : filled (s :: rest) = s :: filled rest := List.filter_cons_of_pos hfilled
        rw [hsections, List.forall_mem_cons]
        exact ⟨⟨items, hitems⟩, (ih hrest).2⟩
      · rw [if_neg hfilled] at hrun
        have hsections : filled (s :: rest) = filled rest := List.filter_cons_of_neg hfilled
        rw [hsections]
        exact (ih hrun).2

/-- A role without sections is the same whether they are opened or not. -/
theorem run_writeRole_opened {job : Job} {format : Format} {w w' : World}
    (hrun : (writeRole job format).run w = (.ok (), w')) (v : World) :
    (writeRole { job with opened := true } format).run v = (writeRole job format).run v ∧
      ∀ s ∈ filled job.sections, ∃ items, s.exportItems = .ok items := by
  rw [writeRole] at hrun
  obtain ⟨directory, hdirectory, hrun⟩ := Run.liftM_bind_ok_iff.mp hrun
  obtain ⟨⟨⟩, w₁, -, hrun⟩ := Run.bind_ok_iff.mp hrun
  obtain ⟨⟨⟩, w₂, -, hrun⟩ := Run.bind_ok_iff.mp hrun
  obtain ⟨found, w₃, hsections, -⟩ := Run.bind_ok_iff.mp hrun
  obtain ⟨hopened, hitems⟩ := writeSections_items hsections
  refine ⟨?_, hitems⟩
  obtain ⟨sections, opened, file, output⟩ := job
  rcases hopened with hopened | hnone
  · obtain rfl : opened = true := hopened
    rfl
  · obtain rfl : sections = [] := hnone
    rfl

/-! ## What stays -/

/-- Places in the folders of a role tell the folder and the file. -/
theorem inFolder_inj {p : List String} {folder folder' file file' : String}
    (h : p ++ [folder] ++ [file] = p ++ [folder'] ++ [file']) :
    folder = folder' ∧ file = file' := by
  rw [List.append_assoc, List.append_assoc] at h
  simpa using List.append_cancel_left h

theorem other_mains : ∀ folder ∈ ["handlers", "vars", "defaults", "meta"],
    folder ∈ mainDirectories ∧ folder ≠ "tasks" := by
  decide

/-- The places of a role's files. -/
theorem mem_rolePlaces {format : Format} {p place : List String} {sections : List Section}
    (h : place ∈ (roleFiles format p sections).map Prod.fst) :
    (∃ s ∈ sections, place = taskPlace p (taskFile s)) ∨ place = taskPlace p "main.yml" ∨
      place = varsPlace p := by
  rw [roleFiles, List.map_append, List.map_append, map_fst_taskFiles, List.mem_append,
    List.mem_append] at h
  rcases h with (htask | hmain) | hvars
  · obtain ⟨s, hs, rfl⟩ := List.mem_map.mp htask
    exact .inl ⟨s, hs, rfl⟩
  · exact .inr (.inl (List.mem_singleton.mp hmain))
  · rw [varsFiles] at hvars
    split at hvars
    · cases hvars
    · exact .inr (.inr (List.mem_singleton.mp hvars))

/-- A role that was written is written once more without a change. -/
theorem run_writeRole_again {job : Job} {format : Format} {w w' : World}
    (hopened : job.opened = true) (hnames : ∀ s ∈ filled job.sections, Path.IsName (taskFile s))
    (hrun : (writeRole job format).run w = (.ok (), w')) :
    (writeRole job format).run w' = (.ok (), w') := by
  obtain ⟨directory, p, built, hdirectory, -, hrole, htree⟩ := writeRole_ok hopened hnames hrun
  obtain ⟨-, p', hfurnished⟩ := writeRole_furnished hdirectory hrun
  obtain rfl := hrole.leads.unique hfurnished.leads
  have hfree : Free w'.tree (roleFiles format p (filled job.sections)) := by
    intro place hplace hfound
    have hne : place ≠ [] := by
      rcases mem_rolePlaces hplace with ⟨s, -, rfl⟩ | rfl | rfl <;> exact List.concat_ne_nil _ _
    obtain ⟨content, hcontent⟩ := FileTree.isFile_setFiles hne _ hplace
    rw [htree, hcontent] at hfound
    cases hfound
  rw [hfurnished.run_writeRole hdirectory hopened hnames (run_writeRole_opened hrun w).2 hfree,
    htree, FileTree.setFiles_setFiles, ← htree]

/-- Whatever stood at a place that is none of a role's files is there when the role has been
    written. -/
theorem writeRole_leaves {job : Job} {format : Format} {w w' : World}
    (hopened : job.opened = true) (hnames : ∀ s ∈ filled job.sections, Path.IsName (taskFile s))
    (hrun : (writeRole job format).run w = (.ok (), w')) :
    ∃ directory p, job.outputDirectory = .ok directory ∧ RoleAt w'.tree directory p ∧
      ∀ place entry, w.tree.get? place = some entry →
        place ∉ (roleFiles format p (filled job.sections)).map Prod.fst →
        w'.tree.get? place = some entry := by
  obtain ⟨directory, p, built, hdirectory, hadds, hrole, htree⟩ := writeRole_ok hopened hnames hrun
  refine ⟨directory, p, hdirectory, hrole, fun place entry hentry hplace => ?_⟩
  rw [htree, FileTree.get?_setFiles_of_not_mem _ hplace]
  rcases hadds place with hsame | ⟨hnone, -⟩
  · rw [hsame, hentry]
  · rw [hentry] at hnone
    cases hnone

/-- A file that can be read stands at the place that its path leads to. -/
theorem entry_of_read {tree : FileTree} {path : String} {content : ByteArray}
    (h : tree.read path = .ok content) :
    ∃ place, tree.follow path = .ok place ∧ tree.get? place = some (.file content) := by
  obtain ⟨place, hfollow⟩ := FileTree.follow_of_read h
  refine ⟨place, hfollow, ?_⟩
  cases hplace : tree.get? place with
  | none => simp [FileTree.read, FileTree.find, hfollow, hplace, bind, Except.bind, throw, throwThe,
      MonadExceptOf.throw] at h
  | some entry =>
      cases entry with
      | directory => simp [FileTree.read, FileTree.find, hfollow, hplace, bind, Except.bind, pure,
          Except.pure, throw, throwThe, MonadExceptOf.throw] at h
      | file found =>
          cases hslash : Path.endsInSlash path with
          | true => simp [FileTree.read, FileTree.find, hfollow, hplace, hslash, bind, Except.bind,
              throw, throwThe, MonadExceptOf.throw] at h
          | false =>
              have hread := FileTree.read_of_follow hfollow hslash hplace
              rw [Except.ok.inj (hread.symm.trans h)]

/-- What could be read is read as before, if its place holds what it held. -/
theorem read_of_grows {tree tree' : FileTree} {path : String} {content : ByteArray}
    (hgrows : Grows tree tree') (h : tree.read path = .ok content) :
    ∃ place, tree'.follow path = .ok place ∧ tree.get? place = some (.file content) ∧
      (tree'.get? place = some (.file content) → tree'.read path = .ok content) := by
  obtain ⟨place, hfollow, hentry⟩ := entry_of_read h
  have hfollow' := FileTree.follow_mono hfollow hgrows.directories
  refine ⟨place, hfollow', hentry, fun hentry' => ?_⟩
  rw [FileTree.read_congr hfollow hfollow' (hentry'.trans hentry.symm)]
  exact h

theorem generate_role (job : Job) (format : Format) :
    generate .role job format = writeRole job format := rfl

/-- **Writing a role once more changes nothing**, and a role leaves alone what is not its own.
    A second run with the same sections ends well in the very same world.  A file that was there
    before is read as before, unless its path leads to the main file of the tasks, to the file of a
    section that has tasks, or to the file of variables; so the main files of the other folders keep
    what they held. -/
theorem role_written_again {job : Job} {format : Format} {w w' : World}
    (hnames : ∀ s ∈ filled job.sections, '/' ∉ s.name.display.toList)
    (hrun : (generate .role job format).run w = (.ok (), w')) :
    (generate .role job format).run w' = (.ok (), w') ∧
      ∃ directory, job.outputDirectory = .ok directory ∧
        (∀ path content, w.tree.read path = .ok content →
          w'.tree.read path = .ok content ∨
            ∃ own ∈ taskPath directory "main.yml" :: varsPath directory
                :: (filled job.sections).map fun s => taskPath directory (taskFile s),
              ∃ place, w'.tree.follow path = .ok place ∧ w'.tree.follow own = .ok place) ∧
        ∀ folder ∈ ["handlers", "vars", "defaults", "meta"], ∀ content,
          w.tree.read (Path.join (Path.join directory folder) "main.yml") = .ok content →
          w'.tree.read (Path.join (Path.join directory folder) "main.yml") = .ok content := by
  rw [generate_role] at hrun ⊢
  have hfiles : ∀ s ∈ filled job.sections, Path.IsName (taskFile s) :=
    fun s hs => isName_taskFile (hnames s hs)
  -- sections that were written have been opened; where there are none, that makes no difference
  have hopened : ∀ v, (writeRole { job with opened := true } format).run v
      = (writeRole job format).run v := fun v => (run_writeRole_opened hrun v).1
  have hagain := @run_writeRole_again { job with opened := true } format w w' rfl hfiles
    ((hopened w).trans hrun)
  obtain ⟨directory, p, hdirectory, hrole, hleaves⟩ := @writeRole_leaves
    { job with opened := true } format w w' rfl hfiles ((hopened w).trans hrun)
  have houtput : job.outputDirectory = .ok directory := hdirectory
  obtain ⟨hgrows, -⟩ := writeRole_furnished houtput hrun
  refine ⟨(hopened w').symm.trans hagain, directory, houtput, ?_, ?_⟩
  · intro path content hread
    obtain ⟨place, hfollow, hentry, hsame⟩ := read_of_grows hgrows hread
    by_cases hplace : place ∈ (roleFiles format p (filled job.sections)).map Prod.fst
    · right
      rcases mem_rolePlaces hplace with ⟨s, hs, rfl⟩ | rfl | rfl
      · refine ⟨taskPath directory (taskFile s), ?_, _, hfollow,
          hrole.follow (by decide) (hfiles s hs)⟩
        exact List.mem_cons_of_mem _ (List.mem_cons_of_mem _ (List.mem_map_of_mem hs))
      · exact ⟨_, List.mem_cons_self, _, hfollow, hrole.follow (by decide) isName_main⟩
      · exact ⟨_, List.mem_cons_of_mem _ List.mem_cons_self, _, hfollow,
          hrole.follow (by decide) isName_vars⟩
    · exact .inl (hsame (hleaves place _ hentry hplace))
  · intro folder hfolder content hread
    obtain ⟨hmain, htasks⟩ := other_mains folder hfolder
    obtain ⟨place, hfollow, hentry, hsame⟩ := read_of_grows hgrows hread
    obtain rfl := Except.ok.inj ((hrole.follow hmain isName_main).symm.trans hfollow)
    refine hsame (hleaves _ _ hentry fun hplace => ?_)
    -- the main files of the other folders are neither among the tasks nor the file of variables
    rcases mem_rolePlaces hplace with ⟨s, -, heq⟩ | heq | heq
    · exact htasks (inFolder_inj heq).1
    · exact htasks (inFolder_inj heq).1
    · exact absurd (inFolder_inj heq).2 (by decide)

/-- Two sections of one name and one that goes by the name of the main file: written once more,
    the role is the same, and the handlers are those that were there. -/
theorem role_with_namesakes_again :
    ∃ w', (generate .role
        { sections := [{ name := .text "users", tasks := .list [.text "add"] },
                       { name := .text "users", tasks := .list [.text "drop"],
                         exports := .list [singleEntry "SHELL" (.text "/bin/sh")] },
                       { name := .text "main", tasks := .list [.text "all"] }]
          opened := true, outputFile := .error .missingPart, outputDirectory := .ok "site" }
        .json).run { tree := ⟨[(["site"], .directory), (["site", "handlers"], .directory),
          (["site", "handlers", "main.yml"], .file "keep".toUTF8)]⟩ } = (.ok (), w') ∧
      (generate .role
        { sections := [{ name := .text "users", tasks := .list [.text "add"] },
                       { name := .text "users", tasks := .list [.text "drop"],
                         exports := .list [singleEntry "SHELL" (.text "/bin/sh")] },
                       { name := .text "main", tasks := .list [.text "all"] }]
          opened := true, outputFile := .error .missingPart, outputDirectory := .ok "site" }
        .json).run w' = (.ok (), w') ∧
      w'.tree.read (Path.join (Path.join "site" "handlers") "main.yml") = .ok "keep".toUTF8 := by
  refine Run.exists_of_isOk (by decide +kernel) fun w' hrun => ?_
  obtain ⟨hagain, directory, hdirectory, -, hkept⟩ := role_written_again (by decide) hrun
  obtain rfl : "site" = directory := Except.ok.inj hdirectory
  exact ⟨hagain, hkept "handlers" (by decide) _ (by rfl)⟩

end Generator

end Playscript
