import Mathlib.Data.List.Nodup
import Playscript.Generator
import Playscript.Proofs.FileTrees

/-! # The files of a role

    Writing a role makes its structure first, and then writes files: one for each section that has
    tasks, the main file that takes them in, and the variables if there are any.  The structure
    only adds to the tree (`makeStructure_adds`), and from there on the tree is that structure with
    a list of files set in it (`writeRole_ok`).  Under distinct names no file of the list stands in
    the place of another one, so each of them is read back as it was written.  The directory of a
    role is a path relative to the tree: from the root no role is written. -/

namespace Playscript

/-- The variables of a section, one by one; none if they are not of that shape. -/
def Section.variableItems (s : Section) : List Value :=
  s.exports.items?.getD []

/-- What a section exports are the items of its variables. -/
theorem Section.exportItems_ok {s : Section} {items : List Value} (h : s.exportItems = .ok items) :
    s.variableItems = items := by
  rw [variableItems]
  rw [exportItems] at h
  cases hitems : s.exports.items? with
  | none =>
      rw [hitems] at h
      cases h
  | some found =>
      rw [hitems] at h
      exact Except.ok.inj h

/-- The sections of a list that have tasks. -/
def filled (sections : List Section) : List Section :=
  sections.filter (·.tasks.isTruthy)

namespace Generator

/-! ## Names of files -/

theorem isName_main : Path.IsName "main.yml" := by decide

theorem isName_vars : Path.IsName "vars.yml" := by decide

theorem isName_of_mem_mainDirectories : ∀ {folder : String}, folder ∈ mainDirectories →
    Path.IsName folder := by
  decide

theorem toList_taskFile (s : Section) :
    (taskFile s).toList = s.name.display.toList ++ ['.', 'y', 'm', 'l'] :=
  String.toList_append

/-- The file of a section has a name that can stand in a directory, if the section has no slash in
    its own. -/
theorem isName_taskFile {s : Section} (h : '/' ∉ s.name.display.toList) :
    Path.IsName (taskFile s) := by
  have hlast : (taskFile s).toList.getLast? = some 'l' := by
    rw [toList_taskFile]
    simp
  refine ⟨?_, ?_, ?_, ?_⟩
  · rw [toList_taskFile]
    simp [h]
  all_goals
    intro heq
    rw [heq] at hlast
    revert hlast
    decide

theorem taskFile_inj {s s' : Section} (h : taskFile s = taskFile s') :
    s.name.display = s'.name.display := by
  have hlists := congrArg String.toList h
  rw [toList_taskFile, toList_taskFile, List.append_cancel_right_eq] at hlists
  exact String.toList_inj.mp hlists

/-! ## The structure -/

/-- What the structure of a role adds: directories, and main files with nothing in them yet. -/
def IsStructure (place : List String) (entry : FileEntry) : Prop :=
  entry = .directory ∨ place.getLast? = some "main.yml" ∧ entry = .file stub.toUTF8

theorem makeDirectories_adds (path : String) : Run.Respects (Work.OnTree (Filing.Adds IsStructure))
    (Work.files (Filing.makeDirectories path)) :=
  Work.respects_files fun tree => (Filing.makeDirectories_adds path tree).mono fun _ _ => .inl

/-- A stub is written only where its path leads to nothing. -/
theorem run_writeStub (directory name : String) (w : World) : (writeStub directory name).run w =
    if w.tree.exists? (Path.join (Path.join directory name) "main.yml") = true then (.ok (), w)
    else (Work.writeText (Path.join (Path.join directory name) "main.yml") stub).run w := by
  rw [writeStub, Work.ask, bind_assoc, Run.get_bind]
  cases h : w.tree.exists? (Path.join (Path.join directory name) "main.yml") with
  | true => rfl
  | false => rfl

/-- A stub is written where nothing is; otherwise what is there is kept. -/
theorem writeStub_adds (directory name : String) :
    Run.Respects (Work.OnTree (Filing.Adds IsStructure)) (writeStub directory name) := by
  intro w
  rw [run_writeStub]
  split
  · exact .refl _
  · rename_i hmissing
    rw [Work.writeText, Work.run_files]
    show Filing.Adds IsStructure w.tree _
    rcases Filing.run_write_cases w.tree _ stub.toUTF8 with
      ⟨f, hrun⟩ | ⟨place, hfollow, -, hslash, hrun⟩
    · rw [hrun]
      exact .refl _
    · rw [hrun]
      obtain ⟨q, -, -, rfl⟩ := (FileTree.follow_join_ok_iff isName_main).mp hfollow
      refine .set ?_ (.inr ⟨List.getLast?_concat, rfl⟩)
      -- whatever stood there would have been found
      cases hplace : w.tree.get? (q ++ ["main.yml"]) with
      | none => rfl
      | some entry => exact absurd (FileTree.exists_of_follow hfollow hslash hplace) hmissing

/-- The structure adds directories and stubs, one after the other. -/
theorem makeStructure_adds (directory : String) :
    Run.Respects (Work.OnTree (Filing.Adds IsStructure)) (makeStructure directory) := by
  have trans : ∀ ⦃t u v : World⦄, Work.OnTree (Filing.Adds IsStructure) t u →
      Work.OnTree (Filing.Adds IsStructure) u v → Work.OnTree (Filing.Adds IsStructure) t v :=
    fun _ _ _ h h' => h.trans h'
  exact (Run.Respects.forM (fun _ => .refl _) trans (fun _ => makeDirectories_adds _) _).bind trans
    fun _ => Run.Respects.forM (fun _ => .refl _) trans (writeStub_adds directory) _

/-- A role in a tree: where its directory is, with the folders that hold main files. -/
structure RoleAt (tree : FileTree) (directory : String) (p : List String) : Prop where
  leads : tree.Leads directory p
  home : tree.get? p = some .directory
  folders : ∀ folder ∈ mainDirectories, tree.get? (p ++ [folder]) = some .directory

/-- A role stays where it is if no directory is lost. -/
theorem RoleAt.mono {tree tree' : FileTree} {directory : String} {p : List String}
    (h : RoleAt tree directory p)
    (directories : ∀ place, tree.get? place = some .directory → tree'.get? place = some .directory) :
    RoleAt tree' directory p :=
  ⟨h.leads.mono directories, directories p h.home,
    fun folder hfolder => directories _ (h.folders folder hfolder)⟩

/-- A file in a folder of a role has its place there. -/
theorem RoleAt.follow {tree : FileTree} {directory folder file : String} {p : List String}
    (hrole : RoleAt tree directory p) (hfolder : folder ∈ mainDirectories)
    (hfile : Path.IsName file) :
    tree.follow (Path.join (Path.join directory folder) file) = .ok (p ++ [folder] ++ [file]) := by
  refine (FileTree.follow_join_ok_iff hfile).mpr
    ⟨p ++ [folder], ?_, hrole.folders folder hfolder, rfl⟩
  exact (FileTree.leads_join (isName_of_mem_mainDirectories hfolder)).mpr
    ⟨p, hrole.leads, hrole.home, rfl⟩

/-- A main file leads to its folder, whether it was there or has been written. -/
theorem writeStub_ok {directory folder : String} (hfolder : Path.IsName folder) {w w' : World}
    (hrun : (writeStub directory folder).run w = (.ok (), w')) :
    ∃ p, w'.tree.Leads directory p ∧ w'.tree.get? p = some .directory ∧
      w'.tree.get? (p ++ [folder]) = some .directory := by
  have leads_folder : ∀ {tree : FileTree} {q : List String},
      tree.Leads (Path.join directory folder) q → tree.get? q = some .directory →
      ∃ p, tree.Leads directory p ∧ tree.get? p = some .directory ∧
        tree.get? (p ++ [folder]) = some .directory := by
    intro tree q hq hdirectory
    obtain ⟨p, hp, hhome, rfl⟩ := (FileTree.leads_join hfolder).mp hq
    exact ⟨p, hp, hhome, hdirectory⟩
  rw [run_writeStub] at hrun
  split at hrun
  · rename_i hthere
    cases hrun
    obtain ⟨place, hfollow⟩ := FileTree.follow_of_exists hthere
    obtain ⟨q, hq, hdirectory, -⟩ := (FileTree.follow_join_ok_iff isName_main).mp hfollow
    exact leads_folder hq hdirectory
  · obtain ⟨q, hq, hdirectory, hplace, rfl⟩ := (Work.writeText_join_ok_iff isName_main).mp hrun
    have hsame := FileTree.sameDirectories_set stub.toUTF8 hplace
    exact leads_folder (hq.mono fun place => (hsame place).mpr) ((hsame q).mpr hdirectory)

/-- Once the structure of a role has been made, the role is there. -/
theorem makeStructure_ok {directory : String} {w w' : World}
    (hrun : (makeStructure directory).run w = (.ok (), w')) : ∃ p, RoleAt w'.tree directory p := by
  obtain ⟨⟨⟩, w₁, -, hstubs⟩ := Run.bind_ok_iff.mp hrun
  have folder_there : ∀ folder ∈ mainDirectories, ∃ p, w'.tree.Leads directory p ∧
      w'.tree.get? p = some .directory ∧ w'.tree.get? (p ++ [folder]) = some .directory := by
    intro folder hfolder
    obtain ⟨v, v', -, hstub, hlater⟩ := Run.forM_ok_of_mem (fun _ => .refl _)
      (fun _ _ _ h h' => h.trans h') (writeStub_adds directory) hstubs hfolder
    obtain ⟨p, hp, hhome, hat⟩ := writeStub_ok (isName_of_mem_mainDirectories hfolder) hstub
    exact ⟨p, hp.mono hlater.directories, hlater.directories _ hhome, hlater.directories _ hat⟩
  -- each folder comes with a place for the role, and they are all the same one
  obtain ⟨p, hp, hhome, -⟩ := folder_there "tasks" (by decide)
  refine ⟨p, hp, hhome, fun folder hfolder => ?_⟩
  obtain ⟨p', hp', -, hat⟩ := folder_there folder hfolder
  rw [hp.unique hp']
  exact hat

/-! ## The files -/

/-- The place of a file of a role's tasks. -/
def taskPlace (p : List String) (file : String) : List String :=
  p ++ ["tasks"] ++ [file]

/-- The place of a role's variables. -/
def varsPlace (p : List String) : List String :=
  p ++ ["vars"] ++ ["vars.yml"]

/-- The path of a role's variables. -/
def varsPath (directory : String) : String :=
  Path.join (Path.join directory "vars") "vars.yml"

/-- The files of the tasks of sections. -/
def taskFiles (format : Format) (p : List String) (sections : List Section) :
    List (List String × ByteArray) :=
  sections.map fun s => (taskPlace p (taskFile s), (format.serialize s.tasks).toUTF8)

/-- The file of variables, if there are any. -/
def varsFiles (p : List String) (exports : List Value) : List (List String × ByteArray) :=
  if exports.isEmpty then []
  else [(varsPlace p, (Yaml.render .exports (.list exports)).toUTF8)]

@[simp] theorem varsFiles_nil (p : List String) : varsFiles p [] = [] := rfl

/-- The files of a role with sections that have tasks, in the order in which they are written. -/
def roleFiles (format : Format) (p : List String) (sections : List Section) :
    List (List String × ByteArray) :=
  taskFiles format p sections
    ++ [(taskPlace p "main.yml", (format.serialize (.list (sections.map includeEntry))).toUTF8)]
    ++ varsFiles p (sections.flatMap Section.variableItems)

/-- A file in a folder of a role is written to its place. -/
theorem writeText_inRole {directory folder file text : String} {p : List String}
    (hfolder : folder ∈ mainDirectories) (hfile : Path.IsName file) {w w' : World}
    (hrole : RoleAt w.tree directory p)
    (hrun : (Work.writeText (Path.join (Path.join directory folder) file) text).run w
      = (.ok (), w')) :
    w'.tree = w.tree.set (p ++ [folder] ++ [file]) (.file text.toUTF8) ∧
      w.tree.SameDirectories w'.tree := by
  obtain ⟨q, hq, -, hplace, rfl⟩ := (Work.writeText_join_ok_iff hfile).mp hrun
  obtain ⟨p', hp', -, rfl⟩ := (FileTree.leads_join (isName_of_mem_mainDirectories hfolder)).mp hq
  rw [hrole.leads.unique hp']
  exact ⟨rfl, FileTree.sameDirectories_set _ hplace⟩

/-- A file in a folder of a role is read at its place. -/
theorem RoleAt.read {tree : FileTree} {directory folder file : String} {p : List String}
    {content : ByteArray} (hrole : RoleAt tree directory p) (hfolder : folder ∈ mainDirectories)
    (hfile : Path.IsName file)
    (hplace : tree.get? (p ++ [folder] ++ [file]) = some (.file content)) :
    tree.read (Path.join (Path.join directory folder) file) = .ok content :=
  FileTree.read_of_follow (hrole.follow hfolder hfile) (hfile.not_endsInSlash _) hplace

/-- The variables are written if there are any. -/
theorem writeVars_ok {directory : String} {p : List String} {exports : List Value} {w w' : World}
    (hrole : RoleAt w.tree directory p)
    (hrun : (if !exports.isEmpty then
        Work.writeText (varsPath directory) (Yaml.render .exports (.list exports))
      else pure () : Work Unit).run w = (.ok (), w')) :
    w'.tree = w.tree.setFiles (varsFiles p exports) ∧ w.tree.SameDirectories w'.tree := by
  cases exports with
  | nil =>
      cases hrun
      exact ⟨rfl, fun _ => .rfl⟩
  | cons item more => exact writeText_inRole (by decide) isName_vars hrole hrun

/-- The sections that have tasks are written one by one: the tree gets their files, and what comes
    back are their entries and their variables. -/
theorem writeSections_ok {job : Job} {format : Format} {directory : String} {p : List String}
    (hopened : job.opened = true) : ∀ {sections : List Section} {w w' : World}
      {entries exports : List Value}, (∀ s ∈ filled sections, Path.IsName (taskFile s)) →
      RoleAt w.tree directory p →
      (writeSections job format directory sections).run w = (.ok (entries, exports), w') →
      entries = (filled sections).map includeEntry ∧
        exports = (filled sections).flatMap Section.variableItems ∧
        w'.tree = w.tree.setFiles (taskFiles format p (filled sections)) ∧
        w.tree.SameDirectories w'.tree := by
  intro sections
  induction sections with
  | nil =>
      intro w w' entries exports _ _ hrun
      cases hrun
      exact ⟨rfl, rfl, rfl, fun _ => .rfl⟩
  | cons s rest ih =>
      intro w w' entries exports hnames hrole hrun
      have htasks : job.tasksOf s = .ok s.tasks := by rw [Job.tasksOf, if_pos hopened]
      rw [writeSections, Run.liftM_bind_ok htasks] at hrun
      by_cases hfilled : s.tasks.isTruthy = true
      · have hsections : filled (s :: rest) = s :: filled rest := List.filter_cons_of_pos hfilled
        rw [hsections] at hnames ⊢
        rw [if_pos hfilled] at hrun
        obtain ⟨items, hitems, hrun⟩ := Run.liftM_bind_ok_iff.mp hrun
        obtain ⟨⟨⟩, w₁, hwrite, hrun⟩ := Run.bind_ok_iff.mp hrun
        obtain ⟨⟨more, others⟩, w₂, hrest, hrun⟩ := Run.bind_ok_iff.mp hrun
        obtain ⟨hfirst, hsame⟩ :=
          writeText_inRole (by decide) (hnames s List.mem_cons_self) hrole hwrite
        -- a file takes the place of no directory, so the role is still at `p` for the rest
        obtain ⟨rfl, rfl, htree, hsame'⟩ := ih (fun t ht => hnames t (List.mem_cons_of_mem s ht))
          (hrole.mono fun place => (hsame place).mpr) hrest
        cases hrun
        refine ⟨rfl, ?_, ?_, hsame.trans hsame'⟩
        · rw [List.flatMap_cons, Section.exportItems_ok hitems]
        · rw [htree, hfirst]
          rfl
      · have hsections : filled (s :: rest) = filled rest := List.filter_cons_of_neg hfilled
        rw [hsections] at hnames ⊢
        rw [if_neg hfilled] at hrun
        exact ih hnames hrole hrun

/-- **A role is its structure with files set in it.** -/
theorem writeRole_ok {job : Job} {format : Format} {w w' : World} (hopened : job.opened = true)
    (hnames : ∀ s ∈ filled job.sections, Path.IsName (taskFile s))
    (hrun : (writeRole job format).run w = (.ok (), w')) :
    ∃ directory p built, job.outputDirectory = .ok directory ∧
      Filing.Adds IsStructure w.tree built ∧ RoleAt w'.tree directory p ∧
      w'.tree = built.setFiles (roleFiles format p (filled job.sections)) := by
  rw [writeRole] at hrun
  obtain ⟨directory, hdirectory, hrun⟩ := Run.liftM_bind_ok_iff.mp hrun
  obtain ⟨⟨⟩, w₁, hstructure, hrun⟩ := Run.bind_ok_iff.mp hrun
  obtain ⟨⟨⟩, w₂, htasks, hrun⟩ := Run.bind_ok_iff.mp hrun
  obtain ⟨⟨entries, exports⟩, w₃, hsections, hrun⟩ := Run.bind_ok_iff.mp hrun
  obtain ⟨⟨⟩, w₄, hmain, hvars⟩ := Run.bind_ok_iff.mp hrun
  have hadds : Filing.Adds IsStructure w.tree w₁.tree := by
    have h := makeStructure_adds directory w
    rwa [hstructure] at h
  have hadds' : Filing.Adds IsStructure w₁.tree w₂.tree := by
    have h := makeDirectories_adds (Path.join directory "tasks") w₁
    rwa [htasks] at h
  -- from here on only files are written, so all of them go to the role at the one place `p`
  obtain ⟨p, hrole₁⟩ := makeStructure_ok hstructure
  have hrole₂ : RoleAt w₂.tree directory p := hrole₁.mono hadds'.directories
  obtain ⟨rfl, rfl, htree₃, hsame₃⟩ := writeSections_ok hopened hnames hrole₂ hsections
  have hrole₃ : RoleAt w₃.tree directory p := hrole₂.mono fun place => (hsame₃ place).mpr
  obtain ⟨htree₄, hsame₄⟩ := writeText_inRole (by decide) isName_main hrole₃ hmain
  have hrole₄ : RoleAt w₄.tree directory p := hrole₃.mono fun place => (hsame₄ place).mpr
  obtain ⟨htree', hsame'⟩ := writeVars_ok hrole₄ hvars
  refine ⟨directory, p, w₂.tree, hdirectory, hadds.trans hadds',
    hrole₄.mono fun place => (hsame' place).mpr, ?_⟩
  rw [htree', htree₄, htree₃, roleFiles, FileTree.setFiles_append, FileTree.setFiles_append]
  rfl

/-! ## What is read back -/

/-- The structure of a role touches no file but main files. -/
theorem contentAt_of_adds {tree tree' : FileTree} {place : List String}
    (h : Filing.Adds IsStructure tree tree') (hplace : place.getLast? ≠ some "main.yml") :
    tree'.contentAt place = tree.contentAt place := by
  rcases h place with hsame | ⟨hnone, entry, hentry, hnew⟩
  · exact FileTree.contentAt_congr hsame
  · rcases hnew with rfl | ⟨hmain, -⟩
    · rw [FileTree.contentAt, FileTree.contentAt, hnone, hentry]
    · exact absurd hmain hplace

theorem taskPlace_inj {p : List String} {file file' : String}
    (h : taskPlace p file = taskPlace p file') : file = file' := by
  have htails := List.append_cancel_left h
  exact List.head_eq_of_cons_eq htails

/-- Variables and tasks are in different folders. -/
theorem varsPlace_ne_taskPlace (p : List String) (file : String) :
    varsPlace p ≠ taskPlace p file := by
  rw [varsPlace, taskPlace, List.append_assoc, List.append_assoc]
  intro h
  have htails := List.append_cancel_left h
  exact absurd (List.head_eq_of_cons_eq htails) (by decide)

/-- Sections of different names have different files. -/
theorem nodup_taskPlaces {p : List String} {sections : List Section}
    (hdistinct : (sections.map (·.name.display)).Nodup) :
    (sections.map fun s => taskPlace p (taskFile s)).Nodup := by
  have hpairs := List.pairwise_map.mp hdistinct
  refine List.pairwise_map.mpr (hpairs.imp fun hne heq => ?_)
  exact hne (taskFile_inj (taskPlace_inj heq))

theorem map_fst_taskFiles (format : Format) (p : List String) (sections : List Section) :
    (taskFiles format p sections).map Prod.fst
      = sections.map fun s => taskPlace p (taskFile s) := by
  rw [taskFiles, List.map_map]
  rfl

/-- Sections under distinct names, none of them the name of the main file, have a file each. -/
theorem nodup_roleFiles (format : Format) (p : List String) {sections : List Section}
    (hdistinct : (sections.map (·.name.display)).Nodup)
    (hmain : ∀ s ∈ sections, s.name.display ≠ "main") :
    ((roleFiles format p sections).map Prod.fst).Nodup := by
  have htasks : (sections.map (fun s => taskPlace p (taskFile s))
      ++ [taskPlace p "main.yml"]).Nodup := by
    refine List.nodup_append.mpr ⟨nodup_taskPlaces hdistinct, List.nodup_singleton _, ?_⟩
    intro place hplace other hother heq
    obtain ⟨s, hs, rfl⟩ := List.mem_map.mp hplace
    rw [List.mem_singleton.mp hother] at heq
    -- the main file is the file that a section of the name `main` would have
    have hname : taskFile s = taskFile { name := .text "main" } := taskPlace_inj heq
    exact hmain s hs (taskFile_inj hname)
  rw [roleFiles, List.map_append, List.map_append, map_fst_taskFiles]
  cases hexports : sections.flatMap Section.variableItems with
  | nil =>
      rw [varsFiles_nil, List.map_nil, List.append_nil]
      exact htasks
  | cons item more =>
      refine List.nodup_append.mpr ⟨htasks, List.nodup_singleton _, ?_⟩
      intro place hplace other hother
      rw [List.mem_singleton.mp hother]
      -- everything in front of the variables is in the folder of the tasks
      rcases List.mem_append.mp hplace with hplace | hplace
      · obtain ⟨s, -, rfl⟩ := List.mem_map.mp hplace
        exact (varsPlace_ne_taskPlace p _).symm
      · rw [List.mem_singleton.mp hplace]
        exact (varsPlace_ne_taskPlace p _).symm

/-- Without variables no file is written for them. -/
theorem varsPlace_not_mem {format : Format} {p : List String} {sections : List Section}
    (h : sections.flatMap Section.variableItems = []) :
    varsPlace p ∉ (roleFiles format p sections).map Prod.fst := by
  rw [roleFiles, List.map_append, List.map_append, map_fst_taskFiles, h, varsFiles_nil,
    List.map_nil, List.append_nil]
  intro hmem
  rcases List.mem_append.mp hmem with hmem | hmem
  · obtain ⟨s, -, heq⟩ := List.mem_map.mp hmem
    exact varsPlace_ne_taskPlace p _ heq.symm
  · exact varsPlace_ne_taskPlace p _ (List.mem_singleton.mp hmem)

/-- **A role holds what its sections give.**  Under distinct names its main file takes in the
    sections that have tasks, in order, the file of each of them holds its tasks, and the variables
    of all of them are written one behind the other; without variables, the file for them stays as
    it was. -/
theorem role_holds_filled_sections {job : Job} {format : Format} {w w' : World}
    (hopened : job.opened = true)
    (hdistinct : ((filled job.sections).map (·.name.display)).Nodup)
    (hnames : ∀ s ∈ filled job.sections, '/' ∉ s.name.display.toList ∧ s.name.display ≠ "main")
    (hrun : (generate .role job format).run w = (.ok (), w')) :
    ∃ directory, job.outputDirectory = .ok directory ∧
      w'.tree.read (Path.join (Path.join directory "tasks") "main.yml")
        = .ok (format.serialize (.list ((filled job.sections).map fun s =>
            singleEntry "include_tasks" (.text (s.name.display ++ ".yml"))))).toUTF8 ∧
      (∀ s ∈ filled job.sections,
        w'.tree.read (Path.join (Path.join directory "tasks") (s.name.display ++ ".yml"))
          = .ok (format.serialize s.tasks).toUTF8) ∧
      ((filled job.sections).flatMap Section.variableItems ≠ [] →
        w'.tree.read (Path.join (Path.join directory "vars") "vars.yml")
          = .ok (Yaml.render .exports
              (.list ((filled job.sections).flatMap Section.variableItems))).toUTF8) ∧
      ((filled job.sections).flatMap Section.variableItems = [] →
        ∃ place, w'.tree.follow (Path.join (Path.join directory "vars") "vars.yml") = .ok place ∧
          w'.tree.contentAt place = w.tree.contentAt place) := by
  have hfiles : ∀ s ∈ filled job.sections, Path.IsName (taskFile s) :=
    fun s hs => isName_taskFile (hnames s hs).1
  obtain ⟨directory, p, built, hdirectory, hadds, hrole, htree⟩ := writeRole_ok hopened hfiles hrun
  have hplaces := nodup_roleFiles format p hdistinct fun s hs => (hnames s hs).2
  have there : ∀ folder name content,
      (p ++ [folder] ++ [name], content) ∈ roleFiles format p (filled job.sections) →
      w'.tree.get? (p ++ [folder] ++ [name]) = some (.file content) := by
    intro folder name content hmem
    rw [htree]
    exact FileTree.get?_setFiles_of_mem _ hplaces hmem (by simp) built
  refine ⟨directory, hdirectory, ?_, ?_, ?_, ?_⟩
  · refine hrole.read (by decide) isName_main (there _ _ _ ?_)
    exact List.mem_append_left _ (List.mem_append_right _ List.mem_cons_self)
  · intro s hs
    refine hrole.read (by decide) (hfiles s hs) (there _ _ _ ?_)
    exact List.mem_append_left _ (List.mem_append_left _ (List.mem_map_of_mem hs))
  · intro hvars
    refine hrole.read (by decide) isName_vars (there _ _ _ ?_)
    refine List.mem_append_right _ ?_
    rw [varsFiles, if_neg (by simpa using hvars)]
    exact List.mem_cons_self
  · intro hvars
    refine ⟨varsPlace p, hrole.follow (by decide) isName_vars, ?_⟩
    have hbuilt : w'.tree.get? (varsPlace p) = built.get? (varsPlace p) := by
      rw [htree]
      exact FileTree.get?_setFiles_of_not_mem _ (varsPlace_not_mem hvars) built
    rw [FileTree.contentAt_congr hbuilt]
    exact contentAt_of_adds hadds (by simp [varsPlace])

/-- A role is written over an older one: the section without tasks leaves no file and no
    variables behind. -/
theorem role_over_older_role :
    ∃ w', (generate .role
        { sections := [{ name := .text "users", tasks := .list [.text "add"],
                         exports := .list [singleEntry "SHELL" (.text "/bin/sh")] },
                       { name := .text "none", exports := .list [singleEntry "A" (.text "b")] },
                       { name := .text "mail", tasks := .list [.text "send"] }]
          opened := true, outputFile := .error .missingPart, outputDirectory := .ok "site" }
        .yaml).run { tree := ⟨[(["site"], .directory), (["site", "tasks"], .directory),
          (["site", "tasks", "main.yml"], .file "old".toUTF8)]⟩ } = (.ok (), w') ∧
      w'.tree.read (Path.join (Path.join "site" "tasks") "main.yml")
        = .ok (Format.yaml.serialize (.list (["users", "mail"].map fun name =>
            singleEntry "include_tasks" (.text (name ++ ".yml"))))).toUTF8 ∧
      w'.tree.read (Path.join (Path.join "site" "tasks") ("mail" ++ ".yml"))
        = .ok (Format.yaml.serialize (.list [.text "send"])).toUTF8 ∧
      w'.tree.read (Path.join (Path.join "site" "vars") "vars.yml")
        = .ok (Yaml.render .exports (.list [singleEntry "SHELL" (.text "/bin/sh")])).toUTF8 := by
  refine Run.exists_of_isOk (by decide +kernel) fun w' hrun => ?_
  obtain ⟨directory, hdirectory, hmain, htasks, hvars, -⟩ :=
    role_holds_filled_sections (by rfl) (by decide) (by decide) hrun
  obtain rfl : "site" = directory := Except.ok.inj hdirectory
  refine ⟨hmain, htasks { name := .text "mail", tasks := .list [.text "send"] } ?_, hvars ?_⟩
  · exact List.mem_cons_of_mem _ List.mem_cons_self
  · exact List.cons_ne_nil _ _

end Generator

end Playscript
