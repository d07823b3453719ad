import Playscript.Proofs.RoleDestinations
import Playscript.Proofs.WantedFiles
import Playscript.Proofs.Wildcards

/-! # The files of a role

    The conversion of a role goes through its directories of files and through the entries of each.
    What it does on the way only meets what is wanted, and only adds tasks for directories that are
    carried over (`Proceeds`).  In the end all of them have been (`convertAllFiles_proceeds`), and
    nothing else: a file that lies in a directory of files itself, or below a hidden name in one,
    is not kept (`file_kept_iff`).  The paths of the role and of its files are relative to the
    tree. -/

namespace Playscript.RoleConversion

/-! ## One directory -/

/-- The task for a directory that is carried over. -/
def taskFor (c : RoleConversion) (name top : String) : Task :=
  copyTask (.text (Path.join (filesName c.name name) top)) (.text (Path.join "/" top))
    (filesCondition c.name name)

/-- The last section has a list of tasks. -/
def Ready (sections : List Section) : Prop :=
  ∃ front s items, sections = front ++ [s] ∧ s.tasks = .list items

/-- A section has a task. -/
def Emitted (sections : List Section) (v : Value) : Prop :=
  ∃ s ∈ sections, ∃ items, s.tasks = .list items ∧ v ∈ items

theorem emitted_append {sections more : List Section} {v : Value} :
    Emitted (sections ++ more) v ↔ Emitted sections v ∨ Emitted more v := by
  simp only [Emitted, List.mem_append, or_and_right, exists_or]

theorem emitted_singleton {s : Section} {items : List Value} (h : s.tasks = .list items)
    {v : Value} : Emitted [s] v ↔ v ∈ items := by
  constructor
  · rintro ⟨s', hs', items', hitems', hv⟩
    rw [List.mem_singleton.mp hs', h] at hitems'
    cases hitems'
    exact hv
  · intro hv
    exact ⟨s, List.mem_singleton_self s, items, h, hv⟩

/-- A task goes to the last section, and those in front stay as they are. -/
theorem addToLast_concat (task : Task) (front : List Section) (s : Section) :
    addToLast task (front ++ [s]) = (s.addTask task.toValue).map fun s' => front ++ [s'] := by
  induction front with
  | nil =>
      rw [List.nil_append, addToLast]
      cases s.addTask task.toValue with
      | error f => rfl
      | ok s' => rfl
  | cons first rest ih =>
      have hne : rest ++ [s] ≠ [] := List.concat_ne_nil s rest
      rw [List.cons_append, addToLast, ih]
      · cases s.addTask task.toValue with
        | error f => rfl
        | ok s' => rfl
      · exact hne

/-- A task is added to the last section, and no other. -/
theorem addToLast_ok (task : Task) {sections : List Section} (h : Ready sections) :
    ∃ sections', addToLast task sections = .ok sections' ∧ Ready sections' ∧
      ∀ v, Emitted sections' v ↔ Emitted sections v ∨ v = task.toValue := by
  obtain ⟨front, s, items, rfl, hitems⟩ := h
  have hadd : s.addTask task.toValue
      = .ok { s with tasks := .list (items ++ [task.toValue]) } := by
    rw [Section.addTask, hitems]
  refine ⟨_, by rw [addToLast_concat, hadd]; rfl, ⟨front, _, _, rfl, rfl⟩, fun v => ?_⟩
  rw [emitted_append, emitted_append, emitted_singleton rfl, emitted_singleton hitems,
    List.mem_append, List.mem_singleton, or_assoc]

theorem run_ask {α : Type} (question : FileTree → α) (shop : Workshop) :
    (Converting.work (Work.ask question)).run shop = (.ok (question shop.world.tree), shop) := rfl

theorem run_convertEntry_of_not {c : RoleConversion} {files entry : String} {shop : Workshop}
    (h : shop.world.tree.isDirectory entry = false) :
    (c.convertEntry files entry).run shop = (.ok (), shop) := by
  rw [convertEntry, Run.bind_of_ok (run_ask _ shop), h]
  rfl

/-- A directory is copied, and the task for it goes to the last section, if both can be done. -/
theorem run_convertEntry {c : RoleConversion} {files entry name top : String} {shop : Workshop}
    {tree' : FileTree} {sections' : List Section}
    (hdirectory : shop.world.tree.isDirectory entry = true) (hname : Path.baseName files = name)
    (htop : Path.relative entry files = top)
    (hcopy : (Filing.copyTree (shop.world.tree.entries.length + 1) entry
      (Path.join (c.filesTarget name) top)).run shop.world.tree = (.ok (), tree'))
    (hadd : addToLast (c.taskFor name top) shop.sections = .ok sections') :
    (c.convertEntry files entry).run shop
      = (.ok (), { world := { shop.world with tree := tree' }, sections := sections' }) := by
  have hwork : (Converting.work (Work.files (Filing.copyTree (shop.world.tree.entries.length + 1)
      entry (Path.join (c.filesTarget name) top)))).run shop
      = (.ok (), { shop with world := { shop.world with tree := tree' } }) := by
    rw [Converting.run_work, Work.run_files, hcopy]
  rw [convertEntry, Run.bind_of_ok (run_ask _ shop), hdirectory, hname, htop]
  simp only [if_true]
  rw [Run.get_bind, Run.bind_of_ok hwork, Run.get_bind]
  exact Run.liftM_bind_ok hadd _ _

/-! ## All directories -/

section Loops

variable {c : RoleConversion} {tree : FileTree} {role : List String}

variable (c tree role) in
/-- What a part of the conversion may do: meet what is wanted, and add tasks for directories that
    are carried over. -/
structure Proceeds (shop shop' : Workshop) : Prop where
  meets : FileTree.Meets (c.Wanted tree role) shop.world.tree shop'.world.tree
  keeps : ∀ v, Emitted shop.sections v → Emitted shop'.sections v
  adds : ∀ v, Emitted shop'.sections v → Emitted shop.sections v ∨
    ∃ name top, Carries tree role name top ∧ v = (c.taskFor name top).toValue
  ready : Ready shop.sections → Ready shop'.sections

namespace Proceeds

theorem refl (shop : Workshop) : c.Proceeds tree role shop shop :=
  ⟨.refl _, fun _ h => h, fun _ h => .inl h, fun h => h⟩

theorem trans ⦃s t u : Workshop⦄ (h : c.Proceeds tree role s t) (h' : c.Proceeds tree role t u) :
    c.Proceeds tree role s u where
  meets := h.meets.trans h'.meets
  keeps v hv := h'.keeps v (h.keeps v hv)
  adds v hv := (h'.adds v hv).elim (h.adds v) .inr
  ready hs := h'.ready (h.ready hs)

end Proceeds

variable (c tree role) in
/-- A directory has been carried over, and a task brings it to its place. -/
structure CarriedOver (name top : String) (shop : Workshop) : Prop where
  copied : Filing.Copied tree shop.world.tree (role ++ [name, top]) (c.goalOf name ++ [top])
  task : Emitted shop.sections (c.taskFor name top).toValue

theorem CarriedOver.keeps (h : Convertible c tree role) {name top : String} {shop shop' : Workshop}
    (hcarries : Carries tree role name top) (hover : c.CarriedOver tree role name top shop)
    (hmeets : FileTree.Meets (c.Wanted tree role) tree shop.world.tree)
    (hproceeds : c.Proceeds tree role shop shop') : c.CarriedOver tree role name top shop' where
  copied q entry hq := by
    refine hproceeds.meets.keeps (hmeets.meetable h.meetable) ?_ (hover.copied q entry hq)
    rw [List.append_assoc] at hq ⊢
    exact .below hcarries hq
  task := hproceeds.keeps _ hover.task

/-- One entry of a directory of files. -/
theorem convertEntry_proceeds (h : Convertible c tree role) {shop : Workshop}
    (hmeets : FileTree.Meets (c.Wanted tree role) tree shop.world.tree)
    (hready : Ready shop.sections) {files name top : String} (hfiles : IsFiles name)
    (hleads : shop.world.tree.follow files = .ok (role ++ [name]))
    (hbase : Path.baseName files = name) (hvisible : Wildcard.isHidden top = false)
    (hthere : tree.get? (role ++ [name, top]) ≠ none) :
    ∃ shop', (c.convertEntry files (Path.join files top)).run shop = (.ok (), shop') ∧
      c.Proceeds tree role shop shop' ∧
      (Carries tree role name top → c.CarriedOver tree role name top shop') := by
  have htop : Path.IsName top := h.named.isName_of_get? hthere top (by simp)
  have hname : Path.IsName name := h.named.isName_of_get? hthere name (by simp)
  have hinside : tree.get? (role ++ [name]) = some .directory :=
    h.closed _ top (by rwa [List.append_assoc])
  have hsame := fun rest => h.get?_source hmeets hfiles rest
  have hfollow : shop.world.tree.follow (Path.join files top) = .ok (role ++ [name, top]) := by
    refine (FileTree.follow_join_ok_iff htop).mpr
      ⟨_, (FileTree.follow_ok_iff.mp hleads).2, ?_, by rw [List.append_assoc]; rfl⟩
    rw [hsame, hinside]
  by_cases hdirectory : tree.get? (role ++ [name, top]) = some .directory
  · have hcarries : Carries tree role name top := ⟨hfiles, hvisible, hdirectory⟩
    have hnow : shop.world.tree.get? (role ++ [name, top]) = some .directory := by
      rw [hsame, hdirectory]
    obtain ⟨tree', hcopy, hmeets', hcopied⟩ := Filing.run_copyTree _ (hmeets.meetable h.meetable)
      hfollow hnow ((h.down_filesTarget hfiles hname).join htop) (h.portable hmeets hcarries)
    obtain ⟨sections', hadd, hready', hemitted⟩ := addToLast_ok (c.taskFor name top) hready
    have hrun := run_convertEntry (FileTree.isDirectory_iff.mpr ⟨_, hfollow, hnow⟩) hbase
      (htop.relative_join files) hcopy hadd
    refine ⟨_, hrun, ⟨hmeets', fun v hv => (hemitted v).mpr (.inl hv), fun v hv => ?_,
      fun _ => hready'⟩, fun _ => ⟨fun q entry hq => hcopied q entry ?_,
        (hemitted _).mpr (.inr rfl)⟩⟩
    · exact ((hemitted v).mp hv).imp_right fun hv => ⟨name, top, hcarries, hv⟩
    · rw [List.append_assoc] at hq ⊢
      exact (hsame (top :: q)).trans hq
  · have hnot : shop.world.tree.isDirectory (Path.join files top) = false := by
      rw [← Bool.not_eq_true, FileTree.isDirectory_iff]
      rintro ⟨place, hplace, hthere⟩
      rw [← Except.ok.inj (hfollow.symm.trans hplace), hsame] at hthere
      exact hdirectory hthere
    exact ⟨shop, run_convertEntry_of_not hnot, .refl shop,
      fun hcarries => absurd hcarries.directory hdirectory⟩

/-- A new section has no tasks yet. -/
theorem proceeds_addSection (shop : Workshop) (name : Value) :
    c.Proceeds tree role shop { shop with sections := shop.sections ++ [{ name := name }] } := by
  have hemitted : ∀ v, Emitted (shop.sections ++ [{ name := name }]) v ↔
      Emitted shop.sections v := by
    intro v
    rw [emitted_append, emitted_singleton rfl]
    exact or_iff_left List.not_mem_nil
  exact ⟨.refl _, fun v => (hemitted v).mpr, fun v hv => .inl ((hemitted v).mp hv),
    fun _ => ⟨_, _, _, rfl, rfl⟩⟩

variable (c tree role) in
/-- The path of a directory of files, in all trees that the conversion comes to. -/
structure FilesPath (files name : String) : Prop where
  is_files : IsFiles name
  leads : ∀ {now : FileTree}, FileTree.Meets (c.Wanted tree role) tree now →
    now.follow files = .ok (role ++ [name])
  base : Path.baseName files = name
  plain : Wildcard.isPattern files = false
  ends : Path.endsInSlash files = false

theorem filesPath_join (h : Convertible c tree role) {name : String} (hfiles : IsFiles name)
    (hthere : tree.get? (role ++ [name]) ≠ none) :
    FilesPath c tree role (Path.join (Wildcard.front c.directory "files*") name) name := by
  have hname : Path.IsName name := h.named.isName_of_get? hthere name (by simp)
  have hslash : '/' ∉ "files*".toList := by decide
  have hne := (FileTree.follow_ok_iff.mp h.leads).1
  refine ⟨hfiles, fun {now} hnow => ?_, hname.baseName_join _,
    Wildcard.isPattern_join (Wildcard.isPattern_front hslash h.plain)
      (h.plain_files name hfiles hthere), hname.not_endsInSlash _⟩
  have hfront := (Wildcard.follow_front hslash tree hne).trans h.leads
  refine (FileTree.follow_join_ok_iff hname).mpr ⟨role, ?_, ?_, rfl⟩
  · exact (FileTree.follow_ok_iff.mp hfront).2.mono (hnow.directories h.meetable)
  · exact hnow.directories h.meetable role h.there

/-- All entries of a directory of files. -/
theorem convertEntries_proceeds (h : Convertible c tree role) {shop : Workshop}
    (hmeets : FileTree.Meets (c.Wanted tree role) tree shop.world.tree)
    (hready : Ready shop.sections) {files name : String}
    (hpath : FilesPath c tree role files name) :
    ∃ shop', ((Wildcard.expand shop.world.tree (files ++ "/*")).forM
        (c.convertEntry files)).run shop = (.ok (), shop') ∧ c.Proceeds tree role shop shop' ∧
      ∀ top, Carries tree role name top → c.CarriedOver tree role name top shop' := by
  have hentry := fun path => @Wildcard.mem_expand_star shop.world.tree files path _ hpath.plain
    (hpath.leads hmeets) hpath.ends
  have hsame := fun rest => h.get?_source hmeets hpath.is_files rest
  have hround : ∀ path ∈ Wildcard.expand shop.world.tree (files ++ "/*"), ∀ s,
      c.Proceeds tree role shop s → ∃ t, (c.convertEntry files path).run s = (.ok (), t) ∧
        c.Proceeds tree role s t ∧ ∀ top, path = Path.join files top →
          Carries tree role name top → c.CarriedOver tree role name top t := by
    intro path hmem s hs
    obtain ⟨top, -, hthere, hvisible, rfl⟩ := (hentry path).mp hmem
    rw [List.append_assoc, List.singleton_append, hsame] at hthere
    have hnow := hmeets.trans hs.meets
    obtain ⟨t, hrun, hst, hover⟩ := convertEntry_proceeds h hnow (hs.ready hready) hpath.is_files
      (hpath.leads hnow) hpath.base hvisible hthere
    refine ⟨t, hrun, hst, fun other hother hcarries => ?_⟩
    have htop : Path.IsName top := h.named.isName_of_get? hthere top (by simp)
    obtain rfl := htop.join_inj (hcarries.isName h) hother
    exact hover hcarries
  obtain ⟨shop', hloop, hproceeds, hall⟩ := Run.forM_of_rounds Proceeds.refl Proceeds.trans _
    (fun path s t hs hst hdone top htop hcarries => (hdone top htop hcarries).keeps h hcarries
      (hmeets.trans hs.meets) hst) hround
  refine ⟨shop', hloop, hproceeds, fun top hcarries => hall _ ?_ top rfl hcarries⟩
  refine (hentry _).mpr ⟨top, ?_, ?_, hcarries.visible, rfl⟩
  · rw [hsame, hcarries.inside h]
  · rw [List.append_assoc, List.singleton_append, hsame]
    exact FileTree.there_of_get? hcarries.directory

/-- One directory of files. -/
theorem convertFiles_proceeds (h : Convertible c tree role) {shop : Workshop}
    (hmeets : FileTree.Meets (c.Wanted tree role) tree shop.world.tree) {files name : String}
    (hpath : FilesPath c tree role files name) :
    ∃ shop', (c.convertFiles files).run shop = (.ok (), shop') ∧
      c.Proceeds tree role shop shop' ∧
      ∀ top, Carries tree role name top → c.CarriedOver tree role name top shop' := by
  have hsection := @proceeds_addSection c tree role shop
    (.text (filesName c.name (Path.baseName files)))
  obtain ⟨shop', hrun, hproceeds, hall⟩ := convertEntries_proceeds h (hmeets.trans hsection.meets)
    ⟨shop.sections, _, _, rfl, rfl⟩ hpath
  refine ⟨shop', ?_, hsection.trans hproceeds, hall⟩
  rw [convertFiles, Converting.addSection, Run.modify_bind, Run.bind_of_ok (run_ask _ _)]
  exact hrun

/-- **All directories of files are carried over**, with all that is in their visible directories. -/
theorem convertAllFiles_proceeds (h : Convertible c tree role) {shop : Workshop}
    (htree : shop.world.tree = tree) :
    ∃ shop', c.convertAllFiles.run shop = (.ok (), shop') ∧ c.Proceeds tree role shop shop' ∧
      ∀ name top, Carries tree role name top → c.CarriedOver tree role name top shop' := by
  subst htree
  have hfiles := fun path => @Wildcard.mem_expand_files shop.world.tree c.directory path _ h.plain
    h.leads h.there
  have hround : ∀ path ∈ Wildcard.expand shop.world.tree (c.directory ++ "/files*"), ∀ s,
      c.Proceeds shop.world.tree role shop s → ∃ t, (c.convertFiles path).run s = (.ok (), t) ∧
        c.Proceeds shop.world.tree role s t ∧
        ∀ name top, path = Path.join (Wildcard.front c.directory "files*") name →
          Carries shop.world.tree role name top →
          c.CarriedOver shop.world.tree role name top t := by
    intro path hmem s hs
    obtain ⟨name, hname, hthere, rfl⟩ := (hfiles path).mp hmem
    obtain ⟨t, hrun, hst, hover⟩ :=
      convertFiles_proceeds h hs.meets (filesPath_join h hname hthere)
    refine ⟨t, hrun, hst, fun other top hother hcarries => ?_⟩
    have hisName : Path.IsName name := h.named.isName_of_get? hthere name (by simp)
    obtain rfl := hisName.join_inj (hcarries.isName_files h) hother
    exact hover top hcarries
  obtain ⟨shop', hloop, hproceeds, hall⟩ := Run.forM_of_rounds Proceeds.refl Proceeds.trans _
    (fun path s t hs hst hdone name top hname hcarries =>
      (hdone name top hname hcarries).keeps h hcarries hs.meets hst) hround
  refine ⟨shop', ?_, hproceeds, fun name top hcarries => hall _ ?_ name top rfl hcarries⟩
  · rw [convertAllFiles, Run.bind_of_ok (run_ask _ shop)]
    exact hloop
  · exact (hfiles _).mpr ⟨name, hcarries.files, FileTree.there_of_get? (hcarries.inside h), rfl⟩

end Loops

/-! ## What is kept -/

/-- Where a role looks for the source of a task: among its files, unless the source says so. -/
def sourcePlace (src : String) : List String :=
  if (Path.names src).head? = some "files" then Path.names src else "files" :: Path.names src

/-- A file of a role is kept: it is in the new role, and a task brings it to the place that it had
    below its directory of files. -/
structure Keeps (c : RoleConversion) (shop : Workshop) (name : String) (way : List String)
    (content : ByteArray) : Prop where
  there : shop.world.tree.get? (c.goalOf name ++ way) = some (.file content)
  brought : ∃ src dest condition rest,
    Emitted shop.sections (copyTask (.text src) (.text dest) condition).toValue ∧
    c.goalOf name ++ way = Path.names c.filesRoot ++ sourcePlace src ++ rest ∧
    Path.isAbsolute dest = true ∧ way = Path.names dest ++ rest

section Kept

variable {c : RoleConversion} {tree : FileTree} {role : List String}

/-- The source of a task is where its directory has been copied to. -/
theorem sourcePlace_taskFor (h : Convertible c tree role) {name top : String}
    (hcarries : Carries tree role name top) : Path.names c.filesRoot
      ++ sourcePlace (Path.join (filesName c.name name) top) = c.goalOf name ++ [top] := by
  have htop := hcarries.isName h
  have hname := isName_filesName h.name (hcarries.isName_files h) hcarries.files
  have hnames : Path.names (Path.join (filesName c.name name) top)
      = [filesName c.name name, top] := by
    rw [Path.names_join htop.not_absolute, htop.names_eq, hname.names_eq]
    rfl
  rw [sourcePlace, hnames, goalOf, filesPlace]
  by_cases hfiles : name = "files"
  · subst hfiles
    simp [filesName]
  · have hown := h.own name hcarries.files hfiles (FileTree.there_of_get? (hcarries.inside h))
    simp [hfiles, hown]

theorem names_dest {top : String} (htop : Path.IsName top) :
    Path.names (Path.join "/" top) = [top] ∧ Path.isAbsolute (Path.join "/" top) = true := by
  rw [Path.names_join htop.not_absolute, htop.names_eq, Path.isAbsolute_join htop.not_absolute]
  exact ⟨rfl, rfl⟩

theorem get?_copyTask (src dest condition : Value) :
    (copyTask src dest condition).fields.get? (.text "ansible.builtin.copy")
      = some (record [("src", src), ("dest", dest), ("mode", .text "preserve")]) := by
  unfold copyTask
  simp only []
  split
  · exact (Entries.get?_set_of_ne _ _ (by decide)).trans rfl
  · rfl

/-- A task shows what it copies and where. -/
theorem copyTask_inj {src dest src' dest' : String} {condition condition' : Value}
    (h : (copyTask (.text src) (.text dest) condition).toValue
      = (copyTask (.text src') (.text dest') condition').toValue) : src = src' ∧ dest = dest' := by
  have hfields := Value.map.inj h
  have hcopy := get?_copyTask (.text src) (.text dest) condition
  rw [hfields, get?_copyTask] at hcopy
  simpa [record, eq_comm] using hcopy

/-- A file below a directory that has been carried over is kept. -/
theorem CarriedOver.keeps_file (h : Convertible c tree role) {name top : String} {shop : Workshop}
    (hcarries : Carries tree role name top) (hover : c.CarriedOver tree role name top shop)
    {rest : List String} {content : ByteArray}
    (hfile : tree.get? (role ++ name :: top :: rest) = some (.file content)) :
    c.Keeps shop name (top :: rest) content := by
  obtain ⟨hdest, habsolute⟩ := names_dest (hcarries.isName h)
  constructor
  · have hcopied := hover.copied rest (.file content)
    rw [List.append_assoc, List.append_assoc] at hcopied
    exact hcopied hfile
  · refine ⟨_, _, _, rest, hover.task, ?_, habsolute, by rw [hdest]; rfl⟩
    rw [sourcePlace_taskFor h hcarries, List.append_assoc]
    rfl

/-- A task that brings a file to its place is one for a directory around it. -/
theorem Keeps.exists_carries (h : Convertible c tree role) {shop : Workshop} {name : String}
    {way : List String} {content : ByteArray} (hkeeps : c.Keeps shop name way content)
    (htasks : ∀ v, Emitted shop.sections v →
      ∃ name top, Carries tree role name top ∧ v = (c.taskFor name top).toValue) :
    ∃ other top rest, Carries tree role other top ∧ way = top :: rest ∧
      c.goalOf name = c.goalOf other := by
  obtain ⟨-, src, dest, condition, rest, htask, hsource, -, hway⟩ := hkeeps
  obtain ⟨other, top, hcarries, hv⟩ := htasks _ htask
  obtain ⟨rfl, rfl⟩ := copyTask_inj hv
  rw [(names_dest (hcarries.isName h)).1] at hway
  rw [sourcePlace_taskFor h hcarries, List.append_assoc, ← hway] at hsource
  exact ⟨other, top, rest, hcarries, hway, List.append_cancel_right hsource⟩

/-- **Which files of a role are kept.**  The conversion of the files of a role ends well, and keeps
    of them those that lie in a directory of their own which is not hidden; what lies in a
    directory of files itself is lost, and so is everything in its hidden directories. -/
theorem file_kept_iff {w : World} (h : Convertible c w.tree role) :
    ∃ shop, c.convertAllFiles.run { world := w } = (.ok (), shop) ∧
      ∀ name way content, IsFiles name →
        w.tree.get? (role ++ name :: way) = some (.file content) →
        (c.Keeps shop name way content ↔
          2 ≤ way.length ∧ ∀ top ∈ way.head?, Wildcard.isHidden top = false) := by
  obtain ⟨shop, hrun, hproceeds, hall⟩ :=
    @convertAllFiles_proceeds c w.tree role h { world := w } rfl
  refine ⟨shop, hrun, fun name way content hname hfile => ⟨fun hkeeps => ?_, ?_⟩⟩
  · have htasks : ∀ v, Emitted shop.sections v →
        ∃ name top, Carries w.tree role name top ∧ v = (c.taskFor name top).toValue :=
      fun v hv => (hproceeds.adds v hv).resolve_left fun ⟨s, hs, _⟩ => absurd hs List.not_mem_nil
    obtain ⟨other, top, rest, hcarries, rfl, hgoal⟩ := hkeeps.exists_carries h htasks
    refine ⟨?_, fun first hfirst => Option.some.inj hfirst ▸ hcarries.visible⟩
    cases rest with
    | cons second rest => exact Nat.le_add_left 2 _
    | nil =>
        -- a directory stands where the file would be
        have hcopied := (hall other top hcarries).copied [] .directory
          (by rw [List.append_nil, hcarries.directory])
        rw [List.append_nil, ← hgoal, hkeeps.there] at hcopied
        cases hcopied
  · rintro ⟨hlength, hvisible⟩
    rcases way with _ | ⟨top, _ | ⟨second, rest⟩⟩
    · cases hlength
    · exact absurd hlength (Nat.not_succ_le_self 1)
    · have hthere := FileTree.there_of_get? hfile
      have hdirectory : w.tree.get? (role ++ [name, top]) = some .directory :=
        h.closed.directory hthere _ ⟨second :: rest, List.append_assoc _ _ _⟩ (by simp)
      have hcarries : Carries w.tree role name top := ⟨hname, hvisible top rfl, hdirectory⟩
      exact (hall name top hcarries).keeps_file h hcarries hfile

end Kept

/-- Of the files of a role with all kinds of them, those below `etc` and `usr` are kept, whatever
    they are called; the one at the top and the one below `.ssh` are lost. -/
theorem mixedRole_kept : ∃ shop,
    mixedConversion.convertAllFiles.run { world := { tree := mixedRole } } = (.ok (), shop) ∧
      mixedConversion.Keeps shop "files" ["etc", ".x"] "X".toUTF8 ∧
      mixedConversion.Keeps shop "files.a" ["usr", "y"] "Y".toUTF8 ∧
      ¬ mixedConversion.Keeps shop "files" ["top"] "T".toUTF8 ∧
      ¬ mixedConversion.Keeps shop "files" [".ssh", "key"] "K".toUTF8 := by
  obtain ⟨shop, hrun, hkept⟩ := @file_kept_iff _ _ { tree := mixedRole } mixedRole_convertible
  refine ⟨shop, hrun, (hkept _ _ _ ?_ rfl).mpr ?_, (hkept _ _ _ ?_ rfl).mpr ?_,
    fun h => ?_, fun h => ?_⟩
  · decide
  · decide +kernel
  · decide
  · decide +kernel
  · exact absurd ((hkept _ _ _ (by decide) rfl).mp h) (by decide +kernel)
  · exact absurd ((hkept _ _ _ (by decide) rfl).mp h) (by decide +kernel)

end Playscript.RoleConversion
