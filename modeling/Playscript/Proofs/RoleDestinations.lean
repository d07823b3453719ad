import Playscript.CommandLine
import Playscript.Proofs.Entries
import Playscript.Proofs.Listings
import Playscript.Proofs.PathNames

/-! # Where the files and the tasks of a role go

    A conversion of roles has two directories for a new role: one for the files that are copied and
    one for the tasks.  The first is below `roles` in the output, whatever the output is called
    (`make_ok`).  The second is what the plan for the role says, and the plan leaves `roles` out if
    the output is called so already.  They are one directory if and only if it is not.  The
    roles are read from a path relative to the tree; of the output only the text counts here. -/

namespace Playscript

/-! ## What a conversion is set up with -/

theorem Converting.run_work {α : Type} (work : Work α) (shop : Workshop) :
    (Converting.work work).run shop
      = ((work.run shop.world).1, { shop with world := (work.run shop.world).2 }) := by
  rw [Converting.work, Run.get_bind]
  rfl

/-- A conversion of a role puts the files below `roles` in the output, under the role's name. -/
theorem RoleConversion.make_ok {directory outputDirectory output name : String} {config : Entries}
    (houtput : config.field? "output" = some (.text output))
    (hname : config.field? "role_name" = some (.text name)) {w w' : World} {c : RoleConversion}
    (hrun : (make directory outputDirectory (.map config)).run w = (.ok c, w')) :
    c.filesRoot = Path.join (Path.join output "roles") name ∧
      c.outputDirectory = outputDirectory := by
  rw [make, Run.liftM_bind_ok (show (Value.map config).configuration = .ok config from rfl),
    hname] at hrun
  obtain ⟨there, w₁, -, hrun⟩ := Run.bind_ok_iff.mp hrun
  cases there with
  | false =>
      obtain ⟨⟨⟩, w₂, -, hrun⟩ := Run.bind_ok_iff.mp hrun
      cases hrun
  | true =>
      have hneed : config.need "output" = .ok (.text output) := by rw [Entries.need, houtput]
      obtain ⟨value, hvalue, hrun⟩ := Run.liftM_bind_ok_iff.mp hrun
      obtain rfl := Except.ok.inj (hneed.symm.trans hvalue)
      obtain rfl := Except.ok.inj (congrArg Prod.fst hrun)
      exact ⟨rfl, rfl⟩

namespace CommandLine

/-- The conversion that a plan is carried out by, under its own name. -/
def setUp (config : Entries) (plan : RolePlan) : Work RoleConversion :=
  RoleConversion.make plan.directory plan.output
    (.map (config.set (.text "role_name") (.text plan.name)))

theorem setUp_ok {config : Entries} {plan : RolePlan} {output : String}
    (houtput : config.field? "output" = some (.text output)) {w w' : World} {c : RoleConversion}
    (hrun : (setUp config plan).run w = (.ok c, w')) :
    c.filesRoot = Path.join (Path.join output "roles") plan.name ∧
      c.outputDirectory = plan.output := by
  refine RoleConversion.make_ok ?_ ?_ hrun
  · rw [← houtput]
    exact Entries.get?_set_of_ne config _ (by decide)
  · exact Entries.get?_set_self config _ _

/-- What the configuration says of the output is the second operand. -/
theorem field?_output {a : Arguments} {config : Entries} {output : String} {w w' : World}
    (houtput : operandPath a 1 = .ok output) (hrun : (configure a).run w = (.ok config, w')) :
    config.field? "output" = some (.text output) := by
  rw [configure] at hrun
  obtain ⟨base, w₁, -, hrun⟩ := Run.bind_ok_iff.mp hrun
  obtain ⟨input, -, hrun⟩ := Run.liftM_bind_ok_iff.mp hrun
  rw [Run.liftM_bind_ok houtput] at hrun
  obtain rfl := Except.ok.inj (congrArg Prod.fst hrun)
  refine Entries.get?_merge_of_agree ?_ ?_ base
  · simp
  · rintro ⟨key, value⟩ hentry rfl
    obtain ⟨⟨name, value⟩, hasked, hkey⟩ := List.mem_map.mp hentry
    obtain ⟨rfl, rfl⟩ : name = "output" ∧ _ = _ := by simpa using hkey
    simp only [List.mem_append] at hasked
    rcases hasked with (((hformat | hstrict) | hpaths) | hname) | hdirection
    · simp at hformat
    · split at hstrict <;> simp at hstrict
    · simpa using hpaths
    · split at hname
      · split at hname <;> simp at hname
      · simp at hname
    · simp at hdirection

/-- A command line for roles sets up the conversion of each planned role and runs it. -/
theorem run_slack {arguments : List String} {a : Arguments} {config : Entries}
    {input output : String} {shop : Workshop} {w : World}
    (hread : Arguments.read arguments = .ok a) (hkind : a.kind = some "slack")
    (hinput : operandPath a 0 = .ok input) (houtput : operandPath a 1 = .ok output)
    (hconfig : (configure a).run shop.world = (.ok config, w))
    (hdirectory : w.tree.isDirectory input = true) (opened : Bool) :
    (run arguments opened).run shop = ((rolePlans w.tree input output).forM fun plan => do
      let c ← Converting.work (setUp config plan)
      c.run opened).run { shop with world := w } := by
  have hwork : (Converting.work (configure a)).run shop
      = (.ok config, { shop with world := w }) := by
    rw [Converting.run_work, hconfig]
  rw [run, Run.liftM_bind_ok hread, Run.bind_of_ok hwork, Run.liftM_bind_ok hinput, hkind]
  show (liftM (operandPath a 1) >>= fun output => convertRoles config input output opened).run _ = _
  rw [Run.liftM_bind_ok houtput, convertRoles, Run.get_bind]
  simp only [hdirectory, Bool.not_true, Bool.false_eq_true, if_false]
  rfl

/-! ## The two directories of a plan -/

/-- The name of a planned role and where its tasks go. -/
theorem mem_rolePlans {tree : FileTree} {input output : String} {plan : RolePlan}
    (hplan : plan ∈ rolePlans tree input output) :
    (plan.name ∈ tree.list input ∧ plan.output = Path.join
        (if Path.baseName output = "roles" then Path.directoryName output
          else Path.join output "roles") plan.name) ∨
      (plan.name = Path.baseName input ∧ plan.output = Path.join
        (if Path.baseName output = "roles" then output
          else Path.join output "roles") plan.name) := by
  simp only [rolePlans, beq_iff_eq] at hplan
  split at hplan
  · obtain ⟨role, hrole, rfl⟩ := List.mem_map.mp hplan
    exact .inl ⟨(List.mem_filter.mp hrole).1, rfl⟩
  · rw [List.mem_singleton.mp hplan]
    exact .inr ⟨rfl, rfl⟩

theorem output_of_mem_rolePlans {tree : FileTree} {input output : String} {plan : RolePlan}
    (h : Path.baseName output ≠ "roles") (hplan : plan ∈ rolePlans tree input output) :
    plan.output = Path.join (Path.join output "roles") plan.name := by
  rcases mem_rolePlans hplan with ⟨-, hout⟩ | ⟨-, hout⟩
  · rwa [if_neg h] at hout
  · rwa [if_neg h] at hout

/-- Entered from a directory and from one inside it, a segment leads to different places. -/
theorem normalStack_join_ne {name : String} (h : '/' ∉ name.toList) {outer inner root : String}
    (houter : Path.normalStack outer = root :: Path.normalStack inner) (hroot : root ≠ "..")
    {sub : String} (hsub : Path.IsName sub) :
    Path.normalStack (Path.join (Path.join outer sub) name)
      ≠ Path.normalStack (Path.join outer name) := by
  have hinside :
      Path.normalStack (Path.join outer sub) = sub :: root :: Path.normalStack inner := by
    rw [hsub.normalStack_join, houter]
  rw [Path.normalStack_join_segment hinside hsub.ne_up h,
    Path.normalStack_join_segment houter hroot h]
  -- The one place is a name deeper than the other.
  intro heq
  have hlength := congrArg List.length heq
  split_ifs at hlength <;> simp at hlength

/-- Below an output that is called `roles` the tasks go elsewhere: the directory for the files lies
    deeper. -/
theorem output_ne_of_mem_rolePlans {tree : FileTree} {input output : String} {plan : RolePlan}
    (hnames : tree.WellNamed) (h : Path.baseName output = "roles")
    (hplan : plan ∈ rolePlans tree input output) :
    Path.normalNames (Path.join (Path.join output "roles") plan.name)
      ≠ Path.normalNames plan.output := by
  have hroles : Path.IsName "roles" := by decide
  have hout : Path.normalStack output = "roles" :: Path.normalStack (Path.directoryName output) :=
    h ▸ Path.normalStack_directoryName (h ▸ hroles)
  rw [Path.normalNames_eq, Path.normalNames_eq, Ne, List.reverse_inj]
  rcases mem_rolePlans hplan with ⟨hlisted, hto⟩ | ⟨hname, hto⟩
  · have hrole := hnames.isName_of_mem_list hlisted
    rw [hto, if_pos h, hrole.normalStack_join, hroles.normalStack_join, hout,
      hrole.normalStack_join]
    intro hsame
    have hlength := congrArg List.length hsame
    simp only [List.length_cons] at hlength
    omega
  · rw [hto, if_pos h]
    exact normalStack_join_ne (hname ▸ Path.slash_not_mem_baseName input) hout (by decide) hroles

/-- **Where the files and the tasks of a role go.**  A command line for roles carries out its plans
    one after the other.  The files of a role go where its tasks go unless the output is called
    `roles`; then they go to different directories, for every role. -/
theorem files_beside_tasks_iff {arguments : List String} {a : Arguments} {config : Entries}
    {input output : String} {shop : Workshop} {w : World}
    (hread : Arguments.read arguments = .ok a) (hkind : a.kind = some "slack")
    (hinput : operandPath a 0 = .ok input) (houtput : operandPath a 1 = .ok output)
    (hconfig : (configure a).run shop.world = (.ok config, w))
    (hdirectory : w.tree.isDirectory input = true) (hnames : w.tree.WellNamed) (opened : Bool) :
    (run arguments opened).run shop = ((rolePlans w.tree input output).forM fun plan => do
        let c ← Converting.work (setUp config plan)
        c.run opened).run { shop with world := w } ∧
      ∀ plan ∈ rolePlans w.tree input output, ∀ v v' c,
        (setUp config plan).run v = (.ok c, v') →
          (c.filesRoot = c.outputDirectory ↔ Path.baseName output ≠ "roles") ∧
          (Path.normalNames c.filesRoot = Path.normalNames c.outputDirectory ↔
            Path.baseName output ≠ "roles") := by
  refine ⟨run_slack hread hkind hinput houtput hconfig hdirectory opened, ?_⟩
  intro plan hplan v v' c hrun
  obtain ⟨hfiles, htasks⟩ := setUp_ok (field?_output houtput hconfig) hrun
  rw [hfiles, htasks]
  by_cases h : Path.baseName output = "roles"
  · have hne := output_ne_of_mem_rolePlans hnames h hplan
    have hboth : ¬ Path.baseName output ≠ "roles" := not_not_intro h
    exact ⟨iff_of_false (fun hsame => hne (congrArg _ hsame)) hboth, iff_of_false hne hboth⟩
  · have hsame := output_of_mem_rolePlans h hplan
    exact ⟨iff_of_true hsame.symm h, iff_of_true (congrArg _ hsame.symm) h⟩

/-- From `roles/foo` to `out/roles`, the files go below `out/roles/roles/foo` and the tasks below
    `out/roles/foo`. -/
theorem role_into_roles_apart :
    ∃ a config w c, Arguments.read ["--type", "slack", "roles/foo", "out/roles"] = .ok a ∧
      (configure a).run { tree := ⟨[(["roles"], .directory), (["roles", "foo"], .directory)]⟩ }
        = (.ok config, w) ∧
      (setUp config ⟨"roles/foo", "out/roles/foo", "foo"⟩).run w = (.ok c, w) ∧
      c.filesRoot = "out/roles/roles/foo" ∧ c.outputDirectory = "out/roles/foo" ∧
      Path.normalNames c.filesRoot ≠ Path.normalNames c.outputDirectory := by
  have hread : Arguments.read ["--type", "slack", "roles/foo", "out/roles"]
      = .ok { operands := [some "roles/foo", some "out/roles"], kind := some "slack" } := by
    decide +kernel
  let w : World := { tree := ⟨[(["roles"], .directory), (["roles", "foo"], .directory)]⟩ }
  obtain ⟨-, h⟩ := @files_beside_tasks_iff _ _ _ "roles/foo" "out/roles" { world := w } w
    hread rfl (by decide +kernel) (by decide +kernel) rfl (by decide +kernel)
    (by unfold FileTree.WellNamed; decide +kernel) true
  have hplan := h ⟨"roles/foo", "out/roles/foo", "foo"⟩ (by decide +kernel) w w _ rfl
  exact ⟨_, _, w, _, hread, rfl, rfl, rfl, rfl, fun hsame => hplan.2.mp hsame rfl⟩

end CommandLine

end Playscript
