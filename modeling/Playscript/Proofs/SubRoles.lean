import Playscript.Proofs.KeptFiles
import Playscript.Proofs.Replacement
import Playscript.Proofs.RoleFiles

/-! # Sub-roles

    A sub-role of a role has a directory of files of its own: `files`, a dot, and a suffix that
    tells it from the others.  In the new role it has a section, a directory among the files and a
    file of tasks, and all three should be called after the role and the suffix.

    The conversion adds one section for each directory of files, whatever happens to what is in it
    (`forM_convertFiles_sections`).  Its name is that of the role, a dot and the suffix, but with
    the name of the role also in the place of every `files` in the suffix (`filesName_subRole`).  So
    it is what it should be exactly if there is none, or if the role is itself called `files`.  Two
    sub-roles have one name exactly if their suffixes come to the same, and then they share all
    three (`subRoles_named_iff`).  Where files are read or written, paths are relative to the
    tree. -/

namespace Playscript

/-! ## One section for each directory of files -/

/-- A section keeps its name when it gets a task. -/
theorem Section.name_addTask {s s' : Section} {task : Value} (h : s.addTask task = .ok s') :
    s'.name = s.name := by
  rw [Section.addTask] at h
  split at h
  · rw [← Except.ok.inj h]
  · cases h

namespace RoleConversion

/-- The last of the sections is behind some others and has a name. -/
def EndsIn (front : List Section) (name : Value) (shop : Workshop) : Prop :=
  ∃ s, shop.sections = front ++ [s] ∧ s.name = name

/-- The last section keeps its name, and those in front of it stay as they are. -/
def KeepsLast (shop shop' : Workshop) : Prop :=
  ∀ front name, EndsIn front name shop → EndsIn front name shop'

namespace KeepsLast

theorem refl (shop : Workshop) : KeepsLast shop shop := fun _ _ h => h

theorem trans ⦃s t u : Workshop⦄ (h : KeepsLast s t) (h' : KeepsLast t u) : KeepsLast s u :=
  fun front name hs => h' front name (h front name hs)

end KeepsLast

/-- Work on files leaves all sections alone. -/
theorem work_keepsLast {α : Type} (work : Work α) :
    Run.Respects KeepsLast (Converting.work work) := by
  intro shop
  rw [Converting.run_work]
  exact fun _ _ h => h

/-- A task goes to the last section, which keeps its name, or nothing is done. -/
theorem addToLast_keepsLast (task : Task) (shop : Workshop) :
    KeepsLast shop ((liftM (addToLast task shop.sections) >>= fun sections =>
      modify fun shop => { shop with sections := sections } : Converting Unit).run shop).2 := by
  rintro front name ⟨s, hs, hname⟩
  cases hadd : s.addTask task.toValue with
  | error f =>
      have hlast : addToLast task shop.sections = .error f := by
        rw [hs, addToLast_concat, hadd]
        rfl
      rw [Run.liftM_bind_error hlast]
      exact ⟨s, hs, hname⟩
  | ok s' =>
      have hlast : addToLast task shop.sections = .ok (front ++ [s']) := by
        rw [hs, addToLast_concat, hadd]
        rfl
      rw [Run.liftM_bind_ok hlast]
      exact ⟨s', rfl, (Section.name_addTask hadd).trans hname⟩

/-- What an entry adds goes to the last section. -/
theorem convertEntry_keepsLast (c : RoleConversion) (files entry : String) :
    Run.Respects KeepsLast (c.convertEntry files entry) := by
  unfold convertEntry
  refine Run.Respects.bind KeepsLast.trans (work_keepsLast _) fun directory => ?_
  cases directory with
  | false => exact KeepsLast.refl
  | true =>
      simp only [if_true]
      intro shop
      rw [Run.get_bind]
      refine Run.respects_bind KeepsLast.trans (work_keepsLast _ shop) fun _ shop => ?_
      rw [Run.get_bind]
      exact addToLast_keepsLast _ shop

/-- A directory of files adds one section, called after it, however its conversion ends. -/
theorem convertFiles_sections (c : RoleConversion) (files : String) (shop : Workshop) :
    EndsIn shop.sections (.text (filesName c.name (Path.baseName files)))
      ((c.convertFiles files).run shop).2 := by
  rw [convertFiles, Converting.addSection, Run.modify_bind, Run.bind_of_ok (run_ask _ _)]
  exact Run.Respects.forM KeepsLast.refl KeepsLast.trans (c.convertEntry_keepsLast files) _ _ _ _
    ⟨_, rfl, rfl⟩

/-- A section is called after a directory of files. -/
def CalledAfter (c : RoleConversion) (path : String) (s : Section) : Prop :=
  s.name = .text (filesName c.name (Path.baseName path))

/-- **Directories of files add one section each**, in their order, up to the one at which the
    conversion fails if it does. -/
theorem forM_convertFiles_sections (c : RoleConversion) (paths : List String) :
    ∀ shop : Workshop, ∃ made : List (String × Section), made.map Prod.fst <+: paths ∧
      (((paths.forM c.convertFiles).run shop).1 = .ok () → made.map Prod.fst = paths) ∧
      ((paths.forM c.convertFiles).run shop).2.sections = shop.sections ++ made.map Prod.snd ∧
      ∀ p ∈ made, c.CalledAfter p.1 p.2 := by
  induction paths with
  | nil =>
      intro shop
      exact ⟨[], List.prefix_refl _, fun _ => rfl, (List.append_nil _).symm, by simp⟩
  | cons path rest ih =>
      intro shop
      obtain ⟨s, hs, hname⟩ := c.convertFiles_sections path shop
      have hround : (path :: rest).forM c.convertFiles
          = (c.convertFiles path >>= fun _ => rest.forM c.convertFiles) := rfl
      cases hrun : (c.convertFiles path).run shop with
      | mk result shop' =>
          rw [hrun] at hs
          rw [hround]
          cases result with
          | error f =>
              rw [Run.bind_of_error hrun]
              refine ⟨[(path, s)], ⟨rest, rfl⟩, fun h => (by cases h), hs, ?_⟩
              rintro p hp
              rw [List.mem_singleton.mp hp]
              exact hname
          | ok u =>
              rw [Run.bind_of_ok hrun]
              obtain ⟨made, hfront, hall, hsections, hcalled⟩ := ih shop'
              refine ⟨(path, s) :: made, List.cons_prefix_cons.mpr ⟨rfl, hfront⟩,
                fun h => by rw [List.map_cons, hall h], ?_, ?_⟩
              · rw [hsections, hs, List.append_assoc]
                rfl
              · intro p hp
                rcases List.mem_cons.mp hp with rfl | hp
                · exact hname
                · exact hcalled p hp

/-! ## The names of sub-roles -/

/-- A path leads to the directory of files of a sub-role. -/
def IsSubRole (path suffix : String) : Prop :=
  Path.baseName path = "files." ++ suffix

/-- A text in which the word `files` does not stand. -/
def FreeOfFiles (text : String) : Prop :=
  ¬ "files".toList <:+: text.toList

/-- What a suffix comes to in a role. -/
def suffixIn (role suffix : String) : String :=
  Text.replaceAll "files" role suffix

theorem toList_suffixIn (role suffix : String) : (suffixIn role suffix).toList
    = Text.replaceFrom "files".toList role.toList 0 suffix.toList :=
  String.toList_ofList

/-- A sub-role is not the role itself. -/
theorem subRole_ne_files (suffix : String) : "files." ++ suffix ≠ "files" := by
  intro h
  have hlength := congrArg String.length h
  rw [String.length_append] at hlength
  have hlonger : "files.".length = "files".length + 1 := rfl
  omega

/-- The role stands in the place of the first `files`, and of each one in the suffix too. -/
theorem filesName_subRole (role suffix : String) :
    filesName role ("files." ++ suffix) = role ++ "." ++ suffixIn role suffix := by
  -- The word at the start goes to the name of the role; the dot and what follows are read on.
  have hstart : ∀ new cs, Text.replaceFrom "files".toList new 0 ("files.".toList ++ cs)
      = new ++ (".".toList ++ Text.replaceFrom "files".toList new 0 cs) := fun _ _ => rfl
  rw [filesName, if_neg (subRole_ne_files suffix), ← String.toList_inj, Text.replaceAll,
    String.toList_ofList, String.toList_append, hstart, String.toList_append,
    String.toList_append, toList_suffixIn, List.append_assoc]

theorem suffixIn_eq_self_iff (role suffix : String) :
    suffixIn role suffix = suffix ↔ role = "files" ∨ FreeOfFiles suffix :=
  Text.replaceAll_eq_self_iff (by decide)

/-- A suffix of that word alone comes to the name of the role. -/
theorem suffixIn_files (role : String) : suffixIn role "files" = role := by
  rw [← String.toList_inj, toList_suffixIn]
  exact List.append_nil _

/-! ## What two sub-roles share -/

theorem filesTarget_subRole (c : RoleConversion) {path suffix : String}
    (h : IsSubRole path suffix) : c.filesTarget (Path.baseName path)
      = Path.join (Path.join c.filesRoot "files") (c.name ++ "." ++ suffixIn c.name suffix) := by
  rw [filesTarget, if_neg (h ▸ subRole_ne_files suffix), h, filesName_subRole]

theorem isAbsolute_subRole (role suffix : String) :
    Path.isAbsolute (role ++ "." ++ suffix) = Path.isAbsolute (role ++ ".") := by
  have hhead : (role ++ ".").toList ≠ [] := by simp
  rw [Path.isAbsolute, Path.isAbsolute, String.toList_append, List.head?_append_of_ne_nil _ hhead]

/-- Neither a suffix nor the name of the role brings a slash. -/
theorem slash_not_mem_subRole {role path suffix : String} (hrole : '/' ∉ role.toList)
    (h : IsSubRole path suffix) : '/' ∉ (role ++ "." ++ suffixIn role suffix).toList := by
  have hsuffix : '/' ∉ suffix.toList := by
    intro hslash
    refine Path.slash_not_mem_baseName path ?_
    rw [h, String.toList_append]
    exact List.mem_append_right _ hslash
  rw [String.toList_append, String.toList_append, toList_suffixIn]
  intro hslash
  rcases List.mem_append.mp hslash with hfront | hback
  · rcases List.mem_append.mp hfront with hname | hdot
    · exact hrole hname
    · revert hdot
      decide
  · exact (Text.mem_replaceFrom _ hback).elim hrole hsuffix

/-- Two directories of files, with their sections, share what they have in the new role exactly
    under a condition. -/
structure SharedIff (c : RoleConversion) (p q : String × Section) (condition : Prop) : Prop where
  name : p.2.name = q.2.name ↔ condition
  target : c.filesTarget (Path.baseName p.1) = c.filesTarget (Path.baseName q.1) ↔ condition
  place : '/' ∉ c.name.toList → (Path.normalNames (c.filesTarget (Path.baseName p.1))
    = Path.normalNames (c.filesTarget (Path.baseName q.1)) ↔ condition)
  taskFile : Generator.taskFile p.2 = Generator.taskFile q.2 ↔ condition

/-- Two sub-roles share the names of their section, of their directory and of their tasks exactly if
    their suffixes come to the same: each of the three is made from the name by putting fixed texts
    around it. -/
theorem sharedIff_subRoles (c : RoleConversion) {p q : String × Section}
    (hp : c.CalledAfter p.1 p.2) (hq : c.CalledAfter q.1 q.2) {x y : String}
    (hx : IsSubRole p.1 x) (hy : IsSubRole q.1 y) :
    c.SharedIff p q (suffixIn c.name x = suffixIn c.name y) := by
  rw [CalledAfter, hx, filesName_subRole] at hp
  rw [CalledAfter, hy, filesName_subRole] at hq
  have hnames : c.name ++ "." ++ suffixIn c.name x = c.name ++ "." ++ suffixIn c.name y
      ↔ suffixIn c.name x = suffixIn c.name y := String.append_right_inj _
  refine ⟨?_, ?_, ?_, ?_⟩
  · rw [hp, hq, Value.scalar.injEq, Scalar.text.injEq, hnames]
  · rw [c.filesTarget_subRole hx, c.filesTarget_subRole hy, Path.join_inj_iff, hnames]
    rw [isAbsolute_subRole, isAbsolute_subRole]
  · intro hrole
    have hfiles : Path.normalStack (Path.join c.filesRoot "files")
        = "files" :: Path.normalStack c.filesRoot := Path.IsName.normalStack_join (by decide) _
    rw [c.filesTarget_subRole hx, c.filesTarget_subRole hy, Path.normalNames_eq,
      Path.normalNames_eq, List.reverse_inj, ← hnames]
    refine ⟨Path.normalStack_join_inj hfiles (by decide) (slash_not_mem_subRole hrole hx) (by simp)
      (slash_not_mem_subRole hrole hy) (by simp), fun h => by rw [h]⟩
  · rw [← hnames]
    constructor
    · intro h
      have hshown := Generator.taskFile_inj h
      rwa [hp, hq] at hshown
    · intro h
      rw [Generator.taskFile, Generator.taskFile, hp, hq, h]

/-! ## All sub-roles of a role -/

/-- Suffixes that stay what they are come to the same only if they are the same. -/
theorem suffixIn_eq_iff_of_kept {role x y : String}
    (h : role = "files" ∨ FreeOfFiles x ∧ FreeOfFiles y) :
    suffixIn role x = suffixIn role y ↔ x = y := by
  have hx : suffixIn role x = x := (suffixIn_eq_self_iff role x).mpr (h.imp_right And.left)
  have hy : suffixIn role y = y := (suffixIn_eq_self_iff role y).mpr (h.imp_right And.right)
  rw [hx, hy]

/-- The suffix that is the word and the one that is the name of the role come to the same. -/
theorem suffixIn_files_eq {role : String} (h : FreeOfFiles role) :
    suffixIn role "files" = suffixIn role role := by
  rw [suffixIn_files, (suffixIn_eq_self_iff role role).mpr (.inr h)]

/-- The name is what it should be if the suffix has no `files` in it, or if nothing changes when the
    role stands there. -/
theorem CalledAfter.name_eq_iff {c : RoleConversion} {path : String} {s : Section}
    (h : c.CalledAfter path s) {suffix : String} (hsub : IsSubRole path suffix) :
    s.name = .text (c.name ++ "." ++ suffix) ↔ c.name = "files" ∨ FreeOfFiles suffix := by
  rw [CalledAfter, hsub, filesName_subRole] at h
  rw [h, Value.scalar.injEq, Scalar.text.injEq, String.append_right_inj, suffixIn_eq_self_iff]

/-- **When a sub-role has the name it should have, and when two of them share theirs.**  Each
    directory of files that is converted adds one section.  That of a sub-role is called after the
    role and its suffix exactly if the role is called `files` or the word does not stand in the
    suffix.  Two sub-roles share the name, the directory among the files and the file of tasks
    exactly if their suffixes come to the same; with suffixes that stay what they are this takes the
    same suffix, but the suffix `files` and the name of the role always clash. -/
theorem subRoles_named_iff (c : RoleConversion) (shop : Workshop) :
    (∃ made : List (String × Section),
      made.map Prod.fst <+: Wildcard.expand shop.world.tree (c.directory ++ "/files*") ∧
      ((c.convertAllFiles.run shop).1 = .ok () →
        made.map Prod.fst = Wildcard.expand shop.world.tree (c.directory ++ "/files*")) ∧
      (c.convertAllFiles.run shop).2.sections = shop.sections ++ made.map Prod.snd ∧
      (∀ p ∈ made, ∀ x, IsSubRole p.1 x →
        (p.2.name = .text (c.name ++ "." ++ x) ↔ c.name = "files" ∨ FreeOfFiles x)) ∧
      ∀ p ∈ made, ∀ q ∈ made, ∀ x y, IsSubRole p.1 x → IsSubRole q.1 y →
        c.SharedIff p q (suffixIn c.name x = suffixIn c.name y)) ∧
    (∀ x y, c.name = "files" ∨ FreeOfFiles x ∧ FreeOfFiles y →
      (suffixIn c.name x = suffixIn c.name y ↔ x = y)) ∧
    (FreeOfFiles c.name → suffixIn c.name "files" = suffixIn c.name c.name) := by
  refine ⟨?_, fun x y => suffixIn_eq_iff_of_kept, suffixIn_files_eq⟩
  rw [convertAllFiles, Run.bind_of_ok (run_ask _ shop)]
  obtain ⟨made, hfront, hall, hsections, hcalled⟩ := c.forM_convertFiles_sections
    (Wildcard.expand shop.world.tree (c.directory ++ "/files*")) shop
  refine ⟨made, hfront, hall, hsections, fun p hp x => (hcalled p hp).name_eq_iff, ?_⟩
  intro p hp q hq x y
  exact c.sharedIff_subRoles (hcalled p hp) (hcalled q hq)

/-! ## A role with two sub-roles that clash -/

/-- A role with a sub-role for files, and with one that is called like the role. -/
def clashingRole : FileTree :=
  ⟨[(["roles"], .directory), (["roles", "foo"], .directory),
    (["roles", "foo", "files.files"], .directory),
    (["roles", "foo", "files.files", "etc"], .directory),
    (["roles", "foo", "files.files", "etc", "a"], .file "A".toUTF8),
    (["roles", "foo", "files.foo"], .directory)]⟩

/-- What is in that role, one by one. -/
theorem clashingRole_names {rest : List String}
    (h : clashingRole.get? (["roles", "foo"] ++ rest) ≠ none) (hne : rest ≠ []) :
    rest ∈ [["files.files"], ["files.files", "etc"], ["files.files", "etc", "a"],
      ["files.foo"]] := by
  have hmem := (FileTree.mem_places_iff (by simp)).mpr h
  simpa [clashingRole, hne] using hmem

/-- The role with two sub-roles of one name is convertible nevertheless. -/
theorem clashingRole_convertible :
    Convertible mixedConversion clashingRole ["roles", "foo"] := by
  refine mixedConversion_convertible ?_ ?_ ?_ rfl ?_ ?_ ?_
  · unfold FileTree.WellNamed
    decide +kernel
  · refine FileTree.closed_of_entries fun known hknown => ?_
    simp only [clashingRole, List.mem_cons, List.not_mem_nil, or_false] at hknown
    rcases hknown with rfl | rfl | rfl | rfl | rfl | rfl <;> rfl
  · decide +kernel
  · intro rest
    by_contra h
    have hmem := (FileTree.mem_places_iff (List.cons_ne_nil "out" rest)).mpr h
    simp [clashingRole] at hmem
  · intro name h
    have hmem := clashingRole_names h (by simp)
    simp at hmem
    rcases hmem with rfl | rfl <;> decide +kernel
  · -- only one of the two holds a directory
    have honly : ∀ {name top}, Carries clashingRole ["roles", "foo"] name top →
        name = "files.files" := by
      intro name top h
      have hmem := clashingRole_names (FileTree.there_of_get? h.directory) (by simp)
      simp at hmem
      exact hmem.1
    intro name top name' top' h h' hne
    exact absurd ((honly h).trans (honly h').symm) hne

/-- Its sub-roles are converted into one: the section of the first is not called `foo.files`, and
    both go by the name, the directory and the file of tasks of the second. -/
theorem clashingRole_shares : ∃ (shop : Workshop) (made : List (String × Section)) (s s' : Section),
    mixedConversion.convertAllFiles.run { world := { tree := clashingRole } } = (.ok (), shop) ∧
      shop.sections = made.map Prod.snd ∧
      ("roles/foo/files.files", s) ∈ made ∧ ("roles/foo/files.foo", s') ∈ made ∧
      s.name ≠ .text "foo.files" ∧ s'.name = .text "foo.foo" ∧
      mixedConversion.SharedIff ("roles/foo/files.files", s) ("roles/foo/files.foo", s') True := by
  obtain ⟨shop, hrun, -, -⟩ := @convertAllFiles_proceeds _ _ _ clashingRole_convertible
    { world := { tree := clashingRole } } rfl
  obtain ⟨⟨made, -, hall, hmade, hnamed, hshared⟩, -, hclash⟩ :=
    subRoles_named_iff mixedConversion { world := { tree := clashingRole } }
  rw [hrun] at hall hmade
  have hsection : ∀ name, "files".toList <+: name.toList →
      clashingRole.get? (["roles", "foo"] ++ [name]) ≠ none →
      ∃ s, (Path.join "roles/foo" name, s) ∈ made := by
    intro name hname hthere
    have hfront : Wildcard.front mixedConversion.directory "files*" = "roles/foo" := by
      decide +kernel
    have hmem := (Wildcard.mem_expand_files clashingRole_convertible.plain
      clashingRole_convertible.leads clashingRole_convertible.there).mpr ⟨name, hname, hthere, rfl⟩
    rw [← hall rfl, hfront] at hmem
    obtain ⟨p, hp, hpath⟩ := List.mem_map.mp hmem
    exact ⟨p.2, by rwa [← hpath]⟩
  have hjoin : Path.join "roles/foo" "files.files" = "roles/foo/files.files" ∧
      Path.join "roles/foo" "files.foo" = "roles/foo/files.foo" := by decide +kernel
  have hsub : IsSubRole "roles/foo/files.files" "files" ∧
      IsSubRole "roles/foo/files.foo" mixedConversion.name := by
    unfold IsSubRole
    decide +kernel
  obtain ⟨s, hs⟩ := hsection "files.files" (by decide) (by decide)
  obtain ⟨s', hs'⟩ := hsection "files.foo" (by decide) (by decide)
  rw [hjoin.1] at hs
  rw [hjoin.2] at hs'
  have hfree : FreeOfFiles mixedConversion.name := by
    unfold FreeOfFiles
    decide +kernel
  refine ⟨shop, made, s, s', hrun, hmade, hs, hs', fun h => ?_, ?_, ?_⟩
  · rcases (hnamed _ hs _ hsub.1).mp h with hname | hfiles
    · exact absurd hname (by decide +kernel)
    · exact hfiles (List.infix_refl _)
  · exact (hnamed _ hs' _ hsub.2).mpr (.inr hfree)
  · have hshare := hshared _ hs _ hs' _ _ hsub.1 hsub.2
    rwa [eq_true (hclash hfree)] at hshare

end RoleConversion
end Playscript
