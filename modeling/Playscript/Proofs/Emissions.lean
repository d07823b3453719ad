import Playscript.Proofs.CommandTasks
import Playscript.Proofs.Deeds

/-! # The tasks that a known command can add

    A known command that ends well adds a task by a recipe, and asks for its register under a
    name of its own; only three commands have tasks that are no recipe's: `echo` to the user, `mv`
    and `ldconfig`.  The commands that change the scope add none, and neither do a refused copy
    and a package manager without a subcommand.  `perform_emits` says all this at once, so that
    what is true of every task is proved on five shapes. -/

namespace Playscript

/-- The names under which the recipes of a command ask for registers. -/
def Verb.recipeBases : Verb → List String
  | .mkdir => ["mkdir"]
  | .touch => ["touch_file"]
  | .ln => ["ln"]
  | .cp => ["copy_file"]
  | .scp => ["scp"]
  | .gunzip => ["extract_gz"]
  | .chown => ["chown", "chown_recursive"]
  | .chmod => ["file_permissions", "file_permissions_recursive"]
  | .apt => ["apt_update", "apt_upgrade", "apt_install"]
  | .aptGet => ["apt-get_update", "apt-get_upgrade", "apt-get_install"]
  | .yum => ["yum_update", "yum_upgrade", "yum_install"]
  | .echo => ["echo_redirect", "echo_redirect_append"]
  | .mv | .ldconfig | .umask | .exporting | .ssh => []

/-- Whether a command may end well and add no task. -/
def Verb.mayAddNothing : Verb → Bool
  | .umask | .exporting | .ssh | .scp | .apt | .aptGet | .yum => true
  | _ => false

/-- The modules that recipes use. -/
def Recipe.modules : List String :=
  ["ansible.builtin.file", "ansible.builtin.copy", "ansible.builtin.unarchive",
   "ansible.builtin.apt", "ansible.builtin.yum", "ansible.builtin.lineinfile"]

namespace Session

/-- The task that brings the links to shared libraries up to date. -/
def ldconfigTask (register : String) : Task :=
  Task.make "Run ldconfig" "ansible.builtin.command" (.text "ldconfig")
    [("register", .text register),
     ("changed_when",
      .text ("'changed' in " ++ register ++ ".stdout or 'updated' in " ++ register ++ ".stdout"))]

/-- The tasks that a known command can add in a session. -/
inductive Emission (s : Session) : Verb → List Task → Prop where
  | nothing {verb : Verb} (quiet : verb.mayAddNothing = true) : Emission s verb []
  | shown (text : String) : Emission s .echo [echoTask text]
  | moved (src dest : String) : Emission s .mv [moveTask src dest (s.nextRegister "mv")]
  | relinked : Emission s .ldconfig [ldconfigTask (s.nextRegister "ldconfig")]
  | made {verb : Verb} (base : String) (recipe : Recipe) (known : base ∈ verb.recipeBases)
      (module : recipe.module ∈ Recipe.modules) :
      Emission s verb [recipe.registered (s.nextRegister base)]

/-- A command that adds a recipe's task emits it. -/
theorem Emission.of_run {x : Step Unit} {s : Session} {verb : Verb} {base : String}
    {recipe : Recipe} (run : x.run s = (.ok (), s.withTask base recipe.registered))
    (known : base ∈ verb.recipeBases) (module : recipe.module ∈ Recipe.modules) :
    Emission s verb (newTasks x s) := by
  rw [newTasks_withTask run]
  exact .made base recipe known module

/-- A command that leaves the tasks alone emits none. -/
theorem Emission.of_same_tasks {x : Step Unit} {s : Session} {verb : Verb}
    (same : (x.after s).tasks = s.tasks) (quiet : verb.mayAddNothing = true) :
    Emission s verb (newTasks x s) := by
  rw [newTasks, same, List.drop_length]
  exact .nothing quiet

theorem remoteCopyCommand_emits {inv : Invocation} {src dest : String} {rest : List String}
    (h : inv.sorted.operands = src :: dest :: rest) (s : Session) :
    Emission s .scp (newTasks (remoteCopyCommand inv) s) := by
  rw [newTasks_remoteCopyCommand s h]
  cases remotePaths s.settings inv.sorted.operands with
  | none => exact .nothing rfl
  | some paths => exact .made "scp" _ (by decide) (show "ansible.builtin.copy" ∈ _ by decide)

/-- A package manager, the names of its registers and its module being known. -/
theorem packageCommand_emits {verb : Verb} (command manager : String) (inv : Invocation)
    (s : Session) (quiet : verb.mayAddNothing = true)
    (known : verb.recipeBases
      = [command ++ "_update", command ++ "_upgrade", command ++ "_install"])
    (module : "ansible.builtin." ++ manager ∈ Recipe.modules) :
    Emission s verb (newTasks (packageCommand command manager inv) s) := by
  unfold packageCommand
  split
  · exact .of_run (run_addRegistered _ _ s) (by simp [known]) module
  · exact .of_run (run_addRegistered _ _ s) (by simp [known]) module
  · exact .of_run (run_addRegistered _ _ s) (by simp [known]) module
  · exact .of_same_tasks rfl quiet

theorem echoCommand_emits {inv : Invocation} {text : String} {rest : List String}
    (h : inv.sorted.operands = text :: rest) (s : Session) :
    Emission s .echo (newTasks (echoCommand inv) s) := by
  by_cases htakes : takesText inv.redirection
  · obtain ⟨target, htarget | htarget⟩ := htakes
    · exact .of_run (run_echoCommand_write s h htarget) (by decide)
        (show "ansible.builtin.copy" ∈ _ by decide)
    · exact .of_run (run_echoCommand_append s h htarget) (by decide)
        (show "ansible.builtin.lineinfile" ∈ _ by decide)
  · rw [newTasks_echoCommand_tell s h htakes]
    exact .shown _

section Operands

variable {verb : Verb} {inv : Invocation} {s : Session}
  (hdone : (perform verb inv).outcome s = .ok ())

include hdone

/-- What ends well has its operands. -/
theorem not_lacksOperands : ¬ LacksOperands verb.name inv.sorted.operands := by
  rw [← perform_fails_iff verb inv s]
  rintro ⟨f, hf⟩
  rw [hdone] at hf
  exact nomatch hf

theorem first_operand
    (hname : verb.name ∈ ["umask", "export", "mkdir", "touch", "gunzip", "echo"]) :
    ∃ first rest, inv.sorted.operands = first :: rest :=
  List.exists_cons_of_ne_nil fun hnone => not_lacksOperands hdone (.inl ⟨hname, hnone⟩)

theorem two_operands (hname : verb.name ∈ ["ln", "cp", "scp", "mv", "chmod"]) :
    ∃ first second rest, inv.sorted.operands = first :: second :: rest :=
  exists_two fun hshort => not_lacksOperands hdone (.inr (.inl ⟨hname, hshort⟩))

end Operands

/-- **What a known command adds if it ends well.** -/
theorem perform_emits {verb : Verb} {inv : Invocation} {s : Session}
    (hdone : (perform verb inv).outcome s = .ok ()) :
    Emission s verb (newTasks (perform verb inv) s) := by
  have hfile : "ansible.builtin.file" ∈ Recipe.modules := by decide
  cases verb with
  | umask =>
      obtain ⟨mask, rest, h⟩ := first_operand hdone (by decide)
      have hrun : (umaskCommand inv).run s
          = (.ok (), { s with umask := .text (s.vars.interpret .plain mask) }) := by
        simp [umaskCommand, Invocation.operand, h]
      exact .of_same_tasks (congrArg (fun r => r.2.tasks) hrun) rfl
  | exporting =>
      obtain ⟨word, rest, h⟩ := first_operand hdone (by decide)
      refine .of_same_tasks ?_ rfl
      show ((exportCommand inv).run s).2.tasks = s.tasks
      cases hsplit : splitAssignment word with
      | none => simp [exportCommand, Invocation.operand, h, hsplit]
      | some pair => simp [exportCommand, Invocation.operand, h, hsplit, exportAs]
  | mkdir =>
      obtain ⟨path, rest, h⟩ := first_operand hdone (by decide)
      exact .of_run (run_mkdirCommand s h) (by decide) hfile
  | touch =>
      obtain ⟨path, rest, h⟩ := first_operand hdone (by decide)
      exact .of_run (run_touchCommand_template s h) (by decide) hfile
  | ln =>
      obtain ⟨src, dest, rest, h⟩ := two_operands hdone (by decide)
      exact .of_run (run_linkCommand s h) (by decide) hfile
  | cp =>
      obtain ⟨src, dest, rest, h⟩ := two_operands hdone (by decide)
      exact .of_run (run_copyCommand s h) (by decide) (show "ansible.builtin.copy" ∈ _ by decide)
  | scp =>
      obtain ⟨src, dest, rest, h⟩ := two_operands hdone (by decide)
      exact remoteCopyCommand_emits h s
  | mv =>
      obtain ⟨src, dest, rest, h⟩ := two_operands hdone (by decide)
      show Emission s .mv (newTasks (moveCommand inv) s)
      rw [newTasks_withTask (run_moveCommand s h)]
      exact .moved _ _
  | ldconfig =>
      have hrun : ldconfigCommand.run s = (.ok (), s.withTask "ldconfig" ldconfigTask) := by
        simp [ldconfigCommand, withTask, ldconfigTask]
      show Emission s .ldconfig (newTasks ldconfigCommand s)
      rw [newTasks_withTask hrun]
      exact .relinked
  | gunzip =>
      obtain ⟨path, rest, h⟩ := first_operand hdone (by decide)
      exact .of_run (run_gunzipCommand s h) (by decide)
        (show "ansible.builtin.unarchive" ∈ _ by decide)
  | chown =>
      have howners : ¬ inv.sorted.operands.length < 2 ∧
          ¬ ∀ word ∈ inv.sorted.operands.head?, word.toList.count ':' ≠ 1 := by
        simpa [LacksOperands, Verb.name] using not_lacksOperands hdone
      obtain ⟨owners, path, rest, h⟩ := exists_two howners.1
      have hcolon : owners.toList.count ':' = 1 := by simpa [h] using howners.2
      obtain ⟨pair, hpair⟩ := (ownerAndGroup_ok_iff owners).mpr hcolon
      refine .of_run (run_ownerCommand s h hpair) ?_ hfile
      cases inv.hasOption "-R" <;> decide
  | chmod =>
      obtain ⟨mode, path, rest, h⟩ := two_operands hdone (by decide)
      refine .of_run (run_permissionCommand s h) ?_ hfile
      cases inv.hasOption "-R" <;> decide
  | apt => exact packageCommand_emits "apt" "apt" inv s rfl rfl (by decide)
  | aptGet => exact packageCommand_emits "apt-get" "apt" inv s rfl rfl (by decide)
  | yum => exact packageCommand_emits "yum" "yum" inv s rfl rfl (by decide)
  | echo =>
      obtain ⟨text, rest, h⟩ := first_operand hdone (by decide)
      exact echoCommand_emits h s
  | ssh => exact .of_same_tasks rfl rfl

end Session

end Playscript
