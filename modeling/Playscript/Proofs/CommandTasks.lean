import Playscript.Proofs.Refusals
import Playscript.Proofs.TaskTexts
import Playscript.Proofs.Visits

/-! # The tasks that commands add

    A command that has its operands adds one task, and what stands in it is said here command by
    command: the recipe, the texts that go into it, and which of them are written out.
    The commands whose task has no recipe with a name (`mv`, and `echo` in its three forms) get
    one first, with the texts that it shows. -/

namespace Playscript

namespace Text

/-- The pieces of a text with the mark between them are the text. -/
theorem intercalate_splitOnChar (mark : Char) (cs : List Char) :
    [mark].intercalate (splitOnChar mark cs) = cs := by
  induction cs with
  | nil => rfl
  | cons c rest ih =>
      have hne : splitOnChar mark rest ≠ [] := by
        rw [← List.length_pos_iff, length_splitOnChar]
        exact Nat.succ_pos _
      obtain ⟨piece, pieces, hpieces⟩ := List.exists_cons_of_ne_nil hne
      rw [hpieces] at ih
      by_cases hc : c = mark
      · rw [splitOnChar, if_pos hc, hpieces, List.intercalate_cons_cons, ih, hc]
        rfl
      · rw [splitOnChar, if_neg hc, hpieces]
        cases pieces with
        | nil => simpa using ih
        | cons next more =>
            simp only [List.intercalate_cons_cons] at ih ⊢
            simpa using ih

end Text

namespace Session

/-- Where an owner and a group were read, they are the text on either side of its only colon. -/
theorem eq_of_ownerAndGroup {text owner group : String}
    (h : ownerAndGroup text = .ok (owner, group)) : text = owner ++ ":" ++ group := by
  have hjoin := Text.intercalate_splitOnChar ':' text.toList
  unfold ownerAndGroup at h
  split at h
  · next first second hpieces =>
      injection h with h
      injection h with howner hgroup
      rw [hpieces, List.intercalate_cons_cons] at hjoin
      rw [← String.toList_inj, ← hjoin, ← howner, ← hgroup]
      simp
  · exact nomatch h
  · exact nomatch h

/-! ## The tasks that a step adds -/

/-- Steps that run alike add the same tasks. -/
theorem newTasks_of_run {x y : Step Unit} {s : Session} (h : x.run s = y.run s) :
    newTasks x s = newTasks y s := by
  rw [newTasks, newTasks, Step.after, Step.after, h]

/-- The register that a task gets next under a name. -/
def nextRegister (s : Session) (base : String) : String :=
  (s.registers.next s.settings.role base).1

/-- A step that adds one task under a register adds just this one. -/
theorem newTasks_withTask {x : Step Unit} {s : Session} {base : String} {task : String → Task}
    (h : x.run s = (.ok (), s.withTask base task)) :
    newTasks x s = [task (s.nextRegister base)] := by
  rw [newTasks, Step.after, h]
  exact List.drop_left

/-- What a step that fails adds is nothing. -/
theorem newTasks_of_fails {verb : Verb} {inv : Invocation} {s : Session}
    (h : (perform verb inv).Fails s) : newTasks (perform verb inv) s = [] := by
  rw [newTasks, (perform_atomic verb inv).after_of_fails h, List.drop_length]

/-! ## Tasks and recipes of single commands -/

section Shown

open Variables (mentions_lead mentions_gap)

/-- The task of a move. -/
def moveTask (src dest register : String) : Task :=
  Task.make ("Run shell command: " ++ ("mv " ++ src ++ " " ++ dest)) "shell"
    (.text ("mv " ++ src ++ " " ++ dest))
    [("creates", .text dest), ("removes", .text src), ("register", .text register)]

/-- A move shows its command line twice, in its name and for the shell, and each path once more. -/
theorem texts_moveTask (src dest register : String) :
    (moveTask src dest register).texts
      = ["Run shell command: " ++ ("mv " ++ src ++ " " ++ dest), "mv " ++ src ++ " " ++ dest, dest,
          src] := by
  simp [moveTask, Task.make, Task.texts, Value.textsOfEntries]

/-- So it mentions a variable exactly if one of the paths does. -/
theorem free_moveTask (vs : Variables) (src dest register : String) :
    vs.Free (moveTask src dest register).texts ↔ ¬ vs.Mentions src ∧ ¬ vs.Mentions dest := by
  rw [texts_moveTask]
  simp (disch := decide) [mentions_lead, mentions_gap, and_comm]

/-- The recipe of a text that goes into a file. -/
def writeRecipe (text file : String) : Recipe where
  name := "Write text to " ++ file
  module := "ansible.builtin.copy"
  arguments := record [("dest", .text file), ("content", .text text)]

/-- The recipe of a text that goes behind what a file holds. -/
def appendRecipe (text file name : String) (mode : Value) : Recipe where
  name := name
  module := "ansible.builtin.lineinfile"
  arguments := record [("path", .text file), ("line", .text text), ("create", .bool true),
    ("insertafter", .text "EOF"), ("mode", mode)]

/-- A text that is written is shown as it stands, behind the path. -/
theorem texts_writeRecipe (text file register : String) :
    ((writeRecipe text file).registered register).texts
      = ["Write text to " ++ file, file, text] :=
  Recipe.texts_registered rfl rfl (show "ansible.builtin.copy" ≠ "register" by decide) (by simp)
    register

/-- The text counts as the path does: the task does not write it out. -/
theorem free_writeRecipe (vs : Variables) (text file register : String) :
    vs.Free ((writeRecipe text file).registered register).texts
      ↔ ¬ vs.Mentions text ∧ ¬ vs.Mentions file := by
  rw [texts_writeRecipe]
  simp (disch := decide) [mentions_lead, and_comm]

/-- A line at the end of a file has the word `EOF` among its texts, and its mode. -/
theorem texts_appendRecipe (text file name : String) (mode : Value) (register : String) :
    ((appendRecipe text file name mode).registered register).texts
      = name :: file :: text :: "EOF" :: mode.texts :=
  Recipe.texts_registered rfl rfl (show "ansible.builtin.lineinfile" ≠ "register" by decide)
    (by simp) register

theorem texts_echoTask (text : String) : (echoTask text).texts = ["Echo text: " ++ text, text] := by
  simp [echoTask, Task.make, Task.texts, Value.textsOfEntries]

/-- A message counts by its text, which is in the name too. -/
theorem free_echoTask (vs : Variables) (text : String) :
    vs.Free (echoTask text).texts ↔ ¬ vs.Mentions text := by
  rw [texts_echoTask]
  simp (disch := decide) [mentions_lead]

/-- The paths of a remote copy that the settings allow. -/
def remotePaths (settings : Settings) : List String → Option (String × String)
  | src :: dest :: _ =>
    if remoteCopyAllowed src dest settings then
      some ((RemotePath.ofText src).path, (RemotePath.ofText dest).path)
    else none
  | _ => none

/-- Whether a redirection takes the text of an `echo`. -/
def takesText (redirection : Option (String × String)) : Prop :=
  ∃ target, redirection = some (">", target) ∨ redirection = some (">>", target)

end Shown

/-! ## What each command adds -/

/-- Enough operands for a command with two of them. -/
theorem exists_two {operands : List String} (h : ¬ operands.length < 2) :
    ∃ first second rest, operands = first :: second :: rest := by
  match operands with
  | [] => simp at h
  | [_] => simp at h
  | first :: second :: rest => exact ⟨first, second, rest, rfl⟩

section Runs

variable {inv : Invocation} (s : Session)

/-- What follows says for each command which recipe it adds and which operands are written out.  A
    new directory has its path written out, and its mode is that of the mask. -/
theorem run_mkdirCommand {path : String} {rest : List String}
    (h : inv.sorted.operands = path :: rest) :
    (mkdirCommand inv).run s = (.ok (), s.withTask "mkdir"
      (Recipe.directory (s.vars.interpret .plain path) (modeValue s.umask true)).registered) := by
  simp [mkdirCommand, Invocation.operand, h]

/-- A touched file is the only one whose path takes exported variables as templates. -/
theorem run_touchCommand_template {path : String} {rest : List String}
    (h : inv.sorted.operands = path :: rest) :
    (touchCommand inv).run s = (.ok (), s.withTask "touch_file"
      (Recipe.touched (s.vars.interpret .template path) (modeValue s.umask false)).registered) := by
  simp [touchCommand, Invocation.operand, h]

/-- Without exported variables, that is no other than writing the path out. -/
theorem run_touchCommand {path : String} {rest : List String}
    (hexported : s.vars.exported = []) (h : inv.sorted.operands = path :: rest) :
    (touchCommand inv).run s = (.ok (), s.withTask "touch_file"
      (Recipe.touched (s.vars.interpret .plain path) (modeValue s.umask false)).registered) := by
  rw [run_touchCommand_template s h, Variables.interpret_template hexported]

theorem run_gunzipCommand {path : String} {rest : List String}
    (h : inv.sorted.operands = path :: rest) :
    (gunzipCommand inv).run s = (.ok (), s.withTask "extract_gz"
      (Recipe.unpacked (s.vars.interpret .plain path)).registered) := by
  simp [gunzipCommand, Invocation.operand, h]

/-- A link has the mode of a file; it is symbolic if there is an option `-s`. -/
theorem run_linkCommand {src dest : String} {rest : List String}
    (h : inv.sorted.operands = src :: dest :: rest) :
    (linkCommand inv).run s = (.ok (), s.withTask "ln"
      (Recipe.link (inv.hasOption "-s") (s.vars.interpret .plain src)
        (s.vars.interpret .plain dest) [("mode", modeValue s.umask false)]).registered) := by
  simp [linkCommand, Invocation.operand, h]

theorem run_copyCommand {src dest : String} {rest : List String}
    (h : inv.sorted.operands = src :: dest :: rest) :
    (copyCommand inv).run s = (.ok (), s.withTask "copy_file"
      (Recipe.copied "Copy" (s.vars.interpret .plain src)
        (s.vars.interpret .plain dest)).registered) := by
  simp [copyCommand, Invocation.operand, h]

/-- A move has no module of its own and goes to the shell. -/
theorem run_moveCommand {src dest : String} {rest : List String}
    (h : inv.sorted.operands = src :: dest :: rest) :
    (moveCommand inv).run s = (.ok (), s.withTask "mv"
      (moveTask (s.vars.interpret .plain src) (s.vars.interpret .plain dest))) := by
  simp [moveCommand, Invocation.operand, h, withTask, moveTask]

/-- The mode is the first operand and the path the second, and both are written out. -/
theorem run_permissionCommand {mode path : String} {rest : List String}
    (h : inv.sorted.operands = mode :: path :: rest) :
    (permissionCommand inv).run s = (.ok (),
      s.withTask (treeRegister "file_permissions" (inv.hasOption "-R"))
        (Recipe.permitted (s.vars.interpret .plain path) (s.vars.interpret .plain mode)
          (inv.hasOption "-R")).registered) := by
  simp [permissionCommand, Invocation.operand, h]

/-- Only the path is written out: owner and group stay as they were given. -/
theorem run_ownerCommand {owners path owner group : String} {rest : List String}
    (h : inv.sorted.operands = owners :: path :: rest)
    (howners : ownerAndGroup owners = .ok (owner, group)) :
    (ownerCommand inv).run s = (.ok (), s.withTask (treeRegister "chown" (inv.hasOption "-R"))
      (Recipe.owned (s.vars.interpret .plain path) owner group
        (inv.hasOption "-R")).registered) := by
  simp [ownerCommand, Invocation.operand, h, howners]

/-- A remote copy adds a task for its paths, if it is allowed. -/
theorem newTasks_remoteCopyCommand {src dest : String} {rest : List String}
    (h : inv.sorted.operands = src :: dest :: rest) :
    newTasks (remoteCopyCommand inv) s
      = ((remotePaths s.settings inv.sorted.operands).map fun paths =>
          (Recipe.copied "Scp" paths.1 paths.2).registered (s.nextRegister "scp")).toList := by
  have hrun : (remoteCopyCommand inv).run s = (.ok (), afterRemoteCopy src dest s) :=
    run_remoteCopyCommand (by simp [Invocation.operand, h]) (by simp [Invocation.operand, h]) s
  rw [h, remotePaths]
  by_cases hallowed : remoteCopyAllowed src dest s.settings = true
  · rw [afterRemoteCopy, if_pos hallowed] at hrun
    rw [newTasks_withTask hrun, if_pos hallowed]
    rfl
  · rw [afterRemoteCopy, if_neg hallowed] at hrun
    have hsay : (remoteCopyCommand inv).run s = (say "scp skipping command scp").run s := hrun
    rw [newTasks_of_run hsay, if_neg hallowed]
    exact List.drop_length

/-- All operands are packages, and none is written out. -/
theorem run_installCommand (command manager : String) (h : inv.subcommand = some "install") :
    (packageCommand command manager inv).run s = (.ok (), s.withTask (command ++ "_install")
      (Recipe.installed manager (" ".intercalate inv.sorted.operands)
        (.text (" ".intercalate inv.sorted.operands)) true).registered) := by
  simp [packageCommand, h]

/-- Without a subcommand a package manager does nothing. -/
theorem packageCommand_eq_pure {command manager : String}
    (h : ∀ name ∈ Verb.packageRow.subcommands, inv.subcommand ≠ some name) :
    packageCommand command manager inv = pure () := by
  unfold packageCommand
  split
  next hsub => exact absurd hsub (h "update" (by decide))
  next hsub => exact absurd hsub (h "upgrade" (by decide))
  next hsub => exact absurd hsub (h "install" (by decide))
  next => rfl

/-- With any of its subcommands a package manager adds a task. -/
theorem newTasks_packageCommand {command manager name : String}
    (hname : name ∈ Verb.packageRow.subcommands) (h : inv.subcommand = some name) :
    newTasks (packageCommand command manager inv) s ≠ [] := by
  have htask : ∃ base task, (packageCommand command manager inv).run s
      = (.ok (), s.withTask base task) := by
    simp only [Verb.packageRow, List.mem_cons, List.not_mem_nil, or_false] at hname
    rcases hname with rfl | rfl | rfl
    · exact ⟨_, _, by rw [packageCommand, h]; exact run_addRegistered _ _ s⟩
    · exact ⟨_, _, run_installCommand s command manager h⟩
    · exact ⟨_, _, by rw [packageCommand, h]; exact run_addRegistered _ _ s⟩
  obtain ⟨base, task, hrun⟩ := htask
  rw [newTasks_withTask hrun]
  exact List.cons_ne_nil _ _

/-- The text goes into the file as it stands; only the path is written out. -/
theorem run_echoCommand_write {text target : String} {rest : List String}
    (h : inv.sorted.operands = text :: rest) (htarget : inv.redirection = some (">", target)) :
    (echoCommand inv).run s = (.ok (), s.withTask "echo_redirect"
      (writeRecipe text (s.vars.interpret .plain target)).registered) := by
  simp [echoCommand, Invocation.operand, h, htarget]
  rfl

/-- The name of the task is written out as a whole, hence the path in it a second time. -/
theorem run_echoCommand_append {text target : String} {rest : List String}
    (h : inv.sorted.operands = text :: rest) (htarget : inv.redirection = some (">>", target)) :
    (echoCommand inv).run s = (.ok (), s.withTask "echo_redirect_append"
      (appendRecipe text (s.vars.interpret .plain target)
        ("Append text to " ++ s.vars.interpret .plain (s.vars.interpret .plain target))
        (modeValue s.umask false)).registered) := by
  have hname := s.vars.interpret_lead .plain (show '$' ∉ "Append text to ".toList by decide)
    (s.vars.interpret .plain target)
  simp [echoCommand, Invocation.operand, h, htarget, appendRecipe, hname]

/-- Without a file to go to, the text is written out and told. -/
theorem newTasks_echoCommand_tell {text : String} {rest : List String}
    (h : inv.sorted.operands = text :: rest) (htarget : ¬ takesText inv.redirection) :
    newTasks (echoCommand inv) s = [echoTask (s.vars.interpret .plain text)] := by
  have hrun : (echoCommand inv).run s
      = (addTask (echoTask (s.vars.interpret .plain text))).run s := by
    have h0 : inv.operand 0 = .ok text := by simp [h]
    simp only [echoCommand, Step.run_liftM_bind, h0]
    split
    next target hr => exact absurd ⟨target, .inl hr⟩ htarget
    next target hr => exact absurd ⟨target, .inr hr⟩ htarget
    next => simp [echoTask]
  rw [newTasks_of_run hrun]
  exact List.drop_left

end Runs

end Session

end Playscript
