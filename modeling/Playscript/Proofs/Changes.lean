import Mathlib.Logic.Relation
import Playscript.Proofs.Steps
import Playscript.Session.Visit

/-! # What commands do to a session

    A command that is known either fails and leaves the session as it was, or makes one
    change of it, and whether it fails hangs on its words alone (`perform_atomic`).  There
    are few kinds of changes, listed by `Change`; all that is true of every session that a
    script can reach is proved on this list. -/

namespace Playscript.Session

/-- The names under which commands ask for registers. -/
def registerBases : List String :=
  ["mkdir", "touch_file", "ln", "copy_file", "scp", "mv", "ldconfig", "extract_gz",
   "chown", "chown_recursive", "file_permissions", "file_permissions_recursive",
   "apt_update", "apt_upgrade", "apt_install",
   "apt-get_update", "apt-get_upgrade", "apt-get_install",
   "yum_update", "yum_upgrade", "yum_install",
   "echo_redirect", "echo_redirect_append"]

/-- A session with one more task, registered under the next name for `base`. -/
def withTask (s : Session) (base : String) (task : String → Task) : Session :=
  { s with
    registers := (s.registers.next s.settings.role base).2
    lastRegister := some (s.registers.next s.settings.role base).1
    tasks := s.tasks ++ [task (s.registers.next s.settings.role base).1] }

/-- The task that shows a text to the user. -/
def echoTask (text : String) : Task :=
  Task.make ("Echo text: " ++ text) "ansible.builtin.debug" (record [("msg", .text text)]) []

/-- One change of a session. -/
inductive Change : Session → Session → Prop where
  | told (s : Session) (line : String) :
      Change s { s with output := s.output ++ line ++ "\n" }
  | assigned (s : Session) (name text : String) :
      Change s { s with vars := s.vars.assign name text }
  | exported (s : Session) (name text : String) :
      Change s { s with vars := s.vars.exportAs name text }
  | masked (s : Session) (text : String) :
      Change s { s with umask := .text (s.vars.interpret .plain text) }
  | echoed (s : Session) (text : String) :
      Change s { s with tasks := s.tasks ++ [echoTask text] }
  | registered (s : Session) (base : String) (task : String → Task)
      (known : base ∈ registerBases)
      (registers : ∀ name, (task name).register? = some (.text name)) :
      Change s (s.withTask base task)
  | guarded (s : Session) (count : Nat) (condition : String) :
      Change s { s with tasks := guardFrom count condition s.tasks }

/-- A session that changes lead to. -/
abbrev Reaches : Session → Session → Prop :=
  Relation.ReflTransGen Change

/-- A step that fails and changes nothing, does nothing, or makes one change.  Which of
    these it is does not hang on the session, and how many tasks it adds is settled by the
    settings. -/
inductive Atomic (x : Step Unit) : Prop where
  | fails (failure : Failure) (run : ∀ s, x.run s = (.error failure, s))
  | nothing (run : ∀ s, x.run s = (.ok (), s))
  | changes (g : Session → Session) (added : Settings → Nat)
      (run : ∀ s, x.run s = (.ok (), g s)) (change : ∀ s, Change s (g s))
      (atMostOne : ∀ settings, added settings ≤ 1)
      (adds : ∀ s, ∃ new, new.length = added s.settings ∧ (g s).tasks = s.tasks ++ new)

/-- A change that leaves the tasks alone. -/
theorem Atomic.quiet {x : Step Unit} (g : Session → Session)
    (run : ∀ s, x.run s = (.ok (), g s)) (change : ∀ s, Change s (g s))
    (same : ∀ s, (g s).tasks = s.tasks) : Atomic x :=
  .changes g (fun _ => 0) run change (fun _ => Nat.zero_le 1)
    (fun s => ⟨[], rfl, by rw [same, List.append_nil]⟩)

/-- A change that adds a registered task. -/
theorem Atomic.registers {x : Step Unit} (base : String) (task : Session → String → Task)
    (run : ∀ s, x.run s = (.ok (), s.withTask base (task s)))
    (known : base ∈ registerBases)
    (register : ∀ s name, (task s name).register? = some (.text name)) : Atomic x :=
  .changes (fun s => s.withTask base (task s)) (fun _ => 1) run
    (fun s => .registered s base (task s) known (register s)) (fun _ => Nat.le_refl 1)
    (fun s => ⟨[task s (s.registers.next s.settings.role base).1], rfl, rfl⟩)

/-! ## The commands -/

/-- A recipe's task registers its result, unless the module takes that key. -/
theorem registered_register? (r : Recipe) (h : r.module ≠ "register") (name : String) :
    (r.registered name).register? = some (.text name) := by
  have hm : (Scalar.text r.module == Scalar.text "register") = false := by
    simpa using h
  show ((List.find? (fun entry => entry.1 == Scalar.text "register")
    [(.text "name", .text r.name), (.text r.module, r.arguments),
      (.text "register", .text name)]).map (·.2)) = _
  rw [List.find?_cons_of_neg (by simp), List.find?_cons_of_neg (by simp [hm]),
    List.find?_cons_of_pos (by simp)]
  rfl

/-- A change that adds the task of a recipe. -/
theorem Atomic.ofRecipe {x : Step Unit} (base : String) (recipe : Session → Recipe)
    (run : ∀ s, x.run s = (.ok (), s.withTask base (recipe s).registered))
    (known : base ∈ registerBases) (module : ∀ s, (recipe s).module ≠ "register") :
    Atomic x :=
  .registers base (fun s => (recipe s).registered) run known
    (fun s => registered_register? (recipe s) (module s))

theorem run_register (base : String) (s : Session) :
    (register base).run s = (.ok (s.registers.next s.settings.role base).1,
      { s with
        registers := (s.registers.next s.settings.role base).2
        lastRegister := some (s.registers.next s.settings.role base).1 }) := rfl

/-- A register is taken from the counters, and is the last one from then on. -/
@[simp] theorem run_register_bind (base : String) (k : String → Step Unit) (s : Session) :
    (register base >>= k).run s = (k (s.registers.next s.settings.role base).1).run
      { s with
        registers := (s.registers.next s.settings.role base).2
        lastRegister := some (s.registers.next s.settings.role base).1 } :=
  Step.run_bind_ok (run_register base s) k

@[simp] theorem run_addTask (task : Task) (s : Session) :
    (addTask task).run s = (.ok (), { s with tasks := s.tasks ++ [task] }) := rfl

@[simp] theorem run_addRegistered (recipe : Recipe) (base : String) (s : Session) :
    (addRegistered recipe base).run s = (.ok (), s.withTask base recipe.registered) := rfl

/-- What follows shows it for each command: it fails, if so, before it has changed anything.
    `umask` has one operand to fail for. -/
theorem umaskCommand_atomic (inv : Invocation) : Atomic (umaskCommand inv) := by
  cases h : inv.operand 0 with
  | error f => exact .fails f fun s => by simp [umaskCommand, h]
  | ok mask =>
      exact .quiet (fun s => { s with umask := .text (s.vars.interpret .plain mask) })
        (fun s => by simp [umaskCommand, h]) (fun s => .masked s mask) (fun s => rfl)

/-- An export without an equals sign changes nothing. -/
theorem exportCommand_atomic (inv : Invocation) : Atomic (exportCommand inv) := by
  cases h : inv.operand 0 with
  | error f => exact .fails f fun s => by simp [exportCommand, h]
  | ok word =>
      cases hw : splitAssignment word with
      | none => exact .nothing fun s => by simp [exportCommand, h, hw]
      | some pair =>
          exact .quiet (fun s => { s with vars := s.vars.exportAs pair.1 pair.2 })
            (fun s => by simp [exportCommand, h, hw, exportAs])
            (fun s => .exported s pair.1 pair.2) (fun s => rfl)

theorem mkdirCommand_atomic (inv : Invocation) : Atomic (mkdirCommand inv) := by
  cases h : inv.operand 0 with
  | error f => exact .fails f fun s => by simp [mkdirCommand, h]
  | ok path =>
      exact .ofRecipe "mkdir"
        (fun s => .directory (s.vars.interpret .plain path) (modeValue s.umask true))
        (fun s => by simp [mkdirCommand, h]) (by decide)
        (fun s => show "ansible.builtin.file" ≠ "register" by decide)

theorem touchCommand_atomic (inv : Invocation) : Atomic (touchCommand inv) := by
  cases h : inv.operand 0 with
  | error f => exact .fails f fun s => by simp [touchCommand, h]
  | ok path =>
      exact .ofRecipe "touch_file"
        (fun s => .touched (s.vars.interpret .template path) (modeValue s.umask false))
        (fun s => by simp [touchCommand, h]) (by decide)
        (fun s => show "ansible.builtin.file" ≠ "register" by decide)

/-- Commands with two operands look at both of them before they take a register. -/
theorem linkCommand_atomic (inv : Invocation) : Atomic (linkCommand inv) := by
  cases h0 : inv.operand 0 with
  | error f => exact .fails f fun s => by simp [linkCommand, h0]
  | ok src =>
      cases h1 : inv.operand 1 with
      | error f => exact .fails f fun s => by simp [linkCommand, h0, h1]
      | ok dest =>
          exact .ofRecipe "ln"
            (fun s => .link (inv.hasOption "-s") (s.vars.interpret .plain src)
              (s.vars.interpret .plain dest) [("mode", modeValue s.umask false)])
            (fun s => by simp [linkCommand, h0, h1]) (by decide)
            (fun s => show "ansible.builtin.file" ≠ "register" by decide)

theorem copyCommand_atomic (inv : Invocation) : Atomic (copyCommand inv) := by
  cases h0 : inv.operand 0 with
  | error f => exact .fails f fun s => by simp [copyCommand, h0]
  | ok src =>
      cases h1 : inv.operand 1 with
      | error f => exact .fails f fun s => by simp [copyCommand, h0, h1]
      | ok dest =>
          exact .ofRecipe "copy_file"
            (fun s => .copied "Copy" (s.vars.interpret .plain src)
              (s.vars.interpret .plain dest))
            (fun s => by simp [copyCommand, h0, h1]) (by decide)
            (fun s => show "ansible.builtin.copy" ≠ "register" by decide)

/-- Whether settings allow a copy between two places. -/
def remoteCopyAllowed (source target : String) (settings : Settings) : Bool :=
  settings.allowsCopy (RemotePath.ofText source).host.isSome (RemotePath.ofText target).host.isSome

/-- A session after a remote copy: it has a task more where the settings allow the copy, and has
    told of it where not. -/
def afterRemoteCopy (source target : String) (s : Session) : Session :=
  if remoteCopyAllowed source target s.settings then
    s.withTask "scp"
      (Recipe.copied "Scp" (RemotePath.ofText source).path
        (RemotePath.ofText target).path).registered
  else { s with output := s.output ++ "scp skipping command scp" ++ "\n" }

/-- With two operands a remote copy ends well, whether it is allowed or not. -/
theorem run_remoteCopyCommand {inv : Invocation} {source target : String}
    (h0 : inv.operand 0 = .ok source) (h1 : inv.operand 1 = .ok target) (s : Session) :
    (remoteCopyCommand inv).run s = (.ok (), afterRemoteCopy source target s) := by
  by_cases h : remoteCopyAllowed source target s.settings = true
  · rw [afterRemoteCopy, if_pos h]
    rw [remoteCopyAllowed] at h
    simp [remoteCopyCommand, h0, h1, h]
  · rw [afterRemoteCopy, if_neg h]
    rw [remoteCopyAllowed] at h
    simp [remoteCopyCommand, h0, h1, h, say]

/-- A remote copy fails for want of operands, says that it is left out, or adds one task. -/
theorem remoteCopyCommand_atomic (inv : Invocation) : Atomic (remoteCopyCommand inv) := by
  cases h0 : inv.operand 0 with
  | error f => exact .fails f fun s => by simp [remoteCopyCommand, h0]
  | ok source =>
      cases h1 : inv.operand 1 with
      | error f => exact .fails f fun s => by simp [remoteCopyCommand, h0, h1]
      | ok target =>
          refine .changes (afterRemoteCopy source target)
            (fun settings => if remoteCopyAllowed source target settings then 1 else 0)
            (run_remoteCopyCommand h0 h1) (fun s => ?_) (fun settings => ?_) (fun s => ?_)
          · by_cases h : remoteCopyAllowed source target s.settings = true
            · rw [afterRemoteCopy, if_pos h]
              exact .registered s "scp" _ (by decide)
                (registered_register? _ (show "ansible.builtin.copy" ≠ "register" by decide))
            · rw [afterRemoteCopy, if_neg h]
              exact .told s "scp skipping command scp"
          · by_cases h : remoteCopyAllowed source target settings = true
            · exact Nat.le_of_eq (if_pos h)
            · rw [if_neg h]
              exact Nat.zero_le 1
          · by_cases h : remoteCopyAllowed source target s.settings = true
            · rw [afterRemoteCopy, if_pos h, if_pos h]
              exact ⟨[_], rfl, rfl⟩
            · rw [afterRemoteCopy, if_neg h, if_neg h]
              exact ⟨[], rfl, (List.append_nil _).symm⟩

/-- The command of a move, with the variables replaced. -/
def moveText (source target : String) (s : Session) : String :=
  "mv " ++ s.vars.interpret .plain source ++ " " ++ s.vars.interpret .plain target

/-- A move fails for want of operands, or adds one task to the shell. -/
theorem moveCommand_atomic (inv : Invocation) : Atomic (moveCommand inv) := by
  cases h0 : inv.operand 0 with
  | error f => exact .fails f fun s => by simp [moveCommand, h0]
  | ok source =>
      cases h1 : inv.operand 1 with
      | error f => exact .fails f fun s => by simp [moveCommand, h0, h1]
      | ok target =>
          refine .registers "mv"
            (fun s name => Task.make ("Run shell command: " ++ moveText source target s) "shell"
              (.text (moveText source target s))
              [("creates", .text (s.vars.interpret .plain target)),
               ("removes", .text (s.vars.interpret .plain source)), ("register", .text name)])
            (fun s => ?_) (by decide) (fun s name => ?_)
          · simp [moveCommand, h0, h1, withTask, moveText]
          · simp [Task.make, Task.register?, Task.get?, Entries.field?, Entries.get?]

/-- There is no operand to fail for. -/
theorem ldconfigCommand_atomic : Atomic ldconfigCommand := by
  refine .registers "ldconfig"
    (fun _ name => Task.make "Run ldconfig" "ansible.builtin.command" (.text "ldconfig")
      [("register", .text name),
       ("changed_when",
        .text ("'changed' in " ++ name ++ ".stdout or 'updated' in " ++ name ++ ".stdout"))])
    (fun s => ?_) (by decide) (fun s name => ?_)
  · simp [ldconfigCommand, withTask]
  · simp [Task.make, Task.register?, Task.get?, Entries.field?, Entries.get?]

theorem gunzipCommand_atomic (inv : Invocation) : Atomic (gunzipCommand inv) := by
  cases h : inv.operand 0 with
  | error f => exact .fails f fun s => by simp [gunzipCommand, h]
  | ok path =>
      exact .ofRecipe "extract_gz" (fun s => .unpacked (s.vars.interpret .plain path))
        (fun s => by simp [gunzipCommand, h]) (by decide)
        (fun s => show "ansible.builtin.unarchive" ≠ "register" by decide)

/-- Both names of a register for work that may be on a whole tree are known. -/
theorem treeRegister_known {name : String} (plain : name ∈ registerBases)
    (recursive : name ++ "_recursive" ∈ registerBases) (flag : Bool) :
    treeRegister name flag ∈ registerBases := by
  cases flag with
  | false => simpa [treeRegister] using plain
  | true => simpa [treeRegister] using recursive

/-- An owner that cannot be read makes the command fail before anything is added. -/
theorem ownerCommand_atomic (inv : Invocation) : Atomic (ownerCommand inv) := by
  cases h0 : inv.operand 0 with
  | error f => exact .fails f fun s => by simp [ownerCommand, h0]
  | ok word =>
      cases hw : ownerAndGroup word with
      | error f => exact .fails f fun s => by simp [ownerCommand, h0, hw]
      | ok pair =>
          cases h1 : inv.operand 1 with
          | error f => exact .fails f fun s => by simp [ownerCommand, h0, hw, h1]
          | ok path =>
              exact .ofRecipe (treeRegister "chown" (inv.hasOption "-R"))
                (fun s => .owned (s.vars.interpret .plain path) pair.1 pair.2
                  (inv.hasOption "-R"))
                (fun s => by simp [ownerCommand, h0, hw, h1])
                (treeRegister_known (by decide) (by decide) _)
                (fun s => show "ansible.builtin.file" ≠ "register" by decide)

/-- The option `-R` goes into the task and into the name of its register. -/
theorem permissionCommand_atomic (inv : Invocation) : Atomic (permissionCommand inv) := by
  cases h0 : inv.operand 0 with
  | error f => exact .fails f fun s => by simp [permissionCommand, h0]
  | ok word =>
      cases h1 : inv.operand 1 with
      | error f => exact .fails f fun s => by simp [permissionCommand, h0, h1]
      | ok path =>
          exact .ofRecipe (treeRegister "file_permissions" (inv.hasOption "-R"))
            (fun s => .permitted (s.vars.interpret .plain path) (s.vars.interpret .plain word)
              (inv.hasOption "-R"))
            (fun s => by simp [permissionCommand, h0, h1])
            (treeRegister_known (by decide) (by decide) _)
            (fun s => show "ansible.builtin.file" ≠ "register" by decide)

/-- A package command, the names of its registers and the module being known. -/
theorem packageCommand_atomic (command manager : String) (inv : Invocation)
    (update : command ++ "_update" ∈ registerBases)
    (upgrade : command ++ "_upgrade" ∈ registerBases)
    (install : command ++ "_install" ∈ registerBases)
    (module : "ansible.builtin." ++ manager ≠ "register") :
    Atomic (packageCommand command manager inv) := by
  unfold packageCommand
  split
  · exact .ofRecipe (command ++ "_update") (fun _ => .cacheUpdated manager)
      (fun s => by simp) update (fun _ => module)
  · exact .ofRecipe (command ++ "_upgrade") (fun _ => .allUpgraded manager)
      (fun s => by simp) upgrade (fun _ => module)
  · exact .ofRecipe (command ++ "_install")
      (fun _ => .installed manager (" ".intercalate inv.sorted.operands)
        (.text (" ".intercalate inv.sorted.operands)) true)
      (fun s => by simp) install (fun _ => module)
  · exact .nothing fun s => by simp

/-- Texts go into a file, behind what a file holds, or to the user. -/
theorem echoCommand_atomic (inv : Invocation) : Atomic (echoCommand inv) := by
  cases h0 : inv.operand 0 with
  | error f => exact .fails f fun s => by simp [echoCommand, h0]
  | ok text =>
      by_cases hto : ∃ target, inv.redirection = some (">", target)
      · obtain ⟨target, hr⟩ := hto
        exact .ofRecipe "echo_redirect"
          (fun s =>
            { name := "Write text to " ++ s.vars.interpret .plain target
              module := "ansible.builtin.copy"
              arguments := record [("dest", .text (s.vars.interpret .plain target)),
                ("content", .text text)] })
          (fun s => by simp [echoCommand, h0, hr]) (by decide)
          (fun s => show "ansible.builtin.copy" ≠ "register" by decide)
      · by_cases hbehind : ∃ target, inv.redirection = some (">>", target)
        · obtain ⟨target, hr⟩ := hbehind
          exact .ofRecipe "echo_redirect_append"
            (fun s =>
              { name := s.vars.interpret .plain
                  ("Append text to " ++ s.vars.interpret .plain target)
                module := "ansible.builtin.lineinfile"
                arguments := record [("path", .text (s.vars.interpret .plain target)),
                  ("line", .text text), ("create", .bool true), ("insertafter", .text "EOF"),
                  ("mode", modeValue s.umask false)] })
            (fun s => by simp [echoCommand, h0, hr]) (by decide)
            (fun s => show "ansible.builtin.lineinfile" ≠ "register" by decide)
        · refine .changes
            (fun s => { s with tasks := s.tasks ++ [echoTask (s.vars.interpret .plain text)] })
            (fun _ => 1) (fun s => ?_) (fun s => .echoed s _) (fun _ => Nat.le_refl 1)
            (fun s => ⟨[_], rfl, rfl⟩)
          simp only [echoCommand, Step.run_liftM_bind, h0]
          split
          next target hr => exact absurd ⟨target, hr⟩ hto
          next target hr => exact absurd ⟨target, hr⟩ hbehind
          next => simp [echoTask]

/-- **A known command is atomic**: it fails without a trace or makes one change. -/
theorem perform_atomic (verb : Verb) (inv : Invocation) : Atomic (perform verb inv) := by
  cases verb with
  | umask => exact umaskCommand_atomic inv
  | exporting => exact exportCommand_atomic inv
  | mkdir => exact mkdirCommand_atomic inv
  | touch => exact touchCommand_atomic inv
  | ln => exact linkCommand_atomic inv
  | cp => exact copyCommand_atomic inv
  | scp => exact remoteCopyCommand_atomic inv
  | mv => exact moveCommand_atomic inv
  | ldconfig => exact ldconfigCommand_atomic
  | gunzip => exact gunzipCommand_atomic inv
  | chown => exact ownerCommand_atomic inv
  | chmod => exact permissionCommand_atomic inv
  | apt =>
      exact packageCommand_atomic "apt" "apt" inv (by decide) (by decide) (by decide)
        (by decide)
  | aptGet =>
      exact packageCommand_atomic "apt-get" "apt" inv (by decide) (by decide) (by decide)
        (by decide)
  | yum =>
      exact packageCommand_atomic "yum" "yum" inv (by decide) (by decide) (by decide)
        (by decide)
  | echo => exact echoCommand_atomic inv
  | ssh => exact .nothing fun s => rfl

end Playscript.Session
