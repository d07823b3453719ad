import Playscript.Proofs.CommandTasks

/-! # Variables in commands

    Each command decides for itself which of its words it writes out: most write out all that
    they use, but `scp` none, `chown` not the owner and the group, the package managers no package,
    and `echo` into a file not its text.  Beside a command stands the one whose operands and
    target have been written out before (`Substituted`).  Both add the same task exactly if no
    text that the command carries into its task (`carried`) mentions a variable, and exactly then
    the task mentions none (`substitution_commutes_iff`).  Only `scp` goes another way: it cuts
    hosts off, so there both add the same task exactly if they copy the same paths.

    A text that has been written out can mention a variable again (`$$A`), so this is asked of
    all texts that are carried and not only of those that are carried as they stand. -/

namespace Playscript

open Shell (Node)

/-- An invocation with its operands and the target of its redirection written out. -/
structure Invocation.Substituted (vs : Variables) (inv inv' : Invocation) : Prop where
  command : inv'.command = inv.command
  subcommand : inv'.subcommand = inv.subcommand
  options : inv'.sorted.options = inv.sorted.options
  operands : inv'.sorted.operands = inv.sorted.operands.map (vs.interpret .plain)
  redirection : inv'.redirection
    = inv.redirection.map fun entry => (entry.1, vs.interpret .plain entry.2)

namespace Invocation.Substituted

variable {vs : Variables} {inv inv' : Invocation} (h : inv.Substituted vs inv')

include h

theorem hasOption (name : String) : inv'.hasOption name = inv.hasOption name := by
  rw [Invocation.hasOption, Sorted.hasOption, h.options]
  rfl

/-- The operands of the substituted form are written out one by one. -/
theorem operands_cons {first : String} {rest : List String}
    (hoperands : inv.sorted.operands = first :: rest) :
    inv'.sorted.operands
      = vs.interpret .plain first :: rest.map (vs.interpret .plain) := by
  rw [h.operands, hoperands, List.map_cons]

theorem redirection_some {sign target : String}
    (hredirection : inv.redirection = some (sign, target)) :
    inv'.redirection = some (sign, vs.interpret .plain target) := by
  rw [h.redirection, hredirection, Option.map_some]

end Invocation.Substituted

/-- The texts that a command carries into its task, some of them written out. -/
def Invocation.carried (vs : Variables) (verb : Verb) (inv : Invocation) : List String :=
  match verb, inv.sorted.operands with
  | .mkdir, path :: _ | .touch, path :: _ | .gunzip, path :: _ => [vs.interpret .plain path]
  | .ln, first :: second :: _ | .cp, first :: second :: _ | .mv, first :: second :: _
  | .chmod, first :: second :: _ => [vs.interpret .plain first, vs.interpret .plain second]
  | .chown, owners :: path :: _ => [owners, vs.interpret .plain path]
  | .scp, src :: dest :: _ => [(RemotePath.ofText src).path, (RemotePath.ofText dest).path]
  | .apt, packages | .aptGet, packages | .yum, packages =>
    if inv.subcommand = some "install" then packages else []
  | .echo, text :: _ =>
    match inv.redirection with
    | some (">", target) => [text, vs.interpret .plain target]
    | some (">>", target) => [text, vs.interpret .plain target]
    | _ => [vs.interpret .plain text]
  | _, _ => []

namespace Session

/-- Two steps add the same tasks exactly if some texts are free of variables, and exactly then are
    the tasks of the first. -/
structure Commutes (s : Session) (x x' : Step Unit) (texts : List String) : Prop where
  same_iff : newTasks x' s = newTasks x s ↔ s.vars.Free texts
  free_iff : (∀ task ∈ newTasks x s, s.vars.Free task.texts) ↔ s.vars.Free texts

/-! ## Commands beside their substituted forms -/

section Commands

open Variables (mentions_gap not_mentions_of_no_dollar)

variable {s : Session} (hvalues : s.vars.Literal)

include hvalues

/-- Two steps that make one task each, from some texts and from the same texts written out. -/
theorem Commutes.of_tasks {x x' : Step Unit} {texts : List String} {task task' : Task}
    (hnew : newTasks x s = [task]) (hnew' : newTasks x' s = [task'])
    (hkeep : texts.map (s.vars.interpret .plain) = texts → task' = task)
    (hback : task'.texts = task.texts → texts.map (s.vars.interpret .plain) = texts)
    (hfree : s.vars.Free task.texts ↔ s.vars.Free texts) : Commutes s x x' texts where
  same_iff := by
    rw [hnew, hnew', List.singleton_inj, ← Variables.map_interpret_eq_iff hvalues]
    exact ⟨fun h => hback (congrArg Task.texts h), hkeep⟩
  free_iff := by
    rw [hnew, List.forall_mem_singleton]
    exact hfree

/-- A task from one text. -/
theorem Commutes.of_text {x x' : Step Unit} {text : String} (task : String → Task)
    (hnew : newTasks x s = [task text])
    (hnew' : newTasks x' s = [task (s.vars.interpret .plain text)])
    (hshown : ∀ text', (task text').texts = (task text).texts → text' = text)
    (hfree : s.vars.Free (task text).texts ↔ ¬ s.vars.Mentions text) :
    Commutes s x x' [text] := by
  refine .of_tasks hvalues hnew hnew' ?_ ?_ (by simpa using hfree)
  · intro hkeep
    rw [List.map_singleton, List.singleton_inj] at hkeep
    rw [hkeep]
  · intro htexts
    rw [List.map_singleton, hshown _ htexts]

/-- A task from two texts. -/
theorem Commutes.of_pair {x x' : Step Unit} {first second : String}
    (task : String → String → Task) (hnew : newTasks x s = [task first second])
    (hnew' : newTasks x' s
      = [task (s.vars.interpret .plain first) (s.vars.interpret .plain second)])
    (hshown : ∀ first' second', (task first' second').texts = (task first second).texts →
      first' = first ∧ second' = second)
    (hfree : s.vars.Free (task first second).texts
      ↔ ¬ s.vars.Mentions first ∧ ¬ s.vars.Mentions second) :
    Commutes s x x' [first, second] := by
  refine .of_tasks hvalues hnew hnew' ?_ ?_ (by simpa using hfree)
  · intro hkeep
    simp only [List.map_cons, List.map_nil, List.cons.injEq] at hkeep
    rw [hkeep.1, hkeep.2.1]
  · intro htexts
    obtain ⟨hfirst, hsecond⟩ := hshown _ _ htexts
    rw [List.map_cons, List.map_singleton, hfirst, hsecond]

variable {inv inv' : Invocation} (hsubst : inv.Substituted s.vars inv')

include hsubst

/-- For a new directory it is the path, as it is written out, that has to be free of variables. -/
theorem mkdir_commutes {path : String} {rest : List String}
    (h : inv.sorted.operands = path :: rest) :
    Commutes s (mkdirCommand inv) (mkdirCommand inv') [s.vars.interpret .plain path] := by
  have h' := hsubst.operands_cons h
  refine .of_text hvalues
    (fun path => (Recipe.directory path (modeValue s.umask true)).registered
      (s.nextRegister "mkdir"))
    (newTasks_withTask (run_mkdirCommand s h)) (newTasks_withTask (run_mkdirCommand s h')) ?_
    (Recipe.free_directory ..)
  intro path' htexts
  simp only [Recipe.texts_directory, List.cons.injEq] at htexts
  exact htexts.2.1

/-- Without exported variables, a touched file is like a new directory. -/
theorem touch_commutes (hexported : s.vars.exported = []) {path : String} {rest : List String}
    (h : inv.sorted.operands = path :: rest) :
    Commutes s (touchCommand inv) (touchCommand inv') [s.vars.interpret .plain path] := by
  have h' := hsubst.operands_cons h
  refine .of_text hvalues
    (fun path => (Recipe.touched path (modeValue s.umask false)).registered
      (s.nextRegister "touch_file"))
    (newTasks_withTask (run_touchCommand s hexported h))
    (newTasks_withTask (run_touchCommand s hexported h')) ?_ (Recipe.free_touched ..)
  intro path' htexts
  simp only [Recipe.texts_touched, List.cons.injEq] at htexts
  exact htexts.2.1

theorem gunzip_commutes {path : String} {rest : List String}
    (h : inv.sorted.operands = path :: rest) :
    Commutes s (gunzipCommand inv) (gunzipCommand inv') [s.vars.interpret .plain path] := by
  have h' := hsubst.operands_cons h
  refine .of_text hvalues
    (fun path => (Recipe.unpacked path).registered (s.nextRegister "extract_gz"))
    (newTasks_withTask (run_gunzipCommand s h)) (newTasks_withTask (run_gunzipCommand s h')) ?_
    (Recipe.free_unpacked ..)
  intro path' htexts
  simp only [Recipe.texts_unpacked, List.cons.injEq] at htexts
  exact htexts.2.1

/-- The command writes both paths of a link out, and its substituted form does so a second time; so
    both have to be free of variables after the first time. -/
theorem link_commutes {src dest : String} {rest : List String}
    (h : inv.sorted.operands = src :: dest :: rest) :
    Commutes s (linkCommand inv) (linkCommand inv')
      [s.vars.interpret .plain src, s.vars.interpret .plain dest] := by
  have h' := hsubst.operands_cons h
  have hrun' := run_linkCommand s h'
  rw [hsubst.hasOption] at hrun'
  refine .of_pair hvalues
    (fun src dest => (Recipe.link (inv.hasOption "-s") src dest
      [("mode", modeValue s.umask false)]).registered (s.nextRegister "ln"))
    (newTasks_withTask (run_linkCommand s h)) (newTasks_withTask hrun') ?_ (Recipe.free_link ..)
  intro src' dest' htexts
  simp only [Recipe.texts_link, List.cons.injEq] at htexts
  exact ⟨htexts.2.1, htexts.2.2.1⟩

theorem copy_commutes {src dest : String} {rest : List String}
    (h : inv.sorted.operands = src :: dest :: rest) :
    Commutes s (copyCommand inv) (copyCommand inv')
      [s.vars.interpret .plain src, s.vars.interpret .plain dest] := by
  have h' := hsubst.operands_cons h
  refine .of_pair hvalues
    (fun src dest => (Recipe.copied "Copy" src dest).registered (s.nextRegister "copy_file"))
    (newTasks_withTask (run_copyCommand s h)) (newTasks_withTask (run_copyCommand s h')) ?_
    (Recipe.free_copied _ (by decide) ..)
  intro src' dest' htexts
  simp only [Recipe.texts_copied, List.cons.injEq] at htexts
  exact ⟨htexts.2.1, htexts.2.2.1⟩

theorem move_commutes {src dest : String} {rest : List String}
    (h : inv.sorted.operands = src :: dest :: rest) :
    Commutes s (moveCommand inv) (moveCommand inv')
      [s.vars.interpret .plain src, s.vars.interpret .plain dest] := by
  have h' := hsubst.operands_cons h
  refine .of_pair hvalues (fun src dest => moveTask src dest (s.nextRegister "mv"))
    (newTasks_withTask (run_moveCommand s h)) (newTasks_withTask (run_moveCommand s h')) ?_
    (free_moveTask ..)
  intro src' dest' htexts
  simp only [texts_moveTask, List.cons.injEq] at htexts
  exact ⟨htexts.2.2.2.1, htexts.2.2.1⟩

/-- The mode is written out as the path is, so both count, each as it is written out. -/
theorem permission_commutes {mode path : String} {rest : List String}
    (h : inv.sorted.operands = mode :: path :: rest) :
    Commutes s (permissionCommand inv) (permissionCommand inv')
      [s.vars.interpret .plain mode, s.vars.interpret .plain path] := by
  have h' := hsubst.operands_cons h
  have hrun' := run_permissionCommand s h'
  rw [hsubst.hasOption] at hrun'
  refine .of_pair hvalues
    (fun mode path => (Recipe.permitted path mode (inv.hasOption "-R")).registered
      (s.nextRegister (treeRegister "file_permissions" (inv.hasOption "-R"))))
    (newTasks_withTask (run_permissionCommand s h)) (newTasks_withTask hrun') ?_
    (Recipe.free_permitted ..)
  intro mode' path' htexts
  simp only [Recipe.texts_permitted, List.cons.injEq] at htexts
  exact ⟨htexts.2.2.1, htexts.2.1⟩

/-- The owner and the group are cut apart as they stand.  What they stand for may hold colons, and
    then the substituted command fails; but then a variable is mentioned. -/
theorem owner_commutes {owners path : String} {rest : List String}
    (h : inv.sorted.operands = owners :: path :: rest) (hcolon : owners.toList.count ':' = 1) :
    Commutes s (ownerCommand inv) (ownerCommand inv')
      [owners, s.vars.interpret .plain path] := by
  have h' := hsubst.operands_cons h
  obtain ⟨⟨owner, group⟩, howners⟩ := (ownerAndGroup_ok_iff owners).mpr hcolon
  have hjoined := eq_of_ownerAndGroup howners
  have hnew := newTasks_withTask (run_ownerCommand s h howners)
  have hmentions : s.vars.Free [owners, s.vars.interpret .plain path] ↔
      (¬ s.vars.Mentions owner ∧ ¬ s.vars.Mentions group)
        ∧ ¬ s.vars.Mentions (s.vars.interpret .plain path) := by
    rw [hjoined]
    simp (disch := decide) [mentions_gap]
  have hfree := (Recipe.free_owned s.vars (s.vars.interpret .plain path) owner group
    (inv.hasOption "-R") (s.nextRegister (treeRegister "chown" (inv.hasOption "-R")))).trans
    hmentions.symm
  cases howners' : ownerAndGroup (s.vars.interpret .plain owners) with
  | ok pair =>
      -- both forms make a task, and the owners are their pieces with a colon in between
      obtain ⟨owner', group'⟩ := pair
      have hjoined' := eq_of_ownerAndGroup howners'
      have hrun' := run_ownerCommand s h' howners'
      rw [hsubst.hasOption] at hrun'
      refine .of_tasks hvalues hnew (newTasks_withTask hrun') ?_ ?_ hfree
      · intro hkeep
        simp only [List.map_cons, List.map_nil, List.cons.injEq] at hkeep
        rw [hkeep.1, howners] at howners'
        cases howners'
        rw [hkeep.2.1]
      · intro htexts
        simp only [Recipe.texts_owned, List.cons.injEq] at htexts
        obtain ⟨-, hpath, howner, hgroup, -⟩ := htexts
        rw [List.map_cons, List.map_singleton, hjoined', hpath, howner, hgroup, ← hjoined]
  | error f =>
      have hrun' : (ownerCommand inv').run s = (throw f : Step Unit).run s := by
        simp [ownerCommand, Invocation.operand, h', howners']
      -- the substituted form makes no task, and owners that stay as they are would not fail
      have hnew' : newTasks (ownerCommand inv') s = [] :=
        (newTasks_of_run hrun').trans List.drop_length
      refine ⟨?_, ?_⟩
      · rw [hnew', hnew, ← Variables.map_interpret_eq_iff hvalues]
        constructor
        · intro hsame
          cases hsame
        · intro hkeep
          rw [List.map_cons, List.cons.injEq] at hkeep
          rw [hkeep.1, howners] at howners'
          cases howners'
      · rw [hnew, List.forall_mem_singleton]
        exact hfree

/-- Packages count as they were given: the command does not write them out, and in its substituted
    form they have been. -/
theorem install_commutes {command manager : String}
    (hmodule : "ansible.builtin." ++ manager ≠ "register")
    (h : inv.subcommand = some "install") :
    Commutes s (packageCommand command manager inv) (packageCommand command manager inv')
      inv.sorted.operands := by
  have hwritten := (s.vars.interpret_intercalate inv.sorted.operands).symm
  have hrun' := run_installCommand s command manager (hsubst.subcommand.trans h)
  rw [hsubst.operands, hwritten] at hrun'
  refine .of_tasks hvalues (newTasks_withTask (run_installCommand s command manager h))
    (newTasks_withTask hrun') ?_ ?_ ?_
  · intro hkeep
    rw [hkeep] at hwritten
    rw [← hwritten]
  · intro htexts
    simp only [Recipe.texts_installed hmodule, List.cons.injEq] at htexts
    -- different packages can make the same line, but not packages and what they stand for
    rw [Variables.map_interpret_eq_iff hvalues, ← Variables.mentions_intercalate,
      ← Variables.interpret_eq_self_iff hvalues]
    exact htexts.2.1
  · rw [Recipe.free_installed hmodule, Variables.mentions_intercalate]

/-- A text that is written counts as it was given, and its file as it is written out. -/
theorem write_commutes {text target : String} {rest : List String}
    (h : inv.sorted.operands = text :: rest) (htarget : inv.redirection = some (">", target)) :
    Commutes s (echoCommand inv) (echoCommand inv')
      [text, s.vars.interpret .plain target] := by
  have h' := hsubst.operands_cons h
  have htarget' := hsubst.redirection_some htarget
  refine .of_pair hvalues
    (fun text file => (writeRecipe text file).registered (s.nextRegister "echo_redirect"))
    (newTasks_withTask (run_echoCommand_write s h htarget))
    (newTasks_withTask (run_echoCommand_write s h' htarget')) ?_ (free_writeRecipe ..)
  intro text' file' htexts
  simp only [texts_writeRecipe, List.cons.injEq] at htexts
  exact ⟨htexts.2.2.1, htexts.2.1⟩

/-- The name of the task is written out once more than the path, which makes no difference if
    the path mentions nothing. -/
theorem append_commutes {text target : String} {rest : List String}
    (h : inv.sorted.operands = text :: rest) (htarget : inv.redirection = some (">>", target)) :
    Commutes s (echoCommand inv) (echoCommand inv')
      [text, s.vars.interpret .plain target] := by
  have h' := hsubst.operands_cons h
  have htarget' := hsubst.redirection_some htarget
  refine .of_pair hvalues
    (fun text file => (appendRecipe text file
      ("Append text to " ++ s.vars.interpret .plain file)
      (modeValue s.umask false)).registered (s.nextRegister "echo_redirect_append"))
    (newTasks_withTask (run_echoCommand_append s h htarget))
    (newTasks_withTask (run_echoCommand_append s h' htarget')) ?_ ?_
  · intro text' file' htexts
    simp only [texts_appendRecipe, List.cons.injEq] at htexts
    exact ⟨htexts.2.2.1, htexts.2.1⟩
  · rw [texts_appendRecipe]
    simp (disch := decide) only [Variables.free_cons, Variables.mentions_lead,
      Variables.not_mentions_of_no_dollar, not_false_eq_true, Variables.free_modeValue, and_true]
    constructor
    · rintro ⟨-, hfile, htext⟩
      exact ⟨htext, hfile⟩
    · rintro ⟨htext, hfile⟩
      rw [(Variables.interpret_eq_self_iff hvalues _).mpr hfile]
      exact ⟨hfile, hfile, htext⟩

/-- Without a file to go to, the text is written out, and the substituted form writes it out once
    more; that changes it exactly if it still mentions a variable. -/
theorem tell_commutes {text : String} {rest : List String}
    (h : inv.sorted.operands = text :: rest) (htarget : ¬ takesText inv.redirection) :
    Commutes s (echoCommand inv) (echoCommand inv') [s.vars.interpret .plain text] := by
  have h' := hsubst.operands_cons h
  have htarget' : ¬ takesText inv'.redirection := by
    rw [hsubst.redirection]
    rintro ⟨file, hfile | hfile⟩
    · obtain ⟨⟨sign, target⟩, hsome, heq⟩ := Option.map_eq_some_iff.mp hfile
      cases heq
      exact htarget ⟨target, .inl hsome⟩
    · obtain ⟨⟨sign, target⟩, hsome, heq⟩ := Option.map_eq_some_iff.mp hfile
      cases heq
      exact htarget ⟨target, .inr hsome⟩
  refine .of_text hvalues echoTask (newTasks_echoCommand_tell s h htarget)
    (newTasks_echoCommand_tell s h' htarget') ?_ (free_echoTask ..)
  intro text' htexts
  simp only [texts_echoTask, List.cons.injEq] at htexts
  exact htexts.2.1

/-- Only an installation looks at its operands. -/
theorem package_commutes {command manager : String}
    (hmodule : "ansible.builtin." ++ manager ≠ "register") :
    Commutes s (packageCommand command manager inv) (packageCommand command manager inv')
      (if inv.subcommand = some "install" then inv.sorted.operands else []) := by
  by_cases hinstall : inv.subcommand = some "install"
  · rw [if_pos hinstall]
    exact install_commutes hvalues hsubst hmodule hinstall
  · rw [if_neg hinstall]
    have hsame : packageCommand command manager inv' = packageCommand command manager inv := by
      unfold packageCommand
      rw [hsubst.subcommand]
      split
      · rfl
      · rfl
      · next h => exact absurd h hinstall
      · rfl
    refine ⟨by simp [hsame], ?_⟩
    have hfree : ∀ task ∈ newTasks (packageCommand command manager inv) s,
        s.vars.Free task.texts := by
      unfold packageCommand
      split
      · rw [newTasks_withTask (run_addRegistered _ _ s), List.forall_mem_singleton,
          Recipe.texts_cacheUpdated hmodule]
        simp (disch := decide) [not_mentions_of_no_dollar]
      · rw [newTasks_withTask (run_addRegistered _ _ s), List.forall_mem_singleton,
          Recipe.texts_allUpgraded hmodule]
        simp (disch := decide) [not_mentions_of_no_dollar]
      · next h => exact absurd h hinstall
      · have hnone : newTasks (pure ()) s = [] := List.drop_length
        simp [hnone]
    simpa using hfree

end Commands

/-! ## The commands of the table -/

/-- The commands that make a task of their operands. -/
def translated : List Verb :=
  [.mkdir, .touch, .ln, .cp, .scp, .mv, .gunzip, .chown, .chmod, .apt, .aptGet, .yum, .echo]

/-- What a command carries into its task decides both questions. -/
theorem perform_commutes {s : Session} (hexported : s.vars.exported = [])
    (hvalues : s.vars.Literal) {verb : Verb} {inv inv' : Invocation}
    (hsubst : inv.Substituted s.vars inv') (hlisted : verb ∈ translated) (hscp : verb ≠ .scp)
    (hemits : newTasks (perform verb inv) s ≠ []) :
    Commutes s (perform verb inv) (perform verb inv') (inv.carried s.vars verb) := by
  -- a command that adds a task does not fail, so it has the operands that it looks up
  have hlacks : ¬ LacksOperands verb.name inv.sorted.operands := by
    intro hlacks
    exact hemits (newTasks_of_fails ((perform_fails_iff verb inv s).mpr hlacks))
  cases verb with
  | mkdir =>
      obtain ⟨path, rest, h⟩ := List.exists_cons_of_ne_nil
        (by simpa [LacksOperands, Verb.name] using hlacks)
      simp only [Invocation.carried, h]
      exact mkdir_commutes hvalues hsubst h
  | touch =>
      obtain ⟨path, rest, h⟩ := List.exists_cons_of_ne_nil
        (by simpa [LacksOperands, Verb.name] using hlacks)
      simp only [Invocation.carried, h]
      exact touch_commutes hvalues hsubst hexported h
  | gunzip =>
      obtain ⟨path, rest, h⟩ := List.exists_cons_of_ne_nil
        (by simpa [LacksOperands, Verb.name] using hlacks)
      simp only [Invocation.carried, h]
      exact gunzip_commutes hvalues hsubst h
  | ln =>
      obtain ⟨src, dest, rest, h⟩ := exists_two (by simpa [LacksOperands, Verb.name] using hlacks)
      simp only [Invocation.carried, h]
      exact link_commutes hvalues hsubst h
  | cp =>
      obtain ⟨src, dest, rest, h⟩ := exists_two (by simpa [LacksOperands, Verb.name] using hlacks)
      simp only [Invocation.carried, h]
      exact copy_commutes hvalues hsubst h
  | mv =>
      obtain ⟨src, dest, rest, h⟩ := exists_two (by simpa [LacksOperands, Verb.name] using hlacks)
      simp only [Invocation.carried, h]
      exact move_commutes hvalues hsubst h
  | chmod =>
      obtain ⟨mode, path, rest, h⟩ := exists_two (by simpa [LacksOperands, Verb.name] using hlacks)
      simp only [Invocation.carried, h]
      exact permission_commutes hvalues hsubst h
  | chown =>
      have howners : ¬ inv.sorted.operands.length < 2 ∧
          ¬ ∀ word ∈ inv.sorted.operands.head?, word.toList.count ':' ≠ 1 := by
        simpa [LacksOperands, Verb.name] using hlacks
      obtain ⟨owners, path, rest, h⟩ := exists_two howners.1
      have hcolon : owners.toList.count ':' = 1 := by simpa [h] using howners.2
      simp only [Invocation.carried, h]
      exact owner_commutes hvalues hsubst h hcolon
  | apt => exact package_commutes hvalues hsubst (by decide)
  | aptGet => exact package_commutes hvalues hsubst (by decide)
  | yum => exact package_commutes hvalues hsubst (by decide)
  | echo =>
      obtain ⟨text, rest, h⟩ := List.exists_cons_of_ne_nil
        (by simpa [LacksOperands, Verb.name] using hlacks)
      by_cases htakes : takesText inv.redirection
      · obtain ⟨target, htarget | htarget⟩ := htakes
        · simp only [Invocation.carried, h, htarget]
          exact write_commutes hvalues hsubst h htarget
        · simp only [Invocation.carried, h, htarget]
          exact append_commutes hvalues hsubst h htarget
      · have hcarried : inv.carried s.vars .echo = [s.vars.interpret .plain text] := by
          simp only [Invocation.carried, h]
          split
          next target hr => exact absurd ⟨target, .inl hr⟩ htakes
          next target hr => exact absurd ⟨target, .inr hr⟩ htakes
          next => rfl
        rw [hcarried]
        exact tell_commutes hvalues hsubst h htakes
  | scp => exact absurd rfl hscp
  | umask | exporting | ldconfig | ssh => exact absurd hlisted (by decide)

/-- A remote copy is of paths, so the hosts of its operands do not show. -/
theorem remoteCopy_same_iff {s : Session} {inv inv' : Invocation}
    (h : ¬ inv.sorted.operands.length < 2) (h' : ¬ inv'.sorted.operands.length < 2) :
    newTasks (remoteCopyCommand inv') s = newTasks (remoteCopyCommand inv) s ↔
      remotePaths s.settings inv'.sorted.operands = remotePaths s.settings inv.sorted.operands := by
  obtain ⟨src, dest, rest, hoperands⟩ := exists_two h
  obtain ⟨src', dest', rest', hoperands'⟩ := exists_two h'
  rw [newTasks_remoteCopyCommand s hoperands, newTasks_remoteCopyCommand s hoperands']
  constructor
  · intro hsame
    have hinj : Function.Injective fun paths : String × String =>
        (Recipe.copied "Scp" paths.1 paths.2).registered (s.nextRegister "scp") := by
      intro paths paths' hpaths
      have htexts := congrArg Task.texts hpaths
      simp only [Recipe.texts_copied, List.cons.injEq] at htexts
      exact Prod.ext htexts.2.1 htexts.2.2.1
    refine Option.map_injective hinj ?_
    simpa using congrArg List.head? hsame
  · intro hpaths
    rw [hpaths]

/-- The task of a remote copy mentions what its paths mention. -/
theorem remoteCopy_free_iff {s : Session} {inv : Invocation}
    (h : ¬ inv.sorted.operands.length < 2) (hemits : newTasks (remoteCopyCommand inv) s ≠ []) :
    (∀ task ∈ newTasks (remoteCopyCommand inv) s, s.vars.Free task.texts) ↔
      s.vars.Free (inv.carried s.vars .scp) := by
  obtain ⟨src, dest, rest, hoperands⟩ := exists_two h
  have hnew := newTasks_remoteCopyCommand s hoperands
  rw [hoperands, remotePaths] at hnew
  split at hnew
  · rw [hnew, Option.map_some, Option.toList_some, List.forall_mem_singleton,
      Recipe.free_copied _ (by decide)]
    simp [Invocation.carried, hoperands]
  · exact absurd hnew hemits

/-- A command of plain words that makes a task of its operands, without assignments. -/
structure TableCommand where
  parts : List Node
  verb : Verb
  plain : ∀ part ∈ parts, part.isPlainPart = true
  unassigned : ∀ part ∈ parts, part.isAssignment = false
  named : (Invocation.ofParts parts).verb? = some verb
  listed : verb ∈ translated

namespace TableCommand

def tree (c : TableCommand) : Node :=
  .command c.parts

def invocation (c : TableCommand) : Invocation :=
  Invocation.ofParts c.parts

/-- The texts that a command carries into its task. -/
def carried (c : TableCommand) (vs : Variables) : List String :=
  c.invocation.carried vs c.verb

/-- A command of the table adds what performing it adds. -/
theorem newTasks_tree (c : TableCommand) (s : Session) :
    newTasks (command c.tree) s = newTasks (perform c.verb c.invocation) s := by
  have hassign : (c.parts.forM assignPart).run s = (.ok (), s) := by
    rw [assignParts_eq_pure c.unassigned]
    rfl
  exact newTasks_of_run (run_command_of_known c.plain c.named hassign)

theorem verb_eq {c c' : TableCommand} (h : c'.invocation.command = c.invocation.command) :
    c'.verb = c.verb := by
  have hverb : c'.invocation.verb? = c.invocation.verb? := by
    rw [Invocation.verb?, Invocation.verb?, h]
  exact Option.some.inj ((c'.named.symm.trans hverb).trans c.named)

/-- **Writing the words of a command out first changes nothing exactly if no text that it carries
    into its task mentions a variable**, and exactly then is the task free of variables.  `scp`
    carries paths without their hosts, so there the first holds exactly if both forms copy
    the same paths.  Nothing is exported, no value holds a dollar sign, and the command adds a
    task. -/
theorem substitution_commutes_iff {s : Session} (hexported : s.vars.exported = [])
    (hvalues : s.vars.Literal) {c c' : TableCommand}
    (hsubst : c.invocation.Substituted s.vars c'.invocation)
    (hemits : newTasks (command c.tree) s ≠ []) :
    (c.verb ≠ .scp → (newTasks (command c'.tree) s = newTasks (command c.tree) s ↔
      s.vars.Free (c.carried s.vars))) ∧
    (c.verb = .scp → (newTasks (command c'.tree) s = newTasks (command c.tree) s ↔
      remotePaths s.settings c'.invocation.sorted.operands
        = remotePaths s.settings c.invocation.sorted.operands)) ∧
    ((∀ task ∈ newTasks (command c.tree) s, s.vars.Free task.texts) ↔
      s.vars.Free (c.carried s.vars)) := by
  rw [newTasks_tree] at hemits
  rw [newTasks_tree, newTasks_tree, verb_eq hsubst.command, carried]
  by_cases hscp : c.verb = .scp
  · rw [hscp] at hemits ⊢
    have hoperands : ¬ c.invocation.sorted.operands.length < 2 := by
      intro hfew
      have hlacks : LacksOperands Verb.scp.name c.invocation.sorted.operands :=
        .inr (.inl ⟨by decide, hfew⟩)
      exact hemits (newTasks_of_fails ((perform_fails_iff .scp c.invocation s).mpr hlacks))
    have hoperands' : ¬ c'.invocation.sorted.operands.length < 2 := by
      rw [hsubst.operands, List.length_map]
      exact hoperands
    exact ⟨fun h => absurd rfl h, fun _ => remoteCopy_same_iff hoperands hoperands',
      remoteCopy_free_iff hoperands hemits⟩
  · have hboth := perform_commutes hexported hvalues hsubst c.listed hscp hemits
    exact ⟨fun _ => hboth.same_iff, fun h => absurd h hscp, hboth.free_iff⟩

/-- `echo WORD > /srv/motd` -/
def motdParts (word : Node) : List Node :=
  [.word "echo" [], word, .redirect none ">" (.word "/srv/motd" [])]

/-- A text that goes into a file keeps its variables. -/
theorem echo_into_file_differs :
    ∃ (c c' : TableCommand) (s : Session),
      c.parts = motdParts (.word "$A" [.parameter "A"]) ∧ c'.parts = motdParts (.word "web" []) ∧
      s.vars.get? "A" = some "web" ∧ s.vars.exported = [] ∧ s.vars.Literal ∧
      c.invocation.Substituted s.vars c'.invocation ∧ newTasks (command c.tree) s ≠ [] ∧
      newTasks (command c'.tree) s ≠ newTasks (command c.tree) s ∧
      ∃ task ∈ newTasks (command c.tree) s, ¬ s.vars.Free task.texts := by
  let c : TableCommand :=
    { parts := motdParts (.word "$A" [.parameter "A"]), verb := .echo, plain := by decide
      unassigned := by decide, named := rfl, listed := by decide }
  let c' : TableCommand :=
    { parts := motdParts (.word "web" []), verb := .echo, plain := by decide
      unassigned := by decide, named := rfl, listed := by decide }
  let s : Session := { vars := { plain := [("A", "web")] } }
  have hvalues : s.vars.Literal := by
    show ∀ entry ∈ [("A", "web")], '$' ∉ entry.2.toList
    decide
  have hsubst : c.invocation.Substituted s.vars c'.invocation :=
    ⟨rfl, rfl, rfl, by decide +kernel, by decide +kernel⟩
  have hemits : newTasks (command c.tree) s ≠ [] := List.cons_ne_nil _ _
  have hmentions : ¬ s.vars.Free (c.carried s.vars) := by
    intro hfree
    exact hfree "$A" (by decide +kernel) ⟨⟨"A", "$A"⟩, .inr (by decide +kernel), by decide +kernel⟩
  obtain ⟨hsame, -, htexts⟩ := substitution_commutes_iff rfl hvalues hsubst hemits
  refine ⟨c, c', s, rfl, rfl, rfl, rfl, hvalues, hsubst, hemits, ?_, ?_⟩
  · intro heq
    exact hmentions ((hsame (by decide)).mp heq)
  · by_contra hnone
    refine hmentions (htexts.mp fun task htask => ?_)
    by_contra hfree
    exact hnone ⟨task, htask, hfree⟩

end TableCommand

end Session

end Playscript
