import Playscript.Proofs.CommandForms

/-! # One action by several routes

    A script can have the same thing done in several ways: by a function of its language, by a
    function of a package, and by a command of the shell.  Each way is logged in its own form
    (`FileAction.Route`), and each form is read as an operation of its own
    (`Operation.ofValue_told`).  The tasks are the same all the same, and so are those of a log in
    which one way stands in the place of another (`routes_give_same_tasks`). -/

namespace Playscript.Perl

open Line (IsWord)

theorem isWord_of_any {text : String}
    (h : text.toList ≠ [] ∧ text.toList.any Text.isBlank = false) : IsWord text.toList :=
  ⟨h.1, fun c hc => Bool.eq_false_iff.mpr (List.any_eq_false.mp h.2 c hc)⟩

/-! ## What an entry tells -/

namespace LoggedCall

/-- An item of a log tells of a call: it is a mapping in which the keys of the call have their
    values.  Where the value is `null` the key may be missing. -/
def Told (call : LoggedCall) (item : Value) : Prop :=
  ∃ entry : Entries, item = .map entry ∧ ∀ field ∈ call.fields, entry.field field.1 = field.2

/-- The entry with the keys of a call and no others tells of it. -/
theorem told_record (call : LoggedCall) : call.Told (record call.fields) := by
  refine ⟨_, rfl, ?_⟩
  cases call <;> simp [fields, Entries.field, Entries.field?, Entries.get?]

/-- A call has the shell run a command that is given as one text. -/
inductive Runs (text : String) : LoggedCall → Prop
  | system : Runs text (.system [text])
  | exec : Runs text (.exec [text])

/-- The operation that a call stands for. -/
inductive Means : LoggedCall → Operation → Prop
  | opened (file mode : String) :
      Means (.opened (some file) (some mode)) (.opened (.text file) mode)
  | renamed (source destination : Value) :
      Means (.renamed source destination) (.renamed source destination)
  | deleted (files : List String) : Means (.deleted files) (.deleted (files.map .text))
  | ran {call : LoggedCall} {text command : String} {arguments : List String}
      (hruns : call.Runs text) (hwords : Text.words text = command :: arguments) :
      Means call (.ran command arguments)
  | madeDirectory (path : Value) : Means (.madeDirectory path .absent) (.madeDirectory path none)
  | removedDirectory (path : Value) : Means (.removedDirectory path) (.removedDirectory path)
  | madePaths (paths : List Value)
      {twoEnds : "File::Path" = "File::Copy" → "make_path" = "copy" → paths.length = 2} :
      Means (.external "File::Path" "make_path" paths twoEnds) (.madePaths paths)
  | removedTrees (paths : List Value)
      {twoEnds : "File::Path" = "File::Copy" → "remove_tree" = "copy" → paths.length = 2} :
      Means (.external "File::Path" "remove_tree" paths twoEnds) (.removedTrees paths)

end LoggedCall

namespace Operation

theorem fieldOr_of_field {entry : Entries} {key : String} {v : Value} (h : entry.field key = v)
    (hv : v ≠ .null) (default : Value) : fieldOr entry key default = v := by
  rw [Entries.field] at h
  rw [fieldOr]
  cases hkey : entry.field? key with
  | none =>
      rw [hkey] at h
      exact absurd h.symm hv
  | some found =>
      rw [hkey] at h
      exact h

/-- A mode that is a text is read as it stands. -/
theorem openMode_text (mode : String) : openMode (.text mode) = .ok mode := by
  have hjoin : String.join (mode.toList.map fun c => (Value.text c.toString).display) = mode := by
    rw [← String.toList_inj, String.toList_join, List.flatMap_map]
    simp [Value.display]
  show Except.ok (String.join ((mode.toList.map fun c => Value.text c.toString).map Value.display))
    = _
  rw [List.map_map]
  exact congrArg Except.ok hjoin

/-- **An entry is read as the operation that its call stands for.** -/
theorem ofValue_told {call : LoggedCall} {item : Value} {operation : Operation}
    (h : call.Told item) (hmeans : call.Means operation) : ofValue item = .ok operation := by
  obtain ⟨entry, rfl, hfield⟩ := h
  show ofEntries entry = _
  cases hmeans
  case ran text command arguments hwords hruns =>
      have hcommand : ofEntries entry = commandOf (.list [.text text]) := by
        cases hruns <;> simp only [LoggedCall.fields, List.forall_mem_cons] at hfield <;>
          simp only [ofEntries, hfield, Value.text?] <;> rfl
      rw [hcommand, commandOf_words hwords]
  all_goals simp only [LoggedCall.fields, List.forall_mem_cons] at hfield
  case opened file mode =>
      have hmode := fieldOr_of_field hfield.2.2.1 (by simp [LoggedCall.optional]) (.list [])
      simp only [ofEntries, hfield, hmode, Value.text?, LoggedCall.optional, Option.map_some,
        Option.getD_some, openMode_text]
      rfl
  case deleted files =>
      have hfiles := fieldOr_of_field hfield.2.1 (by simp) (.list [])
      simp only [ofEntries, hfield, hfiles, Value.text?]
      rfl
  case madeDirectory path =>
      simp only [ofEntries, hfield, Value.text?]
      rfl
  case madePaths paths _ =>
      have hpaths := fieldOr_of_field hfield.2.2.2.1 (by simp) (.list [])
      simp only [ofEntries, callOf, hfield, hpaths, Value.text?]
      rfl
  case removedTrees paths _ =>
      have hpaths := fieldOr_of_field hfield.2.2.2.1 (by simp) (.list [])
      simp only [ofEntries, callOf, hfield, hpaths, Value.text?]
      rfl
  all_goals simp only [ofEntries, hfield, Value.text?]

end Operation

/-- A log gives the tasks of the operations that its calls stand for. -/
theorem tasksOfItems_told {calls : List LoggedCall} {items : List Value}
    (hitems : List.Forall₂ LoggedCall.Told calls items) :
    ∀ {operations : List Operation}, List.Forall₂ LoggedCall.Means calls operations →
      tasksOfItems items = .ok (operations.flatMap Operation.tasks) := by
  induction hitems with
  | nil =>
      intro operations hmeans
      rw [List.forall₂_nil_left_iff.mp hmeans]
      rfl
  | cons hitem _ ih =>
      intro operations hmeans
      obtain ⟨operation, others, hcall, hothers, rfl⟩ := List.forall₂_cons_left_iff.mp hmeans
      rw [tasksOfItems, Operation.ofValue_told hitem hcall, ih hothers]
      rfl

/-- The tasks of a call stand in their place in every log that can be read. -/
theorem tasksOfLog_told {call : LoggedCall} {item : Value} {operation : Operation}
    (hitem : call.Told item) (hmeans : call.Means operation) {before behind : List Value}
    {earlier later : List Task} (hbefore : tasksOfItems before = .ok earlier)
    (hbehind : tasksOfItems behind = .ok later) :
    tasksOfLog (.list (before ++ item :: behind))
      = .ok (earlier ++ (operation.tasks ++ later)) := by
  have hrest : tasksOfItems (item :: behind) = .ok (operation.tasks ++ later) := by
    rw [tasksOfItems, Operation.ofValue_told hitem hmeans, hbehind]
    rfl
  exact tasksOfItems_append hbefore hrest

/-- What gives the same tasks can stand in the place of one another. -/
theorem tasksOfItems_in_context {items items' : List Value}
    (h : tasksOfItems items = tasksOfItems items') (before behind : List Value) :
    tasksOfItems (before ++ items ++ behind) = tasksOfItems (before ++ items' ++ behind) := by
  rw [tasksOfItems_append_eq, tasksOfItems_append_eq before, h, ← tasksOfItems_append_eq before,
    ← tasksOfItems_append_eq]

/-! ## Routes -/

/-- What a script may want done to files. -/
inductive FileAction where
  | makeDirectories (paths : List String)
  | deleteFiles (paths : List String)
  | removeDirectories (paths : List String)
  | rename (source destination : String)
deriving Repr

namespace FileAction

/-- The paths that an action is about. -/
def paths : FileAction → List String
  | .makeDirectories paths | .deleteFiles paths | .removeDirectories paths => paths
  | .rename source destination => [source, destination]

/-- The tasks of an action: one for each path, or the one that renames. -/
def tasks : FileAction → List Task
  | .makeDirectories paths => paths.map fun path => Operation.directoryTask (.text path) none
  | .deleteFiles paths => paths.map fun path => Operation.deletionTask (.text path)
  | .removeDirectories paths => paths.map fun path => Operation.removalTask (.text path)
  | .rename source destination => [Operation.renameTask (.text source) (.text destination)]

/-- Calls that each run a command of the shell on one of some paths. -/
def Each (command : String) : List String → List LoggedCall → Prop :=
  List.Forall₂ fun path call => call.Runs (" ".intercalate [command, path])

/-- The calls by which a script can have an action done. -/
inductive Route : FileAction → List LoggedCall → Prop
  | mkdir (paths : List String) :
      Route (.makeDirectories paths) (paths.map fun path => .madeDirectory (.text path) .absent)
  | makePath (paths : List String) {twoEnds} :
      Route (.makeDirectories paths)
        [.external "File::Path" "make_path" (paths.map .text) twoEnds]
  | shellMkdir {paths : List String} {calls : List LoggedCall} (h : Each "mkdir" paths calls) :
      Route (.makeDirectories paths) calls
  | unlink (paths : List String) : Route (.deleteFiles paths) [.deleted paths]
  | shellRm {paths : List String} {calls : List LoggedCall} (h : Each "rm" paths calls) :
      Route (.deleteFiles paths) calls
  | rmdir (paths : List String) :
      Route (.removeDirectories paths) (paths.map fun path => .removedDirectory (.text path))
  | removeTree (paths : List String) {twoEnds} :
      Route (.removeDirectories paths)
        [.external "File::Path" "remove_tree" (paths.map .text) twoEnds]
  | renamed (source destination : String) :
      Route (.rename source destination) [.renamed (.text source) (.text destination)]
  | shellMv {source destination : String} {call : LoggedCall}
      (h : call.Runs (" ".intercalate ["mv", source, destination])) :
      Route (.rename source destination) [call]

/-- A command of the shell on each path is one operation for each. -/
theorem Each.means {command : String} (hcommand : IsWord command.toList) {paths : List String}
    (hpaths : ∀ path ∈ paths, IsWord path.toList) {calls : List LoggedCall}
    (h : Each command paths calls) :
    List.Forall₂ LoggedCall.Means calls (paths.map fun path => .ran command [path]) := by
  induction h with
  | nil => exact .nil
  | cons hcall _ ih =>
      obtain ⟨hpath, hrest⟩ := List.forall_mem_cons.mp hpaths
      refine .cons (.ran hcall (Text.words_intercalate ?_)) (ih hrest)
      exact List.forall_mem_cons.mpr ⟨hcommand, List.forall_mem_singleton.mpr hpath⟩

theorem flatMap_tasks_map {operation : String → Operation} {task : String → Task}
    (h : ∀ path, (operation path).tasks = [task path]) (paths : List String) :
    (paths.map operation).flatMap Operation.tasks = paths.map task := by
  rw [List.flatMap_map, List.map_eq_flatMap]
  exact congrArg (paths.flatMap ·) (funext h)

/-- Whichever route is taken, the calls stand for operations that have the tasks of the action. -/
theorem Route.means {action : FileAction} (hpaths : ∀ path ∈ action.paths, IsWord path.toList)
    {calls : List LoggedCall} (h : action.Route calls) :
    ∃ operations, List.Forall₂ LoggedCall.Means calls operations ∧
      operations.flatMap Operation.tasks = action.tasks := by
  cases h with
  | mkdir paths =>
      refine ⟨paths.map fun path => .madeDirectory (.text path) none, ?_,
        flatMap_tasks_map (fun _ => rfl) paths⟩
      rw [List.forall₂_map_left_iff, List.forall₂_map_right_iff, List.forall₂_same]
      exact fun path _ => .madeDirectory (.text path)
  | makePath paths =>
      refine ⟨[.madePaths (paths.map .text)], .cons (.madePaths _) .nil, ?_⟩
      rw [List.flatMap_singleton]
      exact List.map_map
  | shellMkdir h =>
      exact ⟨_, h.means (isWord_of_any (by decide)) hpaths, flatMap_tasks_map (fun _ => rfl) _⟩
  | unlink paths =>
      refine ⟨[.deleted (paths.map .text)], .cons (.deleted paths) .nil, ?_⟩
      rw [List.flatMap_singleton]
      exact List.map_map
  | shellRm h =>
      exact ⟨_, h.means (isWord_of_any (by decide)) hpaths, flatMap_tasks_map (fun _ => rfl) _⟩
  | rmdir paths =>
      refine ⟨paths.map fun path => .removedDirectory (.text path), ?_,
        flatMap_tasks_map (fun _ => rfl) paths⟩
      rw [List.forall₂_map_left_iff, List.forall₂_map_right_iff, List.forall₂_same]
      exact fun path _ => .removedDirectory (.text path)
  | removeTree paths =>
      refine ⟨[.removedTrees (paths.map .text)], .cons (.removedTrees _) .nil, ?_⟩
      rw [List.flatMap_singleton]
      exact List.map_map
  | renamed source destination =>
      exact ⟨_, .cons (.renamed _ _) .nil, rfl⟩
  | shellMv h =>
      refine ⟨[.ran "mv" _], .cons (.ran h (Text.words_intercalate ?_)) .nil, rfl⟩
      exact List.forall_mem_cons.mpr ⟨isWord_of_any (by decide), hpaths⟩

end FileAction

/-- **Whichever route an action takes, its tasks are the same.**  The paths are words without
    blanks.  One route can stand in the place of another in every log, whatever is around it. -/
theorem routes_give_same_tasks {action : FileAction}
    (hpaths : ∀ path ∈ action.paths, IsWord path.toList) {calls calls' : List LoggedCall}
    (hroute : action.Route calls) (hroute' : action.Route calls') {items items' : List Value}
    (hitems : List.Forall₂ LoggedCall.Told calls items)
    (hitems' : List.Forall₂ LoggedCall.Told calls' items') (before behind : List Value) :
    tasksOfLog (.list items) = .ok action.tasks ∧
      tasksOfLog (.list (before ++ items ++ behind))
        = tasksOfLog (.list (before ++ items' ++ behind)) := by
  obtain ⟨operations, hmeans, htasks⟩ := hroute.means hpaths
  obtain ⟨operations', hmeans', htasks'⟩ := hroute'.means hpaths
  have hread := tasksOfItems_told hitems hmeans
  have hread' := tasksOfItems_told hitems' hmeans'
  rw [htasks] at hread
  rw [htasks'] at hread'
  exact ⟨hread, tasksOfItems_in_context (hread.trans hread'.symm) before behind⟩

/-- Directories made by `exec` and by `system` stand for those that a package makes at once, also
    where the log goes on with an entry that cannot be read. -/
theorem shell_mkdirs_like_make_path : ∃ first second both : Value,
    (LoggedCall.exec [" ".intercalate ["mkdir", "/srv/a"]]).Told first ∧
    (LoggedCall.system [" ".intercalate ["mkdir", "/srv/b"]]).Told second ∧
    (LoggedCall.external "File::Path" "make_path" [.text "/srv/a", .text "/srv/b"]
      (by decide)).Told both ∧
    tasksOfLog (.list [first, second])
      = .ok [Operation.directoryTask (.text "/srv/a") none,
          Operation.directoryTask (.text "/srv/b") none] ∧
    tasksOfLog (.list [first, second, .null]) = tasksOfLog (.list [both, .null]) := by
  have hpaths : ∀ path ∈ ["/srv/a", "/srv/b"], IsWord path.toList := by
    have hchars : ∀ path ∈ ["/srv/a", "/srv/b"],
        path.toList ≠ [] ∧ path.toList.any Text.isBlank = false := by decide
    exact fun path hpath => isWord_of_any (hchars path hpath)
  refine ⟨_, _, _, LoggedCall.told_record _, LoggedCall.told_record _, LoggedCall.told_record _, ?_⟩
  exact @routes_give_same_tasks (.makeDirectories ["/srv/a", "/srv/b"]) hpaths _ _
    (.shellMkdir (.cons .exec (.cons .system .nil))) (.makePath _) _ _
    (.cons (LoggedCall.told_record _) (.cons (LoggedCall.told_record _) .nil))
    (.cons (LoggedCall.told_record _) .nil) [] [.null]

end Playscript.Perl
