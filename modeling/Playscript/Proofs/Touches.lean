import Playscript.Proofs.LastRegister
import Playscript.Proofs.Refusals
import Playscript.Proofs.Resolution
import Playscript.Proofs.Unrolling

/-! # Files that are touched among assignments and exports

    A script of assignments, exports and touched files comes to one task for each touch, in the
    order of the script, and the path in it is the path of the touch with templates for what
    has been exported so far (`goThrough_moves`).  The templates are looked up among the
    exports of the whole script.  Wherever touches stand among some assignments and exports,
    their paths resolve to what the shell would have touched exactly if no exported variable
    leads back to itself and none changes its plain value once it is exported
    (`touched_paths_resolve_iff`). -/

namespace Playscript

open Shell (Node)
open Reference (isReferable)

/-- The path that the file of a task has. -/
def Task.path? (t : Task) : Option String :=
  match t.get? "ansible.builtin.file" with
  | some (.map arguments) => (Entries.field? arguments "path").bind Value.text?
  | _ => none

theorem Task.path?_touched (path : String) (mode : Value) (register : String) :
    ((Recipe.touched path mode).registered register).path? = some path := rfl

/-! ## Moves -/

/-- One thing that such a script does. -/
inductive Move where
  | write (w : Write)
  | touch (path : String)
deriving DecidableEq, Repr, Inhabited

namespace Move

open Session (splitAssignment)

/-- The trees of a move; the words may hold parameters. -/
inductive IsTree : Move → Node → Prop where
  | assign {word name text : String} {parts : List Node}
      (split : splitAssignment word = some (name, text)) :
      IsTree (.write (.assign name text)) (.command [.assignment word parts])
  | exportAs {word name text : String} {parts : List Node}
      (split : splitAssignment word = some (name, text))
      (plain : parts.all Node.isPlainExpansion = true) :
      IsTree (.write (.exportAs name text))
        (.command [.word "export" [], .word word parts])
  | touch {path : String} {parts : List Node} (operand : path ∉ Verb.touch.row.flags)
      (plain : parts.all Node.isPlainExpansion = true) :
      IsTree (.touch path) (.command [.word "touch" [], .word path parts])

/-- The assignments and exports among moves. -/
def writes : List Move → List Write
  | [] => []
  | .write w :: rest => w :: writes rest
  | .touch _ :: rest => writes rest

/-- The paths of the touches among moves, each written out behind the writes before it. -/
def paths (read : List Write → String → String) : List Write → List Move → List String
  | _, [] => []
  | done, .write w :: rest => paths read (done ++ [w]) rest
  | done, .touch path :: rest => read done path :: paths read done rest

/-- The paths with the plain values that the variables have at each touch. -/
def plainPaths (moves : List Move) : List String :=
  paths (fun done => (Variables.plainly done).interpret .plain) [] moves

/-- The paths with templates for what is exported at each touch. -/
def templatePaths (done : List Write) (moves : List Move) : List String :=
  paths (fun done => (Variables.writeAll {} done).interpret .template) done moves

/-- The paths of the touches are neat behind the writes before them. -/
def NeatTouches : List Write → List Move → Prop
  | _, [] => True
  | done, .write w :: rest => NeatTouches (done ++ [w]) rest
  | done, .touch path :: rest => NeatText (done.map Write.name) path ∧ NeatTouches done rest

end Move

/-! ## Runs of moves -/

namespace Session

/-- A known command of plain words has them parted by its row, and is done. -/
theorem visit_words (verb : Verb) (words : List (String × List Node))
    (hplain : ∀ word ∈ words, word.2.all Node.isPlainExpansion = true) :
    ∃ inv : Invocation, inv.sorted = verb.row.sort (words.map Prod.fst) ∧
      inv.subcommand = verb.row.subcommand? (words.map Prod.fst) ∧
      visit (.command (.word verb.name [] :: words.map fun word => .word word.1 word.2))
        = perform verb inv := by
  have hwords : Node.takenWords (words.map fun word => .word word.1 word.2)
      = words.map Prod.fst := by
    rw [Node.takenWords, List.filterMap_map]
    exact congrFun List.filterMap_eq_map words
  have hparts : ∀ part ∈ words.map fun word => Node.word word.1 word.2,
      part.isPlainPart = true := List.forall_mem_map.mpr hplain
  obtain ⟨inv, hinv, hcommand⟩ := @command_of_parts verb [] _ rfl hparts
    (List.forall_mem_map.mpr fun _ _ => rfl)
  refine ⟨inv, ?_, ?_, (visit_command _).trans hcommand⟩
  · rw [hinv.sorted, hwords]
  · rw [hinv.subcommand, hwords]

/-- A known command of two words does what it says with the second. -/
theorem visit_operand {verb : Verb} {word : String} {parts : List Node}
    (hflags : word ∉ verb.row.flags) (hoptions : verb.row.valueOptions = [])
    (hsubcommands : verb.row.subcommands = [])
    (hplain : parts.all Node.isPlainExpansion = true) :
    ∃ inv : Invocation, inv.operand 0 = .ok word ∧
      visit (.command [.word verb.name [], .word word parts]) = perform verb inv := by
  obtain ⟨inv, hsorted, -, hvisit⟩ := visit_words verb [(word, parts)] (by simpa using hplain)
  refine ⟨inv, ?_, hvisit⟩
  simp [Invocation.operand, hsorted, Row.sort, Row.subcommand?, hsubcommands, Row.placeAll,
    Row.place, hoptions, hflags]

/-- Going through the tree of a write makes the write. -/
theorem after_visit_write {w : Write} {tree : Node} (h : Move.IsTree (.write w) tree)
    (s : Session) : (visit tree).after s = { s with vars := w.apply s.vars } := by
  cases h with
  | assign split =>
      rw [visit_assignment (by simp [split]), assignText, split]
      rfl
  | @exportAs word name text parts split plain =>
      have hflags : word ∉ Verb.exporting.row.flags := by
        intro hmem
        rw [List.mem_singleton.mp hmem] at split
        cases split
      obtain ⟨inv, hoperand, hvisit⟩ := visit_operand hflags rfl rfl plain
      rw [show "export" = Verb.exporting.name from rfl, hvisit]
      show (exportCommand inv).after s = _
      simp [Step.after, exportCommand, hoperand, split, exportAs, Write.apply]

/-- Going through the tree of a touch adds its task. -/
theorem after_visit_touch {path : String} {tree : Node} (h : Move.IsTree (.touch path) tree)
    (s : Session) : (visit tree).after s
      = s.withTask "touch_file" (Recipe.touched (s.vars.interpret .template path)
          (modeValue s.umask false)).registered := by
  cases h with
  | touch operand plain =>
      obtain ⟨inv, hoperand, hvisit⟩ := visit_operand operand rfl rfl plain
      rw [show "touch" = Verb.touch.name from rfl, hvisit]
      show (touchCommand inv).after s = _
      simp [Step.after, touchCommand, hoperand]

/-- **A run of moves makes their writes, and one task for each touch.** -/
theorem goThrough_moves {moves : List Move} {trees : List Node}
    (h : List.Forall₂ Move.IsTree moves trees) :
    ∀ (done : List Write) (s : Session), s.vars = Variables.writeAll {} done →
      (s.goThrough trees).vars = Variables.writeAll {} (done ++ Move.writes moves) ∧
      ∃ new, (s.goThrough trees).tasks = s.tasks ++ new ∧
        List.Forall₂ (fun (task : Task) path => task.path? = some path) new
          (Move.templatePaths done moves) := by
  induction h with
  | nil =>
      intro done s hvars
      refine ⟨?_, [], (List.append_nil _).symm, .nil⟩
      rw [Move.writes, List.append_nil]
      exact hvars
  | @cons move tree moves trees hmove _ ih =>
      intro done s hvars
      cases move with
      | write w =>
          have hafter := after_visit_write hmove s
          have hvars' : ((visit tree).after s).vars = Variables.writeAll {} (done ++ [w]) := by
            rw [hafter, Variables.writeAll_append, ← hvars]
            rfl
          obtain ⟨hfinal, new, htasks, hpaths⟩ := ih (done ++ [w]) _ hvars'
          refine ⟨?_, new, ?_, hpaths⟩
          · rw [Move.writes, List.append_cons]
            exact hfinal
          · have hsame : ((visit tree).after s).tasks = s.tasks := by rw [hafter]
            rw [hsame] at htasks
            exact htasks
      | touch path =>
          have hafter := after_visit_touch hmove s
          have hvars' : ((visit tree).after s).vars = Variables.writeAll {} done := by
            rw [hafter]
            exact hvars
          obtain ⟨hfinal, new, htasks, hpaths⟩ := ih done _ hvars'
          obtain ⟨task, hadded, hpath⟩ : ∃ task : Task,
              ((visit tree).after s).tasks = s.tasks ++ [task] ∧
              task.path? = some (s.vars.interpret .template path) :=
            ⟨_, by rw [hafter]; rfl, Task.path?_touched _ _ _⟩
          rw [hadded, List.append_assoc, List.singleton_append] at htasks
          rw [hvars] at hpath
          exact ⟨hfinal, task :: new, htasks, .cons hpath hpaths⟩

/-- The tasks of a session are about paths whose templates, looked up among its exports, resolve
    to some paths, one by one. -/
def PathsResolve (s : Session) (plain : List String) : Prop :=
  List.Forall₂ (fun (task : Task) path => ∃ emitted, task.path? = some emitted ∧
    Resolves (lastEntry s.vars.history) emitted path) s.tasks plain

end Session

/-! ## Touches among writes -/

namespace Move

/-- What resolves wherever a touch can stand resolves in every list of moves. -/
theorem resolves_paths {ws : List Write} (hneat : NeatWrites ws)
    (hacyclic : Acyclic (Variables.entry ws)) (hsettled : Variables.Settled ws)
    (moves : List Move) :
    ∀ done, done ++ writes moves <+: ws → NeatTouches done moves →
      List.Forall₂ (Resolves (Variables.entry ws)) (templatePaths done moves)
        (paths (fun done => (Variables.plainly done).interpret .plain) done moves) := by
  induction moves with
  | nil => exact fun _ _ _ => .nil
  | cons move rest ih =>
      intro done hdone htouches
      cases move with
      | write w =>
          rw [writes, List.append_cons] at hdone
          exact ih (done ++ [w]) hdone htouches
      | touch path =>
          have hbefore := (List.prefix_append done (writes rest)).trans hdone
          exact .cons (Variables.resolves_of_settled hneat hacyclic hsettled hbefore htouches.1)
            (ih done hdone htouches.2)

/-- A touch behind some writes and before others. -/
def between (before : List Write) (path : String) (rest : List Write) : List Move :=
  before.map .write ++ .touch path :: rest.map .write

theorem writes_map (ws : List Write) (moves : List Move) :
    writes (ws.map .write ++ moves) = ws ++ writes moves := by
  induction ws with
  | nil => rfl
  | cons w rest ih => rw [List.map_cons, List.cons_append, writes, ih, List.cons_append]

theorem writes_between (before : List Write) (path : String) (rest : List Write) :
    writes (between before path rest) = before ++ rest := by
  have hrest := writes_map rest []
  rw [List.append_nil] at hrest
  rw [between, writes_map, writes, hrest, writes, List.append_nil]

theorem paths_map (read : List Write → String → String) (ws : List Write) (moves : List Move) :
    ∀ done, paths read done (ws.map .write ++ moves) = paths read (done ++ ws) moves := by
  induction ws with
  | nil => intro done; simp
  | cons w rest ih =>
      intro done
      rw [List.map_cons, List.cons_append, paths, ih, ← List.append_cons]

theorem paths_between (read : List Write → String → String) (before : List Write)
    (path : String) (rest : List Write) :
    paths read [] (between before path rest) = [read before path] := by
  have hrest := paths_map read rest [] before
  rw [List.append_nil] at hrest
  rw [between, paths_map, List.nil_append, paths, hrest]
  rfl

theorem neatTouches_map (ws : List Write) (moves : List Move) :
    ∀ done, NeatTouches done (ws.map .write ++ moves) ↔ NeatTouches (done ++ ws) moves := by
  induction ws with
  | nil => intro done; simp
  | cons w rest ih =>
      intro done
      rw [List.map_cons, List.cons_append, NeatTouches, ih, ← List.append_cons]

theorem neatTouches_between {before : List Write} {path : String}
    (h : NeatText (before.map Write.name) path) (rest : List Write) :
    NeatTouches [] (between before path rest) := by
  rw [between, neatTouches_map, List.nil_append]
  refine ⟨h, ?_⟩
  have hrest := neatTouches_map rest [] before
  rw [List.append_nil] at hrest
  exact hrest.mpr trivial

/-- There is a tree for every write under a name without an equality sign. -/
theorem exists_tree_write {w : Write} (h : '=' ∉ w.name.toList) :
    ∃ tree, IsTree (.write w) tree := by
  have hsplit : Session.splitAssignment (w.name ++ "=" ++ w.text) = some (w.name, w.text) := by
    have hall : ∀ c ∈ w.name.toList, (c != '=') = true := by
      intro c hc
      exact bne_iff_ne.mpr fun heq => h (heq ▸ hc)
    have hlist : (w.name ++ "=" ++ w.text).toList = w.name.toList ++ '=' :: w.text.toList := by
      simp
    rw [Session.splitAssignment, hlist, List.dropWhile_append_of_pos hall,
      List.takeWhile_append_of_pos hall]
    simp
  cases w with
  | assign name text => exact ⟨.command [.assignment _ []], .assign hsplit⟩
  | exportAs name text => exact ⟨.command [.word "export" [], .word _ []], .exportAs hsplit rfl⟩

/-- A text that is nothing but a reference is no flag. -/
theorem bare_not_flag (name : String) : render [.bare name] ∉ Verb.touch.row.flags := by
  intro hmem
  have hdollar : (render [.bare name]).toList.head? = some '$' := by
    simp [render, Segment.raw, Reference.bare]
  simp only [Verb.row, List.mem_cons, List.not_mem_nil, or_false] at hmem
  rcases hmem with heq | heq
  · rw [heq] at hdollar
    exact absurd hdollar (by decide)
  · rw [heq] at hdollar
    exact absurd hdollar (by decide)

theorem exists_trees {moves : List Move} (h : ∀ move ∈ moves, ∃ tree, IsTree move tree) :
    ∃ trees, List.Forall₂ IsTree moves trees := by
  induction moves with
  | nil => exact ⟨[], .nil⟩
  | cons move moves ih =>
      obtain ⟨tree, htree⟩ := h move List.mem_cons_self
      obtain ⟨trees, htrees⟩ := ih fun other hother => h other (List.mem_cons_of_mem _ hother)
      exact ⟨tree :: trees, .cons htree htrees⟩

/-- There are trees for neat writes with a touch among them. -/
theorem exists_trees_between {before rest : List Write} (hneat : NeatWrites (before ++ rest))
    {path : String} (hoperand : path ∉ Verb.touch.row.flags) :
    ∃ trees, List.Forall₂ IsTree (between before path rest) trees := by
  have hwrite : ∀ w ∈ before ++ rest, ∃ tree, IsTree (.write w) tree := by
    intro w hw
    refine exists_tree_write fun hmem => ?_
    have hname := hneat.isReferable (List.mem_map_of_mem hw)
    simp only [isReferable, Bool.and_eq_true, List.all_eq_true] at hname
    exact absurd (hname.2 '=' hmem) (by decide +kernel)
  refine exists_trees fun move hmove => ?_
  rw [between, List.mem_append, List.mem_cons] at hmove
  rcases hmove with hmove | rfl | hmove
  · obtain ⟨w, hw, rfl⟩ := List.mem_map.mp hmove
    exact hwrite w (List.mem_append_left _ hw)
  · exact ⟨.command [.word "touch" [], .word path []], .touch hoperand rfl⟩
  · obtain ⟨w, hw, rfl⟩ := List.mem_map.mp hmove
    exact hwrite w (List.mem_append_right _ hw)

end Move

namespace Session

/-- What is said of the path in each task is said of each path. -/
theorem forall₂_path?_iff {R : String → String → Prop} {tasks : List Task} {paths : List String}
    (h : List.Forall₂ (fun (task : Task) path => task.path? = some path) tasks paths) :
    ∀ plain, List.Forall₂ (fun (task : Task) path => ∃ emitted, task.path? = some emitted ∧
      R emitted path) tasks plain ↔ List.Forall₂ R paths plain := by
  induction h with
  | nil => intro plain; rw [List.forall₂_nil_left_iff, List.forall₂_nil_left_iff]
  | cons hpath _ ih =>
      intro plain
      rw [List.forall₂_cons_left_iff, List.forall₂_cons_left_iff]
      simp only [ih, hpath, Option.some.injEq, exists_eq_left']

/-- What the tasks of a run of moves resolve to is what its paths with templates resolve to. -/
theorem pathsResolve_iff {moves : List Move} {trees : List Node}
    (h : List.Forall₂ Move.IsTree moves trees) (settings : Settings) (registers : Registers)
    (plain : List String) :
    ((fresh settings registers).goThrough trees).PathsResolve plain ↔
      List.Forall₂ (Resolves (Variables.entry (Move.writes moves)))
        (Move.templatePaths [] moves) plain := by
  obtain ⟨hvars, new, htasks, hpaths⟩ := goThrough_moves h [] (fresh settings registers) rfl
  have hnew : ((fresh settings registers).goThrough trees).tasks = new := htasks
  rw [PathsResolve, hnew, hvars, List.nil_append, ← Variables.entry]
  exact forall₂_path?_iff hpaths plain

/-- **Touched paths resolve to plain ones exactly if no exported variable leads back to itself, and
    none changes its plain value once it is exported.**  For neat assignments and exports, and
    wherever touches of neat paths stand among them: going through trees of these moves, each
    touch comes to a task, and with the last entries of the exports at the end filled in
    for its templates, to the last, its path is the one with the plain values at that
    touch. -/
theorem touched_paths_resolve_iff (settings : Settings) (registers : Registers)
    {ws : List Write} (hneat : NeatWrites ws) :
    (∀ moves trees, Move.writes moves = ws → Move.NeatTouches [] moves →
      List.Forall₂ Move.IsTree moves trees →
        ((fresh settings registers).goThrough trees).PathsResolve (Move.plainPaths moves)) ↔
    Acyclic (Variables.entry ws) ∧ Variables.Settled ws := by
  constructor
  · intro h
    -- a touch of nothing but a reference, wherever it stands
    have hbare : ∀ before name, before <+: ws → name ∈ before.map Write.name →
        Resolves (Variables.entry ws)
          ((Variables.writeAll {} before).interpret .template (render [.bare name]))
          ((Variables.plainly before).interpret .plain (render [.bare name])) := by
      intro before name hbefore hname
      obtain ⟨rest, rfl⟩ := hbefore
      have hreferable := hneat.isReferable
        (((List.prefix_append before rest).sublist.map Write.name).subset hname)
      have htouch := Variables.neatText_bare hreferable hname
      obtain ⟨trees, htrees⟩ := Move.exists_trees_between hneat (Move.bare_not_flag name)
      have hresolves := h _ trees (Move.writes_between before _ rest)
        (Move.neatTouches_between htouch rest) htrees
      rw [pathsResolve_iff htrees, Move.writes_between, Move.templatePaths, Move.plainPaths,
        Move.paths_between, Move.paths_between, List.forall₂_cons] at hresolves
      exact hresolves.1
    exact ⟨Variables.acyclic_of_resolves hneat hbare, Variables.settled_of_resolves hneat hbare⟩
  · rintro ⟨hacyclic, hsettled⟩ moves trees rfl htouches htrees
    rw [pathsResolve_iff htrees]
    exact Move.resolves_paths hneat hacyclic hsettled moves [] (List.prefix_refl _) htouches

/-- `export P=/a` and `export P=$P/b` -/
def extendedPath : List Write :=
  [.exportAs "P" "/a", .exportAs "P" "$P/b"]

/-- A variable that is exported again, extended by its own value, is a template for itself. -/
theorem extendedPath_unresolved : NeatWrites extendedPath ∧
    ¬ ∀ moves trees, Move.writes moves = extendedPath → Move.NeatTouches [] moves →
      List.Forall₂ Move.IsTree moves trees →
        ((fresh {} {}).goThrough trees).PathsResolve (Move.plainPaths moves) := by
  have hneat : NeatWrites extendedPath := by
    rintro before w ⟨rest, heq⟩
    match before, heq with
    | [], heq =>
        cases heq
        exact ⟨by decide, [.char '/', .char 'a'], ⟨by decide, by decide⟩, by decide, by decide,
          by decide⟩
    | [_], heq =>
        cases heq
        exact ⟨by decide, [.bare "P", .char '/', .char 'b'], ⟨by decide +kernel, by decide +kernel⟩,
          by decide, by decide, by decide⟩
    | _ :: _ :: more, heq => simp [extendedPath] at heq
  refine ⟨hneat, fun hright => ?_⟩
  have hacyclic := ((touched_paths_resolve_iff {} {} hneat).mp hright).1
  exact hacyclic "P" (.single ⟨"\x7b\x7b P \x7d\x7d/b", by decide +kernel, by decide +kernel⟩)

end Session

end Playscript
