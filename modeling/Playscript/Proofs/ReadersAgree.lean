import Playscript.Proofs.LineMeanings
import Playscript.Proofs.TaskShapes
import Playscript.Proofs.Touches

/-! # Two readers of simple scripts

    A script of simple commands can be read line by line, each line by its shape, or be gone
    through as trees, the words of each command being parted by its row.  An instruction is a
    command that both know: it has a line and a tree, and a meaning that is given here without
    either (`Instruction.recipe?`, `Instruction.maskAfter`).  Both readers do what it means, the
    one on its line (`takeLine_line`) and the other on its tree (`visit_tree`), and neither needs
    more than the mask for it.  So they stay in step, and give the same tasks but for the
    registers, which only the second gives out (`readers_agree`). -/

namespace Playscript

open Shell (Node)
open Text (isBlank isDecimal isLineEnd isWordChar)

/-! ## Words -/

/-- Whether a character can stand in a path: a letter, a digit or one of a few marks. -/
def isPathChar (c : Char) : Bool :=
  isWordChar c || c == '.' || c == '/' || c == '-'

theorem not_isBlank_of_isPathChar {c : Char} (h : isPathChar c = true) : isBlank c = false := by
  simp only [isPathChar, Bool.or_eq_true, beq_iff_eq] at h
  rcases h with ((h | rfl) | rfl) | rfl
  · exact Text.not_isBlank_of_isWordChar h
  · decide
  · decide
  · decide

theorem isPathChar_of_isDecimal {c : Char} (h : isDecimal c = true) : isPathChar c = true := by
  rw [isPathChar, Text.isWordChar_of_isDecimal h]
  rfl

/-- A word that names a file: it has characters of paths only, and does not look like an
    option. -/
structure PathWord where
  text : String
  ne_nil : text.toList ≠ []
  path : ∀ c ∈ text.toList, isPathChar c = true
  not_option : text.toList.head? ≠ some '-'

/-- A word of digits. -/
structure NumberWord where
  text : String
  ne_nil : text.toList ≠ []
  decimal : ∀ c ∈ text.toList, isDecimal c = true

/-- A mask in three or four digits. -/
structure MaskWord extends NumberWord where
  width : text.toList.length = 3 ∨ text.toList.length = 4

/-- Characters that are taken as one word, and as they stand. -/
structure IsPlain (cs : List Char) : Prop where
  ne_nil : cs ≠ []
  path : ∀ c ∈ cs, isPathChar c = true

namespace IsPlain

theorem of_all {cs : List Char} (h : (!cs.isEmpty && cs.all isPathChar) = true) : IsPlain cs := by
  rw [Bool.and_eq_true, List.all_eq_true] at h
  exact ⟨by simpa using h.1, h.2⟩

variable {cs : List Char} (h : IsPlain cs)

include h

theorem isWord : Line.IsWord cs :=
  ⟨h.ne_nil, fun c hc => not_isBlank_of_isPathChar (h.path c hc)⟩

theorem not_mem {mark : Char} (hmark : isPathChar mark = false) : mark ∉ cs := by
  intro hmem
  rw [h.path mark hmem] at hmark
  exact nomatch hmark

end IsPlain

theorem PathWord.isPlain (p : PathWord) : IsPlain p.text.toList :=
  ⟨p.ne_nil, p.path⟩

theorem NumberWord.isPlain (n : NumberWord) : IsPlain n.text.toList :=
  ⟨n.ne_nil, fun c hc => isPathChar_of_isDecimal (n.decimal c hc)⟩

theorem NumberWord.not_option (n : NumberWord) : n.text.toList.head? ≠ some '-' := by
  intro hhead
  exact absurd (n.decimal '-' (List.mem_of_head? hhead)) (by decide)

theorem Verb.isPlain_name (verb : Verb) : IsPlain verb.name.toList := by
  cases verb <;> exact .of_all (by decide)

/-- A line reader that is in no block and knows no variables. -/
structure Line.State.Idle (st : Line.State) : Prop where
  pending : st.pending = []
  vars : st.vars = []
  condition : st.condition = none
  umask : st.umask ≠ ""

/-! ## Instructions -/

/-- A simple command that both readers know. -/
inductive Instruction where
  | umask (mask : MaskWord)
  | mkdir (parents : Bool) (path : PathWord)
  | touch (path : PathWord)
  | copy (src dest : PathWord)
  | gunzip (path : PathWord)
  | chmod (mode : NumberWord) (path : PathWord)
  /-- `apt` or `apt-get`, with `update` or `upgrade`. -/
  | packages (get upgrade : Bool)

namespace Instruction

/-- The command that an instruction is written with. -/
def verb : Instruction → Verb
  | .umask _ => .umask
  | .mkdir _ _ => .mkdir
  | .touch _ => .touch
  | .copy _ _ => .cp
  | .gunzip _ => .gunzip
  | .chmod _ _ => .chmod
  | .packages get _ => if get then .aptGet else .apt

/-- The words behind the name of the command. -/
def arguments : Instruction → List String
  | .umask mask => [mask.text]
  | .mkdir parents path => if parents then ["-p", path.text] else [path.text]
  | .touch path => [path.text]
  | .copy src dest => [src.text, dest.text]
  | .gunzip path => [path.text]
  | .chmod mode path => [mode.text, path.text]
  | .packages _ upgrade => [if upgrade then "upgrade" else "update"]

/-- The words with one space between them. -/
def line (i : Instruction) : String :=
  " ".intercalate (i.verb.name :: i.arguments)

example : (Instruction.mkdir true
    ⟨"/srv/app-1.0", by decide, List.all_eq_true.mp (by decide), by decide⟩).line
      = "mkdir -p /srv/app-1.0" := by
  decide

/-- The tree of the command. -/
def tree (i : Instruction) : Node :=
  .command ((i.verb.name :: i.arguments).map fun word => .word word [])

/-- What is to be done under a mask, if there is a task to add. -/
def recipe? (mask : String) : Instruction → Option Recipe
  | .umask _ => none
  | .mkdir _ path => some (.directory path.text (modeValue (.text mask) true))
  | .touch path => some (.touched path.text (modeValue (.text mask) false))
  | .copy src dest => some (.copied "Copy" src.text dest.text)
  | .gunzip path => some (.unpacked path.text)
  | .chmod mode path => some (.permitted path.text mode.text false)
  | .packages _ upgrade => some (if upgrade then .allUpgraded "apt" else .cacheUpdated "apt")

/-- The mask in effect behind an instruction. -/
def maskAfter (mask : String) : Instruction → String
  | .umask new => new.text
  | _ => mask

/-- The task of an instruction, without a register. -/
def tasks (mask : String) (i : Instruction) : List Task :=
  ((i.recipe? mask).map (·.task [])).toList

/-- No word of an instruction needs quotes: its name is one of the fixed ones, and its arguments are
    plain by what an instruction is. -/
theorem plain_words (i : Instruction) :
    ∀ word ∈ i.verb.name :: i.arguments, IsPlain word.toList := by
  refine List.forall_mem_cons.mpr ⟨i.verb.isPlain_name, ?_⟩
  cases i with
  | umask mask => exact List.forall_mem_singleton.mpr mask.isPlain
  | mkdir parents path =>
      cases parents with
      | true =>
          exact List.forall_mem_cons.mpr ⟨.of_all (by decide),
            List.forall_mem_singleton.mpr path.isPlain⟩
      | false => exact List.forall_mem_singleton.mpr path.isPlain
  | touch path => exact List.forall_mem_singleton.mpr path.isPlain
  | copy src dest =>
      exact List.forall_mem_cons.mpr ⟨src.isPlain, List.forall_mem_singleton.mpr dest.isPlain⟩
  | gunzip path => exact List.forall_mem_singleton.mpr path.isPlain
  | chmod mode path =>
      exact List.forall_mem_cons.mpr ⟨mode.isPlain, List.forall_mem_singleton.mpr path.isPlain⟩
  | packages get upgrade =>
      cases upgrade <;> exact List.forall_mem_singleton.mpr (.of_all (by decide))

/-! ## Reading the line -/

/-- Plain words with spaces between them have no other characters, and end in none of them. -/
theorem spaced_plain {words : List (List Char)} (hwords : words ≠ [])
    (h : ∀ word ∈ words, IsPlain word) :
    (∀ c ∈ [' '].intercalate words, c = ' ' ∨ isPathChar c = true) ∧
      ∃ c, ([' '].intercalate words).getLast? = some c ∧ isPathChar c = true := by
  induction words with
  | nil => exact absurd rfl hwords
  | cons word rest ih =>
      rw [List.forall_mem_cons] at h
      cases rest with
      | nil =>
          rw [List.intercalate_singleton]
          refine ⟨fun c hc => .inr (h.1.path c hc), word.getLast h.1.ne_nil,
            List.getLast?_eq_some_getLast _, h.1.path _ (List.getLast_mem _)⟩
      | cons next rest =>
          obtain ⟨hchars, last, hlast, hpath⟩ := ih (List.cons_ne_nil _ _) h.2
          rw [List.intercalate_cons_cons]
          refine ⟨fun c hc => ?_, last, ?_, hpath⟩
          · rw [List.mem_append, List.mem_append, List.mem_singleton] at hc
            rcases hc with (hc | hc) | hc
            · exact .inr (h.1.path c hc)
            · exact .inl hc
            · exact hchars c hc
          · rw [List.getLast?_append, hlast, Option.some_or]

theorem spaced_two (first second : String) : (" ".intercalate [first, second]).toList
    = first.toList ++ ' ' :: second.toList := by
  simp

theorem spaced_three (first second third : String) :
    (" ".intercalate [first, second, third]).toList
      = first.toList ++ ' ' :: (second.toList ++ ' ' :: third.toList) := by
  simp

/-- The line is the name, a space and something behind it. -/
theorem line_eq (i : Instruction) :
    ∃ rest, i.line.toList = i.verb.name.toList ++ ' ' :: rest := by
  have harguments : ∃ first others, i.arguments = first :: others := by
    cases i with
    | mkdir parents path => cases parents <;> exact ⟨_, _, rfl⟩
    | _ => exact ⟨_, _, rfl⟩
  obtain ⟨first, others, harguments⟩ := harguments
  refine ⟨[' '].intercalate ((first :: others).map String.toList), ?_⟩
  rw [line, harguments, String.toList_intercalate, List.map_cons, List.map_cons,
    List.intercalate_cons_cons, List.append_assoc]
  rfl

/-- A line has blanks and characters of paths only, and does not end with a blank. -/
theorem line_chars (i : Instruction) :
    (∀ c ∈ i.line.toList, c = ' ' ∨ isPathChar c = true) ∧
      ∃ c, i.line.toList.getLast? = some c ∧ isPathChar c = true := by
  rw [line, String.toList_intercalate]
  refine spaced_plain (by simp) ?_
  exact List.forall_mem_map.mpr i.plain_words

/-- So no other mark stands in it. -/
theorem not_mem_line (i : Instruction) {mark : Char} (hspace : mark ≠ ' ')
    (hmark : isPathChar mark = false) : mark ∉ i.line.toList := by
  intro hmem
  rcases i.line_chars.1 mark hmem with h | h
  · exact hspace h
  · rw [h] at hmark
    exact nomatch hmark

/-- What a line means under a mask. -/
def meaning (mask : String) (i : Instruction) : Line.Meaning :=
  match i.recipe? mask with
  | some recipe => .task (recipe.task [])
  | none => .setUmask (i.maskAfter mask)

open Line in
/-- **A line by its shape means what the instruction means.** -/
theorem shapeMeaning_line (i : Instruction) (s : Surroundings) :
    shapeMeaning s i.line = i.meaning s.mask := by
  have hequals : '=' ∉ i.line.toList := i.not_mem_line (by decide) (by decide)
  -- the line in the form in which rules are looked up
  have hmeaning : ∀ {name : String} {rest : List Char} (n : Nat)
      {rule : List Char → Option Meaning} {others : List (List Char → Option Meaning)},
      i.line.toList = name.toList ++ ' ' :: rest →
      (∀ head ∈ heads.take n, ' ' ∉ head.toList ∧ ¬ head.toList <+: name.toList) →
      (rules s).drop (n + 1) = rule :: others →
      rule (name.toList ++ ' ' :: rest) = some (i.meaning s.mask) →
      shapeMeaning s i.line = i.meaning s.mask := by
    intro name rest n rule others hline hheads hrule h
    have hfound := shapeMeaning_of_rule n (hline ▸ hequals) hheads hrule h
    rwa [← hline, String.ofList_toList] at hfound
  cases i with
  | umask mask =>
      refine hmeaning 0 (spaced_two "umask" mask.text) (by decide) rfl ?_
      show (Shape.umask.run _).map _ = _
      rw [umask_run mask.isPlain.isWord mask.decimal mask.width, String.ofList_toList]
      rfl
  | mkdir parents path =>
      have hword := path.isPlain.isWord
      cases parents with
      | true =>
          refine hmeaning 1 (spaced_three "mkdir" "-p" path.text) (by decide) rfl ?_
          show (Shape.mkdir.run _).map _ = _
          rw [mkdir_run_parents hword, String.ofList_toList]
          rfl
      | false =>
          refine hmeaning 1 (spaced_two "mkdir" path.text) (by decide) rfl ?_
          show (Shape.mkdir.run _).map _ = _
          rw [mkdir_run hword path.not_option, String.ofList_toList]
          rfl
  | touch path =>
      refine hmeaning 2 (spaced_two "touch" path.text) (by decide) rfl ?_
      show ((Shape.onPath "touch").run _).map _ = _
      rw [onPath_run "touch" path.isPlain.isWord, String.ofList_toList]
      rfl
  | copy src dest =>
      refine hmeaning 4 (spaced_three "cp" src.text dest.text) (by decide) rfl ?_
      show (Shape.copy.run _).map _ = _
      rw [copy_run src.isPlain.isWord dest.isPlain.isWord src.not_option, String.ofList_toList,
        String.ofList_toList]
      rfl
  | gunzip path =>
      refine hmeaning 6 (spaced_two "gunzip" path.text) (by decide) rfl ?_
      show ((Shape.onPath "gunzip").run _).map _ = _
      rw [onPath_run "gunzip" path.isPlain.isWord, String.ofList_toList]
      rfl
  | chmod mode path =>
      refine hmeaning 7 (spaced_three "chmod" mode.text path.text) (by decide) rfl ?_
      show (Shape.chmod.run _).map _ = _
      rw [chmod_run mode.isPlain.isWord mode.decimal path.isPlain.isWord, String.ofList_toList,
        String.ofList_toList]
      rfl
  | packages get upgrade =>
      -- a line of fixed words is gone through as it is
      cases get <;> cases upgrade <;> rfl

/-- Each recipe of an instruction uses a known module. -/
theorem module_mem (i : Instruction) {mask : String} {recipe : Recipe}
    (h : i.recipe? mask = some recipe) : recipe.module ∈ Recipe.modules := by
  have hfile : "ansible.builtin.file" ∈ Recipe.modules := by decide
  cases i with
  | umask mask => exact nomatch h
  | mkdir parents path => cases h; exact hfile
  | touch path => cases h; exact hfile
  | copy src dest => cases h; exact (by decide : "ansible.builtin.copy" ∈ Recipe.modules)
  | gunzip path => cases h; exact (by decide : "ansible.builtin.unarchive" ∈ Recipe.modules)
  | chmod mode path => cases h; exact hfile
  | packages get upgrade =>
      have hapt : "ansible.builtin." ++ "apt" ∈ Recipe.modules := by decide
      cases upgrade <;> cases h <;> exact hapt

open Line (State)

/-- Doing what an instruction means changes the mask, or adds its task. -/
theorem apply_meaning (i : Instruction) {st : State} (h : st.Idle) :
    st.apply (i.meaning st.umask)
      = { st with umask := i.maskAfter st.umask, tasks := st.tasks ++ i.tasks st.umask } := by
  rw [meaning, tasks]
  cases hrecipe : i.recipe? st.umask with
  | none => simp [State.apply]
  | some recipe =>
      have hmask : i.maskAfter st.umask = st.umask := by
        cases i with
        | umask mask => exact nomatch hrecipe
        | _ => rfl
      have hnone : ∀ key ∈ Task.sideKeys, (recipe.task []).get? key = none := fun key hkey =>
        Recipe.get?_task_eq_none (i.module_mem hrecipe) hkey List.not_mem_nil
      have hregister : (recipe.task []).register? = none := hnone "register" (by decide)
      have hwhen := hnone "when" (by decide)
      simp [State.apply, State.addTask, State.registerOf, hregister, hwhen, h.condition, hmask]

/-- There are no blanks around a line. -/
theorem trim_line (i : Instruction) : Text.trim i.line.toList = i.line.toList := by
  obtain ⟨rest, hline⟩ := i.line_eq
  obtain ⟨-, last, hlast, hpath⟩ := i.line_chars
  refine Text.trim_eq_self ?_ ?_
  · rw [hline]
    exact i.verb.isPlain_name.isWord.head _
  · rw [hlast]
    rintro c ⟨⟩
    exact not_isBlank_of_isPathChar hpath

/-- The line neither opens nor closes a block. -/
theorem no_block (i : Instruction) :
    Line.statusTest.run i.line.toList = none ∧ i.line.toList ≠ ['f', 'i'] := by
  obtain ⟨rest, hline⟩ := i.line_eq
  have hname : ∀ verb : Verb, ¬ "if".toList <+: verb.name.toList := by
    intro verb
    cases verb <;> decide
  rw [hline]
  refine ⟨?_, fun heq => ?_⟩
  · simp only [Text.Matcher.run, Line.statusTest, Text.Matcher.bind_apply]
    exact Text.Matcher.lit_eq_none (Line.not_head_of_name (by decide) (hname i.verb) rest) _
  · have hspace : ' ' ∈ ['f', 'i'] := by simp [← heq]
    exact absurd hspace (by decide)

/-- Where nothing is pending, the line is taken as what the instruction means. -/
theorem takeCommand_line (i : Instruction) (allowShell : Bool) {st : State} (h : st.Idle) :
    st.takeCommand allowShell i.line.toList
      = { st.apply (i.meaning st.umask) with pending := [] } := by
  have hmask : (st.surroundings allowShell).mask = st.umask := by
    simp [State.surroundings, Line.Surroundings.mask, h.umask]
  have hvars : Line.replaceVariables (st.surroundings allowShell).vars i.line = i.line := by
    show Line.replaceVariables st.vars i.line = i.line
    rw [h.vars]
    rfl
  have hmeaning : Line.meaning (st.surroundings allowShell) i.line = i.meaning st.umask := by
    rw [Line.meaning, hvars, i.shapeMeaning_line, hmask]
  simp only [State.takeCommand, i.no_block.1, if_neg i.no_block.2, i.trim_line,
    String.ofList_toList, hmeaning]

/-- **The line reader does what an instruction means.** -/
theorem takeLine_line (i : Instruction) (allowShell : Bool) {st : State} (h : st.Idle) :
    st.takeLine allowShell i.line.toList
      = { st with umask := i.maskAfter st.umask, tasks := st.tasks ++ i.tasks st.umask } := by
  obtain ⟨rest, hline⟩ := i.line_eq
  have hcomment : ¬ (i.line.toList.isEmpty || i.line.toList.head? == some '#') = true := by
    have hmark : '#' ∉ i.line.toList := i.not_mem_line (by decide) (by decide)
    rw [Bool.or_eq_true, not_or, beq_iff_eq]
    exact ⟨by simp [hline], fun hhead => hmark (List.mem_of_head? hhead)⟩
  have hjoined : ¬ (i.line.toList.getLast? == some '\\') = true := by
    have hmark : '\\' ∉ i.line.toList := i.not_mem_line (by decide) (by decide)
    rw [beq_iff_eq]
    exact fun hend => hmark (List.mem_of_getLast? hend)
  simp only [State.takeLine, i.trim_line, if_neg hcomment, if_neg hjoined, h.pending,
    List.nil_append, i.takeCommand_line allowShell h, i.apply_meaning h]

/-! ## Going through the tree -/

/-- Words that are no flags are operands. -/
theorem sort_operands {row : Row} (hvalues : row.valueOptions = []) (hsub : row.subcommands = [])
    {words : List String} (hflags : ∀ word ∈ words, word ∉ row.flags) :
    row.sort words = { operands := words } := by
  have hplace : ∀ {words : List String}, (∀ word ∈ words, word ∉ row.flags) →
      ∀ operands, row.placeAll { operands := operands } words
        = { operands := operands ++ words } := by
    intro words
    induction words with
    | nil => intro _ operands; simp [Row.placeAll]
    | cons word rest ih =>
        intro hno operands
        rw [List.forall_mem_cons] at hno
        have hfirst : row.place { operands := operands } word
            = { operands := operands ++ [word] } := by
          simp [Row.place, hno.1, hvalues]
        show row.placeAll (row.place _ word) rest = _
        rw [hfirst, ih hno.2, List.append_assoc]
        rfl
  have hnone : row.subcommand? words = none := by
    cases words with
    | nil => rfl
    | cons first rest => simp [Row.subcommand?, hsub]
  rw [Row.sort, hnone]
  exact hplace hflags []

/-- A word that does not look like an option is no flag. -/
theorem not_flag {text : String} (h : text.toList.head? ≠ some '-') (verb : Verb)
    (hverb : verb ∉ [Verb.apt, .aptGet, .yum]) : text ∉ verb.row.flags := by
  have hflags : ∀ verb : Verb, verb ∉ [Verb.apt, .aptGet, .yum] →
      ∀ flag ∈ verb.row.flags, flag.toList.head? = some '-' := by
    intro verb
    cases verb <;> decide
  exact fun hmem => h (hflags verb hverb text hmem)

/-- The task that a recipe adds is that of the recipe, but for the register. -/
theorem map_without_withTask (s : Session) (base : String) {recipe : Recipe}
    (h : recipe.module ∈ Recipe.modules) :
    (s.withTask base recipe.registered).tasks.map (·.without ["register"])
      = s.tasks.map (·.without ["register"]) ++ [recipe.task []] := by
  have hbare : ∀ register, (recipe.registered register).without ["register"] = recipe.task [] := by
    intro register
    have hmodule : recipe.module ≠ "register" := Recipe.module_ne_side h (by decide)
    simp [Recipe.registered, Recipe.task, Task.make, Task.without, hmodule]
  simp [Session.withTask, hbare]

/-- The operands of an instruction: its arguments, but for flags and subcommands. -/
def operands : Instruction → List String
  | .mkdir _ path => [path.text]
  | .packages _ _ => []
  | i => i.arguments

/-- Sorting gives back the operands of an instruction, for each of its commands: none of the
    arguments is an option of the command but those that the instruction puts there. -/
theorem sort_arguments (i : Instruction) :
    (i.verb.row.sort i.arguments).operands = i.operands ∧
      (i.verb.row.sort i.arguments).hasOption "-R" = false := by
  have hsorted : ∀ {words : List String} (verb : Verb), verb.row.valueOptions = [] →
      verb.row.subcommands = [] → (∀ word ∈ words, word.toList.head? ≠ some '-') →
      (verb.row.sort words).operands = words ∧ (verb.row.sort words).hasOption "-R" = false := by
    intro words verb hvalues hsub hwords
    have hverb : ∀ verb : Verb, verb.row.subcommands = [] →
        verb ∉ [Verb.apt, .aptGet, .yum] := by
      intro verb
      cases verb <;> decide
    rw [sort_operands hvalues hsub fun word hword =>
      not_flag (hwords word hword) verb (hverb verb hsub)]
    exact ⟨rfl, rfl⟩
  have hone : ∀ {text : String}, text.toList.head? ≠ some '-' →
      ∀ word ∈ [text], word.toList.head? ≠ some '-' := fun h => List.forall_mem_singleton.mpr h
  cases i with
  | umask mask => exact hsorted .umask rfl rfl (hone mask.not_option)
  | mkdir parents path =>
      cases parents with
      | false => exact hsorted .mkdir rfl rfl (hone path.not_option)
      | true =>
          have hflag : path.text ≠ "-p" := by
            have hflags := not_flag path.not_option .mkdir (by decide)
            exact fun heq => hflags (heq ▸ List.mem_cons_self)
          simp [verb, arguments, operands, Verb.row, Row.sort, Row.subcommand?, Row.placeAll,
            Row.place, hflag, Sorted.setOption, Sorted.hasOption]
  | touch path => exact hsorted .touch rfl rfl (hone path.not_option)
  | copy src dest =>
      exact hsorted .cp rfl rfl (List.forall_mem_cons.mpr ⟨src.not_option, hone dest.not_option⟩)
  | gunzip path => exact hsorted .gunzip rfl rfl (hone path.not_option)
  | chmod mode path =>
      exact hsorted .chmod rfl rfl
        (List.forall_mem_cons.mpr ⟨mode.not_option, hone path.not_option⟩)
  | packages get upgrade => cases get <;> cases upgrade <;> exact ⟨rfl, rfl⟩

open Session (visit perform)

/-- The words of an instruction, parted by the row of its command. -/
theorem visit_tree_eq (i : Instruction) : ∃ inv : Invocation,
    inv.sorted.operands = i.operands ∧ inv.hasOption "-R" = false ∧
      inv.subcommand = i.verb.row.subcommand? i.arguments ∧ visit i.tree = perform i.verb inv := by
  obtain ⟨inv, hsorted, hsubcommand, hvisit⟩ :=
    Session.visit_words i.verb (i.arguments.map fun word => (word, [])) (by simp)
  have hwords : (i.arguments.map fun word => (word, ([] : List Node))).map Prod.fst
      = i.arguments := by
    rw [List.map_map]
    exact List.map_id _
  rw [hwords] at hsorted hsubcommand
  rw [List.map_map] at hvisit
  refine ⟨inv, ?_, ?_, hsubcommand, hvisit⟩
  · rw [hsorted, i.sort_arguments.1]
  · rw [Invocation.hasOption, hsorted, i.sort_arguments.2]

/-- **Going through the tree of an instruction does what it means.** -/
theorem visit_tree (i : Instruction) {s : Session} {mask : String} (hmask : s.umask = .text mask) :
    ∃ t, (visit i.tree).run s = (.ok (), t) ∧ t.umask = .text (i.maskAfter mask) ∧
      t.tasks.map (·.without ["register"])
        = s.tasks.map (·.without ["register"]) ++ i.tasks mask := by
  obtain ⟨inv, hoperands, htree, hsubcommand, hvisit⟩ := i.visit_tree_eq
  rw [hvisit]
  have hadds : ∀ {base : String} {recipe : Recipe},
      (perform i.verb inv).run s = (.ok (), s.withTask base recipe.registered) →
      i.recipe? mask = some recipe → i.maskAfter mask = mask →
      ∃ t, (perform i.verb inv).run s = (.ok (), t) ∧ t.umask = .text (i.maskAfter mask) ∧
        t.tasks.map (·.without ["register"])
          = s.tasks.map (·.without ["register"]) ++ i.tasks mask := by
    intro base recipe hrun hrecipe hsame
    refine ⟨_, hrun, hmask.trans (by rw [hsame]), ?_⟩
    rw [map_without_withTask s base (i.module_mem hrecipe), tasks, hrecipe]
    rfl
  -- nothing in a plain word is replaced
  have hpath : ∀ (p : PathWord) mode, s.vars.interpret mode p.text = p.text :=
    fun p mode => s.vars.interpret_of_no_dollar mode (p.isPlain.not_mem (by decide))
  have hnumber : ∀ (n : NumberWord) mode, s.vars.interpret mode n.text = n.text :=
    fun n mode => s.vars.interpret_of_no_dollar mode (n.isPlain.not_mem (by decide))
  cases i with
  | umask new =>
      have hrun : (Session.umaskCommand inv).run s
          = (.ok (), { s with umask := .text (s.vars.interpret .plain new.text) }) := by
        simp [Session.umaskCommand, Invocation.operand, hoperands, operands, arguments]
      rw [hnumber] at hrun
      exact ⟨_, hrun, rfl, (List.append_nil _).symm⟩
  | mkdir parents path =>
      refine hadds (Session.run_mkdirCommand s hoperands) ?_ rfl
      rw [hpath, hmask]
      rfl
  | touch path =>
      refine hadds (Session.run_touchCommand_template s hoperands) ?_ rfl
      rw [hpath, hmask]
      rfl
  | copy src dest =>
      refine hadds (Session.run_copyCommand s hoperands) ?_ rfl
      rw [hpath, hpath]
      rfl
  | gunzip path =>
      refine hadds (Session.run_gunzipCommand s hoperands) ?_ rfl
      rw [hpath]
      rfl
  | chmod mode path =>
      refine hadds (Session.run_permissionCommand s hoperands) ?_ rfl
      rw [hpath, hnumber, htree]
      rfl
  | packages get upgrade =>
      have hword : inv.subcommand = some (if upgrade then "upgrade" else "update") := by
        rw [hsubcommand]
        cases get <;> cases upgrade <;> rfl
      have hrun : ∀ command, (Session.packageCommand command "apt" inv).run s
          = (.ok (), s.withTask (command ++ if upgrade then "_upgrade" else "_update")
              (if upgrade then Recipe.allUpgraded "apt"
                else Recipe.cacheUpdated "apt").registered) := by
        intro command
        cases upgrade <;> simp [Session.packageCommand, hword]
      cases get with
      | true => exact hadds (hrun "apt-get") rfl rfl
      | false => exact hadds (hrun "apt") rfl rfl

/-! ## The two readers in step -/

/-- The readers have the same mask and the same tasks, but for registers, and the line reader is
    in no block. -/
structure InStep (s : Session) (st : State) : Prop where
  idle : st.Idle
  umask : s.umask = .text st.umask
  tasks : st.tasks = s.tasks.map (·.without ["register"])

/-- An instruction keeps the readers in step. -/
theorem InStep.step {s : Session} {st : State} (h : InStep s st) (allowShell : Bool)
    (i : Instruction) : ∃ t, (visit i.tree).run s = (.ok (), t) ∧
      InStep t (st.takeLine allowShell i.line.toList) := by
  obtain ⟨t, hrun, humask, htasks⟩ := i.visit_tree h.umask
  refine ⟨t, hrun, ?_⟩
  rw [i.takeLine_line allowShell h.idle]
  refine ⟨⟨h.idle.pending, h.idle.vars, h.idle.condition, ?_⟩, humask, ?_⟩
  · show i.maskAfter st.umask ≠ ""
    cases i with
    | umask new => exact fun heq => new.ne_nil (by rw [show new.text = "" from heq]; rfl)
    | _ => exact h.idle.umask
  · show st.tasks ++ i.tasks st.umask = _
    rw [htasks, h.tasks]

/-- Instructions one after the other keep the readers in step. -/
theorem InStep.run (allowShell : Bool) (instructions : List Instruction) :
    ∀ {s : Session} {st : State}, InStep s st →
      ∃ t, ((instructions.map tree).forM visit).run s = (.ok (), t) ∧
        InStep t
          ((instructions.map fun i => i.line.toList).foldl (State.takeLine allowShell) st) := by
  induction instructions with
  | nil =>
      intro s st h
      exact ⟨s, rfl, h⟩
  | cons i rest ih =>
      intro s st h
      obtain ⟨between, hfirst, hbetween⟩ := h.step allowShell i
      obtain ⟨t, hrest, ht⟩ := ih hbetween
      refine ⟨t, ?_, ht⟩
      show (visit i.tree >>= fun _ => (rest.map tree).forM visit).run s = _
      rw [Step.run_bind_ok hfirst, hrest]

/-- Lines of instructions are read one after the other. -/
theorem readLines_lines (allowShell : Bool) (instructions : List Instruction) :
    Line.readLines allowShell (instructions.map fun i => i.line.toList)
      = .ok ((instructions.map fun i => i.line.toList).foldl
          (State.takeLine allowShell) {}).tasks := by
  cases instructions with
  | nil => rfl
  | cons i rest =>
      have hforeign : Line.isForeign i.line.toList = false := by
        have hmark : '#' ∉ i.line.toList := i.not_mem_line (by decide) (by decide)
        have hstart : ['#', '!'].isPrefixOf i.line.toList = false := by
          refine Bool.eq_false_iff.mpr fun hstart => hmark ?_
          exact (List.isPrefixOf_iff_prefix.mp hstart).subset List.mem_cons_self
        rw [Line.isForeign, hstart, Bool.false_and]
      rw [List.map_cons, Line.readLines, if_neg (by simp [hforeign])]

theorem no_lineEnd (i : Instruction) : ∀ c ∈ i.line.toList, isLineEnd c = false := by
  intro c hc
  refine Bool.eq_false_iff.mpr fun hend => ?_
  rcases i.line_chars.1 c hc with rfl | hpath
  · exact absurd hend (by decide)
  · have hblank := Text.isBlank_of_isLineEnd hend
    rw [not_isBlank_of_isPathChar hpath] at hblank
    exact nomatch hblank

end Instruction

open Instruction in
/-- **Both readers give the same tasks for a script of simple commands.**  Whatever the settings,
    the registers that were given out before and the variables, going through the trees of
    instructions ends well; and the lines of these instructions, one under the other, are read
    as the same tasks without their registers, as a text and as a file. -/
theorem readers_agree (allowShell ended : Bool) (settings : Settings) (registers : Registers)
    (vars : Variables) (instructions : List Instruction) :
    ∃ t, ((instructions.map tree).forM Session.visit).run
        { Session.fresh settings registers with vars := vars } = (.ok (), t) ∧
      let script := String.ofList
        (Text.joinLines ended (instructions.map fun i => i.line.toList))
      let tasks := t.tasks.map fun task => task.without ["register"]
      Line.readText allowShell script = .ok tasks ∧
        Line.readFileText allowShell script = .ok tasks := by
  have hstart : InStep { Session.fresh settings registers with vars := vars } {} :=
    ⟨⟨rfl, rfl, rfl, by decide⟩, rfl, rfl⟩
  obtain ⟨t, hrun, ht⟩ := InStep.run allowShell instructions hstart
  have hread := readLines_lines allowShell instructions
  rw [ht.tasks] at hread
  have hnil : [] ∉ instructions.map fun i => i.line.toList := by
    intro hmem
    obtain ⟨i, -, hline⟩ := List.mem_map.mp hmem
    obtain ⟨rest, heq⟩ := i.line_eq
    simp [hline] at heq
  have hends : ∀ line ∈ instructions.map fun i => i.line.toList, ∀ c ∈ line, isLineEnd c = false :=
    List.forall_mem_map.mpr fun i _ => i.no_lineEnd
  refine ⟨t, hrun, ?_, ?_⟩
  · rw [Line.readText, String.toList_ofList, Text.splitLinesFrom_joinLines ended _ hnil hends,
      hread]
  · have hnewline : ∀ line ∈ instructions.map fun i => i.line.toList, '\n' ∉ line :=
      fun line hline hmem => absurd (hends line hline _ hmem) (by decide)
    rw [Line.readFileText, String.toList_ofList,
      Text.splitAtNewlines_joinLines ended _ hnil hnewline, hread]

end Playscript
