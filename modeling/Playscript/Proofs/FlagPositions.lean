import Playscript.Proofs.CommandTasks

/-! # Flags among the words of a command

    A command that has flags and no options with values has them parted from its operands wherever
    they stand: its operands are its other words in their order, and an option is given if it is
    among the words (`Row.operands_sort`, `Row.hasOption_sort`).  Only a subcommand counts in one
    place alone, as the very first word: behind a flag it is not seen, and the command does nothing
    (`Row.hides`).  So flags may be moved about (`Row.FlagsMoved`) as long as a subcommand that is
    seen stays seen and a hidden one stays hidden, and exactly as long as that
    (`Session.moved_flags_iff`). -/

namespace Playscript

open Shell (Node)

/-! ## Parting words by flags -/

theorem Sorted.any_setOption (options : List (String × OptionValue)) (name other : String)
    (value : OptionValue) : (setOption options name value).any (·.1 == other)
      = (name == other || options.any (·.1 == other)) := by
  induction options with
  | nil => rfl
  | cons entry rest ih =>
      rw [setOption]
      split
      · rename_i hname
        rw [List.any_cons, List.any_cons, hname, ← Bool.or_assoc, Bool.or_self]
      · rw [List.any_cons, List.any_cons, ih, Bool.or_left_comm]

namespace Row

/-- A flag that is no subcommand. -/
def isFlag (row : Row) (word : String) : Bool :=
  row.flags.contains word && !row.subcommands.contains word

/-- Whether a flag in front keeps a subcommand from being seen. -/
def hides (row : Row) (words : List String) : Bool :=
  words.head?.any row.isFlag
    && (words.find? fun word => !row.isFlag word).any row.subcommands.contains

/-- The words in which options are looked for: all but a subcommand in front. -/
def optionWords (row : Row) (words : List String) : List String :=
  if (row.subcommand? words).isSome then words.drop 1 else words

variable {row : Row}

section Sorting

/-- Where no option takes a value, a word is a flag, which is noted, or an operand; nothing ever
    waits. -/
theorem place_of_no_values (hvalues : row.valueOptions = []) {s : Sorted}
    (hwaiting : s.waiting = none) (word : String) :
    (row.place s word).operands
      = s.operands ++ [word].filter (fun word => !row.flags.contains word) ∧
    (∀ name, (row.place s word).hasOption name
      = (s.hasOption name || (row.flags.contains name && name == word))) ∧
    (row.place s word).waiting = none := by
  cases hflag : row.flags.contains word with
  | true =>
      have hplace : row.place s word
          = { s with options := Sorted.setOption s.options word .flag, waiting := none } := by
        rw [place, if_pos hflag]
      rw [hplace, List.filter_cons_of_neg (by rw [hflag]; decide)]
      refine ⟨(List.append_nil _).symm, fun name => ?_, rfl⟩
      rw [Sorted.hasOption, Sorted.any_setOption, Bool.or_comm, Bool.beq_comm]
      cases hname : name == word with
      | false => rw [Bool.and_false]; rfl
      | true => rw [eq_of_beq hname, hflag]; rfl
  | false =>
      have hplace : row.place s word = { s with operands := s.operands ++ [word] } := by
        rw [place, if_neg (by rw [hflag]; decide), hvalues, if_neg (by simp), hwaiting]
      rw [hplace, List.filter_cons_of_pos (by rw [hflag]; decide)]
      refine ⟨rfl, fun name => ?_, hwaiting⟩
      cases hname : name == word with
      | false => rw [Bool.and_false, Bool.or_false]; rfl
      | true => rw [eq_of_beq hname, hflag, Bool.false_and, Bool.or_false]; rfl

/-- So operands are the words that are no flags, and flags are noted wherever they stand. -/
theorem placeAll_of_no_values (hvalues : row.valueOptions = []) (words : List String) :
    ∀ {s : Sorted}, s.waiting = none →
      (row.placeAll s words).operands
        = s.operands ++ words.filter (fun word => !row.flags.contains word) ∧
      ∀ name, (row.placeAll s words).hasOption name
        = (s.hasOption name || (row.flags.contains name && words.contains name)) := by
  induction words with
  | nil =>
      intro s _
      exact ⟨(List.append_nil _).symm, fun name => by simp [placeAll]⟩
  | cons word rest ih =>
      intro s hwaiting
      obtain ⟨hoperand, hoption, hplaced⟩ := place_of_no_values hvalues hwaiting word
      obtain ⟨hoperands, hoptions⟩ := ih hplaced
      have hstep : row.placeAll s (word :: rest) = row.placeAll (row.place s word) rest := rfl
      refine ⟨?_, fun name => ?_⟩
      · rw [hstep, hoperands, hoperand, List.append_assoc, ← List.filter_append]
        rfl
      · rw [hstep, hoptions, hoption, Bool.or_assoc, ← Bool.and_or_distrib_left,
          List.contains_cons]

/-- A subcommand is the first word or none. -/
theorem subcommand?_eq_some_iff {words : List String} {name : String} :
    row.subcommand? words = some name
      ↔ ∃ rest, words = name :: rest ∧ row.subcommands.contains name = true := by
  cases words with
  | nil => simp [subcommand?]
  | cons first rest =>
      rw [subcommand?, Option.ite_none_right_eq_some]
      constructor
      · rintro ⟨hmem, hname⟩
        cases hname
        exact ⟨rest, rfl, hmem⟩
      · rintro ⟨other, hwords, hmem⟩
        cases hwords
        exact ⟨hmem, rfl⟩

/-- The operands are the words that are no flags. -/
theorem operands_sort (hvalues : row.valueOptions = [])
    (hflags : ∀ word ∈ row.subcommands, word ∈ row.flags) (words : List String) :
    (row.sort words).operands = words.filter fun word => !row.flags.contains word := by
  rw [sort, (placeAll_of_no_values hvalues _ rfl).1]
  cases hsub : row.subcommand? words with
  | none => rfl
  | some name =>
      obtain ⟨rest, rfl, hmem⟩ := subcommand?_eq_some_iff.mp hsub
      have hflag : row.flags.contains name = true := by
        rw [List.contains_iff_mem] at hmem ⊢
        exact hflags name hmem
      rw [List.filter_cons_of_neg (by rw [hflag]; decide)]
      rfl

/-- The options that are given are the flags among the words. -/
theorem hasOption_sort (hvalues : row.valueOptions = []) (words : List String) (name : String) :
    (row.sort words).hasOption name
      = (row.flags.contains name && (row.optionWords words).contains name) :=
  (placeAll_of_no_values hvalues _ rfl).2 name

/-- A subcommand is seen if it is the first word that is no flag, and nothing hides it. -/
theorem subcommand?_eq (words : List String) :
    row.subcommand? words = if row.hides words then none
      else (words.find? fun word => !row.isFlag word).filter row.subcommands.contains := by
  cases words with
  | nil => rfl
  | cons first rest =>
      cases hflag : row.isFlag first with
      | true =>
          have hnot : row.subcommands.contains first = false := by
            rw [isFlag, Bool.and_eq_true, Bool.not_eq_true'] at hflag
            exact hflag.2
          rw [subcommand?, if_neg (by rw [hnot]; decide), hides, List.head?_cons, Option.any_some,
            hflag, Bool.true_and, List.find?_cons_of_neg (by rw [hflag]; decide)]
          cases rest.find? fun word => !row.isFlag word with
          | none => rfl
          | some word =>
              cases hword : row.subcommands.contains word with
              | false => rw [Option.any_some, Option.filter_some, hword]; rfl
              | true => rw [Option.any_some, hword, if_pos rfl]
      | false =>
          rw [subcommand?, hides, List.head?_cons, Option.any_some, hflag, Bool.false_and,
            if_neg Bool.false_ne_true, List.find?_cons_of_pos (by rw [hflag]; decide),
            Option.filter_some]

/-- What is hidden is a subcommand that is not seen. -/
theorem hides_iff (words : List String) :
    row.hides words = true ↔ row.subcommand? words = none ∧
      (words.find? fun word => !row.isFlag word).any row.subcommands.contains = true := by
  have hseen := row.subcommand?_eq words
  cases hhides : row.hides words with
  | true =>
      rw [hhides, if_pos rfl] at hseen
      rw [hides, Bool.and_eq_true] at hhides
      exact ⟨fun _ => ⟨hseen, hhides.2⟩, fun _ => rfl⟩
  | false =>
      rw [hhides, if_neg Bool.false_ne_true] at hseen
      refine ⟨fun hfalse => absurd hfalse Bool.false_ne_true, ?_⟩
      rintro ⟨hnone, hany⟩
      obtain ⟨word, hword, hsub⟩ := (Option.any_eq_true _ _).mp hany
      rw [hnone, hword, Option.filter_some, if_pos hsub] at hseen
      cases hseen

theorem hides_of_no_subcommands (h : row.subcommands = []) (words : List String) :
    row.hides words = false := by
  have hnone : row.subcommands.contains = fun _ => false := by
    funext word
    rw [h]
    rfl
  rw [hides, hnone]
  simp

end Sorting

/-! ## Moving flags -/

/-- Whether a node is a flag that is no subcommand. -/
def isFlagNode (row : Row) : Node → Bool
  | .word text _ => row.isFlag text
  | _ => false

/-- Flags are moved about and all other parts keep their order. -/
structure FlagsMoved (row : Row) (parts parts' : List Node) : Prop where
  flags : (parts'.filter row.isFlagNode).Perm (parts.filter row.isFlagNode)
  others : (parts'.filter fun part => !row.isFlagNode part)
    = parts.filter fun part => !row.isFlagNode part

end Row

namespace Row.FlagsMoved

variable {row : Row} {parts parts' : List Node}

theorem perm (h : row.FlagsMoved parts parts') : parts'.Perm parts := by
  have hsplit := List.filter_append_perm row.isFlagNode parts'
  rw [h.others] at hsplit
  exact hsplit.symm.trans ((h.flags.append_right _).trans
    (List.filter_append_perm row.isFlagNode parts))

theorem words_perm (h : row.FlagsMoved parts parts') :
    (Node.takenWords parts').Perm (Node.takenWords parts) :=
  h.perm.filterMap _

/-- What flags do not add is added by the other parts. -/
theorem filterMap_eq {β : Type} (h : row.FlagsMoved parts parts') {f : Node → Option β}
    (hf : ∀ part, row.isFlagNode part = true → f part = none) :
    parts'.filterMap f = parts.filterMap f := by
  have hskip : ∀ nodes : List Node,
      (nodes.filter fun part => !row.isFlagNode part).filterMap f = nodes.filterMap f := by
    intro nodes
    rw [List.filterMap_filter]
    refine congrArg (nodes.filterMap ·) (funext fun part => ?_)
    cases hpart : row.isFlagNode part with
    | false => rfl
    | true => exact (hf part hpart).symm
  rw [← hskip parts', h.others, hskip]

/-- The words that are no flags keep their order. -/
theorem words_others (h : row.FlagsMoved parts parts') {p : String → Bool}
    (hp : ∀ word, row.isFlag word = true → p word = false) :
    (Node.takenWords parts').filter p = (Node.takenWords parts).filter p := by
  rw [Node.takenWords, Node.takenWords, List.filter_filterMap, List.filter_filterMap]
  refine h.filterMap_eq fun part hpart => ?_
  cases part with
  | word text nested => rw [Node.takenWord?, Option.filter_some, hp text hpart]; rfl
  | _ => cases hpart

theorem find?_eq (h : row.FlagsMoved parts parts') :
    ((Node.takenWords parts').find? fun word => !row.isFlag word)
      = (Node.takenWords parts).find? fun word => !row.isFlag word := by
  rw [← List.head?_filter, ← List.head?_filter,
    h.words_others fun word hword => by rw [hword]; rfl]

/-- A subcommand is seen on both sides or on neither, if it is hidden on both or on neither. -/
theorem subcommand?_eq (h : row.FlagsMoved parts parts')
    (hhides : row.hides (Node.takenWords parts') = row.hides (Node.takenWords parts)) :
    row.subcommand? (Node.takenWords parts') = row.subcommand? (Node.takenWords parts) := by
  rw [Row.subcommand?_eq, Row.subcommand?_eq, hhides, h.find?_eq]

/-- If a subcommand is seen on both sides or on neither, it is hidden on both or on neither. -/
theorem hides_eq (h : row.FlagsMoved parts parts')
    (hseen : row.subcommand? (Node.takenWords parts') = none
      ↔ row.subcommand? (Node.takenWords parts) = none) :
    row.hides (Node.takenWords parts') = row.hides (Node.takenWords parts) := by
  rw [Bool.eq_iff_iff, Row.hides_iff, Row.hides_iff, h.find?_eq, hseen]

theorem optionWords_perm (h : row.FlagsMoved parts parts')
    (hsub : row.subcommand? (Node.takenWords parts') = row.subcommand? (Node.takenWords parts)) :
    (row.optionWords (Node.takenWords parts')).Perm (row.optionWords (Node.takenWords parts)) := by
  rw [Row.optionWords, Row.optionWords, hsub]
  cases hname : row.subcommand? (Node.takenWords parts) with
  | none => exact h.words_perm
  | some name =>
      -- the same word stands in front on both sides and is left out
      obtain ⟨rest, hrest, -⟩ := Row.subcommand?_eq_some_iff.mp hname
      obtain ⟨rest', hrest', -⟩ := Row.subcommand?_eq_some_iff.mp (hsub.trans hname)
      have hperm := h.words_perm
      rw [hrest, hrest'] at hperm ⊢
      exact hperm.cons_inv

end Row.FlagsMoved

/-! ## What commands look at -/

namespace Invocation

/-- Two invocations that no command tells from each other. -/
structure SaysSame (inv inv' : Invocation) : Prop where
  operands : inv'.sorted.operands = inv.sorted.operands
  options : ∀ name, inv'.hasOption name = inv.hasOption name
  subcommand : inv'.subcommand = inv.subcommand
  redirection : inv'.redirection = inv.redirection

theorem SaysSame.operand {inv inv' : Invocation} (h : SaysSame inv inv') (n : Nat) :
    inv'.operand n = inv.operand n := by
  rw [Invocation.operand, Invocation.operand, h.operands]

end Invocation

namespace Session

open Invocation (SaysSame)

/-- A command looks at the operands, the options, the subcommand and the redirection only. -/
theorem perform_congr (verb : Verb) {inv inv' : Invocation} (h : SaysSame inv inv') :
    perform verb inv' = perform verb inv := by
  cases verb with
  | umask => simp only [perform, umaskCommand, h.operand]
  | exporting => simp only [perform, exportCommand, h.operand]
  | mkdir => simp only [perform, mkdirCommand, h.operand]
  | touch => simp only [perform, touchCommand, h.operand]
  | ln => simp only [perform, linkCommand, h.operand, h.options]
  | cp => simp only [perform, copyCommand, h.operand]
  | scp => simp only [perform, remoteCopyCommand, h.operand]
  | mv => simp only [perform, moveCommand, h.operand]
  | ldconfig => rfl
  | gunzip => simp only [perform, gunzipCommand, h.operand]
  | chown => simp only [perform, ownerCommand, h.operand, h.options]
  | chmod => simp only [perform, permissionCommand, h.operand, h.options]
  | apt | aptGet | yum => simp only [perform, packageCommand, h.subcommand, h.operands]
  | echo => simp only [perform, echoCommand, h.operand, h.redirection]
  | ssh => rfl

/-! ## Known commands with their flags moved -/

theorem subcommands_are_flags (verb : Verb) :
    ∀ word ∈ verb.row.subcommands, word ∈ verb.row.flags := by
  cases verb <;> decide

/-- With its flags moved a command says the same, if it has the same subcommand. -/
theorem Invokes.saysSame {verb : Verb} {parts parts' : List Node} {inv inv' : Invocation}
    (hvalues : verb.row.valueOptions = []) (hmoved : verb.row.FlagsMoved parts parts')
    (h : Invokes verb parts inv) (h' : Invokes verb parts' inv')
    (hsub : inv'.subcommand = inv.subcommand) : SaysSame inv inv' := by
  refine ⟨?_, fun name => ?_, hsub, ?_⟩
  · rw [h.sorted, h'.sorted, Row.operands_sort hvalues (subcommands_are_flags verb),
      Row.operands_sort hvalues (subcommands_are_flags verb)]
    refine hmoved.words_others fun word hword => ?_
    rw [Row.isFlag, Bool.and_eq_true] at hword
    rw [hword.1]
    rfl
  · rw [h.subcommand, h'.subcommand] at hsub
    rw [Invocation.hasOption, Invocation.hasOption, h.sorted, h'.sorted,
      Row.hasOption_sort hvalues, Row.hasOption_sort hvalues,
      (hmoved.optionWords_perm hsub).contains_eq]
  · have hnoted : ∀ part, verb.row.isFlagNode part = true → part.noted? = none := by
      intro part hpart
      cases part with
      | word text nested => rfl
      | _ => cases hpart
    rw [h.redirection, h'.redirection, hmoved.filterMap_eq hnoted]

/-- A command that has subcommands adds a task with any of them, and none without. -/
theorem newTasks_perform_eq_nil_iff {verb : Verb} {parts : List Node} {inv : Invocation}
    (h : Invokes verb parts inv) (hsubs : verb.row.subcommands ≠ []) (s : Session) :
    newTasks (perform verb inv) s = []
      ↔ verb.row.subcommand? (Node.takenWords parts) = none := by
  have hpackage : verb.row = Verb.packageRow → ∀ command manager : String,
      (newTasks (packageCommand command manager inv) s = [] ↔ inv.subcommand = none) := by
    intro hrow command manager
    cases hsub : inv.subcommand with
    | none =>
        have hnone : ∀ name ∈ Verb.packageRow.subcommands, inv.subcommand ≠ some name := by
          intro name _
          rw [hsub]
          exact Option.some_ne_none name |>.symm
        have hnew : newTasks (pure ()) s = [] := List.drop_length
        rw [packageCommand_eq_pure hnone, hnew]
        simp
    | some name =>
        obtain ⟨rest, -, hmem⟩ := Row.subcommand?_eq_some_iff.mp (h.subcommand.symm.trans hsub)
        rw [hrow, List.contains_iff_mem] at hmem
        simp [newTasks_packageCommand s hmem hsub]
  rw [← h.subcommand]
  cases verb with
  | apt => exact hpackage rfl "apt" "apt"
  | aptGet => exact hpackage rfl "apt-get" "apt"
  | yum => exact hpackage rfl "yum" "yum"
  | _ => exact absurd rfl hsubs

/-- **Where flags stand makes a difference only in front of a subcommand.**  A known command all of
    whose options are flags, with plain parts behind it, is done just as before with its flags
    moved about among the other parts, and adds the same tasks, if and only if a flag in front
    hides its subcommand in both places or in neither.  For a command without subcommands that is
    always so. -/
theorem moved_flags_iff {verb : Verb} (hvalues : verb.row.valueOptions = [])
    {nested parts parts' : List Node} (hnested : nested.all Node.isPlainExpansion = true)
    (hplain : ∀ part ∈ parts, part.isPlainPart = true)
    (hassign : ∀ part ∈ parts, part.isAssignment = false)
    (hmoved : verb.row.FlagsMoved parts parts') (s : Session) :
    ((command (.command (.word verb.name nested :: parts'))).run s
        = (command (.command (.word verb.name nested :: parts))).run s
      ↔ verb.row.hides (Node.takenWords parts') = verb.row.hides (Node.takenWords parts)) ∧
    (newTasks (command (.command (.word verb.name nested :: parts'))) s
        = newTasks (command (.command (.word verb.name nested :: parts))) s
      ↔ verb.row.hides (Node.takenWords parts') = verb.row.hides (Node.takenWords parts)) ∧
    (verb.row.subcommands = [] →
      verb.row.hides (Node.takenWords parts') = verb.row.hides (Node.takenWords parts)) := by
  obtain ⟨inv, hinv, hcommand⟩ := command_of_parts verb hnested hplain hassign
  have hplain' : ∀ part ∈ parts', part.isPlainPart = true := by
    intro part hpart
    exact hplain part (hmoved.perm.mem_iff.mp hpart)
  have hassign' : ∀ part ∈ parts', part.isAssignment = false := by
    intro part hpart
    exact hassign part (hmoved.perm.mem_iff.mp hpart)
  obtain ⟨inv', hinv', hcommand'⟩ := command_of_parts verb hnested hplain' hassign'
  have hnever : verb.row.subcommands = [] →
      verb.row.hides (Node.takenWords parts') = verb.row.hides (Node.takenWords parts) := by
    intro hnone
    rw [Row.hides_of_no_subcommands hnone, Row.hides_of_no_subcommands hnone]
  have hsame : verb.row.hides (Node.takenWords parts') = verb.row.hides (Node.takenWords parts) →
      perform verb inv' = perform verb inv := by
    intro hhides
    have hsub : inv'.subcommand = inv.subcommand := by
      rw [hinv'.subcommand, hinv.subcommand, hmoved.subcommand?_eq hhides]
    exact perform_congr verb (hinv.saysSame hvalues hmoved hinv' hsub)
  -- a subcommand that is seen on one side only adds a task on that side only
  have hdiffers : newTasks (perform verb inv') s = newTasks (perform verb inv) s →
      verb.row.hides (Node.takenWords parts') = verb.row.hides (Node.takenWords parts) := by
    intro htasks
    by_cases hsubs : verb.row.subcommands = []
    · exact hnever hsubs
    · refine hmoved.hides_eq ?_
      rw [← newTasks_perform_eq_nil_iff hinv' hsubs s, ← newTasks_perform_eq_nil_iff hinv hsubs s,
        htasks]
  rw [hcommand, hcommand']
  refine ⟨⟨fun hrun => hdiffers (newTasks_of_run hrun), fun hhides => ?_⟩,
    ⟨hdiffers, fun hhides => ?_⟩, hnever⟩
  · rw [hsame hhides]
  · rw [hsame hhides]

/-- `apt -y install vim` adds other tasks than `apt install -y vim`. -/
theorem flag_before_install_differs :
    ∃ parts parts', parts = [Node.word "install" [], .word "-y" [], .word "vim" []] ∧
      parts' = [Node.word "-y" [], .word "install" [], .word "vim" []] ∧
      Verb.apt.row.FlagsMoved parts parts' ∧
      newTasks (command (.command (.word "apt" [] :: parts'))) {}
        ≠ newTasks (command (.command (.word "apt" [] :: parts))) {} := by
  have hmoved : Verb.apt.row.FlagsMoved [.word "install" [], .word "-y" [], .word "vim" []]
      [.word "-y" [], .word "install" [], .word "vim" []] :=
    ⟨.of_eq rfl, rfl⟩
  refine ⟨_, _, rfl, rfl, hmoved, fun htasks => ?_⟩
  have hiff := @moved_flags_iff .apt rfl [] _ _ rfl (by decide) (by decide) hmoved {}
  exact absurd (hiff.2.1.mp htasks) (by decide)

end Session

end Playscript
