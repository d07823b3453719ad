import Playscript.Proofs.PlainCommands

/-! # Commands that fail

    A command fails if an operand that it looks up is not there, and `chown` also if its first
    operand is no owner and group.  Nothing else in a command of plain words can fail, so
    whether it does is read off its name and its operands (`perform_fails_iff`).  Every lookup
    comes before the first change, so a command that fails leaves the session as it was, unless
    an assignment stands in it. -/

namespace Playscript

open Shell (Node)

namespace Step

variable {α β : Type}

/-- A step fails from a session. -/
def Fails (x : Step α) (s : Session) : Prop :=
  ∃ f, x.outcome s = .error f

@[simp] theorem not_fails_pure (a : α) (s : Session) : ¬ (pure a : Step α).Fails s := by
  rintro ⟨f, hf⟩
  exact nomatch hf

@[simp] theorem not_fails_modify (g : Session → Session) (s : Session) :
    ¬ (modify g : Step Unit).Fails s := by
  rintro ⟨f, hf⟩
  exact nomatch hf

/-- A step that ends well is followed by the next one. -/
theorem fails_bind_of_ok {x : Step α} {s t : Session} {a : α} (h : x.run s = (.ok a, t))
    (k : α → Step β) : (x >>= k).Fails s ↔ (k a).Fails t := by
  rw [Fails, Fails, outcome, run_bind_ok h]
  rfl

/-- What is looked up has to be there, and what follows has to end well. -/
@[simp] theorem fails_liftM_bind (r : Except Failure α) (k : α → Step β) (s : Session) :
    ((liftM r : Step α) >>= k).Fails s ↔ ∀ a, r = .ok a → (k a).Fails s := by
  cases r with
  | ok a =>
      have hrun : (liftM (Except.ok a : Except Failure α) : Step α).run s = (.ok a, s) := rfl
      rw [fails_bind_of_ok hrun]
      simp
  | error f =>
      constructor
      · intro _ a ha
        exact nomatch ha
      · intro _
        exact ⟨f, rfl⟩

@[simp] theorem fails_get_bind (k : Session → Step β) (s : Session) :
    (get >>= k).Fails s ↔ (k s).Fails s :=
  fails_bind_of_ok (run_get s) k

@[simp] theorem fails_interpret_bind (mode : Expansion) (text : String) (k : String → Step β)
    (s : Session) : (Session.interpret mode text >>= k).Fails s
      ↔ (k (s.vars.interpret mode text)).Fails s :=
  fails_bind_of_ok (run_interpret mode text s) k

@[simp] theorem fails_mode_bind (directory : Bool) (k : Value → Step β) (s : Session) :
    (Session.mode directory >>= k).Fails s ↔ (k (modeValue s.umask directory)).Fails s :=
  fails_bind_of_ok (run_mode directory s) k

end Step

/-! ## Operands -/

/-- An operand is at hand if there are enough of them. -/
@[simp] theorem Invocation.operand_eq_ok_iff (inv : Invocation) (n : Nat) (word : String) :
    inv.operand n = .ok word ↔ inv.sorted.operands[n]? = some word := by
  unfold Invocation.operand
  cases inv.sorted.operands[n]? with
  | none => simp
  | some found => simp

/-- There is no first operand. -/
@[simp] theorem no_first_iff (operands : List String) :
    (∀ word, ¬ operands[0]? = some word) ↔ operands = [] := by
  cases operands with
  | nil => simp
  | cons word rest => simp

/-- There is no first operand, or no second one. -/
@[simp] theorem no_second_iff (operands : List String) :
    (∀ first, operands[0]? = some first → ∀ second, ¬ operands[1]? = some second)
      ↔ operands.length < 2 := by
  match operands with
  | [] => simp
  | [word] => simp
  | first :: second :: rest => simp

namespace Text

/-- A text is cut into one piece more than there are marks in it. -/
theorem length_splitOnChar (mark : Char) (cs : List Char) :
    (splitOnChar mark cs).length = cs.count mark + 1 := by
  induction cs with
  | nil => rfl
  | cons c rest ih =>
      by_cases hc : c = mark
      · simp [splitOnChar, hc, ih]
      · rw [splitOnChar, if_neg hc, List.count_cons_of_ne hc]
        cases hpieces : splitOnChar mark rest with
        | nil => simp [hpieces] at ih
        | cons piece pieces => simpa [hpieces] using ih

end Text

namespace Session

/-- An owner and a group have one colon between them. -/
theorem ownerAndGroup_ok_iff (text : String) :
    (∃ pair, ownerAndGroup text = .ok pair) ↔ text.toList.count ':' = 1 := by
  have hlength := Text.length_splitOnChar ':' text.toList
  unfold ownerAndGroup
  match h : Text.splitOnChar ':' text.toList with
  | [] => simp [h] at hlength
  | [piece] => simp [h] at hlength ⊢; omega
  | [owner, group] => simp [h] at hlength ⊢; omega
  | first :: second :: third :: rest => simp [h] at hlength ⊢; omega

@[simp] theorem not_fails_addRegistered (recipe : Recipe) (base : String) (s : Session) :
    ¬ (addRegistered recipe base).Fails s := by
  rintro ⟨f, hf⟩
  exact nomatch hf

@[simp] theorem not_fails_addTask (task : Task) (s : Session) : ¬ (addTask task).Fails s :=
  Step.not_fails_modify _ s

@[simp] theorem not_fails_say (line : String) (s : Session) : ¬ (say line).Fails s :=
  Step.not_fails_modify _ s

/-- Taking a register never fails. -/
@[simp] theorem fails_register_bind (base : String) (k : String → Step Unit) (s : Session) :
    (register base >>= k).Fails s ↔ (k (s.registers.next s.settings.role base).1).Fails
      { s with
        registers := (s.registers.next s.settings.role base).2
        lastRegister := some (s.registers.next s.settings.role base).1 } :=
  Step.fails_bind_of_ok (run_register base s) k

/-- A command by its name that lacks an operand: one of those that look up one or two, or
    `chown` without an owner and a group. -/
def LacksOperands (name : String) (operands : List String) : Prop :=
  (name ∈ ["umask", "export", "mkdir", "touch", "gunzip", "echo"] ∧ operands = []) ∨
  (name ∈ ["ln", "cp", "scp", "mv", "chmod"] ∧ operands.length < 2) ∨
  (name = "chown" ∧ (operands.length < 2 ∨
    ∀ word ∈ operands.head?, word.toList.count ':' ≠ 1))

/-- Beside two operands, `chown` asks for exactly one colon in the first of them. -/
theorem ownerCommand_fails_iff (inv : Invocation) (s : Session) :
    (ownerCommand inv).Fails s ↔ inv.sorted.operands.length < 2 ∨
      ∀ word ∈ inv.sorted.operands.head?, word.toList.count ':' ≠ 1 := by
  simp only [ownerCommand, Step.fails_liftM_bind, Step.fails_interpret_bind,
    Invocation.operand_eq_ok_iff, not_fails_addRegistered]
  rcases inv.sorted.operands with _ | ⟨word, _ | ⟨path, rest⟩⟩
  · simp
  · simp
  · constructor
    · intro h
      refine .inr fun other hother hcount => ?_
      cases hother
      obtain ⟨pair, hpair⟩ := (ownerAndGroup_ok_iff word).mpr hcount
      exact h word rfl pair hpair path rfl
    · rintro (hshort | h) other hother pair hpair path' _
      · exact absurd hshort (by simp)
      · cases hother
        exact h word rfl ((ownerAndGroup_ok_iff word).mp ⟨pair, hpair⟩)

/-- A remote copy that is not allowed does not fail: it is left out. -/
theorem remoteCopyCommand_fails_iff (inv : Invocation) (s : Session) :
    (remoteCopyCommand inv).Fails s ↔ inv.sorted.operands.length < 2 := by
  have hcopy : ∀ (allowed : Bool) (recipe : Recipe),
      ¬ (if allowed then addRegistered recipe "scp" else say "scp skipping command scp").Fails s := by
    intro allowed recipe
    cases allowed with
    | false => exact not_fails_say _ s
    | true => exact not_fails_addRegistered _ _ s
  simp [remoteCopyCommand, hcopy]

/-- A package manager never fails, whatever its subcommand. -/
theorem not_fails_packageCommand (command manager : String) (inv : Invocation) (s : Session) :
    ¬ (packageCommand command manager inv).Fails s := by
  unfold packageCommand
  split
  · exact not_fails_addRegistered _ _ s
  · exact not_fails_addRegistered _ _ s
  · exact not_fails_addRegistered _ _ s
  · exact Step.not_fails_pure () s

/-- What looks up a first operand and cannot fail behind it. -/
theorem fails_first_iff {inv : Invocation} {k : String → Step Unit} {s : Session}
    (h : ∀ word, ¬ (k word).Fails s) :
    ((liftM (inv.operand 0) : Step String) >>= k).Fails s ↔ inv.sorted.operands = [] := by
  simp [h]

theorem exportCommand_fails_iff (inv : Invocation) (s : Session) :
    (exportCommand inv).Fails s ↔ inv.sorted.operands = [] := by
  refine fails_first_iff fun word => ?_
  split
  · exact Step.not_fails_modify _ s
  · exact Step.not_fails_pure () s

/-- An `echo` without a text fails, in each of its forms. -/
theorem echoCommand_fails_iff (inv : Invocation) (s : Session) :
    (echoCommand inv).Fails s ↔ inv.sorted.operands = [] := by
  refine fails_first_iff fun text => ?_
  -- where the text goes makes no difference
  split
  · simp
  · simp
  · simp

/-- **A known command fails exactly if it lacks an operand.** -/
theorem perform_fails_iff (verb : Verb) (inv : Invocation) (s : Session) :
    (perform verb inv).Fails s ↔ LacksOperands verb.name inv.sorted.operands := by
  cases verb with
  | umask => simp [perform, umaskCommand, LacksOperands, Verb.name]
  | exporting => simp [perform, exportCommand_fails_iff, LacksOperands, Verb.name]
  | mkdir => simp [perform, mkdirCommand, LacksOperands, Verb.name]
  | touch => simp [perform, touchCommand, LacksOperands, Verb.name]
  | ln => simp [perform, linkCommand, LacksOperands, Verb.name]
  | cp => simp [perform, copyCommand, LacksOperands, Verb.name]
  | scp => simp [perform, remoteCopyCommand_fails_iff, LacksOperands, Verb.name]
  | mv => simp [perform, moveCommand, LacksOperands, Verb.name]
  | ldconfig => simp [perform, ldconfigCommand, LacksOperands, Verb.name]
  | gunzip => simp [perform, gunzipCommand, LacksOperands, Verb.name]
  | chown => simp [perform, ownerCommand_fails_iff, LacksOperands, Verb.name]
  | chmod => simp [perform, permissionCommand, LacksOperands, Verb.name]
  | apt | aptGet | yum => simp [perform, not_fails_packageCommand, LacksOperands, Verb.name]
  | echo => simp [perform, echoCommand_fails_iff, LacksOperands, Verb.name]
  | ssh => simp [perform, LacksOperands, Verb.name]

/-- A known command that fails changes nothing. -/
theorem Atomic.after_of_fails {x : Step Unit} (h : Atomic x) {s : Session} (hfails : x.Fails s) :
    x.after s = s := by
  obtain ⟨f, hf⟩ := hfails
  cases h with
  | fails failure run => rw [Step.after, run]
  | nothing run => rw [Step.after, run]
  | changes g added run change atMostOne adds =>
      rw [Step.outcome, run] at hf
      cases hf

/-! ## Command nodes -/

/-- The command of a name is the one that has it. -/
theorem ofName?_eq_some_iff (name : String) (verb : Verb) :
    Verb.ofName? name = some verb ↔ name = verb.name := by
  constructor
  · intro h
    rw [Verb.ofName?] at h
    have hname := List.find?_some h
    exact (eq_of_beq hname).symm
  · rintro rfl
    cases verb <;> rfl

/-- A name that no command has lacks no operand. -/
theorem not_lacks_of_unknown {name : String} (h : Verb.ofName? name = none)
    (operands : List String) : ¬ LacksOperands name operands := by
  have hne : ∀ verb : Verb, name ≠ verb.name := by
    intro verb heq
    rw [(ofName?_eq_some_iff name verb).mpr heq] at h
    exact nomatch h
  rintro (⟨hmem, -⟩ | ⟨hmem, -⟩ | ⟨heq, -⟩)
  · simp only [List.mem_cons, List.not_mem_nil, or_false] at hmem
    rcases hmem with h | h | h | h | h | h
    · exact hne .umask h
    · exact hne .exporting h
    · exact hne .mkdir h
    · exact hne .touch h
    · exact hne .gunzip h
    · exact hne .echo h
  · simp only [List.mem_cons, List.not_mem_nil, or_false] at hmem
    rcases hmem with h | h | h | h | h
    · exact hne .ln h
    · exact hne .cp h
    · exact hne .scp h
    · exact hne .mv h
    · exact hne .chmod h
  · exact hne .chown heq

/-- A known command of plain words does what it says, from where its assignments have led. -/
theorem run_command_of_known {parts : List Node} {verb : Verb}
    (h : ∀ part ∈ parts, part.isPlainPart = true)
    (hverb : (Invocation.ofParts parts).verb? = some verb) {s t : Session}
    (hassign : (parts.forM assignPart).run s = (.ok (), t)) :
    (command (.command parts)).run s = (perform verb (Invocation.ofParts parts)).run t := by
  have hknown : tellUnknown (parts.foldl Invocation.take {}) = pure () := by
    simp [tellUnknown, ← Invocation.verb?_ofParts, hverb]
  have hgather := Invocation.run_gather_plain h hassign
  rw [hknown] at hgather
  rw [command, Step.run_bind_ok hgather, hverb]
  rfl

/-- What is invoked by the name of a known command and parts behind it. -/
structure Invokes (verb : Verb) (parts : List Node) (inv : Invocation) : Prop where
  sorted : inv.sorted = verb.row.sort (Node.takenWords parts)
  subcommand : inv.subcommand = verb.row.subcommand? (Node.takenWords parts)
  redirection : inv.redirection = (parts.filterMap Node.noted?).getLast?

/-- A known command with plain parts behind it is done with the words of the parts. -/
theorem command_of_parts (verb : Verb) {nested parts : List Node}
    (hnested : nested.all Node.isPlainExpansion = true)
    (hplain : ∀ part ∈ parts, part.isPlainPart = true)
    (hassign : ∀ part ∈ parts, part.isAssignment = false) :
    ∃ inv, Invokes verb parts inv ∧
      command (.command (.word verb.name nested :: parts)) = perform verb inv := by
  have hverb : Verb.ofName? verb.name = some verb := (ofName?_eq_some_iff _ _).mpr rfl
  obtain ⟨parameters, hfold⟩ := @Invocation.foldl_take_parts parts hplain hassign
    { command := some verb.name, parameters := Node.parameterNames nested } verb.name rfl
  have hparts : (Node.word verb.name nested :: parts).foldl Invocation.take {}
      = { command := some verb.name, words := Node.takenWords parts
          redirection := (parts.filterMap Node.noted?).getLast?, parameters := parameters } := by
    refine hfold.trans ?_
    rw [Option.or_none, List.nil_append]
  have hinv : Invocation.ofParts (.word verb.name nested :: parts)
      = Invocation.sortBy { command := some verb.name, words := Node.takenWords parts
                            redirection := (parts.filterMap Node.noted?).getLast?
                            parameters := parameters } verb.row := by
    simp [Invocation.ofParts, hparts, Invocation.closed, Invocation.verb?, hverb]
  refine ⟨Invocation.ofParts (.word verb.name nested :: parts), ?_, Step.ext_run fun s => ?_⟩
  · rw [hinv]
    exact ⟨rfl, Option.or_none, rfl⟩
  · refine run_command_of_known ?_ ?_ (congrArg (fun x => x.run s) (assignParts_eq_pure ?_))
    · exact List.forall_mem_cons.mpr ⟨hnested, hplain⟩
    · rw [Invocation.verb?_ofParts, hparts]
      exact hverb
    · exact List.forall_mem_cons.mpr ⟨rfl, hassign⟩

/-- A command of plain words that is not known does not fail. -/
theorem not_fails_command_of_unknown {parts : List Node}
    (h : ∀ part ∈ parts, part.isPlainPart = true)
    (hverb : (Invocation.ofParts parts).verb? = none) (s : Session) :
    ¬ (command (.command parts)).Fails s := by
  obtain ⟨t, hassign⟩ := run_assignParts parts s
  rw [command, Step.fails_bind_of_ok (Invocation.run_gather_plain h hassign), hverb]
  exact Step.not_fails_pure () _

/-- **A command of plain words fails exactly if it lacks an operand, and then without a trace.**  The
    gathering of its words ends well; the command fails if and only if its name is one of
    those that look up operands and its operands are too few, or are no owner and group; and if
    it fails and no assignment stands in it, the session is as it was before. -/
theorem command_fails_iff {parts : List Node} (h : ∀ part ∈ parts, part.isPlainPart = true)
    (s : Session) :
    ∃ inv, (Invocation.gather (.command parts)).outcome s = .ok inv ∧
      ((∃ f, (command (.command parts)).outcome s = .error f) ↔
        ∃ name, inv.command = some name ∧ LacksOperands name inv.sorted.operands) ∧
      ((∃ f, (command (.command parts)).outcome s = .error f) →
        (∀ part ∈ parts, part.isAssignment = false) →
          (command (.command parts)).after s = s) := by
  obtain ⟨t, hassign⟩ := run_assignParts parts s
  refine ⟨Invocation.ofParts parts, ?_, ?_⟩
  · rw [Step.outcome, Invocation.run_gather_plain h hassign]
  cases hverb : (Invocation.ofParts parts).verb? with
  | none =>
      have hnot := not_fails_command_of_unknown h hverb s
      refine ⟨⟨fun hfails => absurd hfails hnot, ?_⟩, fun hfails => absurd hfails hnot⟩
      rintro ⟨name, hname, hlacks⟩
      rw [Invocation.verb?, hname] at hverb
      exact absurd hlacks (not_lacks_of_unknown hverb _)
  | some verb =>
      have hrun := run_command_of_known h hverb hassign
      have hiff : (command (.command parts)).Fails s
          ↔ (perform verb (Invocation.ofParts parts)).Fails t := by
        rw [Step.Fails, Step.outcome, hrun]
        rfl
      obtain ⟨name, hname, hnamed⟩ := Option.bind_eq_some_iff.mp hverb
      rw [ofName?_eq_some_iff] at hnamed
      constructor
      · refine hiff.trans ((perform_fails_iff verb _ t).trans ?_)
        rw [← hnamed]
        constructor
        · intro hlacks
          exact ⟨name, hname, hlacks⟩
        · rintro ⟨other, hother, hlacks⟩
          rw [hname] at hother
          cases hother
          exact hlacks
      · intro hfails hnone
        have hsame : t = s := by
          rw [assignParts_eq_pure hnone] at hassign
          exact (congrArg Prod.snd hassign).symm
        have hafter := (perform_atomic verb (Invocation.ofParts parts)).after_of_fails (hiff.mp hfails)
        rw [Step.after, hrun]
        exact hafter.trans hsame

/-- `chown` fails without a group, and leaves what was done before. -/
theorem chown_without_group_fails :
    ∃ parts, parts = [Node.word "chown" [], .word "$U" [.parameter "U"], .word "/srv" []] ∧
      (∀ part ∈ parts, part.isPlainPart = true) ∧
      (∀ part ∈ parts, part.isAssignment = false) ∧
      (∃ f, (command (.command parts)).outcome {} = .error f) ∧
      (command (.command parts)).after {} = {} := by
  have hplain : ∀ part ∈ [Node.word "chown" [], .word "$U" [.parameter "U"], .word "/srv" []],
      part.isPlainPart = true := by decide
  refine ⟨_, rfl, hplain, by decide, ?_⟩
  obtain ⟨inv, hgather, hiff, hafter⟩ := command_fails_iff hplain {}
  have hinv : Invocation.ofParts [.word "chown" [], .word "$U" [.parameter "U"], .word "/srv" []]
      = inv := Except.ok.inj hgather
  have hlacks : LacksOperands "chown" inv.sorted.operands := by
    rw [← hinv]
    refine .inr (.inr ⟨rfl, .inr fun word hword => ?_⟩)
    cases hword
    decide
  have hfails := hiff.mpr ⟨"chown", hinv ▸ rfl, hlacks⟩
  exact ⟨hfails, hafter hfails (by decide)⟩

end Session

end Playscript
