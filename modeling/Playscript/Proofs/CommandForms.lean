import Playscript.Proofs.LineMeanings
import Playscript.Proofs.LoggedCalls

/-! # Commands as words and as one text

    A script can hand a command over as one text or word by word.  One text is cut into its
    words, and words joined with blanks are what their text is cut into (`Text.words_intercalate`).
    Of a command that is handed over word by word only the first word is cut, and the others are
    lost.  So the two forms come to the same tasks exactly if there are no others
    (`listed_eq_joined_iff`). -/

namespace Playscript

open Line (IsWord)

namespace Text

/-- Characters that are no blanks belong to the word that is being read. -/
theorem wordsFrom_append {w : List Char} (h : ∀ c ∈ w, isBlank c = false) (rest : List Char) :
    ∀ word : List Char, wordsFrom word (w ++ rest) = wordsFrom (w.reverse ++ word) rest := by
  induction w with
  | nil => intro word; rfl
  | cons c more ih =>
      intro word
      obtain ⟨hc, hmore⟩ := List.forall_mem_cons.mp h
      rw [List.cons_append, wordsFrom, hc, if_neg Bool.false_ne_true, ih hmore, List.reverse_cons,
        List.append_assoc]
      rfl

/-- A word is read up to a blank. -/
theorem wordsOf_word_blank {w : List Char} (hw : IsWord w) {c : Char} (hc : isBlank c = true)
    (rest : List Char) : wordsOf (w ++ c :: rest) = w :: wordsOf rest := by
  have hne : w.reverse.isEmpty = false := by simpa using hw.ne_nil
  rw [wordsOf, wordsFrom_append hw.no_blank, List.append_nil, wordsFrom, if_pos hc, hne,
    if_neg Bool.false_ne_true, List.reverse_reverse]
  rfl

theorem wordsOf_word {w : List Char} (hw : IsWord w) : wordsOf w = [w] := by
  have hne : w.reverse.isEmpty = false := by simpa using hw.ne_nil
  have hread := wordsFrom_append hw.no_blank [] []
  rw [List.append_nil, List.append_nil] at hread
  rw [wordsOf, hread, wordsFrom, hne, if_neg Bool.false_ne_true, List.reverse_reverse]

/-- Words with blanks between them are read back. -/
theorem words_intercalate {ws : List String} (h : ∀ w ∈ ws, IsWord w.toList) :
    words (" ".intercalate ws) = ws := by
  induction ws with
  | nil => rfl
  | cons w rest ih =>
      obtain ⟨hw, hrest⟩ := List.forall_mem_cons.mp h
      cases rest with
      | nil => simp [words, wordsOf_word hw]
      | cons next more =>
          have htext : (" ".intercalate (w :: next :: more)).toList
              = w.toList ++ ' ' :: (" ".intercalate (next :: more)).toList := by
            rw [String.intercalate_cons_cons]
            simp
          rw [words, htext, wordsOf_word_blank hw (by decide), List.map_cons, String.ofList_toList]
          exact congrArg (w :: ·) (ih hrest)

end Text

namespace Perl

/-! ## The tasks of a command -/

namespace Operation

/-- The entry of a command says what its first argument says. -/
theorem ofValue_command {call : List String → LoggedCall}
    (hcall : call = .system ∨ call = .exec) {arguments : List String} {item : Value}
    (h : (call arguments).LoggedAs item) :
    ofValue item = commandOf (.list (arguments.map .text)) := by
  obtain ⟨entry, rfl, hfields⟩ := h
  have hfield : ∀ field ∈ (call arguments).fields, entry.field field.1 = field.2 := by
    intro field hmem
    rw [Entries.field, hfields field hmem]
    rfl
  show ofEntries entry = _
  rcases hcall with rfl | rfl
  all_goals
    simp only [LoggedCall.fields, List.forall_mem_cons] at hfield
    simp only [ofEntries, hfield, Value.text?]

/-- A command without words behind it is run as it stands. -/
theorem ranTask_nil (command : String) : ranTask command [] = commandTask command [] := by
  unfold ranTask
  split
  · next h => cases h
  · next h => cases h
  · next h => cases h
  · rfl

/-- The task of a command shows its words. -/
theorem commandTask_inj {command other : String} {arguments others : List String}
    (h : commandTask command arguments = commandTask other others) :
    " ".intercalate (command :: arguments) = " ".intercalate (other :: others) := by
  have htext : some (Value.text (" ".intercalate (command :: arguments)))
      = some (Value.text (" ".intercalate (other :: others))) :=
    congrArg (fun task : Task => (task.fields.map Prod.snd)[1]?) h
  injection htext with htext
  injection htext with htext
  injection htext

/-- With a word behind it a command comes to another task than without. -/
theorem commandTask_ne_ranTask_cons (command word : String) (rest : List String) :
    commandTask command [] ≠ ranTask command (word :: rest) := by
  intro heq
  have hkeys : ∀ {task : Task}, commandTask command [] = task →
      task.fields.map Prod.fst = [.text "name", .text "ansible.builtin.command"] := by
    rintro _ rfl
    rfl
  unfold ranTask at heq
  -- the tasks of their own have other keys, and all others show the word
  split at heq
  · exact absurd (hkeys heq) (show [Scalar.text "name", .text "ansible.builtin.file"] ≠ _ by decide)
  · exact absurd (hkeys heq) (show [Scalar.text "name", .text "ansible.builtin.file"] ≠ _ by decide)
  · exact absurd (hkeys heq)
      (show [Scalar.text "name", .text "ansible.builtin.command", .text "args"] ≠ _ by decide)
  · have hlength := congrArg String.length (commandTask_inj heq)
    rw [String.intercalate_cons_cons, String.intercalate_singleton, String.length_append,
      String.length_append] at hlength
    have hblank : " ".length = 1 := rfl
    omega

end Operation

/-! ## Commands in a log -/

/-- A log is read part by part; where one cannot be read, the parts behind it do not matter. -/
theorem tasksOfItems_append_eq (items more : List Value) :
    tasksOfItems (items ++ more) = (do
      let tasks ← tasksOfItems items
      let others ← tasksOfItems more
      return tasks ++ others) := by
  induction items with
  | nil =>
      show tasksOfItems more = (do return [] ++ (← tasksOfItems more))
      cases tasksOfItems more with
      | error f => rfl
      | ok others => rfl
  | cons item rest ih =>
      rw [List.cons_append, tasksOfItems, tasksOfItems, ih]
      cases Operation.ofValue item with
      | error f => rfl
      | ok operation =>
          cases tasksOfItems rest with
          | error f => rfl
          | ok later =>
              cases tasksOfItems more with
              | error f => rfl
              | ok others => exact congrArg Except.ok (List.append_assoc _ _ _).symm

/-- The tasks of a log are those of its parts. -/
theorem tasksOfItems_append {items more : List Value} {tasks others : List Task}
    (h : tasksOfItems items = .ok tasks) (hmore : tasksOfItems more = .ok others) :
    tasksOfItems (items ++ more) = .ok (tasks ++ others) := by
  rw [tasksOfItems_append_eq, h, hmore]
  rfl

/-- A command comes to its task, wherever in a log it stands. -/
theorem tasksOfLog_command {call : List String → LoggedCall}
    (hcall : call = .system ∨ call = .exec) {first command : String} {more others : List String}
    (hfirst : Text.words first = command :: more) {item : Value}
    (hitem : (call (first :: others)).LoggedAs item) {before behind : List Value}
    {earlier later : List Task} (hbefore : tasksOfItems before = .ok earlier)
    (hbehind : tasksOfItems behind = .ok later) :
    tasksOfLog (.list (before ++ item :: behind))
      = .ok (earlier ++ Operation.ranTask command more :: later) := by
  have hread : Operation.ofValue item = .ok (.ran command more) := by
    rw [Operation.ofValue_command hcall hitem, List.map_cons, Operation.commandOf_words hfirst]
  have hrest : tasksOfItems (item :: behind) = .ok (Operation.ranTask command more :: later) := by
    rw [tasksOfItems, hread, hbehind]
    rfl
  exact tasksOfItems_append hbefore hrest

/-- **A command that is handed over word by word is not the command that is handed over as one
    text**, unless it is a single word.  Wherever it stands in a log that can be read, the
    first of its words is run without the others, while the text is cut into all words; so the
    tasks of the log are the same exactly if there are no others. -/
theorem listed_eq_joined_iff {call : List String → LoggedCall}
    (hcall : call = .system ∨ call = .exec) {command : String} {rest : List String}
    (hwords : ∀ word ∈ command :: rest, IsWord word.toList) {listed joined : Value}
    (hlisted : (call (command :: rest)).LoggedAs listed)
    (hjoined : (call [" ".intercalate (command :: rest)]).LoggedAs joined)
    {before behind : List Value} {earlier later : List Task}
    (hbefore : tasksOfItems before = .ok earlier) (hbehind : tasksOfItems behind = .ok later) :
    tasksOfLog (.list (before ++ listed :: behind))
      = .ok (earlier ++ Operation.commandTask command [] :: later) ∧
    tasksOfLog (.list (before ++ joined :: behind))
      = .ok (earlier ++ Operation.ranTask command rest :: later) ∧
    (tasksOfLog (.list (before ++ listed :: behind))
        = tasksOfLog (.list (before ++ joined :: behind)) ↔ rest = []) := by
  have hfirst : Text.words command = [command] := by
    simpa using Text.words_intercalate (List.forall_mem_singleton.mpr (hwords command (by simp)))
  have htext : Text.words (" ".intercalate (command :: rest)) = command :: rest :=
    Text.words_intercalate hwords
  have hleft := tasksOfLog_command hcall hfirst hlisted hbefore hbehind
  have hright := tasksOfLog_command hcall htext hjoined hbefore hbehind
  rw [Operation.ranTask_nil] at hleft
  refine ⟨hleft, hright, ?_⟩
  rw [hleft, hright]
  constructor
  · intro heq
    cases rest with
    | nil => rfl
    | cons word others =>
        injection heq with heq
        have htasks := List.append_cancel_left heq
        exact absurd (List.cons.inj htasks).1 (Operation.commandTask_ne_ranTask_cons _ _ _)
  · rintro rfl
    rw [Operation.ranTask_nil]

/-- `system("mkdir", "/srv/new")` does not come to the task of `system("mkdir /srv/new")`. -/
theorem listed_mkdir_not_joined :
    ∃ listed joined, (LoggedCall.system ["mkdir", "/srv/new"]).LoggedAs listed ∧
      (LoggedCall.system [" ".intercalate ["mkdir", "/srv/new"]]).LoggedAs joined ∧
      tasksOfLog (.list [listed]) ≠ tasksOfLog (.list [joined]) := by
  have hlogged : ∀ arguments, (LoggedCall.system arguments).LoggedAs
      (record [("args", .list (arguments.map .text)), ("type", .text "system_call")]) := by
    intro arguments
    exact ⟨_, rfl, by simp [LoggedCall.fields, Entries.field?, Entries.get?]⟩
  refine ⟨_, _, hlogged _, hlogged _, fun heq => ?_⟩
  have hblank : ∀ word ∈ ["mkdir", "/srv/new"],
      word.toList ≠ [] ∧ word.toList.any Text.isBlank = false := by decide
  have hwords : ∀ word ∈ ["mkdir", "/srv/new"], IsWord word.toList := by
    intro word hword
    obtain ⟨hnil, hany⟩ := hblank word hword
    exact ⟨hnil, fun c hc => Bool.eq_false_iff.mpr (List.any_eq_false.mp hany c hc)⟩
  have hiff := (listed_eq_joined_iff (.inl rfl) hwords (hlogged _) (hlogged _)
    (show tasksOfItems [] = .ok [] from rfl) (show tasksOfItems [] = .ok [] from rfl)).2.2
  exact absurd (hiff.mp heq) (by decide)

end Perl

end Playscript
