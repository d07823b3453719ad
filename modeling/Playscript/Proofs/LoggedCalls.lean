import Mathlib.Data.List.Forall2
import Playscript.Perl.Operation

/-! # Logs that can be read

    An instrumented script logs each call as a mapping, in no order of its keys.  A log is read
    entry by entry, and one entry that cannot be read spoils the whole log
    (`tasksOfItems_ok_iff`).  Of the calls that the instrumentation logs, few can: a file opened
    without a mode, a command that is blank, a directory made with a mode that is a text, and a
    task whose description is no description.  All other logs give tasks
    (`tasksOfLog_ok_iff_no_fatal_call`). -/

namespace Playscript

namespace Text

/-- There are no words exactly if there is nothing but blanks, and no word has been begun. -/
theorem wordsFrom_eq_nil_iff (cs : List Char) :
    ∀ word : List Char, wordsFrom word cs = [] ↔ word = [] ∧ cs.all isBlank = true := by
  induction cs with
  | nil =>
      intro word
      cases word <;> simp [wordsFrom]
  | cons c rest ih =>
      intro word
      by_cases hc : isBlank c = true
      · cases word with
        | nil => simp [wordsFrom, hc, ih]
        | cons d word => simp [wordsFrom, hc]
      · simp [wordsFrom, hc, ih]

/-- A text has no words exactly if it is blank. -/
theorem words_eq_nil_iff (text : String) : words text = [] ↔ text.toList.all isBlank = true := by
  rw [words, List.map_eq_nil_iff, wordsOf, wordsFrom_eq_nil_iff]
  simp

end Text

namespace Perl

/-! ## Calls -/

/-- The mode of a directory, as it is logged. -/
inductive LoggedMode where
  | absent
  | number (n : Int)
  | text (s : String)
deriving Repr, Inhabited

def LoggedMode.toValue : LoggedMode → Value
  | .absent => .null
  | .number n => .int n
  | .text s => .text s

/-- A call, as the instrumentation logs it. -/
inductive LoggedCall where
  | opened (file mode : Option String)
  | closed (handle : Value)
  | renamed (source destination : Value)
  | deleted (files : List String)
  | system (arguments : List String)
  | exec (arguments : List String)
  | madeDirectory (path : Value) (mode : LoggedMode)
  | removedDirectory (path : Value)
  /-- A function of a package; of the arguments of a copy the first two are logged. -/
  | external (package method : String) (arguments : List Value)
      (twoEnds : package = "File::Copy" → method = "copy" → arguments.length = 2)
  | loaded (package : Value)
  /-- A task that the script describes. -/
  | custom (description : Entries)

namespace LoggedCall

/-- A text, or nothing. -/
def optional (s : Option String) : Value :=
  (s.map Value.text).getD .null

/-- The keys under which a call is logged, with their values. -/
def fields : LoggedCall → List (String × Value)
  | .opened file mode =>
    [("type", .text "file_open"), ("file", optional file), ("mode", optional mode)]
  | .closed handle => [("type", .text "file_close"), ("fh", handle)]
  | .renamed source destination =>
    [("type", .text "file_rename"), ("from", source), ("to", destination)]
  | .deleted files => [("type", .text "file_delete"), ("files", .list (files.map .text))]
  | .system arguments => [("type", .text "system_call"), ("args", .list (arguments.map .text))]
  | .exec arguments => [("type", .text "exec_call"), ("args", .list (arguments.map .text))]
  | .madeDirectory path mode =>
    [("type", .text "mkdir"), ("dir", path), ("mode", mode.toValue)]
  | .removedDirectory path => [("type", .text "rmdir"), ("dir", path)]
  | .external package method arguments _ =>
    [("type", .text "external_call"), ("module", .text package), ("method", .text method),
     ("args", .list arguments)]
  | .loaded package => [("type", .text "module_load"), ("module", package)]
  | .custom description => [("type", .text "custom"), ("data", .map description)]

/-- An item of a log is the entry of a call: a mapping with all keys of the call, in any order. -/
def LoggedAs (call : LoggedCall) (item : Value) : Prop :=
  ∃ entry : Entries, item = .map entry ∧ ∀ field ∈ call.fields, entry.field? field.1 = some field.2

/-- Whether a description says what a task is: a module under a single key, and a mapping of what
    is laid over it. -/
def describesTask (description : Entries) : Bool :=
  match description.field "task", Operation.fieldOr description "params" (.map []) with
  | .scalar _, .map _ => true
  | _, _ => false

/-- Whether nothing can be made of a call. -/
def isFatal : LoggedCall → Bool
  | .opened _ mode => mode.isNone
  | .system arguments | .exec arguments =>
    match arguments with
    | first :: _ => first.toList.all Text.isBlank
    | [] => false
  | .madeDirectory _ mode =>
    match mode with
    | .text s => s != ""
    | .absent | .number _ => false
  | .custom description => !describesTask description
  | _ => false

end LoggedCall

/-! ## Reading one entry -/

namespace Operation

theorem isOk_map {α β : Type} (x : Except Failure α) (f : α → β) : (x.map f).isOk = x.isOk := by
  cases x <;> rfl

theorem isOk_bind_pure {α β : Type} (x : Except Failure α) (f : α → β) :
    (x >>= fun a => pure (f a)).isOk = x.isOk := by
  cases x <;> rfl

/-- The mode of a file can be read if there is one. -/
theorem isOk_openMode (mode : Option String) :
    (openMode (LoggedCall.optional mode)).isOk = mode.isSome := by
  cases mode <;> rfl

/-- The mode of a directory can be read unless it is a text. -/
theorem isOk_directoryMode (path : Value) (mode : LoggedMode) :
    (directoryMode mode.toValue).isOk = !(LoggedCall.madeDirectory path mode).isFatal := by
  cases mode with
  | absent => rfl
  | number n =>
      by_cases hn : n = 0 <;>
        simp [directoryMode, LoggedMode.toValue, Value.isTruthy, Scalar.isTruthy, hn,
          LoggedCall.isFatal, Except.isOk, Except.toBool]
  | text s =>
      by_cases hs : s = "" <;>
        simp [directoryMode, LoggedMode.toValue, Value.isTruthy, Scalar.isTruthy, hs,
          LoggedCall.isFatal, Except.isOk, Except.toBool]

theorem commandOf_blank {first : String} (h : Text.words first = []) (rest : List Value) :
    commandOf (.list (.text first :: rest)) = .error .missingOperand := by
  simp [commandOf, Value.isTruthy, firstArgument, bind, Except.bind, h, throw, throwThe,
    MonadExceptOf.throw]

theorem commandOf_words {first command : String} {more : List String}
    (h : Text.words first = command :: more) (rest : List Value) :
    commandOf (.list (.text first :: rest)) = .ok (.ran command more) := by
  simp [commandOf, Value.isTruthy, firstArgument, bind, Except.bind, h, pure, Except.pure]

/-- A command can be read if there is none or the first of its arguments is not blank. -/
theorem isOk_commandOf (arguments : List String) :
    (commandOf (.list (arguments.map .text))).isOk = !(LoggedCall.system arguments).isFatal := by
  cases arguments with
  | nil => rfl
  | cons first rest =>
      have hwords := Text.words_eq_nil_iff first
      show _ = !(first.toList.all Text.isBlank)
      cases hcommand : Text.words first with
      | nil =>
          rw [hwords.mp hcommand, List.map_cons, commandOf_blank hcommand]
          rfl
      | cons command more =>
          have hblank : first.toList.all Text.isBlank = false := by
            rw [← Bool.not_eq_true, ← hwords, hcommand]
            exact List.cons_ne_nil _ _
          rw [hblank, List.map_cons, commandOf_words hcommand]
          rfl

theorem isOk_copyOf {arguments : List Value} (h : arguments.length = 2) :
    (copyOf (.list arguments)).isOk = true := by
  obtain ⟨source, destination, rfl⟩ := List.length_eq_two.mp h
  rfl

/-- A function of a package can be read whatever it is, since a copy has its two ends. -/
theorem isOk_callOf {entry : Entries} {package method : String} {arguments : List Value}
    (hpackage : entry.field "module" = .text package)
    (hmethod : entry.field "method" = .text method)
    (harguments : entry.field? "args" = some (.list arguments))
    (twoEnds : package = "File::Copy" → method = "copy" → arguments.length = 2) :
    (callOf entry).isOk = true := by
  unfold callOf
  rw [hpackage, hmethod]
  simp only [fieldOr, harguments, Value.text?, Option.getD_some]
  split
  · next hp hm => exact isOk_copyOf (twoEnds (Option.some.inj hp) (Option.some.inj hm))
  · rfl
  · rfl
  · rfl

/-- An entry of a task is understood exactly if it describes one. -/
theorem isOk_customOf {entry description : Entries}
    (h : entry.field "data" = .map description) :
    (customOf entry).isOk = LoggedCall.describesTask description := by
  simp only [customOf, h, LoggedCall.describesTask]
  cases description.field "task" <;>
    cases fieldOr description "params" (.map []) <;> rfl

/-- **An entry can be read exactly if its call is not fatal.** -/
theorem isOk_ofValue {call : LoggedCall} {item : Value} (h : call.LoggedAs item) :
    (ofValue item).isOk = !call.isFatal := by
  obtain ⟨entry, rfl, hfields⟩ := h
  have hfield : ∀ field ∈ call.fields, entry.field field.1 = field.2 := by
    intro field hmem
    rw [Entries.field, hfields field hmem]
    rfl
  show (ofEntries entry).isOk = _
  cases call <;> simp only [LoggedCall.fields, List.forall_mem_cons] at hfields hfield
  case opened file mode =>
      simp only [ofEntries, hfield, hfields, Value.text?, fieldOr, Option.getD_some,
        isOk_bind_pure, isOk_openMode, LoggedCall.isFatal]
      cases mode <;> rfl
  case madeDirectory path mode =>
      simp only [ofEntries, hfield, Value.text?, isOk_bind_pure, isOk_directoryMode path]
  case deleted files =>
      simp only [ofEntries, hfield, hfields, Value.text?, fieldOr, isOk_map]
      rfl
  case system arguments =>
      simp only [ofEntries, hfield, Value.text?, isOk_commandOf]
  case exec arguments =>
      simp only [ofEntries, hfield, Value.text?, isOk_commandOf]
      rfl
  case external package method arguments twoEnds =>
      simp only [ofEntries, hfield, Value.text?]
      exact isOk_callOf hfield.2.1 hfield.2.2.1 hfields.2.2.2.1 twoEnds
  case custom description =>
      simp only [ofEntries, hfield, Value.text?, isOk_customOf hfield.2.1, LoggedCall.isFatal,
        Bool.not_not]
  all_goals
    simp only [ofEntries, hfield, Value.text?]
    rfl

end Operation

/-! ## Reading a log -/

/-- A log can be read exactly if each of its entries can. -/
theorem isOk_tasksOfItems (items : List Value) :
    (tasksOfItems items).isOk = items.all fun item => (Operation.ofValue item).isOk := by
  induction items with
  | nil => rfl
  | cons item rest ih =>
      rw [List.all_cons, ← ih, tasksOfItems]
      cases Operation.ofValue item with
      | error f => rfl
      | ok operation => exact Operation.isOk_bind_pure (tasksOfItems rest) _

/-- A log is understood exactly if none of the calls in it is fatal. -/
theorem isOk_tasksOfItems_logged {calls : List LoggedCall} {items : List Value}
    (h : List.Forall₂ LoggedCall.LoggedAs calls items) :
    (tasksOfItems items).isOk = calls.all fun call => !call.isFatal := by
  rw [isOk_tasksOfItems]
  induction h with
  | nil => rfl
  | cons hcall _ ih => rw [List.all_cons, List.all_cons, ih, Operation.isOk_ofValue hcall]

/-- **A log gives tasks exactly if no call in it is fatal**: if no file is opened without a mode,
    no command starts with a blank argument, no directory is made with a mode that is a text, and
    every description is that of a task. -/
theorem tasksOfLog_ok_iff_no_fatal_call {calls : List LoggedCall} {items : List Value}
    (h : List.Forall₂ LoggedCall.LoggedAs calls items) :
    (∃ tasks, tasksOfLog (.list items) = .ok tasks) ↔ ∀ call ∈ calls, call.isFatal = false := by
  have hok : (∃ tasks, tasksOfLog (.list items) = .ok tasks) ↔ (tasksOfItems items).isOk = true := by
    show (∃ tasks, tasksOfItems items = .ok tasks) ↔ _
    cases tasksOfItems items with
    | error f => simp [Except.isOk, Except.toBool]
    | ok tasks => simp [Except.isOk, Except.toBool]
  rw [hok, isOk_tasksOfItems_logged h, List.all_eq_true]
  simp only [Bool.not_eq_true']

/-- A blank command takes with it the directory that was removed before. -/
theorem blank_command_spoils_log :
    List.Forall₂ LoggedCall.LoggedAs
      [.removedDirectory (.text "/srv/old"), .system [" "]]
      [record [("dir", .text "/srv/old"), ("type", .text "rmdir")],
       record [("args", .list [.text " "]), ("type", .text "system_call")]] ∧
    ¬ ∃ tasks, tasksOfLog (.list
      [record [("dir", .text "/srv/old"), ("type", .text "rmdir")],
       record [("args", .list [.text " "]), ("type", .text "system_call")]]) = .ok tasks := by
  have h : List.Forall₂ LoggedCall.LoggedAs
      [.removedDirectory (.text "/srv/old"), .system [" "]]
      [record [("dir", .text "/srv/old"), ("type", .text "rmdir")],
       record [("args", .list [.text " "]), ("type", .text "system_call")]] :=
    .cons ⟨_, rfl, by simp [LoggedCall.fields, Entries.field?, Entries.get?]⟩
      (.cons ⟨_, rfl, by simp [LoggedCall.fields, Entries.field?, Entries.get?]⟩ .nil)
  refine ⟨h, fun hread => ?_⟩
  have hfatal := (tasksOfLog_ok_iff_no_fatal_call h).mp hread (.system [" "]) (by simp)
  exact absurd hfatal (by decide)

end Perl

end Playscript
