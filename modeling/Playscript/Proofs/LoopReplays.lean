import Playscript.Proofs.Bodies

/-! # Which commands a `for` replays

    A `for` names a variable, may give words behind `in`, may set a semicolon, and has its body
    between `do` and `done` or between braces.  Its replay should do each command of the body
    once for each word, in the order of the words and of the commands (`ForNode.turns`).

    The commands of a body are taken in behind `do` only, and the replay is set off by `done`
    only.  So a body between these keywords is replayed as it should be, whatever a replay does
    with a command (`ForNode.run_node`), and a body between braces is not replayed at all
    (`ForNode.replays_all_turns_iff`). -/

namespace Playscript

open Shell (Node)

namespace Loop

/-- A command that is done for a word of a loop. -/
structure Turn where
  varName : Option String
  word : String
  command : Node
deriving Repr, Inhabited

/-- A replay that only writes down what it is told to do. -/
abbrev Recording := StateT (List Turn) (Except Failure)

/-- Writes a turn down. -/
def note (varName : Option String) (word : String) (command : Node) : Recording Unit :=
  modify fun turns => turns ++ [⟨varName, word, command⟩]

/-- The turns that a tree is replayed in. -/
def recorded (tree : Node) : Except Failure (List Turn) := do
  let (_, turns) ← (run note tree).run []
  return turns

/-- The turns that a loop has at its end. -/
def turns (l : Loop) : List Turn :=
  l.words.flatMap fun word => l.body.map fun command => ⟨l.varName, word, command⟩

section Reading

variable {m : Type → Type} [Monad m] [LawfulMonad m]
  (call : Option String → String → Node → m Unit)

/-- A replay does its turns one after the other. -/
theorem replay_eq_forM_turns (l : Loop) :
    replay call l = l.turns.forM fun turn => call turn.varName turn.word turn.command := by
  unfold replay turns
  simp only [List.forM_eq_forM]
  induction l.words with
  | nil => rfl
  | cons word rest ih =>
      rw [List.flatMap_cons, List.forM_append, List.forM_cons, List.forM_map, ih]

variable [MonadExceptOf Failure m]

/-- Anywhere but behind `do`, the commands of a body are passed over. -/
theorem run_commands_elsewhere {body : Node} {commands : List Node}
    (hbody : body.simpleCommands? = some commands) (l : Loop) (hdo : l.keyword ≠ some "do") :
    (body.walk (visit call)).run l = pure ((), l) := by
  have hwalk : body.walk (visit call) = commands.forM fun command =>
      modify fun l => if l.keyword = some "do" then { l with body := l.body ++ [command] } else l :=
    Node.walk_simple (fun _ _ => rfl) (fun _ _ => rfl) (fun _ _ => rfl) body commands hbody
  rw [hwalk]
  clear hwalk hbody
  induction commands with
  | nil => simp
  | cons command rest ih =>
      rw [List.forM_eq_forM, List.forM_cons, run_seq_of_pure (StateT.run_modify ..), if_neg hdo]
      exact ih

end Reading

end Loop

/-! ## A `for` in all its forms -/

/-- A `for` with plain words and a body of simple commands, as a script can write it. -/
structure ForNode where
  name : String
  /-- The words behind `in`, if it stands there. -/
  given : Option (List String)
  semicolon : Bool
  /-- Whether braces stand around the body in place of `do` and `done`. -/
  braced : Bool
  body : Node
  /-- The commands of the body. -/
  commands : List Node
  simple : body.simpleCommands? = some commands

namespace ForNode

open Loop (Turn)

variable (f : ForNode)

/-- The words that the loop goes through. -/
def words : List String :=
  f.given.getD []

/-- The keyword in front of the body. -/
def opening : String :=
  if f.braced then "\x7b" else "do"

/-- The keyword behind the body. -/
def closing : String :=
  if f.braced then "\x7d" else "done"

/-- What stands in front of the body. -/
def heading : List Node :=
  Node.forHeading f.name f.given f.semicolon

def node : Node :=
  .forLoop (f.heading ++ [.reserved f.opening, f.body, .reserved f.closing])

/-- Each command for each word: first all commands for the first word. -/
def turns : List Turn :=
  f.words.flatMap fun word => f.commands.map fun command => ⟨some f.name, word, command⟩

/-- What a reading has taken in when it comes to the body. -/
def entered : Loop where
  keyword := some f.opening
  varName := some f.name
  words := f.words

/-- What a reading has taken in at the end. -/
def taken : Loop where
  keyword := some f.closing
  varName := some f.name
  words := f.words
  body := if f.braced then [] else f.commands

theorem length_turns : f.turns.length = f.words.length * f.commands.length := by
  unfold turns
  induction f.words with
  | nil => simp
  | cons word rest ih =>
      rw [List.flatMap_cons, List.length_append, List.length_map, ih, List.length_cons,
        Nat.succ_mul, Nat.add_comm]

theorem turns_taken : f.taken.turns = if f.braced then [] else f.turns := by
  cases hbraced : f.braced with
  | true => simp [taken, Loop.turns, hbraced]
  | false => simp [taken, Loop.turns, turns, hbraced]

section Reading

variable {m : Type → Type} [Monad m] [LawfulMonad m] [MonadExceptOf Failure m]
  (call : Option String → String → Node → m Unit)

/-- Between `do` and `done` the body is taken in and replayed, between braces it is not. -/
theorem run_body :
    (Node.walkAll (Loop.visit call) [f.body, .reserved f.closing]).run f.entered = (do
      f.taken.turns.forM fun turn => call turn.varName turn.word turn.command
      pure ((), f.taken)) := by
  simp only [Node.walkAll]
  cases hbraced : f.braced with
  | true =>
      have hopening : f.entered.keyword ≠ some "do" := by
        show some f.opening ≠ some "do"
        rw [opening, hbraced]
        decide
      have hclosing : f.closing ≠ "done" := by
        rw [closing, hbraced]
        decide
      have hbody := Loop.run_commands_elsewhere call f.simple f.entered hopening
      have hclose := Loop.run_reserved call f.closing hclosing f.entered
      have hnone : f.taken.turns = [] := by rw [turns_taken, hbraced, if_pos rfl]
      have htaken : f.taken = { f.entered with keyword := some f.closing } := by
        rw [taken, hbraced, if_pos rfl, entered]
      refine (run_seq_of_pure hbody _).trans ((run_seq_of_pure hclose _).trans ?_)
      rw [hnone, htaken]
      simp
  | false =>
      have hopening : f.entered.keyword = some "do" := by
        rw [entered, opening, hbraced, if_neg Bool.false_ne_true]
      have hclosing : f.closing = "done" := by rw [closing, hbraced, if_neg Bool.false_ne_true]
      have hbody := Loop.run_commands call f.simple f.entered hopening
      have htaken : f.taken = { keyword := some "done", varName := some f.name
                                words := f.words, body := f.commands } := by
        rw [taken, hbraced, if_neg Bool.false_ne_true, hclosing]
      rw [hclosing, htaken, ← Loop.replay_eq_forM_turns]
      refine (run_seq_of_pure hbody _).trans ?_
      simp [Loop.run_done, entered]

/-- **A `for` is its turns**: the ones that it takes in are done one after the other, and nothing
    else is. -/
theorem run_node : Loop.run call f.node = (do
    f.taken.turns.forM fun turn => call turn.varName turn.word turn.command
    pure f.taken) := by
  obtain ⟨keyword, hheading⟩ := Loop.run_forHeading call f.name f.given f.semicolon {}
  have hopening : f.opening ≠ "done" := by
    unfold opening
    cases f.braced <;> decide
  have hopen := Loop.run_reserved call f.opening hopening { f.entered with keyword := keyword }
  have hwalk : (f.node.walk (Loop.visit call)).run {}
      = (Node.walkAll (Loop.visit call) [f.body, .reserved f.closing]).run f.entered := by
    show (Node.walkAll (Loop.visit call) (f.heading ++ _)).run {} = _
    rw [Node.walkAll_append]
    refine (run_seq_of_pure hheading _).trans ?_
    rw [Node.walkAll]
    exact run_seq_of_pure hopen _
  rw [Loop.run, hwalk, run_body]
  simp

end Reading

/-- Written down, the turns of a `for` are those that it takes in. -/
theorem recorded_node : Loop.recorded f.node = .ok f.taken.turns := by
  have hnoted : ∀ (turns done : List Turn),
      ((turns.forM fun turn => Loop.note turn.varName turn.word turn.command).run done)
        = .ok ((), done ++ turns) := by
    intro turns
    induction turns with
    | nil => intro done; rw [List.append_nil]; rfl
    | cons turn rest ih =>
        intro done
        have hrest := ih (done ++ [turn])
        rw [List.append_assoc] at hrest
        exact hrest
  rw [Loop.recorded, run_node, StateT.run_bind, hnoted]
  rfl

/-- **A `for` replays each command for each word exactly if its body stands between `do` and
    `done`.**  There are as many turns as words times commands.  In every monad, reading a `for` is
    doing some turns in their order, for the variable that it names, and nothing else.  Written
    down, these are all turns if and only if there are no braces around the body, or there is
    nothing to replay; between braces there are none. -/
theorem replays_all_turns_iff :
    f.turns.length = f.words.length * f.commands.length ∧
    (∃ done : List Turn, Loop.recorded f.node = .ok done ∧
      ∀ {m : Type → Type} [Monad m] [LawfulMonad m] [MonadExceptOf Failure m]
        (call : Option String → String → Node → m Unit),
        Loop.run call f.node = (do
          done.forM fun turn => call turn.varName turn.word turn.command
          pure f.taken)) ∧
    (Loop.recorded f.node = .ok f.turns ↔ f.braced = false ∨ f.words = [] ∨ f.commands = []) ∧
    (f.braced = true → Loop.recorded f.node = .ok []) := by
  refine ⟨f.length_turns, ⟨f.taken.turns, f.recorded_node, fun call => f.run_node call⟩, ?_, ?_⟩
  · rw [recorded_node, turns_taken, Except.ok.injEq]
    cases f.braced with
    | false => simp
    | true =>
        -- without a turn there is no word or no command
        rw [if_pos rfl, eq_comm, ← List.length_eq_zero_iff, length_turns, Nat.mul_eq_zero,
          List.length_eq_zero_iff, List.length_eq_zero_iff]
        simp
  · intro hbraced
    rw [recorded_node, turns_taken, hbraced, if_pos rfl]

/-- `for s in a b; { touch /x; }` -/
def bracedTouch : ForNode where
  name := "s"
  given := some ["a", "b"]
  semicolon := true
  braced := true
  body := .list [.command [.word "touch" [], .word "/x" []], .operator ";"]
  commands := [.command [.word "touch" [], .word "/x" []]]
  simple := rfl

/-- A body between braces is not replayed, though there are two turns. -/
theorem bracedTouch_not_replayed :
    bracedTouch.turns.length = 2 ∧ Loop.recorded bracedTouch.node ≠ .ok bracedTouch.turns := by
  obtain ⟨hlength, -, hall, -⟩ := bracedTouch.replays_all_turns_iff
  refine ⟨hlength, fun heq => ?_⟩
  rcases hall.mp heq with hbraced | hwords | hcommands
  · cases hbraced
  · cases hwords
  · cases hcommands

end ForNode

end Playscript
