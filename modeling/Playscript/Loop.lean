import Playscript.Shell.Tree

/-! # Loops

    A `for` is read on a walk through the tree: the word behind `for` names the
    variable, the words behind `in` are what it goes through, the commands behind `do`
    are the body.  At each `done` the body is replayed once for every word; what a
    replay of a command does is left to a function given from outside. -/

namespace Playscript

open Shell (Node)

/-- What has been read of a `for`. -/
structure Loop where
  /-- The last keyword. -/
  keyword : Option String := none
  varName : Option String := none
  words : List String := []
  /-- The commands of the body. -/
  body : List Node := []
deriving Repr, Inhabited

namespace Loop

variable {m : Type → Type} [Monad m] [MonadExceptOf Failure m]

/-- Replays the body for every word: `call` gets the variable, the word and the command. -/
def replay (call : Option String → String → Node → m Unit) (l : Loop) : m Unit :=
  l.words.forM fun word => l.body.forM fun command => call l.varName word command

/-- Takes a word in. -/
def takeWord (l : Loop) (word : String) : Loop :=
  if l.keyword = some "for" then { l with varName := some word }
  else if l.keyword = some "in" then { l with words := l.words ++ [word] }
  else l

/-- What the walk does at each node. -/
def visit (call : Option String → String → Node → m Unit) :
    Node → StateT Loop m Unit → StateT Loop m Unit
  | .reserved text, _ => do
    modify fun l => { l with keyword := some text }
    if text = "done" then StateT.lift (replay call (← get))
  | .command parts, _ =>
    modify fun l =>
      if l.keyword = some "do" then { l with body := l.body ++ [.command parts] } else l
  | .word text _, below => do
    modify fun l => l.takeWord text
    below
  | _, below => below

/-- Reads a tree as a `for`, replaying its body on the way. -/
def run (call : Option String → String → Node → m Unit) (tree : Node) : m Loop := do
  let (_, l) ← (tree.walk (visit call)).run {}
  return l

end Loop

end Playscript
