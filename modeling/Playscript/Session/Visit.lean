import Playscript.Condition
import Playscript.Loop
import Playscript.Session.Perform
import Playscript.Shell.Script

/-! # Scripts become tasks

    A session goes through the trees of a script.  A command is done at once.  The
    commands in the body of an `if` are done and the tasks they add get a condition.  A
    `for` replays its body, and its parts are walked once more.

    What a walk asks for depends on the tree alone, so the walk is written for any way of
    doing what it asks; a session does it by `act`. -/

namespace Playscript.Session

open Shell (Node)

/-- The condition that the test of an `if` puts on the tasks of its body. -/
def guardText (lastRegister : Option String) (verdict : Verdict) : String :=
  if verdict.ofStatus then
    lastRegister.getD "None" ++ (if verdict.holds then " is succeeded" else " is failed")
  else verdict.shown

/-- Puts a condition on the tasks behind the first ones. -/
def guardFrom (count : Nat) (condition : String) (tasks : List Task) : List Task :=
  tasks.take count ++ (tasks.drop count).map (·.guard condition)

/-- Does the body of an `if` and puts its condition on the tasks that come of it. -/
def underCondition (condition : Condition) : Step Unit := do
  let s ← get
  condition.body.forM command
  match condition.verdict with
  | some verdict =>
    let text := guardText s.lastRegister verdict
    modify fun now => { now with tasks := guardFrom s.tasks.length text now.tasks }
  | none => pure ()

/-- What a walk through a tree asks for. -/
inductive Action where
  | perform (command : Node)
  /-- The body of an `if` under its condition. -/
  | guarded (condition : Condition)
  | assign (text : String)
deriving Repr, Inhabited

/-- Does what a walk asks for. -/
def act : Action → Step Unit
  | .perform tree => command tree
  | .guarded condition => underCondition condition
  | .assign text => assignText text

/-- What a walk asks for at each node. -/
def visitNode {m : Type → Type} [Monad m] [MonadExceptOf Failure m] (ask : Action → m Unit) :
    Node → m Unit → m Unit
  | .command parts, _ => ask (.perform (.command parts))
  | .branch parts, _ => do ask (.guarded (← ofExcept (Condition.read (.branch parts))))
  | .assignment text _, _ => ask (.assign text)
  | .forLoop parts, below => do
    let _ ← Loop.run (fun _ _ tree => ask (.perform tree)) (.forLoop parts)
    below
  | _, below => below

/-- Goes through a tree. -/
def visit (tree : Node) : Step Unit :=
  tree.walk (visitNode act)

/-- Reads a script and goes through its trees. -/
def runScript (script : String) : Step Unit := do
  (← Shell.readScript script).forM visit

/-- A session under the given settings. -/
def start (settings : Settings) : Session :=
  { settings := settings }

/-- Reads a script behind the assignments of its environment: how it went, and the session. -/
def ofScript (settings : Settings) (script : String) : Except Failure Unit × Session :=
  (runScript (settings.preamble ++ script)).run (start settings)

end Playscript.Session
