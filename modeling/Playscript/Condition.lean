import Playscript.Shell.Tree

/-! # Conditions

    The test of an `if` is read on a walk through the tree: behind `if`, the words
    that are no brackets are a left side, one of six comparisons and a right side.  At
    each `then` the test is settled.  A side `$?` asks for the status of the last
    command, which is taken to be `0`.  The commands behind `then` are the body. -/

namespace Playscript

open Shell (Node)

/-- A comparison of a test. -/
inductive Comparison where
  | equal | unequal | less | lessOrEqual | greater | greaterOrEqual
deriving DecidableEq, Repr, Inhabited

namespace Comparison

/-- The comparison that a word stands for. -/
def ofWord? : String → Option Comparison
  | "-eq" => some .equal
  | "-ne" => some .unequal
  | "-lt" => some .less
  | "-le" => some .lessOrEqual
  | "-gt" => some .greater
  | "-ge" => some .greaterOrEqual
  | _ => none

/-- The sign of a comparison. -/
def sign : Comparison → String
  | .equal => "=="
  | .unequal => "!="
  | .less => "<"
  | .lessOrEqual => "<="
  | .greater => ">"
  | .greaterOrEqual => ">="

/-- Whether two texts compare so, by the order of their characters. -/
def holds (c : Comparison) (left right : String) : Bool :=
  match c with
  | .equal => left == right
  | .unequal => left != right
  | .less => left < right
  | .lessOrEqual => !(right < left)
  | .greater => right < left
  | .greaterOrEqual => !(left < right)

end Comparison

/-- A test that has been settled. -/
structure Verdict where
  /-- Whether the test holds of the texts as they stand. -/
  holds : Bool
  /-- Whether the status of the last command is asked for. -/
  ofStatus : Bool
  /-- The test as a condition. -/
  shown : String
deriving DecidableEq, Repr, Inhabited

/-- What has been read of an `if`. -/
structure Condition where
  /-- The last keyword. -/
  keyword : Option String := none
  left : Option String := none
  comparison : Option Comparison := none
  right : Option String := none
  verdict : Option Verdict := none
  /-- The commands of the body. -/
  body : List Node := []
deriving Repr, Inhabited

/-- A walk that reads an `if`. -/
abbrev ReadingCondition := StateT Condition (Except Failure)

namespace Condition

/-- A side of a test, the status being `0`. -/
def statusSide (side : String) : String :=
  if side = "$?" then "0" else side

/-- Settles the test; the status is put in for one side only, the left one first. -/
def settle (c : Condition) : Except Failure Condition :=
  match c.left, c.comparison, c.right with
  | some left, some comparison, some right =>
    let left' := statusSide left
    let right' := if left = "$?" then right else statusSide right
    .ok { c with
      left := some left'
      right := some right'
      verdict := some
        { holds := comparison.holds left' right'
          ofStatus := left = "$?" || right = "$?"
          shown := left' ++ " " ++ comparison.sign ++ " " ++ right' } }
  | _, _, _ => .error .missingPart

/-- Takes a word of the test in. -/
def takeWord (c : Condition) (word : String) : Condition :=
  if c.keyword = some "if" && word != "[" && word != "]" then
    if c.comparison.isSome then { c with right := some word }
    else match Comparison.ofWord? word with
      | some comparison => { c with comparison := some comparison }
      | none => { c with left := some word }
  else c

/-- What the walk does at each node. -/
def visit : Node → ReadingCondition Unit → ReadingCondition Unit
  | .reserved text, _ => do
    modify fun c => { c with keyword := some text }
    if text = "then" then set (← settle (← get))
  | .word text _, below => do
    modify fun c => c.takeWord text
    below
  | .command parts, below => do
    if (← get).keyword = some "then" then
      modify fun c => { c with body := c.body ++ [.command parts] }
    else below
  | _, below => below

/-- Reads a tree as an `if`. -/
def read (tree : Node) : Except Failure Condition := do
  let (_, c) ← (tree.walk visit).run {}
  return c

end Condition

end Playscript
