import Mathlib.Data.List.Perm.Subperm
import Playscript.Proofs.Bodies
import Playscript.Proofs.Visits

/-! # Control flow, and what a reader of it would ask for

    A flow is a tree of simple commands, lists, `if` with any number of `elif` and perhaps an
    `else`, and `for`, nested to any depth.  Whoever reads a flow would ask of its tasks:

    * every command is done, in a loop once for each word, and at least once;
    * a command in an arm of an `if` adds tasks under a condition, and that condition comes
      from the test of this arm; in an `else` it comes from no test of the arms before.

    `Flow.demands` writes this down command by command, and `Flow.Kept` says that the visits
    of a flow meet it.  Which flows a session keeps in this sense is a matter of their shape:
    `Flow.Flat` has no `elif`, no `else` and no construct within a construct. -/

namespace Playscript

open Shell (Node)
open Session (Visit visit visits guardText)

namespace Shell.Node

/-- What a walk does that goes through a tree as long as no keyword stands in it. -/
def refuseKeyword : Node → Except Failure Unit → Except Failure Unit
  | .reserved _, _ => .error .missingPart
  | _, below => below

/-- A tree in which no keyword stands. -/
def Plain (tree : Node) : Prop :=
  tree.walk refuseKeyword = .ok ()

end Shell.Node

/-- The test of an arm: commands, with no construct in them. -/
structure Test where
  node : Node
  plain : node.Plain

/-- The verdict on a test that is read on its own. -/
def Test.verdict? (test : Test) : Option Verdict :=
  match Condition.read (.branch [.reserved "if", test.node, .reserved "then", .reserved "fi"]) with
  | .ok c => c.verdict
  | .error _ => none

mutual

/-- A tree of commands and constructs. -/
inductive Flow where
  | command (parts : List Node)
  | sequence (flows : Flows)
  /-- `if test; then body`, and the arms behind it. -/
  | branch (test : Test) (body : Flow) (arms : Arms)
  /-- `for name in words; do body; done`. -/
  | loop (name : String) (words : List String) (semicolon : Bool) (body : Flow)

/-- Flows with operators between them, and perhaps one behind the last. -/
inductive Flows where
  | last (flow : Flow) (closing : Option String)
  | next (flow : Flow) (operator : String) (rest : Flows)

/-- The arms of an `if` behind the first. -/
inductive Arms where
  | fi
  | otherwise (body : Flow)
  | elif (test : Test) (body : Flow) (rest : Arms)

end

mutual

/-- The tree of a flow. -/
def Flow.toNode : Flow → Node
  | .command parts => .command parts
  | .sequence flows => .list flows.toNodes
  | .branch test body arms =>
    .compound [.branch (.reserved "if" :: test.node :: .reserved "then" :: body.toNode
      :: arms.toNodes)] []
  | .loop name words semicolon body => .forTree name words semicolon body.toNode

/-- The trees of flows, and the operators between them. -/
def Flows.toNodes : Flows → List Node
  | .last flow none => [flow.toNode]
  | .last flow (some operator) => [flow.toNode, .operator operator]
  | .next flow operator rest => flow.toNode :: .operator operator :: rest.toNodes

/-- The keywords and trees of the arms behind the first. -/
def Arms.toNodes : Arms → List Node
  | .fi => [.reserved "fi"]
  | .otherwise body => [.reserved "else", body.toNode, .reserved "fi"]
  | .elif test body rest =>
    .reserved "elif" :: test.node :: .reserved "then" :: body.toNode :: rest.toNodes

end

/-! ## What is asked for -/

/-- The place of a command in the arms of an `if`. -/
inductive Guard where
  /-- In no arm. -/
  | free
  /-- In the arm of a test, and in none further in. -/
  | test (own : Test)
  /-- In an `else` behind the arms of some tests. -/
  | otherwise (before : List Test)

/-- Whether the condition of a task is one for its place. -/
def Guard.Accepts : Guard → Task → Prop
  | .free, _ => True
  | .test own, task => ∃ register verdict, own.verdict? = some verdict ∧
      task.get? "when" = some (.text (guardText register verdict))
  | .otherwise before, task => ∃ text, task.get? "when" = some (.text text) ∧
      ∀ other ∈ before, ∀ register verdict, other.verdict? = some verdict →
        text ≠ guardText register verdict

/-- A command that has to be done, and its place. -/
structure Demand where
  command : Node
  guard : Guard

/-- A visit of the command whose tasks have a condition for its place. -/
def Demand.Meets (d : Demand) (v : Visit) : Prop :=
  v.command = d.command ∧ ∀ task ∈ v.tasks, d.guard.Accepts task

mutual

/-- What a flow in a place asks for, in its order. -/
def Flow.demands (guard : Guard) : Flow → List Demand
  | .command parts => [⟨.command parts, guard⟩]
  | .sequence flows => flows.demands guard
  | .branch test body arms => body.demands (.test test) ++ arms.demands [test]
  | .loop _ words _ body =>
    (List.replicate (max words.length 1) (body.demands guard)).flatten

def Flows.demands (guard : Guard) : Flows → List Demand
  | .last flow _ => flow.demands guard
  | .next flow _ rest => flow.demands guard ++ rest.demands guard

/-- What the arms behind the arms of some tests ask for. -/
def Arms.demands (before : List Test) : Arms → List Demand
  | .fi => []
  | .otherwise body => body.demands (.otherwise before)
  | .elif test body rest => body.demands (.test test) ++ rest.demands (before ++ [test])

end

/-- The visits of a flow are what it asks for: its tasks come from them, every demand is met by
    a visit of its own, and there is no visit that meets none. -/
structure Flow.Kept (flow : Flow) (s : Session) : Prop where
  tasks_eq : ((visit flow.toNode).after s).tasks
    = s.tasks ++ (visits flow.toNode s).flatMap Visit.tasks
  visited : ∃ seen, seen.Subperm (visits flow.toNode s) ∧
    List.Forall₂ Demand.Meets (flow.demands .free) seen
  guarded : ∀ v ∈ visits flow.toNode s, ∃ d ∈ flow.demands .free, d.Meets v

/-! ## Shapes -/

mutual

/-- A flow of commands only. -/
def Flow.Straight : Flow → Prop
  | .command _ => True
  | .sequence flows => flows.Straight
  | .branch _ _ _ => False
  | .loop _ _ _ _ => False

def Flows.Straight : Flows → Prop
  | .last flow _ => flow.Straight
  | .next flow _ rest => flow.Straight ∧ rest.Straight

end

mutual

/-- A flow without `elif` and `else`, the bodies of whose constructs are straight. -/
def Flow.Flat : Flow → Prop
  | .command _ => True
  | .sequence flows => flows.Flat
  | .branch _ body arms => body.Straight ∧ arms = .fi
  | .loop _ _ _ body => body.Straight

def Flows.Flat : Flows → Prop
  | .last flow _ => flow.Flat
  | .next flow _ rest => flow.Flat ∧ rest.Flat

end

/-- A test that says nothing. -/
def Test.blank : Test :=
  ⟨.command [], rfl⟩

mutual

/-- The shape of a flow: what is left without its commands, tests, words and operators. -/
def Flow.shape : Flow → Flow
  | .command _ => .command []
  | .sequence flows => .sequence flows.shape
  | .branch _ body arms => .branch .blank body.shape arms.shape
  | .loop _ _ _ body => .loop "" [] false body.shape

def Flows.shape : Flows → Flows
  | .last flow _ => .last flow.shape none
  | .next flow _ rest => .next flow.shape "" rest.shape

def Arms.shape : Arms → Arms
  | .fi => .fi
  | .otherwise body => .otherwise body.shape
  | .elif _ body rest => .elif .blank body.shape rest.shape

end

end Playscript
