import Playscript.Failure

/-! # Shell syntax trees

    A script is read into a tree of nodes.  Words and assignments carry their text
    after quote removal and the expansions found in it; the text of a here-document
    says nothing about the tasks of a script, so the tree does not keep it.

    `Node.walk` is the one way through a tree: a visitor sees each node together with
    the walk through its children, and decides whether and when that walk happens. -/

namespace Playscript.Shell

/-- A node of a shell syntax tree. -/
inductive Node where
  /-- A simple command: words, assignments and redirections. -/
  | command (parts : List Node)
  /-- Commands with the operators between them. -/
  | list (parts : List Node)
  /-- Commands with the pipes between them. -/
  | pipeline (parts : List Node)
  /-- A construct with a body, and the redirections behind it. -/
  | compound (body : List Node) (redirects : List Node)
  /-- `if … then … fi`, keywords and bodies in one row. -/
  | branch (parts : List Node)
  /-- `for … in … do … done`. -/
  | forLoop (parts : List Node)
  /-- `while … do … done`. -/
  | whileLoop (parts : List Node)
  /-- `until … do … done`. -/
  | untilLoop (parts : List Node)
  /-- A function definition. -/
  | function (parts : List Node)
  /-- A word after quote removal, and the expansions in it. -/
  | word (text : String) (parts : List Node)
  /-- An assignment `name=text` in front of a command. -/
  | assignment (text : String) (parts : List Node)
  /-- A redirection by an operator to a word or a channel. -/
  | redirect (source : Option Int) (sign : String) (target : Node)
  /-- The channel that a redirection joins, or none to close it. -/
  | channel (number : Option Int)
  | commandSubstitution (body : Node)
  | processSubstitution (body : Node)
  | reserved (text : String)
  | operator (text : String)
  | pipe (text : String)
  | parameter (name : String)
  | tilde (text : String)
  | heredoc (text : String)
  /-- A node of a kind that no script has. -/
  | unknown (kind : String)
  /-- A node that lacks something that nodes of its kind have. -/
  | incomplete
deriving Repr, Inhabited

namespace Node

/-- The text of a node that stands for a word. -/
def text? : Node → Option String
  | .word text _ => some text
  | .assignment text _ => some text
  | .reserved text => some text
  | _ => none

/-- The parts of a node that is made of parts. -/
def parts : Node → List Node
  | .command parts | .list parts | .pipeline parts | .branch parts | .forLoop parts
  | .whileLoop parts | .untilLoop parts | .function parts | .word _ parts
  | .assignment _ parts => parts
  | .compound body redirects => body ++ redirects
  | _ => []

variable {m : Type → Type} [Monad m] [MonadExceptOf Failure m]

mutual

/-- Walks a tree: `visit` gets each node and the walk through what is below it. -/
def walk (visit : Node → m Unit → m Unit) : Node → m Unit
  | .command parts => visit (.command parts) (walkAll visit parts)
  | .list parts => visit (.list parts) (walkAll visit parts)
  | .pipeline parts => visit (.pipeline parts) (walkAll visit parts)
  | .compound body redirects =>
    visit (.compound body redirects) (do walkAll visit body; walkAll visit redirects)
  | .branch parts => visit (.branch parts) (walkAll visit parts)
  | .forLoop parts => visit (.forLoop parts) (walkAll visit parts)
  | .whileLoop parts => visit (.whileLoop parts) (walkAll visit parts)
  | .untilLoop parts => visit (.untilLoop parts) (walkAll visit parts)
  | .function parts => visit (.function parts) (walkAll visit parts)
  | .word text parts => visit (.word text parts) (walkAll visit parts)
  | .assignment text parts => visit (.assignment text parts) (walkAll visit parts)
  | .redirect source sign target => visit (.redirect source sign target) (walk visit target)
  | .channel _ => pure ()
  | .commandSubstitution body => visit (.commandSubstitution body) (walk visit body)
  | .processSubstitution body => visit (.processSubstitution body) (walk visit body)
  | .reserved text => visit (.reserved text) (pure ())
  | .operator text => visit (.operator text) (pure ())
  | .pipe text => visit (.pipe text) (pure ())
  | .parameter name => visit (.parameter name) (pure ())
  | .tilde text => visit (.tilde text) (pure ())
  | .heredoc text => visit (.heredoc text) (pure ())
  | .unknown kind => throw (.unknownNode kind)
  | .incomplete => throw .missingPart

/-- Walks trees from left to right. -/
def walkAll (visit : Node → m Unit → m Unit) : List Node → m Unit
  | [] => pure ()
  | node :: rest => do walk visit node; walkAll visit rest

end

end Node

end Playscript.Shell
