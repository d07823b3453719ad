import Playscript.Proofs.ControlFlow.Flat

/-! # One filling for every shape

    To see that a shape is not kept, one filling of it is enough.  The same filling does for
    all shapes: every command is `ldconfig`, which adds one task and never fails; every loop
    goes through the same words; the first test of an `if` compares one text, and every test
    within its arms or behind them compares another.

    What a session makes of the filled flow is found on three walks: the one that reads an
    `if`, the one that reads a `for`, and the plan.  The first two go through a flow in the
    same way, so one induction does for both (`Covers.flow`). -/

namespace Playscript

open Shell (Node)
open Session (Action visit visitNode plan)

/-- The parts of the command `ldconfig`. -/
def ldconfigParts : List Node :=
  [.word "ldconfig" []]

/-- The test that a text is equal to itself. -/
def Test.comparing (side : String) : Test where
  node := .list [.command [.word "[" [], .word side [], .word "-eq" [], .word side [],
    .word "]" []], .operator ";"]
  plain := rfl

mutual

/-- A flow filled with `ldconfig`, the same words for every loop, and a test for every `if` in
    no other's arm. -/
def Flow.fill (words : List String) (test : Test) : Flow → Flow
  | .command _ => .command ldconfigParts
  | .sequence flows => .sequence (flows.fill words test)
  | .branch _ body arms =>
    .branch test (body.fill words (.comparing "inner")) (arms.fill words)
  | .loop name _ semicolon body => .loop name words semicolon (body.fill words test)

def Flows.fill (words : List String) (test : Test) : Flows → Flows
  | .last flow closing => .last (flow.fill words test) closing
  | .next flow operator rest => .next (flow.fill words test) operator (rest.fill words test)

/-- Arms filled in the same way, with the other test. -/
def Arms.fill (words : List String) : Arms → Arms
  | .fi => .fi
  | .otherwise body => .otherwise (body.fill words (.comparing "inner"))
  | .elif _ body rest =>
    .elif (.comparing "inner") (body.fill words (.comparing "inner")) (rest.fill words)

end

mutual

/-- Filling a flow leaves its shape. -/
theorem Flow.shape_fill (words : List String) : ∀ (test : Test) (flow : Flow),
    (flow.fill words test).shape = flow.shape
  | _, .command _ => by
      rw [Flow.fill, Flow.shape, Flow.shape]
  | test, .sequence flows => by
      rw [Flow.fill, Flow.shape, Flow.shape, Flows.shape_fill words test flows]
  | _, .branch _ body arms => by
      rw [Flow.fill, Flow.shape, Flow.shape, Flow.shape_fill words _ body,
        Arms.shape_fill words arms]
  | test, .loop _ _ _ body => by
      rw [Flow.fill, Flow.shape, Flow.shape, Flow.shape_fill words test body]

theorem Flows.shape_fill (words : List String) : ∀ (test : Test) (flows : Flows),
    (flows.fill words test).shape = flows.shape
  | test, .last flow _ => by
      rw [Flows.fill, Flows.shape, Flows.shape, Flow.shape_fill words test flow]
  | test, .next flow _ rest => by
      rw [Flows.fill, Flows.shape, Flows.shape, Flow.shape_fill words test flow,
        Flows.shape_fill words test rest]

theorem Arms.shape_fill (words : List String) : ∀ arms : Arms,
    (arms.fill words).shape = arms.shape
  | .fi => rfl
  | .otherwise body => by
      rw [Arms.fill, Arms.shape, Arms.shape, Flow.shape_fill words _ body]
  | .elif _ body rest => by
      rw [Arms.fill, Arms.shape, Arms.shape, Flow.shape_fill words _ body,
        Arms.shape_fill words rest]

end

/-! ## Measures of a shape -/

mutual

/-- The number of loops of a flow. -/
def Flow.loops : Flow → Nat
  | .command _ => 0
  | .sequence flows => flows.loops
  | .branch _ body arms => body.loops + arms.loops
  | .loop _ _ _ body => body.loops + 1

def Flows.loops : Flows → Nat
  | .last flow _ => flow.loops
  | .next flow _ rest => flow.loops + rest.loops

def Arms.loops : Arms → Nat
  | .fi => 0
  | .otherwise body => body.loops
  | .elif _ body rest => body.loops + rest.loops

end

mutual

/-- An `if` stands in the flow. -/
def Flow.Branches : Flow → Prop
  | .command _ => False
  | .sequence flows => flows.Branches
  | .branch _ _ _ => True
  | .loop _ _ _ body => body.Branches

def Flows.Branches : Flows → Prop
  | .last flow _ => flow.Branches
  | .next flow _ rest => flow.Branches ∨ rest.Branches

end

/-- An `elif` stands among the arms, or an `if` within them. -/
def Arms.Nests : Arms → Prop
  | .fi => False
  | .otherwise body => body.Branches
  | .elif _ _ _ => True

mutual

/-- An `if` of the flow has an `elif`, or an `if` within its arms. -/
def Flow.Nests : Flow → Prop
  | .command _ => False
  | .sequence flows => flows.Nests
  | .branch _ body arms => body.Branches ∨ arms.Nests
  | .loop _ _ _ body => body.Nests

def Flows.Nests : Flows → Prop
  | .last flow _ => flow.Nests
  | .next flow _ rest => flow.Nests ∨ rest.Nests

end

mutual

/-- A flow without an `if` and without a loop is straight. -/
theorem Flow.straight_of : ∀ flow : Flow, ¬ flow.Branches → flow.loops = 0 → flow.Straight
  | .command _, _, _ => trivial
  | .sequence flows, hbranches, hloops => Flows.straight_of flows hbranches hloops
  | .branch _ _ _, hbranches, _ => absurd trivial hbranches
  | .loop _ _ _ body, _, hloops => absurd hloops (Nat.succ_ne_zero body.loops)

theorem Flows.straight_of : ∀ flows : Flows, ¬ flows.Branches → flows.loops = 0 → flows.Straight
  | .last flow _, hbranches, hloops => Flow.straight_of flow hbranches hloops
  | .next flow _ rest, hbranches, hloops => by
      rw [Flows.Branches, not_or] at hbranches
      rw [Flows.loops, Nat.add_eq_zero_iff] at hloops
      exact ⟨Flow.straight_of flow hbranches.1 hloops.1,
        Flows.straight_of rest hbranches.2 hloops.2⟩

end

/-! ## Walks through a filled flow -/

section Walks

variable {m : Type → Type} [Monad m] [LawfulMonad m] [MonadExceptOf Failure m]

/-- A test between its keywords. -/
def opening (text : String) (test : Test) : List Node :=
  [.reserved text, test.node, .reserved "then"]

/-- What a visitor has to respect so that a statement about walks, which counts commands and
    loops, is true of filled flows: it sees nothing in lists and constructs, and the statement
    is true of the pieces of a filled flow and of pieces one after the other. -/
structure Covers (visit : Node → m Unit → m Unit) (words : List String)
    (Q : Nat → Nat → m Unit → Prop) : Prop where
  list : ∀ parts below, visit (.list parts) below = below
  operator : ∀ text below, visit (.operator text) below = below
  compound : ∀ body redirects below, visit (.compound body redirects) below = below
  branch : ∀ parts below, visit (.branch parts) below = below
  forLoop : ∀ parts below, visit (.forLoop parts) below = below
  nothing : Q 0 0 (pure ())
  seq : ∀ {k l k' l' : Nat} {x y : m Unit}, Q k l x → Q k' l' y →
    Q (k + k') (l + l') (x >>= fun _ => y)
  command : Q 1 0 ((Node.command ldconfigParts).walk visit)
  keyword : ∀ text ∈ ["else", "fi"], Q 0 0 ((Node.reserved text).walk visit)
  loop : ∀ {k l : Nat} (name : String) (semicolon : Bool) (body : Node),
    Q k l (body.walk visit) →
      Q k (l + 1) (Node.walkAll visit (Node.forParts name words semicolon body))

/-- The statement is true of tests between their keywords. -/
def Opens (visit : Node → m Unit → m Unit) (Q : Nat → Nat → m Unit → Prop) (test : Test) :
    Prop :=
  Q 0 0 (Node.walkAll visit (opening "if" test)) ∧
    ∀ text ∈ ["if", "elif"], Q 0 0 (Node.walkAll visit (opening text (.comparing "inner")))

namespace Covers

variable {visit : Node → m Unit → m Unit} {words : List String} {Q : Nat → Nat → m Unit → Prop}

/-- A construct is walked through its parts alone. -/
theorem walk_branch (h : Covers visit words Q) (parts : List Node) :
    (Node.compound [.branch parts] []).walk visit = Node.walkAll visit parts := by
  simp [Node.walk, Node.walkAll, h.compound, h.branch]

theorem walk_loop (h : Covers visit words Q) (parts : List Node) :
    (Node.compound [.forLoop parts] []).walk visit = Node.walkAll visit parts := by
  simp [Node.walk, Node.walkAll, h.compound, h.forLoop]

/-- A test, its body and what follows them, where the statement is true of each. -/
theorem arm (h : Covers visit words Q) {k l k' l' : Nat} {text : String} {test : Test}
    {body : Node} {rest : List Node} (hopening : Q 0 0 (Node.walkAll visit (opening text test)))
    (hbody : Q k l (body.walk visit)) (hrest : Q k' l' (Node.walkAll visit rest)) :
    Q (k + k') (l + l')
      (Node.walkAll visit (.reserved text :: test.node :: .reserved "then" :: body :: rest)) := by
  have happend : Node.walkAll visit
      (.reserved text :: test.node :: .reserved "then" :: body :: rest)
        = (do Node.walkAll visit (opening text test); Node.walkAll visit (body :: rest)) :=
    Node.walkAll_append (opening text test) (body :: rest)
  have hboth : Q (k + k') (l + l') (Node.walkAll visit (body :: rest)) := h.seq hbody hrest
  rw [happend]
  simpa using h.seq hopening hboth

mutual

/-- The statement is true of every filled flow, if it is true of the tests that stand in it. -/
theorem flow (h : Covers visit words Q) : ∀ (test : Test) (flow : Flow),
    (flow.Branches → Opens visit Q test) →
      Q flow.commands.length flow.loops ((flow.fill words test).toNode.walk visit)
  | _, .command _, _ => h.command
  | test, .sequence flows, hopens => by
      rw [Flow.fill, Flow.toNode, Node.walk, h.list]
      exact h.flows test flows hopens
  | test, .branch _ body arms, hopens => by
      obtain ⟨hfirst, hothers⟩ := hopens trivial
      -- within the arms every test is the inner one, also where the first is another
      have hinner : Opens visit Q (.comparing "inner") :=
        ⟨hothers "if" (by simp), hothers⟩
      rw [Flow.fill, Flow.toNode, h.walk_branch, Flow.commands, List.length_append]
      exact h.arm hfirst (h.flow _ body fun _ => hinner) (h.arms arms fun _ => hinner)
  | test, .loop name _ semicolon body, hopens => by
      rw [Flow.fill, Flow.toNode, Node.forTree, h.walk_loop]
      exact h.loop name semicolon _ (h.flow test body hopens)

/-- By induction on the row, with the count of commands and loops added up from flow to flow. -/
theorem flows (h : Covers visit words Q) : ∀ (test : Test) (flows : Flows),
    (flows.Branches → Opens visit Q test) →
      Q flows.commands.length flows.loops (Node.walkAll visit (flows.fill words test).toNodes)
  | test, .last flow closing, hopens => by
      have hflow := h.flow test flow hopens
      rw [Flows.commands, Flows.loops]
      cases closing with
      | none => simpa [Flows.fill, Flows.toNodes, Node.walkAll] using hflow
      | some operator =>
          simpa [Flows.fill, Flows.toNodes, Node.walkAll, Node.walk, h.operator] using hflow
  | test, .next flow operator rest, hopens => by
      have hflow := h.flow test flow fun hbranches => hopens (.inl hbranches)
      have hrest := h.flows test rest fun hbranches => hopens (.inr hbranches)
      rw [Flows.commands, List.length_append, Flows.loops]
      simpa [Flows.fill, Flows.toNodes, Node.walkAll, Node.walk, h.operator]
        using h.seq hflow hrest

/-- The arms of an `if`, each behind its keyword; inside them tests compare with `inner`. -/
theorem arms (h : Covers visit words Q) : ∀ arms : Arms,
    (arms.Nests → Opens visit Q (.comparing "inner")) →
      Q arms.commands.length arms.loops (Node.walkAll visit (arms.fill words).toNodes)
  | .fi, _ => by
      rw [Arms.commands, Arms.loops]
      simpa [Arms.fill, Arms.toNodes, Node.walkAll] using h.keyword "fi" (by simp)
  | .otherwise body, hopens => by
      have hbody := h.flow (.comparing "inner") body hopens
      have hfi := h.keyword "fi" (by simp)
      rw [Arms.commands, Arms.loops]
      simpa [Arms.fill, Arms.toNodes, Node.walkAll]
        using h.seq (h.keyword "else" (by simp)) (h.seq hbody hfi)
  | .elif _ body rest, hopens => by
      have hinner := hopens trivial
      rw [Arms.fill, Arms.toNodes, Arms.commands, List.length_append]
      exact h.arm (hinner.2 "elif" (by simp)) (h.flow _ body fun _ => hinner)
        (h.arms rest fun _ => hinner)

end

end Covers

end Walks

end Playscript
