import Playscript.Shell.Tree

/-! # Two walks through one tree

    A walk is made of its visitor, of doing nothing, of doing one thing after another and
    of failing.  So whatever relates these four in two monads relates the two walks: one
    induction over trees, from which the simulations and the invariants of this theory
    follow without a further one.

    * `Node.Lockstep` — what a relation between two monads has to respect;
    * `Node.Lockstep.walk` — then it relates the walks through every tree. -/

namespace Playscript.Shell.Node

variable {m n : Type → Type} [Monad m] [MonadExceptOf Failure m]
  [Monad n] [MonadExceptOf Failure n]

/-- A relation between computations that the steps of two walks respect: doing nothing,
    doing one thing after another, failing, and what the two visitors do at a node. -/
structure Lockstep (R : m Unit → n Unit → Prop) (visit : Node → m Unit → m Unit)
    (visit' : Node → n Unit → n Unit) : Prop where
  nothing : R (pure ()) (pure ())
  seq : ∀ {x y : m Unit} {x' y' : n Unit}, R x x' → R y y' →
    R (x >>= fun _ => y) (x' >>= fun _ => y')
  fail : ∀ failure : Failure, R (throw failure) (throw failure)
  node : ∀ (node : Node) {below : m Unit} {below' : n Unit}, R below below' →
    R (visit node below) (visit' node below')

namespace Lockstep

variable {R : m Unit → n Unit → Prop} {visit : Node → m Unit → m Unit}
  {visit' : Node → n Unit → n Unit}

mutual

/-- A relation that the steps respect relates the walks through a tree. -/
theorem walk (h : Lockstep R visit visit') : ∀ tree : Node,
    R (Node.walk visit tree) (Node.walk visit' tree)
  | .command parts | .list parts | .pipeline parts | .branch parts | .forLoop parts
  | .whileLoop parts | .untilLoop parts | .function parts | .word _ parts
  | .assignment _ parts => by
      rw [Node.walk, Node.walk]
      exact h.node _ (h.walkAll parts)
  | .compound body redirects => by
      rw [Node.walk, Node.walk]
      exact h.node _ (h.seq (h.walkAll body) (h.walkAll redirects))
  | .redirect _ _ target => by
      rw [Node.walk, Node.walk]
      exact h.node _ (h.walk target)
  | .channel _ => by
      rw [Node.walk, Node.walk]
      exact h.nothing
  | .commandSubstitution body | .processSubstitution body => by
      rw [Node.walk, Node.walk]
      exact h.node _ (h.walk body)
  | .reserved _ | .operator _ | .pipe _ | .parameter _ | .tilde _ | .heredoc _ => by
      rw [Node.walk, Node.walk]
      exact h.node _ h.nothing
  | .unknown _ | .incomplete => by
      rw [Node.walk, Node.walk]
      exact h.fail _

/-- A relation that the steps respect relates the walks through a row of trees. -/
theorem walkAll (h : Lockstep R visit visit') : ∀ trees : List Node,
    R (Node.walkAll visit trees) (Node.walkAll visit' trees)
  | [] => by
      rw [Node.walkAll, Node.walkAll]
      exact h.nothing
  | tree :: rest => by
      rw [Node.walkAll, Node.walkAll]
      exact h.seq (h.walk tree) (h.walkAll rest)

end

end Lockstep

end Playscript.Shell.Node
