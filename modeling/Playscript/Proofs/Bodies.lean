import Playscript.Proofs.Walk
import Playscript.Session.Visit

/-! # Bodies of simple commands

    The plainest body of an `if` or a `for` is a command, or a list of commands with the
    operators between them.  A visitor that stops at commands and sees nothing in lists and
    operators goes through such a body as through the row of its commands
    (`walk_simple`).

    For the reading of a `for` with such a body this says what the loop has taken in at its
    end, where it replays the body: the words behind `in`, and the commands behind `do`
    (`run_forLoop`).  The walk then goes through the parts of the loop once more, so that the
    body is gone through once for each word and once more (`walk_forTree`). -/

namespace Playscript

open Shell (Node)

namespace Shell.Node

mutual

/-- The commands of a tree that is made of simple commands, lists and operators only. -/
def simpleCommands? : Node → Option (List Node)
  | .command parts => some [.command parts]
  | .operator _ => some []
  | .list parts => simpleCommandsAll? parts
  | _ => none

/-- The commands of a row of such trees. -/
def simpleCommandsAll? : List Node → Option (List Node)
  | [] => some []
  | node :: rest =>
    match simpleCommands? node, simpleCommandsAll? rest with
    | some first, some others => some (first ++ others)
    | _, _ => none

end

/-- What stands in front of the body of a `for`: the variable, the words if `in` stands there, and
    a semicolon or none. -/
def forHeading (name : String) (given : Option (List String)) (semicolon : Bool) : List Node :=
  .reserved "for" :: .word name [] ::
    ((given.elim [] fun words => .reserved "in" :: words.map (Node.word · []))
      ++ if semicolon then [.reserved ";"] else [])

/-- The parts of `for name in words; do body; done`, with or without the semicolon. -/
def forParts (name : String) (words : List String) (semicolon : Bool) (body : Node) :
    List Node :=
  .reserved "for" :: .word name [] :: .reserved "in" :: (words.map (Node.word · [])
    ++ ((if semicolon then [.reserved ";"] else []) ++ [.reserved "do", body, .reserved "done"]))

/-- The tree of `for name in words; do body; done`. -/
def forTree (name : String) (words : List String) (semicolon : Bool) (body : Node) : Node :=
  .compound [.forLoop (forParts name words semicolon body)] []

section Walk

variable {m : Type → Type} [Monad m] [LawfulMonad m] [MonadExceptOf Failure m]
  {visit : Node → m Unit → m Unit} {take : Node → m Unit}

/-- Trees are walked one row after the other. -/
theorem walkAll_append (first rest : List Node) :
    walkAll visit (first ++ rest) = (do walkAll visit first; walkAll visit rest) := by
  induction first with
  | nil => simp [walkAll]
  | cons tree others ih => simp [walkAll, ih]

/-- The commands of a row are those of its first tree and those of the others. -/
theorem simpleCommandsAll?_cons {node : Node} {rest commands : List Node}
    (h : simpleCommandsAll? (node :: rest) = some commands) :
    ∃ first others, simpleCommands? node = some first ∧
      simpleCommandsAll? rest = some others ∧ commands = first ++ others := by
  rw [simpleCommandsAll?] at h
  cases hfirst : simpleCommands? node with
  | none => simp [hfirst] at h
  | some first =>
      cases hothers : simpleCommandsAll? rest with
      | none => simp [hfirst, hothers] at h
      | some others =>
          refine ⟨first, others, rfl, rfl, ?_⟩
          simpa [hfirst, hothers] using h.symm

mutual

/-- A visitor that sees nothing in lists and operators goes through a body as through the row of
    its commands. -/
theorem walk_row (hcommand : ∀ parts, (Node.command parts).walk visit = take (.command parts))
    (hlist : ∀ parts below, visit (.list parts) below = below)
    (hoperator : ∀ text below, visit (.operator text) below = below) :
    ∀ (body : Node) (commands : List Node), body.simpleCommands? = some commands →
      body.walk visit = commands.forM take
  | .command parts, commands, h => by
      rw [simpleCommands?, Option.some.injEq] at h
      rw [hcommand, ← h]
      simp
  | .operator text, commands, h => by
      rw [simpleCommands?, Option.some.injEq] at h
      rw [walk, hoperator, ← h]
      rfl
  | .list parts, commands, h => by
      rw [simpleCommands?] at h
      rw [walk, hlist]
      exact walkAll_row hcommand hlist hoperator parts commands h
  | .pipeline _, _, h | .compound _ _, _, h | .branch _, _, h | .forLoop _, _, h
  | .whileLoop _, _, h | .untilLoop _, _, h | .function _, _, h | .word _ _, _, h
  | .assignment _ _, _, h | .redirect _ _ _, _, h | .channel _, _, h
  | .commandSubstitution _, _, h | .processSubstitution _, _, h | .reserved _, _, h
  | .pipe _, _, h | .parameter _, _, h | .tilde _, _, h | .heredoc _, _, h
  | .unknown _, _, h | .incomplete, _, h => by
      simp [simpleCommands?] at h

/-- The same for a row of trees, one after the other. -/
theorem walkAll_row (hcommand : ∀ parts, (Node.command parts).walk visit = take (.command parts))
    (hlist : ∀ parts below, visit (.list parts) below = below)
    (hoperator : ∀ text below, visit (.operator text) below = below) :
    ∀ (trees : List Node) (commands : List Node), simpleCommandsAll? trees = some commands →
      walkAll visit trees = commands.forM take
  | [], commands, h => by
      rw [simpleCommandsAll?, Option.some.injEq] at h
      rw [walkAll, ← h]
      rfl
  | tree :: rest, commands, h => by
      obtain ⟨first, others, hfirst, hothers, rfl⟩ := simpleCommandsAll?_cons h
      rw [walkAll, walk_row hcommand hlist hoperator tree first hfirst,
        walkAll_row hcommand hlist hoperator rest others hothers]
      simp

end

/-- A visitor that stops at commands goes through a body as through the row of its commands. -/
theorem walk_simple (hcommand : ∀ parts below, visit (.command parts) below = take (.command parts))
    (hlist : ∀ parts below, visit (.list parts) below = below)
    (hoperator : ∀ text below, visit (.operator text) below = below) (body : Node)
    (commands : List Node) (h : body.simpleCommands? = some commands) :
    body.walk visit = commands.forM take :=
  walk_row (fun parts => by rw [walk, hcommand]) hlist hoperator body commands h

end Walk

end Shell.Node

/-- A reading that goes on from what the one before it has taken in. -/
theorem run_seq_of_pure {σ : Type} {m : Type → Type} [Monad m] [LawfulMonad m]
    {x : StateT σ m Unit} {s t : σ} (h : x.run s = pure ((), t)) (y : StateT σ m Unit) :
    (x >>= fun _ => y).run s = y.run t := by
  rw [StateT.run_bind, h, pure_bind]

/-! ## The reading of a `for` -/

namespace Loop

section Reading

variable {m : Type → Type} [Monad m] [LawfulMonad m] [MonadExceptOf Failure m]
  (call : Option String → String → Node → m Unit)

/-- A keyword other than the last is kept in mind. -/
theorem run_reserved (text : String) (h : text ≠ "done") (l : Loop) :
    ((Node.reserved text).walk (visit call)).run l
      = pure ((), { l with keyword := some text }) := by
  simp [Node.walk, visit, h]

/-- The last keyword replays the body. -/
theorem run_done (l : Loop) :
    ((Node.reserved "done").walk (visit call)).run l = (do
      replay call { l with keyword := some "done" }
      pure ((), { l with keyword := some "done" })) := by
  simp [Node.walk, visit]

theorem run_word (text : String) (l : Loop) :
    ((Node.word text []).walk (visit call)).run l = pure ((), l.takeWord text) := by
  simp [Node.walk, Node.walkAll, visit]

/-- Behind `in`, the words are what the loop goes through. -/
theorem run_words (words : List String) :
    ∀ l : Loop, l.keyword = some "in" →
      (Node.walkAll (visit call) (words.map (Node.word · []))).run l
        = pure ((), { l with words := l.words ++ words }) := by
  induction words with
  | nil => intro l _; simp [Node.walkAll]
  | cons word rest ih =>
      intro l hin
      have htake : l.takeWord word = { l with words := l.words ++ [word] } := by
        simp [takeWord, hin]
      rw [List.map_cons, Node.walkAll, run_seq_of_pure (run_word call word l), htake,
        ih { l with words := l.words ++ [word] } hin]
      simp

/-- Behind `do`, the commands of a body are put to the others. -/
theorem run_commands {body : Node} {commands : List Node}
    (hbody : body.simpleCommands? = some commands) (l : Loop) (hdo : l.keyword = some "do") :
    (body.walk (visit call)).run l = pure ((), { l with body := l.body ++ commands }) := by
  have hwalk : body.walk (visit call) = commands.forM fun command =>
      modify fun l => if l.keyword = some "do" then { l with body := l.body ++ [command] } else l :=
    Node.walk_simple (fun _ _ => rfl) (fun _ _ => rfl) (fun _ _ => rfl) body commands hbody
  rw [hwalk]
  clear hwalk hbody
  induction commands generalizing l with
  | nil => simp
  | cons command rest ih =>
      rw [List.forM_eq_forM, List.forM_cons, run_seq_of_pure (StateT.run_modify ..), hdo,
        if_pos rfl]
      exact (ih _ rfl).trans (by simp)

/-- A semicolon behind the words is a keyword to keep in mind for a moment. -/
theorem run_semicolon (semicolon : Bool) (l : Loop) :
    ∃ keyword, (Node.walkAll (visit call) (if semicolon then [.reserved ";"] else [])).run l
      = pure ((), { l with keyword := keyword }) := by
  cases semicolon with
  | false => exact ⟨l.keyword, by simp [Node.walkAll]⟩
  | true => exact ⟨some ";", by simp [Node.walkAll, Node.walk, visit]⟩

/-- Up to its body, a loop takes its variable and its words in. -/
theorem run_forHeading (name : String) (given : Option (List String)) (semicolon : Bool)
    (l : Loop) : ∃ keyword,
    (Node.walkAll (visit call) (Node.forHeading name given semicolon)).run l
      = pure ((), { l with keyword := keyword, varName := some name
                           words := l.words ++ given.getD [] }) := by
  -- one equation for each part, each from what the part before it leaves
  have hfor := run_reserved call "for" (by decide) l
  have hname : ((Node.word name []).walk (visit call)).run { l with keyword := some "for" }
      = pure ((), { l with keyword := some "for", varName := some name }) := by
    rw [run_word]
    simp [takeWord]
  have hwords : ∃ keyword, (Node.walkAll (visit call)
      (given.elim [] fun words => .reserved "in" :: words.map (Node.word · []))).run
        { l with keyword := some "for", varName := some name }
      = pure ((), { l with keyword := keyword, varName := some name
                           words := l.words ++ given.getD [] }) := by
    cases given with
    | none => exact ⟨some "for", by simp [Node.walkAll]⟩
    | some words =>
        have hin := run_reserved call "in" (by decide)
          { l with keyword := some "for", varName := some name }
        have hrest := run_words call words { l with keyword := some "in", varName := some name } rfl
        exact ⟨some "in", (run_seq_of_pure hin _).trans hrest⟩
  obtain ⟨keyword, hwords⟩ := hwords
  obtain ⟨keyword', hsemicolon⟩ := run_semicolon call semicolon
    { l with keyword := keyword, varName := some name, words := l.words ++ given.getD [] }
  refine ⟨keyword', ?_⟩
  simp only [Node.forHeading, Node.walkAll, Node.walkAll_append]
  refine (run_seq_of_pure hfor _).trans ?_
  refine (run_seq_of_pure hname _).trans ?_
  exact (run_seq_of_pure hwords _).trans hsemicolon

/-- Up to `do`, a loop takes its variable and its words in. -/
theorem run_forParts (name : String) (words : List String) (semicolon : Bool) (body : Node)
    (l : Loop) :
    (Node.walkAll (visit call) (Node.forParts name words semicolon body)).run l
      = (do
          body.walk (visit call)
          (Node.reserved "done").walk (visit call) : StateT Loop m Unit).run
        { l with keyword := some "do", varName := some name, words := l.words ++ words } := by
  have hparts : Node.forParts name words semicolon body
      = Node.forHeading name (some words) semicolon ++ [.reserved "do", body, .reserved "done"] := by
    simp [Node.forParts, Node.forHeading]
  obtain ⟨keyword, hheading⟩ := run_forHeading call name (some words) semicolon l
  have hdo := run_reserved call "do" (by decide)
    { l with keyword := keyword, varName := some name, words := l.words ++ words }
  rw [hparts, Node.walkAll_append]
  simp only [Node.walkAll]
  refine (run_seq_of_pure hheading _).trans ?_
  refine (run_seq_of_pure hdo _).trans ?_
  simp

/-- A loop is replayed with the variable, the words and the commands that it says. -/
theorem run_forLoop {body : Node} {commands : List Node}
    (hbody : body.simpleCommands? = some commands) (name : String) (words : List String)
    (semicolon : Bool) :
    run call (.forLoop (Node.forParts name words semicolon body)) = (do
      let l : Loop :=
        { keyword := some "done", varName := some name, words := words, body := commands }
      replay call l
      pure l) := by
  have hcommands := run_commands call hbody
    { keyword := some "do", varName := some name, words := words } rfl
  have hwalk : ((Node.forLoop (Node.forParts name words semicolon body)).walk (visit call)).run {}
      = ((Node.reserved "done").walk (visit call)).run
        { keyword := some "do", varName := some name, words := words, body := commands } :=
    (run_forParts call name words semicolon body {}).trans (run_seq_of_pure hcommands _)
  rw [run, hwalk, run_done]
  simp

end Reading

end Loop

/-! ## What a walk asks for -/

namespace Session

/-- What is done for each word whatever it is, is done as often as there are words. -/
theorem forM_const {m : Type → Type} [Monad m] {α β : Type} (f : β → m Unit) (b : β)
    (xs : List α) : (xs.forM fun _ => f b) = (List.replicate xs.length b).forM f := by
  induction xs with
  | nil => rfl
  | cons _ rest ih =>
      show (f b >>= fun _ => rest.forM fun _ => f b) = _
      rw [ih]
      rfl

section Asking

variable {m : Type → Type} [Monad m] [LawfulMonad m] [MonadExceptOf Failure m]
  (ask : Action → m Unit)

/-- A body asks for its commands. -/
theorem walk_body {body : Node} {commands : List Node}
    (hbody : body.simpleCommands? = some commands) :
    body.walk (visitNode ask) = commands.forM fun command => ask (.perform command) :=
  Node.walk_simple (fun _ _ => rfl) (fun _ _ => rfl) (fun _ _ => rfl) body commands hbody

/-- Words outside of commands ask for nothing. -/
theorem walkAll_words (words : List String) :
    Node.walkAll (visitNode ask) (words.map (Node.word · [])) = pure () := by
  induction words with
  | nil => simp [Node.walkAll]
  | cons word rest ih => simp [Node.walkAll, Node.walk, visitNode, ih]

/-- The parts of a loop ask for what its body asks for. -/
theorem walkAll_forParts (name : String) (words : List String) (semicolon : Bool)
    (body : Node) :
    Node.walkAll (visitNode ask) (Node.forParts name words semicolon body)
      = body.walk (visitNode ask) := by
  have hsemicolon : Node.walkAll (visitNode ask) (if semicolon then [.reserved ";"] else [])
      = pure () := by
    cases semicolon with
    | false => simp [Node.walkAll]
    | true => simp [Node.walkAll, Node.walk, visitNode]
  simp [Node.forParts, Node.walkAll, Node.walk, visitNode, Node.walkAll_append, walkAll_words,
    hsemicolon]

/-- A loop asks for its replays, and then for what its body asks for. -/
theorem walk_forTree_eq (name : String) (words : List String) (semicolon : Bool)
    (body : Node) :
    (Node.forTree name words semicolon body).walk (visitNode ask) = (do
      let _ ← Loop.run (fun _ _ tree => ask (.perform tree))
        (.forLoop (Node.forParts name words semicolon body))
      body.walk (visitNode ask)) := by
  simp [Node.forTree, Node.walk, Node.walkAll, visitNode, walkAll_forParts]

/-- **A loop asks for its body once for each word and once more.** -/
theorem walk_forTree {body : Node} {commands : List Node}
    (hbody : body.simpleCommands? = some commands) (name : String) (words : List String)
    (semicolon : Bool) :
    (Node.forTree name words semicolon body).walk (visitNode ask)
      = (List.replicate (words.length + 1) body).forM (Node.walk (visitNode ask)) := by
  have hreplay : Loop.replay (fun _ _ tree => ask (.perform tree))
      { keyword := some "done", varName := some name, words := words, body := commands }
        = (List.replicate words.length body).forM (Node.walk (visitNode ask)) := by
    rw [← forM_const, walk_body ask hbody]
    rfl
  rw [walk_forTree_eq, Loop.run_forLoop _ hbody, List.replicate_succ', List.forM_eq_forM,
    List.forM_append]
  simp [hreplay]

end Asking

end Session

end Playscript
