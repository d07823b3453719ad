import Mathlib.Data.List.TakeWhile
import Playscript.Proofs.AppendOnly
import Playscript.Proofs.Bodies

/-! # What a `for` comes to

    A loop over some words should come to the same tasks as its body once for each word,
    behind the assignment of that word.  It does not: the body is gone through once for each
    word and once more, and the variable is never set (`visit_forTree`).

    So the two come to the same tasks only where that cannot be seen.  How a body ends and how
    many tasks it adds does not hang on the variables (`Uniform`); if it ends well, one pass
    too many adds one body's tasks too many, unless there are none.  If it fails, it fails in
    its first pass, and what is left to see is whether the variable shows in the tasks before
    the failure. -/

namespace Playscript

open Shell (Node)

namespace Shell.Node

/-- The tree of an assignment. -/
def assignmentTree (name text : String) : Node :=
  .command [.assignment (name ++ "=" ++ text) []]

/-- A loop written out: for each word its assignment and the body. -/
def unrolled (name : String) (words : List String) (body : Node) : List Node :=
  words.flatMap fun word => [assignmentTree name word, body]

end Shell.Node

namespace Session

/-- Going through a body is doing its commands. -/
theorem visit_body {body : Node} {commands : List Node}
    (hbody : body.simpleCommands? = some commands) : visit body = commands.forM command :=
  walk_body act hbody

/-- **A loop comes to its body once for each word and once more.** -/
theorem visit_forTree {body : Node} (hbody : body.simpleCommands?.isSome) (name : String)
    (words : List String) (semicolon : Bool) :
    visit (.forTree name words semicolon body)
      = (List.replicate (words.length + 1) body).forM visit := by
  obtain ⟨commands, hcommands⟩ := Option.isSome_iff_exists.mp hbody
  exact walk_forTree act hcommands name words semicolon

/-! ## The loop and its unrolling -/

theorem Uniform.tasks_eq_iff {α : Type} {added : Settings → Nat} {x : Step α}
    (h : Uniform added x) (s : Session) :
    (x.after s).tasks = s.tasks ↔ added s.settings = 0 := by
  obtain ⟨new, hlength, hnew⟩ := h.adds s
  rw [hnew, ← hlength]
  simp

/-- Commands one after the other go the same way everywhere. -/
theorem commands_uniform (commands : List Node) :
    ∃ added, Uniform added (commands.forM command) := by
  induction commands with
  | nil => exact ⟨fun _ => 0, Uniform.pure ()⟩
  | cons tree rest ih =>
      obtain ⟨added, -, hfirst⟩ := command_uniform tree
      obtain ⟨more, hrest⟩ := ih
      cases h : (command tree).outcome {} with
      | error f => exact ⟨added, hfirst.bind_error h _⟩
      | ok u => exact ⟨_, hfirst.bind_ok h hrest⟩

/-- Steps that end well, one after the other, end well, and their tasks add up. -/
theorem forM_uniform_ok {α : Type} {f : α → Step Unit} {added : Settings → Nat} (xs : List α)
    (hok : ∀ x ∈ xs, ∀ s, (f x).outcome s = .ok ())
    (huniform : ∀ x ∈ xs, Uniform added (f x)) :
    Uniform (fun settings => xs.length * added settings) (xs.forM f) := by
  induction xs with
  | nil => simpa using Uniform.pure ()
  | cons x rest ih =>
      have hx := huniform x List.mem_cons_self
      have hrest := ih (fun y hy => hok y (List.mem_cons_of_mem x hy))
        (fun y hy => huniform y (List.mem_cons_of_mem x hy))
      have hboth : Uniform (fun settings => added settings + rest.length * added settings)
          ((x :: rest).forM f) :=
        hx.bind_ok (hok x List.mem_cons_self {}) hrest
      have hsum : (fun settings => (x :: rest).length * added settings)
          = fun settings => added settings + rest.length * added settings := by
        funext settings
        rw [List.length_cons, Nat.succ_mul, Nat.add_comm]
      rw [hsum]
      exact hboth

/-- An assignment is split at its first equality sign. -/
theorem splitAssignment_isSome (name text : String) :
    (splitAssignment (name ++ "=" ++ text)).isSome := by
  have hmem : '=' ∈ (name ++ "=" ++ text).toList := by
    simp [String.toList_append]
  unfold splitAssignment
  cases h : (name ++ "=" ++ text).toList.dropWhile (· != '=') with
  | cons c rest => rfl
  | nil =>
      exact absurd (List.dropWhile_eq_nil_iff.mp h '=' hmem) (by decide)

/-- Going through an assignment does what it says and nothing else. -/
theorem visit_assignment {word : String} (hsome : (splitAssignment word).isSome = true)
    (parts : List Node) : visit (.command [.assignment word parts]) = assignText word := by
  refine Step.ext_run fun s => ?_
  obtain ⟨pair, hpair⟩ := Option.isSome_iff_exists.mp hsome
  show (command (.command [.assignment word parts])).run s = _
  simp [command, Invocation.gather, Node.walk, Node.walkAll, Invocation.visit, hpair,
    Invocation.close, assignText, Invocation.verb?]

theorem visit_assignmentTree (name text : String) :
    visit (.assignmentTree name text) = assignText (name ++ "=" ++ text) :=
  visit_assignment (splitAssignment_isSome name text) []

/-- An assignment leaves the tasks as they are. -/
theorem tasks_visit_assignmentTree (name text : String) (s : Session) :
    ((visit (.assignmentTree name text)).after s).tasks = s.tasks := by
  rw [visit_assignmentTree]
  exact ((assignText_uniform _).tasks_eq_iff s).mpr rfl

/-- One turn of a loop that is written out. -/
def turn (name : String) (body : Node) (word : String) : Step Unit := do
  visit (.assignmentTree name word)
  visit body

/-- A turn is the body, from where the variable has been set. -/
theorem run_turn (name : String) (body : Node) (word : String) (s : Session) :
    (turn name body word).run s
      = (visit body).run ((visit (.assignmentTree name word)).after s) := by
  have hassign : (visit (.assignmentTree name word)).run s
      = (.ok (), (visit (.assignmentTree name word)).after s) := by
    rw [Step.run_eq, visit_assignmentTree, assignText_outcome]
  exact Step.run_bind_ok hassign _

theorem turn_uniform {body : Node} {added : Settings → Nat} (h : Uniform added (visit body))
    (name word : String) : Uniform added (turn name body word) := by
  have hassign : Uniform (fun _ => 0) (visit (.assignmentTree name word)) := by
    rw [visit_assignmentTree]
    exact assignText_uniform _
  have hok : (visit (.assignmentTree name word)).outcome {} = .ok () := by
    rw [visit_assignmentTree, assignText_outcome]
  unfold turn
  simpa using hassign.bind_ok hok (k := fun _ => visit body) h

/-- A loop that is written out is gone through turn by turn. -/
theorem forM_unrolled (name : String) (words : List String) (body : Node) :
    (Node.unrolled name words body).forM visit = words.forM (turn name body) := by
  induction words with
  | nil => rfl
  | cons word rest ih =>
      show (visit (.assignmentTree name word) >>= fun _ => visit body >>= fun _ =>
        (Node.unrolled name rest body).forM visit) = (turn name body word >>= fun _ => _)
      rw [ih, turn, bind_assoc]

/-- Where the body ends well, the pass too many shows unless it adds no task. -/
theorem tasks_eq_unrolled_of_ok {body : Node} {added : Settings → Nat}
    (huniform : Uniform added (visit body)) (hok : ∀ s, (visit body).outcome s = .ok ())
    (name : String) (words : List String) (s : Session) :
    (((List.replicate (words.length + 1) body).forM visit).after s).tasks
        = (((Node.unrolled name words body).forM visit).after s).tasks
      ↔ ((visit body).after s).tasks = s.tasks := by
  have hloop : Uniform (fun settings => (words.length + 1) * added settings)
      ((List.replicate (words.length + 1) body).forM visit) := by
    have := forM_uniform_ok (f := visit) (List.replicate (words.length + 1) body)
      (fun tree htree => List.eq_of_mem_replicate htree ▸ hok)
      (fun tree htree => List.eq_of_mem_replicate htree ▸ huniform)
    rwa [List.length_replicate] at this
  have hunrolled : Uniform (fun settings => words.length * added settings)
      ((Node.unrolled name words body).forM visit) := by
    rw [forM_unrolled]
    refine forM_uniform_ok words (fun word _ s => ?_) (fun word _ => turn_uniform huniform name word)
    rw [Step.outcome, run_turn]
    exact hok _
  -- both sides add a multiple of what the body adds, and the multiples differ by one
  obtain ⟨new, hnew, hloop⟩ := hloop.adds s
  obtain ⟨new', hnew', hunrolled⟩ := hunrolled.adds s
  rw [hloop, hunrolled, huniform.tasks_eq_iff s, List.append_cancel_left_eq]
  constructor
  · intro heq
    have hlengths : (words.length + 1) * added s.settings = words.length * added s.settings := by
      rw [← hnew, ← hnew', heq]
    rw [Nat.succ_mul] at hlengths
    omega
  · intro hzero
    rw [hzero, Nat.mul_zero] at hnew hnew'
    rw [List.length_eq_zero_iff.mp hnew, List.length_eq_zero_iff.mp hnew']

/-- Where the body fails, a loop that is written out is its first turn. -/
theorem after_unrolled_of_error {body : Node} {f : Failure}
    (hfail : ∀ s, (visit body).outcome s = .error f) (name word : String) (rest : List String)
    (s : Session) :
    ((Node.unrolled name (word :: rest) body).forM visit).after s
      = (visit body).after ((visit (.assignmentTree name word)).after s) := by
  have hturn : (turn name body word).outcome s = .error f := by
    rw [Step.outcome, run_turn]
    exact hfail _
  rw [forM_unrolled, Step.after_forM_of_error hturn, Step.after, run_turn]
  rfl

/-- Where the body fails, what can differ is the tasks of its first pass. -/
theorem tasks_eq_unrolled_of_error {body : Node} {added : Settings → Nat} {f : Failure}
    (huniform : Uniform added (visit body)) (hfail : ∀ s, (visit body).outcome s = .error f)
    (name : String) (words : List String) (s : Session) :
    (((List.replicate (words.length + 1) body).forM visit).after s).tasks
        = (((Node.unrolled name words body).forM visit).after s).tasks
      ↔ ((visit body).after s).tasks = s.tasks ∨ ∃ word ∈ words.head?,
        ((visit body).after s).tasks
          = ((visit body).after ((visit (.assignmentTree name word)).after s)).tasks := by
  rw [List.replicate_succ, Step.after_forM_of_error (hfail s)]
  cases words with
  | nil =>
      constructor
      · intro heq
        exact .inl heq
      · rintro (heq | ⟨word, hword, -⟩)
        · exact heq
        · exact nomatch hword
  | cons word rest =>
      rw [after_unrolled_of_error hfail]
      constructor
      · intro heq
        exact .inr ⟨word, rfl, heq⟩
      · rintro (heq | ⟨other, hother, heq⟩)
        · -- a body that adds no task adds none behind an assignment either
          have hsettings := (visit_reaches (.assignmentTree name word) s).settings_eq
          rw [heq, (huniform.tasks_eq_iff _).mpr, tasks_visit_assignmentTree]
          rw [hsettings]
          exact (huniform.tasks_eq_iff s).mp heq
        · cases hother
          exact heq

/-- **A loop comes to the tasks of its unrolling only where nothing can be seen of it.**  The
    body is gone through once for each word and once more, and no variable is set; so the
    tasks are those of the body behind each assignment just where the body adds no task, or
    where it fails and the first word does not show in the tasks before the failure. -/
theorem loop_eq_unrolled_iff {body : Node} (hbody : body.simpleCommands?.isSome)
    (name : String) (words : List String) (semicolon : Bool) (s : Session) :
    visit (.forTree name words semicolon body)
        = (List.replicate (words.length + 1) body).forM visit ∧
    (((visit (.forTree name words semicolon body)).after s).tasks
        = (((Node.unrolled name words body).forM visit).after s).tasks
      ↔ ((visit body).after s).tasks = s.tasks ∨
        (∃ f, (visit body).outcome s = .error f) ∧ ∃ word ∈ words.head?,
          ((visit body).after s).tasks
            = ((visit body).after ((visit (.assignmentTree name word)).after s)).tasks) := by
  refine ⟨visit_forTree hbody name words semicolon, ?_⟩
  rw [visit_forTree hbody]
  obtain ⟨commands, hcommands⟩ := Option.isSome_iff_exists.mp hbody
  obtain ⟨added, huniform⟩ := commands_uniform commands
  rw [← visit_body hcommands] at huniform
  cases h : (visit body).outcome s with
  | ok u =>
      have hok : ∀ t, (visit body).outcome t = .ok () := by
        intro t
        rw [huniform.outcome_eq t s, h]
      rw [tasks_eq_unrolled_of_ok huniform hok name words s]
      simp
  | error f =>
      have hfail : ∀ t, (visit body).outcome t = .error f := by
        intro t
        rw [huniform.outcome_eq t s, h]
      rw [tasks_eq_unrolled_of_error huniform hfail name words s]
      simp

/-- A loop that copies a file for each of two words does not come to two copies. -/
theorem loop_copy_not_unrolled :
    ∃ body, body = Node.command [.word "cp" [], .word "/tmp/$s" [.parameter "s"],
        .word "/srv" []] ∧ body.simpleCommands?.isSome ∧
      ((visit (.forTree "s" ["a", "b"] false body)).after {}).tasks
        ≠ (((Node.unrolled "s" ["a", "b"] body).forM visit).after {}).tasks := by
  refine ⟨_, rfl, rfl, fun heq => ?_⟩
  rcases (loop_eq_unrolled_iff rfl "s" ["a", "b"] false {}).2.mp heq with hnone | ⟨⟨f, hf⟩, -⟩
  · have hlength := congrArg List.length hnone
    revert hlength
    decide +kernel
  · have hok : (visit (.command [.word "cp" [], .word "/tmp/$s" [.parameter "s"],
        .word "/srv" []])).outcome {} = .ok () := rfl
    rw [hok] at hf
    exact nomatch hf

end Session

end Playscript
