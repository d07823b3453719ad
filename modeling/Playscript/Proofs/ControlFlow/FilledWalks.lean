import Playscript.Proofs.ControlFlow.Filling

/-! # What is read in a filled flow

    * An `if` that is read in a filled flow keeps the left side of its first test to the end,
      however deep the tests are that it meets, and takes each command in at most once
      (`read_filled`).
    * A `for` that is read replays at each `done` all commands so far for all words so far, so
      in one reading the number of replays is at most linear in the number of words
      (`loops_filled`). -/

namespace Playscript

open Shell (Node)
open Session (Action visit visitNode plan)

/-! ## The reading of an `if` -/

/-- The verdict on a test whose left side is that of the first test. -/
def verdictOn (side : String) : Verdict where
  holds := Comparison.equal.holds "outer" side
  ofStatus := false
  shown := "outer" ++ " " ++ Comparison.equal.sign ++ " " ++ side

/-- An `if` behind its first test: the left side is still that of the first test, and the right
    side, now and when the test was last settled, is one of some. -/
structure Held (sides : List String) (c : Condition) : Prop where
  keyword : c.keyword ≠ some "if"
  left : c.left = some "outer"
  comparison : c.comparison = some .equal
  right : ∃ side ∈ sides, c.right = some side
  verdict : ∃ side ∈ sides, c.verdict = some (verdictOn side)

/-- A reading that goes on from every such `if` to such an `if`, and takes in at most so many
    commands. -/
def Reads (sides : List String) (k _l : Nat) (x : ReadingCondition Unit) : Prop :=
  ∀ c, Held sides c → ∃ d n, x.run c = .ok ((), d) ∧ Held sides d ∧ n ≤ k ∧
    d.body = c.body ++ List.replicate n (.command ldconfigParts)

namespace Reads

variable {sides : List String}

/-- A reading that takes no command in. -/
theorem of_run {x : ReadingCondition Unit}
    (h : ∀ c, Held sides c → ∃ d, x.run c = .ok ((), d) ∧ Held sides d ∧ d.body = c.body)
    (k l : Nat) : Reads sides k l x := by
  intro c hc
  obtain ⟨d, hrun, hd, hbody⟩ := h c hc
  exact ⟨d, 0, hrun, hd, Nat.zero_le k, by simpa using hbody⟩

theorem nothing : Reads sides 0 0 (pure ()) :=
  of_run (fun c hc => ⟨c, rfl, hc, rfl⟩) 0 0

theorem seq {k l k' l' : Nat} {x y : ReadingCondition Unit} (hx : Reads sides k l x)
    (hy : Reads sides k' l' y) : Reads sides (k + k') (l + l') (x >>= fun _ => y) := by
  intro c hc
  obtain ⟨d, n, hxd, hd, hn, hbody⟩ := hx c hc
  obtain ⟨e, n', hye, he, hn', hbody'⟩ := hy d hd
  refine ⟨e, n + n', Condition.run_bind_ok_iff.mpr ⟨d, hxd, hye⟩, he, by omega, ?_⟩
  rw [hbody', hbody, List.append_assoc, List.replicate_append_replicate]

/-- A keyword other than `if` and `then`. -/
theorem reserved (text : String) (hif : text ≠ "if") (hthen : text ≠ "then") :
    Reads sides 0 0 ((Node.reserved text).walk Condition.visit) := by
  refine of_run (fun c hc => ⟨_, Condition.run_reserved text hthen c, ?_, rfl⟩) 0 0
  exact ⟨by simpa using hif, hc.left, hc.comparison, hc.right, hc.verdict⟩

/-- A word that does not stand behind `if`. -/
theorem word (text : String) : Reads sides 0 0 ((Node.word text []).walk Condition.visit) := by
  refine of_run (fun c hc => ⟨c, ?_, hc, rfl⟩) 0 0
  have hsame : c.takeWord text = c := by
    simp [Condition.takeWord, hc.keyword]
  show (do modify fun c => c.takeWord text; pure () : ReadingCondition Unit).run c = _
  simp [hsame]
  rfl

theorem words (texts : List String) :
    Reads sides 0 0 (Node.walkAll Condition.visit (texts.map (Node.word · []))) := by
  induction texts with
  | nil => exact nothing
  | cons text rest ih => exact (word text).seq ih

/-- In front of `then` a command is walked through, and behind it counts for the body. -/
theorem command :
    Reads sides 1 0 ((Node.command ldconfigParts).walk Condition.visit) := by
  intro c hc
  by_cases hthen : c.keyword = some "then"
  · refine ⟨{ c with body := c.body ++ [.command ldconfigParts] }, 1, ?_, ?_, Nat.le_refl 1, rfl⟩
    · simp only [Node.walk]
      simp [Condition.visit, hthen]
      rfl
    · exact ⟨hc.keyword, hc.left, hc.comparison, hc.right, hc.verdict⟩
  · obtain ⟨d, n, hrun, hd, hn, hbody⟩ := words ["ldconfig"] c hc
    refine ⟨d, n, ?_, hd, Nat.le_succ_of_le hn, hbody⟩
    rw [← hrun]
    simp only [Node.walk]
    simp [Condition.visit, hthen]
    rfl

/-- The parts of a loop. -/
theorem loop {k l : Nat} {texts : List String} (name : String) (semicolon : Bool) (body : Node)
    (hbody : Reads sides k l (body.walk Condition.visit)) :
    Reads sides k (l + 1)
      (Node.walkAll Condition.visit (Node.forParts name texts semicolon body)) := by
  have hsemicolon : Reads sides 0 0
      (Node.walkAll Condition.visit (if semicolon then [.reserved ";"] else [])) := by
    cases semicolon with
    | false => exact nothing
    | true => exact (reserved ";" (by decide) (by decide)).seq nothing
  have hend : Reads sides k l (Node.walkAll Condition.visit
      [.reserved "do", body, .reserved "done"]) := by
    simpa [Node.walkAll] using (reserved "do" (by decide) (by decide)).seq
      (hbody.seq ((reserved "done" (by decide) (by decide)).seq nothing))
  have hrest : Reads sides k l (Node.walkAll Condition.visit (texts.map (Node.word · [])
      ++ ((if semicolon then [.reserved ";"] else []) ++ [.reserved "do", body, .reserved "done"])))
      := by
    rw [Node.walkAll_append, Node.walkAll_append]
    simpa using (words texts).seq (hsemicolon.seq hend)
  have hall := (reserved "for" (by decide) (by decide)).seq
    ((word name).seq ((reserved "in" (by decide) (by decide)).seq hrest))
  intro c hc
  obtain ⟨d, n, hrun, hd, hn, hsame⟩ := hall c hc
  exact ⟨d, n, hrun, hd, by omega, hsame⟩

end Reads

/-- The words of a test are taken in one after the other. -/
theorem run_comparing (side : String) {c : Condition} (h : c.keyword ≠ some "then") :
    ((Test.comparing side).node.walk Condition.visit).run c
      = .ok ((), ["[", side, "-eq", side, "]"].foldl Condition.takeWord c) := by
  simp only [Test.comparing, Node.walk, Node.walkAll]
  simp [Condition.visit, h]
  rfl

/-- An `if` whose test has been settled with the left side of the first test. -/
def settledOn (side : String) (c : Condition) : Condition :=
  { c with
    keyword := some "then"
    left := some "outer"
    comparison := some .equal
    right := some side
    verdict := some (verdictOn side) }

theorem settledOn_held {sides : List String} {side : String} (hside : side ∈ sides)
    (c : Condition) : Held sides (settledOn side c) where
  keyword := by simp [settledOn]
  left := rfl
  comparison := rfl
  right := ⟨side, hside, rfl⟩
  verdict := ⟨side, hside, rfl⟩

/-- At `then` the test is settled with the left side of the first test. -/
theorem run_then_held {c : Condition} {side : String} (hleft : c.left = some "outer")
    (hcomparison : c.comparison = some .equal) (hright : c.right = some side)
    (hstatus : side ≠ "$?") :
    ((Node.reserved "then").walk Condition.visit).run c = .ok ((), settledOn side c) := by
  have hsettle : Condition.settle { c with keyword := some "then" } = .ok (settledOn side c) := by
    simp [Condition.settle, hleft, hcomparison, hright, Condition.statusSide, hstatus, verdictOn,
      settledOn]
  rw [Condition.run_then, hsettle]
  rfl

/-- A test further in changes the right side and with it the verdict; behind `elif` a test is
    not even read. -/
theorem Reads.opening {sides : List String} (hsides : ∀ side ∈ sides, side ≠ "$?")
    (hinner : "inner" ∈ sides) : ∀ text ∈ ["if", "elif"],
    Reads sides 0 0 (Node.walkAll Condition.visit (opening text (.comparing "inner"))) := by
  intro text htext
  refine of_run (fun c hc => ?_) 0 0
  -- what the test leaves: the sides of the first one, but for the right side behind `if`
  have htest : ∃ b side, ((Test.comparing "inner").node.walk Condition.visit).run
      { c with keyword := some text } = .ok ((), b) ∧ b.left = some "outer" ∧
      b.comparison = some .equal ∧ b.right = some side ∧ side ∈ sides ∧ b.body = c.body := by
    rcases List.mem_cons.mp htext with rfl | htext
    · refine ⟨_, "inner", run_comparing "inner" (by simp), ?_⟩
      simp [Condition.takeWord, hc.comparison, hc.left, hinner]
    · obtain rfl := List.mem_singleton.mp htext
      obtain ⟨side, hside, hright⟩ := hc.right
      refine ⟨_, side, run_comparing "inner" (by simp), ?_⟩
      simp [Condition.takeWord, hc.comparison, hc.left, hright, hside]
  obtain ⟨b, side, hrun, hleft, hcomparison, hright, hside, hbody⟩ := htest
  have hthen := run_then_held hleft hcomparison hright (hsides side hside)
  have hne : text ≠ "then" := by
    rintro rfl
    simp at htext
  refine ⟨settledOn side b, ?_, settledOn_held hside b, hbody⟩
  exact Condition.run_bind_ok_iff.mpr ⟨_, Condition.run_reserved text hne c,
    Condition.run_bind_ok_iff.mpr ⟨b, hrun, Condition.run_bind_ok_iff.mpr ⟨_, hthen, rfl⟩⟩⟩

/-- The reading of an `if` covers filled flows. -/
theorem covers_reads (sides : List String) (words : List String) :
    Covers Condition.visit words (Reads sides) where
  list _ _ := rfl
  operator _ _ := rfl
  compound _ _ _ := rfl
  branch _ _ := rfl
  forLoop _ _ := rfl
  nothing := Reads.nothing
  seq := Reads.seq
  command := Reads.command
  keyword := by
    intro text htext
    rcases List.mem_cons.mp htext with rfl | htext
    · exact Reads.reserved "else" (by decide) (by decide)
    · obtain rfl := List.mem_singleton.mp htext
      exact Reads.reserved "fi" (by decide) (by decide)
  loop := Reads.loop

/-- **A filled `if` is read under one verdict**, whose left side is that of its first test; each
    command is taken in at most once. -/
theorem read_filled {sides : List String} (hsides : ∀ side ∈ sides, side ≠ "$?")
    (houter : "outer" ∈ sides) (words : List String) (body : Flow) (arms : Arms)
    (hinner : body.Branches ∨ arms.Nests → "inner" ∈ sides) :
    ∃ c n side, Condition.read (.branch (.reserved "if" :: (Test.comparing "outer").node
        :: .reserved "then" :: (body.fill words (.comparing "inner")).toNode
        :: (arms.fill words).toNodes)) = .ok c ∧
      c.body = List.replicate n (.command ldconfigParts) ∧
      n ≤ body.commands.length + arms.commands.length ∧
      side ∈ sides ∧ c.verdict = some (verdictOn side) := by
  have hopens : "inner" ∈ sides → Opens Condition.visit (Reads sides) (.comparing "inner") :=
    fun h => ⟨Reads.opening hsides h "if" (by simp), Reads.opening hsides h⟩
  have hcovers := covers_reads sides words
  have hbody := hcovers.flow (.comparing "inner") body fun h => hopens (hinner (.inl h))
  have harms := hcovers.arms arms fun h => hopens (hinner (.inr h))
  have hhead : Condition.head (Test.comparing "outer").node = .ok (settledOn "outer" {}) := rfl
  -- only behind the first test is there an `if` that holds its left side
  obtain ⟨c, n, hrun, hc, hn, hcommands⟩ := hbody.seq harms _ (settledOn_held houter {})
  obtain ⟨side, hside, hverdict⟩ := hc.verdict
  exact ⟨c, n, side, Condition.read_branch_iff.mpr ⟨_, hhead, hrun⟩, hcommands, hn, hside,
    hverdict⟩

/-! ## The reading of a `for` -/

/-- What a reading makes of a loop, and what it asks for on the way: words and commands are
    only added, no more than so many for each loop and command that is read, and for each loop
    all commands are replayed for all words at most once. -/
structure Grown (n k l : Nat) (a b : Loop) (actions : List Action) : Prop where
  same : ∀ c ∈ b.body, c = .command ldconfigParts
  words_le : a.words.length ≤ b.words.length
  words_bound : b.words.length ≤ a.words.length + l * n
  body_le : a.body.length ≤ b.body.length
  body_bound : b.body.length ≤ a.body.length + k
  performs : ∀ action ∈ actions, action = .perform (.command ldconfigParts)
  length_bound : actions.length ≤ l * (b.words.length * b.body.length)

/-- A reading that grows every loop so, when each loop in it goes through `n` words. -/
def Replays (n k l : Nat) (x : StateT Loop Plan Unit) : Prop :=
  ∀ a : Loop, (∀ c ∈ a.body, c = .command ldconfigParts) →
    ∃ b actions, x.run a = ⟨actions, .ok ((), b)⟩ ∧ Grown n k l a b actions

namespace Replays

variable {n : Nat}

/-- A reading that changes neither words nor commands and asks for nothing. -/
theorem of_run {x : StateT Loop Plan Unit}
    (h : ∀ a : Loop, ∃ b : Loop, x.run a = pure ((), b) ∧ b.words = a.words ∧ b.body = a.body) :
    Replays n 0 0 x := by
  intro a ha
  obtain ⟨b, hrun, hwords, hbody⟩ := h a
  have hwords' : b.words.length = a.words.length := by rw [hwords]
  have hbody' : b.body.length = a.body.length := by rw [hbody]
  exact ⟨b, [], hrun, hbody ▸ ha, by omega, by omega, by omega, by omega,
    fun action h => (nomatch h), Nat.zero_le _⟩

theorem nothing : Replays n 0 0 (pure ()) :=
  of_run fun a => ⟨a, rfl, rfl, rfl⟩

/-- Commands and loops add up.  What the first reading has replayed is bounded by the loop that it
    leaves, hence by the larger one that the second leaves. -/
theorem seq {k l k' l' : Nat} {x y : StateT Loop Plan Unit} (hx : Replays n k l x)
    (hy : Replays n k' l' y) : Replays n (k + k') (l + l') (x >>= fun _ => y) := by
  intro a ha
  obtain ⟨b, first, hxb, hb⟩ := hx a ha
  obtain ⟨c, second, hyc, hc⟩ := hy b hb.same
  refine ⟨c, first ++ second, ?_, ?_⟩
  · rw [StateT.run_bind, hxb, Plan.bind_ok rfl, hyc]
  · have hwords := hb.words_bound
    have hwords' := hc.words_bound
    have hbody := hb.body_bound
    have hbody' := hc.body_bound
    -- what the first reading replayed is bounded by the loop as the second one leaves it
    have hgrown : b.words.length * b.body.length ≤ c.words.length * c.body.length :=
      Nat.mul_le_mul hc.words_le hc.body_le
    refine ⟨hc.same, Nat.le_trans hb.words_le hc.words_le, ?_,
      Nat.le_trans hb.body_le hc.body_le, by omega, ?_, ?_⟩
    · rw [Nat.add_mul]
      omega
    · intro action haction
      rcases List.mem_append.mp haction with h | h
      · exact hb.performs action h
      · exact hc.performs action h
    · calc (first ++ second).length
          = first.length + second.length := List.length_append
        _ ≤ l * (b.words.length * b.body.length) + l' * (c.words.length * c.body.length) :=
            Nat.add_le_add hb.length_bound hc.length_bound
        _ ≤ l * (c.words.length * c.body.length) + l' * (c.words.length * c.body.length) :=
            Nat.add_le_add_right (Nat.mul_le_mul_left l hgrown) _
        _ = (l + l') * (c.words.length * c.body.length) := (Nat.add_mul _ _ _).symm

/-- The walk that reads a loop for a plan. -/
abbrev reading : Node → StateT Loop Plan Unit → StateT Loop Plan Unit :=
  Loop.visit fun _ _ tree => Plan.ask (.perform tree)

theorem reserved (text : String) (hdone : text ≠ "done") :
    Replays n 0 0 ((Node.reserved text).walk reading) :=
  of_run fun a => ⟨_, Loop.run_reserved _ text hdone a, rfl, rfl⟩

/-- Inside a loop a command is put to the body, and outside of one nothing is replayed. -/
theorem command : Replays n 1 0 ((Node.command ldconfigParts).walk reading) := by
  intro a ha
  by_cases hdo : a.keyword = some "do"
  · refine ⟨{ a with body := a.body ++ [.command ldconfigParts] }, [], ?_, ?_⟩
    · simp only [Node.walk]
      simp [reading, Loop.visit, hdo]
      rfl
    · refine ⟨?_, Nat.le_refl _, by simp, by simp, by simp, List.forall_mem_nil _,
        Nat.zero_le _⟩
      intro c hc
      rcases List.mem_append.mp hc with h | h
      · exact ha c h
      · exact List.mem_singleton.mp h
  · refine ⟨a, [], ?_, ?_⟩
    · simp only [Node.walk]
      simp [reading, Loop.visit, hdo]
      rfl
    · exact ⟨ha, Nat.le_refl _, by omega, Nat.le_refl _, by omega, List.forall_mem_nil _,
        Nat.zero_le _⟩

/-- A test between its keywords is not part of a body. -/
theorem opening (side : String) : ∀ text ∈ ["if", "elif"],
    Replays n 0 0 (Node.walkAll reading (opening text (.comparing side))) := by
  intro text htext
  refine of_run fun a => ⟨{ a with keyword := some "then" }, ?_, rfl, rfl⟩
  rcases List.mem_cons.mp htext with rfl | htext
  · simp [Playscript.opening, Test.comparing, Node.walkAll, Node.walk, reading, Loop.visit]
  · obtain rfl := List.mem_singleton.mp htext
    simp [Playscript.opening, Test.comparing, Node.walkAll, Node.walk, reading, Loop.visit]

/-- The last keyword asks for all commands for all words. -/
theorem run_done (a : Loop) :
    ((Node.reserved "done").walk reading).run a
      = ⟨a.words.flatMap fun _ => a.body.map Action.perform,
          .ok ((), { a with keyword := some "done" })⟩ := by
  have hbody : (a.body.forM fun tree => Plan.ask (.perform tree))
      = ⟨a.body.map Action.perform, .ok ()⟩ := by
    rw [Plan.forM_of_ok _ fun _ _ => rfl, List.map_eq_flatMap]
    rfl
  have hreplay : Loop.replay (fun _ _ tree => Plan.ask (.perform tree))
      { a with keyword := some "done" }
        = ⟨a.words.flatMap fun _ => a.body.map Action.perform, .ok ()⟩ := by
    show (a.words.forM fun _ => a.body.forM fun tree => Plan.ask (.perform tree)) = _
    rw [hbody, Plan.forM_of_ok _ fun _ _ => rfl]
  rw [Loop.run_done, hreplay, Plan.bind_ok rfl, Plan.pure_def, List.append_nil]

/-- A loop that is read adds its words, and replays at its end. -/
theorem loop {k l : Nat} {words : List String} (hwords : words.length = n) (name : String)
    (semicolon : Bool) (body : Node) (hbody : Replays n k l (body.walk reading)) :
    Replays n k (l + 1) (Node.walkAll reading (Node.forParts name words semicolon body)) := by
  intro a ha
  obtain ⟨b, actions, hrun, hb⟩ := hbody
    { a with keyword := some "do", varName := some name, words := a.words ++ words } ha
  have hfirst : a.words.length + n ≤ b.words.length := by
    simpa [hwords] using hb.words_le
  have hlast : b.words.length ≤ a.words.length + n + l * n := by
    simpa [hwords] using hb.words_bound
  refine ⟨{ b with keyword := some "done" },
    actions ++ b.words.flatMap fun _ => b.body.map Action.perform, ?_, ?_⟩
  · rw [Loop.run_forParts, StateT.run_bind, hrun, Plan.bind_ok rfl, run_done]
  · refine ⟨hb.same, ?_, ?_, hb.body_le, hb.body_bound, ?_, ?_⟩
    · show a.words.length ≤ b.words.length
      omega
    · show b.words.length ≤ a.words.length + (l + 1) * n
      rw [Nat.succ_mul]
      omega
    · intro action haction
      rcases List.mem_append.mp haction with h | h
      · exact hb.performs action h
      · obtain ⟨_, -, hmem⟩ := List.mem_flatMap.mp h
        obtain ⟨c, hc, rfl⟩ := List.mem_map.mp hmem
        rw [hb.same c hc]
    · calc (actions ++ b.words.flatMap fun _ => b.body.map Action.perform).length
          = actions.length + b.words.length * b.body.length := by simp
        _ ≤ l * (b.words.length * b.body.length) + b.words.length * b.body.length :=
            Nat.add_le_add_right hb.length_bound _
        _ = (l + 1) * (b.words.length * b.body.length) := (Nat.succ_mul _ _).symm

/-- The reading of a `for` covers filled flows. -/
theorem covers (words : List String) : Covers reading words (Replays words.length) where
  list _ _ := rfl
  operator _ _ := rfl
  compound _ _ _ := rfl
  branch _ _ := rfl
  forLoop _ _ := rfl
  nothing := nothing
  seq := seq
  command := command
  keyword := by
    intro text htext
    rcases List.mem_cons.mp htext with rfl | htext
    · exact reserved "else" (by decide)
    · obtain rfl := List.mem_singleton.mp htext
      exact reserved "fi" (by decide)
  loop := loop rfl

end Replays

/-- **A filled `for` that is read replays at most linearly often**: it asks for `ldconfig` alone,
    and no more often than there are loops, words of all loops, and commands. -/
theorem loops_filled (words : List String) (name : String) (semicolon : Bool) (side : String)
    (body : Flow) :
    ∃ actions l, Loop.run (fun _ _ tree => Plan.ask (.perform tree))
        (.forLoop (Node.forParts name words semicolon
          (body.fill words (.comparing side)).toNode)) = ⟨actions, .ok l⟩ ∧
      (∀ action ∈ actions, action = .perform (.command ldconfigParts)) ∧
      actions.length ≤ (body.loops + 1)
        * ((body.loops + 1) * words.length * body.commands.length) := by
  have hcovers := Replays.covers words
  have hopens : Opens Replays.reading (Replays words.length) (.comparing side) :=
    ⟨Replays.opening side "if" (by simp), Replays.opening "inner"⟩
  obtain ⟨b, actions, hrun, hb⟩ := hcovers.loop name semicolon _
    (hcovers.flow (.comparing side) body fun _ => hopens) {} (List.forall_mem_nil _)
  refine ⟨actions, b, ?_, hb.performs, ?_⟩
  · show ((Node.walkAll Replays.reading (Node.forParts name words semicolon
        (body.fill words (.comparing side)).toNode)).run {} >>= fun p => pure p.2) = _
    rw [hrun, Plan.bind_ok rfl]
    show (⟨actions ++ [], .ok b⟩ : Plan Loop) = _
    rw [List.append_nil]
  · have hwords : b.words.length ≤ (body.loops + 1) * words.length := by
      simpa using hb.words_bound
    have hbody : b.body.length ≤ body.commands.length := by
      simpa using hb.body_bound
    exact Nat.le_trans hb.length_bound
      (Nat.mul_le_mul_left _ (Nat.mul_le_mul hwords hbody))

end Playscript
