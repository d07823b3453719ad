import Playscript.Proofs.ControlFlow.Syntax

/-! # How an `if` is read

    A walk through an `if` keeps the last keyword in mind: it takes words in behind `if`,
    settles the test at `then`, and takes commands in behind `then`.  A test without
    keywords leaves the walk behind `if` with no command taken in (`run_plain`).  So the
    beginning of an `if`, up to its first `then`, can be read once and for all (`head`): what
    it comes to settles the verdict on the test, and the arms are read from there. -/

namespace Playscript

open Shell (Node)

namespace Condition

/-- A reading that goes on after another. -/
theorem run_bind_ok_iff {σ : Type} {x y : StateT σ (Except Failure) Unit} {c d : σ} :
    (x >>= fun _ => y).run c = .ok ((), d) ↔
      ∃ e, x.run c = .ok ((), e) ∧ y.run e = .ok ((), d) := by
  rw [StateT.run_bind]
  cases hx : x.run c with
  | error f => exact ⟨fun h => (nomatch h), fun ⟨_, h, _⟩ => (nomatch h)⟩
  | ok p =>
      constructor
      · intro h
        exact ⟨p.2, rfl, h⟩
      · rintro ⟨e, he, hy⟩
        cases he
        exact hy

theorem run_reserved (text : String) (h : text ≠ "then") (c : Condition) :
    ((Node.reserved text).walk visit).run c = .ok ((), { c with keyword := some text }) := by
  simp only [Node.walk, visit, h, if_false]
  rfl

/-- At `then` the test is settled. -/
theorem run_then (c : Condition) :
    ((Node.reserved "then").walk visit).run c
      = (settle { c with keyword := some "then" }).map fun d => ((), d) := by
  cases h : settle { c with keyword := some "then" } with
  | ok d => simp [Node.walk, visit, h]; rfl
  | error f => simp [Node.walk, visit, h]; rfl

/-- A test that is settled has a verdict, and nothing else has changed but its sides. -/
theorem settle_ok {c d : Condition} (h : settle c = .ok d) :
    d.verdict.isSome ∧ d.body = c.body ∧ d.keyword = c.keyword := by
  unfold settle at h
  split at h
  · cases h
    exact ⟨rfl, rfl, rfl⟩
  · exact nomatch h

/-- A word changes the sides of the test at most. -/
theorem takeWord_keeps (c : Condition) (word : String) :
    (c.takeWord word).keyword = c.keyword ∧ (c.takeWord word).body = c.body := by
  unfold takeWord
  split
  · split
    · exact ⟨rfl, rfl⟩
    · split
      · exact ⟨rfl, rfl⟩
      · exact ⟨rfl, rfl⟩
  · exact ⟨rfl, rfl⟩

/-- In a tree without keywords the walk stays behind `if` and takes no command in. -/
theorem run_plain {tree : Node} (hplain : tree.Plain) {c d : Condition}
    (hif : c.keyword = some "if") (hrun : (tree.walk visit).run c = .ok ((), d)) :
    d.keyword = some "if" ∧ d.body = c.body := by
  -- the walk that refuses keywords goes along, so that no keyword is left to be read
  have h : Node.Lockstep (m := Except Failure) (n := ReadingCondition)
      (fun x y => x = .ok () → ∀ c d : Condition, c.keyword = some "if" →
        y.run c = .ok ((), d) → d.keyword = some "if" ∧ d.body = c.body)
      Node.refuseKeyword visit :=
    { nothing := by
        intro _ c d hif hrun
        cases hrun
        exact ⟨hif, rfl⟩
      seq := by
        intro x y x' y' hx hy hxy c d hif hrun
        obtain ⟨e, hxe, hye⟩ := run_bind_ok_iff.mp hrun
        cases x with
        | error f => exact nomatch hxy
        | ok u =>
            obtain ⟨hif', hbody⟩ := hx rfl c e hif hxe
            obtain ⟨hif'', hbody'⟩ := hy hxy e d hif' hye
            exact ⟨hif'', hbody'.trans hbody⟩
      fail := fun f hf => nomatch hf
      node := by
        intro node below below' hbelow hnode c d hif hrun
        cases node with
        | reserved text => exact nomatch hnode
        | word text parts =>
            obtain ⟨hkeyword, hbody⟩ := takeWord_keeps c text
            obtain ⟨hif', hbody'⟩ :=
              hbelow hnode (c.takeWord text) d (hkeyword.trans hif) hrun
            exact ⟨hif', hbody'.trans hbody⟩
        | command parts =>
            have hthen : c.keyword ≠ some "then" := by
              rw [hif]
              decide
            refine hbelow hnode c d hif ?_
            simpa [visit, hthen] using hrun
        | list | pipeline | compound | branch | forLoop | whileLoop | untilLoop | function
        | assignment | redirect | channel | commandSubstitution | processSubstitution | operator
        | pipe | parameter | tilde | heredoc | unknown | incomplete =>
            exact hbelow hnode c d hif hrun }
  exact h.walk tree hplain c d hif hrun

/-- Reading an `if` is walking through its parts. -/
theorem read_eq_ok_iff {parts : List Node} {d : Condition} :
    read (.branch parts) = .ok d ↔ (Node.walkAll visit parts).run {} = .ok ((), d) := by
  show ((Node.walkAll visit parts).run {} >>= fun p => pure p.2) = .ok d ↔ _
  cases (Node.walkAll visit parts).run {} with
  | error f =>
      constructor
      · intro h
        cases h
      · intro h
        cases h
  | ok p =>
      constructor
      · intro h
        cases h
        rfl
      · intro h
        cases h
        rfl

/-- What has been read of an `if` at its first `then`. -/
def head (test : Node) : Except Failure Condition :=
  read (.branch [.reserved "if", test, .reserved "then"])

/-- The head of an `if` is read in two steps: the walk through its test, and the keyword behind it,
    which settles the test. -/
theorem head_eq_ok_iff {test : Node} {c : Condition} :
    head test = .ok c ↔ ∃ b, (test.walk visit).run { keyword := some "if" } = .ok ((), b) ∧
      ((Node.reserved "then").walk visit).run b = .ok ((), c) := by
  have hif := run_reserved "if" (by decide) {}
  rw [head, read_eq_ok_iff]
  constructor
  · intro h
    obtain ⟨a, ha, hrest⟩ := run_bind_ok_iff.mp h
    rw [hif] at ha
    cases ha
    obtain ⟨b, hb, hthen⟩ := run_bind_ok_iff.mp hrest
    obtain ⟨c', hc, hnothing⟩ := run_bind_ok_iff.mp hthen
    cases hnothing
    exact ⟨b, hb, hc⟩
  · rintro ⟨b, hb, hc⟩
    exact run_bind_ok_iff.mpr ⟨_, hif, run_bind_ok_iff.mpr ⟨b, hb,
      run_bind_ok_iff.mpr ⟨c, hc, rfl⟩⟩⟩

/-- At its first `then`, an `if` has a verdict on its test and no body yet. -/
theorem head_ok {test : Test} {c : Condition} (h : head test.node = .ok c) :
    c.keyword = some "then" ∧ c.body = [] ∧ c.verdict.isSome := by
  obtain ⟨b, htest, hthen⟩ := head_eq_ok_iff.mp h
  obtain ⟨-, hbody⟩ := run_plain test.plain rfl htest
  rw [run_then] at hthen
  cases hsettle : settle { b with keyword := some "then" } with
  | error f =>
      rw [hsettle] at hthen
      exact nomatch hthen
  | ok d =>
      rw [hsettle] at hthen
      cases hthen
      obtain ⟨hverdict, hsame, hkeyword⟩ := settle_ok hsettle
      exact ⟨hkeyword, hsame.trans hbody, hverdict⟩

/-- An `if` is read from its beginning on. -/
theorem read_branch_iff {test : Node} {rest : List Node} {d : Condition} :
    read (.branch (.reserved "if" :: test :: .reserved "then" :: rest)) = .ok d ↔
      ∃ c, head test = .ok c ∧ (Node.walkAll visit rest).run c = .ok ((), d) := by
  have happend : Node.walkAll visit (.reserved "if" :: test :: .reserved "then" :: rest)
      = (do Node.walkAll visit [.reserved "if", test, .reserved "then"];
            Node.walkAll visit rest) :=
    Node.walkAll_append [.reserved "if", test, .reserved "then"] rest
  rw [read_eq_ok_iff, happend, run_bind_ok_iff]
  simp only [head, read_eq_ok_iff]

/-- The verdict on a test is settled at its `then`. -/
theorem verdict?_of_head {test : Test} {c : Condition} (h : head test.node = .ok c) :
    test.verdict? = c.verdict := by
  have hread : read (.branch [.reserved "if", test.node, .reserved "then", .reserved "fi"])
      = .ok { c with keyword := some "fi" } := by
    refine read_branch_iff.mpr ⟨c, h, ?_⟩
    exact run_bind_ok_iff.mpr ⟨_, run_reserved "fi" (by decide) c, rfl⟩
  rw [Test.verdict?, hread]

end Condition

end Playscript
