import Playscript.Proofs.GuardedBodies
import Playscript.Proofs.OwnWords

/-! # The words that a condition is made of

    The test of an `if` is read word by word, with one place for each side and one for the
    comparison, and each side is written over by the next word for it.  So it makes no difference
    how many commands the words come from: what is compared is the last word in front of the
    first comparison with the last word of all (`Compared.ofWords?`, `Condition.read_of_compared`).

    A test should be one command of three words, a side, a comparison and a side
    (`Node.IsTestOf`).  For any other test the tasks of the body are put on a condition just the
    same as soon as there are two sides and a comparison, and then its words may belong to
    different comparisons (`guards_of_sole_tests_iff`). -/

namespace Playscript

open Shell (Node)

/-! ## What a walk through a test meets -/

/-- A word or a keyword on a walk through a test. -/
inductive TestPart where
  | word (text : String)
  | keyword (text : String)
deriving DecidableEq

def isBracket (word : String) : Bool :=
  word == "[" || word == "]"

namespace TestPart

/-- Notes what a walk meets; it stops at a `then`, where a test would be settled. -/
def note : Node → StateT (List TestPart) (Except Failure) Unit →
    StateT (List TestPart) (Except Failure) Unit
  | .reserved text, _ =>
    if text = "then" then throw .missingPart else modify (· ++ [.keyword text])
  | .word text _, below => do
    modify (· ++ [.word text])
    below
  | _, below => below

/-- The words with `if` as the last keyword in front of them, brackets aside. -/
def wordsBehindIf : Bool → List TestPart → List String
  | _, [] => []
  | _, .keyword text :: rest => wordsBehindIf (text == "if") rest
  | behindIf, .word text :: rest =>
    if behindIf && !isBracket text then text :: wordsBehindIf behindIf rest
    else wordsBehindIf behindIf rest

/-- Of `[ left word right ]` the brackets are left out. -/
theorem wordsBehindIf_test {left word right : String} {comparison : Comparison}
    (hleft : isSide left = true) (hword : Comparison.ofWord? word = some comparison)
    (hright : isSide right = true) :
    wordsBehindIf true [.word "[", .word left, .word word, .word right, .word "]"]
      = [left, word, right] := by
  have hside : ∀ {side : String}, isSide side = true → isBracket side = false := by
    intro side h
    simp [isBracket, ne_bracket_of_isSide h]
  have hbracket : isBracket word = false := by
    by_contra h
    simp only [isBracket, Bool.or_eq_true, beq_iff_eq, Bool.not_eq_false] at h
    rcases h with rfl | rfl
    · cases hword
    · cases hword
  have hopen : isBracket "[" = true := rfl
  have hclose : isBracket "]" = true := rfl
  simp [wordsBehindIf, hside hleft, hside hright, hbracket, hopen, hclose]

end TestPart

/-- The words and keywords of a tree in which no `then` stands. -/
def Shell.Node.testParts? (tree : Node) : Option (List TestPart) :=
  ((tree.walk TestPart.note).run []).toOption.map Prod.snd

namespace Shell.Node

/-- The parts of `if test; then body`, and what stands behind the body. -/
def ifParts (test body : Node) (tail : List Node) : List Node :=
  .reserved "if" :: test :: .reserved "then" :: body :: tail

/-- Whether a keyword ends the body of an `if` and no `then` comes behind it. -/
def closesIf : List Node → Bool
  | .reserved text :: rest => text != "then" && rest.all (·.testParts?.isSome)
  | _ => false

end Shell.Node

/-- Two sides and the comparison between them. -/
structure Compared where
  left : String
  comparison : Comparison
  right : String
deriving DecidableEq

namespace Compared

def isComparison (word : String) : Bool :=
  (Comparison.ofWord? word).isSome

/-- What words compare: the last one in front of the first comparison, and the last one behind
    it. -/
def ofWords? (words : List String) : Option Compared := do
  let behind := words.dropWhile (!isComparison ·)
  return {
    left := ← (words.takeWhile (!isComparison ·)).getLast?
    comparison := ← behind.head?.bind Comparison.ofWord?
    right := ← behind.tail.getLast? }

/-- A side, a comparison and one more word compare the two. -/
theorem ofWords?_three {left word : String} {comparison : Comparison}
    (hleft : isSide left = true) (hword : Comparison.ofWord? word = some comparison)
    (right : String) : ofWords? [left, word, right] = some ⟨left, comparison, right⟩ := by
  simp [ofWords?, isComparison, ofWord?_of_isSide hleft, hword]

/-- The verdict on two sides, the status being `0` where one of them asks for it. -/
def verdict (x : Compared) : Verdict :=
  let left := Condition.statusSide x.left
  let right := if x.left = "$?" then x.right else Condition.statusSide x.right
  { holds := x.comparison.holds left right
    ofStatus := x.left = "$?" || x.right = "$?"
    shown := left ++ " " ++ x.comparison.sign ++ " " ++ right }

end Compared

/-! ## Words written over one another -/

/-- The places for the words of a test. -/
structure Sides where
  left : Option String := none
  comparison : Option Comparison := none
  right : Option String := none

namespace Sides

/-- Takes a word in, over what is in its place. -/
def take (s : Sides) (word : String) : Sides :=
  if s.comparison.isSome then { s with right := some word }
  else match Comparison.ofWord? word with
    | some comparison => { s with comparison := some comparison }
    | none => { s with left := some word }

/-- What is compared, if every place has its word. -/
def compared? (s : Sides) : Option Compared := do
  return { left := ← s.left, comparison := ← s.comparison, right := ← s.right }

theorem compared?_eq_some_iff {s : Sides} {x : Compared} : s.compared? = some x ↔
    s.left = some x.left ∧ s.comparison = some x.comparison ∧ s.right = some x.right := by
  obtain ⟨left, comparison, right⟩ := s
  obtain ⟨left', comparison', right'⟩ := x
  simp only [compared?, Option.bind_eq_bind, Option.bind_eq_some_iff, Option.pure_def,
    Option.some.injEq, Compared.mk.injEq]
  constructor
  · rintro ⟨l, rfl, c, rfl, r, rfl, rfl, rfl, rfl⟩
    exact ⟨rfl, rfl, rfl⟩
  · rintro ⟨rfl, rfl, rfl⟩
    exact ⟨_, rfl, _, rfl, _, rfl, rfl, rfl, rfl⟩

/-- Behind a comparison the last word stays. -/
theorem foldl_take_right {s : Sides} (h : s.comparison.isSome = true) (words : List String) :
    words.foldl take s = { s with right := words.getLast?.or s.right } := by
  induction words generalizing s with
  | nil => rfl
  | cons word rest ih =>
      have hfirst : s.take word = { s with right := some word } := by rw [take, if_pos h]
      rw [List.foldl_cons, hfirst, @ih { s with right := some word } h, List.getLast?_cons]
      cases rest.getLast? with
      | none => rfl
      | some last => rfl

/-- The last word in front of the first comparison stays, and the last one behind it. -/
theorem foldl_take_left (left : Option String) (words : List String) :
    words.foldl take { left := left } =
      { left := (words.takeWhile (!Compared.isComparison ·)).getLast?.or left
        comparison := (words.dropWhile (!Compared.isComparison ·)).head?.bind Comparison.ofWord?
        right := (words.dropWhile (!Compared.isComparison ·)).tail.getLast? } := by
  induction words generalizing left with
  | nil => rfl
  | cons word rest ih =>
      rw [List.foldl_cons]
      cases hword : Comparison.ofWord? word with
      | some comparison =>
          have hfirst : take { left := left } word
              = { left := left, comparison := some comparison } := by simp [take, hword]
          rw [hfirst, foldl_take_right rfl]
          simp [Compared.isComparison, hword]
      | none =>
          have hfirst : take { left := left } word = { left := some word } := by simp [take, hword]
          rw [hfirst, ih]
          simp [Compared.isComparison, hword, List.getLast?_cons]

/-- Words leave in their places what they compare. -/
theorem compared?_foldl_take (words : List String) :
    (words.foldl take {}).compared? = Compared.ofWords? words := by
  rw [foldl_take_left none words, Option.or_none]
  rfl

end Sides

namespace Condition

/-- The words that have been taken in for a test. -/
def sides (c : Condition) : Sides where
  left := c.left
  comparison := c.comparison
  right := c.right

/-- Takes in a word or a keyword. -/
def takePart (c : Condition) : TestPart → Condition
  | .word text => c.takeWord text
  | .keyword text => { c with keyword := some text }

/-- A word goes to its place if it stands behind `if` and is no bracket. -/
theorem takeWord_sides (c : Condition) (word : String) :
    (c.takeWord word).sides =
      (if c.keyword == some "if" && !isBracket word then c.sides.take word else c.sides) ∧
    (c.takeWord word).keyword = c.keyword ∧ (c.takeWord word).verdict = c.verdict ∧
    (c.takeWord word).body = c.body := by
  have htest : (c.keyword == some "if" && !isBracket word)
      = (c.keyword = some "if" && word != "[" && word != "]") := by
    rw [isBracket, Bool.not_or, Bool.and_assoc, beq_eq_decide]
    rfl
  rw [htest, takeWord]
  split
  · unfold Sides.take
    show _ ∧ _
    cases hcomparison : c.comparison with
    | some comparison => simp [sides, hcomparison]
    | none =>
        cases Comparison.ofWord? word with
        | some comparison => simp [sides, hcomparison]
        | none => simp [sides, hcomparison]
  · exact ⟨rfl, rfl, rfl, rfl⟩

/-- Of all that is met, just the words behind `if` go to their places. -/
theorem foldl_takePart (parts : List TestPart) (c : Condition) :
    (parts.foldl takePart c).sides =
      (TestPart.wordsBehindIf (c.keyword == some "if") parts).foldl Sides.take c.sides ∧
    (parts.foldl takePart c).verdict = c.verdict ∧ (parts.foldl takePart c).body = c.body := by
  induction parts generalizing c with
  | nil => exact ⟨rfl, rfl, rfl⟩
  | cons part rest ih =>
      rw [List.foldl_cons]
      cases part with
      | keyword text => exact ih { c with keyword := some text }
      | word text =>
          obtain ⟨hsides, hverdict, hbody⟩ := ih (c.takeWord text)
          obtain ⟨hword, hkeyword, hverdict', hbody'⟩ := c.takeWord_sides text
          refine ⟨?_, hverdict.trans hverdict', hbody.trans hbody'⟩
          rw [hkeyword, hword] at hsides
          refine hsides.trans ?_
          rw [TestPart.wordsBehindIf]
          split
          · rfl
          · rfl

/-- Outside of a body, reading a tree without `then` takes in what is met there, and does not lead
    into a body. -/
theorem run_of_testParts {tree : Node} {parts : List TestPart}
    (h : tree.testParts? = some parts) {c : Condition} (hthen : c.keyword ≠ some "then") :
    (tree.walk visit).run c = .ok ((), parts.foldl takePart c) ∧
      (parts.foldl takePart c).keyword ≠ some "then" := by
  have hlock : Node.Lockstep (m := StateT (List TestPart) (Except Failure))
      (n := ReadingCondition)
      (fun x y => ∀ before after, x.run before = .ok ((), after) →
        ∃ new, after = before ++ new ∧ ∀ c : Condition, c.keyword ≠ some "then" →
          y.run c = .ok ((), new.foldl takePart c) ∧
            (new.foldl takePart c).keyword ≠ some "then")
      TestPart.note visit :=
    { nothing := by
        intro before after hrun
        cases hrun
        exact ⟨[], (List.append_nil _).symm, fun c hc => ⟨rfl, hc⟩⟩
      seq := by
        intro x y x' y' hx hy before after hrun
        obtain ⟨between, hfirst, hsecond⟩ := run_bind_ok_iff.mp hrun
        obtain ⟨new, rfl, hnew⟩ := hx _ _ hfirst
        obtain ⟨more, rfl, hmore⟩ := hy _ _ hsecond
        refine ⟨new ++ more, List.append_assoc .., fun c hc => ?_⟩
        obtain ⟨hrun', hc'⟩ := hnew c hc
        rw [List.foldl_append]
        exact ⟨run_bind_ok_iff.mpr ⟨_, hrun', (hmore _ hc').1⟩, (hmore _ hc').2⟩
      fail := by
        intro f before after hrun
        cases hrun
      node := by
        intro node below below' hbelow before after hrun
        cases node with
        | reserved text =>
            by_cases htext : text = "then"
            · simp only [TestPart.note, if_pos htext] at hrun
              cases hrun
            · simp only [TestPart.note, if_neg htext] at hrun
              cases hrun
              refine ⟨[.keyword text], rfl, fun c _ => ⟨?_, ?_⟩⟩
              · simp only [visit, htext, if_false]
                rfl
              · exact fun h => htext (Option.some.inj h)
        | word text parts =>
            obtain ⟨new, rfl, hnew⟩ := hbelow _ _ hrun
            refine ⟨.word text :: new, List.append_assoc .., fun c hc => ?_⟩
            exact hnew (c.takeWord text) ((c.takeWord_keeps text).1.symm ▸ hc)
        | command parts =>
            obtain ⟨new, rfl, hnew⟩ := hbelow _ _ hrun
            refine ⟨new, rfl, fun c hc => ?_⟩
            have hvisit : (visit (.command parts) below').run c = below'.run c := by
              simp [visit, hc]
            rw [hvisit]
            exact hnew c hc
        | list | pipeline | compound | branch | forLoop | whileLoop | untilLoop | function
        | assignment | redirect | channel | commandSubstitution | processSubstitution | operator
        | pipe | parameter | tilde | heredoc | unknown | incomplete => exact hbelow _ _ hrun }
  rw [Node.testParts?] at h
  cases hrun : (tree.walk TestPart.note).run [] with
  | error f =>
      rw [hrun] at h
      cases h
  | ok noted =>
      rw [hrun] at h
      cases h
      obtain ⟨new, hnew, hread⟩ := hlock.walk tree [] noted.2 hrun
      rw [List.nil_append] at hnew
      exact hnew ▸ hread c hthen

/-- Behind an `if` with no further `then`, the verdict and the body stay. -/
theorem run_closing {rest : List Node} (h : rest.all (·.testParts?.isSome) = true) {c : Condition}
    (hthen : c.keyword ≠ some "then") : ∃ d, (Node.walkAll visit rest).run c = .ok ((), d) ∧
      d.verdict = c.verdict ∧ d.body = c.body := by
  induction rest generalizing c with
  | nil => exact ⟨c, rfl, rfl, rfl⟩
  | cons tree others ih =>
      rw [List.all_cons, Bool.and_eq_true] at h
      obtain ⟨parts, hparts⟩ := Option.isSome_iff_exists.mp h.1
      obtain ⟨hrun, hthen'⟩ := run_of_testParts hparts hthen
      obtain ⟨-, hverdict, hbody⟩ := foldl_takePart parts c
      obtain ⟨d, hrest, hverdict', hbody'⟩ := ih h.2 hthen'
      exact ⟨d, run_bind_ok_iff.mpr ⟨_, hrun, hrest⟩, hverdict'.trans hverdict,
        hbody'.trans hbody⟩

/-! ## Settling -/

theorem settle_of_compared {c : Condition} {x : Compared} (h : c.sides.compared? = some x) :
    ∃ d, settle c = .ok d ∧ d.keyword = c.keyword ∧ d.body = c.body ∧
      d.verdict = some x.verdict := by
  obtain ⟨keyword, left, comparison, right, verdict, body⟩ := c
  simp only [sides, Sides.compared?_eq_some_iff] at h
  obtain ⟨rfl, rfl, rfl⟩ := h
  exact ⟨_, rfl, rfl, rfl, rfl⟩

theorem settle_of_lacking {c : Condition} (h : c.sides.compared? = none) :
    settle c = .error .missingPart := by
  unfold settle
  split
  · rename_i left comparison right hleft hcomparison hright
    simp [sides, Sides.compared?, hleft, hcomparison, hright] at h
  · rfl

theorem run_bind_of_ok {σ : Type} {x y : StateT σ (Except Failure) Unit} {c e : σ}
    (h : x.run c = .ok ((), e)) : (x >>= fun _ => y).run c = y.run e := by
  rw [StateT.run_bind, h]
  rfl

/-- In front of `then`, the words behind `if` have gone to their places. -/
theorem run_test {test : Node} {parts : List TestPart} (h : test.testParts? = some parts) :
    ∃ b, (test.walk visit).run { keyword := some "if" } = .ok ((), b) ∧ b.body = [] ∧
      b.sides.compared? = Compared.ofWords? (TestPart.wordsBehindIf true parts) := by
  obtain ⟨hrun, -⟩ := run_of_testParts h (c := { keyword := some "if" }) (by decide)
  obtain ⟨hsides, -, hbody⟩ := foldl_takePart parts { keyword := some "if" }
  refine ⟨_, hrun, hbody, ?_⟩
  rw [hsides, ← Sides.compared?_foldl_take]
  rfl

/-- An `if` is read from its words if they compare something. -/
theorem read_of_compared {test body : Node} {tail commands : List Node} {parts : List TestPart}
    (h : test.testParts? = some parts) (hbody : body.simpleCommands? = some commands)
    (hclosed : Node.closesIf tail = true) {x : Compared}
    (hx : Compared.ofWords? (TestPart.wordsBehindIf true parts) = some x) :
    ∃ c, read (.branch (Node.ifParts test body tail)) = .ok c ∧ c.body = commands ∧
      c.verdict = some x.verdict := by
  obtain ⟨b, htest, hnone, hsides⟩ := run_test h
  obtain ⟨c, hsettle, hthen, hempty, hverdict⟩ :=
    @settle_of_compared { b with keyword := some "then" } x (hsides.trans hx)
  have hhead : head test = .ok c := by
    refine head_eq_ok_iff.mpr ⟨b, htest, ?_⟩
    rw [run_then, hsettle]
    rfl
  have hcommands := run_commands hbody c hthen
  unfold Node.closesIf at hclosed
  split at hclosed
  · rename_i text rest
    rw [Bool.and_eq_true, bne_iff_ne] at hclosed
    obtain ⟨d, hrest, hverdict', hbody'⟩ := run_closing hclosed.2
      (c := { c with body := c.body ++ commands, keyword := some text })
      (fun hsame => hclosed.1 (Option.some.inj hsame))
    refine ⟨d, read_branch_iff.mpr ⟨c, hhead, run_bind_ok_iff.mpr ⟨_, hcommands,
      run_bind_ok_iff.mpr ⟨_, run_reserved text hclosed.1 _, hrest⟩⟩⟩, ?_, hverdict'.trans hverdict⟩
    rw [hbody', hempty, hnone]
    rfl
  · cases hclosed

/-- An `if` cannot be read if its words lack a side or a comparison. -/
theorem read_of_lacking {test : Node} {parts : List TestPart} (h : test.testParts? = some parts)
    (hnone : Compared.ofWords? (TestPart.wordsBehindIf true parts) = none) (rest : List Node) :
    read (.branch (.reserved "if" :: test :: .reserved "then" :: rest)) = .error .missingPart := by
  obtain ⟨b, htest, -, hsides⟩ := run_test h
  have hthen : ((Node.reserved "then").walk visit).run b = .error .missingPart := by
    rw [run_then, @settle_of_lacking { b with keyword := some "then" } (hsides.trans hnone)]
    rfl
  have hwalk : (Node.walkAll visit (.reserved "if" :: test :: .reserved "then" :: rest)).run {}
      = .error .missingPart := by
    refine (run_bind_of_ok (run_reserved "if" (by decide) {})).trans
      ((run_bind_of_ok htest).trans ?_)
    show ((Node.reserved "then").walk visit >>= fun _ => Node.walkAll visit rest).run b = _
    rw [StateT.run_bind, hthen]
    rfl
  show ((Node.walkAll visit _).run {} >>= fun p => pure p.2) = _
  rw [hwalk]
  rfl

/-! ## Every `if` that is read has a verdict -/

theorem verdict_isSome_of_then {c d : Condition}
    (h : ((Node.reserved "then").walk visit).run c = .ok ((), d)) : d.verdict.isSome = true := by
  rw [run_then] at h
  cases hsettle : settle { c with keyword := some "then" } with
  | error f =>
      rw [hsettle] at h
      cases h
  | ok e =>
      rw [hsettle] at h
      cases h
      exact (settle_ok hsettle).1

/-- A verdict is never taken back. -/
theorem verdict_isSome_of_run {rest : List Node} {c d : Condition} (h : c.verdict.isSome = true)
    (hrun : (Node.walkAll visit rest).run c = .ok ((), d)) : d.verdict.isSome = true := by
  have hlock : Node.Lockstep (m := ReadingCondition) (n := ReadingCondition)
      (fun x _ => ∀ c d : Condition, c.verdict.isSome = true → x.run c = .ok ((), d) →
        d.verdict.isSome = true) visit visit :=
    { nothing := by
        intro c d hc hrun
        cases hrun
        exact hc
      seq := by
        intro x y _ _ hx hy c d hc hrun
        obtain ⟨e, hfirst, hsecond⟩ := run_bind_ok_iff.mp hrun
        exact hy e d (hx c e hc hfirst) hsecond
      fail := by
        intro f c d _ hrun
        cases hrun
      node := by
        intro node below _ hbelow c d hc hrun
        cases node with
        | reserved text =>
            by_cases htext : text = "then"
            · subst htext
              exact verdict_isSome_of_then hrun
            · simp only [visit, htext, if_false] at hrun
              cases hrun
              exact hc
        | word text parts =>
            refine hbelow (c.takeWord text) d ?_ hrun
            rw [(c.takeWord_sides text).2.2.1]
            exact hc
        | command parts =>
            by_cases hthen : c.keyword = some "then"
            · have htaken : (visit (.command parts) below).run c
                  = .ok ((), { c with body := c.body ++ [.command parts] }) := by
                simp [visit, hthen]
                rfl
              rw [htaken] at hrun
              cases hrun
              exact hc
            · refine hbelow c d hc ?_
              simpa [visit, hthen] using hrun
        | list | pipeline | compound | branch | forLoop | whileLoop | untilLoop | function
        | assignment | redirect | channel | commandSubstitution | processSubstitution | operator
        | pipe | parameter | tilde | heredoc | unknown | incomplete => exact hbelow c d hc hrun }
  exact hlock.walkAll rest c d h hrun

theorem verdict_of_read {test : Node} {rest : List Node} {d : Condition}
    (h : read (.branch (.reserved "if" :: test :: .reserved "then" :: rest)) = .ok d) :
    ∃ verdict, d.verdict = some verdict := by
  obtain ⟨c, hhead, hrest⟩ := read_branch_iff.mp h
  obtain ⟨b, -, hthen⟩ := head_eq_ok_iff.mp hhead
  exact Option.isSome_iff_exists.mp
    (verdict_isSome_of_run (verdict_isSome_of_then hthen) hrest)

end Condition

/-! ## Conditions and the tests that they come from -/

namespace Shell.Node

/-- The parts of the one command that a test is, perhaps with an operator behind it. -/
def soleCommand? : Node → Option (List Node)
  | .command parts => some parts
  | .list [.command parts, .operator _] => some parts
  | _ => none

/-- A test that is one command, of a side, a comparison and a side, brackets aside. -/
def IsTestOf (test : Node) (x : Compared) : Prop :=
  ∃ parts word, test.soleCommand? = some parts ∧
    (ownWords parts).filter (!isBracket ·) = [x.left, word, x.right] ∧
    Comparison.ofWord? word = some x.comparison

end Shell.Node

namespace Session

open Shell.Node (ifParts closesIf)

theorem run_visit_branch {parts : List Node} {c : Condition}
    (h : Condition.read (.branch parts) = .ok c) (s : Session) :
    (visit (.branch parts)).run s = (underCondition c).run s := by
  refine Step.run_bind_ok ?_ _
  rw [h]
  exact Step.run_ofExcept _ s

theorem run_visit_branch_of_error {parts : List Node} {failure : Failure}
    (h : Condition.read (.branch parts) = .error failure) (s : Session) :
    (visit (.branch parts)).run s = (.error failure, s) := by
  refine Step.run_bind_error ?_ _
  rw [h]
  exact Step.run_ofExcept _ s

theorem commands_addBare (commands : List Node) (s : Session) :
    AddsBare s ((commands.forM command).after s) :=
  Step.respects_forM (fun _ => .of_tasks_eq rfl) AddsBare.trans command_addsBare commands s

/-- An `if` fails and leaves new tasks on no condition, or all its new tasks get the condition of
    the verdict that has been read. -/
theorem visit_branch_cases (test body : Node) (tail : List Node) (s : Session) :
    let tree := Node.branch (ifParts test body tail)
    (∃ failure t, (visit tree).run s = (.error failure, t) ∧ AddsBare s t) ∨
    ∃ c verdict t new, Condition.read tree = .ok c ∧ c.verdict = some verdict ∧
      (c.body.forM command).run s = (.ok (), t) ∧ t.tasks = s.tasks ++ new ∧
      (visit tree).run s = (.ok (), { t with
        tasks := s.tasks ++ new.map (·.guard (guardText s.lastRegister verdict)) }) := by
  intro tree
  cases hread : Condition.read tree with
  | error failure =>
      exact .inl ⟨failure, s, run_visit_branch_of_error hread s, .of_tasks_eq rfl⟩
  | ok c =>
      obtain ⟨verdict, hverdict⟩ := Condition.verdict_of_read hread
      have hadds := commands_addBare c.body s
      have hrun := run_visit_branch hread s
      rw [run_underCondition, hverdict] at hrun
      cases hbody : (c.body.forM command).run s with
      | mk outcome t =>
          rw [hbody] at hrun
          rw [Step.after, hbody] at hadds
          cases outcome with
          | error failure => exact .inl ⟨failure, t, hrun, hadds⟩
          | ok u =>
              obtain ⟨new, htasks, -⟩ := hadds
              refine .inr ⟨c, verdict, t, new, rfl, hverdict, hbody, htasks, hrun.trans ?_⟩
              show (Except.ok (), { t with tasks := guardFrom _ _ t.tasks }) = _
              rw [htasks, guardFrom_append]

/-- An `if` that is read from its words is its body under the condition that they make. -/
theorem run_visit_of_compared {test body : Node} {tail commands : List Node}
    {parts : List TestPart} (hparts : test.testParts? = some parts)
    (hbody : body.simpleCommands? = some commands) (hclosed : closesIf tail = true) {x : Compared}
    (hx : Compared.ofWords? (TestPart.wordsBehindIf true parts) = some x) (s : Session) :
    let tree := Node.branch (ifParts test body tail)
    (∀ failure t, (commands.forM visit).run s = (.error failure, t) →
      (visit tree).run s = (.error failure, t)) ∧
    ∀ t, (commands.forM visit).run s = (.ok (), t) → ∃ new, t.tasks = s.tasks ++ new ∧
      (visit tree).run s = (.ok (), { t with
        tasks := s.tasks ++ new.map (·.guard (guardText s.lastRegister x.verdict)) }) := by
  intro tree
  obtain ⟨c, hread, hcommands, hverdict⟩ :=
    Condition.read_of_compared hparts hbody hclosed hx
  rw [forM_visit_eq hbody, ← hcommands]
  constructor
  · intro failure t hfails
    rw [run_visit_branch hread, run_underCondition, hfails]
  · intro t hdone
    rcases visit_branch_cases test body tail s with
      ⟨failure, t', hrun, -⟩ | ⟨c', verdict, t', new, hread', hverdict', hdone', htasks, hrun⟩
    · rw [run_visit_branch hread, run_underCondition, hdone] at hrun
      cases hrun
    · obtain rfl : c = c' := Except.ok.inj (hread.symm.trans hread')
      obtain rfl : x.verdict = verdict := Option.some.inj (hverdict.symm.trans hverdict')
      obtain rfl : t = t' := congrArg Prod.snd (hdone.symm.trans hdone')
      exact ⟨new, htasks, hrun⟩

/-- The conditions on the tasks of an `if` come from its test: it is one command of two sides and a
    comparison, and they are made of these. -/
def GuardsOfSoleTest (test body : Node) (tail : List Node) (s : Session) : Prop :=
  ∀ task ∈ newTasks (visit (.branch (ifParts test body tail))) s, ∀ condition,
    task.get? "when" = some condition →
      ∃ x, test.IsTestOf x ∧ condition = .text (guardText s.lastRegister x.verdict)

/-- The new tasks are those behind the ones that were there. -/
theorem newTasks_of_run_eq {x : Step Unit} {s t : Session} {outcome : Except Failure Unit}
    {new : List Task} (hrun : x.run s = (outcome, t)) (htasks : t.tasks = s.tasks ++ new) :
    newTasks x s = new := by
  rw [newTasks, Step.after, hrun, htasks, List.drop_left]

/-- The conditions come from one test exactly if there are none to come from anywhere, or if what
    has been read gives the condition of that test.  By how the `if` ends: what a failing one adds
    is on no condition, and what one adds that ends well is on the condition of its verdict. -/
theorem guardsOfSoleTest_iff (test body : Node) (tail : List Node) (s : Session) :
    let tree := Node.branch (ifParts test body tail)
    GuardsOfSoleTest test body tail s ↔
      (visit tree).Fails s ∨ newTasks (visit tree) s = [] ∨
        ∃ x c verdict, test.IsTestOf x ∧ Condition.read tree = .ok c ∧
          c.verdict = some verdict ∧
          guardText s.lastRegister verdict = guardText s.lastRegister x.verdict := by
  intro tree
  rcases visit_branch_cases test body tail s with
    ⟨failure, t, hrun, new, htasks, hbare⟩ | ⟨c, verdict, t, new, hread, hverdict, -, -, hrun⟩
  · have hnew := newTasks_of_run_eq hrun htasks
    constructor
    · intro _
      exact .inl ⟨failure, congrArg Prod.fst hrun⟩
    · intro _ task hmem condition hwhen
      rw [hbare task (hnew ▸ hmem)] at hwhen
      cases hwhen
  · have hnew := newTasks_of_run_eq hrun rfl
    constructor
    · intro h
      cases new with
      | nil => exact .inr (.inl hnew)
      | cons task rest =>
          have hmem : task.guard (guardText s.lastRegister verdict) ∈ newTasks (visit tree) s := by
            rw [hnew]
            exact List.mem_cons_self
          obtain ⟨x, hx, hsame⟩ := h _ hmem _ (task.when_guard _)
          injection hsame with hsame
          injection hsame with hsame
          exact .inr (.inr ⟨x, c, verdict, hx, hread, hverdict, hsame⟩)
    · rintro (⟨failure, hfails⟩ | hnone | ⟨x, c', verdict', hx, hread', hverdict', hsame⟩)
      · rw [Step.outcome, hrun] at hfails
        cases hfails
      · intro task hmem
        rw [show newTasks (visit (.branch (ifParts test body tail))) s = [] from hnone] at hmem
        cases hmem
      · obtain rfl : c = c' := Except.ok.inj (hread.symm.trans hread')
        obtain rfl : verdict = verdict' := Option.some.inj (hverdict.symm.trans hverdict')
        intro task hmem condition hwhen
        obtain ⟨bare, -, rfl⟩ := List.mem_map.mp (hnew ▸ hmem)
        rw [bare.when_guard] at hwhen
        refine ⟨x, hx, ?_⟩
        rw [← hsame]
        exact (Option.some.inj hwhen).symm

/-- **Every test with two sides and a comparison becomes a condition, whoever's words they are.**
    The conditions that an `if` puts on tasks come from a test of one command and three words
    exactly if there are none, because the `if` fails or adds no task, or if the test is such a
    command and what has been read of it gives the same condition.  And what is read is known: if
    no `then` stands in the test or behind the body, the words behind `if` settle it, brackets
    aside.  Where they lack a side or a comparison the `if` fails at once; else the body is done
    and its tasks get the condition on the last word in front of the first comparison and the last
    word of all. -/
theorem guards_of_sole_tests_iff (test : Node) {body : Node} {commands : List Node}
    (hbody : body.simpleCommands? = some commands) (tail : List Node) (s : Session) :
    let tree := Node.branch (ifParts test body tail)
    (GuardsOfSoleTest test body tail s ↔
      (visit tree).Fails s ∨ newTasks (visit tree) s = [] ∨
        ∃ x c verdict, test.IsTestOf x ∧ Condition.read tree = .ok c ∧
          c.verdict = some verdict ∧
          guardText s.lastRegister verdict = guardText s.lastRegister x.verdict) ∧
    ∀ parts, test.testParts? = some parts → closesIf tail = true →
      let words := TestPart.wordsBehindIf true parts
      (Compared.ofWords? words = none → (visit tree).run s = (.error .missingPart, s)) ∧
      ∀ x, Compared.ofWords? words = some x →
        (∀ failure t, (commands.forM visit).run s = (.error failure, t) →
          (visit tree).run s = (.error failure, t)) ∧
        ∀ t, (commands.forM visit).run s = (.ok (), t) → ∃ new, t.tasks = s.tasks ++ new ∧
          (visit tree).run s = (.ok (), { t with
            tasks := s.tasks ++ new.map (·.guard (guardText s.lastRegister x.verdict)) }) := by
  intro tree
  refine ⟨guardsOfSoleTest_iff test body tail s, fun parts hparts hclosed => ⟨?_, ?_⟩⟩
  · intro hnone
    exact run_visit_branch_of_error (Condition.read_of_lacking hparts hnone _) s
  · intro x hx
    exact run_visit_of_compared hparts hbody hclosed hx s

/-- `[ left -eq right ]` -/
def equalityTest (left right : String) : Node :=
  .command [.word "[" [], .word left [], .word "-eq" [], .word right [], .word "]" []]

/-- `if [ a -eq b ] && [ c -eq d ]; then touch /x; fi` compares `a` with `d`. -/
theorem joined_tests_mix_words :
    let test : Node :=
      .list [equalityTest "a" "b", .operator "&&", equalityTest "c" "d", .operator ";"]
    let body : Node := .command [.word "touch" [], .word "/x" []]
    let tree := Node.branch (ifParts test body [.reserved "fi"])
    ¬ GuardsOfSoleTest test body [.reserved "fi"] {} ∧
      ∃ (t : Session) (new : List Task), new ≠ [] ∧ (visit tree).run {} = (.ok (), { t with
        tasks := new.map (·.guard "a == d") }) := by
  intro test body tree
  have hsole : ∀ x, ¬ test.IsTestOf x := by
    rintro x ⟨parts, word, hparts, -⟩
    cases hparts
  have hbody : body.simpleCommands? = some [body] := rfl
  obtain ⟨hiff, hread⟩ := guards_of_sole_tests_iff test hbody [.reserved "fi"] {}
  obtain ⟨-, hcompared⟩ := hread _ rfl rfl
  obtain ⟨-, hdone⟩ := hcompared ⟨"a", .equal, "d"⟩ (by decide)
  obtain ⟨new, htasks, hrun⟩ := hdone (([body].forM visit).after {}) (Prod.ext rfl rfl)
  have hnew : new ≠ [] := by
    rintro rfl
    cases htasks
  refine ⟨?_, _, new, hnew, hrun⟩
  rw [hiff]
  rintro (⟨failure, hfails⟩ | hnone | ⟨x, -, -, hx, -⟩)
  · rw [Step.outcome, hrun] at hfails
    cases hfails
  · rw [newTasks_of_run_eq hrun rfl] at hnone
    exact hnew (List.map_eq_nil_iff.mp hnone)
  · exact hsole x hx

end Session

end Playscript
