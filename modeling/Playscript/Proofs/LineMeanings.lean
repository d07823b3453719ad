import Mathlib.Data.List.Forall2
import Mathlib.Data.List.Infix
import Playscript.Line.Script
import Playscript.Proofs.Matching

/-! # What simple lines mean

    A line is given its meaning by the first rule that is content with it.  All rules but the
    first start with a word of their own, so a line that is a name, a blank and something else can
    only be for rules whose word the name starts with (`not_head_of_name`); and the first rule needs
    an equals sign.  `shapeMeaning_of_rule` takes both together: which rule a line is for is
    read off its name, and only that rule has to be gone through. -/

namespace Playscript.Line

open Text (Matcher isBlank isDecimal)

/-! ## Rules and the words that they start with -/

/-- A rule that is content only with texts that start with a word. -/
def StartsWith (head : String) (rule : List Char → Option Meaning) : Prop :=
  ∀ cs, ¬ head.toList <+: cs → rule cs = none

/-- The words that the rules behind the first one start with. -/
def heads : List String :=
  ["umask", "mkdir", "touch", "ln", "cp", "ldconfig", "gunzip", "chmod", "apt", "apt", "apt",
   "yum", "yum", "echo", "grep"]

/-- Each rule but the first one looks for a fixed word at the start of the command. -/
theorem rules_startWith (s : Surroundings) : List.Forall₂ StartsWith heads (rules s).tail := by
  simp only [heads, rules, List.tail_cons, List.forall₂_cons]
  refine ⟨?_, ?_, ?_, ?_, ?_, ?_, ?_, ?_, ?_, ?_, ?_, ?_, ?_, ?_, ?_, .nil⟩
  all_goals
    intro cs hcs
    simp [Matcher.run, Shape.umask, Shape.mkdir, Shape.onPath, Shape.link, Shape.copy,
      Shape.ldconfig, Shape.chmod, Shape.apt, Shape.yum, Shape.packages, Shape.echo, Shape.grep,
      Matcher.lit_eq_none hcs]

/-- Without an equals sign nothing is assigned. -/
theorem assignment_run_eq_none {cs : List Char} (h : '=' ∉ cs) :
    Shape.assignment.run cs = none := by
  have hlit : ∀ (k : Unit → List Char → Option (String × String)) (rest : List Char),
      rest <:+ cs → Matcher.lit "=" k rest = none := by
    intro k rest hsuffix
    refine Matcher.lit_eq_none (fun hhead => h ?_) k
    exact hsuffix.subset (hhead.subset (show '=' ∈ "=".toList by decide))
  simp only [Matcher.run, Shape.assignment, Matcher.bind_apply, Matcher.exactly]
  split
  · refine Matcher.longest_eq_none (fun taken rest hsuffix => ?_) 0
    exact hlit _ rest (hsuffix.trans (List.drop_suffix 1 cs))
  · rfl

/-- The rules before one whose words a text does not start with come to nothing. -/
theorem findSome?_rules {s : Surroundings} {cs : List Char} (n : Nat) (hassign : '=' ∉ cs)
    (hheads : ∀ head ∈ heads.take n, ¬ head.toList <+: cs) :
    (rules s).findSome? (· cs) = ((rules s).drop (n + 1)).findSome? (· cs) := by
  have hskip : ∀ {hs : List String} {rs : List (List Char → Option Meaning)},
      List.Forall₂ StartsWith hs rs → ∀ n, (∀ head ∈ hs.take n, ¬ head.toList <+: cs) →
        rs.findSome? (· cs) = (rs.drop n).findSome? (· cs) := by
    intro hs rs hrow
    induction hrow with
    | nil => intro n _; simp
    | cons hstarts _ ih =>
        intro n hno
        cases n with
        | zero => rfl
        | succ n =>
            rw [List.take_succ_cons, List.forall_mem_cons] at hno
            rw [List.findSome?_cons, hstarts cs hno.1]
            exact ih n hno.2
  have hfirst : (rules s).findSome? (· cs) = (rules s).tail.findSome? (· cs) := by
    refine List.findSome?_cons_of_isNone ?_
    show ((Shape.assignment.run cs).map _).isNone = true
    rw [assignment_run_eq_none hassign]
    rfl
  rw [hfirst, hskip (rules_startWith s) n hheads, List.drop_tail]

/-- A word without blanks that a line starts with is one that its name starts with. -/
theorem not_head_of_name {head name : List Char} (hblank : ' ' ∉ head) (h : ¬ head <+: name)
    (rest : List Char) : ¬ head <+: name ++ ' ' :: rest := by
  intro hhead
  have hname : name <+: name ++ ' ' :: rest := List.prefix_append _ _
  rcases List.prefix_or_prefix_of_prefix hhead hname with hshort | ⟨more, rfl⟩
  · exact h hshort
  · -- the word goes on behind the name, where the blank stands
    rw [List.prefix_append_right_inj] at hhead
    cases more with
    | nil => exact h (by simp)
    | cons c more =>
        rw [List.cons_prefix_cons] at hhead
        exact hblank (by simp [hhead.1])

/-- **A line that is a name, a blank and something else has the meaning that a rule gives it**, if
    the name starts with no word of an earlier rule. -/
theorem shapeMeaning_of_rule {s : Surroundings} {name : String} {rest : List Char} (n : Nat)
    {rule : List Char → Option Meaning} {others : List (List Char → Option Meaning)}
    {meaning : Meaning} (hassign : '=' ∉ name.toList ++ ' ' :: rest)
    (hheads : ∀ head ∈ heads.take n, ' ' ∉ head.toList ∧ ¬ head.toList <+: name.toList)
    (hrule : (rules s).drop (n + 1) = rule :: others)
    (h : rule (name.toList ++ ' ' :: rest) = some meaning) :
    shapeMeaning s (String.ofList (name.toList ++ ' ' :: rest)) = meaning := by
  have hfound : (rules s).findSome? (· (name.toList ++ ' ' :: rest)) = some meaning := by
    rw [findSome?_rules n hassign fun head hhead =>
      not_head_of_name (hheads head hhead).1 (hheads head hhead).2 rest, hrule,
      List.findSome?_cons, h]
  rw [shapeMeaning, String.toList_ofList, hfound]

/-! ## Shapes that are met -/

/-- Characters that are taken as one word. -/
structure IsWord (cs : List Char) : Prop where
  ne_nil : cs ≠ []
  no_blank : ∀ c ∈ cs, isBlank c = false

namespace IsWord

variable {w : List Char} (hw : IsWord w)

include hw

theorem head (rest : List Char) : ∀ c ∈ (w ++ rest).head?, isBlank c = false := by
  obtain ⟨c, w, rfl⟩ := List.exists_cons_of_ne_nil hw.ne_nil
  rintro _ ⟨⟩
  exact hw.no_blank c List.mem_cons_self

theorem head_last : ∀ c ∈ w.head?, isBlank c = false := by
  have h := hw.head []
  rwa [List.append_nil] at h

/-- A word in front of a blank is taken. -/
theorem taken {ρ : Type} {rest : List Char} {k : String → List Char → Option ρ} {answer : ρ}
    (hk : k (String.ofList w) (' ' :: rest) = some answer) :
    Matcher.word k (w ++ ' ' :: rest) = some answer := by
  refine Matcher.word_append hw.ne_nil hw.no_blank ?_ hk
  rintro c ⟨⟩
  decide

/-- A word at the end is taken. -/
theorem taken_last {ρ : Type} {k : String → List Char → Option ρ} {answer : ρ}
    (hk : k (String.ofList w) [] = some answer) : Matcher.word k w = some answer := by
  have h := Matcher.word_append hw.ne_nil hw.no_blank (by simp) hk
  rwa [List.append_nil] at h

/-- A word that is no option does not start like one. -/
theorem not_option (hyphen : w.head? ≠ some '-') {text : String}
    (htext : text.toList.head? = some '-') (rest : List Char) : ¬ text.toList <+: w ++ rest := by
  obtain ⟨c, w, rfl⟩ := List.exists_cons_of_ne_nil hw.ne_nil
  obtain ⟨more, hmore⟩ := List.head?_eq_some_iff.mp htext
  rw [hmore, List.cons_append, List.cons_prefix_cons]
  rintro ⟨rfl, -⟩
  exact hyphen rfl

end IsWord

section Shapes

variable {w w' : List Char}

/-- How the shapes run on commands with plain words: each gives back the words that it was written
    with.  A command on one path comes first. -/
theorem onPath_run (name : String) (hw : IsWord w) :
    (Shape.onPath name).run (name.toList ++ ' ' :: w) = some (String.ofList w) := by
  simp only [Matcher.run, Shape.onPath, Matcher.bind_apply, Matcher.lit_append]
  rw [Matcher.blanks_cons hw.head_last]
  exact hw.taken_last rfl

/-- A path that does not start with a hyphen is not taken for the option. -/
theorem mkdir_run (hw : IsWord w) (hyphen : w.head? ≠ some '-') :
    Shape.mkdir.run ("mkdir".toList ++ ' ' :: w) = some (String.ofList w) := by
  have hoption := hw.not_option hyphen (show "-p".toList.head? = some '-' by decide) []
  rw [List.append_nil] at hoption
  simp only [Matcher.run, Shape.mkdir, Matcher.bind_apply, Matcher.lit_append]
  rw [Matcher.blanks_cons hw.head_last, Matcher.optional_of_none]
  · exact hw.taken_last rfl
  · exact Matcher.lit_eq_none hoption _

/-- The option is passed over. -/
theorem mkdir_run_parents (hw : IsWord w) :
    Shape.mkdir.run ("mkdir".toList ++ ' ' :: ("-p".toList ++ ' ' :: w))
      = some (String.ofList w) := by
  simp only [Matcher.run, Shape.mkdir, Matcher.bind_apply, Matcher.lit_append]
  rw [Matcher.blanks_cons (by rintro c ⟨⟩; decide)]
  refine Matcher.optional_of_some ?_
  simp only [Matcher.bind_apply, Matcher.lit_append]
  rw [Matcher.blanks_cons hw.head_last]
  exact hw.taken_last rfl

/-- The first path must not be taken for an option. -/
theorem copy_run (hw : IsWord w) (hw' : IsWord w') (hyphen : w.head? ≠ some '-') :
    Shape.copy.run ("cp".toList ++ ' ' :: (w ++ ' ' :: w'))
      = some (String.ofList w, String.ofList w') := by
  have hoption := hw.not_option hyphen (show "-".toList.head? = some '-' by decide) (' ' :: w')
  simp only [Matcher.run, Shape.copy, Matcher.bind_apply, Matcher.lit_append]
  rw [Matcher.blanks_cons (hw.head _), Matcher.optional_of_none]
  · refine hw.taken ?_
    rw [Matcher.blanks_cons hw'.head_last]
    exact hw'.taken_last rfl
  · exact Matcher.lit_eq_none hoption _

/-- A mode of digits is passed on as it was written. -/
theorem chmod_run (hw : IsWord w) (hdigits : ∀ c ∈ w, isDecimal c = true) (hw' : IsWord w') :
    Shape.chmod.run ("chmod".toList ++ ' ' :: (w ++ ' ' :: w'))
      = some (String.ofList w, String.ofList w') := by
  simp only [Matcher.run, Shape.chmod, Matcher.bind_apply, Matcher.lit_append]
  rw [Matcher.blanks_cons (hw.head _)]
  refine Matcher.digits_append hw.ne_nil hdigits (by rintro c ⟨⟩; decide) ?_
  rw [Matcher.blanks_cons hw'.head_last]
  exact hw'.taken_last rfl

/-- A mask has three digits or four. -/
theorem umask_run (hw : IsWord w) (hdigits : ∀ c ∈ w, isDecimal c = true)
    (hwidth : w.length = 3 ∨ w.length = 4) :
    Shape.umask.run ("umask".toList ++ ' ' :: w) = some (String.ofList w) := by
  simp only [Matcher.run, Shape.umask, Matcher.bind_apply, Matcher.lit_append, Matcher.orElse]
  rw [Matcher.blanks_cons hw.head_last]
  rcases hwidth with hthree | hfour
  · rw [Matcher.exactly_eq_none (by omega), ← hthree, Matcher.exactly_self hdigits]
    rfl
  · rw [← hfour, Matcher.exactly_self hdigits]
    rfl

end Shapes

end Playscript.Line
