import Playscript.Proofs.Matching
import Playscript.Proofs.Segments
import Playscript.Proofs.StatusBlocks

/-! # The variables of a line-wise script

    A line sets a variable only if it assigns to a name, and names that are assigned to can stand in
    braces.  So the variables at any place of a reading have such names, each of them once
    (`defined_vars`). -/

namespace Playscript

/-- Setting a name that is not there puts it behind the others. -/
theorem Store.map_fst_set (vs : Store) (name value : String) :
    (vs.set name value).map Prod.fst
      = if name ∈ vs.map Prod.fst then vs.map Prod.fst else vs.map Prod.fst ++ [name] := by
  induction vs with
  | nil => rfl
  | cons entry vs ih =>
      rw [Store.set]
      by_cases hname : entry.1 = name
      · simp [hname]
      · rw [if_neg hname, List.map_cons, ih, List.map_cons]
        simp only [List.mem_cons, Ne.symm hname, false_or]
        split <;> rfl

namespace Line

open Reference (isBraceable isReferable)
open Text (Matcher)

/-- Variables as lines define them: each name once, and names that can stand in braces. -/
structure Defined (vs : Store) : Prop where
  distinct : (vs.map Prod.fst).Nodup
  named : ∀ name ∈ vs.map Prod.fst, isBraceable name = true

namespace Defined

theorem nil : Defined [] := ⟨.nil, nofun⟩

variable {vs : Store} (h : Defined vs)

include h

/-- A name is set in its place, or behind the others if it is new, so names stay distinct. -/
theorem set {name : String} (hname : isBraceable name = true) (value : String) :
    Defined (vs.set name value) := by
  constructor
  · rw [Store.map_fst_set]
    split
    · exact h.distinct
    · next hnew => exact h.distinct.append (List.nodup_singleton name) (by simpa using hnew)
  · rw [Store.map_fst_set]
    split
    · exact h.named
    · rw [List.forall_mem_append]
      exact ⟨h.named, by simpa using hname⟩

theorem braceable {entry : String × String} (hentry : entry ∈ vs) : isBraceable entry.1 = true :=
  h.named entry.1 (List.mem_map_of_mem hentry)

theorem referable : ∀ entry ∈ vs, isReferable entry.1 = true := fun _ hentry =>
  Reference.isReferable_of_isBraceable (h.braceable hentry)

/-- With distinct names the first entry for a name is the only one. -/
theorem get?_of_mem {entry : String × String} (hmem : entry ∈ vs) :
    vs.get? entry.1 = some entry.2 := by
  obtain ⟨before, behind, rfl⟩ := List.append_of_mem hmem
  refine List.lookup_eq_some_iff.mpr ⟨before, behind, rfl, fun other hother => ?_⟩
  have hdistinct := h.distinct
  rw [List.map_append, List.nodup_append] at hdistinct
  have hne := hdistinct.2.2 other.1 (List.mem_map_of_mem hother) entry.1 (by simp)
  simpa using Ne.symm hne

/-- Whatever can be looked up has a name that can stand in braces. -/
theorem braceable_of_get? {name value : String} (hget : vs.get? name = some value) :
    isBraceable name = true := by
  obtain ⟨before, behind, rfl, -⟩ := List.lookup_eq_some_iff.mp hget
  exact h.named name (by simp)

end Defined

/-! ## What lines set -/

/-- A rule that sets variables only under names that can stand in braces. -/
def NamesVariables (rule : List Char → Option Meaning) : Prop :=
  ∀ cs name value, rule cs = some (.setVariable name value) → isBraceable name = true

/-- A name that is assigned to can stand in braces. -/
theorem braceable_of_assignment {cs : List Char} {name value : String}
    (h : Shape.assignment.run cs = some (name, value)) : isBraceable name = true := by
  simp only [Matcher.run, Shape.assignment, Matcher.bind_apply, Matcher.exactly, Matcher.lit] at h
  split at h
  · next hfirst =>
      obtain ⟨more, rest, hmore, h⟩ := Matcher.exists_of_longest h
      split at h
      · simp only [Matcher.restOfLine, Matcher.bind_apply, Matcher.pure_apply] at h
        obtain ⟨text, -, -, h⟩ := Matcher.exists_of_longest h
        cases h
        cases cs with
        | nil => simp at hfirst
        | cons c cs =>
            have hc : Reference.startsName c = true := by simpa using hfirst
            simp only [isBraceable, String.toList_ofList, List.take_succ_cons, List.take_zero,
              List.cons_append, List.nil_append, List.head?_cons, Option.any_some, List.all_cons,
              hc, Reference.inName_of_startsName hc, Bool.true_and, List.all_eq_true]
            exact hmore
      · cases h
  · cases h

/-- Of all rules only the one for assignments sets variables. -/
theorem namesVariables_of_rule (s : Surroundings) : ∀ rule ∈ rules s, NamesVariables rule := by
  simp only [rules, List.forall_mem_cons, List.not_mem_nil, false_implies, implies_true, and_true]
  refine ⟨fun cs name value h => ?_, ?_⟩
  · obtain ⟨⟨found, text⟩, hfound, h⟩ := Option.map_eq_some_iff.mp h
    cases h
    exact braceable_of_assignment hfound
  · refine ⟨?_, ?_, ?_, ?_, ?_, ?_, ?_, ?_, ?_, ?_, ?_, ?_, ?_, ?_, ?_⟩
    all_goals
      intro cs name value h
      obtain ⟨found, -, h⟩ := Option.map_eq_some_iff.mp h
      cases h

/-- So what a command sets, whatever rule it came by, has such a name. -/
theorem braceable_of_meaning {s : Surroundings} {command name value : String}
    (h : meaning s command = .setVariable name value) : isBraceable name = true := by
  rw [meaning, shapeMeaning] at h
  split at h
  · next found hfound =>
      obtain ⟨rule, hrule, hgives⟩ := List.exists_of_findSome?_eq_some hfound
      cases h
      exact namesVariables_of_rule s rule hrule _ name value hgives
  · cases h

/-! ## All lines -/

/-- Tasks have no part in the variables. -/
theorem State.vars_addTask (st : State) (task : Task) : (st.addTask task).vars = st.vars := by
  unfold State.addTask
  dsimp only
  split
  · rfl
  · split <;> rfl

/-- One command keeps the variables defined. -/
theorem Defined.takeCommand {st : State} (h : Defined st.vars) (allowShell : Bool)
    (command : List Char) : Defined (st.takeCommand allowShell command).vars := by
  unfold State.takeCommand
  split
  · exact h
  · split
    · exact h
    · show Defined (st.apply (meaning (st.surroundings allowShell) _)).vars
      cases hmeaning : meaning (st.surroundings allowShell) (String.ofList (Text.trim command)) with
      | setVariable name value => exact h.set (braceable_of_meaning hmeaning) value
      | setUmask mask => exact h
      | task t =>
          rw [State.apply, State.vars_addTask]
          exact h

/-- A line is one command, or none at all. -/
theorem Defined.takeLine {st : State} (h : Defined st.vars) (allowShell : Bool)
    (line : List Char) : Defined (st.takeLine allowShell line).vars := by
  rcases st.takeLine_cases allowShell line with ⟨command, -, htake⟩ | ⟨-, pending, htake⟩
  · rw [htake]
    exact h.takeCommand allowShell command
  · rw [htake]
    exact h

/-- From one line to all of them, by induction. -/
theorem Defined.takeLines {st : State} (h : Defined st.vars) (allowShell : Bool)
    (lines : List (List Char)) : Defined (lines.foldl (State.takeLine allowShell) st).vars := by
  induction lines generalizing st with
  | nil => exact h
  | cons line lines ih => exact ih (h.takeLine allowShell line)

/-- **The variables at any place of a reading are defined.** -/
theorem defined_vars (allowShell : Bool) (lines : List (List Char)) :
    Defined (lines.foldl (State.takeLine allowShell) {}).vars :=
  have hstart : Defined ({} : State).vars := .nil
  hstart.takeLines allowShell lines

end Line

end Playscript
