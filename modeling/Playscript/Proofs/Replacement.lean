import Mathlib.Data.List.Infix
import Playscript.Text.Replace

/-! # What replacing does to a text

    Replacing one text by another keeps the gaps between the occurrences (`Swapped`), and changes
    the length of the whole by the same amount at each of them.  So a text stays what it is exactly
    if the two are the same or the first does not stand in it (`replaceAll_eq_self_iff`). -/

namespace Playscript.Text

/-- Two texts have the same gaps, with `old` between them in one and `new` in the other.  What is
    behind the last `old` does not hold it. -/
inductive Swapped (old new : List Char) : List Char → List Char → Prop
  | last {cs : List Char} (h : ¬ old <:+: cs) : Swapped old new cs cs
  | next (gap : List Char) {cs ds : List Char} (h : Swapped old new cs ds) :
      Swapped old new (gap ++ (old ++ cs)) (gap ++ (new ++ ds))

namespace Swapped

variable {old new cs ds : List Char}

theorem cons {c : Char} (h : Swapped old new cs ds) (hstart : ¬ old <+: c :: cs) :
    Swapped old new (c :: cs) (c :: ds) := by
  cases h with
  | last h => exact .last fun hinfix => (List.infix_cons_iff.mp hinfix).elim hstart h
  | next gap h => exact .next (c :: gap) h

/-- Putting something else in the place of each `old` changes the length by as much each time. -/
theorem exists_length (h : Swapped old new cs ds) :
    ∃ n, ds.length + n * old.length = cs.length + n * new.length := by
  induction h with
  | last h => exact ⟨0, by simp⟩
  | next gap h ih =>
      obtain ⟨n, hn⟩ := ih
      refine ⟨n + 1, ?_⟩
      simp only [List.length_append, Nat.add_mul, Nat.one_mul]
      omega

theorem eq_of_same (h : Swapped old new cs ds) (hsame : new = old) : ds = cs := by
  induction h with
  | last h => rfl
  | next gap h ih => rw [ih, hsame]

/-- A text stays what it is if the two are the same or the first does not stand in it. -/
theorem eq_iff (h : Swapped old new cs ds) : ds = cs ↔ new = old ∨ ¬ old <:+: cs := by
  constructor
  · intro heq
    cases h with
    | last h => exact .inr h
    | next gap h =>
        obtain ⟨n, hn⟩ := h.exists_length
        have hlength := congrArg List.length heq
        simp only [List.length_append] at hlength
        have hmul : (n + 1) * new.length = (n + 1) * old.length := by
          rw [Nat.add_mul, Nat.add_mul, Nat.one_mul, Nat.one_mul]
          omega
        have hsize := Nat.eq_of_mul_eq_mul_left (Nat.succ_pos n) hmul
        exact .inl (List.append_inj (List.append_cancel_left heq) hsize).1
  · rintro (hsame | hnone)
    · exact h.eq_of_same hsame
    · cases h with
      | last h => rfl
      | next gap h => exact absurd ⟨gap, _, List.append_assoc _ _ _⟩ hnone

end Swapped

/-- Replacing swaps every occurrence behind what is skipped. -/
theorem swapped_replaceFrom {old : List Char} (hold : old ≠ []) (new cs : List Char) :
    ∀ skip, Swapped old new (cs.drop skip) (replaceFrom old new skip cs) := by
  induction cs with
  | nil =>
      intro skip
      rw [List.drop_nil, replaceFrom]
      exact .last fun h => hold (List.infix_nil.mp h)
  | cons c rest ih =>
      intro skip
      cases skip with
      | succ skip => exact ih skip
      | zero =>
          rw [replaceFrom, List.drop_zero]
          split
          · next hstart =>
            obtain ⟨front, hfront⟩ := List.isPrefixOf_iff_prefix.mp hstart
            obtain ⟨d, more, rfl⟩ := List.exists_cons_of_ne_nil hold
            rw [List.cons_append] at hfront
            obtain ⟨rfl, rfl⟩ := List.cons.inj hfront
            have hrest := ih more.length
            rw [List.drop_left] at hrest
            exact .next [] hrest
          · next hstart =>
            exact (ih 0).cons fun h => hstart (List.isPrefixOf_iff_prefix.mpr h)

/-- Replacing changes nothing exactly if there is nothing to replace, or the same is put in its
    place. -/
theorem replaceAll_eq_self_iff {old new text : String} (hold : old ≠ "") :
    replaceAll old new text = text ↔ new = old ∨ ¬ old.toList <:+: text.toList := by
  have hchars : old.toList ≠ [] := fun h => hold (String.toList_eq_nil_iff.mp h)
  have hswapped : Swapped old.toList new.toList text.toList (replaceAll old new text).toList := by
    rw [replaceAll, String.toList_ofList]
    exact swapped_replaceFrom hchars new.toList text.toList 0
  rw [← String.toList_inj, hswapped.eq_iff, String.toList_inj]

end Playscript.Text
