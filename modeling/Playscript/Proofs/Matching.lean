import Mathlib.Data.List.TakeWhile
import Playscript.Text.Lines
import Playscript.Text.Matcher

/-! # Lines and words that are read back

    A matcher hands what it has taken to those behind it, and takes less if they are not
    content.  So a text is matched as it was written if each part takes as much as it can and the
    next part starts where it stops (`longest_append`); and it is not matched if the parts behind
    are content nowhere (`longest_eq_none`).  What stands between blanks is made of word
    characters and a few marks, none of which ends a line, so a text that was put together from
    lines falls into these lines again (`splitLinesFrom_joinLines`, `splitAtNewlines_joinLines`). -/

namespace Playscript.Text

/-! ## Classes of characters -/

/-- A digit of any script is a word character. -/
theorem isWordChar_of_isDecimal {c : Char} (h : isDecimal c = true) : isWordChar c = true := by
  have htable : ∀ z ∈ zeroDigits, ∃ range ∈ numeralRanges, range.1 ≤ z ∧ z + 9 ≤ range.2 := by
    decide +kernel
  rw [isWordChar, inClass]
  rw [isDecimal, digitValue?] at h
  split at h
  · next hdigit =>
      have hsmall : c.toNat < 128 := by
        simp only [Char.isDigit, Bool.and_eq_true, decide_eq_true_eq] at hdigit
        exact Nat.lt_of_le_of_lt (UInt32.le_iff_toNat_le.mp hdigit.2) (by decide)
      rw [if_pos hsmall, Char.isAlphanum, hdigit, Bool.or_true, Bool.true_or]
  · split at h
    · cases h
    · next hlarge =>
        rw [if_neg hlarge]
        rw [Option.isSome_map, List.find?_isSome] at h
        obtain ⟨z, hz, hrow⟩ := h
        simp only [Bool.and_eq_true, decide_eq_true_eq] at hrow
        obtain ⟨range, hrange, hbounds⟩ := htable z hz
        refine List.any_eq_true.mpr ⟨range, List.mem_append_right _ hrange, ?_⟩
        simp only [Bool.and_eq_true, decide_eq_true_eq]
        omega

/-- A blank is no word character. -/
theorem not_isBlank_of_isWordChar {c : Char} (h : isWordChar c = true) : isBlank c = false := by
  have htable : ∀ code ∈ wideBlanks, (letterRanges ++ numeralRanges).holds code = false := by
    decide +kernel
  have hsmall : ∀ n < 32, ((Char.ofNat n).isAlphanum || Char.ofNat n == '_') = false := by decide
  rw [isWordChar, inClass] at h
  rw [isBlank]
  split at h
  · next hascii =>
      rw [if_pos hascii]
      by_cases hcontrol : c.toNat < 32
      · have hno := hsmall c.toNat hcontrol
        rw [Char.ofNat_toNat, h] at hno
        cases hno
      · have hspace : (c == ' ') = false := by
          refine beq_eq_false_iff_ne.mpr fun heq => ?_
          rw [heq] at h
          exact absurd h (by decide)
        rw [hspace]
        simp only [Bool.false_or, Bool.or_eq_false_iff, Bool.and_eq_false_iff,
          decide_eq_false_iff_not]
        omega
  · next hascii =>
      rw [if_neg hascii]
      refine Bool.eq_false_iff.mpr fun hcontains => ?_
      rw [htable _ (List.contains_iff_mem.mp hcontains)] at h
      cases h

/-- Every kind of line end counts as a blank. -/
theorem isBlank_of_isLineEnd {c : Char} (h : isLineEnd c = true) : isBlank c = true := by
  simp only [isLineEnd, Bool.or_eq_true, Bool.and_eq_true, decide_eq_true_eq, beq_iff_eq] at h
  rw [isBlank]
  by_cases hascii : c.toNat < 128
  · rw [if_pos hascii]
    simp only [Bool.or_eq_true, Bool.and_eq_true, decide_eq_true_eq]
    omega
  · rw [if_neg hascii]
    have hcode : c.toNat = 0x85 ∨ c.toNat = 0x2028 ∨ c.toNat = 0x2029 := by omega
    rcases hcode with hcode | hcode | hcode <;> rw [hcode] <;> decide

/-! ## Lines -/

/-- A text that starts and ends with no blank stays as it is. -/
theorem trim_eq_self {cs : List Char} (hfirst : ∀ c ∈ cs.head?, isBlank c = false)
    (hlast : ∀ c ∈ cs.getLast?, isBlank c = false) : trim cs = cs := by
  have hdrop : ∀ {xs : List Char}, (∀ c ∈ xs.head?, isBlank c = false) →
      xs.dropWhile isBlank = xs := by
    intro xs hxs
    cases xs with
    | nil => rfl
    | cons c rest => exact List.dropWhile_cons_of_neg (by simpa using hxs c rfl)
  rw [trim, trimLeft, hdrop hfirst, trimRight, hdrop, List.reverse_reverse]
  rwa [List.head?_reverse]

/-- Lines one under the other, the last one ended like the others or not. -/
def joinLines (ended : Bool) : List (List Char) → List Char
  | [] => []
  | [last] => if ended then last ++ ['\n'] else last
  | line :: next :: rest => line ++ '\n' :: joinLines ended (next :: rest)

/-- Characters without a line end are taken over to the line that has been begun. -/
theorem splitLinesFrom_append {line : List Char} (h : ∀ c ∈ line, isLineEnd c = false)
    (taken rest : List Char) :
    splitLinesFrom taken (line ++ rest) = splitLinesFrom (line.reverse ++ taken) rest := by
  induction line generalizing taken with
  | nil => rfl
  | cons c line ih =>
      rw [List.forall_mem_cons] at h
      have hstep : ∀ after,
          splitLinesFrom taken (c :: after) = splitLinesFrom (c :: taken) after := by
        intro after
        rw [splitLinesFrom.eq_3]
        · rw [if_neg (by simp [h.1])]
        · rintro rest rfl
          exact absurd h.1 (by decide)
      rw [List.cons_append, hstep, ih h.2, List.reverse_cons, List.append_assoc]
      rfl

/-- Cut at every kind of line end, lines fall apart as they were put together. -/
theorem splitLinesFrom_joinLines (ended : Bool) (lines : List (List Char))
    (hnil : [] ∉ lines) (hends : ∀ line ∈ lines, ∀ c ∈ line, isLineEnd c = false) :
    splitLinesFrom [] (joinLines ended lines) = lines := by
  have hcut : ∀ taken rest, splitLinesFrom taken ('\n' :: rest)
      = taken.reverse :: splitLinesFrom [] rest := by
    intro taken rest
    rw [splitLinesFrom.eq_3 taken '\n' rest (by simp)]
    rfl
  fun_induction joinLines ended lines with
  | case1 => rfl
  | case2 last _ =>
      rw [splitLinesFrom_append (hends last List.mem_cons_self), hcut]
      simp [splitLinesFrom]
  | case3 last _ =>
      have hne : last ≠ [] := fun heq => hnil (heq ▸ List.mem_cons_self)
      have hlast := splitLinesFrom_append (hends last List.mem_cons_self) [] []
      rw [List.append_nil] at hlast
      rw [hlast]
      simp [splitLinesFrom, hne]
  | case4 line next rest ih =>
      rw [splitLinesFrom_append (hends line List.mem_cons_self), hcut, List.append_nil,
        List.reverse_reverse, ih (fun hmem => hnil (List.mem_cons_of_mem _ hmem))
          fun other hother => hends other (List.mem_cons_of_mem _ hother)]

/-- Even of nothing there is one piece. -/
theorem splitOnChar_ne_nil (mark : Char) (cs : List Char) : splitOnChar mark cs ≠ [] := by
  cases cs with
  | nil => exact List.cons_ne_nil _ _
  | cons c rest =>
      rw [splitOnChar]
      split
      · exact List.cons_ne_nil _ _
      · split <;> exact List.cons_ne_nil _ _

/-- Cutting at a mark between two texts cuts each of them. -/
theorem splitOnChar_append_mark (mark : Char) (front back : List Char) :
    splitOnChar mark (front ++ mark :: back)
      = splitOnChar mark front ++ splitOnChar mark back := by
  induction front with
  | nil => simp [splitOnChar]
  | cons c front ih =>
      by_cases hc : c = mark
      · simp [splitOnChar, hc, ih]
      · obtain ⟨piece, pieces, hfront⟩ := List.exists_cons_of_ne_nil (splitOnChar_ne_nil mark front)
        simp [splitOnChar, hc, ih, hfront]

/-- A text without the mark is its only piece. -/
theorem splitOnChar_of_not_mem {mark : Char} {piece : List Char} (h : mark ∉ piece) :
    splitOnChar mark piece = [piece] := by
  induction piece with
  | nil => rfl
  | cons c piece ih =>
      rw [List.mem_cons, not_or] at h
      rw [splitOnChar, if_neg (Ne.symm h.1), ih h.2]

/-- A piece in front of the mark comes first, and those behind follow. -/
theorem splitOnChar_append {mark : Char} {piece : List Char} (h : mark ∉ piece)
    (rest : List Char) :
    splitOnChar mark (piece ++ mark :: rest) = piece :: splitOnChar mark rest := by
  rw [splitOnChar_append_mark, splitOnChar_of_not_mem h, List.singleton_append]

/-- Cut at newlines alone, lines fall apart as they were put together. -/
theorem splitAtNewlines_joinLines (ended : Bool) (lines : List (List Char))
    (hnil : [] ∉ lines) (hends : ∀ line ∈ lines, '\n' ∉ line) :
    splitAtNewlines (joinLines ended lines) = lines := by
  have hpieces : lines ≠ [] → splitOnChar '\n' (joinLines ended lines)
      = lines ++ if ended then [[]] else [] := by
    intro hlines
    fun_induction joinLines ended lines with
    | case1 => exact absurd rfl hlines
    | case2 last hended =>
        rw [if_pos hended]
        exact splitOnChar_append (hends last List.mem_cons_self) []
    | case3 last hended =>
        rw [if_neg hended]
        exact splitOnChar_of_not_mem (hends last List.mem_cons_self)
    | case4 line next rest ih =>
        rw [splitOnChar_append (hends line List.mem_cons_self),
          ih (fun hmem => hnil (List.mem_cons_of_mem _ hmem))
            (fun other hother => hends other (List.mem_cons_of_mem _ hother))
            (List.cons_ne_nil _ _)]
        rfl
  rcases List.eq_nil_or_concat lines with rfl | ⟨init, last, rfl⟩
  · rfl
  · rw [List.concat_eq_append] at hpieces hnil ⊢
    have hne : last ≠ [] := by
      rintro rfl
      exact hnil (by simp)
    rw [splitAtNewlines, hpieces (by simp)]
    cases ended with
    | true => simp
    | false =>
        obtain ⟨c, cs, rfl⟩ := List.exists_cons_of_ne_nil hne
        simp

/-! ## Matchers -/

namespace Matcher

variable {ρ α β : Type} {k : α → List Char → Option ρ}

@[simp] theorem bind_apply (m : Matcher ρ α) (f : α → Matcher ρ β) (k : β → List Char → Option ρ)
    (cs : List Char) : (m >>= f) k cs = m (fun a rest => f a k rest) cs := rfl

@[simp] theorem pure_apply (a : α) (cs : List Char) : (pure a : Matcher ρ α) k cs = k a cs := rfl

/-- A fixed text matches itself, and those behind go on with the rest. -/
theorem lit_append (text : String) (k : Unit → List Char → Option ρ) (rest : List Char) :
    lit text k (text.toList ++ rest) = k () rest := by
  rw [lit, if_pos (by simp), ← String.length_toList, List.drop_left]

/-- It matches nothing that does not start so. -/
theorem lit_eq_none {text : String} {cs : List Char} (h : ¬ text.toList <+: cs)
    (k : Unit → List Char → Option ρ) : lit text k cs = none :=
  if_neg (by simpa using h)

/-- A part that may be missing is taken to be so only if those behind are not content with it. -/
theorem optional_of_none {m : Matcher ρ α} {k : Option α → List Char → Option ρ} {cs : List Char}
    (h : m (fun a => k (some a)) cs = none) : optional m k cs = k none cs := by
  simp only [optional, orElse, bind_apply, pure_apply, h]

theorem optional_of_some {m : Matcher ρ α} {k : Option α → List Char → Option ρ} {cs : List Char}
    {answer : ρ} (h : m (fun a => k (some a)) cs = some answer) :
    optional m k cs = some answer := by
  simp only [optional, orElse, bind_apply, pure_apply, h]

section Longest

variable {inClass : Char → Bool} {k : List Char → List Char → Option ρ}

/-- One character more is tried first; only if nothing comes of it, those behind get what has been
    taken so far. -/
theorem longestFrom_cons (k : List Char → List Char → Option ρ) (least : Nat)
    (taken : List Char) (c : Char) (rest : List Char) :
    longestFrom inClass k least taken (c :: rest)
      = match (if inClass c then longestFrom inClass k (least - 1) (c :: taken) rest else none) with
        | some answer => some answer
        | none => if least = 0 then k taken.reverse (c :: rest) else none := by
  cases least <;> rfl

/-- What is taken is all that can be taken, if those behind are content with it. -/
theorem longestFrom_append {run rest : List Char} {answer : ρ}
    (hrun : ∀ c ∈ run, inClass c = true) (hrest : ∀ c ∈ rest.head?, inClass c = false) :
    ∀ {least : Nat} {taken : List Char}, least ≤ run.length →
      k (taken.reverse ++ run) rest = some answer →
      longestFrom inClass k least taken (run ++ rest) = some answer := by
  induction run with
  | nil =>
      intro least taken hleast hk
      obtain rfl : least = 0 := Nat.le_zero.mp hleast
      rw [List.append_nil] at hk
      cases rest with
      | nil => simpa [longestFrom] using hk
      | cons c rest => simpa [longestFrom, hrest c rfl] using hk
  | cons c run ih =>
      intro least taken hleast hk
      rw [List.forall_mem_cons] at hrun
      have hmore : longestFrom inClass k (least - 1) (c :: taken) (run ++ rest) = some answer :=
        ih hrun.2 (by simp at hleast; omega) (by simpa using hk)
      rw [List.cons_append, longestFrom_cons, if_pos hrun.1, hmore]

/-- Nothing is taken if those behind are content nowhere. -/
theorem longestFrom_eq_none {cs : List Char} (h : ∀ taken rest, rest <:+ cs → k taken rest = none) :
    ∀ (least : Nat) (taken : List Char), longestFrom inClass k least taken cs = none := by
  induction cs with
  | nil =>
      intro least taken
      cases least with
      | zero => simp [longestFrom, h]
      | succ least => rfl
  | cons c cs ih =>
      intro least taken
      have hrest : ∀ least taken, longestFrom inClass k least taken cs = none :=
        ih fun taken rest hsuffix => h taken rest (hsuffix.trans (List.suffix_cons c cs))
      rw [longestFrom_cons, hrest, ite_self, h _ _ (List.suffix_refl _), ite_self]

/-- Whatever comes of it comes of characters of the class. -/
theorem exists_of_longestFrom {cs : List Char} {answer : ρ} :
    ∀ {least : Nat} {taken : List Char}, (∀ c ∈ taken, inClass c = true) →
      longestFrom inClass k least taken cs = some answer →
      ∃ run rest, (∀ c ∈ run, inClass c = true) ∧ k run rest = some answer := by
  induction cs with
  | nil =>
      intro least taken htaken h
      cases least with
      | zero => exact ⟨taken.reverse, [], by simpa using htaken, h⟩
      | succ least => cases h
  | cons c cs ih =>
      intro least taken htaken h
      rw [longestFrom_cons] at h
      split at h
      · next hmore =>
          cases h
          split at hmore
          · next hc => exact ih (List.forall_mem_cons.mpr ⟨hc, htaken⟩) hmore
          · cases hmore
      · split at h
        · exact ⟨taken.reverse, c :: cs, by simpa using htaken, h⟩
        · cases h

/-- The same three facts for a run from its start on, under the names without `From`.  All that can
    be taken is taken. -/
theorem longest_append {run rest : List Char} {answer : ρ} {least : Nat}
    (hrun : ∀ c ∈ run, inClass c = true) (hrest : ∀ c ∈ rest.head?, inClass c = false)
    (hleast : least ≤ run.length) (hk : k run rest = some answer) :
    longest inClass least k (run ++ rest) = some answer :=
  longestFrom_append hrun hrest hleast hk

/-- Nothing is taken where no end of the text contents those behind. -/
theorem longest_eq_none {cs : List Char} (h : ∀ taken rest, rest <:+ cs → k taken rest = none)
    (least : Nat) : longest inClass least k cs = none :=
  longestFrom_eq_none h least []

/-- And what is taken is in the class. -/
theorem exists_of_longest {cs : List Char} {answer : ρ} {least : Nat}
    (h : longest inClass least k cs = some answer) :
    ∃ run rest, (∀ c ∈ run, inClass c = true) ∧ k run rest = some answer :=
  exists_of_longestFrom (by simp) h

end Longest

/-- One blank in front of something else is taken. -/
theorem blanks_cons {rest : List Char} (h : ∀ c ∈ rest.head?, isBlank c = false)
    (k : Unit → List Char → Option ρ) : blanks k (' ' :: rest) = k () rest := by
  have hblank : isBlank ' ' = true := by decide
  have hstop : longestFrom isBlank (fun _ rest => k () rest) 0 [' '] rest = k () rest := by
    cases rest with
    | nil => rfl
    | cons c rest => rw [longestFrom_cons, if_neg (by simpa using h c rfl), if_pos rfl]
  show longestFrom isBlank (fun _ rest => k () rest) 1 [] (' ' :: rest) = _
  rw [longestFrom_cons, if_pos hblank, hstop, if_neg (by decide)]
  cases k () rest <;> rfl

/-- A word is taken up to the next blank. -/
theorem word_append {w rest : List Char} {k : String → List Char → Option ρ} {answer : ρ}
    (hne : w ≠ []) (hw : ∀ c ∈ w, isBlank c = false) (hrest : ∀ c ∈ rest.head?, isBlank c = true)
    (hk : k (String.ofList w) rest = some answer) : word k (w ++ rest) = some answer := by
  refine longest_append (fun c hc => ?_) (fun c hc => ?_) (List.length_pos_iff.mpr hne) hk
  · rw [inWord, hw c hc, Bool.not_false]
  · rw [inWord, hrest c hc, Bool.not_true]

/-- A number is taken up to the next character that is no digit. -/
theorem digits_append {ds rest : List Char} {k : String → List Char → Option ρ} {answer : ρ}
    (hne : ds ≠ []) (hds : ∀ c ∈ ds, isDecimal c = true)
    (hrest : ∀ c ∈ rest.head?, isDecimal c = false)
    (hk : k (String.ofList ds) rest = some answer) : digits k (ds ++ rest) = some answer :=
  longest_append hds hrest (List.length_pos_iff.mpr hne) hk

/-- Exactly as many characters as there are. -/
theorem exactly_self {inClass : Char → Bool} {cs : List Char} (h : ∀ c ∈ cs, inClass c = true)
    (k : List Char → List Char → Option ρ) : exactly inClass cs.length k cs = k cs [] := by
  rw [exactly, List.take_length, List.drop_length, if_pos ⟨rfl, List.all_eq_true.mpr h⟩]

/-- There are too few characters. -/
theorem exactly_eq_none {inClass : Char → Bool} {count : Nat} {cs : List Char}
    (h : cs.length < count) (k : List Char → List Char → Option ρ) :
    exactly inClass count k cs = none := by
  refine if_neg fun hboth => ?_
  rw [List.length_take] at hboth
  omega

end Matcher

end Playscript.Text
