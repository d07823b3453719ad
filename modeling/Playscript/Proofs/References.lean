import Mathlib.Data.List.TakeWhile
import Playscript.Variables

/-! # References in texts

    A text is cut into plain characters and references, twice: once for braced references, and
    what comes of it once more for bare ones.  Both searches start at a dollar sign, read what
    they find off the text, and never look past a character that no reference holds (`Scan`).
    So the pieces put together are the text (`flatMap_raw_piecesAfter`), and a gap, which
    starts with such a character and holds no dollar sign, cuts the pieces (`pieces_gap`).

    Expansion can put new references together: with `A` standing for `x`, `$$A` becomes `$x`.
    But if no value holds a dollar sign, each reference that is written out costs one, so a
    text is its own expansion exactly if it refers to no variable that is there
    (`Variables.interpret_eq_self_iff`). -/

namespace Playscript

/-- Whether a character stands in no reference. -/
def Reference.separates (c : Char) : Bool :=
  c != '$' && c != '\x7b' && c != '\x7d' && !inName c && !Text.isWordChar c

/-- A search that finds references where they stand. -/
structure Scan (find : List Char → Option Reference) : Prop where
  starts : ∀ {cs r}, find cs = some r → ∃ tail, r.raw.toList = '$' :: tail
  reads : ∀ {cs r}, find cs = some r → r.raw.toList <+: cs
  stops : ∀ {c}, Reference.separates c = true → ∀ a b, find (a ++ c :: b) = find a

/-! ## The two searches -/

namespace Reference

theorem separates_iff (c : Char) : separates c = true ↔ c ≠ '$' ∧ c ≠ '\x7b' ∧ c ≠ '\x7d' ∧
    inName c = false ∧ Text.isWordChar c = false := by
  simp [separates, and_assoc]

/-- What a name ends at can be cut off behind it. -/
theorem dropWhile_head?_append {p : Char → Bool} {c mark : Char} (hp : p c = false)
    (hmark : c ≠ mark) (a b : List Char) :
    ((a ++ c :: b).dropWhile p).head? = some mark ↔ (a.dropWhile p).head? = some mark := by
  rw [List.dropWhile_append]
  cases h : a.dropWhile p with
  | nil => simp [hp, hmark]
  | cons x rest => simp

theorem takeWhile_append_stop {p : Char → Bool} {c : Char} (hp : p c = false) (a b : List Char) :
    (a ++ c :: b).takeWhile p = a.takeWhile p := by
  rw [List.takeWhile_append]
  split
  · next hlength =>
      rw [List.takeWhile_cons_of_neg (by simp [hp]), List.append_nil]
      exact ((List.takeWhile_sublist p).eq_of_length hlength).symm
  · rfl

/-- A braced reference is a dollar sign, a brace, a name and a brace. -/
theorem bracedAt_eq_some {cs : List Char} {r : Reference} (h : bracedAt cs = some r) :
    ∃ name behind, cs = '$' :: '\x7b' :: name ++ '\x7d' :: behind ∧
      r = ⟨String.ofList name, String.ofList ('$' :: '\x7b' :: name ++ ['\x7d'])⟩ := by
  unfold bracedAt at h
  split at h
  · next c rest =>
      split at h
      · split at h
        · next hclosed =>
            obtain ⟨behind, hbehind⟩ := List.head?_eq_some_iff.mp hclosed
            refine ⟨c :: rest.takeWhile inName, behind, ?_, (Option.some.inj h).symm⟩
            rw [← hbehind, List.cons_append, List.cons_append, List.cons_append,
              List.takeWhile_append_dropWhile]
        · exact nomatch h
      · exact nomatch h
  · exact nomatch h

/-- A bare reference is a dollar sign and the word characters behind it. -/
theorem bareAt_eq_some {cs : List Char} {r : Reference} (h : bareAt cs = some r) :
    ∃ name behind, cs = '$' :: name ++ behind ∧
      r = ⟨String.ofList name, String.ofList ('$' :: name)⟩ := by
  unfold bareAt at h
  split at h
  · next rest =>
      simp only at h
      split at h
      · exact nomatch h
      · refine ⟨rest.takeWhile Text.isWordChar, rest.dropWhile Text.isWordChar, ?_,
          (Option.some.inj h).symm⟩
        rw [List.cons_append, List.takeWhile_append_dropWhile]
  · exact nomatch h

/-- A reference in braces is a name from one brace to the other, with nothing else between them. -/
theorem bracedAt_cons (x y z : Char) (rest : List Char) :
    bracedAt (x :: y :: z :: rest)
      = if x = '$' ∧ y = '\x7b' ∧ startsName z = true
            ∧ (rest.dropWhile inName).head? = some '\x7d' then
          some ⟨String.ofList (z :: rest.takeWhile inName),
            String.ofList ('$' :: '\x7b' :: (z :: rest.takeWhile inName) ++ ['\x7d'])⟩
        else none := by
  unfold bracedAt
  split
  · next c rest' heq =>
      simp only [List.cons.injEq] at heq
      obtain ⟨rfl, rfl, rfl, rfl⟩ := heq
      by_cases hz : startsName z = true
      · by_cases hclosed : (rest.dropWhile inName).head? = some '\x7d'
        · simp [hz, hclosed]
        · simp [hz, hclosed]
      · simp [hz]
  · next hnone =>
      rw [if_neg]
      rintro ⟨rfl, rfl, -, -⟩
      exact hnone z rest rfl

/-- A bare reference is a dollar sign and as many word characters as there are, at least one. -/
theorem bareAt_cons (x : Char) (rest : List Char) :
    bareAt (x :: rest) = if x = '$' ∧ rest.takeWhile Text.isWordChar ≠ [] then
        some ⟨String.ofList (rest.takeWhile Text.isWordChar),
          String.ofList ('$' :: rest.takeWhile Text.isWordChar)⟩
      else none := by
  unfold bareAt
  split
  · next rest' heq =>
      simp only [List.cons.injEq] at heq
      obtain ⟨rfl, rfl⟩ := heq
      by_cases hname : rest.takeWhile Text.isWordChar = []
      · simp [hname]
      · simp [hname]
  · next hnone =>
      rw [if_neg]
      rintro ⟨rfl, -⟩
      exact hnone rest rfl

/-- The laws of a scan, for references in braces: they start with a dollar sign, and what stands
    behind the closing brace has no part in them. -/
theorem bracedAt_scan : Scan bracedAt where
  starts := by
    intro cs r h
    obtain ⟨name, behind, -, rfl⟩ := bracedAt_eq_some h
    exact ⟨_, String.toList_ofList⟩
  reads := by
    intro cs r h
    obtain ⟨name, behind, rfl, rfl⟩ := bracedAt_eq_some h
    exact ⟨behind, by simp⟩
  stops := by
    intro c hc a b
    obtain ⟨hdollar, hopen, hclose, hname, -⟩ := (separates_iff c).mp hc
    have hstart : startsName c = false := by
      simp [inName, startsName, Char.isAlphanum] at hname ⊢
      exact ⟨hname.1.1, hname.2⟩
    -- the shortest texts are too short for a reference with or without the character
    match a with
    | [] => simp [bracedAt, hdollar]
    | [x] => simp [bracedAt, hopen]
    | [x, y] =>
        rw [List.cons_append, List.cons_append, List.nil_append, bracedAt_cons, hstart]
        simp [bracedAt]
    | x :: y :: z :: rest =>
        simp only [List.cons_append, bracedAt_cons, takeWhile_append_stop hname,
          dropWhile_head?_append hname hclose]

/-- The same for bare references, which end where the word characters end. -/
theorem bareAt_scan : Scan bareAt where
  starts := by
    intro cs r h
    obtain ⟨name, behind, -, rfl⟩ := bareAt_eq_some h
    exact ⟨_, String.toList_ofList⟩
  reads := by
    intro cs r h
    obtain ⟨name, behind, rfl, rfl⟩ := bareAt_eq_some h
    exact ⟨behind, by simp⟩
  stops := by
    intro c hc a b
    obtain ⟨hdollar, -, -, -, hword⟩ := (separates_iff c).mp hc
    cases a with
    | nil => simp [bareAt, hdollar]
    | cons x rest =>
        rw [List.cons_append, bareAt_cons, bareAt_cons, takeWhile_append_stop hword]

end Reference

/-! ## Pieces -/

namespace Piece

/-- The text of a piece as it stands. -/
def raw : Piece → List Char
  | .char c => [c]
  | .reference r => r.raw.toList

/-- The text of a piece with something written for a reference. -/
def expanded (value : Reference → String) : Piece → List Char
  | .char c => [c]
  | .reference r => (value r).toList

end Piece

theorem toList_expandWith (find : List Char → Option Reference) (value : Reference → String)
    (text : String) :
    (expandWith find value text).toList = (pieces find text).flatMap (Piece.expanded value) := by
  rw [expandWith, assemble, String.toList_ofList]
  rfl

theorem flatMap_expanded_char (value : Reference → String) (cs : List Char) :
    (cs.map Piece.char).flatMap (Piece.expanded value) = cs := by
  induction cs with
  | nil => rfl
  | cons c rest ih => rw [List.map_cons, List.flatMap_cons, ih]; rfl

/-- Every reference among the pieces was found somewhere. -/
theorem exists_find_of_mem {find : List Char → Option Reference} {r : Reference}
    (cs : List Char) : ∀ n, Piece.reference r ∈ piecesAfter find n cs →
      ∃ rest, find rest = some r := by
  induction cs with
  | nil => intro n hmem; simp [piecesAfter] at hmem
  | cons c rest ih =>
      intro n hmem
      cases n with
      | succ n => exact ih n hmem
      | zero =>
          rw [piecesAfter] at hmem
          split at hmem
          · next found hfound =>
              rcases List.mem_cons.mp hmem with heq | hmem
              · cases heq
                exact ⟨c :: rest, hfound⟩
              · exact ih _ hmem
          · rcases List.mem_cons.mp hmem with heq | hmem
            · exact nomatch heq
            · exact ih _ hmem

/-- What is written hangs on the references that are met. -/
theorem expandWith_congr {find : List Char → Option Reference} {value value' : Reference → String}
    {text : String} (h : ∀ r, .reference r ∈ pieces find text → value r = value' r) :
    expandWith find value text = expandWith find value' text := by
  rw [← String.toList_inj, toList_expandWith, toList_expandWith, List.flatMap_def,
    List.flatMap_def]
  refine congrArg List.flatten (List.map_congr_left fun p hp => ?_)
  cases p with
  | char c => rfl
  | reference r => rw [Piece.expanded, Piece.expanded, h r hp]

/-- Whether a text can stand between two texts and join no reference with either. -/
def isGap (g : String) : Bool :=
  g.toList.head?.any Reference.separates && !g.toList.contains '$'

namespace Scan

variable {find : List Char → Option Reference} (h : Scan find)

include h

/-- Nothing is found where no dollar sign stands. -/
theorem find_eq_none {c : Char} (hc : c ≠ '$') (cs : List Char) : find (c :: cs) = none := by
  cases hfind : find (c :: cs) with
  | none => rfl
  | some r =>
      obtain ⟨tail, htail⟩ := h.starts hfind
      obtain ⟨behind, hbehind⟩ := h.reads hfind
      rw [htail, List.cons_append, List.cons.injEq] at hbehind
      exact absurd hbehind.1.symm hc

/-- The pieces of a text put together are the text. -/
theorem flatMap_raw_piecesAfter (cs : List Char) :
    ∀ n, (piecesAfter find n cs).flatMap Piece.raw = cs.drop n := by
  induction cs with
  | nil => intro n; simp [piecesAfter]
  | cons c rest ih =>
      intro n
      cases n with
      | succ n => rw [piecesAfter, ih, List.drop_succ_cons]
      | zero =>
          rw [piecesAfter]
          split
          · next r hr =>
              -- what is found is the front of the text, and its tail is skipped
              obtain ⟨tail, htail⟩ := h.starts hr
              obtain ⟨behind, hbehind⟩ := h.reads hr
              have hlength : r.raw.length = tail.length + 1 := by
                rw [← String.length_toList, htail, List.length_cons]
              rw [htail, List.cons_append, List.cons.injEq] at hbehind
              rw [List.flatMap_cons, ih, hlength, Piece.raw, htail, ← hbehind.1, ← hbehind.2]
              simp
          · rw [List.flatMap_cons, ih]
            rfl

theorem flatMap_raw_pieces (text : String) :
    (pieces find text).flatMap Piece.raw = text.toList :=
  h.flatMap_raw_piecesAfter text.toList 0

/-- Every reference among the pieces starts with a dollar sign. -/
theorem dollar_of_mem {r : Reference} (cs : List Char) (n : Nat)
    (hmem : Piece.reference r ∈ piecesAfter find n cs) : '$' ∈ r.raw.toList := by
  obtain ⟨rest, hfind⟩ := exists_find_of_mem cs n hmem
  obtain ⟨tail, htail⟩ := h.starts hfind
  rw [htail]
  exact List.mem_cons_self

/-- Characters that are no dollar sign are pieces of their own. -/
theorem piecesAfter_lead {g : List Char} (hg : '$' ∉ g) (b : List Char) :
    piecesAfter find 0 (g ++ b) = g.map .char ++ piecesAfter find 0 b := by
  induction g with
  | nil => rfl
  | cons c rest ih =>
      rw [List.mem_cons, not_or] at hg
      have hc : find (c :: (rest ++ b)) = none := h.find_eq_none (Ne.symm hg.1) _
      rw [List.cons_append, piecesAfter, hc]
      simp only [ih hg.2, List.map_cons, List.cons_append]

/-- A character that stands in no reference cuts the pieces. -/
theorem piecesAfter_append {c : Char} (hc : Reference.separates c = true) (a b : List Char) :
    ∀ n, n ≤ a.length → piecesAfter find n (a ++ c :: b)
      = piecesAfter find n a ++ .char c :: piecesAfter find 0 b := by
  have hnone : find (c :: b) = none :=
    h.find_eq_none ((Reference.separates_iff c).mp hc).1 b
  induction a with
  | nil =>
      intro n hn
      cases Nat.le_zero.mp hn
      simp [piecesAfter, hnone]
  | cons x rest ih =>
      intro n hn
      cases n with
      | succ n =>
          rw [List.cons_append, piecesAfter, piecesAfter]
          exact ih n (Nat.le_of_succ_le_succ hn)
      | zero =>
          rw [List.cons_append, piecesAfter, piecesAfter, ← List.cons_append, h.stops hc]
          cases hfind : find (x :: rest) with
          | none => simp [ih 0 (Nat.zero_le _)]
          | some r =>
              -- what is found ends before the cut, so what is skipped does too
              have hlength : r.raw.length ≤ (x :: rest).length := by
                rw [← String.length_toList]
                exact (h.reads hfind).length_le
              rw [List.length_cons] at hlength
              simp [ih (r.raw.length - 1) (by omega)]

/-- The pieces of a text behind one without a dollar sign. -/
theorem pieces_lead {g : String} (hg : '$' ∉ g.toList) (b : String) :
    pieces find (g ++ b) = g.toList.map .char ++ pieces find b := by
  rw [pieces, String.toList_append, h.piecesAfter_lead hg]
  rfl

/-- **A gap cuts the pieces.** -/
theorem pieces_gap {g : String} (hg : isGap g = true) (a b : String) :
    pieces find (a ++ g ++ b) = pieces find a ++ g.toList.map .char ++ pieces find b := by
  rw [isGap, Bool.and_eq_true, Option.any_eq_true] at hg
  obtain ⟨⟨c, hhead, hc⟩, hdollar⟩ := hg
  obtain ⟨rest, hrest⟩ := List.head?_eq_some_iff.mp hhead
  rw [hrest, Bool.not_eq_true', List.contains_eq_mem, decide_eq_false_iff_not, List.mem_cons,
    not_or] at hdollar
  have hlist : (a ++ g ++ b).toList = a.toList ++ c :: (rest ++ b.toList) := by
    simp [hrest]
  rw [pieces, hlist, h.piecesAfter_append hc _ _ 0 (Nat.zero_le _), h.piecesAfter_lead hdollar.2,
    hrest]
  simp [pieces]

/-- Expansion goes on behind a text without a dollar sign. -/
theorem expandWith_lead {g : String} (hg : '$' ∉ g.toList) (value : Reference → String)
    (b : String) : expandWith find value (g ++ b) = g ++ expandWith find value b := by
  rw [← String.toList_inj, String.toList_append, toList_expandWith, toList_expandWith,
    h.pieces_lead hg, List.flatMap_append, flatMap_expanded_char]

/-- Expansion goes on both sides of a gap. -/
theorem expandWith_gap {g : String} (hg : isGap g = true) (value : Reference → String)
    (a b : String) :
    expandWith find value (a ++ g ++ b)
      = expandWith find value a ++ g ++ expandWith find value b := by
  rw [← String.toList_inj, String.toList_append, String.toList_append, toList_expandWith,
    toList_expandWith, toList_expandWith, h.pieces_gap hg, List.flatMap_append,
    List.flatMap_append, flatMap_expanded_char]

/-- A text for whose references the references are written stays as it is. -/
theorem expandWith_eq_self {value : Reference → String} {text : String}
    (hraw : ∀ r, .reference r ∈ pieces find text → value r = r.raw) :
    expandWith find value text = text := by
  have hpiece : Piece.expanded Reference.raw = Piece.raw := by
    funext p
    cases p <;> rfl
  rw [expandWith_congr hraw, ← String.toList_inj, toList_expandWith, hpiece,
    h.flatMap_raw_pieces]

/-- A text without a dollar sign has no references. -/
theorem no_reference {text : String} (hno : '$' ∉ text.toList) (r : Reference) :
    .reference r ∉ pieces find text := by
  have hpieces : pieces find text = text.toList.map .char := by
    simpa [pieces, piecesAfter] using h.pieces_lead hno ""
  simp [hpieces]

end Scan

/-! ## Values without a dollar sign -/

/-- What is written for a reference is the reference itself or a text without a dollar sign. -/
def Dollarless (value : Reference → String) : Prop :=
  ∀ r, value r = r.raw ∨ '$' ∉ (value r).toList

section Counting

variable {value : Reference → String} (hvalue : Dollarless value)

include hvalue

theorem Piece.count_expanded_le (p : Piece) :
    (p.expanded value).count '$' ≤ p.raw.count '$' := by
  cases p with
  | char c => exact Nat.le_refl _
  | reference r =>
      rcases hvalue r with hraw | hnone
      · exact Nat.le_of_eq (by rw [expanded, raw, hraw])
      · rw [expanded, List.count_eq_zero.mpr hnone]
        exact Nat.zero_le _

/-- Writing references out adds no dollar sign. -/
theorem count_expanded_le (ps : List Piece) :
    (ps.flatMap (Piece.expanded value)).count '$' ≤ (ps.flatMap Piece.raw).count '$' := by
  induction ps with
  | nil => exact Nat.le_refl _
  | cons p rest ih =>
      rw [List.flatMap_cons, List.flatMap_cons, List.count_append, List.count_append]
      exact Nat.add_le_add (p.count_expanded_le hvalue) ih

/-- A reference for which something else is written costs a dollar sign. -/
theorem count_expanded_lt {ps : List Piece} {r : Reference} (hmem : .reference r ∈ ps)
    (hraw : '$' ∈ r.raw.toList) (hne : value r ≠ r.raw) :
    (ps.flatMap (Piece.expanded value)).count '$' < (ps.flatMap Piece.raw).count '$' := by
  have hone : ((Piece.reference r).expanded value).count '$'
      < (Piece.reference r).raw.count '$' := by
    have hnone := (hvalue r).resolve_left hne
    rw [Piece.expanded, List.count_eq_zero.mpr hnone]
    exact List.count_pos_iff.mpr hraw
  -- the pieces around it add no dollar sign
  obtain ⟨before, behind, rfl⟩ := List.append_of_mem hmem
  have hbefore := count_expanded_le hvalue before
  have hbehind := count_expanded_le hvalue behind
  simp only [List.flatMap_append, List.flatMap_cons, List.count_append]
  omega

end Counting

namespace Scan

variable {find : List Char → Option Reference} (h : Scan find) {value : Reference → String}
  (hvalue : Dollarless value)

include h hvalue

theorem count_expandWith_le (text : String) :
    (expandWith find value text).toList.count '$' ≤ text.toList.count '$' := by
  rw [toList_expandWith, ← h.flatMap_raw_pieces text]
  exact count_expanded_le hvalue _

/-- If an expansion has as many dollar signs as the text, nothing was written out. -/
theorem raw_of_count_eq {text : String}
    (hcount : (expandWith find value text).toList.count '$' = text.toList.count '$')
    {r : Reference} (hmem : .reference r ∈ pieces find text) : value r = r.raw := by
  by_contra hne
  have hlt := count_expanded_lt hvalue hmem (h.dollar_of_mem text.toList 0 hmem) hne
  rw [← toList_expandWith, h.flatMap_raw_pieces text] at hlt
  omega

end Scan

/-! ## Texts that mention variables -/

open Reference (bracedAt bareAt bracedAt_scan bareAt_scan)

namespace Variables

/-- No variable holds a dollar sign. -/
def Literal (vs : Variables) : Prop :=
  ∀ entry ∈ vs.plain ++ vs.exported ++ vs.overriding, '$' ∉ entry.2.toList

/-- A text refers to a variable that is there. -/
def Mentions (vs : Variables) (text : String) : Prop :=
  ∃ r, (.reference r ∈ pieces bracedAt text ∨ .reference r ∈ pieces bareAt text) ∧
    (vs.get? r.name).isSome = true

/-- Without exports a template is written like a plain text. -/
theorem interpret_template {vs : Variables} (h : vs.exported = []) (text : String) :
    vs.interpret .template text = vs.interpret .plain text := by
  have hwrite : vs.write .template = vs.write .plain := by
    funext r
    simp [write, h, Store.has, Store.get?]
  rw [interpret, interpret, hwrite]

theorem interpret_lead (vs : Variables) (mode : Expansion) {g : String} (hg : '$' ∉ g.toList)
    (b : String) : vs.interpret mode (g ++ b) = g ++ vs.interpret mode b := by
  rw [interpret, expandReferences, bracedAt_scan.expandWith_lead hg,
    bareAt_scan.expandWith_lead hg]
  rfl

theorem interpret_gap (vs : Variables) {g : String} (hg : isGap g = true) (a b : String) :
    vs.interpret .plain (a ++ g ++ b)
      = vs.interpret .plain a ++ g ++ vs.interpret .plain b := by
  rw [interpret, expandReferences, bracedAt_scan.expandWith_gap hg,
    bareAt_scan.expandWith_gap hg]
  rfl

theorem not_mentions_of_no_dollar {vs : Variables} {text : String} (h : '$' ∉ text.toList) :
    ¬ vs.Mentions text := by
  rintro ⟨r, hbraced | hbare, -⟩
  · exact bracedAt_scan.no_reference h r hbraced
  · exact bareAt_scan.no_reference h r hbare

/-- A text without a dollar sign is written as it stands. -/
theorem interpret_of_no_dollar (vs : Variables) (mode : Expansion) {text : String}
    (h : '$' ∉ text.toList) : vs.interpret mode text = text := by
  rw [interpret, expandReferences,
    bracedAt_scan.expandWith_eq_self fun r hr => absurd hr (bracedAt_scan.no_reference h r),
    bareAt_scan.expandWith_eq_self fun r hr => absurd hr (bareAt_scan.no_reference h r)]

theorem mentions_lead (vs : Variables) {g : String} (hg : '$' ∉ g.toList) (b : String) :
    vs.Mentions (g ++ b) ↔ vs.Mentions b := by
  simp [Mentions, bracedAt_scan.pieces_lead hg, bareAt_scan.pieces_lead hg]

theorem mentions_gap (vs : Variables) {g : String} (hg : isGap g = true) (a b : String) :
    vs.Mentions (a ++ g ++ b) ↔ vs.Mentions a ∨ vs.Mentions b := by
  simp only [Mentions, bracedAt_scan.pieces_gap hg, bareAt_scan.pieces_gap hg, List.mem_append,
    List.mem_map, reduceCtorEq, and_false, exists_false, or_false]
  grind

/-- The value of a variable is one of the values that are stored. -/
theorem no_dollar_of_get? {vs : Variables} (h : vs.Literal) {name value : String}
    (hget : vs.get? name = some value) : '$' ∉ value.toList := by
  have hmem : ∀ store : Store, store.get? name = some value → (name, value) ∈ store := by
    intro store hstore
    obtain ⟨before, behind, rfl, -⟩ := List.lookup_eq_some_iff.mp hstore
    exact List.mem_append_right before List.mem_cons_self
  refine h (name, value) ?_
  simp only [List.mem_append]
  unfold get? at hget
  split at hget
  · next hover => exact .inr (hmem _ (hget ▸ hover))
  · split at hget
    · next hexported => exact .inl (.inr (hmem _ (hget ▸ hexported)))
    · exact .inl (.inl (hmem _ hget))

theorem dollarless_write {vs : Variables} (h : vs.Literal) : Dollarless (vs.write .plain) := by
  intro r
  cases hget : vs.get? r.name with
  | none => exact .inl (by simp [write, hget])
  | some value =>
      refine .inr ?_
      simpa [write, hget] using no_dollar_of_get? h hget

/-- A reference that stands for itself is to no variable that is there. -/
theorem get?_eq_none_of_write {vs : Variables} (h : vs.Literal) {r : Reference}
    (hraw : '$' ∈ r.raw.toList) (hwrite : vs.write .plain r = r.raw) :
    vs.get? r.name = none := by
  cases hget : vs.get? r.name with
  | none => rfl
  | some value =>
      have hvalue : value = r.raw := by simpa [write, hget] using hwrite
      exact absurd (hvalue ▸ hraw) (no_dollar_of_get? h hget)

/-- **A text is its own expansion exactly if it mentions no variable.** -/
theorem interpret_eq_self_iff {vs : Variables} (h : vs.Literal) (text : String) :
    vs.interpret .plain text = text ↔ ¬ vs.Mentions text := by
  have hwrite := dollarless_write h
  constructor
  · intro heq
    -- each pass takes dollar signs away or leaves all as it is, so neither pass did anything
    have hbraced := bracedAt_scan.count_expandWith_le hwrite text
    have hbare := bareAt_scan.count_expandWith_le hwrite
      (expandWith bracedAt (vs.write .plain) text)
    have hcount := congrArg (fun t => t.toList.count '$') heq
    simp only [interpret, expandReferences] at hcount
    have hfirst : ∀ r, .reference r ∈ pieces bracedAt text → vs.write .plain r = r.raw :=
      fun r hr => bracedAt_scan.raw_of_count_eq hwrite (by omega) hr
    have hsame := bracedAt_scan.expandWith_eq_self hfirst
    rw [hsame] at hcount
    rintro ⟨r, hmem | hmem, hget⟩
    · have hnone := get?_eq_none_of_write h (bracedAt_scan.dollar_of_mem _ 0 hmem) (hfirst r hmem)
      simp [hnone] at hget
    · have hraw := bareAt_scan.raw_of_count_eq hwrite hcount hmem
      have hnone := get?_eq_none_of_write h (bareAt_scan.dollar_of_mem _ 0 hmem) hraw
      simp [hnone] at hget
  · intro hnot
    have hraw : ∀ r, (.reference r ∈ pieces bracedAt text ∨ .reference r ∈ pieces bareAt text) →
        vs.write .plain r = r.raw := by
      intro r hr
      cases hget : vs.get? r.name with
      | none => simp [write, hget]
      | some value => exact absurd ⟨r, hr, by simp [hget]⟩ hnot
    rw [interpret, expandReferences,
      bracedAt_scan.expandWith_eq_self fun r hr => hraw r (.inl hr),
      bareAt_scan.expandWith_eq_self fun r hr => hraw r (.inr hr)]

end Variables

end Playscript
