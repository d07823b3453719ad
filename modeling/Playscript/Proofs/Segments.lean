import Mathlib.Data.List.Chain
import Playscript.Proofs.References

/-! # Texts written segment by segment

    Expansion goes over a text twice, and what the first pass writes the second pass reads again.
    A text is neat if that does no harm: it is put together of plain characters, braced
    references and bare ones, and behind a bare reference stands nothing that would be read as
    part of its name.  If no dollar sign is written for the braced references of a neat text, its
    expansion is what is written for its segments, one after the other
    (`toList_expandReferences_render`). -/

namespace Playscript

open Reference (bracedAt bareAt bracedAt_scan bareAt_scan)

namespace Reference

/-- The braced reference to a name. -/
def braced (name : String) : Reference :=
  ⟨name, String.ofList ('$' :: '\x7b' :: name.toList ++ ['\x7d'])⟩

/-- The bare reference to a name. -/
def bare (name : String) : Reference :=
  ⟨name, String.ofList ('$' :: name.toList)⟩

theorem raw_braced (name : String) :
    (braced name).raw.toList = '$' :: '\x7b' :: name.toList ++ ['\x7d'] := String.toList_ofList

theorem raw_bare (name : String) : (bare name).raw.toList = '$' :: name.toList :=
  String.toList_ofList

/-- Whether a name can stand in a braced reference. -/
def isBraceable (name : String) : Bool :=
  name.toList.head?.any startsName && name.toList.all inName

/-- Whether a name can stand in a bare reference. -/
def isReferable (name : String) : Bool :=
  !name.toList.isEmpty && name.toList.all Text.isWordChar

theorem inName_of_startsName {c : Char} (h : startsName c = true) : inName c = true := by
  simp [startsName, inName, Char.isAlphanum] at h ⊢
  tauto

theorem isWordChar_of_inName {c : Char} (h : inName c = true) : Text.isWordChar c = true := by
  have hascii : c.toNat < 128 := by
    unfold inName Char.isAlphanum Char.isAlpha Char.isUpper Char.isLower Char.isDigit at h
    simp only [UInt32.le_iff_toNat_le, Bool.or_eq_true, Bool.and_eq_true, decide_eq_true_eq,
      ge_iff_le, beq_iff_eq] at h
    rcases h with ((⟨-, h⟩ | ⟨-, h⟩) | ⟨-, h⟩) | rfl
    · exact Nat.lt_of_le_of_lt h (by decide)
    · exact Nat.lt_of_le_of_lt h (by decide)
    · exact Nat.lt_of_le_of_lt h (by decide)
    · decide
  rw [Text.isWordChar, Text.inClass_ascii hascii]
  exact h

/-- What can stand in braces can stand without them. -/
theorem isReferable_of_isBraceable {name : String} (h : isBraceable name = true) :
    isReferable name = true := by
  simp only [isBraceable, isReferable, Bool.and_eq_true, List.all_eq_true] at h ⊢
  refine ⟨?_, fun c hc => isWordChar_of_inName (h.2 c hc)⟩
  cases hname : name.toList with
  | nil => simp [hname] at h
  | cons c rest => rfl

theorem ne_of_isWordChar {c mark : Char} (hc : Text.isWordChar c = true)
    (hmark : Text.isWordChar mark = false) : c ≠ mark := by
  rintro rfl
  simp [hc] at hmark

theorem isWordChar_dollar : Text.isWordChar '$' = false := by decide +kernel

theorem isWordChar_brace : Text.isWordChar '\x7b' = false := by decide +kernel

theorem no_dollar_of_isReferable {name : String} (h : isReferable name = true) :
    '$' ∉ name.toList := by
  intro hmem
  simp only [isReferable, Bool.and_eq_true, List.all_eq_true] at h
  exact ne_of_isWordChar (h.2 _ hmem) isWordChar_dollar rfl

/-- A braced reference is found where it stands. -/
theorem bracedAt_braced {name : String} (h : isBraceable name = true) (b : List Char) :
    bracedAt ((braced name).raw.toList ++ b) = some (braced name) := by
  obtain ⟨c, rest, hname⟩ : ∃ c rest, name.toList = c :: rest := by
    cases hname : name.toList with
    | nil => simp [isBraceable, hname] at h
    | cons c rest => exact ⟨c, rest, rfl⟩
  simp only [isBraceable, hname, List.head?_cons, Option.any_some, List.all_cons,
    Bool.and_eq_true, List.all_eq_true] at h
  have hend : inName '\x7d' = false := by decide
  have htake : (rest ++ '\x7d' :: b).takeWhile inName = rest := by
    rw [takeWhile_append_stop hend, List.takeWhile_eq_self_iff]
    exact h.2.2
  have hdrop : (rest ++ '\x7d' :: b).dropWhile inName = '\x7d' :: b := by
    rw [List.dropWhile_append_of_pos h.2.2, List.dropWhile_cons_of_neg (by simp [hend])]
  have hraw : (braced name).raw.toList ++ b = '$' :: '\x7b' :: c :: (rest ++ '\x7d' :: b) := by
    simp [braced, hname]
  rw [hraw, bracedAt_cons, htake, hdrop, if_pos ⟨rfl, rfl, h.1, rfl⟩, ← hname,
    String.ofList_toList]
  rfl

/-- What is found is the braced reference to its name. -/
theorem eq_braced_of_bracedAt {cs : List Char} {r : Reference} (h : bracedAt cs = some r) :
    isBraceable r.name = true ∧ r = braced r.name := by
  unfold bracedAt at h
  split at h
  · next c rest =>
      split at h
      · next hc =>
          split at h
          · cases h
            refine ⟨?_, by simp [braced]⟩
            simp only [isBraceable, String.toList_ofList, List.head?_cons, Option.any_some, hc,
              List.all_cons, inName_of_startsName hc, Bool.true_and, List.all_eq_true]
            exact fun d hd => List.mem_takeWhile_imp hd
          · cases h
      · cases h
  · cases h

/-- What is found is the bare reference to its name. -/
theorem eq_bare_of_bareAt {cs : List Char} {r : Reference} (h : bareAt cs = some r) :
    isReferable r.name = true ∧ r = bare r.name := by
  unfold bareAt at h
  split at h
  · next rest =>
      simp only at h
      split at h
      · exact nomatch h
      · next hname =>
          cases h
          refine ⟨?_, by simp [bare]⟩
          simp only [isReferable, String.toList_ofList, hname, Bool.not_false, Bool.true_and,
            List.all_eq_true]
          exact fun d hd => List.mem_takeWhile_imp hd
  · exact nomatch h

/-- No braced reference is found where a bare one stands. -/
theorem bracedAt_bare {name : String} (h : isReferable name = true) (b : List Char) :
    bracedAt ((bare name).raw.toList ++ b) = none := by
  cases hfind : bracedAt ((bare name).raw.toList ++ b) with
  | none => rfl
  | some r =>
      obtain ⟨inner, behind, heq, -⟩ := bracedAt_eq_some hfind
      simp only [isReferable, Bool.and_eq_true, List.all_eq_true] at h
      cases hname : name.toList with
      | nil => simp [hname] at h
      | cons c rest =>
          simp only [bare, hname, String.toList_ofList, List.cons_append, List.cons.injEq] at heq
          exact absurd heq.2.1 (ne_of_isWordChar (h.2 c (by simp [hname])) isWordChar_brace)

/-- A bare reference is found where it stands, if its name ends there. -/
theorem bareAt_bare {name : String} (h : isReferable name = true) {b : List Char}
    (hb : ∀ c ∈ b.head?, Text.isWordChar c = false) :
    bareAt ((bare name).raw.toList ++ b) = some (bare name) := by
  simp only [isReferable, Bool.and_eq_true, List.all_eq_true] at h
  have htake : (name.toList ++ b).takeWhile Text.isWordChar = name.toList := by
    rw [List.takeWhile_append_of_pos h.2]
    cases b with
    | nil => simp
    | cons c rest => simp [hb c rfl]
  have hraw : (bare name).raw.toList ++ b = '$' :: (name.toList ++ b) := by simp [bare]
  rw [hraw, bareAt_cons, htake, if_pos ⟨rfl, by simpa using h.1⟩, String.ofList_toList]
  rfl

end Reference

/-! ## Pieces one after the other -/

theorem eq_braced_of_mem {r : Reference} {text : String}
    (h : .reference r ∈ pieces bracedAt text) :
    Reference.isBraceable r.name = true ∧ r = .braced r.name :=
  have ⟨_, hfind⟩ := exists_find_of_mem _ _ h
  Reference.eq_braced_of_bracedAt hfind

theorem eq_bare_of_mem {r : Reference} {text : String}
    (h : .reference r ∈ pieces bareAt text) :
    Reference.isReferable r.name = true ∧ r = .bare r.name :=
  have ⟨_, hfind⟩ := exists_find_of_mem _ _ h
  Reference.eq_bare_of_bareAt hfind

/-- What is to be skipped is skipped. -/
theorem piecesAfter_length (find : List Char → Option Reference) (a b : List Char) :
    piecesAfter find a.length (a ++ b) = piecesAfter find 0 b := by
  induction a with
  | nil => rfl
  | cons c rest ih => rw [List.length_cons, List.cons_append, piecesAfter, ih]

/-- A reference that is found where it stands is a piece. -/
theorem piecesAfter_found {find : List Char → Option Reference} {r : Reference} {b : List Char}
    (hraw : r.raw.toList ≠ []) (h : find (r.raw.toList ++ b) = some r) :
    piecesAfter find 0 (r.raw.toList ++ b) = .reference r :: piecesAfter find 0 b := by
  obtain ⟨c, rest, hcons⟩ := List.exists_cons_of_ne_nil hraw
  have hlength : r.raw.length - 1 = rest.length := by
    rw [← String.length_toList, hcons, List.length_cons, Nat.add_sub_cancel]
  rw [hcons, List.cons_append] at h ⊢
  rw [piecesAfter, h]
  simp only [hlength, piecesAfter_length]

/-- What starts no reference is a piece of its own. -/
theorem piecesAfter_char {find : List Char → Option Reference} {c : Char} {rest : List Char}
    (h : find (c :: rest) = none) :
    piecesAfter find 0 (c :: rest) = .char c :: piecesAfter find 0 rest := by
  rw [piecesAfter, h]

/-- The first pass sees no bare reference: its dollar sign starts nothing, and its name holds no
    other. -/
theorem bracedPieces_bare {name : String} (h : Reference.isReferable name = true)
    (rest : List Char) :
    piecesAfter bracedAt 0 ((Reference.bare name).raw.toList ++ rest)
      = (Reference.bare name).raw.toList.map .char ++ piecesAfter bracedAt 0 rest := by
  have hnone := Reference.bracedAt_bare h rest
  rw [Reference.raw_bare, List.cons_append] at hnone ⊢
  rw [piecesAfter_char hnone,
    bracedAt_scan.piecesAfter_lead (Reference.no_dollar_of_isReferable h)]
  rfl

/-! ## Segments -/

/-- A part of a text. -/
inductive Segment where
  | char (c : Char)
  | braced (name : String)
  | bare (name : String)
deriving DecidableEq, Repr, Inhabited

namespace Segment

/-- The text of a segment as it stands. -/
def raw : Segment → List Char
  | .char c => [c]
  | .braced name => (Reference.braced name).raw.toList
  | .bare name => (Reference.bare name).raw.toList

/-- The text of a segment with something written for a braced reference. -/
def unbraced (value : Reference → String) : Segment → List Char
  | .braced name => (value (.braced name)).toList
  | segment => segment.raw

/-- The text of a segment with something written for a reference. -/
def written (value : Reference → String) : Segment → List Char
  | .char c => [c]
  | .braced name => (value (.braced name)).toList
  | .bare name => (value (.bare name)).toList

/-- Whether a segment is what it says: a character that starts no reference, or a reference with
    a name that is read as one. -/
def isSound : Segment → Bool
  | .char c => c != '$'
  | .braced name => Reference.isBraceable name
  | .bare name => Reference.isReferable name

@[simp] theorem unbraced_char (value : Reference → String) (c : Char) :
    (char c).unbraced value = [c] := rfl

@[simp] theorem unbraced_bare (value : Reference → String) (name : String) :
    (bare name).unbraced value = (Reference.bare name).raw.toList := rfl

/-- A character that starts no reference is no dollar sign. -/
theorem no_dollar_of_isSound {c : Char} (h : (char c).isSound = true) : '$' ∉ [c] := by
  rw [List.mem_singleton]
  exact Ne.symm (bne_iff_ne.mp h)

/-- Whether the second of two segments is not read as part of the first. -/
def parts : Segment → Segment → Bool
  | .bare _, .char c => !Text.isWordChar c
  | .bare _, .braced _ => false
  | _, _ => true

end Segment

/-- The text that some segments make. -/
def render (segments : List Segment) : String :=
  String.ofList (segments.flatMap Segment.raw)

/-- Segments that are read as they were written. -/
structure Neat (segments : List Segment) : Prop where
  sound : ∀ segment ∈ segments, segment.isSound = true
  parted : segments.IsChain fun a b => a.parts b = true

namespace Neat

theorem tail {segment : Segment} {rest : List Segment} (h : Neat (segment :: rest)) :
    Neat rest :=
  ⟨fun s hs => h.sound s (List.mem_cons_of_mem _ hs), h.parted.tail⟩

/-- Behind a bare reference no word character stands, in the text or after the first pass. -/
theorem no_word_behind {name : String} {rest : List Segment} (h : Neat (.bare name :: rest))
    (value : Reference → String) :
    ∀ c ∈ (rest.flatMap (Segment.unbraced value)).head?, Text.isWordChar c = false := by
  cases rest with
  | nil => intro c hc; exact nomatch hc
  | cons segment behind =>
      have hparts := (List.isChain_cons_cons.mp h.parted).1
      intro c hc
      cases segment with
      | char d =>
          cases hc
          simpa [Segment.parts] using hparts
      | braced other => exact nomatch hparts
      | bare other =>
          have hdollar : c = '$' := by
            simpa [Segment.unbraced, Segment.raw, Reference.bare, eq_comm] using hc
          rw [hdollar]
          exact Reference.isWordChar_dollar

/-- The first pass writes out the braced references. -/
theorem braced_pass {segments : List Segment} (h : Neat segments) (value : Reference → String) :
    (piecesAfter bracedAt 0 (segments.flatMap Segment.raw)).flatMap (Piece.expanded value)
      = segments.flatMap (Segment.unbraced value) := by
  induction segments with
  | nil => rfl
  | cons segment rest ih =>
      have hsound := h.sound segment List.mem_cons_self
      rw [List.flatMap_cons, List.flatMap_cons, ← ih h.tail]
      cases segment with
      | char c =>
          rw [Segment.raw, bracedAt_scan.piecesAfter_lead (Segment.no_dollar_of_isSound hsound),
            List.flatMap_append, flatMap_expanded_char]
          rfl
      | braced name =>
          rw [Segment.raw, piecesAfter_found (by simp [Reference.braced])
            (Reference.bracedAt_braced hsound _), List.flatMap_cons]
          rfl
      | bare name =>
          rw [Segment.unbraced_bare, Segment.raw, bracedPieces_bare hsound, List.flatMap_append,
            flatMap_expanded_char]

/-- The second pass writes out the bare ones. -/
theorem bare_pass {segments : List Segment} (h : Neat segments) {value : Reference → String}
    (hvalue : ∀ name, .braced name ∈ segments → '$' ∉ (value (.braced name)).toList) :
    (piecesAfter bareAt 0 (segments.flatMap (Segment.unbraced value))).flatMap
        (Piece.expanded value)
      = segments.flatMap (Segment.written value) := by
  induction segments with
  | nil => rfl
  | cons segment rest ih =>
      have hsound := h.sound segment List.mem_cons_self
      rw [List.flatMap_cons, List.flatMap_cons,
        ← ih h.tail fun name hname => hvalue name (List.mem_cons_of_mem _ hname)]
      cases segment with
      | char c =>
          rw [Segment.unbraced_char,
            bareAt_scan.piecesAfter_lead (Segment.no_dollar_of_isSound hsound),
            List.flatMap_append, flatMap_expanded_char]
          rfl
      | braced name =>
          have hnone := hvalue name List.mem_cons_self
          rw [Segment.unbraced, bareAt_scan.piecesAfter_lead hnone, List.flatMap_append,
            flatMap_expanded_char]
          rfl
      | bare name =>
          have hfound := Reference.bareAt_bare hsound (h.no_word_behind value)
          rw [Segment.unbraced_bare, piecesAfter_found (by simp [Reference.bare]) hfound,
            List.flatMap_cons]
          rfl

/-- **A neat text is written out segment by segment.** -/
theorem toList_expandReferences_render {segments : List Segment} (h : Neat segments)
    {value : Reference → String}
    (hvalue : ∀ name, .braced name ∈ segments → '$' ∉ (value (.braced name)).toList) :
    (expandReferences value (render segments)).toList
      = segments.flatMap (Segment.written value) := by
  have hfirst : (expandWith bracedAt value (render segments)).toList
      = segments.flatMap (Segment.unbraced value) := by
    rw [toList_expandWith, pieces, render, String.toList_ofList, h.braced_pass]
  rw [expandReferences, toList_expandWith, pieces, hfirst, h.bare_pass hvalue]

end Neat

end Playscript
