import Playscript.Proofs.Segments

/-! # One scan and two

    A text could be expanded in one scan, which writes each reference out where it stands and goes
    on behind it.  Expansion goes over a text twice instead, and the second pass, which is for bare
    references, reads what the first one has written for braced ones.  It may find references in
    it, and it may take it for the rest of a name.  Each text is read in one way (`Scanned`), so the
    two can be compared reference by reference: they agree on all texts exactly if each value that
    is written for a braced reference is inert, which means that it is set apart from what stands
    in front of it and is left as it is by the second pass (`interpret_eq_scanOnce_iff`). -/

namespace Playscript

open Reference (braced bare bracedAt bareAt bracedAt_scan bareAt_scan isBraceable isReferable
  raw_braced raw_bare)

/-! ## How a text is read -/

/-- A text that ends a name in front of it. -/
def EndsName (behind : List Char) : Prop :=
  ∀ c ∈ behind.head?, Text.isWordChar c = false

/-- What cannot go on a name still cannot with more behind it. -/
theorem EndsName.append {a b : List Char} (ha : EndsName a) (hb : EndsName b) :
    EndsName (a ++ b) := by
  cases a with
  | nil => exact hb
  | cons c rest => exact ha

theorem endsName_dollar {rest : List Char} : EndsName ('$' :: rest) := by
  intro c hc
  cases hc
  exact Reference.isWordChar_dollar

/-- Behind all word characters stands nothing that goes on a name. -/
theorem endsName_dropWhile (cs : List Char) : EndsName (cs.dropWhile Text.isWordChar) := by
  intro c hc
  have hhead := List.head?_dropWhile_not Text.isWordChar cs
  rw [Option.mem_def.mp hc] at hhead
  exact hhead

/-- A bare reference is a dollar sign in front of a word character. -/
theorem bareAt_cons_eq_none_iff (c : Char) (rest : List Char) :
    bareAt (c :: rest) = none ↔ (c = '$' → EndsName rest) := by
  rw [Reference.bareAt_cons, ite_eq_right_iff]
  cases rest with
  | nil => simp [EndsName]
  | cons d behind =>
      by_cases hd : Text.isWordChar d = true
      · simp [EndsName, hd]
      · simp [EndsName, hd]

/-- A bare reference ends where its name does. -/
theorem bareAt_ends {cs : List Char} {r : Reference} (h : bareAt cs = some r) :
    ∃ rest, cs = r.raw.toList ++ rest ∧ EndsName rest := by
  cases cs with
  | nil => cases h
  | cons c behind =>
      rw [Reference.bareAt_cons] at h
      split at h
      · next hname =>
          obtain ⟨rfl, -⟩ := hname
          cases h
          exact ⟨_, by simp, endsName_dropWhile behind⟩
      · cases h

/-- A text as it is read: characters that start no reference, braced references, and bare ones
    with a name that ends where the reference does. -/
inductive Scanned : List Char → Prop where
  | done : Scanned []
  | char {c : Char} {rest : List Char} (unbraced : bracedAt (c :: rest) = none)
      (unbare : bareAt (c :: rest) = none) (scanned : Scanned rest) : Scanned (c :: rest)
  | braced {name : String} {rest : List Char} (braceable : isBraceable name = true)
      (scanned : Scanned rest) : Scanned ((braced name).raw.toList ++ rest)
  | bare {name : String} {rest : List Char} (referable : isReferable name = true)
      (ends : EndsName rest) (scanned : Scanned rest) : Scanned ((bare name).raw.toList ++ rest)

/-- Every text is read. -/
theorem Scanned.of_text (cs : List Char) : Scanned cs := by
  induction hlength : cs.length using Nat.strong_induction_on generalizing cs with
  | _ length ih =>
      subst hlength
      cases hbraced : bracedAt cs with
      | some r =>
          obtain ⟨hname, heq⟩ := Reference.eq_braced_of_bracedAt hbraced
          obtain ⟨rest, rfl⟩ := bracedAt_scan.reads hbraced
          rw [heq] at ih ⊢
          refine .braced hname (ih _ ?_ rest rfl)
          simp only [raw_braced, List.length_append, List.length_cons]
          omega
      | none =>
          cases hbare : bareAt cs with
          | some r =>
              obtain ⟨hname, heq⟩ := Reference.eq_bare_of_bareAt hbare
              obtain ⟨rest, rfl, hends⟩ := bareAt_ends hbare
              rw [heq] at ih ⊢
              refine .bare hname hends (ih _ ?_ rest rfl)
              simp only [raw_bare, List.length_append, List.length_cons]
              omega
          | none =>
              cases cs with
              | nil => exact .done
              | cons c rest => exact .char hbraced hbare (ih _ (by simp) rest rfl)

/-! ## What is written for it -/

/-- A text with something written for the references that `find` sees. -/
def spell (find : List Char → Option Reference) (value : Reference → String) (cs : List Char) :
    List Char :=
  (piecesAfter find 0 cs).flatMap (Piece.expanded value)

/-- The reference at the start of a text, in braces or without them. -/
def referenceAt (cs : List Char) : Option Reference :=
  (bracedAt cs).or (bareAt cs)

/-- References of either kind, found in one scan, obey the laws of scans: the two kinds never start
    alike. -/
theorem referenceAt_scan : Scan referenceAt where
  starts h := (Option.or_eq_some_iff.mp h).elim bracedAt_scan.starts
    fun hbare => bareAt_scan.starts hbare.2
  reads h := (Option.or_eq_some_iff.mp h).elim bracedAt_scan.reads
    fun hbare => bareAt_scan.reads hbare.2
  stops hc a b := by
    rw [referenceAt, referenceAt, bracedAt_scan.stops hc, bareAt_scan.stops hc]

section Spelling

variable {find : List Char → Option Reference} {value : Reference → String}

theorem toList_expandWith_eq_spell (text : String) :
    (expandWith find value text).toList = spell find value text.toList :=
  toList_expandWith find value text

@[simp] theorem spell_nil : spell find value [] = [] := by
  rw [spell, piecesAfter]
  rfl

/-- What starts no reference is copied. -/
theorem spell_char {c : Char} {rest : List Char} (h : find (c :: rest) = none) :
    spell find value (c :: rest) = c :: spell find value rest := by
  rw [spell, piecesAfter_char h]
  rfl

/-- A reference is written out, and the scan goes on behind it. -/
theorem spell_found {r : Reference} {rest : List Char} (hraw : r.raw.toList ≠ [])
    (h : find (r.raw.toList ++ rest) = some r) :
    spell find value (r.raw.toList ++ rest) = (value r).toList ++ spell find value rest := by
  rw [spell, piecesAfter_found hraw h]
  rfl

theorem Scan.spell_lead (h : Scan find) {g : List Char} (hg : '$' ∉ g) (rest : List Char) :
    spell find value (g ++ rest) = g ++ spell find value rest := by
  rw [spell, h.piecesAfter_lead hg, List.flatMap_append, flatMap_expanded_char]
  rfl

theorem Scan.spell_of_no_dollar (h : Scan find) {g : List Char} (hg : '$' ∉ g) :
    spell find value g = g := by
  have hlead : spell find value (g ++ []) = g ++ spell find value [] := h.spell_lead hg []
  simpa using hlead

/-! ### References in the other form -/

/-- How one scan goes over one reference: that of its own kind is written as its value, and the
    other kind is passed over. -/
theorem spell_bracedAt_bare {name : String} (h : isReferable name = true) (rest : List Char) :
    spell bracedAt value ((bare name).raw.toList ++ rest)
      = (bare name).raw.toList ++ spell bracedAt value rest := by
  rw [spell, bracedPieces_bare h, List.flatMap_append, flatMap_expanded_char]
  rfl

theorem spell_bracedAt_braced {name : String} (h : isBraceable name = true) (rest : List Char) :
    spell bracedAt value ((braced name).raw.toList ++ rest)
      = (value (braced name)).toList ++ spell bracedAt value rest :=
  spell_found (by simp [raw_braced]) (Reference.bracedAt_braced h rest)

/-- A bare reference is taken as a whole, if what stands behind it ends the name. -/
theorem spell_bareAt_bare {name : String} (h : isReferable name = true) {rest : List Char}
    (hends : EndsName rest) :
    spell bareAt value ((bare name).raw.toList ++ rest)
      = (value (bare name)).toList ++ spell bareAt value rest :=
  spell_found (by simp [raw_bare]) (Reference.bareAt_bare h hends)

/-- The second pass leaves a braced reference alone. -/
theorem spell_bareAt_braced {name : String} (h : isBraceable name = true) (rest : List Char) :
    spell bareAt value ((braced name).raw.toList ++ rest)
      = (braced name).raw.toList ++ spell bareAt value rest := by
  have hbrace : EndsName ('\x7b' :: name.toList ++ ['\x7d'] ++ rest) := by
    intro c hc
    cases hc
    exact Reference.isWordChar_brace
  have hlead : '$' ∉ '\x7b' :: name.toList ++ ['\x7d'] := by
    have hname := Reference.no_dollar_of_isReferable (Reference.isReferable_of_isBraceable h)
    simp [hname]
  rw [raw_braced]
  calc spell bareAt value ('$' :: ('\x7b' :: name.toList ++ ['\x7d'] ++ rest))
      = '$' :: spell bareAt value ('\x7b' :: name.toList ++ ['\x7d'] ++ rest) :=
        spell_char ((bareAt_cons_eq_none_iff _ _).mpr fun _ => hbrace)
    _ = '$' :: ('\x7b' :: name.toList ++ ['\x7d'] ++ spell bareAt value rest) := by
        rw [bareAt_scan.spell_lead hlead]

theorem spell_referenceAt_braced {name : String} (h : isBraceable name = true)
    (rest : List Char) :
    spell referenceAt value ((braced name).raw.toList ++ rest)
      = (value (braced name)).toList ++ spell referenceAt value rest := by
  refine spell_found (by simp [raw_braced]) ?_
  rw [referenceAt, Reference.bracedAt_braced h, Option.some_or]

theorem spell_referenceAt_bare {name : String} (h : isReferable name = true) {rest : List Char}
    (hends : EndsName rest) :
    spell referenceAt value ((bare name).raw.toList ++ rest)
      = (value (bare name)).toList ++ spell referenceAt value rest := by
  refine spell_found (by simp [raw_bare]) ?_
  rw [referenceAt, Reference.bracedAt_bare h, Option.none_or, Reference.bareAt_bare h hends]

/-- What ends a name cuts a text for the second pass. -/
theorem spell_bareAt_append (a : List Char) {b : List Char} (hb : EndsName b) :
    spell bareAt value (a ++ b) = spell bareAt value a ++ spell bareAt value b := by
  induction Scanned.of_text a with
  | done => simp
  | @char c rest _ unbare _ ih =>
      have hboth : bareAt (c :: (rest ++ b)) = none :=
        (bareAt_cons_eq_none_iff _ _).mpr fun hc =>
          ((bareAt_cons_eq_none_iff _ _).mp unbare hc).append hb
      rw [List.cons_append, spell_char hboth, spell_char unbare, ih, List.cons_append]
  | braced braceable _ ih =>
      rw [List.append_assoc, spell_bareAt_braced braceable, spell_bareAt_braced braceable, ih,
        List.append_assoc]
  | bare referable ends _ ih =>
      rw [List.append_assoc, spell_bareAt_bare referable (ends.append hb),
        spell_bareAt_bare referable ends, ih, List.append_assoc]

end Spelling

/-! ## Values that are left alone -/

namespace Variables

/-- Expands all references of a text in one scan. -/
def scanOnce (vs : Variables) (text : String) : String :=
  expandWith referenceAt (vs.write .plain) text

/-- A value that the second pass leaves alone: it cannot be taken for the rest of a name, and with
    any word characters behind it no reference in it is written out. -/
structure Inert (vs : Variables) (value : String) : Prop where
  apart : value ≠ "" ∧ EndsName value.toList
  kept : ∀ tail : String, tail.toList.all Text.isWordChar = true →
    expandWith bareAt (vs.write .plain) (value ++ tail) = value ++ tail

/-- A text refers in braces to no variables but those that are used. -/
def BracesOnly (vs : Variables) (used : String → Prop) (cs : List Char) : Prop :=
  ∀ r, .reference r ∈ piecesAfter bracedAt 0 cs → (vs.get? r.name).isSome = true → used r.name

variable {vs : Variables}

theorem write_of_get? {r : Reference} {value : String} (h : vs.get? r.name = some value) :
    vs.write .plain r = value := by
  rw [write, h]
  rfl

theorem write_of_none {r : Reference} (h : vs.get? r.name = none) :
    vs.write .plain r = r.raw := by
  rw [write, h]
  rfl

theorem no_dollar_of_word {tail : List Char} (h : tail.all Text.isWordChar = true) :
    '$' ∉ tail := by
  intro hmem
  exact Reference.ne_of_isWordChar (List.all_eq_true.mp h _ hmem) Reference.isWordChar_dollar rfl

theorem toList_interpret (vs : Variables) (text : String) :
    (vs.interpret .plain text).toList
      = spell bareAt (vs.write .plain) (spell bracedAt (vs.write .plain) text.toList) := by
  rw [interpret, expandReferences, toList_expandWith_eq_spell, toList_expandWith_eq_spell]

theorem toList_scanOnce (vs : Variables) (text : String) :
    (vs.scanOnce text).toList = spell referenceAt (vs.write .plain) text.toList :=
  toList_expandWith_eq_spell text

/-- A value is left alone with whatever stands behind it. -/
theorem Inert.spell_append {value : String} (h : vs.Inert value) (rest : List Char) :
    spell bareAt (vs.write .plain) (value.toList ++ rest)
      = value.toList ++ spell bareAt (vs.write .plain) rest := by
  -- the word characters behind the value are all that can go with a name in it
  have hword : (rest.takeWhile Text.isWordChar).all Text.isWordChar = true :=
    List.all_takeWhile
  have hkept := congrArg String.toList
    (h.kept (String.ofList (rest.takeWhile Text.isWordChar)) (by rwa [String.toList_ofList]))
  rw [toList_expandWith_eq_spell, String.toList_append, String.toList_ofList] at hkept
  have hends := endsName_dropWhile rest
  calc spell bareAt (vs.write .plain) (value.toList ++ rest)
      = spell bareAt (vs.write .plain) (value.toList ++ rest.takeWhile Text.isWordChar
          ++ rest.dropWhile Text.isWordChar) := by
        rw [List.append_assoc, List.takeWhile_append_dropWhile]
    _ = value.toList ++ (rest.takeWhile Text.isWordChar
          ++ spell bareAt (vs.write .plain) (rest.dropWhile Text.isWordChar)) := by
        rw [spell_bareAt_append _ hends, hkept, List.append_assoc]
    _ = value.toList ++ spell bareAt (vs.write .plain) rest := by
        rw [← bareAt_scan.spell_lead (no_dollar_of_word hword), List.takeWhile_append_dropWhile]

/-! ## Where values are left alone, two passes are one scan -/

section Agreement

variable {used : String → Prop}

namespace BracesOnly

theorem of_char {c : Char} {rest : List Char} (h : vs.BracesOnly used (c :: rest))
    (hnone : bracedAt (c :: rest) = none) : vs.BracesOnly used rest := by
  rw [BracesOnly, piecesAfter_char hnone] at h
  exact fun r hr => h r (List.mem_cons_of_mem _ hr)

/-- A reference in braces in front is used, if its variable is there, and the rest has its own. -/
theorem of_braced {name : String} {rest : List Char}
    (h : vs.BracesOnly used ((braced name).raw.toList ++ rest)) (hname : isBraceable name = true) :
    ((vs.get? name).isSome = true → used name) ∧ vs.BracesOnly used rest := by
  rw [BracesOnly, piecesAfter_found (by simp [raw_braced])
    (Reference.bracedAt_braced hname rest)] at h
  exact ⟨h (braced name) List.mem_cons_self, fun r hr => h r (List.mem_cons_of_mem _ hr)⟩

/-- A bare reference in front tells nothing about braces. -/
theorem of_bare {name : String} {rest : List Char}
    (h : vs.BracesOnly used ((bare name).raw.toList ++ rest)) (hname : isReferable name = true) :
    vs.BracesOnly used rest := by
  rw [BracesOnly, bracedPieces_bare hname] at h
  exact fun r hr => h r (List.mem_append_right _ hr)

end BracesOnly

variable (hinert : ∀ name value, used name → isBraceable name = true →
  vs.get? name = some value → vs.Inert value)

include hinert

/-- What is written for a braced reference ends a name in front of it. -/
theorem endsName_write {name : String} (hname : isBraceable name = true)
    (hused : (vs.get? name).isSome = true → used name) (rest : List Char) :
    EndsName ((vs.write .plain (braced name)).toList ++ rest) := by
  cases hget : vs.get? name with
  | none =>
      rw [write_of_none (r := braced name) hget, raw_braced]
      exact endsName_dollar
  | some value =>
      rw [write_of_get? (r := braced name) hget]
      obtain ⟨hne, hends⟩ := (hinert name value (hused (by rw [hget]; rfl)) hname hget).apart
      cases hlist : value.toList with
      | nil => exact absurd (String.toList_eq_nil_iff.mp hlist) hne
      | cons c behind =>
          rw [hlist] at hends
          exact hends

/-- The first pass keeps the ends of names. -/
theorem endsName_spell {cs : List Char} (hends : EndsName cs) (honly : vs.BracesOnly used cs) :
    EndsName (spell bracedAt (vs.write .plain) cs) := by
  cases Scanned.of_text cs with
  | done => simpa using hends
  | char unbraced =>
      rw [spell_char unbraced]
      exact hends
  | braced braceable =>
      rw [spell_bracedAt_braced braceable]
      exact endsName_write hinert braceable (honly.of_braced braceable).1 _
  | bare referable =>
      rw [spell_bracedAt_bare referable, raw_bare]
      exact endsName_dollar

/-- **Where values are left alone, two passes write what one scan writes.** -/
theorem spell_twice (cs : List Char) (honly : vs.BracesOnly used cs) :
    spell bareAt (vs.write .plain) (spell bracedAt (vs.write .plain) cs)
      = spell referenceAt (vs.write .plain) cs := by
  induction Scanned.of_text cs with
  | done => simp
  | @char c rest unbraced unbare _ ih =>
      have hrest := honly.of_char unbraced
      have hnone : bareAt (c :: spell bracedAt (vs.write .plain) rest) = none :=
        (bareAt_cons_eq_none_iff _ _).mpr fun hc =>
          endsName_spell hinert ((bareAt_cons_eq_none_iff _ _).mp unbare hc) hrest
      have hneither : referenceAt (c :: rest) = none := by
        rw [referenceAt, unbraced, unbare, Option.none_or]
      rw [spell_char unbraced, spell_char hnone, spell_char hneither, ih hrest]
  | @braced name rest braceable _ ih =>
      obtain ⟨hused, hrest⟩ := honly.of_braced braceable
      rw [spell_bracedAt_braced braceable, spell_referenceAt_braced braceable, ← ih hrest]
      cases hget : vs.get? name with
      | none => rw [write_of_none (r := braced name) hget, spell_bareAt_braced braceable]
      | some value =>
          have hvalue := hinert name value (hused (by rw [hget]; rfl)) braceable hget
          rw [write_of_get? (r := braced name) hget, hvalue.spell_append]
  | bare referable ends _ ih =>
      have hrest := honly.of_bare referable
      rw [spell_bracedAt_bare referable, spell_referenceAt_bare referable ends, ← ih hrest,
        spell_bareAt_bare referable (endsName_spell hinert ends hrest)]

end Agreement

/-! ## Where they are not, some text tells the two apart -/

/-- A name that is longer than all names of a store is not in it. -/
theorem Store.get?_eq_none_of_long (store : Store) :
    ∃ bound, ∀ name : String, bound < name.length → store.get? name = none := by
  induction store with
  | nil => exact ⟨0, fun _ _ => rfl⟩
  | cons entry rest ih =>
      obtain ⟨bound, hbound⟩ := ih
      refine ⟨max bound entry.1.length, fun name hname => ?_⟩
      have hne : (name == entry.1) = false := by
        rw [beq_eq_false_iff_ne]
        rintro rfl
        omega
      show (entry :: rest).lookup name = none
      rw [List.lookup_cons, hne]
      exact hbound name (by omega)

/-- Names that are too long are not there. -/
theorem get?_eq_none_of_long (vs : Variables) :
    ∃ bound, ∀ name : String, bound < name.length → vs.get? name = none := by
  obtain ⟨first, hfirst⟩ := Store.get?_eq_none_of_long vs.overriding
  obtain ⟨second, hsecond⟩ := Store.get?_eq_none_of_long vs.exported
  obtain ⟨third, hthird⟩ := Store.get?_eq_none_of_long vs.plain
  refine ⟨max first (max second third), fun name hname => ?_⟩
  rw [get?, hfirst name (by omega), hsecond name (by omega), hthird name (by omega)]

/-- A name that becomes longer by the same characters again and again. -/
def longer (name : String) (more : List Char) (times : Nat) : String :=
  String.ofList (name.toList ++ (List.replicate times more).flatten)

theorem longer_zero (name : String) (more : List Char) : longer name more 0 = name := by
  simp [longer]

theorem toList_longer_succ (name : String) (more : List Char) (times : Nat) :
    (longer name more (times + 1)).toList = (longer name more times).toList ++ more := by
  simp [longer, List.replicate_succ']

/-- A name with word characters behind it, however many, is a name. -/
theorem isReferable_longer {name : String} (h : isReferable name = true) {more : List Char}
    (hmore : more.all Text.isWordChar = true) (times : Nat) :
    isReferable (longer name more times) = true := by
  induction times with
  | zero => rwa [longer_zero]
  | succ times ih =>
      simp only [isReferable, toList_longer_succ, List.all_append, hmore, Bool.and_true] at ih ⊢
      simp only [Bool.and_eq_true, Bool.not_eq_true', List.isEmpty_eq_false_iff] at ih ⊢
      exact ⟨by simp [ih.1], ih.2⟩

/-- Of a name that is there and becomes longer, there is a last one that is there. -/
theorem exists_last_there {name : String} {more : List Char} (hmore : more ≠ [])
    (hthere : vs.write .plain (bare name) ≠ (bare name).raw) :
    ∃ times, vs.write .plain (bare (longer name more times)) ≠ (bare (longer name more times)).raw ∧
      vs.write .plain (bare (longer name more (times + 1)))
        = (bare (longer name more (times + 1))).raw := by
  by_contra hnever
  have hall : ∀ times, vs.write .plain (bare (longer name more times))
      ≠ (bare (longer name more times)).raw := by
    intro times
    induction times with
    | zero => rwa [longer_zero]
    | succ times ih => exact fun heq => hnever ⟨times, ih, heq⟩
  obtain ⟨bound, hbound⟩ := vs.get?_eq_none_of_long
  have hlong : ∀ times, times ≤ (longer name more times).toList.length := by
    intro times
    induction times with
    | zero => exact Nat.zero_le _
    | succ times ih =>
        rw [toList_longer_succ, List.length_append]
        have := List.length_pos_of_ne_nil hmore
        omega
  refine hall (bound + 1) (write_of_none (hbound (longer name more (bound + 1)) ?_))
  rw [← String.length_toList]
  exact hlong (bound + 1)

section Separation

variable {used : String → Prop} {name value : String} (hused : used name)
  (hname : isBraceable name = true) (hget : vs.get? name = some value)

include hused hname

/-- A text with one braced reference in it. -/
theorem bracesOnly_braced {tail : List Char} (htail : '$' ∉ tail) :
    vs.BracesOnly used ((braced name).raw.toList ++ tail) := by
  intro r hr _
  rw [piecesAfter_found (by simp [raw_braced]) (Reference.bracedAt_braced hname tail),
    ← List.append_nil tail, bracedAt_scan.piecesAfter_lead htail] at hr
  simp only [piecesAfter, List.append_nil, List.mem_cons, List.mem_map, reduceCtorEq, and_false,
    exists_false, or_false, Piece.reference.injEq] at hr
  rw [hr]
  exact hused

/-- A bare reference in front adds no reference in braces. -/
theorem bracesOnly_bare_braced {front : String} (hfront : isReferable front = true)
    {tail : List Char} (htail : '$' ∉ tail) :
    vs.BracesOnly used ((bare front).raw.toList ++ ((braced name).raw.toList ++ tail)) := by
  intro r hr
  rw [bracedPieces_bare hfront, List.mem_append] at hr
  refine bracesOnly_braced hused hname htail r (hr.resolve_left ?_)
  simp

variable (hall : ∀ cs, vs.BracesOnly used cs →
  spell bareAt (vs.write .plain) (spell bracedAt (vs.write .plain) cs)
    = spell referenceAt (vs.write .plain) cs)

include hget hall

/-- If two passes are always one scan, the second leaves a value alone. -/
theorem kept_of_agreement {tail : List Char} (htail : tail.all Text.isWordChar = true) :
    spell bareAt (vs.write .plain) (value.toList ++ tail) = value.toList ++ tail := by
  have hdollar := no_dollar_of_word htail
  have hsame := hall _ (bracesOnly_braced hused hname hdollar)
  rwa [spell_bracedAt_braced hname, spell_referenceAt_braced hname,
    bracedAt_scan.spell_of_no_dollar hdollar, referenceAt_scan.spell_of_no_dollar hdollar,
    write_of_get? (r := braced name) hget] at hsame

/-- If two passes are always one scan, a value is not taken for the rest of a name: with it and
    the word characters behind it, a name would become another one. -/
theorem apart_of_agreement (tail : List Char) (htail : tail.all Text.isWordChar = true) :
    EndsName (value.toList ++ tail) := by
  by_contra hjoins
  have hdollar := no_dollar_of_word htail
  obtain ⟨more, behind, hsplit, hword, hends⟩ : ∃ more behind,
      value.toList ++ tail = more ++ behind ∧ more.all Text.isWordChar = true ∧
      EndsName behind :=
    ⟨_, _, List.takeWhile_append_dropWhile.symm, List.all_takeWhile, endsName_dropWhile _⟩
  have hmore : more ≠ [] := by
    rintro rfl
    exact hjoins (hsplit ▸ hends)
  have hthere : vs.write .plain (bare name) ≠ (bare name).raw := by
    intro hraw
    rw [write_of_get? (r := bare name) hget] at hraw
    rw [hraw, raw_bare] at hjoins
    exact hjoins endsName_dollar
  obtain ⟨times, hlast, hnext⟩ := exists_last_there hmore hthere
  have hreferable := Reference.isReferable_of_isBraceable hname
  have hfront := isReferable_longer hreferable hword times
  have hlonger := isReferable_longer hreferable hword (times + 1)
  -- the name in front of the value and the one that it becomes with it
  have hjoined : (bare (longer name more times)).raw.toList ++ (value.toList ++ tail)
      = (bare (longer name more (times + 1))).raw.toList ++ behind := by
    rw [hsplit, raw_bare, raw_bare, toList_longer_succ]
    simp
  have hbehind : spell bareAt (vs.write .plain) behind = behind := by
    have hkept := kept_of_agreement hused hname hget hall htail
    rwa [hsplit, bareAt_scan.spell_lead (no_dollar_of_word hword),
      List.append_cancel_left_eq] at hkept
  have htwice : spell bareAt (vs.write .plain) (spell bracedAt (vs.write .plain)
      ((bare (longer name more times)).raw.toList ++ ((braced name).raw.toList ++ tail)))
      = (bare (longer name more times)).raw.toList ++ (value.toList ++ tail) := by
    rw [spell_bracedAt_bare hfront, spell_bracedAt_braced hname,
      write_of_get? (r := braced name) hget, bracedAt_scan.spell_of_no_dollar hdollar, hjoined,
      spell_bareAt_bare hlonger hends, hnext, hbehind]
  have honce : spell referenceAt (vs.write .plain)
      ((bare (longer name more times)).raw.toList ++ ((braced name).raw.toList ++ tail))
      = (vs.write .plain (bare (longer name more times))).toList ++ (value.toList ++ tail) := by
    rw [spell_referenceAt_bare hfront (by rw [raw_braced]; exact endsName_dollar),
      spell_referenceAt_braced hname, write_of_get? (r := braced name) hget,
      referenceAt_scan.spell_of_no_dollar hdollar]
  have hsame := hall _ (bracesOnly_bare_braced hused hname hfront hdollar)
  rw [htwice, honce, List.append_cancel_right_eq, String.toList_inj] at hsame
  exact hlast hsame.symm

/-- **If two passes are always one scan, all values that are used are inert.** -/
theorem inert_of_agreement : vs.Inert value where
  apart := by
    constructor
    · rintro rfl
      have hword : Text.isWordChar 'x' = false :=
        apart_of_agreement hused hname hget hall ['x'] (by decide +kernel) 'x' rfl
      revert hword
      decide +kernel
    · simpa using apart_of_agreement hused hname hget hall [] rfl
  kept tail htail := by
    rw [← String.toList_inj, toList_expandWith_eq_spell, String.toList_append]
    exact kept_of_agreement hused hname hget hall htail

end Separation

/-- A value without a dollar sign is inert if it does not start like the rest of a name. -/
theorem inert_iff_of_no_dollar {value : String} (h : '$' ∉ value.toList) :
    vs.Inert value ↔ value ≠ "" ∧ EndsName value.toList := by
  refine ⟨Inert.apart, fun hapart => ⟨hapart, fun tail htail => ?_⟩⟩
  rw [bareAt_scan.expandWith_lead h, ← String.toList_inj, String.toList_append,
    toList_expandWith_eq_spell, bareAt_scan.spell_of_no_dollar (no_dollar_of_word htail),
    String.toList_append]

/-- What is written for a text that is nothing but a reference in braces. -/
theorem interpret_braced {name value : String} (hname : isBraceable name = true)
    (hget : vs.get? name = some value) :
    vs.interpret .plain (braced name).raw = expandWith bareAt (vs.write .plain) value := by
  have hfirst : spell bracedAt (vs.write .plain) ((braced name).raw.toList ++ []) = _ :=
    spell_bracedAt_braced hname []
  rw [List.append_nil, spell_nil, List.append_nil, write_of_get? (r := braced name) hget] at hfirst
  rw [← String.toList_inj, toList_interpret, hfirst, toList_expandWith_eq_spell]

/-- What is written for a text that is nothing but a reference without braces. -/
theorem interpret_unbraced {name value : String} (hname : isReferable name = true)
    (hget : vs.get? name = some value) : vs.interpret .plain (bare name).raw = value := by
  have hfirst : spell bracedAt (vs.write .plain) ((bare name).raw.toList ++ []) = _ :=
    spell_bracedAt_bare hname []
  have hsecond : spell bareAt (vs.write .plain) ((bare name).raw.toList ++ []) = _ :=
    spell_bareAt_bare hname nofun
  rw [List.append_nil, spell_nil, List.append_nil] at hfirst hsecond
  rw [← String.toList_inj, toList_interpret, hfirst, hsecond, write_of_get? (r := bare name) hget]

/-- **Two passes write what one scan writes exactly if all values in braces are inert.**  Whatever
    the variables are, and whichever names are used in braces: all texts that refer in braces to no
    other variables are expanded as one scan expands them if and only if the values of these
    names are inert.  A variable is written alike with and without braces if and only if the
    second pass leaves its value as it is.  A value without a dollar sign is inert if and only if
    it is there and does not start with a character that names may have. -/
theorem interpret_eq_scanOnce_iff (vs : Variables) (used : String → Prop) :
    ((∀ text : String, (∀ r, .reference r ∈ pieces bracedAt text →
        (vs.get? r.name).isSome = true → used r.name) →
        vs.interpret .plain text = vs.scanOnce text) ↔
      ∀ name value, used name → isBraceable name = true → vs.get? name = some value →
        vs.Inert value) ∧
    (∀ name value, isBraceable name = true → vs.get? name = some value →
      (vs.interpret .plain (braced name).raw = vs.interpret .plain (bare name).raw ↔
        expandWith bareAt (vs.write .plain) value = value)) ∧
    ∀ value : String, '$' ∉ value.toList →
      (vs.Inert value ↔ value ≠ "" ∧ EndsName value.toList) := by
  refine ⟨⟨fun hall name value hused hname hget => ?_, fun hinert text honly => ?_⟩,
    fun name value hname hget => ?_, fun value => inert_iff_of_no_dollar⟩
  · refine inert_of_agreement hused hname hget fun cs honly => ?_
    have hsame := hall (String.ofList cs) (by rwa [pieces, String.toList_ofList])
    rwa [← String.toList_inj, toList_interpret, toList_scanOnce, String.toList_ofList] at hsame
  · rw [← String.toList_inj, toList_interpret, toList_scanOnce]
    exact spell_twice hinert _ honly
  · rw [interpret_braced hname hget,
      interpret_unbraced (Reference.isReferable_of_isBraceable hname) hget]

/-- With `A=/srv/web` and `B=1` the text `$A${B}` is read as a reference to `A1`. -/
theorem adjacent_references_join :
    let vs : Variables := { plain := [("A", "/srv/web"), ("B", "1")] }
    let text := "$A$\x7bB\x7d"
    vs.interpret .plain text = "$A1" ∧ vs.scanOnce text = "/srv/web1" ∧ ¬ vs.Inert "1" ∧
      vs.interpret .plain (braced "A").raw = vs.interpret .plain (bare "A").raw := by
  intro vs text
  obtain ⟨-, halike, hinert⟩ := interpret_eq_scanOnce_iff vs fun _ => True
  have hone : ¬ vs.Inert "1" := by
    rw [hinert "1" (by decide)]
    exact fun h => absurd (h.2 '1' rfl) (by decide +kernel)
  have hweb := (halike "A" "/srv/web" (by decide) rfl).mpr (by decide +kernel)
  exact ⟨by decide +kernel, by decide +kernel, hone, hweb⟩

end Variables

end Playscript
