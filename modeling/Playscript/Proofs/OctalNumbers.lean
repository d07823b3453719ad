import Mathlib.Data.List.TakeWhile
import Mathlib.Data.Nat.Digits.Defs
import Playscript.Text.Octal

/-! # Octal numbers that are written and read

    A number that fits is written in exactly as many octal digits as asked for, which have its
    value (`octalText_isOctal`).  Reading takes such digits as the number that they write, and with
    a minus in front as its negative (`octal?_of_isOctal`).  It takes nothing but octal digits, what
    pads a number, signs, underscores and the `o` behind a zero (`chars_of_octal?`). -/

namespace Playscript.Text

/-- Characters that are octal digits. -/
def AreOctal (cs : List Char) : Prop :=
  ∀ c ∈ cs, ∃ d < 8, c = Nat.digitChar d

/-- A text that is made of as many octal digits as its width says, and has the value `n`. -/
structure IsOctal (width : Nat) (text : String) (n : Nat) : Prop where
  length : text.toList.length = width
  digits : AreOctal text.toList
  value : Nat.ofDigitChars 8 text.toList 0 = n

/-! ## Writing -/

/-- The digits of a number in base eight are octal. -/
theorem areOctal_toDigits (n : Nat) : AreOctal (Nat.toDigits 8 n) := by
  induction n using Nat.strong_induction_on with
  | _ n ih =>
      intro c hc
      rw [Nat.toDigits_eq_if (by decide)] at hc
      split at hc
      · next hsmall => exact ⟨n, hsmall, List.mem_singleton.mp hc⟩
      · next hlarge =>
          rcases List.mem_append.mp hc with hc | hc
          · exact ih (n / 8) (by omega) c hc
          · exact ⟨n % 8, Nat.mod_lt n (by decide), List.mem_singleton.mp hc⟩

/-- A number that fits is written in exactly as many digits as asked for. -/
theorem octalText_isOctal {width n : Nat} (hwidth : 0 < width) (h : n < 8 ^ width) :
    IsOctal width (octalText width n) n := by
  have hlength : (Nat.toDigits 8 n).length ≤ width :=
    (Nat.length_toDigits_le_iff (by decide) hwidth).mpr h
  refine ⟨?_, ?_, ?_⟩
  · simp only [octalText, String.toList_ofList, List.length_append, List.length_replicate]
    omega
  · intro c hc
    simp only [octalText, String.toList_ofList, List.mem_append] at hc
    rcases hc with hc | hc
    · exact ⟨0, by decide, List.eq_of_mem_replicate hc⟩
    · exact areOctal_toDigits n c hc
  · simp only [octalText, String.toList_ofList, Nat.ofDigitChars_append,
      Nat.ofDigitChars_replicate_zero, Nat.mul_zero]
    exact Nat.ofDigitChars_toDigits (by decide) (by decide)

/-! ## Digits -/

section Digits

variable {d : Nat} {c : Char}

/-- The characters for the ten digits have the digits as their values. -/
theorem digitValue?_digitChar (h : d < 10) : digitValue? (Nat.digitChar d) = some d :=
  (by decide : ∀ d < 10, digitValue? (Nat.digitChar d) = some d) d h

/-- No digit is among the other characters that a number can have. -/
theorem digitChar_not_mem (h : d < 10) : Nat.digitChar d ∉ ['_', 'o', 'O', '-', '+'] ∧
    padsNumber (Nat.digitChar d) = false :=
  (by decide +kernel : ∀ d < 10, Nat.digitChar d ∉ ['_', 'o', 'O', '-', '+'] ∧
    padsNumber (Nat.digitChar d) = false) d h

/-- An octal digit is a digit of any script whose value is below eight. -/
theorem octalDigit?_eq_some_iff : octalDigit? c = some d ↔ digitValue? c = some d ∧ d < 8 := by
  rw [octalDigit?, Option.filter_eq_some_iff, decide_eq_true_eq]

/-- The value of a digit of any script is below ten. -/
theorem digitValue?_lt (h : digitValue? c = some d) : d < 10 := by
  rw [digitValue?] at h
  split at h
  · next hdigit =>
      cases h
      simp only [Char.isDigit, Bool.and_eq_true, decide_eq_true_eq] at hdigit
      have hnine : c.toNat ≤ 57 := UInt32.le_iff_toNat_le.mp hdigit.2
      omega
  · split at h
    · cases h
    · obtain ⟨z, hz, rfl⟩ := Option.map_eq_some_iff.mp h
      have hrow := List.find?_some hz
      simp only [Bool.and_eq_true, decide_eq_true_eq] at hrow
      omega

/-- A digit of any script is read like the plain one of its value. -/
theorem plainDigit_of_some (h : digitValue? c = some d) : plainDigit c = Nat.digitChar d := by
  rw [plainDigit, h]

theorem plainDigit_of_none (h : digitValue? c = none) : plainDigit c = c := by
  rw [plainDigit, h]

end Digits

/-! ## Reading what has been written -/

namespace AreOctal

variable {cs : List Char} (h : AreOctal cs)

include h

/-- None of the other characters that a number can have is an octal digit. -/
theorem not_mem {mark : Char} (hmark : mark ∈ ['_', 'o', 'O', '-', '+']) : mark ∉ cs := by
  intro hmem
  obtain ⟨d, hd, rfl⟩ := h mark hmem
  exact (digitChar_not_mem (by omega)).1 hmark

/-- Nor is anything that pads a number. -/
theorem not_padded : ∀ c ∈ cs, padsNumber c = false := by
  intro c hc
  obtain ⟨d, hd, rfl⟩ := h c hc
  exact (digitChar_not_mem (by omega)).2

/-- Octal digits are plain already. -/
theorem map_plainDigit : cs.map plainDigit = cs := by
  refine (List.map_congr_left fun c hc => ?_).trans cs.map_id
  obtain ⟨d, hd, rfl⟩ := h c hc
  exact plainDigit_of_some (digitValue?_digitChar (by omega))

end AreOctal

/-- A character that is no underscore is read as a digit, and those behind it after it. -/
theorem octalDigits?_cons {c : Char} (hc : c ≠ '_') (acc : Nat) (rest : List Char) :
    octalDigits? acc (c :: rest)
      = (octalDigit? c).bind fun d => octalDigits? (acc * 8 + d) rest := by
  rw [octalDigits?]
  · cases octalDigit? c <;> rfl
  · exact fun d more heq => absurd heq hc

/-- Octal digits are read as the number that they write behind those before them. -/
theorem octalDigits?_digits {cs : List Char} (h : AreOctal cs) (acc : Nat) :
    octalDigits? acc cs = some (Nat.ofDigitChars 8 cs acc) := by
  induction cs generalizing acc with
  | nil => rfl
  | cons c rest ih =>
      have hmark : '_' ∉ c :: rest := h.not_mem (by decide)
      obtain ⟨⟨d, hd, rfl⟩, hrest⟩ := List.forall_mem_cons.mp h
      have hvalue : (Nat.digitChar d).toNat - '0'.toNat = d :=
        Nat.toNat_digitChar_sub_48_of_lt_ten (by omega)
      have hdigit : octalDigit? (Nat.digitChar d) = some d :=
        octalDigit?_eq_some_iff.mpr ⟨digitValue?_digitChar (by omega), hd⟩
      rw [octalDigits?_cons (fun heq => hmark (heq ▸ List.mem_cons_self)), hdigit, Option.bind_some,
        ih hrest, Nat.ofDigitChars_cons, hvalue, Nat.mul_comm]

/-- Octal digits alone are a number: no `o` stands behind the first one. -/
theorem octalNat?_digits {cs : List Char} (hne : cs ≠ []) (h : AreOctal cs) :
    octalNat? cs = some (Nat.ofDigitChars 8 cs 0) := by
  have hsmall : 'o' ∉ cs := h.not_mem (by decide)
  have hlarge : 'O' ∉ cs := h.not_mem (by decide)
  have hmark : '_' ∉ cs := h.not_mem (by decide)
  rw [← octalDigits?_digits h 0]
  unfold octalNat?
  split
  · exact absurd rfl hne
  · exact absurd (by simp) hsmall
  · exact absurd (by simp) hsmall
  · exact absurd (by simp) hlarge
  · exact absurd (by simp) hlarge
  · next c rest _ _ _ _ =>
      rw [octalDigits?_cons (fun heq => hmark (heq ▸ List.mem_cons_self))]
      simp only [Nat.zero_mul, Nat.zero_add]

/-- Without padding there is nothing to take away. -/
theorem unpadded_eq_self {cs : List Char} (h : ∀ c ∈ cs, padsNumber c = false) :
    unpadded cs = cs := by
  have hdrop : ∀ l : List Char, (∀ c ∈ l, padsNumber c = false) → l.dropWhile padsNumber = l := by
    intro l hl
    cases l with
    | nil => rfl
    | cons c rest => rw [List.dropWhile_cons, hl c List.mem_cons_self]; rfl
  rw [unpadded, hdrop cs h, hdrop _ (fun c hc => h c (List.mem_reverse.mp hc)),
    List.reverse_reverse]

/-- **Octal digits are read as the number that they write**, and with a minus in front as the
    negative of that. -/
theorem octal?_of_isOctal {digits : String} {width n : Nat} (hne : digits ≠ "")
    (h : IsOctal width digits n) :
    octal? digits = some (n : Int) ∧ octal? ("-" ++ digits) = some (-(n : Int)) := by
  have hchars : digits.toList ≠ [] := fun hnil => hne (String.toList_eq_nil_iff.mp hnil)
  have hvalue := octalNat?_digits hchars h.digits
  rw [h.value] at hvalue
  constructor
  · rw [octal?, h.digits.map_plainDigit, unpadded_eq_self h.digits.not_padded]
    have hminus : '-' ∉ digits.toList := h.digits.not_mem (by decide)
    have hplus : '+' ∉ digits.toList := h.digits.not_mem (by decide)
    split
    · next hlist => exact absurd (by simp [hlist]) hminus
    · next hlist => exact absurd (by simp [hlist]) hplus
    · rw [hvalue]
      rfl
  · have hsign : plainDigit '-' = '-' ∧ padsNumber '-' = false := by decide +kernel
    have hlist : ("-" ++ digits).toList = '-' :: digits.toList := String.toList_append
    rw [octal?, hlist, List.map_cons, h.digits.map_plainDigit, hsign.1,
      unpadded_eq_self (List.forall_mem_cons.mpr ⟨hsign.2, h.digits.not_padded⟩)]
    split
    · next rest hrest =>
        obtain rfl : digits.toList = rest := (List.cons.inj hrest).2
        rw [hvalue]
        rfl
    · next hrest => exact absurd (List.cons.inj hrest).1 (by decide)
    · next hnot _ => exact absurd rfl (hnot digits.toList)

/-! ## What is read at all -/

theorem mem_dropWhile_of_not {p : Char → Bool} {cs : List Char} {c : Char} (hc : c ∈ cs)
    (hp : p c = false) : c ∈ cs.dropWhile p := by
  have hsplit : cs.takeWhile p ++ cs.dropWhile p = cs := List.takeWhile_append_dropWhile
  rw [← hsplit] at hc
  refine (List.mem_append.mp hc).resolve_left fun htaken => ?_
  rw [List.mem_takeWhile_imp htaken] at hp
  cases hp

/-- Only what pads a number is taken away. -/
theorem mem_unpadded {cs : List Char} {c : Char} (hc : c ∈ cs) (hp : padsNumber c = false) :
    c ∈ unpadded cs :=
  List.mem_reverse.mpr
    (mem_dropWhile_of_not (List.mem_reverse.mpr (mem_dropWhile_of_not hc hp)) hp)

/-- Whether a character can stand in a number without a sign. -/
def inOctal (c : Char) : Bool :=
  ['_', 'o', 'O'].contains c || (octalDigit? c).isSome

theorem inOctal_of_digit {c : Char} {d : Nat} (h : octalDigit? c = some d) : inOctal c = true := by
  rw [inOctal, h, Option.isSome_some, Bool.or_true]

/-- By the recursion of the reading: an underscore has a digit behind it, and all else is a
    digit. -/
theorem inOctal_of_octalDigits? {cs : List Char} {acc n : Nat} (h : octalDigits? acc cs = some n) :
    ∀ c ∈ cs, inOctal c = true := by
  fun_induction octalDigits? acc cs with
  | case1 acc => simp
  | case2 acc c rest d hd ih =>
      rw [List.forall_mem_cons, List.forall_mem_cons]
      exact ⟨rfl, inOctal_of_digit hd, ih h⟩
  | case3 => cases h
  | case4 acc c rest hnot d hd ih =>
      rw [List.forall_mem_cons]
      exact ⟨inOctal_of_digit hd, ih h⟩
  | case5 => cases h

/-- Numbers without a sign are made of digits, underscores and letters `o`. -/
theorem inOctal_of_octalNat? {cs : List Char} {n : Nat} (h : octalNat? cs = some n) :
    ∀ c ∈ cs, inOctal c = true := by
  have hmarks : ∀ x ∈ ['0', 'o', 'O', '_'], inOctal x = true :=
    List.all_eq_true.mp (by decide +kernel)
  -- whatever of `0o_` stands in front, a digit and then digits come behind it
  have hbehind : ∀ (front : List Char) {c : Char} {rest : List Char},
      front ⊆ ['0', 'o', 'O', '_'] → (octalDigit? c).bind (octalDigits? · rest) = some n →
      ∀ x ∈ front ++ c :: rest, inOctal x = true := by
    intro front c rest hfront hbind x hx
    obtain ⟨d, hd, hrest⟩ := Option.bind_eq_some_iff.mp hbind
    rcases List.mem_append.mp hx with hx | hx
    · exact hmarks x (hfront hx)
    · rcases List.mem_cons.mp hx with rfl | hx
      · exact inOctal_of_digit hd
      · exact inOctal_of_octalDigits? hrest x hx
  unfold octalNat? at h
  split at h
  · cases h
  · exact hbehind ['0', 'o', '_'] (by simp) h
  · exact hbehind ['0', 'o'] (by simp) h
  · exact hbehind ['0', 'O', '_'] (by simp) h
  · exact hbehind ['0', 'O'] (by simp) h
  · exact hbehind [] (List.nil_subset _) h

/-- Behind its padding, what is read is a number without a sign, or has a sign in front of one. -/
theorem octalNat?_of_octal? {mask : String} {m : Int} (h : octal? mask = some m) :
    ∃ sign number n, unpadded (mask.toList.map plainDigit) = sign ++ number ∧
      sign ⊆ ['+', '-'] ∧ octalNat? number = some n := by
  unfold octal? at h
  split at h
  · next number hlist =>
      cases hn : octalNat? number with
      | none => rw [hn] at h; cases h
      | some n => exact ⟨['-'], number, n, hlist, by simp, hn⟩
  · next number hlist =>
      cases hn : octalNat? number with
      | none => rw [hn] at h; cases h
      | some n => exact ⟨['+'], number, n, hlist, by simp, hn⟩
  · cases hn : octalNat? (unpadded (mask.toList.map plainDigit)) with
    | none => rw [hn] at h; cases h
    | some n => exact ⟨[], _, n, rfl, List.nil_subset _, hn⟩

/-- So it is made of signs and of what numbers without one are made of. -/
theorem inOctal_of_octal? {mask : String} {m : Int} (h : octal? mask = some m) :
    ∀ c ∈ unpadded (mask.toList.map plainDigit), c ∈ ['+', '-'] ∨ inOctal c = true := by
  obtain ⟨sign, number, n, hlist, hsign, hnumber⟩ := octalNat?_of_octal? h
  intro c hc
  rw [hlist] at hc
  rcases List.mem_append.mp hc with hc | hc
  · exact .inl (hsign hc)
  · exact .inr (inOctal_of_octalNat? hnumber c hc)

/-- **Nothing else is read**: a text that is read as a number is made of what pads numbers, signs,
    underscores, letters `o`, and digits below eight. -/
theorem chars_of_octal? {mask : String} {m : Int} (h : octal? mask = some m) :
    ∀ c ∈ mask.toList, padsNumber c = true ∨ c ∈ ['+', '-', '_', 'o', 'O'] ∨
      ∃ d < 8, digitValue? c = some d := by
  intro c hc
  have hplain : padsNumber (plainDigit c) = false →
      plainDigit c ∈ ['+', '-'] ∨ inOctal (plainDigit c) = true := fun hpads =>
    inOctal_of_octal? h _ (mem_unpadded (List.mem_map_of_mem hc) hpads)
  cases hvalue : digitValue? c with
  | none =>
      rw [plainDigit_of_none hvalue] at hplain
      cases hpads : padsNumber c with
      | true => exact .inl rfl
      | false =>
          refine .inr (.inl ?_)
          have hdigit : octalDigit? c = none := by rw [octalDigit?, hvalue]; rfl
          simpa [inOctal, hdigit, or_assoc] using hplain hpads
  | some d =>
      have hd : d < 10 := digitValue?_lt hvalue
      obtain ⟨hmarks, hpads⟩ := digitChar_not_mem hd
      rw [plainDigit_of_some hvalue] at hplain
      simp only [List.mem_cons, List.not_mem_nil, or_false, not_or] at hmarks
      have hsome : (octalDigit? (Nat.digitChar d)).isSome = true := by
        simpa [inOctal, hmarks] using hplain hpads
      obtain ⟨e, he⟩ := Option.isSome_iff_exists.mp hsome
      obtain ⟨hsame, hsmall⟩ := octalDigit?_eq_some_iff.mp he
      obtain rfl : d = e := Option.some.inj ((digitValue?_digitChar hd).symm.trans hsame)
      exact .inr (.inr ⟨d, hsmall, rfl⟩)

end Playscript.Text
