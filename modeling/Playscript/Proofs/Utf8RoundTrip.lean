import Playscript.Text.Utf8

/-! # Texts and their bytes

    A text that is written to a file as UTF-8 is read back as it was, but for the line ends: every
    character is decoded from the bytes that it is encoded in, wherever they stand
    (`decodeFrom_utf8EncodeChar`).  So a text without carriage returns is the text of its bytes
    (`ofBytes_toUTF8`). -/

namespace Playscript.Text

/-! ## Bytes -/

/-- The loop that lists bytes has the bytes before a place reversed and takes the rest in order. -/
theorem toList_loop (bytes : ByteArray) (place : Nat) (before : List UInt8) :
    ByteArray.toList.loop bytes place before
      = before.reverse ++ bytes.data.toList.drop place := by
  fun_induction ByteArray.toList.loop bytes place before with
  | case1 place before hplace ih =>
      have hlength : place < bytes.data.toList.length := by simpa using hplace
      have hbyte : bytes.get! place = bytes.data.toList[place] := by
        simpa [ByteArray.get!] using getElem!_pos bytes.data place hplace
      rw [ih, List.reverse_cons, List.append_assoc, List.drop_eq_getElem_cons hlength, hbyte]
      rfl
  | case2 place before hplace =>
      have hlength : bytes.data.toList.length ≤ place := by simpa using hplace
      rw [List.drop_eq_nil_of_le hlength, List.append_nil]

theorem toList_eq_data (bytes : ByteArray) : bytes.toList = bytes.data.toList := by
  rw [ByteArray.toList, toList_loop]
  rfl

/-- The bytes of a text are those of its characters. -/
theorem toList_toUTF8 (text : String) :
    text.toUTF8.toList = text.toList.flatMap String.utf8EncodeChar := by
  rw [toList_eq_data, String.toUTF8_eq_toByteArray, ← String.utf8Encode_toList, List.utf8Encode,
    List.toList_data_toByteArray]

/-! ## Characters -/

section Characters

variable {place : Nat} {rest : List UInt8}

/-- Decoding, by the number of bytes that a character takes.  One byte below `0x80` is the character
    itself. -/
theorem decodeFrom_one {a : UInt8} (ha : a.toNat < 0x80) :
    decodeFrom place (a :: rest)
      = (decodeFrom (place + 1) rest).map (Char.ofNat a.toNat :: ·) := by
  rw [decodeFrom, if_pos ha]
  cases decodeFrom (place + 1) rest with
  | _ => rfl

/-- A byte with others behind it is none of those that stand alone. -/
theorem le_of_followers? {a count low high : Nat} (h : followers? a = some (count, low, high)) :
    ¬ a < 0x80 := by
  grind [followers?]

/-- Of two bytes the first has five bits of the character and the second six. -/
theorem decodeFrom_two {a b : UInt8} {low high : Nat}
    (ha : followers? a.toNat = some (1, low, high)) (hb : low ≤ b.toNat ∧ b.toNat ≤ high) :
    decodeFrom place (a :: b :: rest)
      = (decodeFrom (place + 2) rest).map (Char.ofNat (a.toNat % 32 * 64 + lowBits b) :: ·) := by
  rw [decodeFrom, if_neg (le_of_followers? ha), ha]
  simp only [if_neg (show ¬ (b.toNat < low ∨ high < b.toNat) by omega), if_true]
  cases decodeFrom (place + 2) rest with
  | _ => rfl

/-- Of three bytes the second has to lie in the range that the first one sets, and the third one
    just continues. -/
theorem decodeFrom_three {a b c : UInt8} {low high : Nat}
    (ha : followers? a.toNat = some (2, low, high)) (hb : low ≤ b.toNat ∧ b.toNat ≤ high)
    (hc : continues c = true) :
    decodeFrom place (a :: b :: c :: rest) = (decodeFrom (place + 3) rest).map
      (Char.ofNat ((a.toNat % 16 * 64 + lowBits b) * 64 + lowBits c) :: ·) := by
  rw [decodeFrom, if_neg (le_of_followers? ha), ha]
  simp only [if_neg (show ¬ (b.toNat < low ∨ high < b.toNat) by omega), hc]
  cases decodeFrom (place + 3) rest with
  | _ => rfl

/-- Four bytes are like three, with one more that continues. -/
theorem decodeFrom_four {a b c d : UInt8} {low high : Nat}
    (ha : followers? a.toNat = some (3, low, high)) (hb : low ≤ b.toNat ∧ b.toNat ≤ high)
    (hc : continues c = true) (hd : continues d = true) :
    decodeFrom place (a :: b :: c :: d :: rest) = (decodeFrom (place + 4) rest).map
      (Char.ofNat (((a.toNat % 8 * 64 + lowBits b) * 64 + lowBits c) * 64 + lowBits d) :: ·) := by
  rw [decodeFrom, if_neg (le_of_followers? ha), ha]
  simp only [if_neg (show ¬ (b.toNat < low ∨ high < b.toNat) by omega), hc, hd]
  cases decodeFrom (place + 4) rest with
  | _ => rfl

end Characters

/-! ## Encoding -/

theorem toNat_ofNat_of_lt {n : Nat} (h : n < 256) : (UInt8.ofNat n).toNat = n := by
  rw [UInt8.toNat_ofNat', Nat.mod_eq_of_lt h]

/-- Six bits with the mark of a continuation are a continuation. -/
theorem continues_ofNat {n : Nat} (h : n < 64) : continues (UInt8.ofNat (n + 128)) = true := by
  rw [continues, toNat_ofNat_of_lt (by omega)]
  simp
  omega

/-- And the six bits are what it holds. -/
theorem lowBits_ofNat {n : Nat} (h : n < 64) : lowBits (UInt8.ofNat (n + 128)) = n := by
  rw [lowBits, toNat_ofNat_of_lt (by omega)]
  omega

/-- The second of three bytes lies where the first one says. -/
theorem followers?_three {v : Nat} (hlow : 0x800 ≤ v) (hhigh : v ≤ 0xffff)
    (hvalid : v < 0xd800 ∨ 0xdfff < v) : ∃ low high,
      followers? (v / 4096 + 224) = some (2, low, high) ∧
        low ≤ v / 64 % 64 + 128 ∧ v / 64 % 64 + 128 ≤ high := by
  by_cases hfirst : v / 4096 = 0
  · exact ⟨0xa0, 0xbf, by rw [hfirst]; rfl, by omega, by omega⟩
  · by_cases hlast : v / 4096 = 13
    · exact ⟨0x80, 0x9f, by rw [hlast]; rfl, by omega, by omega⟩
    · refine ⟨0x80, 0xbf, ?_, by omega, by omega⟩
      rw [followers?, if_neg (by omega), if_neg (by omega), if_neg (by omega), if_pos (by omega)]

/-- The second of four bytes lies where the first one says. -/
theorem followers?_four {v : Nat} (hlow : 0x10000 ≤ v) (hhigh : v < 0x110000) : ∃ low high,
    followers? (v / 262144 + 240) = some (3, low, high) ∧
      low ≤ v / 4096 % 64 + 128 ∧ v / 4096 % 64 + 128 ≤ high := by
  by_cases hfirst : v / 262144 = 0
  · exact ⟨0x90, 0xbf, by rw [hfirst]; rfl, by omega, by omega⟩
  · by_cases hlast : v / 262144 = 4
    · exact ⟨0x80, 0x8f, by rw [hlast]; rfl, by omega, by omega⟩
    · refine ⟨0x80, 0xbf, ?_, by omega, by omega⟩
      rw [followers?, if_neg (by omega), if_neg (by omega), if_neg (by omega), if_neg (by omega),
        if_neg (by omega), if_pos (by omega)]

section Numbers

variable {place v : Nat} {rest : List UInt8}

theorem decodeFrom_number_one (hhigh : v ≤ 0x7f) :
    decodeFrom place (UInt8.ofNat v :: rest)
      = (decodeFrom (place + 1) rest).map (Char.ofNat v :: ·) := by
  have ha : (UInt8.ofNat v).toNat = v := toNat_ofNat_of_lt (by omega)
  rw [decodeFrom_one (by omega), ha]

/-- The bits of a number are spread over the bytes and put together again; for each number of bytes
    this is arithmetic on its quotients and remainders by `64`. -/
theorem decodeFrom_number_two (hlow : 0x80 ≤ v) (hhigh : v ≤ 0x7ff) :
    decodeFrom place
        (UInt8.ofNat (v / 64 % 32 + 192) :: UInt8.ofNat (v % 64 + 128) :: rest)
      = (decodeFrom (place + 2) rest).map (Char.ofNat v :: ·) := by
  have ha : (UInt8.ofNat (v / 64 % 32 + 192)).toNat = v / 64 + 192 := by
    rw [toNat_ofNat_of_lt (by omega)]
    omega
  have hb : (UInt8.ofNat (v % 64 + 128)).toNat = v % 64 + 128 := toNat_ofNat_of_lt (by omega)
  have hfollow : followers? (UInt8.ofNat (v / 64 % 32 + 192)).toNat = some (1, 0x80, 0xbf) := by
    rw [ha, followers?, if_pos (by omega)]
  have hnumber : (v / 64 + 192) % 32 * 64 + v % 64 = v := by omega
  rw [decodeFrom_two hfollow (by omega), ha, lowBits_ofNat (by omega), hnumber]

/-- Surrogates would take three bytes too, but are no characters and are refused. -/
theorem decodeFrom_number_three (hlow : 0x800 ≤ v) (hhigh : v ≤ 0xffff)
    (hvalid : v < 0xd800 ∨ 0xdfff < v) :
    decodeFrom place (UInt8.ofNat (v / 4096 % 16 + 224) :: UInt8.ofNat (v / 64 % 64 + 128)
        :: UInt8.ofNat (v % 64 + 128) :: rest)
      = (decodeFrom (place + 3) rest).map (Char.ofNat v :: ·) := by
  have ha : (UInt8.ofNat (v / 4096 % 16 + 224)).toNat = v / 4096 + 224 := by
    rw [toNat_ofNat_of_lt (by omega)]
    omega
  have hb : (UInt8.ofNat (v / 64 % 64 + 128)).toNat = v / 64 % 64 + 128 :=
    toNat_ofNat_of_lt (by omega)
  obtain ⟨low, high, hfollow, hsecond⟩ := followers?_three hlow hhigh hvalid
  rw [← ha] at hfollow
  rw [← hb] at hsecond
  have hnumber : ((v / 4096 + 224) % 16 * 64 + v / 64 % 64) * 64 + v % 64 = v := by omega
  rw [decodeFrom_three hfollow hsecond (continues_ofNat (by omega)), ha, lowBits_ofNat (by omega),
    lowBits_ofNat (by omega), hnumber]

/-- Four bytes reach up to the last character there is. -/
theorem decodeFrom_number_four (hlow : 0x10000 ≤ v) (hhigh : v < 0x110000) :
    decodeFrom place (UInt8.ofNat (v / 262144 % 8 + 240) :: UInt8.ofNat (v / 4096 % 64 + 128)
        :: UInt8.ofNat (v / 64 % 64 + 128) :: UInt8.ofNat (v % 64 + 128) :: rest)
      = (decodeFrom (place + 4) rest).map (Char.ofNat v :: ·) := by
  have ha : (UInt8.ofNat (v / 262144 % 8 + 240)).toNat = v / 262144 + 240 := by
    rw [toNat_ofNat_of_lt (by omega)]
    omega
  have hb : (UInt8.ofNat (v / 4096 % 64 + 128)).toNat = v / 4096 % 64 + 128 :=
    toNat_ofNat_of_lt (by omega)
  obtain ⟨low, high, hfollow, hsecond⟩ := followers?_four hlow hhigh
  rw [← ha] at hfollow
  rw [← hb] at hsecond
  have hnumber : (((v / 262144 + 240) % 8 * 64 + v / 4096 % 64) * 64 + v / 64 % 64) * 64 + v % 64
      = v := by omega
  rw [decodeFrom_four hfollow hsecond (continues_ofNat (by omega)) (continues_ofNat (by omega)),
    ha, lowBits_ofNat (by omega), lowBits_ofNat (by omega), lowBits_ofNat (by omega), hnumber]

end Numbers

/-- **A character is decoded from the bytes that it is encoded in.** -/
theorem decodeFrom_utf8EncodeChar (c : Char) (place : Nat) (rest : List UInt8) :
    decodeFrom place (String.utf8EncodeChar c ++ rest)
      = (decodeFrom (place + (String.utf8EncodeChar c).length) rest).map (c :: ·) := by
  have hchar : Char.ofNat c.val.toNat = c := Char.ofNat_toNat c
  have hvalid : c.val.toNat < 0xd800 ∨ 0xdfff < c.val.toNat ∧ c.val.toNat < 0x110000 := c.valid
  unfold String.utf8EncodeChar
  generalize c.val.toNat = v at hchar hvalid
  subst hchar
  simp only
  -- a character takes one byte to four, by its number
  by_cases hone : v ≤ 0x7f
  · rw [if_pos hone]
    exact decodeFrom_number_one hone
  rw [if_neg hone]
  by_cases htwo : v ≤ 0x7ff
  · rw [if_pos htwo]
    exact decodeFrom_number_two (by omega) htwo
  rw [if_neg htwo]
  by_cases hthree : v ≤ 0xffff
  · rw [if_pos hthree]
    exact decodeFrom_number_three (by omega) hthree (by omega)
  · rw [if_neg hthree]
    exact decodeFrom_number_four (by omega) (by omega)

/-! ## Texts -/

/-- By induction on the characters, from whatever place in the file. -/
theorem decodeFrom_flatMap (cs : List Char) :
    ∀ place, decodeFrom place (cs.flatMap String.utf8EncodeChar) = .ok cs := by
  induction cs with
  | nil => intro place; rfl
  | cons c rest ih =>
      intro place
      rw [List.flatMap_cons, decodeFrom_utf8EncodeChar, ih]
      rfl

/-- So the bytes of a text are decoded to its characters. -/
theorem decode_toUTF8 (text : String) : decode text.toUTF8.toList = .ok text.toList := by
  rw [decode, toList_toUTF8, decodeFrom_flatMap]

/-- Where there are no carriage returns, line ends are as they should be. -/
theorem unifyNewlines_of_no_return {cs : List Char} (h : '\r' ∉ cs) : unifyNewlines cs = cs := by
  induction cs with
  | nil => rfl
  | cons c rest ih =>
      rw [List.mem_cons, not_or] at h
      rw [unifyNewlines, ih h.2]
      · rintro more rfl
        exact absurd rfl h.1
      · rintro rfl
        exact absurd rfl h.1

/-- **A text without carriage returns is the text of its bytes.** -/
theorem ofBytes_toUTF8 {text : String} (h : '\r' ∉ text.toList) :
    ofBytes text.toUTF8 = .ok text := by
  rw [ofBytes, decode_toUTF8]
  simp only [unifyNewlines_of_no_return h, String.ofList_toList]

end Playscript.Text
