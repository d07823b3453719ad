import Playscript.Text.Lines
import Playscript.Text.Quoted

/-! # UTF-8

    Bytes that should be a text are read as UTF-8.  A fault names the bytes that
    cannot be read and why: a byte that starts no character, a byte that does not
    continue one, or the end of the data inside a character. -/

namespace Playscript.Text

/-- Why some bytes are no text. -/
inductive Utf8Reason where
  | start
  | continuation
  | truncated
deriving DecidableEq, Repr, Inhabited

/-- A fault: the first byte it concerns, the bytes in all, and why. -/
structure Utf8Fault where
  place : Nat
  length : Nat
  first : UInt8
  reason : Utf8Reason
deriving DecidableEq, Repr, Inhabited

namespace Utf8Fault

/-- The words for a reason. -/
def reasonText : Utf8Reason → String
  | .start => "invalid start byte"
  | .continuation => "invalid continuation byte"
  | .truncated => "unexpected end of data"

/-- The wording of a fault. -/
def message (f : Utf8Fault) : String :=
  let what :=
    if f.length = 1 then
      "byte 0x" ++ String.ofList (hexDigits 2 f.first.toNat) ++ " in position " ++ toString f.place
    else "bytes in position " ++ toString f.place ++ "-" ++ toString (f.place + f.length - 1)
  "'utf-8' codec can't decode " ++ what ++ ": " ++ reasonText f.reason

end Utf8Fault

/-- How many bytes follow a first byte, and between what the second one lies. -/
def followers? (a : Nat) : Option (Nat × Nat × Nat) :=
  if 0xc2 ≤ a ∧ a ≤ 0xdf then some (1, 0x80, 0xbf)
  else if a = 0xe0 then some (2, 0xa0, 0xbf)
  else if a = 0xed then some (2, 0x80, 0x9f)
  else if 0xe1 ≤ a ∧ a ≤ 0xef then some (2, 0x80, 0xbf)
  else if a = 0xf0 then some (3, 0x90, 0xbf)
  else if 0xf1 ≤ a ∧ a ≤ 0xf3 then some (3, 0x80, 0xbf)
  else if a = 0xf4 then some (3, 0x80, 0x8f)
  else none

/-- Whether a byte continues a character. -/
def continues (b : UInt8) : Bool :=
  0x80 ≤ b.toNat && b.toNat ≤ 0xbf

/-- The bits of a byte that continues a character. -/
def lowBits (b : UInt8) : Nat :=
  b.toNat % 64

/-- The text of some bytes that stand at a place. -/
def decodeFrom (place : Nat) : List UInt8 → Except Utf8Fault (List Char)
  | [] => .ok []
  | a :: rest =>
    if a.toNat < 0x80 then
      match decodeFrom (place + 1) rest with
      | .ok cs => .ok (Char.ofNat a.toNat :: cs)
      | .error f => .error f
    else
      match followers? a.toNat with
      | none => .error ⟨place, 1, a, .start⟩
      | some (count, low, high) =>
        match rest with
        | [] => .error ⟨place, 1, a, .truncated⟩
        | b :: rest =>
          if b.toNat < low ∨ high < b.toNat then .error ⟨place, 1, a, .continuation⟩
          else if count = 1 then
            match decodeFrom (place + 2) rest with
            | .ok cs => .ok (Char.ofNat (a.toNat % 32 * 64 + lowBits b) :: cs)
            | .error f => .error f
          else
            match rest with
            | [] => .error ⟨place, 2, a, .truncated⟩
            | c :: rest =>
              if !continues c then .error ⟨place, 2, a, .continuation⟩
              else if count = 2 then
                match decodeFrom (place + 3) rest with
                | .ok cs =>
                  .ok (Char.ofNat ((a.toNat % 16 * 64 + lowBits b) * 64 + lowBits c) :: cs)
                | .error f => .error f
              else
                match rest with
                | [] => .error ⟨place, 3, a, .truncated⟩
                | d :: rest =>
                  if !continues d then .error ⟨place, 3, a, .continuation⟩
                  else
                    match decodeFrom (place + 4) rest with
                    | .ok cs =>
                      .ok (Char.ofNat
                        (((a.toNat % 8 * 64 + lowBits b) * 64 + lowBits c) * 64 + lowBits d) :: cs)
                    | .error f => .error f

/-- The text of some bytes. -/
def decode (bytes : List UInt8) : Except Utf8Fault (List Char) :=
  decodeFrom 0 bytes

/-- The text of a file: UTF-8 with every line end as `\n`. -/
def ofBytes (bytes : ByteArray) : Except Utf8Fault String :=
  match decode bytes.toList with
  | .ok cs => .ok (String.ofList (unifyNewlines cs))
  | .error f => .error f

end Playscript.Text
