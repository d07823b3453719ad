import Playscript.Text.Octal
import Playscript.Value.Basic

/-! # File modes

    A new directory has mode `0777` and a new file `0666`, without the bits of the
    mask in effect.  A mask that is no octal number gives no mode. -/

namespace Playscript

/-- The bits of a mode that a mask of any size and sign leaves. -/
def unmasked (full : Nat) (mask : Int) : Nat :=
  full &&& ((-mask - 1) % 512).toNat

/-- The full mode of a directory or a file. -/
def fullMode (directory : Bool) : Nat :=
  if directory then 0o777 else 0o666

/-- The mode of a new directory or file under a mask: four octal digits. -/
def modeUnder (mask : String) (directory : Bool) : Option String :=
  (Text.octal? mask).map fun m => Text.octalText 4 (unmasked (fullMode directory) m)

/-- The mode as a value; a mask that is no text gives none either. -/
def modeValue (mask : Value) (directory : Bool) : Value :=
  match mask.text?.bind (modeUnder · directory) with
  | some mode => .text mode
  | none => .null

end Playscript
