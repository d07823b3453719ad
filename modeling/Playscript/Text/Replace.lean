/-! # Replacing and finding

    Putting one text in the place of another wherever it occurs, from left to right,
    and asking whether it occurs at all. -/

namespace Playscript.Text

/-- Puts `new` for every occurrence of `old`, from left to right; `skip` characters belong to an
    occurrence that has been replaced. -/
def replaceFrom (old new : List Char) : Nat → List Char → List Char
  | _, [] => []
  | skip + 1, _ :: rest => replaceFrom old new skip rest
  | 0, c :: rest =>
    if old.isPrefixOf (c :: rest) then new ++ replaceFrom old new (old.length - 1) rest
    else c :: replaceFrom old new 0 rest

/-- Puts a text for every occurrence of another, which is not empty. -/
def replaceAll (old new text : String) : String :=
  String.ofList (replaceFrom old.toList new.toList 0 text.toList)

/-- Whether one text stands in another. -/
def occursIn (needle : List Char) : List Char → Bool
  | [] => needle.isEmpty
  | c :: rest => needle.isPrefixOf (c :: rest) || occursIn needle rest

end Playscript.Text
