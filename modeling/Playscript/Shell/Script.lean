import Playscript.Shell.Word

/-! # Reading scripts

    A script is read unit by unit.  The next unit starts one character behind the
    place where the tree of the last one stops, or its last here-document; reading
    ends at the first unit that holds nothing.  Only the first unit has to hold
    something. -/

namespace Playscript.Shell

/-- Reads the script of a substitution; `depth` bounds how deep substitutions nest. -/
def readSubstitution : Nat → Word.Substitution
  | 0, _, _ => .error .missingPart
  | depth + 1, source, inParens =>
    match Grammar.readUnit (Word.expand (readSubstitution depth)) source inParens with
    | .error failure => .error failure
    | .ok none => .error .missingPart
    | .ok (some unit) => .ok (unit.tree, unit.stop)

/-- Reads one unit of a script; no substitution in it nests deeper than it is long. -/
def readUnit (source : List Char) : Except Failure (Option Grammar.ScriptUnit) :=
  Grammar.readUnit (Word.expand (readSubstitution source.length)) source false

/-- What stands behind a unit of a script. -/
def behindUnit (unit : Grammar.ScriptUnit) (source : List Char) : List Char :=
  source.drop (max unit.stop unit.heredocStop + 1)

/-- Reads units until one holds nothing. -/
def readUnits : Nat → List Char → Except Failure (List Node)
  | 0, _ => .ok []
  | _, [] => .ok []
  | n + 1, source =>
    match readUnit source with
    | .error failure => .error failure
    | .ok none => .ok []
    | .ok (some unit) => (readUnits n (behindUnit unit source)).map (unit.tree :: ·)

/-- The trees of a script. -/
def readScript (script : String) : Except Failure (List Node) :=
  let source := script.toList
  match readUnit source with
  | .error failure => .error failure
  | .ok none => .error (if source.isEmpty then .unexpectedEnd 0 else .missingPart)
  | .ok (some unit) => (readUnits source.length (behindUnit unit source)).map (unit.tree :: ·)

end Playscript.Shell
