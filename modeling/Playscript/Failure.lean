import Playscript.Text.Quoted

/-! # Failures

    Why a piece of work stopped.  Each cause is a constructor; those that a user reads
    about have their wording in `message?`, the others are told apart by their kind
    alone. -/

namespace Playscript

/-- A cause for which work on a script stops. -/
inductive Failure where
  /-- A token that cannot continue the script, by its quoted text. -/
  | unexpectedToken (shown : String) (position : Nat)
  /-- The script ends where more is needed. -/
  | unexpectedEnd (position : Nat)
  /-- A quote or bracket is open at the end of the script. -/
  | unclosed (closer : Char) (position : Nat)
  /-- A here-document is open at the end of the script. -/
  | openHeredoc (delimiter : String) (position : Nat)
  /-- A construct or a request that has no support. -/
  | unsupported (what : String)
  /-- A tree node of a kind that does not exist. -/
  | unknownNode (kind : String)
  /-- Fewer or more pieces than the two that are needed. -/
  | tooFewPieces (found : Nat)
  | tooManyPieces
  /-- A kind of output that does not exist. -/
  | unknownGenerator (shown : String)
  /-- A kind of input that does not exist. -/
  | unknownInput (shown : String)
  /-- The command line names an input of the wrong kind. -/
  | inputNotFile (path : String)
  | inputNotDirectory (path : String)
  /-- An operand that is not there. -/
  | missingOperand
  /-- A part that the thing at hand does not have. -/
  | missingPart
  /-- A value of a shape that cannot be used here. -/
  | wrongShape
  /-- A key that is not there. -/
  | missingKey
  /-- A name that was never given a value. -/
  | unsetName
  /-- The test of a loop is not a list of commands. -/
  | bareLoopTest
  /-- A file that is not UTF-8. -/
  | badEncoding
  /-- An operation log that is not JSON. -/
  | badLog
  /-- A path of the wrong kind, or no path at all. -/
  | isDirectory
  | notDirectory
  | noSuchFile
  | fileExists
  /-- Some files of a tree could not be copied. -/
  | copyFailed
  /-- The operation log was never written. -/
  | missingLog (path : String)
  /-- An instrumented script ended with an error. -/
  | runFailed (code : String) (complaint : String)
  /-- The program ends with an exit code. -/
  | exit (code : Nat)
deriving DecidableEq, Repr, Inhabited

namespace Failure

/-- A complaint about a script with the place it is about. -/
def atPosition (complaint : String) (position : Nat) : String :=
  complaint ++ " (position " ++ toString position ++ ")"

/-- The wording of a cause that is told to the user. -/
def message? : Failure → Option String
  | .unexpectedToken shown position => some (atPosition ("unexpected token " ++ shown) position)
  | .unexpectedEnd position => some (atPosition "unexpected EOF" position)
  | .unclosed closer position =>
    some (atPosition
      ("unexpected EOF while looking for matching " ++ Text.quoted closer.toString) position)
  | .openHeredoc delimiter position =>
    some (atPosition ("here-document at line 0 delimited by end-of-file (wanted "
      ++ Text.quoted delimiter ++ ")") position)
  | .unsupported what => some what
  | .unknownNode kind => some ("unknown node kind " ++ Text.quoted kind)
  | .tooFewPieces found =>
    some ("not enough values to unpack (expected 2, got " ++ toString found ++ ")")
  | .tooManyPieces => some "too many values to unpack (expected 2)"
  | .unknownGenerator shown => some ("Unknown generator type: " ++ shown)
  | .unknownInput shown => some ("Unknown type: " ++ shown)
  | .inputNotFile path => some ("Input path " ++ path ++ " is not a file for Bash processing.")
  | .inputNotDirectory path =>
    some ("Input path " ++ path ++ " is not a directory for Slack role processing.")
  | .missingLog path => some ("Log file " ++ path ++ " not found")
  | .runFailed code complaint => some (" failed with " ++ code ++ " " ++ complaint)
  | .exit code => some (toString code)
  | _ => none

end Failure

end Playscript
