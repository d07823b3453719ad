/-! # Paths on other hosts

    A target of a remote copy is `user@host:path`, `host:path` or a local path.  The
    user is what stands before the first `@`, the host what stands before the first
    `:` after it; a target that does not have these parts is local.  The path of a
    remote target is one line, of which a line end at the end is no part. -/

namespace Playscript

/-- A path, and where it is. -/
structure RemotePath where
  user : Option String := none
  host : Option String := none
  path : String
deriving DecidableEq, Repr, Inhabited

namespace RemotePath

/-- Whether the path is the inside of a directory. -/
def recursive (p : RemotePath) : Bool :=
  p.path.toList.getLast? == some '/'

/-- Splits at the first occurrence of a mark; something has to stand before it. -/
def splitAtMark (mark : Char) (cs : List Char) : Option (List Char × List Char) :=
  let before := cs.takeWhile (· != mark)
  match cs.dropWhile (· != mark) with
  | [] => none
  | _ :: behind => if before.isEmpty then none else some (before, behind)

/-- The one line that a text is, if it is one. -/
def oneLine? (cs : List Char) : Option (List Char) :=
  let line := cs.takeWhile (· != '\n')
  let behind := cs.dropWhile (· != '\n')
  if !line.isEmpty && (behind == [] || behind == ['\n']) then some line else none

/-- `host:path` -/
def hostAndPath? (user : Option (List Char)) (cs : List Char) : Option RemotePath :=
  match splitAtMark ':' cs with
  | none => none
  | some (host, behind) =>
    (oneLine? behind).map fun path =>
      { user := user.map String.ofList, host := some (String.ofList host)
        path := String.ofList path }

/-- Reads a target; a user is looked for first. -/
def ofText (target : String) : RemotePath :=
  let cs := target.toList
  let withUser := match splitAtMark '@' cs with
    | none => none
    | some (user, behind) => hostAndPath? (some user) behind
  match withUser with
  | some p => p
  | none => (hostAndPath? none cs).getD { path := target }

end RemotePath

end Playscript
