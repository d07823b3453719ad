import Playscript.Text.Lines

/-! # Paths

    A path is a text of names with slashes between them.  The operations here look at
    the text alone and ask no file tree. -/

namespace Playscript.Path

/-- Whether a path starts at the root. -/
def isAbsolute (path : String) : Bool :=
  path.toList.head? == some '/'

/-- Whether a path ends in a slash. -/
def endsInSlash (path : String) : Bool :=
  path.toList.getLast? == some '/'

/-- One path inside another; a path from the root stands for itself. -/
def join (outer inner : String) : String :=
  if isAbsolute inner then inner
  else if outer.isEmpty || endsInSlash outer then outer ++ inner
  else outer ++ "/" ++ inner

/-- The names and gaps of a path, as they stand between its slashes. -/
def segments (path : String) : List String :=
  (Text.splitOnChar '/' path.toList).map String.ofList

/-- The names of a path; a dot stands for no name. -/
def names (path : String) : List String :=
  (segments path).filter fun name => name != "" && name != "."

/-- What stands behind the last slash. -/
def baseName (path : String) : String :=
  ((segments path).getLast?).getD ""

/-- What stands in front of the last slash, without slashes at its end; a path of slashes alone
    keeps them. -/
def directoryName (path : String) : String :=
  let head := (path.toList.reverse.dropWhile (· != '/')).reverse
  if head.all (· == '/') then String.ofList head
  else String.ofList (head.reverse.dropWhile (· == '/')).reverse

/-- Takes one more name to a normal path, given backwards; `rooted` paths do not go above the
    root. -/
def normalStep (rooted : Bool) (path : List String) (name : String) : List String :=
  if name == ".." then
    match path with
    | [] => if rooted then [] else [".."]
    | last :: rest => if last == ".." then ".." :: path else rest
  else name :: path

/-- The names of a path with those dropped that it leaves again. -/
def normalNames (path : String) : List String :=
  ((names path).foldl (normalStep (isAbsolute path)) []).reverse

/-- The slashes that a normal path starts with: exactly two stay two. -/
def leadingSlashes (path : String) : String :=
  match path.toList with
  | '/' :: '/' :: '/' :: _ => "/"
  | '/' :: '/' :: _ => "//"
  | '/' :: _ => "/"
  | _ => ""

/-- The shortest path to the same place; `.` if there is nothing left. -/
def normalize (path : String) : String :=
  let text := leadingSlashes path ++ "/".intercalate (normalNames path)
  if text.isEmpty then "." else text

/-- Drops the names that two paths have in common at their start. -/
def dropCommon : List String → List String → List String × List String
  | a :: as, b :: bs => if a = b then dropCommon as bs else (a :: as, b :: bs)
  | as, bs => (as, bs)

/-- The way from one place to another. -/
def relative (path start : String) : String :=
  let (down, up) := dropCommon (normalNames path) (normalNames start)
  let way := up.map (fun _ => "..") ++ down
  if way.isEmpty then "." else "/".intercalate way

/-- The directory of a file as a path of names alone, `.` if there is none. -/
def parentOf (path : String) : String :=
  let root := if isAbsolute path then "/" else ""
  let text := root ++ "/".intercalate (names path).dropLast
  if text.isEmpty then "." else text

/-- A file beside another one. -/
def sibling (path name : String) : String :=
  let parent := parentOf path
  if parent == "." then name else join parent name

end Playscript.Path
