import Playscript.FileTree

/-! # Wildcards

    A pattern for names: `*` stands for any characters, `?` for one, and brackets for
    one of a set.  A path with patterns in it stands for the paths that fit, in order.
    A name that starts with a dot fits only a pattern that starts with one. -/

namespace Playscript.Wildcard

/-- A part of a pattern. -/
inductive Part where
  | any
  | one
  | char (c : Char)
  /-- One character in, or not in, some ranges. -/
  | set (negated : Bool) (ranges : List (Char × Char))
deriving DecidableEq, Repr

/-- The ranges of a set; a dash between two characters makes a range of them. -/
def rangesOf : List Char → List (Char × Char)
  | low :: '-' :: high :: rest => (low, high) :: rangesOf rest
  | c :: rest => (c, c) :: rangesOf rest
  | [] => []

/-- The inside of a set up to its closing bracket, which may not come first. -/
def setInside (cs : List Char) : Option (List Char × List Char) :=
  match cs with
  | [] => none
  | first :: rest =>
    match rest.dropWhile (· != ']') with
    | [] => none
    | _ :: behind => some (first :: rest.takeWhile (· != ']'), behind)

/-- The set at the front of a pattern, behind its opening bracket. -/
def setAt (cs : List Char) : Option (Part × List Char) :=
  match cs with
  | '!' :: rest => (setInside rest).map fun (inside, behind) => (.set true (rangesOf inside), behind)
  | cs => (setInside cs).map fun (inside, behind) => (.set false (rangesOf inside), behind)

/-- The parts of a pattern; an opening bracket that is never closed stands for itself. -/
def partsOf : Nat → List Char → List Part
  | 0, _ => []
  | _, [] => []
  | n + 1, c :: rest =>
    if c == '*' then .any :: partsOf n rest
    else if c == '?' then .one :: partsOf n rest
    else if c == '[' then
      match setAt rest with
      | some (part, behind) => part :: partsOf n behind
      | none => .char '[' :: partsOf n rest
    else .char c :: partsOf n rest

/-- Whether a character lies in one of some ranges. -/
def inRanges (ranges : List (Char × Char)) (c : Char) : Bool :=
  ranges.any fun (low, high) => low ≤ c && c ≤ high

/-- Whether some rest of a text passes a test. -/
def someRest (test : List Char → Bool) : List Char → Bool
  | [] => test []
  | c :: rest => test (c :: rest) || someRest test rest

/-- Whether parts fit a name. -/
def fitsFrom : List Part → List Char → Bool
  | [], cs => cs.isEmpty
  | .any :: parts, cs => someRest (fitsFrom parts) cs
  | .one :: parts, _ :: cs => fitsFrom parts cs
  | .char d :: parts, c :: cs => c == d && fitsFrom parts cs
  | .set negated ranges :: parts, c :: cs => (inRanges ranges c != negated) && fitsFrom parts cs
  | _ :: _, [] => false

/-- Whether a name fits a pattern. -/
def fits (pattern name : String) : Bool :=
  fitsFrom (partsOf pattern.length pattern.toList) name.toList

/-- Whether a text holds a sign of a pattern. -/
def isPattern (text : String) : Bool :=
  text.toList.any fun c => c == '*' || c == '?' || c == '['

/-- Whether a name is hidden. -/
def isHidden (name : String) : Bool :=
  name.toList.head? == some '.'

/-- The names in a directory that fit a pattern. -/
def namesFitting (tree : FileTree) (directory pattern : String) (directoriesOnly : Bool) :
    List String :=
  (tree.list (if directory.isEmpty then "." else directory)).filter fun name =>
    (isHidden pattern || !isHidden name) && fits pattern name
      && (!directoriesOnly || tree.isDirectory (Path.join directory name))

/-- The paths that fit a path with patterns; `fuel` bounds its depth. -/
def expandPath (tree : FileTree) : Nat → String → Bool → List String
  | 0, _, _ => []
  | fuel + 1, path, directoriesOnly =>
    let directory := Path.directoryName path
    let name := Path.baseName path
    if !isPattern path then
      if name.isEmpty then if tree.isDirectory directory then [path] else []
      else if tree.exists? path then [path] else []
    else if directory.isEmpty then namesFitting tree "" name directoriesOnly
    else
      let directories :=
        if directory != path && isPattern directory then expandPath tree fuel directory true
        else [directory]
      directories.flatMap fun directory =>
        if isPattern name then
          (namesFitting tree directory name directoriesOnly).map (Path.join directory)
        else if name.isEmpty then
          if tree.isDirectory directory then [Path.join directory name] else []
        else if tree.exists? (Path.join directory name) then [Path.join directory name] else []

/-- The paths that fit a path with patterns, in order. -/
def expand (tree : FileTree) (path : String) : List String :=
  (expandPath tree (path.length + 1) path false).mergeSort fun a b => !(b < a)

end Playscript.Wildcard
