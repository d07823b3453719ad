import Playscript.Failure
import Playscript.Path

/-! # File trees

    The files and directories below one directory, each by the names on the way to it.
    A path is followed name by name; `..` leaves the directory that has been reached,
    so what stands in front of it has to be there.

    All paths are relative to the directory of the tree.  A path from the root lies outside
    of the tree and leads nowhere here, also where a file system has something at it.  So
    whatever is said about files and roles is said for paths that do not start at the root. -/

namespace Playscript

/-- What a path leads to. -/
inductive FileEntry where
  | directory
  | file (content : ByteArray)
deriving BEq, Inhabited

/-- Files and directories by the names on the way to them. -/
structure FileTree where
  entries : List (List String × FileEntry) := []
deriving Inhabited

/-- Work on a file tree: it may fail, and keeps what was done before. -/
abbrev Filing := ExceptT Failure (StateM FileTree)

namespace FileTree

/-- What stands at a place; the directory of the tree itself is always there. -/
def get? (tree : FileTree) (place : List String) : Option FileEntry :=
  if place.isEmpty then some .directory else tree.entries.lookup place

/-- Sets what stands at a place in a list of entries. -/
def setEntry : List (List String × FileEntry) → List String → FileEntry →
    List (List String × FileEntry)
  | [], place, entry => [(place, entry)]
  | known :: rest, place, entry =>
    if known.1 = place then (place, entry) :: rest else known :: setEntry rest place entry

/-- Sets what stands at a place. -/
def set (tree : FileTree) (place : List String) (entry : FileEntry) : FileTree :=
  ⟨setEntry tree.entries place entry⟩

/-- Follows names from a place. -/
def followFrom (tree : FileTree) (place : List String) : List String → Except Failure (List String)
  | [] => .ok place
  | name :: rest =>
    match tree.get? place with
    | some .directory =>
      followFrom tree (if name == ".." then place.dropLast else place ++ [name]) rest
    | some (.file _) => .error .notDirectory
    | none => .error .noSuchFile

/-- The place that a path leads to, from the directory of the tree.  Paths from the root are not
    modelled: none of them leads anywhere. -/
def follow (tree : FileTree) (path : String) : Except Failure (List String) :=
  if path.isEmpty || Path.isAbsolute path then .error .noSuchFile
  else tree.followFrom [] (Path.names path)

/-- What a path leads to. -/
def find (tree : FileTree) (path : String) : Except Failure FileEntry := do
  match tree.get? (← tree.follow path) with
  | none => throw .noSuchFile
  | some .directory => return .directory
  | some (.file content) =>
    if Path.endsInSlash path then throw .notDirectory else return .file content

/-- Whether a path leads to something. -/
def exists? (tree : FileTree) (path : String) : Bool :=
  match tree.find path with
  | .ok _ => true
  | .error _ => false

/-- Whether a path leads to a directory. -/
def isDirectory (tree : FileTree) (path : String) : Bool :=
  match tree.find path with
  | .ok .directory => true
  | _ => false

/-- Whether a path leads to a file. -/
def isFile (tree : FileTree) (path : String) : Bool :=
  match tree.find path with
  | .ok (.file _) => true
  | _ => false

/-- The names in the directory at a place, in order. -/
def namesAt (tree : FileTree) (place : List String) : List String :=
  (tree.entries.filterMap fun (known, _) =>
    match known.getLast? with
    | some name => if known.dropLast == place then some name else none
    | none => none).mergeSort fun a b => !(b < a)

/-- The names in a directory, in order; none if there is no such directory. -/
def list (tree : FileTree) (path : String) : List String :=
  if tree.isDirectory path then
    match tree.follow path with
    | .ok place => tree.namesAt place
    | .error _ => []
  else []

/-- Whether two paths lead to the same place. -/
def samePlace (tree : FileTree) (path other : String) : Bool :=
  match tree.follow path, tree.follow other with
  | .ok place, .ok place' => place == place'
  | _, _ => false

/-- The content of a file. -/
def read (tree : FileTree) (path : String) : Except Failure ByteArray := do
  match ← tree.find path with
  | .directory => throw .isDirectory
  | .file content => return content

end FileTree

namespace Filing

/-- Asks the tree. -/
def ask {α : Type} (question : FileTree → α) : Filing α :=
  return question (← get)

/-- Writes a file; the directory for it has to be there. -/
def write (path : String) (content : ByteArray) : Filing Unit := do
  let tree ← get
  let place ← tree.follow path
  match tree.get? place with
  | some .directory => throw .isDirectory
  | some (.file _) =>
    if Path.endsInSlash path then throw .notDirectory
    else set (tree.set place (.file content))
  | none =>
    if Path.endsInSlash path then throw .isDirectory
    else set (tree.set place (.file content))

/-- Makes a directory; the one around it has to be there. -/
def makeDirectory (path : String) : Filing Unit := do
  let tree ← get
  let place ← tree.follow path
  match tree.get? place with
  | some _ => throw .fileExists
  | none => set (tree.set place .directory)

/-- Makes a directory with all those around it, the names given backwards. -/
def makeNames (start : String) : List String → Filing Unit
  | [] => pure ()
  | last :: before => do
    let outer := start ++ "/".intercalate before.reverse
    let path := start ++ "/".intercalate (last :: before).reverse
    if !before.isEmpty && !(← ask (·.exists? outer)) then makeNames start before
    if last != "." then
      tryCatch (makeDirectory path) fun failure => do
        if !(← ask (·.isDirectory path)) then throw failure

/-- Makes a directory with all those around it; those that are there stay as they are. -/
def makeDirectories (path : String) : Filing Unit :=
  let start := if Path.isAbsolute path then "/" else ""
  let names := (Path.segments path).filter (· != "")
  if names.isEmpty then
    if path.isEmpty then throw .noSuchFile else pure ()
  else makeNames start names.reverse

/-- Copies a file; a directory in its place takes it in, and no file is copied onto itself. -/
def copyFile (source name : String) (content : ByteArray) (target : String) : Filing Unit := do
  let goal := if ← ask (·.isDirectory target) then Path.join target name else target
  if ← ask (·.samePlace source goal) then throw .copyFailed
  write goal content

/-- Copies what is in a directory into another one.  The names are listed first; what cannot be
    copied is passed over, and told at the end. -/
def copyTree : Nat → String → String → Filing Unit
  | 0, _, _ => pure ()
  | fuel + 1, source, target => do
    let names ← ask (·.list source)
    makeDirectories target
    let failed ← names.filterM fun name => do
      let path := Path.join source name
      let goal := Path.join target name
      tryCatch
        (do
          match ← (do return (← get).find path : Filing (Except Failure FileEntry)) with
          | .ok .directory => copyTree fuel path goal
          | .ok (.file content) => copyFile path name content goal
          | .error failure => throw failure
          return false)
        fun _ => return true
    if !failed.isEmpty then throw .copyFailed

end Filing

end Playscript
