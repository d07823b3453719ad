import Playscript.Task

/-! # Recipes

    The tasks that commands turn into, without the keys that depend on where a command
    stands.  A recipe names a task, its module and the module's arguments. -/

namespace Playscript

/-- What a task does. -/
structure Recipe where
  name : String
  module : String
  arguments : Value
deriving Repr, Inhabited

namespace Recipe

/-- The task of a recipe with further keys. -/
def task (r : Recipe) (more : List (String × Value)) : Task :=
  Task.make r.name r.module r.arguments more

/-- The task of a recipe that registers its result. -/
def registered (r : Recipe) (register : String) : Task :=
  r.task [("register", .text register)]

/-- A directory. -/
def directory (path : String) (mode : Value) : Recipe where
  name := "Ensure directory " ++ path ++ " exists"
  module := "ansible.builtin.file"
  arguments := record [("path", .text path), ("state", .text "directory"), ("mode", mode)]

/-- A file with its times brought up to date. -/
def touched (path : String) (mode : Value) : Recipe where
  name := "Ensure file " ++ path ++ " exists"
  module := "ansible.builtin.file"
  arguments := record [("path", .text path), ("state", .text "touch"), ("mode", mode)]

/-- A link, symbolic or hard, with further arguments. -/
def link (symbolic : Bool) (src dest : String) (more : List (String × Value)) : Recipe where
  name := "Create " ++ (if symbolic then "symlink" else "hard link") ++ " " ++ dest ++ " → " ++ src
  module := "ansible.builtin.file"
  arguments := record ([("src", .text src), ("dest", .text dest),
    ("state", .text (if symbolic then "link" else "hard"))] ++ more)

/-- A copy, `verb` saying by what. -/
def copied (verb src dest : String) : Recipe where
  name := verb ++ " " ++ src ++ " to " ++ dest
  module := "ansible.builtin.copy"
  arguments := record [("src", .text src), ("dest", .text dest), ("remote_src", .bool false)]

/-- An archive that is unpacked. -/
def unpacked (path : String) : Recipe where
  name := "Extract GZ archive " ++ path
  module := "ansible.builtin.unarchive"
  arguments := record [("src", .text path), ("remote_src", .bool false), ("dest", .text "/tmp")]

/-- The words for work on a whole tree. -/
def treeWords (recursive : Bool) : String :=
  if recursive then " recursively" else ""

/-- The argument for work on a whole tree. -/
def treeArgument (recursive : Bool) : List (String × Value) :=
  if recursive then [("recurse", .bool true)] else []

/-- A file's permissions. -/
def permitted (path mode : String) (recursive : Bool) : Recipe where
  name := "Set permissions of " ++ path ++ " to " ++ mode ++ treeWords recursive
  module := "ansible.builtin.file"
  arguments := record ([("path", .text path), ("mode", .text mode)] ++ treeArgument recursive)

/-- A file's owner and group. -/
def owned (path owner group : String) (recursive : Bool) : Recipe where
  name := "Set owner: group of " ++ owner ++ " :" ++ group ++ treeWords recursive
  module := "ansible.builtin.file"
  arguments := record ([("path", .text path), ("owner", .text owner), ("group", .text group)]
    ++ treeArgument recursive)

/-- The list of packages brought up to date. -/
def cacheUpdated (manager : String) : Recipe where
  name := "Update APT package cache"
  module := "ansible.builtin." ++ manager
  arguments := record [("update_cache", .bool true)]

/-- All packages brought up to date. -/
def allUpgraded (manager : String) : Recipe where
  name := "Upgrade all packages"
  module := "ansible.builtin." ++ manager
  arguments := record [("upgrade", .text "dist")]

/-- Packages, listed in `shown` for the reader and in `packages` for the module. -/
def installed (manager shown : String) (packages : Value) (refresh : Bool) : Recipe where
  name := "Install packages: " ++ shown
  module := "ansible.builtin." ++ manager
  arguments := record ([("name", packages), ("state", .text "present")]
    ++ (if refresh then [("update_cache", .bool true)] else []))

end Recipe

end Playscript
