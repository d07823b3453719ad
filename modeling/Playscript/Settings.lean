import Playscript.Failure
import Playscript.Value.Display

/-! # Settings

    What a user's configuration says about the reading of a script: whether files may
    be fetched from or sent to other hosts, the places and names that a script finds
    in its environment, and the role whose name goes in front of register names. -/

namespace Playscript

/-- What a configuration says about the reading of a script. -/
structure Settings where
  /-- Whether files may be copied from another host. -/
  pull : Bool := false
  /-- Whether files may be copied to another host. -/
  push : Bool := false
  root : Value := .text "/"
  stage : Value := .text "/tmp/s2a_stage"
  hostname : Value := .text "localhost"
  verbose : Bool := true
  /-- The name in front of register names. -/
  role : Option String := none
deriving Repr, Inhabited

namespace Settings

/-- The settings of a configuration. -/
def ofEntries (config : Entries) : Settings where
  pull := ((config.field? "pull").getD (.bool false)).isTruthy
  push := ((config.field? "push").getD (.bool false)).isTruthy
  root := (config.field? "root").getD (.text "/")
  stage := (config.field? "stage").getD (.text "/tmp/s2a_stage")
  hostname := (config.field? "hostname").getD (.text "localhost")
  verbose := ((config.field? "verbose").getD (.text "1")).isTruthy
  role := (config.field? "role_name").map Value.display

/-- The settings of a value that should be a configuration. -/
def ofValue : Value → Except Failure Settings
  | .map entries => .ok (ofEntries entries)
  | _ => .error .missingPart

/-- The environment that a script finds. -/
def environment (s : Settings) : Entries :=
  [(.text "ROOT", s.root), (.text "STAGE", s.stage), (.text "HOSTNAME", s.hostname),
   (.text "VERBOSE", .text (if s.verbose then "1" else "0"))]

/-- The environment as assignments in front of a script. -/
def preamble (s : Settings) : String :=
  String.join (s.environment.map fun entry =>
    (Value.scalar entry.1).display ++ "=\"" ++ entry.2.display ++ "\"\n")

/-- Whether files may be copied between two places, each on another host or not. -/
def allowsCopy (s : Settings) (remoteSource remoteTarget : Bool) : Bool :=
  !(remoteSource && !s.pull) && !(remoteTarget && !s.push)

/-- Whether a request is let through: a remote copy as far as the settings allow it, anything
    else in any case.  A request is a mapping that names its operation. -/
def accepts (s : Settings) : Value → Except Failure Bool
  | .map fields =>
    let request : Entries := fields
    match request.field? "op" with
    | none => .error .missingKey
    | some (.scalar (.text op)) =>
      .ok (!(op = "scp" || op = "rsync")
        || s.allowsCopy (request.has (.text "src_host")) (request.has (.text "dest_host")))
    | some _ => .error .wrongShape
  | _ => .error .wrongShape

end Settings

end Playscript
