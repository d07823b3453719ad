import Playscript.Failure
import Playscript.Reference

/-! # Variables

    A session knows three kinds of variables: those that a script sets, those that it
    exports, and those that hold for a while only.  The last kind hides the exported
    ones, which hide the others.  Expansion writes a variable's value for a reference
    to it; in a template an exported variable stands as a template reference instead. -/

namespace Playscript

/-- Names with values, each name once, in the order in which they were first set. -/
abbrev Store := List (String × String)

namespace Store

/-- The value of a name. -/
def get? (store : Store) (name : String) : Option String :=
  store.lookup name

/-- Whether a name is there. -/
def has (store : Store) (name : String) : Bool :=
  (store.get? name).isSome

/-- Gives a name a value: in its place if it is there, at the end if it is not. -/
def set : Store → String → String → Store
  | [], name, value => [(name, value)]
  | entry :: rest, name, value =>
    if entry.1 = name then (name, value) :: rest else entry :: set rest name value

end Store

/-- The variables of a session. -/
structure Variables where
  plain : Store := []
  exported : Store := []
  overriding : Store := []
  /-- Every export in the order in which it was made. -/
  history : List (String × String) := []
deriving DecidableEq, Repr, Inhabited

/-- How references are written out. -/
inductive Expansion where
  /-- By the value of the variable. -/
  | plain
  /-- By a template reference to an exported variable, by the value of any other. -/
  | template
deriving DecidableEq, Repr, Inhabited

/-- The way of writing out that a name asks for. -/
def Expansion.ofName : String → Except Failure Expansion
  | "interpret" => .ok .plain
  | "jinja" => .ok .template
  | _ => .error .unsetName

namespace Variables

/-- The value of a variable. -/
def get? (vs : Variables) (name : String) : Option String :=
  match vs.overriding.get? name with
  | some value => some value
  | none =>
    match vs.exported.get? name with
    | some value => some value
    | none => vs.plain.get? name

/-- A reference to a variable in a template. -/
def templateText (name : String) : String :=
  "\x7b\x7b " ++ name ++ " \x7d\x7d"

/-- What is written for a reference. -/
def write (vs : Variables) (mode : Expansion) (r : Reference) : String :=
  match mode with
  | .plain => (vs.get? r.name).getD r.raw
  | .template =>
    if vs.exported.has r.name then templateText r.name else (vs.get? r.name).getD r.raw

/-- A text with its references written out. -/
def interpret (vs : Variables) (mode : Expansion) (text : String) : String :=
  expandReferences (vs.write mode) text

/-- Sets a variable to a text with its references written out. -/
def assign (vs : Variables) (name text : String) : Variables :=
  { vs with plain := vs.plain.set name (vs.interpret .plain text) }

/-- Exports a variable under a text with its references written out as a template. -/
def exportAs (vs : Variables) (name text : String) : Variables :=
  let value := vs.interpret .template text
  { vs with
    plain := vs.plain.set name value
    exported := vs.exported.set name value
    history := vs.history ++ [(name, value)] }

/-- Sets a variable that hides all others of its name. -/
def push (vs : Variables) (name value : String) : Variables :=
  { vs with overriding := vs.overriding.set name value }

end Variables

end Playscript
