/-! # Register names

    A task that others may ask about registers its result under a name.  Names are
    numbered: the n-th request for a name gets `name_n`. -/

namespace Playscript

/-- How often each name has been asked for. -/
structure Registers where
  counts : List (String × Nat) := []
deriving DecidableEq, Repr, Inhabited

namespace Registers

/-- How often a name has been asked for. -/
def count (r : Registers) (name : String) : Nat :=
  (r.counts.lookup name).getD 0

/-- Sets how often a name has been asked for. -/
def setCount (counts : List (String × Nat)) (name : String) (n : Nat) : List (String × Nat) :=
  match counts with
  | [] => [(name, n)]
  | entry :: rest => if entry.1 = name then (name, n) :: rest else entry :: setCount rest name n

/-- A name with the role it belongs to in front. -/
def qualified (role : Option String) (name : String) : String :=
  match role with
  | some role => role ++ "_" ++ name
  | none => name

/-- The next register for a name. -/
def next (r : Registers) (role : Option String) (name : String) : String × Registers :=
  let full := qualified role name
  let n := r.count full + 1
  (full ++ "_" ++ toString n, ⟨setCount r.counts full n⟩)

end Registers

end Playscript
