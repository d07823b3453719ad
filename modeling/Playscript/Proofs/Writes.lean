import Mathlib.Data.List.Basic
import Playscript.Variables

/-! # Variables that are set again

    A variable is set by an assignment or by an export.  An export writes to both stores, an
    assignment to the plain one alone, and a value is looked up among the exports first.  So
    what is read is what the last export stored; an assignment is read only while nothing has
    been exported under its name (`get?_writeAll`).  The last write wins exactly if no export is
    in its way, or the last export stored the same (`last_write_wins_iff`). -/

namespace Playscript

namespace Store

@[simp] theorem get?_nil (name : String) : get? [] name = none := rfl

theorem get?_cons (entry : String × String) (store : Store) (name : String) :
    get? (entry :: store) name = if name = entry.1 then some entry.2 else store.get? name := by
  obtain ⟨key, value⟩ := entry
  by_cases h : name = key
  · simp [get?, h]
  · simp [get?, List.lookup_cons, h, beq_eq_false_iff_ne.mpr h]

/-- A name has the value that it was given. -/
@[simp] theorem get?_set_self (store : Store) (name value : String) :
    (store.set name value).get? name = some value := by
  induction store with
  | nil => simp [set, get?_cons]
  | cons entry rest ih =>
      by_cases h : entry.1 = name
      · simp [set, h, get?_cons]
      · rw [set, if_neg h, get?_cons, if_neg (Ne.symm h), ih]

/-- Other names keep their values. -/
theorem get?_set_of_ne (store : Store) {name other : String} (value : String)
    (h : other ≠ name) : (store.set name value).get? other = store.get? other := by
  induction store with
  | nil => simp [set, get?_cons, h]
  | cons entry rest ih =>
      by_cases hentry : entry.1 = name
      · rw [set, if_pos hentry, get?_cons, get?_cons, if_neg h, if_neg (hentry ▸ h)]
      · rw [set, if_neg hentry, get?_cons, get?_cons, ih]

end Store

/-! ## Writes -/

/-- A variable is set. -/
inductive Write where
  | assign (name text : String)
  | exportAs (name text : String)
deriving DecidableEq, Repr, Inhabited

namespace Write

def name : Write → String
  | .assign name _ | .exportAs name _ => name

/-- The text as it is written in a script. -/
def text : Write → String
  | .assign _ text | .exportAs _ text => text

/-- Whether a write is an export under a name. -/
def exports (name : String) : Write → Bool
  | .assign _ _ => false
  | .exportAs other _ => other == name

/-- Whether a write sets a name, in one way or the other. -/
def sets (name : String) (w : Write) : Bool :=
  w.name == name

/-- The value that a write stores. -/
def stored (vs : Variables) : Write → String
  | .assign _ text => vs.interpret .plain text
  | .exportAs _ text => vs.interpret .template text

def apply (vs : Variables) : Write → Variables
  | .assign name text => vs.assign name text
  | .exportAs name text => vs.exportAs name text

/-- A write leaves alone what hides all other variables. -/
@[simp] theorem overriding_apply (w : Write) (vs : Variables) :
    (w.apply vs).overriding = vs.overriding := by
  cases w <;> rfl

/-- A write under another name is no export under this one. -/
theorem exports_eq_false {w : Write} {name : String} (h : w.name ≠ name) :
    w.exports name = false := by
  cases w with
  | assign other text => rfl
  | exportAs other text => simpa [exports, Write.name] using h

end Write

namespace Variables

/-- Writes one after the other. -/
def writeAll (vs : Variables) (ws : List Write) : Variables :=
  ws.foldl Write.apply vs

@[simp] theorem writeAll_cons (vs : Variables) (w : Write) (ws : List Write) :
    vs.writeAll (w :: ws) = (w.apply vs).writeAll ws := rfl

theorem writeAll_append (vs : Variables) (ws ws' : List Write) :
    vs.writeAll (ws ++ ws') = (vs.writeAll ws).writeAll ws' :=
  List.foldl_append

theorem overriding_writeAll (ws : List Write) :
    ∀ vs : Variables, (vs.writeAll ws).overriding = vs.overriding := by
  induction ws with
  | nil => intro vs; rfl
  | cons w rest ih => intro vs; rw [writeAll_cons, ih, Write.overriding_apply]

/-- The value that was stored by the last of the writes that are picked. -/
def lastStored (picks : Write → Bool) : Variables → List Write → Option String
  | _, [] => none
  | vs, w :: rest =>
    (lastStored picks (w.apply vs) rest).or (if picks w then some (w.stored vs) else none)

/-- A value is looked up among the exports first, if nothing hides them. -/
theorem get?_of_not_overriding {vs : Variables} {name : String}
    (h : vs.overriding.get? name = none) :
    vs.get? name = (vs.exported.get? name).or (vs.plain.get? name) := by
  rw [get?, h]
  cases vs.exported.get? name <;> rfl

/-- An export is what is looked up under its name among the exports. -/
theorem exported_apply (w : Write) (vs : Variables) (name : String) :
    (w.apply vs).exported.get? name
      = if w.exports name then some (w.stored vs) else vs.exported.get? name := by
  cases w with
  | assign other text => rfl
  | exportAs other text =>
      show (vs.exported.set other _).get? name = if (other == name) = true then _ else _
      by_cases h : other = name
      · subst h
        simp [Write.stored]
      · rw [if_neg (by simpa using h), Store.get?_set_of_ne _ _ (Ne.symm h)]

/-- Every write is looked up under its name among all that was written. -/
theorem plain_apply (w : Write) (vs : Variables) (name : String) :
    (w.apply vs).plain.get? name
      = if w.sets name then some (w.stored vs) else vs.plain.get? name := by
  have hplain : (w.apply vs).plain = vs.plain.set w.name (w.stored vs) := by
    cases w <;> rfl
  rw [hplain, Write.sets]
  by_cases h : w.name = name
  · simp [h]
  · rw [if_neg (by simpa using h), Store.get?_set_of_ne _ _ (Ne.symm h)]

/-- Among the exports stands what the last export stored. -/
theorem exported_writeAll (name : String) (ws : List Write) :
    ∀ vs : Variables, (vs.writeAll ws).exported.get? name
      = (lastStored (Write.exports name) vs ws).or (vs.exported.get? name) := by
  induction ws with
  | nil => intro vs; rfl
  | cons w rest ih =>
      intro vs
      rw [writeAll_cons, ih, exported_apply, lastStored, Option.or_assoc]
      cases w.exports name <;> rfl

/-- Among all that was written stands what the last write stored. -/
theorem plain_writeAll (name : String) (ws : List Write) :
    ∀ vs : Variables, (vs.writeAll ws).plain.get? name
      = (lastStored (Write.sets name) vs ws).or (vs.plain.get? name) := by
  induction ws with
  | nil => intro vs; rfl
  | cons w rest ih =>
      intro vs
      rw [writeAll_cons, ih, plain_apply, lastStored, Option.or_assoc]
      cases w.sets name <;> rfl

/-- **What is read is what the last export stored**, and without an export what the last
    assignment stored. -/
theorem get?_writeAll (ws : List Write) (name : String) :
    (writeAll {} ws).get? name
      = (lastStored (Write.exports name) {} ws).or (lastStored (Write.sets name) {} ws) := by
  have hnone : (writeAll {} ws).overriding.get? name = none := by
    rw [overriding_writeAll]
    rfl
  rw [get?_of_not_overriding hnone, exported_writeAll, plain_writeAll]
  show (Option.or _ none).or (Option.or _ none) = _
  rw [Option.or_none, Option.or_none]

/-- Under its own name a write is read unless an export hides it. -/
theorem get?_apply_self {vs : Variables} (h : vs.overriding = []) (w : Write) :
    (w.apply vs).get? w.name
      = ((w.apply vs).exported.get? w.name).or (some (w.stored vs)) := by
  rw [get?_of_not_overriding (by simp [h]), plain_apply]
  simp [Write.sets]

/-- Writes under other names change nothing that is read. -/
theorem get?_apply_of_ne {w : Write} {name : String} (h : w.name ≠ name) (vs : Variables) :
    (w.apply vs).get? name = vs.get? name := by
  have hsets : w.sets name = false := by simpa [Write.sets] using h
  rw [get?, get?, Write.overriding_apply, exported_apply, plain_apply, hsets,
    Write.exports_eq_false h]
  rfl

/-- **The last write wins exactly if no export is in its way.**  From variables that nothing has
    been written to, and through all assignments and exports, what is read under a name is what
    the last write under this name stored exactly if nothing was exported under it, or the last
    export stored just that; and writes under other names change nothing. -/
theorem last_write_wins_iff (ws : List Write) (name : String) :
    ((writeAll {} ws).get? name = lastStored (Write.sets name) {} ws ↔
      lastStored (Write.exports name) {} ws = none ∨
      lastStored (Write.exports name) {} ws = lastStored (Write.sets name) {} ws) ∧
    ∀ w : Write, w.name ≠ name →
      (writeAll {} (ws ++ [w])).get? name = (writeAll {} ws).get? name := by
  refine ⟨?_, fun w hw => ?_⟩
  · rw [get?_writeAll]
    cases lastStored (Write.exports name) {} ws with
    | none => simp
    | some value => simp
  · rw [writeAll_append]
    exact get?_apply_of_ne hw _

/-- An assignment behind an export is not seen. -/
example : (writeAll {} [.exportAs "A" "x", .assign "A" "y"]).get? "A" = some "x" := by
  decide +kernel

end Variables

end Playscript
