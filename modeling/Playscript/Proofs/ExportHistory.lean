import Playscript.Proofs.Effects
import Playscript.Proofs.Resolution

/-! # The history of exports

    An export is kept in three places: among the exports, where references look first, among
    all that was written, and at the end of the history, which is what a script gives out in the
    end.  The three have to move together, whichever way a variable is set.

    What a visit does to the variables is a list of writes that is read off its tree, also if the
    visit fails (`vars_serve`).  One write keeps the three places in step (`Recorded.apply`) and puts
    at most one entry behind the others (`history_apply`).  So in every session that requests lead
    to, the exports are the history replayed (`exports_replay_history`). -/

namespace Playscript

open Shell (Node)

namespace Store

/-- The entries of a history, set one after the other. -/
def replay (history : List (String × String)) : Store :=
  history.foldl (fun store entry => store.set entry.1 entry.2) []

theorem replay_concat (history : List (String × String)) (entry : String × String) :
    replay (history ++ [entry]) = (replay history).set entry.1 entry.2 :=
  List.foldl_append

/-- Of the entries for a name the last one counts. -/
theorem get?_replay (history : List (String × String)) (name : String) :
    (replay history).get? name = lastEntry history name := by
  induction history using List.reverseRecOn with
  | nil => rfl
  | append_singleton history entry ih =>
      rw [replay_concat, lastEntry, List.reverse_append, List.reverse_singleton,
        List.singleton_append, List.lookup_cons]
      by_cases h : name = entry.1
      · rw [h, get?_set_self, beq_self_eq_true]
      · rw [get?_set_of_ne _ _ h, beq_eq_false_iff_ne.mpr h, ih]
        rfl

theorem has_set (store : Store) (name value other : String) :
    (store.set name value).has other = (other == name || store.has other) := by
  by_cases h : other = name
  · rw [h, has, get?_set_self, beq_self_eq_true]
    rfl
  · rw [has, get?_set_of_ne _ _ h, beq_eq_false_iff_ne.mpr h]
    rfl

end Store

/-! ## Writes and their entries -/

namespace Write

/-- What a write puts into the history: an export itself, an assignment nothing. -/
def entries (vs : Variables) : Write → List (String × String)
  | .assign _ _ => []
  | .exportAs name text => [(name, vs.interpret .template text)]

theorem history_apply (w : Write) (vs : Variables) :
    (w.apply vs).history = vs.history ++ w.entries vs := by
  cases w with
  | assign name text => exact (List.append_nil _).symm
  | exportAs name text => rfl

end Write

namespace Variables

/-- What writes put into the history, each with the value that it stores. -/
def entriesOf : Variables → List Write → List (String × String)
  | _, [] => []
  | vs, w :: rest => w.entries vs ++ entriesOf (w.apply vs) rest

theorem history_writeAll (ws : List Write) :
    ∀ vs : Variables, (vs.writeAll ws).history = vs.history ++ vs.entriesOf ws := by
  induction ws with
  | nil => intro vs; exact (List.append_nil _).symm
  | cons w rest ih =>
      intro vs
      rw [writeAll_cons, ih, w.history_apply, entriesOf, List.append_assoc]

/-- The exports are what the history comes to, and stand among all that was written. -/
structure Recorded (vs : Variables) : Prop where
  exported_eq : vs.exported = Store.replay vs.history
  written : ∀ name, vs.exported.has name = true → vs.plain.has name = true

theorem recorded_empty : Recorded {} :=
  ⟨rfl, fun _ h => h⟩

/-- One write keeps the three places in step. -/
theorem Recorded.apply {vs : Variables} (h : Recorded vs) (w : Write) : Recorded (w.apply vs) := by
  cases w with
  | assign name text =>
      refine ⟨h.exported_eq, fun other hother => ?_⟩
      show (vs.plain.set name _).has other = true
      rw [Store.has_set, h.written other hother, Bool.or_true]
  | exportAs name text =>
      refine ⟨?_, fun other hother => ?_⟩
      · show vs.exported.set name _ = Store.replay (vs.history ++ [_])
        rw [Store.replay_concat, h.exported_eq]
      · -- both stores get the new name; under an old one only the exports tell
        have hboth : (vs.exported.set name (vs.interpret .template text)).has other = true := hother
        show (vs.plain.set name _).has other = true
        rw [Store.has_set, Bool.or_eq_true] at hboth ⊢
        exact hboth.imp_right (h.written other)

/-- So do writes one after the other. -/
theorem Recorded.writeAll (ws : List Write) :
    ∀ {vs : Variables}, Recorded vs → Recorded (vs.writeAll ws) := by
  induction ws with
  | nil => intro vs h; exact h
  | cons w rest ih => intro vs h; exact ih (h.apply w)

end Variables

/-! ## Requests -/

/-- The write among the effects on a scope, if it is one. -/
def Effect.write? : Effect → Option Write
  | .write w => some w
  | .mask _ => none

/-- Of the effects on a scope only writes get to its variables. -/
theorem Scope.vars_applyAll (es : List Effect) :
    ∀ scope : Scope, (scope.applyAll es).vars = scope.vars.writeAll (es.filterMap Effect.write?) := by
  induction es with
  | nil => intro scope; rfl
  | cons e rest ih =>
      intro scope
      cases e with
      | write w => exact ih _
      | mask text => exact ih _

namespace Session

/-- What can be asked of a session: to go through a tree, or to set a variable. -/
inductive Request where
  | visit (tree : Node)
  | write (w : Write)

namespace Request

def step : Request → Step Unit
  | .visit tree => Session.visit tree
  | .write (.assign name text) => assign name text
  | .write (.exportAs name text) => exportAs name text

/-- What a request writes: a visit all that its tree asks for, up to where it fails. -/
def writes : Request → List Write
  | .visit tree => (treeEffects tree).filterMap Effect.write?
  | .write w => [w]

theorem vars_step (request : Request) (s : Session) :
    (request.step.after s).vars = s.vars.writeAll request.writes := by
  cases request with
  | visit tree =>
      calc ((Session.visit tree).after s).vars
          = (s.scope.applyAll (treeEffects tree)).vars :=
            congrArg Scope.vars ((visit_does tree).scope s)
        _ = s.vars.writeAll ((treeEffects tree).filterMap Effect.write?) :=
            Scope.vars_applyAll _ _
  | write w => cases w <;> rfl

end Request

/-- A session behind requests, also those that fail. -/
def serve (s : Session) (requests : List Request) : Session :=
  requests.foldl (fun now request => request.step.after now) s

/-- Requests do their writes to the variables and nothing else. -/
theorem vars_serve (requests : List Request) : ∀ s : Session,
    (s.serve requests).vars = s.vars.writeAll (requests.flatMap Request.writes) := by
  induction requests with
  | nil => intro s; rfl
  | cons request rest ih =>
      intro s
      show ((request.step.after s).serve rest).vars = _
      rw [ih, request.vars_step, List.flatMap_cons, Variables.writeAll_append]

/-- **The exports are the history replayed.**  From a session in which nothing has been done, and
    through whatever visits and settings of variables, some of which may fail: setting the
    entries of the history one after the other gives just the exports, so that of the entries
    for a name the last one counts; whatever is exported is among all that was written; and
    further requests leave all entries as they are, and put behind them one for each export that
    they make, with the value that it stores. -/
theorem exports_replay_history (settings : Settings) (registers : Registers)
    (requests more : List Request) :
    let s := (fresh settings registers).serve requests
    s.vars.exported = Store.replay s.vars.history ∧
    (∀ name, s.vars.exported.get? name = lastEntry s.vars.history name) ∧
    (∀ name, s.vars.exported.has name = true → s.vars.plain.has name = true) ∧
    (s.serve more).vars.history
      = s.vars.history ++ s.vars.entriesOf (more.flatMap Request.writes) := by
  intro s
  have hrecorded : s.vars.Recorded := by
    rw [vars_serve]
    exact Variables.recorded_empty.writeAll _
  refine ⟨hrecorded.exported_eq, fun name => ?_, hrecorded.written, ?_⟩
  · rw [hrecorded.exported_eq, Store.get?_replay]
  · rw [vars_serve, Variables.history_writeAll]

end Session

end Playscript
