import Mathlib.Algebra.GroupWithZero.Nat
import Playscript.Yaml.Printer

/-! # What is written on a sheet

    Writing on a sheet adds text behind what stands there, and what it adds hangs on the column and
    the state of the line alone (`Writes.onto`).  The values inside an item are written behind the
    column of its mark (`Writes.past`), so every item of a list starts on a line of its own, and
    the text of a list is as long as the lines of its items together (`length_writeItems`). -/

namespace Playscript.Yaml

namespace Sheet

/-- The sheet with some text in front of its own, given backwards. -/
def onto (s : Sheet) (front : List Char) : Sheet :=
  { s with written := s.written ++ front }

/-- Characters are put behind whatever stands on a sheet. -/
theorem put_onto (s : Sheet) (cs front : List Char) :
    (s.onto front).put cs = (s.put cs).onto front := by
  simp [put, onto]

/-- Whether a line has come too far to go to a column on it. -/
def isPast (s : Sheet) (n : Nat) : Bool :=
  !s.indenting || s.column > n || (s.column == n && !s.afterBlank)

/-- Goes to a column that is not behind. -/
def pad (s : Sheet) (n : Nat) : Sheet :=
  if s.column < n then { s.put (List.replicate (n - s.column) ' ') with afterBlank := true } else s

/-- A line that has come too far is broken first; then blanks lead to the column. -/
theorem indentTo_eq (s : Sheet) (n : Nat) :
    s.indentTo n = (if s.isPast n then s.breakLine else s).pad n := rfl

/-- How far it is to a column does not hang on the text in front. -/
theorem pad_onto (s : Sheet) (n : Nat) (front : List Char) :
    (s.onto front).pad n = (s.pad n).onto front := by
  by_cases h : s.column < n
  · rw [pad, pad, if_pos h, if_pos (show (s.onto front).column < n from h), put_onto]
    rfl
  · rw [pad, pad, if_neg h, if_neg (show ¬ (s.onto front).column < n from h)]

/-- Nor does what it takes to go to a column on this line or on the next. -/
theorem indentTo_onto (s : Sheet) (n : Nat) (front : List Char) :
    (s.onto front).indentTo n = (s.indentTo n).onto front := by
  rw [indentTo_eq, indentTo_eq, ← pad_onto, show (s.onto front).isPast n = s.isPast n from rfl]
  split <;> rfl

/-- Whichever line it is on, the column has been reached afterwards. -/
theorem le_column_indentTo (s : Sheet) (n : Nat) : n ≤ (s.indentTo n).column := by
  rw [indentTo_eq]
  generalize (if s.isPast n then s.breakLine else s) = line
  rw [pad]
  split
  · simp only [put, List.length_replicate]
    omega
  · omega

/-- A line that has come too far is ended, and the column is reached on a new one. -/
theorem indentTo_of_isPast {s : Sheet} {n : Nat} (h : s.isPast n = true) :
    s.indentTo n = (({} : Sheet).indentTo n).onto ('\n' :: s.written) := by
  have hnew : ({} : Sheet).isPast n = false := by simp [isPast]
  rw [indentTo_eq, indentTo_eq, h, hnew, ← pad_onto]
  rfl

theorem isPast_of_lt {s : Sheet} {n : Nat} (h : n < s.column) : s.isPast n = true := by
  simp [isPast, h]

/-- Writing that adds text whatever stands in front of it, and ends behind a column if it starts
    there. -/
structure Writes (n : Nat) (f : Sheet → Sheet) : Prop where
  onto : ∀ s front, f (s.onto front) = (f s).onto front
  past : ∀ s, n < s.column → n < (f s).column

namespace Writes

variable {n m : Nat} {f g : Sheet → Sheet}

theorem id : Writes n fun s => s :=
  ⟨fun _ _ => rfl, fun _ h => h⟩

/-- Writing one thing and then another is writing, with the same column kept behind. -/
theorem comp (hg : Writes n g) (hf : Writes n f) : Writes n fun s => g (f s) where
  onto s front := by rw [hf.onto, hg.onto]
  past s h := hg.past _ (hf.past s h)

/-- Of two ways to write one may be chosen, if the text in front has no part in the choice. -/
theorem ite {p : Sheet → Prop} [DecidablePred p] (hp : ∀ s front, p (s.onto front) ↔ p s)
    (hf : Writes n f) (hg : Writes n g) : Writes n fun s => if p s then f s else g s where
  onto s front := by
    by_cases h : p s
    · rw [if_pos h, if_pos ((hp s front).mpr h), hf.onto]
    · rw [if_neg h, if_neg (fun hfront => h ((hp s front).mp hfront)), hg.onto]
  past s hs := by
    by_cases h : p s
    · rw [if_pos h]
      exact hf.past s hs
    · rw [if_neg h]
      exact hg.past s hs

/-- Nothing that was written is taken back. -/
theorem length_le (hf : Writes n f) (s : Sheet) : s.written.length ≤ (f s).written.length := by
  have honto := hf.onto { s with written := [] } s.written
  rw [show Sheet.onto { s with written := [] } s.written = s from rfl] at honto
  rw [honto, Sheet.onto, List.length_append]
  exact Nat.le_add_left _ _

/-! ## The strokes -/

theorem put (cs : List Char) : Writes n fun s => s.put cs where
  onto s front := put_onto s cs front
  past _ h := Nat.lt_add_right cs.length h

/-- Going to a column that lies further than `n` ends behind `n`. -/
theorem indentTo (h : n < m) : Writes n fun s => s.indentTo m where
  onto s front := indentTo_onto s m front
  past s _ := Nat.lt_of_lt_of_le h (le_column_indentTo s m)

theorem inText : Writes n Sheet.inText where
  onto _ _ := rfl
  past _ h := h

/-- A mark is put down, with a blank in front of it or not. -/
theorem mark (text : String) (spaced marks : Bool) :
    Writes n fun s => s.mark text spaced marks where
  onto s front := by
    simp only [Sheet.mark, put_onto]
    rfl
  past _ h := Nat.lt_add_right _ h

/-! ## Texts -/

/-- By induction on the runs: a run is put down, or the line is broken and indented to a column
    behind `n`. -/
theorem putPlainRuns (h : n < m) (folds : Bool) (runs : List (RunKind × List Char)) :
    Writes n fun s => Sheet.putPlainRuns m folds s runs := by
  induction runs with
  | nil => exact .id
  | cons run rest ih =>
      obtain ⟨kind, cs⟩ := run
      exact ih.comp (.ite (fun _ _ => Iff.rfl) (inText.comp (.indentTo h)) (.put cs))

/-- A plain text is its runs, with a blank in front of them if the line has none. -/
theorem plain (h : n < m) (folds : Bool) (text : List Char) :
    Writes n fun s => s.plain m folds text := by
  unfold Sheet.plain
  split
  · exact .id
  · exact (putPlainRuns h folds (runs text)).comp
      (inText.comp (.ite (fun _ _ => Iff.rfl) .id (.put [' '])))

/-- Several line ends in a row, one after the other. -/
theorem breakLines_onto (k : Nat) : ∀ (s : Sheet) (front : List Char),
    (s.onto front).breakLines k = (s.breakLines k).onto front := by
  induction k with
  | zero => exact fun _ _ => rfl
  | succ k ih => exact fun s front => ih s.breakLine front

/-- The runs of a text in single quotes.  Line ends bring the column back to the start, so only the
    indentation right behind them keeps it behind `n`. -/
theorem putSingleRuns (h : n < m) (folds : Bool) (runs : List (RunKind × List Char)) :
    ∀ first, Writes n fun s => Sheet.putSingleRuns m folds first s runs := by
  induction runs with
  | nil => exact fun _ => .id
  | cons run rest ih =>
      intro first
      obtain ⟨kind, cs⟩ := run
      refine (ih false).comp ?_
      cases kind with
      | spaces => exact .ite (fun _ _ => Iff.rfl) (.indentTo h) (.put cs)
      | breaks =>
          -- the line that is begun here is indented at once
          refine ⟨fun s front => ?_, fun s _ => Nat.lt_of_lt_of_le h (le_column_indentTo _ m)⟩
          show ((s.onto front).breakLines _).indentTo m = _
          rw [breakLines_onto, indentTo_onto]
      | letters => exact .put (doubleQuotes cs)

theorem single (h : n < m) (folds : Bool) (text : List Char) :
    Writes n fun s => s.single m folds text :=
  (mark "'" false false).comp ((putSingleRuns h folds (runs text) true).comp (.mark "'" true false))

/-- A text in double quotes goes on in the next line behind a backslash, indented further than
    `n`. -/
theorem foldDouble (h : n < m) (pending : List Char) (next : Option Char) :
    Writes n fun s => s.foldDouble m pending next := by
  have hfold : Writes n fun s => ((s.put (pending ++ ['\\'])).indentTo m).inText :=
    inText.comp ((indentTo h).comp (.put _))
  unfold Sheet.foldDouble
  split
  · exact (put _).comp hfold
  · exact hfold

/-- By induction on the text, for whatever is pending: characters are put down when one of them has
    to be escaped or the line is full, and else kept for later. -/
theorem putDouble (h : n < m) (folds : Bool) (text : List Char) :
    ∀ first pending, Writes n fun s => Sheet.putDouble m folds first s pending text := by
  induction text with
  | nil => exact fun _ pending => .put pending.reverse
  | cons c rest ih =>
      intro first pending
      unfold Sheet.putDouble
      cases escape? c with
      | some escaped =>
          have hescaped : Writes n fun s => (s.put pending.reverse).put escaped :=
            (put escaped).comp (.put pending.reverse)
          have hfold : Writes n fun s =>
              if (folds && !first && !rest.isEmpty && s.foldsHere c (-1)) = true then
                s.foldDouble m [] rest.head?
              else s :=
            .ite (fun _ _ => Iff.rfl) (foldDouble h [] rest.head?) .id
          exact (ih false []).comp (hfold.comp hescaped)
      | none =>
          exact .ite (fun _ _ => Iff.rfl) ((ih false [c]).comp (foldDouble h _ _))
            (ih false (c :: pending))

theorem double (h : n < m) (folds : Bool) (text : List Char) :
    Writes n fun s => s.double m folds text :=
  (mark "\"" false false).comp ((putDouble h folds text true []).comp (.mark "\"" true false))

/-- So texts are written in each of the three styles. -/
theorem styled (h : n < m) (style : Style) (folds : Bool) (text : String) :
    Writes n fun s => s.styled style m folds text := by
  cases style with
  | plain => exact plain h folds text.toList
  | single => exact single h folds text.toList
  | double => exact double h folds text.toList

end Writes

end Sheet

/-! ## Values -/

section Values

open Sheet (Writes)

variable {n : Nat}

/-- A datum goes behind the column that it is given, whatever its style. -/
theorem writes_writeScalar {m : Nat} (h : n ≤ m) (inKey : Bool) (datum : Scalar) :
    Writes n fun s => writeScalar (some m) inKey s datum :=
  .styled (Nat.lt_add_right 1 (Nat.lt_succ_of_le h)) _ _ _

/-- A key with its colon; a key that is too long for that is marked with `?` and has the colon on a
    line of its own. -/
theorem writes_writeKey {m : Nat} (h : n < m) (key : Scalar) :
    Writes n fun s => writeKey m s key := by
  unfold writeKey
  simp only []
  split
  · exact (Writes.mark ":" false false).comp
      ((writes_writeScalar (Nat.le_of_lt h) true key).comp (.indentTo h))
  · exact (Writes.mark ":" true true).comp ((Writes.indentTo h).comp
      ((writes_writeScalar (Nat.le_of_lt h) false key).comp
        ((Writes.mark "?" true true).comp (.indentTo h))))

mutual

/-- The three theorems on values, on items and on entries are one induction on the value: what
    stands inside is written two columns further in, so it stays behind `n`. -/
theorem writes_write {m : Nat} (h : n ≤ m) (inMapping : Bool) :
    ∀ v, Writes n fun s => write .tasks (some m) inMapping s v
  | .scalar datum => by
      unfold write
      exact writes_writeScalar h false datum
  | .list [] => by
      unfold write
      exact .mark "[]" true false
  | .list (item :: rest) => by
      unfold write
      exact writes_writeItems (Nat.lt_add_right 1 (Nat.lt_succ_of_le h)) (item :: rest)
  | .map [] => by
      unfold write
      exact .mark "\x7b\x7d" true false
  | .map (entry :: rest) => by
      unfold write
      exact writes_writeEntries (Nat.lt_add_right 1 (Nat.lt_succ_of_le h)) (entry :: rest)

theorem writes_writeItems {m : Nat} (h : n < m) :
    ∀ items, Writes n fun s => writeItems .tasks m s items
  | [] => by
      unfold writeItems
      exact .id
  | item :: rest => by
      unfold writeItems
      exact (writes_writeItems h rest).comp ((writes_write (Nat.le_of_lt h) false item).comp
        ((Writes.mark "-" true true).comp (.indentTo h)))

theorem writes_writeEntries {m : Nat} (h : n < m) :
    ∀ entries, Writes n fun s => writeEntries .tasks m s entries
  | [] => by
      unfold writeEntries
      exact .id
  | (key, value) :: rest => by
      unfold writeEntries
      exact (writes_writeEntries h rest).comp
        ((writes_write (Nat.le_of_lt h) true value).comp (writes_writeKey h key))

end

end Values

/-! ## The lines of a list -/

/-- The lines of an item of a list, from the column of its mark on. -/
def itemLines (n : Nat) (item : Value) : Sheet :=
  write .tasks (some n) false ((({} : Sheet).indentTo n).mark "-" true true) item

/-- An item ends behind its mark: the mark itself is wider than nothing, and what is written behind
    it never comes back. -/
theorem lt_column_itemLines (n : Nat) (item : Value) : n < (itemLines n item).column := by
  refine (writes_write (Nat.le_refl n) false item).past _ ?_
  have hcolumn := Sheet.le_column_indentTo {} n
  have hmark : ∀ s : Sheet, s.column < (s.mark "-" true true).column := by
    intro s
    refine Nat.lt_add_of_pos_right ?_
    split <;> decide
  exact Nat.lt_of_le_of_lt hcolumn (hmark _)

/-- The mark of an item counts into the length of its lines. -/
theorem length_mark_le_itemLines (n : Nat) (item : Value) :
    ((({} : Sheet).indentTo n).mark "-" true true).written.length
      ≤ (itemLines n item).written.length :=
  (writes_write (Nat.le_refl n) false item).length_le _

/-- Behind a line that has come further than its mark, an item starts on a new one. -/
theorem writeItems_cons {n : Nat} {s : Sheet} (h : s.isPast n = true) (item : Value)
    (rest : List Value) : writeItems .tasks n s (item :: rest)
      = writeItems .tasks n ((itemLines n item).onto ('\n' :: s.written)) rest := by
  rw [writeItems, Sheet.indentTo_of_isPast h, (Sheet.Writes.mark (n := n) "-" true true).onto,
    (writes_write (Nat.le_refl n) false item).onto]
  rfl

/-- **The items of a list have lines of their own**, whatever they hold. -/
theorem length_writeItems {n : Nat} (items : List Value) : ∀ {s : Sheet}, s.isPast n = true →
    (writeItems .tasks n s items).isPast n = true ∧
      (writeItems .tasks n s items).written.length = s.written.length
        + (items.map fun item => (itemLines n item).written.length + 1).sum := by
  induction items with
  | nil =>
      intro s h
      exact ⟨h, rfl⟩
  | cons item rest ih =>
      intro s h
      have hitem : ((itemLines n item).onto ('\n' :: s.written)).isPast n = true :=
        Sheet.isPast_of_lt (lt_column_itemLines n item)
      obtain ⟨hpast, hlength⟩ := ih hitem
      rw [writeItems_cons h]
      refine ⟨hpast, ?_⟩
      rw [hlength, List.map_cons, List.sum_cons, Sheet.onto, List.length_append, List.length_cons]
      omega

/-- **A list is as long as its items**, each with one character more for the end of its last
    line. -/
theorem length_render_list (item : Value) (rest : List Value) :
    (render .tasks (.list (item :: rest))).length
      = ((item :: rest).map fun item => (itemLines 0 item).written.length + 1).sum := by
  have hitem : (itemLines 0 item).isPast 0 = true :=
    Sheet.isPast_of_lt (lt_column_itemLines 0 item)
  obtain ⟨hpast, hlength⟩ := length_writeItems rest hitem
  have hsheet : write .tasks none false {} (.list (item :: rest))
      = writeItems .tasks 0 (itemLines 0 item) rest := by
    rw [write, writeItems]
    · rfl
    · exact List.cons_ne_nil item rest
  have hrender : render .tasks (.list (item :: rest))
      = ((write .tasks none false {} (.list (item :: rest))).indentTo 0).text := rfl
  rw [hrender, hsheet, Sheet.indentTo_of_isPast hpast, Sheet.text, String.length_ofList,
    List.length_reverse]
  show (writeItems .tasks 0 (itemLines 0 item) rest).written.length + 1 = _
  rw [hlength, List.map_cons, List.sum_cons]
  omega

end Playscript.Yaml
