import Playscript.Generator
import Playscript.Proofs.SheetText

/-! # The length of a document

    In both formats a list of tasks gets longer with every task, alone (`grows_serialize`) and in a
    playbook (`length_playbook_lt`).  So the text of a document shows whether a task of it is missing,
    and nothing has to be known about how the text is read. -/

namespace Playscript

/-- A text about a list that is not empty gets longer with every further item. -/
def GrowsWithItems (text : List Value → String) : Prop :=
  ∀ ⦃part all : List Value⦄, part.Sublist all → part ≠ all → part ≠ [] →
    (text part).length < (text all).length

namespace GrowsWithItems

/-- A list with some of the items of another, but not all, costs less: by induction on how it is a
    part, the first item that is left out costs something. -/
theorem sum_lt_of_sublist {cost : Value → Nat} (hcost : ∀ v, 0 < cost v) {part all : List Value}
    (h : part.Sublist all) (hne : part ≠ all) : (part.map cost).sum < (all.map cost).sum := by
  induction h with
  | slnil => exact absurd rfl hne
  | @cons part all item h ih =>
      rw [List.map_cons, List.sum_cons]
      have hitem := hcost item
      by_cases hsame : part = all
      · rw [hsame]
        omega
      · have hrest := ih hsame
        omega
  | @cons_cons part all item h ih =>
      rw [List.map_cons, List.map_cons, List.sum_cons, List.sum_cons]
      have hrest := ih fun hsame => hne (by rw [hsame])
      omega

/-- A text in which every item has its cost, beside what all lists cost, grows with them. -/
theorem of_cost {text : List Value → String} (cost : Value → Nat) (spare base : Nat)
    (hcost : ∀ v, 0 < cost v) (hitems : ∀ item rest,
      (text (item :: rest)).length + spare = base + ((item :: rest).map cost).sum) :
    GrowsWithItems text := by
  intro part all h hne hpart
  have hall : all ≠ [] := by
    rintro rfl
    exact hpart (List.sublist_nil.mp h)
  obtain ⟨first, others, rfl⟩ := List.exists_cons_of_ne_nil hpart
  obtain ⟨item, rest, rfl⟩ := List.exists_cons_of_ne_nil hall
  have hsum := sum_lt_of_sublist hcost h hne
  have hfew := hitems first others
  have hmany := hitems item rest
  omega

end GrowsWithItems

/-! ## JSON -/

namespace Json

/-- Counted with one separator too many, each text brings its own. -/
theorem length_intercalate (sep first : String) (rest : List String) :
    (sep.intercalate (first :: rest)).length + sep.length
      = ((first :: rest).map fun text => text.length + sep.length).sum := by
  induction rest generalizing first with
  | nil => rw [String.intercalate_singleton]; rfl
  | cons second rest ih =>
      rw [String.intercalate_cons_cons, String.length_append, String.length_append, List.map_cons,
        List.sum_cons, ← ih second]
      omega

/-- Items are rendered one by one. -/
theorem renderItems_eq (depth : Nat) (items : List Value) :
    renderItems depth items = items.map (renderAt depth) := by
  induction items with
  | nil => rfl
  | cons item rest ih => rw [renderItems, ih, List.map_cons]

/-- A list has a line for each item, one level deeper than its brackets. -/
theorem renderAt_list (depth : Nat) (item : Value) (rest : List Value) :
    renderAt depth (.list (item :: rest)) = "[" ++ lineBreak (depth + 1)
      ++ ("," ++ lineBreak (depth + 1)).intercalate (renderItems (depth + 1) (item :: rest))
      ++ lineBreak depth ++ "]" := rfl

/-- So its length is a sum over the items, and brackets and line ends around it. -/
theorem length_renderAt_list (depth : Nat) (item : Value) (rest : List Value) :
    (renderAt depth (.list (item :: rest))).length + ("," ++ lineBreak (depth + 1)).length
      = (2 + (lineBreak (depth + 1)).length + (lineBreak depth).length)
        + ((item :: rest).map fun v => (renderAt (depth + 1) v).length
            + ("," ++ lineBreak (depth + 1)).length).sum := by
  have hitems := length_intercalate ("," ++ lineBreak (depth + 1)) (renderAt (depth + 1) item)
    (rest.map (renderAt (depth + 1)))
  rw [← List.map_cons, List.map_map] at hitems
  rw [renderAt_list, renderItems_eq, String.length_append, String.length_append,
    String.length_append, String.length_append]
  have hbrackets : "[".length = 1 ∧ "]".length = 1 := ⟨rfl, rfl⟩
  simp only [Function.comp_def] at hitems
  omega

/-- Every item has its own part in that sum, and at least the comma. -/
theorem grows_renderAt (depth : Nat) :
    GrowsWithItems fun items => renderAt depth (.list items) := by
  refine .of_cost _ _ _ (fun v => ?_) (length_renderAt_list depth)
  rw [String.length_append]
  exact Nat.lt_of_lt_of_le Nat.one_pos (Nat.le_add_left_of_le (Nat.le_add_right _ _))

/-- The empty list is the shortest, although it is not written by the same rule. -/
theorem length_renderAt_nil_lt (depth : Nat) (item : Value) (rest : List Value) :
    (renderAt depth (.list [])).length < (renderAt depth (.list (item :: rest))).length := by
  have hitems := length_renderAt_list depth item rest
  have hempty : (renderAt depth (.list [])).length = 2 := by
    rw [renderAt]
    rfl
  have hline : 1 ≤ (lineBreak depth).length := by
    rw [lineBreak, String.length_append]
    exact Nat.le_add_right _ _
  rw [List.map_cons, List.sum_cons] at hitems
  omega

/-- A playbook is a list of one record, whose last value are its tasks. -/
theorem render_playbook (tasks : Value) : render (Generator.playbookValue tasks) =
    "[" ++ lineBreak 1 ++ ("," ++ lineBreak 1).intercalate
      ["\x7b" ++ lineBreak 2 ++ ("," ++ lineBreak 2).intercalate
          [keyText (.text "name") ++ ": "
              ++ scalarText (.text "Execute translated shell commands"),
            keyText (.text "hosts") ++ ": " ++ scalarText (.text "all"),
            keyText (.text "become") ++ ": " ++ scalarText (.bool true),
            keyText (.text "tasks") ++ ": " ++ renderAt 2 tasks]
        ++ lineBreak 1 ++ "\x7d"]
      ++ lineBreak 0 ++ "]" := rfl

/-- Two playbooks differ in length as their tasks do. -/
theorem length_render_playbook (tasks other : Value) :
    (render (Generator.playbookValue tasks)).length + (renderAt 2 other).length
      = (render (Generator.playbookValue other)).length + (renderAt 2 tasks).length := by
  simp only [render_playbook, String.intercalate_cons_cons, String.intercalate_singleton,
    String.length_append]
  omega

end Json

/-! ## YAML -/

namespace Yaml

/-- A document of tasks is as long as its lines, and every item has some. -/
theorem grows_render : GrowsWithItems fun items => render .tasks (.list items) := by
  refine .of_cost (fun item => (itemLines 0 item).written.length + 1) 0 0
    (fun _ => Nat.succ_pos _) fun item rest => ?_
  rw [Nat.add_zero, Nat.zero_add, length_render_list]

/-- The sheet of a playbook up to where its tasks go. -/
def playSheet : Sheet :=
  writeKey 2 (writeEntries .tasks 2 ((({} : Sheet).indentTo 0).mark "-" true true)
    [(.text "name", .text "Execute translated shell commands"), (.text "hosts", .text "all"),
      (.text "become", .bool true)]) (.text "tasks")

/-- What stands in front of the tasks of a playbook is the same for all of them. -/
theorem write_playbook (tasks : Value) :
    write .tasks none false {} (Generator.playbookValue tasks)
      = write .tasks (some 2) true playSheet tasks := by
  rfl

/-- The text is what has been written and the end of the last line. -/
theorem length_render_playbook (tasks : Value) :
    (render .tasks (Generator.playbookValue tasks)).length
      = (write .tasks (some 2) true playSheet tasks).written.length + 1 := by
  have hcolumn : 0 < (write .tasks (some 2) true playSheet tasks).column :=
    (writes_write (Nat.zero_le 2) true tasks).past _ (by decide +kernel)
  have hrender : render .tasks (Generator.playbookValue tasks)
      = ((write .tasks none false {} (Generator.playbookValue tasks)).indentTo 0).text := rfl
  rw [hrender, write_playbook, Sheet.indentTo_of_isPast (Sheet.isPast_of_lt hcolumn), Sheet.text,
    String.length_ofList, List.length_reverse]
  rfl

/-- The tasks of a playbook start at the fourth column, each on lines of its own. -/
theorem length_playbook_list (item : Value) (rest : List Value) :
    (render .tasks (Generator.playbookValue (.list (item :: rest)))).length
      = (playSheet.written.length + 1)
        + ((item :: rest).map fun item => (itemLines 4 item).written.length + 1).sum := by
  have hpast : playSheet.isPast 4 = true := by decide +kernel
  have hlength := (length_writeItems (item :: rest) hpast).2
  have hwrite : write .tasks (some 2) true playSheet (.list (item :: rest))
      = writeItems .tasks 4 playSheet (item :: rest) := by
    rw [write]
    · rfl
    · exact List.cons_ne_nil item rest
  rw [length_render_playbook, hwrite, hlength]
  omega

theorem grows_playbook :
    GrowsWithItems fun items => render .tasks (Generator.playbookValue (.list items)) := by
  refine .of_cost (fun item => (itemLines 4 item).written.length + 1) 0
    (playSheet.written.length + 1) (fun _ => Nat.succ_pos _) fun item rest => ?_
  rw [Nat.add_zero, length_playbook_list]

/-- Without tasks a playbook is shorter than with any: the empty list takes two characters, and a
    task a line. -/
theorem length_playbook_nil_lt (item : Value) (rest : List Value) :
    (render .tasks (Generator.playbookValue (.list []))).length
      < (render .tasks (Generator.playbookValue (.list (item :: rest)))).length := by
  have hmark : 5 ≤ (itemLines 4 item).written.length := length_mark_le_itemLines 4 item
  have hempty : (write .tasks (some 2) true playSheet (.list [])).written.length
      = playSheet.written.length + 3 := by
    rw [write]
    rfl
  rw [length_playbook_list, length_render_playbook, hempty, List.map_cons, List.sum_cons]
  omega

end Yaml

/-! ## Both formats -/

/-- In both formats a document gets longer with its items. -/
theorem grows_serialize (format : Format) :
    GrowsWithItems fun items => format.serialize (.list items) := by
  cases format with
  | json => exact Json.grows_renderAt 0
  | yaml => exact Yaml.grows_render

/-- A playbook gets longer with every task. -/
theorem length_playbook_lt (format : Format) {part all : List Value} (h : part.Sublist all)
    (hne : part ≠ all) : (format.serialize (Generator.playbookValue (.list part))).length
      < (format.serialize (Generator.playbookValue (.list all))).length := by
  by_cases hpart : part = []
  · subst hpart
    obtain ⟨item, rest, rfl⟩ := List.exists_cons_of_ne_nil (Ne.symm hne)
    cases format with
    | json =>
        have hlt := Json.length_renderAt_nil_lt 2 item rest
        have hshift := Json.length_render_playbook (.list []) (.list (item :: rest))
        show (Json.render _).length < (Json.render _).length
        omega
    | yaml => exact Yaml.length_playbook_nil_lt item rest
  · cases format with
    | json =>
        have hlt : (Json.renderAt 2 (.list part)).length < (Json.renderAt 2 (.list all)).length :=
          Json.grows_renderAt 2 h hne hpart
        have hshift := Json.length_render_playbook (.list part) (.list all)
        show (Json.render _).length < (Json.render _).length
        omega
    | yaml => exact Yaml.grows_playbook h hne hpart

end Playscript
