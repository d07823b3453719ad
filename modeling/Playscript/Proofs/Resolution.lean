import Playscript.Proofs.Templates
import Playscript.Proofs.Writes

/-! # Values that are looked up later

    A text may be written out with templates for the exported variables; these are looked up when
    all is done, among the last entries of the exports.  A variable has a plain value too: the
    one that it would have if nothing had been exported.

    If the plain value of a variable does not change any more once it is exported, the plain
    values simulate the stored ones: filled into the templates of what is stored, they give
    the plain value (`simulates`).  If moreover no exported variable leads back to itself, the
    templates of every text resolve to it (`resolves_of_settled`).  Both are needed, as texts
    show that are nothing but a reference (`acyclic_of_resolves`, `settled_of_resolves`). -/

namespace Playscript

open Reference (templateAt isReferable isBraceable)

/-- The value of the last entry for a name. -/
def lastEntry (history : List (String × String)) (name : String) : Option String :=
  history.reverse.lookup name

/-- The assignment that an export would be without the export. -/
def Write.unexported (w : Write) : Write :=
  .assign w.name w.text

theorem Write.map_name_unexported (ws : List Write) :
    (ws.map Write.unexported).map Write.name = ws.map Write.name := by
  rw [List.map_map]
  rfl

namespace Variables

/-- The variables with their plain values, as if nothing had been exported. -/
def plainly (ws : List Write) : Variables :=
  writeAll {} (ws.map Write.unexported)

/-! ## What has been written -/

/-- A last value is there if one of the writes is picked. -/
theorem isSome_lastStored (picks : Write → Bool) (ws : List Write) :
    ∀ vs, (lastStored picks vs ws).isSome = ws.any picks := by
  induction ws with
  | nil => intro vs; rfl
  | cons w rest ih =>
      intro vs
      rw [lastStored, Option.isSome_or, ih, List.any_cons, Bool.or_comm]
      cases picks w <;> rfl

/-- A name is exported if one of the writes exports it. -/
theorem has_exported_writeAll (ws : List Write) (name : String) :
    (writeAll {} ws).exported.has name = ws.any (Write.exports name) := by
  rw [Store.has, exported_writeAll]
  show (Option.or _ none).isSome = _
  rw [Option.or_none, isSome_lastStored]

/-- A variable can be read once it has been written. -/
theorem isSome_get?_writeAll (ws : List Write) (name : String) :
    ((writeAll {} ws).get? name).isSome = true ↔ name ∈ ws.map Write.name := by
  have hsets : ∀ w : Write, w.exports name = true → w.sets name = true := by
    intro w hw
    cases w with
    | assign other text => exact nomatch hw
    | exportAs other text => exact hw
  rw [get?_writeAll, Option.isSome_or, isSome_lastStored, isSome_lastStored, Bool.or_eq_true,
    List.any_eq_true, List.any_eq_true, List.mem_map]
  constructor
  · rintro (⟨w, hw, hname⟩ | ⟨w, hw, hname⟩)
    · exact ⟨w, hw, beq_iff_eq.mp (hsets w hname)⟩
    · exact ⟨w, hw, beq_iff_eq.mp hname⟩
  · rintro ⟨w, hw, hname⟩
    exact .inr ⟨w, hw, beq_iff_eq.mpr hname⟩

theorem mem_names_of_exported {ws : List Write} {name : String}
    (h : (writeAll {} ws).exported.has name = true) : name ∈ ws.map Write.name := by
  rw [has_exported_writeAll, List.any_eq_true] at h
  obtain ⟨w, hw, hname⟩ := h
  refine List.mem_map.mpr ⟨w, hw, ?_⟩
  by_contra hne
  simp [Write.exports_eq_false hne] at hname

/-- What has been exported stays exported. -/
theorem exported_of_initial {before ws : List Write} (h : before <+: ws) {name : String}
    (hname : (writeAll {} before).exported.has name = true) :
    (writeAll {} ws).exported.has name = true := by
  obtain ⟨rest, rfl⟩ := h
  rw [has_exported_writeAll] at hname ⊢
  rw [List.any_append, hname, Bool.true_or]

/-- The last entry for a name is what is looked up among the exports. -/
theorem lastEntry_writeAll (name : String) (ws : List Write) :
    ∀ vs : Variables, lastEntry vs.history name = vs.exported.get? name →
      lastEntry (vs.writeAll ws).history name = (vs.writeAll ws).exported.get? name := by
  induction ws with
  | nil => intro vs h; exact h
  | cons w rest ih =>
      intro vs h
      refine ih (w.apply vs) ?_
      rw [exported_apply]
      cases w with
      | assign other text => exact h
      | exportAs other text =>
          have hhistory : ((Write.exportAs other text).apply vs).history
              = vs.history ++ [(other, (Write.exportAs other text).stored vs)] := rfl
          rw [hhistory, lastEntry, List.reverse_append, List.reverse_singleton,
            List.singleton_append]
          by_cases hname : other = name
          · simp [hname, Write.exports]
          · rw [List.lookup_cons, beq_eq_false_iff_ne.mpr (Ne.symm hname),
              if_neg (by simpa [Write.exports] using hname)]
            exact h

theorem overriding_plainly (ws : List Write) : (plainly ws).overriding = [] :=
  overriding_writeAll _ _

/-- Done plainly, no write exports. -/
theorem not_exported_plainly (ws : List Write) (name : String) :
    (plainly ws).exported.has name = false := by
  rw [plainly, has_exported_writeAll, List.any_map, List.any_eq_false]
  intro w _
  simp [Write.unexported, Write.exports]

theorem plainly_append (ws : List Write) (w : Write) :
    plainly (ws ++ [w]) = w.unexported.apply (plainly ws) := by
  rw [plainly, List.map_append, writeAll_append]
  rfl

theorem isSome_get?_plainly (ws : List Write) (name : String) :
    ((plainly ws).get? name).isSome = true ↔ name ∈ ws.map Write.name := by
  rw [plainly, isSome_get?_writeAll, Write.map_name_unexported]

/-- Under its own name, an assignment is what is read plainly. -/
theorem get?_plainly_self (ws : List Write) (w : Write) :
    (plainly (ws ++ [w])).get? w.name = some ((plainly ws).interpret .plain w.text) := by
  have hexported : (w.unexported.apply (plainly ws)).exported.get? w.name = none := by
    have hnone := not_exported_plainly (ws ++ [w]) w.name
    rw [plainly_append] at hnone
    simpa [Store.has] using hnone
  rw [plainly_append]
  have hself := get?_apply_self (overriding_plainly ws) w.unexported
  rw [show w.unexported.name = w.name from rfl, hexported, Option.none_or] at hself
  exact hself

end Variables

/-! ## Neat writes -/

/-- A text of plain characters without braces and of references to variables that are there, which
    is read as it was written. -/
def NeatText (names : List String) (text : String) : Prop :=
  ∃ segments, Neat segments ∧ (∀ segment ∈ segments, segment.isBraceless = true) ∧
    (∀ r ∈ references segments, r.name ∈ names) ∧ text = render segments

/-- Writes of neat texts under names that can stand in references. -/
def NeatWrites (ws : List Write) : Prop :=
  ∀ before w, before ++ [w] <+: ws →
    isBraceable w.name = true ∧ NeatText (before.map Write.name) w.text

/-- In neat segments, references have names. -/
theorem Neat.isReferable_of_mem {segments : List Segment} (h : Neat segments) {r : Reference}
    (hr : r ∈ references segments) : isReferable r.name = true := by
  obtain ⟨segment, hsegment, hr⟩ := List.mem_filterMap.mp hr
  have hsound := h.sound segment hsegment
  cases segment with
  | char c => exact nomatch hr
  | braced name =>
      cases hr
      exact Reference.isReferable_of_isBraceable hsound
  | bare name =>
      cases hr
      exact hsound

theorem NeatWrites.isReferable {ws : List Write} (h : NeatWrites ws) {name : String}
    (hname : name ∈ ws.map Write.name) : isReferable name = true := by
  obtain ⟨w, hw, rfl⟩ := List.mem_map.mp hname
  obtain ⟨before, behind, rfl⟩ := List.append_of_mem hw
  exact Reference.isReferable_of_isBraceable (h before w ⟨behind, by simp⟩).1

/-- Neat writes are neat without exports too. -/
theorem NeatWrites.unexported {ws : List Write} (h : NeatWrites ws) :
    NeatWrites (ws.map Write.unexported) := by
  intro before w hbefore
  obtain ⟨front, hfront, heq⟩ := List.prefix_map_iff.mp hbefore
  obtain ⟨before', last, rfl, rfl, hlast⟩ := List.append_eq_map_iff.mp heq
  obtain ⟨w', rfl, rfl⟩ := List.map_eq_singleton_iff.mp hlast
  rw [Write.map_name_unexported]
  exact h before' w' hfront

/-! ## Plain values and stored ones -/

namespace Variables

/-- The values that are stored under all names become the plain values, when values are filled
    in for their templates; and all their templates are of exported variables. -/
structure Simulates (values : String → String) (vs plain : Variables) : Prop where
  woven : ∀ name stored, vs.get? name = some stored → Woven stored
  filled : ∀ name stored, vs.get? name = some stored →
    plain.get? name = some (fill values stored)
  closed : ∀ name stored r, vs.get? name = some stored →
    .reference r ∈ pieces templateAt stored → vs.exported.has r.name = true
  settled : ∀ name, vs.exported.has name = true → plain.get? name = some (values name)

variable {values : String → String} {vs plain : Variables}

theorem fill_template {name : String} (h : isReferable name = true) :
    fill values (templateText name) = values name := by
  rw [← String.toList_inj, toList_fill, Woven.pieces_template h]
  simp [Piece.expanded, Reference.template]

/-- What is written for a reference, filled in, is what is written for it plainly. -/
theorem Simulates.write (h : Simulates values vs plain) (mode : Expansion) {r : Reference}
    (hname : isReferable r.name = true) (hset : (vs.get? r.name).isSome = true) :
    Woven (vs.write mode r) ∧ plain.write .plain r = fill values (vs.write mode r) ∧
      ∀ r', .reference r' ∈ pieces templateAt (vs.write mode r) →
        vs.exported.has r'.name = true := by
  obtain ⟨stored, hstored⟩ := Option.isSome_iff_exists.mp hset
  by_cases htemplate : mode = .template ∧ vs.exported.has r.name = true
  · obtain ⟨rfl, hexported⟩ := htemplate
    have hwrite : vs.write .template r = templateText r.name := by
      simp [Variables.write, hexported]
    rw [hwrite, fill_template hname, Woven.pieces_template hname]
    refine ⟨Woven.template hname, by simp [Variables.write, h.settled r.name hexported], ?_⟩
    intro r' hr'
    cases List.mem_singleton.mp hr'
    exact hexported
  · have hwrite : vs.write mode r = stored := by
      cases mode with
      | plain => simp [Variables.write, hstored]
      | template =>
          have hnot : vs.exported.has r.name = false := by simpa using htemplate
          simp [Variables.write, hnot, hstored]
    rw [hwrite]
    refine ⟨h.woven _ _ hstored, by simp [Variables.write, h.filled _ _ hstored], ?_⟩
    exact fun r' => h.closed _ _ r' hstored

/-- **Neat texts are simulated as the variables are.** -/
theorem Simulates.interpret (h : Simulates values vs plain)
    (hvalues : ∀ name, '$' ∉ (values name).toList) (mode : Expansion) {names : List String}
    (hset : ∀ name ∈ names, (vs.get? name).isSome = true) {text : String}
    (htext : NeatText names text) :
    Woven (vs.interpret mode text) ∧
    fill values (vs.interpret mode text) = plain.interpret .plain text ∧
    ∀ r, .reference r ∈ pieces templateAt (vs.interpret mode text) →
      vs.exported.has r.name = true := by
  obtain ⟨segments, hneat, hbraces, hnames, rfl⟩ := htext
  have hwrite := fun r hr => h.write mode (hneat.isReferable_of_mem hr) (hset r.name (hnames r hr))
  obtain ⟨hwoven, hfill, hclosed⟩ := hneat.fill_expandReferences hbraces
    (fun r hr => (hwrite r hr).1) hvalues fun r hr => (hwrite r hr).2.1
  refine ⟨hwoven, hfill, fun r hr => ?_⟩
  obtain ⟨r', hr', hmem⟩ := hclosed r hr
  exact (hwrite r' hr').2.2 r hmem

/-- What is read under the name of a write is what the write stored, or an export that hides it. -/
theorem stored_or_exported (hover : vs.overriding = []) {w : Write} {stored : String}
    (hread : (w.apply vs).get? w.name = some stored) :
    stored = w.stored vs ∨
      vs.get? w.name = some stored ∧ vs.exported.has w.name = true := by
  rw [get?_apply_self hover, exported_apply] at hread
  cases hexports : w.exports w.name with
  | true =>
      rw [hexports] at hread
      exact .inl (Option.some.inj hread).symm
  | false =>
      rw [hexports] at hread
      cases hexported : vs.exported.get? w.name with
      | none =>
          rw [hexported] at hread
          exact .inl (Option.some.inj hread).symm
      | some front =>
          rw [hexported] at hread
          refine .inr ⟨?_, by simp [Store.has, hexported]⟩
          rw [get?_of_not_overriding (by simp [hover]), hexported]
          exact hread

/-- What is exported stays so. -/
theorem exported_apply_of_exported (w : Write) {name : String}
    (h : vs.exported.has name = true) : (w.apply vs).exported.has name = true := by
  rw [Store.has, exported_apply]
  split
  · rfl
  · exact h

/-- **A write keeps the simulation**, as long as exported variables keep their plain values. -/
theorem Simulates.apply (h : Simulates values vs plain)
    (hvalues : ∀ name, '$' ∉ (values name).toList) (hover : vs.overriding = [])
    {names : List String} (hset : ∀ name ∈ names, (vs.get? name).isSome = true) {w : Write}
    (htext : NeatText names w.text) {plain' : Variables}
    (hself : plain'.get? w.name = some (plain.interpret .plain w.text))
    (hother : ∀ name, w.name ≠ name → plain'.get? name = plain.get? name)
    (hsettled : ∀ name, (w.apply vs).exported.has name = true →
      plain'.get? name = some (values name)) :
    Simulates values (w.apply vs) plain' := by
  obtain ⟨mode, hmode⟩ : ∃ mode, w.stored vs = vs.interpret mode w.text := by
    cases w with
    | assign name text => exact ⟨.plain, rfl⟩
    | exportAs name text => exact ⟨.template, rfl⟩
  obtain ⟨hwoven, hfill, hclosed⟩ := h.interpret hvalues mode hset htext
  rw [← hmode] at hwoven hfill hclosed
  -- what is read afterwards was stored now, or could be read before and is still simulated
  have hread : ∀ name stored, (w.apply vs).get? name = some stored →
      (stored = w.stored vs ∧ name = w.name) ∨
      (vs.get? name = some stored ∧ plain'.get? name = some (fill values stored)) := by
    intro name stored hstored
    by_cases heq : w.name = name
    · subst heq
      rcases stored_or_exported hover hstored with hnow | ⟨hbefore, hexported⟩
      · exact .inl ⟨hnow, rfl⟩
      · refine .inr ⟨hbefore, ?_⟩
        have hsame := (h.filled _ _ hbefore).symm.trans (h.settled _ hexported)
        rw [hsettled _ (exported_apply_of_exported w hexported), ← hsame]
    · rw [get?_apply_of_ne heq] at hstored
      exact .inr ⟨hstored, (hother name heq).trans (h.filled _ _ hstored)⟩
  refine ⟨fun name stored hstored => ?_, fun name stored hstored => ?_,
    fun name stored r hstored hr => exported_apply_of_exported w ?_, hsettled⟩
  · rcases hread name stored hstored with ⟨rfl, -⟩ | ⟨hbefore, -⟩
    · exact hwoven
    · exact h.woven _ _ hbefore
  · rcases hread name stored hstored with ⟨rfl, rfl⟩ | ⟨-, hplain⟩
    · rw [hself, hfill]
    · exact hplain
  · rcases hread name stored hstored with ⟨rfl, -⟩ | ⟨hbefore, -⟩
    · exact hclosed r hr
    · exact h.closed _ _ _ hbefore hr

/-- **Plain values simulate stored ones**, as long as exported variables keep their plain
    values. -/
theorem simulates {ws : List Write} (hneat : NeatWrites ws)
    (hvalues : ∀ name, '$' ∉ (values name).toList)
    (hsettled : ∀ before, before <+: ws → ∀ name,
      (writeAll {} before).exported.has name = true →
        (plainly before).get? name = some (values name))
    (before : List Write) :
    before <+: ws → Simulates values (writeAll {} before) (plainly before) := by
  induction before using List.reverseRecOn with
  | nil =>
      intro hbefore
      exact ⟨fun _ _ h => (nomatch h), fun _ _ h => (nomatch h), fun _ _ _ h => (nomatch h),
        hsettled [] hbefore⟩
  | append_singleton before w ih =>
      intro hbefore
      have hfront := ih ((List.prefix_append before [w]).trans hbefore)
      have hnow := hsettled _ hbefore
      have hsplit : writeAll {} (before ++ [w]) = w.apply (writeAll {} before) :=
        writeAll_append {} before [w]
      rw [hsplit] at hnow ⊢
      refine hfront.apply hvalues (overriding_writeAll before {}) (fun name hname => ?_)
        (hneat before w hbefore).2 (get?_plainly_self before w) (fun name hname => ?_) hnow
      · exact (isSome_get?_writeAll before name).mpr hname
      · rw [plainly_append]
        exact get?_apply_of_ne (w := w.unexported) hname _

/-- The plain values of neat texts hold no dollar sign. -/
theorem no_dollar_plainly {ws : List Write} (hneat : NeatWrites ws) {name value : String}
    (h : (plainly ws).get? name = some value) : '$' ∉ value.toList := by
  -- without exports the values are simulated by themselves
  have hnone : ∀ before, before <+: ws.map Write.unexported →
      ∀ name, (writeAll {} before).exported.has name = true →
        (plainly before).get? name = some "" := by
    rintro before ⟨rest, hrest⟩ name hname
    have hexported := exported_of_initial ⟨rest, hrest⟩ hname
    rw [← plainly, not_exported_plainly] at hexported
    exact nomatch hexported
  have hsimulates : Simulates (fun _ => "") (plainly ws) (plainly (ws.map Write.unexported)) :=
    simulates hneat.unexported (by simp) hnone _ (List.prefix_refl _)
  exact (hsimulates.woven name value h).no_dollar

end Variables

/-! ## Texts whose templates resolve to plain values -/

namespace Variables

variable {ws : List Write}

/-- The plain value of a variable does not change any more once it is exported. -/
def Settled (ws : List Write) : Prop :=
  ∀ before after name, before <+: after → after <+: ws →
    (writeAll {} before).exported.has name = true →
      (plainly after).get? name = (plainly before).get? name

/-- The value that a template is looked up with when all is done. -/
def entry (ws : List Write) : String → Option String :=
  lastEntry (writeAll {} ws).history

theorem entry_eq (ws : List Write) (name : String) :
    entry ws name = (writeAll {} ws).exported.get? name :=
  lastEntry_writeAll name ws {} rfl

theorem isSome_entry (ws : List Write) (name : String) :
    (entry ws name).isSome = (writeAll {} ws).exported.has name := by
  rw [entry_eq]
  rfl

theorem exported_of_entry {name stored : String} (h : entry ws name = some stored) :
    (writeAll {} ws).exported.has name = true := by
  rw [← isSome_entry, h]
  rfl

/-- The plain value at the end. -/
def plainValue (ws : List Write) (name : String) : String :=
  ((plainly ws).get? name).getD ""

/-- Neat writes leave no dollar sign in what they come to. -/
theorem no_dollar_plainValue (hneat : NeatWrites ws) (name : String) :
    '$' ∉ (plainValue ws name).toList := by
  cases hvalue : (plainly ws).get? name with
  | none => simp [plainValue, hvalue]
  | some value => simpa [plainValue, hvalue] using no_dollar_plainly hneat hvalue

/-- Up to any point of the writes, templates and plain values go side by side: what is still to be
    written does not change what a reference is worth. -/
theorem Settled.simulates (h : Settled ws) (hneat : NeatWrites ws) {before : List Write}
    (hbefore : before <+: ws) :
    Simulates (plainValue ws) (writeAll {} before) (plainly before) := by
  refine Variables.simulates hneat (no_dollar_plainValue hneat) (fun front hfront name hname => ?_)
    before hbefore
  have hset := (isSome_get?_plainly front name).mpr (mem_names_of_exported hname)
  obtain ⟨value, hvalue⟩ := Option.isSome_iff_exists.mp hset
  rw [plainValue, h front ws name hfront (List.prefix_refl ws) hname, hvalue]
  rfl

/-- Every entry resolves to the plain value of its variable. -/
theorem resolves_entry (hneat : NeatWrites ws) (hacyclic : Acyclic (entry ws))
    (hsettled : Settled ws) :
    ∀ name stored, entry ws name = some stored →
      Resolves (entry ws) stored (plainValue ws name) := by
  have hend := hsettled.simulates hneat (List.prefix_refl ws)
  have hread : ∀ name stored, entry ws name = some stored →
      (writeAll {} ws).get? name = some stored := by
    intro name stored hentry
    rw [entry_eq] at hentry
    rw [get?_of_not_overriding (by rw [overriding_writeAll]; rfl), hentry]
    rfl
  have hnames : ∀ name, (entry ws name).isSome = true → name ∈ ws.map Write.name := by
    intro name hname
    exact mem_names_of_exported (isSome_entry ws name ▸ hname)
  refine resolves_of_acyclic hacyclic hnames (fun name stored hentry => ?_)
    fun name stored r hentry hr => ?_
  · have hsame := (hend.filled _ _ (hread name stored hentry)).symm.trans
      (hend.settled _ (exported_of_entry hentry))
    exact Option.some.inj hsame
  · rw [isSome_entry]
    exact hend.closed _ _ r (hread name stored hentry) hr

/-- **Templates resolve to plain values**, if nothing leads back to itself and exported variables
    keep their plain values. -/
theorem resolves_of_settled (hneat : NeatWrites ws) (hacyclic : Acyclic (entry ws))
    (hsettled : Settled ws) {before : List Write} (hbefore : before <+: ws) {text : String}
    (htext : NeatText (before.map Write.name) text) :
    Resolves (entry ws) ((writeAll {} before).interpret .template text)
      ((plainly before).interpret .plain text) := by
  obtain ⟨-, hfill, hclosed⟩ := (hsettled.simulates hneat hbefore).interpret
    (no_dollar_plainValue hneat) .template
    (fun name hname => (isSome_get?_writeAll before name).mpr hname) htext
  rw [← hfill]
  refine .of_fill fun r hr => ?_
  have hset : (entry ws r.name).isSome = true := by
    rw [isSome_entry]
    exact exported_of_initial hbefore (hclosed r hr)
  obtain ⟨stored, hstored⟩ := Option.isSome_iff_exists.mp hset
  exact ⟨stored, hstored, resolves_entry hneat hacyclic hsettled _ stored hstored⟩

/-! ## What a reference shows -/

/-- A text that is nothing but a reference is written out as the reference is. -/
theorem interpret_bare {name : String} (h : isReferable name = true) (vs : Variables)
    (mode : Expansion) : vs.interpret mode (render [.bare name]) = vs.write mode (.bare name) := by
  have hneat : Neat [.bare name] := ⟨by simpa [Segment.isSound] using h, .singleton _⟩
  rw [← String.toList_inj, interpret, hneat.toList_expandReferences_render (by simp)]
  simp [Segment.written]

theorem neatText_bare {names : List String} {name : String} (h : isReferable name = true)
    (hname : name ∈ names) : NeatText names (render [.bare name]) :=
  ⟨[.bare name], ⟨by simpa [Segment.isSound] using h, .singleton _⟩,
    by simp [Segment.isBraceless], by simpa [references, Reference.bare] using hname, rfl⟩

section Shown

variable (hneat : NeatWrites ws)
  (h : ∀ before name, before <+: ws → name ∈ before.map Write.name →
    Resolves (entry ws) ((writeAll {} before).interpret .template (render [.bare name]))
      ((plainly before).interpret .plain (render [.bare name])))

include hneat h

/-- A reference to an exported variable shows its template. -/
theorem resolves_template {before : List Write} (hbefore : before <+: ws) {name : String}
    (hexported : (writeAll {} before).exported.has name = true) :
    ∃ value, (plainly before).get? name = some value ∧
      Resolves (entry ws) (templateText name) value := by
  have hmem := mem_names_of_exported hexported
  have hname := hneat.isReferable ((hbefore.sublist.map Write.name).subset hmem)
  obtain ⟨value, hvalue⟩ := Option.isSome_iff_exists.mp ((isSome_get?_plainly before name).mpr hmem)
  have hresolves := h before name hbefore hmem
  rw [interpret_bare hname, interpret_bare hname] at hresolves
  refine ⟨value, hvalue, ?_⟩
  simpa [Variables.write, Reference.bare, hexported, hvalue] using hresolves

/-- Where references resolve, no exported variable leads back to itself. -/
theorem acyclic_of_resolves : Acyclic (entry ws) := by
  intro name hcycle
  obtain ⟨other, ⟨stored, hstored, -⟩, -⟩ := Relation.TransGen.head'_iff.mp hcycle
  have hexported := exported_of_entry hstored
  obtain ⟨value, -, hresolves⟩ := resolves_template hneat h (List.prefix_refl ws) hexported
  have hname := hneat.isReferable (mem_names_of_exported hexported)
  have hacc := hresolves.acc (.template name) (by simp [Woven.pieces_template hname])
  exact not_cycle_of_acc hacc hcycle

/-- Where references resolve, exported variables keep their plain values: there is one entry for
    a variable, and it resolves to one text. -/
theorem settled_of_resolves : Settled ws := by
  intro before after name hbefore hafter hexported
  obtain ⟨value, hvalue, hresolves⟩ := resolves_template hneat h (hbefore.trans hafter) hexported
  obtain ⟨value', hvalue', hresolves'⟩ :=
    resolves_template hneat h hafter (exported_of_initial hbefore hexported)
  rw [hvalue, hvalue', hresolves.unique hresolves']

end Shown

end Variables

end Playscript
