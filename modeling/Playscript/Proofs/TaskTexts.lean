import Playscript.Proofs.Changes
import Playscript.Proofs.References

/-! # The texts of a task

    A task shows texts: its name, and what its module is given.  A recipe puts the texts that
    it is made from between words of its own.  Those words hold no dollar sign, and gaps part
    them from what they frame, so a task mentions a variable exactly if one of the texts that it
    is made from does. -/

namespace Playscript

mutual

/-- The texts in a value. -/
def Value.texts : Value → List String
  | .scalar (.text t) => [t]
  | .scalar _ => []
  | .list items => Value.textsOfItems items
  | .map entries => Value.textsOfEntries entries

/-- The texts in the items of a list, in their order. -/
def Value.textsOfItems : List Value → List String
  | [] => []
  | item :: rest => item.texts ++ Value.textsOfItems rest

/-- The texts in the values of a map; its keys do not count. -/
def Value.textsOfEntries : List (Scalar × Value) → List String
  | [] => []
  | (_, value) :: rest => value.texts ++ Value.textsOfEntries rest

end

/-- The texts of a task, its register apart. -/
def Task.texts (t : Task) : List String :=
  Value.textsOfEntries (t.fields.filter fun entry => entry.1 != .text "register")

@[simp] theorem Value.texts_text (t : String) : (Value.text t).texts = [t] := by
  rw [Value.texts]

@[simp] theorem Value.texts_bool (b : Bool) : (Value.bool b).texts = [] := by
  simp [Value.texts]

@[simp] theorem Value.texts_record (entries : List (String × Value)) :
    (record entries).texts = entries.flatMap fun entry => entry.2.texts := by
  induction entries with
  | nil => rfl
  | cons entry rest ih =>
      rw [List.flatMap_cons, ← ih]
      rfl

/-! ## The text of a mode -/

/-- What fills up a number in octal digits are digits too. -/
theorem Text.isDigit_of_mem_octalText {width n : Nat} {c : Char}
    (h : c ∈ (octalText width n).toList) : c.isDigit = true := by
  rw [octalText, String.toList_ofList, List.mem_append] at h
  rcases h with h | h
  · rw [List.eq_of_mem_replicate h]
    decide
  · exact Nat.isDigit_of_mem_toDigits (by decide) (by decide) h

/-- A mask that is no octal number gives no mode, so no text. -/
theorem modeValue_eq (mask : Value) (directory : Bool) :
    modeValue mask directory = .null ∨
      ∃ n, modeValue mask directory = .text (Text.octalText 4 n) := by
  unfold modeValue
  split
  · next mode hmode =>
      obtain ⟨mask', -, hmask⟩ := Option.bind_eq_some_iff.mp hmode
      obtain ⟨n, -, rfl⟩ := Option.map_eq_some_iff.mp hmask
      exact .inr ⟨_, rfl⟩
  · exact .inl rfl

/-! ## Texts that are free of variables -/

namespace Variables

/-- None of some texts mentions a variable. -/
def Free (vs : Variables) (texts : List String) : Prop :=
  ∀ text ∈ texts, ¬ vs.Mentions text

@[simp] theorem free_nil (vs : Variables) : vs.Free [] := by
  intro text h
  exact nomatch h

@[simp] theorem free_cons (vs : Variables) (text : String) (rest : List String) :
    vs.Free (text :: rest) ↔ ¬ vs.Mentions text ∧ vs.Free rest :=
  List.forall_mem_cons

/-- Texts stay as they are when they are written out exactly if they are free of variables. -/
theorem map_interpret_eq_iff {vs : Variables} (h : vs.Literal) (texts : List String) :
    texts.map (vs.interpret .plain) = texts ↔ vs.Free texts := by
  induction texts with
  | nil => simp
  | cons text rest ih => rw [List.map_cons, List.cons.injEq, interpret_eq_self_iff h, ih, free_cons]

/-- A gap at the end of a text adds no mention. -/
theorem mentions_trail (vs : Variables) {g : String} (hg : isGap g = true) (a : String) :
    vs.Mentions (a ++ g) ↔ vs.Mentions a := by
  have hgap := vs.mentions_gap hg a ""
  have hempty : ¬ vs.Mentions "" := not_mentions_of_no_dollar (by decide)
  rwa [String.append_empty, or_iff_left hempty] at hgap

/-- Words with blanks between them mention what one of them mentions. -/
theorem mentions_intercalate (vs : Variables) (words : List String) :
    ¬ vs.Mentions (" ".intercalate words) ↔ vs.Free words := by
  induction words with
  | nil => simpa using not_mentions_of_no_dollar (by decide)
  | cons word rest ih =>
      cases rest with
      | nil => simp
      | cons next more =>
          rw [String.intercalate_cons_cons, vs.mentions_gap (by decide), not_or, ih]
          exact (vs.free_cons word _).symm

/-- Words with blanks between them are written out one by one, as no reference reaches over a
    blank. -/
theorem interpret_intercalate (vs : Variables) (words : List String) :
    vs.interpret .plain (" ".intercalate words)
      = " ".intercalate (words.map (vs.interpret .plain)) := by
  induction words with
  | nil => rfl
  | cons word rest ih =>
      cases rest with
      | nil => simp
      | cons next more =>
          rw [String.intercalate_cons_cons, vs.interpret_gap (by decide), ih, List.map_cons,
            List.map_cons, List.map_cons, String.intercalate_cons_cons]

/-- The digits of a mode mention nothing. -/
@[simp] theorem free_modeValue (vs : Variables) (mask : Value) (directory : Bool) :
    vs.Free (modeValue mask directory).texts := by
  rcases modeValue_eq mask directory with hmode | ⟨n, hmode⟩
  · rw [hmode]
    exact vs.free_nil
  · have hdollar : '$' ∉ (Text.octalText 4 n).toList := fun h =>
      absurd (Text.isDigit_of_mem_octalText h) (by decide)
    rw [hmode]
    simpa using not_mentions_of_no_dollar hdollar

end Variables

/-! ## The texts of recipes -/

namespace Recipe

open Variables (mentions_lead mentions_trail mentions_gap not_mentions_of_no_dollar)

/-- A recipe shows its name and what its module is given. -/
theorem texts_registered {r : Recipe} {name : String} {entries : List (String × Value)}
    {texts : List String} (hname : r.name = name) (harguments : r.arguments = record entries)
    (hmodule : r.module ≠ "register")
    (htexts : (entries.flatMap fun entry => entry.2.texts) = texts) (register : String) :
    (r.registered register).texts = name :: texts := by
  rw [← hname, ← htexts, ← Value.texts_record, ← harguments]
  simp [Recipe.registered, Recipe.task, Task.make, Task.texts, hmodule, Value.textsOfEntries,
    Value.texts]

/-- The texts of each recipe, in the order in which the task has them: its name, and then what the
    module is given.  The recipe for a directory comes first. -/
theorem texts_directory (path : String) (mode : Value) (register : String) :
    ((directory path mode).registered register).texts
      = ("Ensure directory " ++ path ++ " exists") :: path :: "directory" :: mode.texts :=
  texts_registered rfl rfl (show "ansible.builtin.file" ≠ "register" by decide) (by simp) register

/-- The words around the path and the digits of the mode mention nothing, so it comes down to the
    path. -/
theorem free_directory (vs : Variables) (path : String) (mask : Value) (register : String) :
    vs.Free ((directory path (modeValue mask true)).registered register).texts
      ↔ ¬ vs.Mentions path := by
  rw [texts_directory]
  simp (disch := decide) [mentions_lead, mentions_trail, not_mentions_of_no_dollar]

theorem texts_touched (path : String) (mode : Value) (register : String) :
    ((touched path mode).registered register).texts
      = ("Ensure file " ++ path ++ " exists") :: path :: "touch" :: mode.texts :=
  texts_registered rfl rfl (show "ansible.builtin.file" ≠ "register" by decide) (by simp) register

/-- For a touched file it comes down to the path as well. -/
theorem free_touched (vs : Variables) (path : String) (mask : Value) (register : String) :
    vs.Free ((touched path (modeValue mask false)).registered register).texts
      ↔ ¬ vs.Mentions path := by
  rw [texts_touched]
  simp (disch := decide) [mentions_lead, mentions_trail, not_mentions_of_no_dollar]

/-- A link has two paths, and its name says of which kind it is. -/
theorem texts_link (symbolic : Bool) (src dest : String) (mode : Value) (register : String) :
    ((link symbolic src dest [("mode", mode)]).registered register).texts
      = ("Create " ++ (if symbolic then "symlink" else "hard link") ++ " " ++ dest ++ " → " ++ src)
        :: src :: dest :: (if symbolic then "link" else "hard") :: mode.texts :=
  texts_registered rfl rfl (show "ansible.builtin.file" ≠ "register" by decide) (by simp) register

/-- Both paths of a link count, whichever kind it is. -/
theorem free_link (vs : Variables) (symbolic : Bool) (src dest : String) (mask : Value)
    (register : String) :
    vs.Free ((link symbolic src dest [("mode", modeValue mask false)]).registered register).texts
      ↔ ¬ vs.Mentions src ∧ ¬ vs.Mentions dest := by
  rw [texts_link]
  cases symbolic with
  | false =>
      simp (disch := decide) [mentions_lead, mentions_gap, not_mentions_of_no_dollar, and_comm]
  | true =>
      simp (disch := decide) [mentions_lead, mentions_gap, not_mentions_of_no_dollar, and_comm]

/-- A copy starts its name with the word for the command, `Copy` or `Scp`. -/
theorem texts_copied (verb src dest : String) (register : String) :
    ((copied verb src dest).registered register).texts
      = [verb ++ " " ++ src ++ " to " ++ dest, src, dest] :=
  texts_registered rfl rfl (show "ansible.builtin.copy" ≠ "register" by decide) (by simp) register

/-- Both paths count, if the word for the command has no dollar sign. -/
theorem free_copied (vs : Variables) {verb : String} (hverb : '$' ∉ verb.toList)
    (src dest register : String) :
    vs.Free ((copied verb src dest).registered register).texts
      ↔ ¬ vs.Mentions src ∧ ¬ vs.Mentions dest := by
  have hfront : ¬ vs.Mentions verb := not_mentions_of_no_dollar hverb
  rw [texts_copied]
  simp (disch := decide) [mentions_gap, hfront]

/-- An archive is unpacked to `/tmp`, which is one more text of the task. -/
theorem texts_unpacked (path : String) (register : String) :
    ((unpacked path).registered register).texts
      = ["Extract GZ archive " ++ path, path, "/tmp"] :=
  texts_registered rfl rfl (show "ansible.builtin.unarchive" ≠ "register" by decide) (by simp)
    register

theorem free_unpacked (vs : Variables) (path register : String) :
    vs.Free ((unpacked path).registered register).texts ↔ ¬ vs.Mentions path := by
  rw [texts_unpacked]
  simp (disch := decide) [mentions_lead, not_mentions_of_no_dollar]

/-- The argument for a whole tree is no text. -/
@[simp] theorem texts_treeArgument (recursive : Bool) :
    ((treeArgument recursive).flatMap fun entry => entry.2.texts) = [] := by
  cases recursive with
  | false => rfl
  | true => simp [treeArgument]

/-- The words for work on a whole tree mention nothing. -/
theorem mentions_treeWords (vs : Variables) (recursive : Bool) (text : String) :
    vs.Mentions (text ++ treeWords recursive) ↔ vs.Mentions text := by
  cases recursive with
  | false => simp [treeWords]
  | true => exact vs.mentions_trail (by decide) text

/-- Permissions go by their name, the path and the mode as it was given. -/
theorem texts_permitted (path mode : String) (recursive : Bool) (register : String) :
    ((permitted path mode recursive).registered register).texts
      = ["Set permissions of " ++ path ++ " to " ++ mode ++ treeWords recursive, path, mode] :=
  texts_registered rfl rfl (show "ansible.builtin.file" ≠ "register" by decide) (by simp) register

/-- The mode counts here, as it is an operand and no digits from a mask. -/
theorem free_permitted (vs : Variables) (path mode : String) (recursive : Bool)
    (register : String) :
    vs.Free ((permitted path mode recursive).registered register).texts
      ↔ ¬ vs.Mentions mode ∧ ¬ vs.Mentions path := by
  rw [texts_permitted, Variables.free_cons, mentions_treeWords]
  simp (disch := decide) [mentions_lead, mentions_gap, and_comm]

/-- The name of a task for an owner has no path in it, so the path shows once only. -/
theorem texts_owned (path owner group : String) (recursive : Bool) (register : String) :
    ((owned path owner group recursive).registered register).texts
      = ["Set owner: group of " ++ owner ++ " :" ++ group ++ treeWords recursive, path, owner,
          group] :=
  texts_registered rfl rfl (show "ansible.builtin.file" ≠ "register" by decide) (by simp) register

/-- Owner and group count one by one: the task has them apart. -/
theorem free_owned (vs : Variables) (path owner group : String) (recursive : Bool)
    (register : String) :
    vs.Free ((owned path owner group recursive).registered register).texts
      ↔ (¬ vs.Mentions owner ∧ ¬ vs.Mentions group) ∧ ¬ vs.Mentions path := by
  rw [texts_owned, Variables.free_cons, mentions_treeWords]
  simp (disch := decide) [mentions_lead, mentions_gap, and_comm]

section Packages

variable {manager : String} (hmodule : "ansible.builtin." ++ manager ≠ "register")

include hmodule

/-- An update of the cache and an upgrade have fixed texts, without an operand. -/
theorem texts_cacheUpdated (register : String) :
    ((cacheUpdated manager).registered register).texts = ["Update APT package cache"] :=
  texts_registered rfl rfl hmodule (by simp) register

theorem texts_allUpgraded (register : String) :
    ((allUpgraded manager).registered register).texts = ["Upgrade all packages", "dist"] :=
  texts_registered rfl rfl hmodule (by simp) register

/-- The packages of an installation are one text, with blanks between them. -/
theorem texts_installed (packages : String) (register : String) :
    ((installed manager packages (.text packages) true).registered register).texts
      = ["Install packages: " ++ packages, packages, "present"] :=
  texts_registered rfl rfl hmodule (by simp) register

/-- It comes down to the text of the packages. -/
theorem free_installed (vs : Variables) (packages register : String) :
    vs.Free ((installed manager packages (.text packages) true).registered register).texts
      ↔ ¬ vs.Mentions packages := by
  rw [texts_installed hmodule]
  simp (disch := decide) [mentions_lead, not_mentions_of_no_dollar]

end Packages

end Recipe

end Playscript
