import Playscript.Proofs.FlagPositions
import Playscript.Proofs.Touches

/-! # What becomes of operands

    Commands that work on paths take all their operands for paths (`mkdir`, `touch`, `gunzip`), all
    but the first, which says what to make of them (`chmod`, `chown`), or the last one for the
    place where the others go (`cp`, `mv`, `ln`).  Words that start with a dash are options.  A
    command keeps its operands if each of them stands in a task for what it is, and no option does
    (`PathCommand.Keeps`).

    Of options a command knows a few flags, and takes all other words for operands; and of these
    it looks up the first one or two only.  So what it shows in its task is read off these words
    (`PathCommand.newTasks_show`).  Where the operands are different texts, it keeps them exactly
    if they are what it looks up: no more than that, and no option among them that it does not
    know (`PathCommand.operands_kept_iff`). -/

namespace Playscript

open Shell (Node)

/-- Whether a word is an option. -/
def isOption (word : String) : Bool :=
  word.toList.head? == some '-'

/-- What an operand is to a command. -/
inductive Role where
  /-- What is to be made of the paths: a mode or an owner. -/
  | setting
  | path
  | source
  | target
deriving DecidableEq, Repr

/-- What the operands of a command are to it. -/
inductive Layout where
  | paths
  | settingAndPaths
  | sourcesAndTarget
deriving DecidableEq, Repr

namespace Layout

/-- How many operands are looked up. -/
def lookedUp : Layout → Nat
  | .paths => 1
  | .settingAndPaths => 2
  | .sourcesAndTarget => 2

/-- The paths among operands, and what they are. -/
def pathsOf : Layout → List String → List (Role × String)
  | .paths, operands => operands.map (.path, ·)
  | .settingAndPaths, operands => (operands.drop 1).map (.path, ·)
  | .sourcesAndTarget, operands =>
    operands.dropLast.map (.source, ·) ++ operands.getLast?.toList.map (.target, ·)

/-- What paths may be. -/
def pathRoles : Layout → List Role
  | .paths | .settingAndPaths => [.path]
  | .sourcesAndTarget => [.source, .target]

/-- The roles of paths are told by the layout alone, whatever the operands are. -/
theorem mem_pathRoles {layout : Layout} {operands : List String} {role : Role} {word : String}
    (h : (role, word) ∈ layout.pathsOf operands) : role ∈ layout.pathRoles := by
  cases layout with
  | paths =>
    obtain ⟨_, _, heq⟩ := List.mem_map.mp h
    cases heq
    decide
  | settingAndPaths =>
    obtain ⟨_, _, heq⟩ := List.mem_map.mp h
    cases heq
    decide
  | sourcesAndTarget =>
    rcases List.mem_append.mp h with h | h <;> obtain ⟨_, _, heq⟩ := List.mem_map.mp h <;>
      cases heq <;> decide

end Layout

namespace Verb

/-- The layout of the commands that work on paths. -/
def layout? : Verb → Option Layout
  | .mkdir | .touch | .gunzip => some .paths
  | .chmod | .chown => some .settingAndPaths
  | .cp | .mv | .ln => some .sourcesAndTarget
  | _ => none

/-- The key under which an operand stands in a task. -/
def key : Verb → Role → String
  | .gunzip, .path => "src"
  | .mv, .source => "removes"
  | .mv, .target => "creates"
  | .chown, .setting => "owner"
  | _, .setting => "mode"
  | _, .path => "path"
  | _, .source => "src"
  | _, .target => "dest"

/-- A path as a command writes it out. -/
def written (verb : Verb) (vs : Variables) (word : String) : String :=
  vs.interpret (if verb = .touch then .template else .plain) word

/-- A setting as a command shows it; an owner needs a group, and is shown as it stands. -/
def setting? (verb : Verb) (vs : Variables) (word : String) : Option String :=
  if verb = .chown then (Session.ownerAndGroup word).toOption.map (·.1)
  else some (verb.written vs word)

/-- What a command shows of its operands, under their keys; nothing if it fails. -/
def shown (verb : Verb) (vs : Variables) : Layout → List String → List (String × String)
  | .paths, path :: _ => [(verb.key .path, verb.written vs path)]
  | .settingAndPaths, setting :: path :: _ =>
    ((verb.setting? vs setting).map fun text =>
      [(verb.key .path, verb.written vs path), (verb.key .setting, text)]).getD []
  | .sourcesAndTarget, source :: target :: _ =>
    [(verb.key .source, verb.written vs source), (verb.key .target, verb.written vs target)]
  | _, _ => []

theorem shown_paths (verb : Verb) (vs : Variables) (path : String) (rest : List String) :
    verb.shown vs .paths (path :: rest) = [(verb.key .path, verb.written vs path)] :=
  rfl

theorem shown_sourcesAndTarget (verb : Verb) (vs : Variables) (source target : String)
    (rest : List String) :
    verb.shown vs .sourcesAndTarget (source :: target :: rest)
      = [(verb.key .source, verb.written vs source), (verb.key .target, verb.written vs target)] :=
  rfl

theorem shown_settingAndPaths {verb : Verb} {vs : Variables} {setting text : String}
    (hsetting : verb.setting? vs setting = some text) (path : String) (rest : List String) :
    verb.shown vs .settingAndPaths (setting :: path :: rest)
      = [(verb.key .path, verb.written vs path), (verb.key .setting, text)] := by
  rw [shown, hsetting]
  rfl

theorem key_target_ne_source (verb : Verb) : verb.key .target ≠ verb.key .source := by
  cases verb <;> decide

theorem key_path_ne_setting (verb : Verb) : verb.key .path ≠ verb.key .setting := by
  cases verb <;> decide

/-- What stands under such keys whatever the operands are. -/
def fixed (mask : Value) : Verb → Entries
  | .mkdir => [(.text "mode", modeValue mask true)]
  | .touch | .ln => [(.text "mode", modeValue mask false)]
  | .gunzip => [(.text "dest", .text "/tmp")]
  | _ => []

end Verb

/-! ## Keys that show operands -/

namespace Task

/-- The keys under which a task may show an operand. -/
def operandKeys : List String :=
  ["path", "src", "dest", "mode", "owner", "creates", "removes"]

/-- What a task shows under these keys, among its own or among the arguments of its module. -/
def operandEntries (t : Task) : Entries :=
  (t.fields.flatMap fun entry =>
    match entry.2 with
    | .map arguments => arguments
    | _ => [entry]).filter fun entry => operandKeys.any fun key => entry.1 == .text key

end Task

/-- An operand under its key, as a task has it. -/
def asEntry (entry : String × String) : Scalar × Value :=
  (.text entry.1, .text entry.2)

/-- Tasks that show texts under keys, beside what is fixed: one task, or none for no texts. -/
inductive Shows (texts : List (String × String)) (fixed : Entries) : List Task → Prop where
  | nothing : texts = [] → Shows texts fixed []
  | task {t : Task} (h : ∀ entry, entry ∈ t.operandEntries ↔ entry ∈ texts.map asEntry ++ fixed) :
      Shows texts fixed [t]

/-! ## What each command shows -/

namespace Session

variable {verb : Verb} {inv : Invocation} {s : Session} {texts : List (String × String)}
  {fixed : Entries}

/-- A command that adds a task shows what stands in it. -/
theorem shows_of_run {base : String} {task : String → Task}
    (hrun : (perform verb inv).run s = (.ok (), s.withTask base task))
    (hentries : ∀ register entry,
      entry ∈ (task register).operandEntries ↔ entry ∈ texts.map asEntry ++ fixed) :
    Shows texts fixed (newTasks (perform verb inv) s) := by
  rw [newTasks_withTask hrun]
  exact .task (hentries _)

/-- A command that lacks an operand shows nothing. -/
theorem shows_of_lacks (hlacks : LacksOperands verb.name inv.sorted.operands)
    (htexts : texts = []) : Shows texts fixed (newTasks (perform verb inv) s) := by
  rw [newTasks_of_fails ((perform_fails_iff verb inv s).mpr hlacks)]
  exact .nothing htexts

/-- Too few operands are not shown. -/
theorem shown_of_short (verb : Verb) (vs : Variables) {layout : Layout} {operands : List String}
    (hshort : operands.length < layout.lookedUp) : verb.shown vs layout operands = [] := by
  cases layout with
  | paths =>
    rcases operands with _ | ⟨path, rest⟩
    · rfl
    · exact absurd hshort (by simp [Layout.lookedUp])
  | settingAndPaths | sourcesAndTarget =>
    rcases operands with _ | ⟨first, _ | ⟨second, rest⟩⟩
    · rfl
    · rfl
    · exact absurd hshort (by simp [Layout.lookedUp])

theorem lacks_of_short {layout : Layout} (hlayout : verb.layout? = some layout)
    {operands : List String} (hshort : operands.length < layout.lookedUp) :
    LacksOperands verb.name operands := by
  cases verb <;> cases hlayout <;> simp_all [LacksOperands, Verb.name, Layout.lookedUp]

/-- **A command that works on paths shows the operands that it looks up**, and none of the rest. -/
theorem perform_shows {layout : Layout} (hlayout : verb.layout? = some layout) (inv : Invocation)
    (s : Session) : Shows (verb.shown s.vars layout inv.sorted.operands) (verb.fixed s.umask)
      (newTasks (perform verb inv) s) := by
  by_cases hshort : inv.sorted.operands.length < layout.lookedUp
  · exact shows_of_lacks (lacks_of_short hlayout hshort) (shown_of_short verb s.vars hshort)
  cases verb with
  | mkdir =>
    cases hlayout
    obtain ⟨path, rest, hoperands⟩ := List.exists_cons_of_length_pos (not_lt.mp hshort)
    rw [hoperands]
    exact shows_of_run (run_mkdirCommand s hoperands) fun _ _ => Iff.rfl
  | touch =>
    cases hlayout
    obtain ⟨path, rest, hoperands⟩ := List.exists_cons_of_length_pos (not_lt.mp hshort)
    rw [hoperands]
    exact shows_of_run (run_touchCommand_template s hoperands) fun _ _ => Iff.rfl
  | gunzip =>
    cases hlayout
    obtain ⟨path, rest, hoperands⟩ := List.exists_cons_of_length_pos (not_lt.mp hshort)
    rw [hoperands]
    exact shows_of_run (run_gunzipCommand s hoperands) fun _ _ => Iff.rfl
  | ln =>
    cases hlayout
    obtain ⟨source, target, rest, hoperands⟩ := exists_two hshort
    rw [hoperands]
    exact shows_of_run (run_linkCommand s hoperands) fun _ _ => Iff.rfl
  | cp =>
    cases hlayout
    obtain ⟨source, target, rest, hoperands⟩ := exists_two hshort
    rw [hoperands]
    exact shows_of_run (run_copyCommand s hoperands) fun _ _ => Iff.rfl
  | mv =>
    cases hlayout
    obtain ⟨source, target, rest, hoperands⟩ := exists_two hshort
    rw [hoperands]
    -- The task names its target first.
    exact shows_of_run (run_moveCommand s hoperands) fun _ _ => (List.Perm.swap _ _ []).mem_iff
  | chmod =>
    cases hlayout
    obtain ⟨mode, path, rest, hoperands⟩ := exists_two hshort
    rw [hoperands]
    -- Whether it is for a whole tree stands under a key of its own.
    refine shows_of_run (run_permissionCommand s hoperands) fun _ _ => ?_
    cases inv.hasOption "-R" <;> exact Iff.rfl
  | chown =>
    cases hlayout
    obtain ⟨owners, path, rest, hoperands⟩ := exists_two hshort
    rw [hoperands]
    cases howners : ownerAndGroup owners with
    | error failure =>
      -- Without one group the command fails, whatever the path.
      have hcount : owners.toList.count ':' ≠ 1 := by
        rw [Ne, ← ownerAndGroup_ok_iff, howners]
        rintro ⟨pair, hpair⟩
        cases hpair
      have hsetting : Verb.setting? .chown s.vars owners = none := by
        rw [Verb.setting?, if_pos rfl, howners]
        rfl
      refine shows_of_lacks (by simp [LacksOperands, Verb.name, hoperands, hcount]) ?_
      rw [Verb.shown, hsetting]
      rfl
    | ok names =>
      have hsetting : Verb.setting? .chown s.vars owners = some names.1 := by
        rw [Verb.setting?, if_pos rfl, howners]
        rfl
      rw [Verb.shown_settingAndPaths hsetting]
      refine shows_of_run (run_ownerCommand s hoperands howners) fun _ _ => ?_
      cases inv.hasOption "-R" <;> exact Iff.rfl
  | _ => cases hlayout

end Session

/-! ## Options among what is shown -/

/-- No text under the keys of operands is an option. -/
def NoOption (entries : Entries) : Prop :=
  ∀ key text, (key, .text text) ∈ entries → isOption text = false

namespace Shows

variable {texts : List (String × String)} {fixed : Entries} {tasks : List Task}

theorem noOption_iff (h : Shows texts fixed tasks) (hfixed : NoOption fixed) :
    (∀ t ∈ tasks, NoOption t.operandEntries) ↔ ∀ entry ∈ texts, isOption entry.2 = false := by
  cases h with
  | nothing h => simp [h]
  | task h =>
    simp only [List.forall_mem_singleton, NoOption, h, List.mem_append, List.mem_map]
    constructor
    · intro hshown entry hentry
      exact hshown _ _ (.inl ⟨entry, hentry, rfl⟩)
    · rintro htexts key text (⟨entry, hentry, heq⟩ | hmem)
      · cases heq
        exact htexts entry hentry
      · exact hfixed key text hmem

theorem names_iff (h : Shows texts fixed tasks) {entry : String × String}
    (hfixed : asEntry entry ∉ fixed) :
    (∃ t ∈ tasks, asEntry entry ∈ t.operandEntries) ↔ entry ∈ texts := by
  cases h with
  | nothing h => simp [h]
  | task h =>
    have hinj : Function.Injective asEntry := by
      rintro ⟨key, text⟩ ⟨key', text'⟩ heq
      cases heq
      rfl
    simp [h, hfixed, List.mem_map_of_injective hinj]

end Shows

theorem isOption_iff {word : String} : isOption word = true ↔ ∃ rest, word = "-" ++ rest := by
  rw [isOption, beq_iff_eq]
  constructor
  · intro h
    obtain ⟨rest, hrest⟩ := List.head?_eq_some_iff.mp h
    exact ⟨String.ofList rest, by rw [← String.toList_inj, hrest]; simp⟩
  · rintro ⟨rest, rfl⟩
    simp

namespace Verb

variable {verb : Verb} {vs : Variables} {word : String}

/-- An option stays one, whatever it refers to. -/
theorem isOption_written (h : isOption word = true) : isOption (verb.written vs word) = true := by
  obtain ⟨rest, rfl⟩ := isOption_iff.mp h
  rw [written, vs.interpret_lead _ (show '$' ∉ "-".toList by decide)]
  exact isOption_iff.mpr ⟨_, rfl⟩

theorem not_isOption_of_written (h : isOption (verb.written vs word) = false) :
    isOption word = false := by
  rw [← Bool.not_eq_true] at h ⊢
  exact mt isOption_written h

/-- Of different texts none is written like the first. -/
theorem not_written_again {first : String} {rest : List String}
    (hnodup : ((first :: rest).map (verb.written vs)).Nodup) (hword : word ∈ rest) :
    verb.written vs word ≠ verb.written vs first := fun heq =>
  (List.nodup_cons.mp hnodup).1 (List.mem_map.mpr ⟨word, hword, heq⟩)

theorem eq_nil_of_written_again {first : String} {rest : List String}
    (hnodup : ((first :: rest).map (verb.written vs)).Nodup)
    (h : ∀ word ∈ rest, verb.written vs word = verb.written vs first) : rest = [] :=
  List.eq_nil_iff_forall_not_mem.mpr fun word hword => not_written_again hnodup hword (h word hword)

/-- An owner is an option if the word is that it stands in; other settings are written out. -/
theorem setting?_eq_some {text : String} (h : verb.setting? vs word = some text) :
    isOption text = isOption word ∨ text = verb.written vs word := by
  unfold setting? at h
  split at h
  · left
    cases howners : Session.ownerAndGroup word with
    | error failure => rw [howners] at h; cases h
    | ok pair =>
      rw [howners] at h
      cases h
      rw [Session.eq_of_ownerAndGroup howners, isOption, isOption, String.toList_append,
        String.toList_append]
      -- An owner that is empty leaves the colon in front.
      cases pair.1.toList with
      | nil => rfl
      | cons c rest => rfl
  · exact .inr (Option.some.inj h).symm

/-- Nothing that a task has of its own, apart from operands, looks like an option. -/
theorem noOption_fixed (verb : Verb) (mask : Value) : NoOption (verb.fixed mask) := by
  have hmode : ∀ directory, NoOption [(.text "mode", modeValue mask directory)] := by
    intro directory key text hmem
    have hvalue : Value.text text = modeValue mask directory :=
      (Prod.mk.inj (List.mem_singleton.mp hmem)).2
    rcases modeValue_eq mask directory with hmode | ⟨n, hmode⟩
    · cases hvalue.trans hmode
    · cases hvalue.trans hmode
      rw [← Bool.not_eq_true]
      intro hoption
      obtain ⟨rest, hrest⟩ := isOption_iff.mp hoption
      have hdash : '-' ∈ (Text.octalText 4 n).toList := by simp [hrest]
      exact absurd (Text.isDigit_of_mem_octalText hdash) (by decide)
  cases verb with
  | mkdir => exact hmode true
  | touch => exact hmode false
  | ln => exact hmode false
  | gunzip =>
    intro key text hmem
    cases List.mem_singleton.mp hmem
    decide
  | _ => exact fun key text hmem => absurd hmem List.not_mem_nil

/-- What is fixed stands under no key of a path. -/
theorem path_not_fixed {layout : Layout} (hlayout : verb.layout? = some layout) {role : Role}
    (hrole : role ∈ layout.pathRoles) (mask : Value) (text : String) :
    asEntry (verb.key role, text) ∉ verb.fixed mask := by
  have hkeys : ∀ role ∈ layout.pathRoles, ∀ entry ∈ verb.fixed mask,
      entry.1 ≠ .text (verb.key role) := by
    cases verb <;> cases hlayout <;> simp [Layout.pathRoles, fixed, key]
  exact fun hmem => hkeys role hrole _ hmem rfl

theorem flags_are_options {layout : Layout} (hlayout : verb.layout? = some layout) :
    ∀ flag ∈ verb.row.flags, isOption flag = true := by
  cases verb <;> cases hlayout <;> decide

theorem no_values {layout : Layout} (hlayout : verb.layout? = some layout) :
    verb.row.valueOptions = [] := by
  cases verb <;> cases hlayout <;> rfl

/-- Only an owner can be wrong, by not having one group. -/
theorem isSome_setting?_iff : (verb.setting? vs word).isSome = true ↔
    (verb = .chown → word.toList.count ':' = 1) := by
  rw [setting?, ← Session.ownerAndGroup_ok_iff]
  split
  · next hverb => cases Session.ownerAndGroup word <;> simp [hverb, Except.toOption]
  · next hverb => simp [hverb]

end Verb

/-! ## Operands among what is shown -/

/-- No option is shown, and of the operands every path, for what it is. -/
def Verb.ShowsAll (verb : Verb) (vs : Variables) (layout : Layout) (taken operands : List String) :
    Prop :=
  (∀ entry ∈ verb.shown vs layout taken, isOption entry.2 = false) ∧
    ∀ role word, (role, word) ∈ layout.pathsOf operands →
      (verb.key role, verb.written vs word) ∈ verb.shown vs layout taken

section Different

-- The operands are different texts, and no option when they are written out.
variable {verb : Verb} {vs : Variables} {taken operands : List String}
  (hoperands : operands = taken.filter fun word => !isOption word)
  (hnodup : (operands.map (verb.written vs)).Nodup)
  (hwritten : ∀ word ∈ operands, isOption (verb.written vs word) = false)

include hoperands hnodup hwritten

/-- With paths only, the first word that is taken is shown.  All paths are shown if it is the only
    operand: a further one would have to be written like the first. -/
theorem showsAll_paths_iff (hlength : 1 ≤ operands.length) :
    verb.ShowsAll vs .paths taken operands ↔ taken.take 1 = operands := by
  have htaken := hlength.trans (hoperands ▸ List.length_filter_le _ _)
  obtain ⟨path, rest, rfl⟩ := List.exists_cons_of_length_pos htaken
  rw [Verb.ShowsAll, Verb.shown_paths, List.forall_mem_singleton, List.take_succ_cons,
    List.take_zero]
  constructor
  · rintro ⟨hoption, hnamed⟩
    rw [List.filter_cons_of_pos (by simp [Verb.not_isOption_of_written hoption])] at hoperands
    subst hoperands
    rw [Verb.eq_nil_of_written_again hnodup fun word hword => ?_]
    have hshown := hnamed .path word (List.mem_map_of_mem (List.mem_cons_of_mem _ hword))
    exact (Prod.mk.inj (List.mem_singleton.mp hshown)).2
  · intro htake
    subst htake
    refine ⟨hwritten path (List.mem_singleton_self _), fun role word hpath => ?_⟩
    cases List.mem_singleton.mp hpath
    exact List.mem_singleton_self _

/-- With sources and a target, two words are shown.  All are shown if they are the operands: the
    target is the last operand, and must not be taken for a source. -/
theorem showsAll_sourcesAndTarget_iff (hlength : 2 ≤ operands.length) :
    verb.ShowsAll vs .sourcesAndTarget taken operands ↔ taken.take 2 = operands := by
  have htaken := hlength.trans (hoperands ▸ List.length_filter_le _ _)
  obtain ⟨source, target, rest, rfl⟩ := Session.exists_two (not_lt.mpr htaken)
  rw [Verb.ShowsAll, Verb.shown_sourcesAndTarget, List.forall_mem_cons,
    List.forall_mem_singleton, List.take_succ_cons, List.take_succ_cons, List.take_zero]
  constructor
  · rintro ⟨⟨hsource, htarget⟩, hnamed⟩
    rw [List.filter_cons_of_pos (by simp [Verb.not_isOption_of_written hsource]),
      List.filter_cons_of_pos (by simp [Verb.not_isOption_of_written htarget])] at hoperands
    subst hoperands
    -- The last operand is the target, so none stands behind the second.
    cases hrest : (rest.filter fun word => !isOption word).getLast? with
    | none => rw [List.getLast?_eq_none_iff.mp hrest]
    | some last =>
      have hlast : (Role.target, last) ∈ Layout.sourcesAndTarget.pathsOf
          (source :: target :: rest.filter fun word => !isOption word) := by
        simp [Layout.pathsOf, List.getLast?_cons, hrest]
      have hagain := Verb.not_written_again hnodup.of_cons (List.mem_of_getLast? hrest)
      rcases List.mem_pair.mp (hnamed .target last hlast) with heq | heq
      · exact absurd (Prod.mk.inj heq).1 verb.key_target_ne_source
      · exact absurd (Prod.mk.inj heq).2 hagain
  · intro htake
    subst htake
    refine ⟨⟨hwritten source (by simp), hwritten target (by simp)⟩, fun role word hpath => ?_⟩
    rcases List.mem_pair.mp hpath with heq | heq <;> cases heq <;> simp

/-- With a setting in front, all paths are shown if the setting can be read and the words that are
    taken are the operands.  Otherwise there is a path and nothing is shown, or a further path that
    would have to be written like the first one, or like the setting, under a key that only paths
    have. -/
theorem showsAll_settingAndPaths_iff (hlength : 2 ≤ operands.length) :
    verb.ShowsAll vs .settingAndPaths taken operands ↔ taken.take 2 = operands ∧
      ∀ setting ∈ operands.head?, (verb.setting? vs setting).isSome = true := by
  have htaken := hlength.trans (hoperands ▸ List.length_filter_le _ _)
  obtain ⟨setting, path, rest, rfl⟩ := Session.exists_two (not_lt.mpr htaken)
  rw [Verb.ShowsAll, List.take_succ_cons, List.take_succ_cons, List.take_zero]
  cases hsetting : verb.setting? vs setting with
  | none =>
    rw [Verb.shown, hsetting]
    refine iff_of_false ?_ ?_
    · -- There is a path, and nothing is shown.
      rintro ⟨-, hnamed⟩
      obtain ⟨first, second, more, rfl⟩ := Session.exists_two (not_lt.mpr hlength)
      exact absurd (hnamed .path second (List.mem_cons_self ..)) List.not_mem_nil
    · rintro ⟨htake, hreadable⟩
      have hhead := hreadable setting (by rw [← htake]; rfl)
      rw [hsetting] at hhead
      cases hhead
  | some text =>
    rw [Verb.shown_settingAndPaths hsetting, List.forall_mem_cons, List.forall_mem_singleton]
    constructor
    · rintro ⟨⟨hpath, htext⟩, hnamed⟩
      have hoption : isOption setting = false := by
        rcases Verb.setting?_eq_some hsetting with hsame | rfl
        · exact hsame ▸ htext
        · exact Verb.not_isOption_of_written htext
      rw [List.filter_cons_of_pos (by simp [hoption]),
        List.filter_cons_of_pos (by simp [Verb.not_isOption_of_written hpath])] at hoperands
      subst hoperands
      have hrest := Verb.eq_nil_of_written_again hnodup.of_cons fun word hword => by
        have hmem : (Role.path, word) ∈ Layout.settingAndPaths.pathsOf
            (setting :: path :: rest.filter fun word => !isOption word) :=
          List.mem_map_of_mem (List.mem_cons_of_mem _ hword)
        rcases List.mem_pair.mp (hnamed .path word hmem) with heq | heq
        · exact (Prod.mk.inj heq).2
        · exact absurd (Prod.mk.inj heq).1 verb.key_path_ne_setting
      rw [hrest]
      refine ⟨rfl, fun word hword => ?_⟩
      cases hword
      rw [hsetting]
      rfl
    · rintro ⟨htake, -⟩
      subst htake
      have hoption : isOption setting = false := by
        have hmem : setting ∈ (setting :: path :: rest).filter fun word => !isOption word := by
          simp [← hoperands]
        simpa using (List.mem_filter.mp hmem).2
      have htext : isOption text = false := by
        rcases Verb.setting?_eq_some hsetting with hsame | rfl
        · exact hsame.trans hoption
        · exact hwritten setting (by simp)
      refine ⟨⟨hwritten path (by simp), htext⟩, fun role word hpath => ?_⟩
      cases List.mem_singleton.mp hpath
      exact List.mem_cons_self ..

/-- The three layouts together.  Only `chown` has a setting that cannot always be read: it is read
    if it has one colon. -/
theorem showsAll_iff {layout : Layout} (hlayout : verb.layout? = some layout)
    (hlength : layout.lookedUp ≤ operands.length) :
    verb.ShowsAll vs layout taken operands ↔ taken.take layout.lookedUp = operands ∧
      (verb = .chown → ∀ owners ∈ operands.head?, owners.toList.count ':' = 1) := by
  cases layout with
  | paths =>
    have hverb : verb ≠ .chown := by
      rintro rfl
      cases hlayout
    rw [showsAll_paths_iff hoperands hnodup hwritten hlength]
    exact (and_iff_left fun h => absurd h hverb).symm
  | settingAndPaths =>
    rw [showsAll_settingAndPaths_iff hoperands hnodup hwritten hlength]
    refine and_congr_right fun _ => ?_
    simp only [Verb.isSome_setting?_iff]
    exact ⟨fun h hverb owners howners => h owners howners hverb,
      fun h owners howners hverb => h hverb owners howners⟩
  | sourcesAndTarget =>
    have hverb : verb ≠ .chown := by
      rintro rfl
      cases hlayout
    rw [showsAll_sourcesAndTarget_iff hoperands hnodup hwritten hlength]
    exact (and_iff_left fun h => absurd h hverb).symm

end Different

/-! ## Commands and their operands -/

/-- A command that works on paths, given some words. -/
structure PathCommand where
  verb : Verb
  layout : Layout
  isLayout : verb.layout? = some layout
  words : List (String × List Node)
  plain : ∀ word ∈ words, word.2.all Node.isPlainExpansion = true

namespace PathCommand

open Session (newTasks visit)

variable (c : PathCommand) (s : Session)

def tree : Node :=
  .command (.word c.verb.name [] :: c.words.map fun word => .word word.1 word.2)

/-- The words that are operands: all but the options. -/
def operands : List String :=
  (c.words.map Prod.fst).filter fun word => !isOption word

/-- The words that the command takes for operands: all but the flags that it knows. -/
def taken : List String :=
  (c.words.map Prod.fst).filter fun word => !c.verb.row.flags.contains word

/-- No option stands in a task for an operand, and every path does, for what it is. -/
structure Keeps : Prop where
  noOption : ∀ t ∈ newTasks (visit c.tree) s, NoOption t.operandEntries
  named : ∀ role word, (role, word) ∈ c.layout.pathsOf c.operands →
    ∃ t ∈ newTasks (visit c.tree) s,
      asEntry (c.verb.key role, c.verb.written s.vars word) ∈ t.operandEntries

/-- The operands are among what the command takes for them. -/
theorem operands_eq : c.operands = c.taken.filter fun word => !isOption word := by
  rw [operands, taken, List.filter_filter]
  refine List.filter_congr fun word _ => ?_
  by_cases hflag : word ∈ c.verb.row.flags
  · simp [Verb.flags_are_options c.isLayout word hflag]
  · simp [hflag]

/-- **A command shows what it looks up** among the words that it takes for operands. -/
theorem newTasks_show :
    Shows (c.verb.shown s.vars c.layout c.taken) (c.verb.fixed s.umask)
      (newTasks (visit c.tree) s) := by
  obtain ⟨inv, hsorted, -, hvisit⟩ := Session.visit_words c.verb c.words c.plain
  have htaken : inv.sorted.operands = c.taken := by
    rw [hsorted, Row.operands_sort (Verb.no_values c.isLayout)
      (Session.subcommands_are_flags c.verb)]
    rfl
  rw [tree, hvisit, ← htaken]
  exact Session.perform_shows c.isLayout inv s

/-- A command keeps its operands exactly if its task shows all of them. -/
theorem keeps_iff : c.Keeps s ↔ c.verb.ShowsAll s.vars c.layout c.taken c.operands := by
  have hshow := c.newTasks_show s
  have hnames : ∀ role word, (role, word) ∈ c.layout.pathsOf c.operands →
      ((∃ t ∈ newTasks (visit c.tree) s,
          asEntry (c.verb.key role, c.verb.written s.vars word) ∈ t.operandEntries) ↔
        (c.verb.key role, c.verb.written s.vars word) ∈ c.verb.shown s.vars c.layout c.taken) :=
    fun role word hpath => hshow.names_iff
      (Verb.path_not_fixed c.isLayout (Layout.mem_pathRoles hpath) s.umask _)
  rw [Verb.ShowsAll, ← hshow.noOption_iff (c.verb.noOption_fixed s.umask)]
  constructor
  · intro hkeeps
    exact ⟨hkeeps.noOption, fun role word hpath =>
      (hnames role word hpath).mp (hkeeps.named role word hpath)⟩
  · rintro ⟨hoption, hnamed⟩
    exact ⟨hoption, fun role word hpath => (hnames role word hpath).mpr (hnamed role word hpath)⟩

/-- **What becomes of the operands of a command.**  They are kept exactly if no option is among
    what the command looks up and every path is.  Where the operands are different texts, no
    option when they are written out, and as many as are looked up, that is so exactly if the
    first words that are no known flag are all the operands, and an owner has a group. -/
theorem operands_kept_iff :
    (c.Keeps s ↔
      (∀ entry ∈ c.verb.shown s.vars c.layout c.taken, isOption entry.2 = false) ∧
        ∀ role word, (role, word) ∈ c.layout.pathsOf c.operands →
          (c.verb.key role, c.verb.written s.vars word) ∈ c.verb.shown s.vars c.layout c.taken) ∧
    ((c.operands.map (c.verb.written s.vars)).Nodup →
      (∀ word ∈ c.operands, isOption (c.verb.written s.vars word) = false) →
      c.layout.lookedUp ≤ c.operands.length →
      (c.Keeps s ↔ c.taken.take c.layout.lookedUp = c.operands ∧
        (c.verb = .chown → ∀ owners ∈ c.operands.head?, owners.toList.count ':' = 1))) := by
  refine ⟨c.keeps_iff s, fun hnodup hwritten hlength => (c.keeps_iff s).trans ?_⟩
  exact showsAll_iff c.operands_eq hnodup hwritten c.isLayout hlength

/-- A copy of `/srv/a` to `/srv/b` with an option. -/
def copyWith (option : String) : PathCommand where
  verb := .cp
  layout := .sourcesAndTarget
  isLayout := rfl
  words := [(option, []), ("/srv/a", []), ("/srv/b", [])]
  plain := by simp

/-- `cp -f` is known, so its operands are kept; `cp -r` takes the option for the source. -/
theorem copy_kept_by_known_option_only :
    (copyWith "-f").Keeps {} ∧ ¬ (copyWith "-r").Keeps {} := by
  have hplain : ∀ word ∈ ["/srv/a", "/srv/b"],
      Verb.cp.written ({} : Session).vars word = word := fun word hword =>
    Variables.interpret_of_no_dollar _ _ ((by decide : ∀ word ∈ ["/srv/a", "/srv/b"],
      '$' ∉ word.toList) word hword)
  have hnodup : (["/srv/a", "/srv/b"].map (Verb.cp.written ({} : Session).vars)).Nodup := by
    rw [List.map_congr_left hplain, List.map_id']
    decide
  have hwritten : ∀ word ∈ ["/srv/a", "/srv/b"],
      isOption (Verb.cp.written ({} : Session).vars word) = false := fun word hword => by
    rw [hplain word hword]
    exact (by decide : ∀ word ∈ ["/srv/a", "/srv/b"], isOption word = false) word hword
  constructor
  · refine (((copyWith "-f").operands_kept_iff {}).2 hnodup hwritten (by decide)).mpr ⟨rfl, ?_⟩
    intro hverb
    cases hverb
  · intro hkeeps
    have htake := (((copyWith "-r").operands_kept_iff {}).2 hnodup hwritten (by decide)).mp hkeeps
    exact absurd htake.1 (by decide)

end PathCommand

end Playscript
