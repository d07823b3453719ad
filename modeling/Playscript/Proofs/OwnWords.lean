import Playscript.Proofs.PlainCommands

/-! # The words of a command and the words within it

    A walk through a command meets its own words, and with them the words that stand within it:
    the targets of redirections, and the words of the commands in its words.  `Node.heard` lists
    all that is met, in its order, and gathering is taking in the one after the other
    (`gather_ends`, `gather_fails`).  So the command is the first word on the walk and its words
    are all others, whoever's they are; and they are parted at the end of each command on the
    walk, as far as no assignment came before (`Follows.foldl_hear`).  The invocation is that of
    the command's own words exactly if no other word is on the walk, and if the words that were
    there when they were parted last give the same operands and options
    (`invocation_of_own_words_iff`). -/

namespace Playscript

open Shell (Node)

/-! ## What a walk meets -/

/-- What a walk through a command meets: words, the targets of redirections that are
    remembered, parameters, assignments, and the ends of commands. -/
inductive Heard where
  | word (text : String)
  | target (sign text : String)
  | parameter (name : String)
  | assigned
  | ended
deriving DecidableEq

namespace Heard

/-- The words among what is met. -/
def words (events : List Heard) : List String :=
  events.filterMap fun
    | .word text => some text
    | _ => none

@[simp] theorem words_nil : words [] = [] := rfl

@[simp] theorem words_cons_word (text : String) (events : List Heard) :
    words (.word text :: events) = text :: words events := rfl

theorem words_append (events more : List Heard) :
    words (events ++ more) = words events ++ words more :=
  List.filterMap_append

/-- The words that were there when words were parted last: at the last end of a command in front
    of the first assignment.  The words before are `spoken`, those parted last are `parted`. -/
def partedLast (spoken parted : List String) : List Heard → List String
  | [] => parted
  | .word text :: rest => partedLast (spoken ++ [text]) parted rest
  | .ended :: rest => partedLast spoken spoken rest
  | .assigned :: _ => parted
  | .target _ _ :: rest | .parameter _ :: rest => partedLast spoken parted rest

/-- Without an assignment all words are there at the end. -/
theorem partedLast_of_not_mem {events : List Heard} (h : .assigned ∉ events) :
    ∀ spoken parted, partedLast spoken parted (events ++ [.ended]) = spoken ++ words events := by
  induction events with
  | nil => intro spoken parted; exact (List.append_nil spoken).symm
  | cons event rest ih =>
      have hrest := ih fun hmem => h (List.mem_cons_of_mem _ hmem)
      intro spoken parted
      cases event with
      | word text => exact (hrest (spoken ++ [text]) parted).trans (List.append_cons ..).symm
      | assigned => exact absurd List.mem_cons_self h
      | ended => exact hrest _ _
      | target sign text => exact hrest _ _
      | parameter name => exact hrest _ _

end Heard

namespace Shell.Node

mutual

/-- What a walk through a tree meets, in its order. -/
def heard : Node → List Heard
  | .command parts => heardAll parts ++ [.ended]
  | .list parts | .pipeline parts | .branch parts | .forLoop parts | .whileLoop parts
  | .untilLoop parts | .function parts => heardAll parts
  | .compound body redirects => heardAll body ++ heardAll redirects
  | .word text parts => .word text :: heardAll parts
  | .assignment text _ => if (Session.splitAssignment text).isSome then [.assigned] else []
  | .redirect _ sign target =>
    (if Invocation.redirectsData sign then target.text?.toList.map (.target sign) else [])
      ++ heard target
  | .commandSubstitution body | .processSubstitution body => heard body
  | .parameter name => [.parameter name]
  | .channel _ | .reserved _ | .operator _ | .pipe _ | .tilde _ | .heredoc _ | .unknown _
  | .incomplete => []

/-- What a walk through trees meets. -/
def heardAll : List Node → List Heard
  | [] => []
  | node :: rest => heard node ++ heardAll rest

end

mutual

/-- Whether a walk finds all that it looks for: nodes of known kinds with all that belongs to
    them, and texts where targets are remembered. -/
def isComplete : Node → Bool
  | .command parts | .list parts | .pipeline parts | .branch parts | .forLoop parts
  | .whileLoop parts | .untilLoop parts | .function parts | .word _ parts => areComplete parts
  | .compound body redirects => areComplete body && areComplete redirects
  | .redirect _ sign target =>
    (!Invocation.redirectsData sign || target.text?.isSome) && isComplete target
  | .commandSubstitution body | .processSubstitution body => isComplete body
  | .unknown _ | .incomplete => false
  | .assignment _ _ | .channel _ | .reserved _ | .operator _ | .pipe _ | .parameter _ | .tilde _
  | .heredoc _ => true

/-- Whether a walk through trees finds all that it looks for. -/
def areComplete : List Node → Bool
  | [] => true
  | node :: rest => isComplete node && areComplete rest

end

end Shell.Node

/-! ## Gathering is taking in what is met -/

namespace Invocation

open Session (tellUnknown)

/-- Takes in what is met. -/
def hear (inv : Invocation) : Heard → Invocation
  | .word text => inv.takeWord text
  | .target sign text => { inv with redirection := some (sign, text) }
  | .parameter name => { inv with parameters := inv.parameters ++ [name] }
  | .assigned => { inv with isCommand := false }
  | .ended => inv.closed

/-- A gathering that takes in some events one after the other, or fails from everywhere. -/
structure Hears (complete : Bool) (events : List Heard) (x : Gathering Unit) : Prop where
  ends : complete = true → ∀ inv s, (x.run inv).outcome s = .ok ((), events.foldl hear inv)
  fails : complete = false → ∀ inv s, ∃ failure, (x.run inv).outcome s = .error failure

namespace Hears

variable {x y : Gathering Unit} {complete complete' : Bool} {events more : List Heard}

theorem nothing : Hears true [] (pure ()) where
  ends _ _ _ := rfl
  fails h := nomatch h

theorem modify {g : Invocation → Invocation} {event : Heard} (h : ∀ inv, hear inv event = g inv) :
    Hears true [event] (modify g) where
  ends _ inv _ := by rw [List.foldl_cons, List.foldl_nil, h]; rfl
  fails h := nomatch h

theorem fail (failure : Failure) : Hears false events (throw failure) where
  ends h := nomatch h
  fails _ _ _ := ⟨failure, rfl⟩

/-- What two walks hear, the one and then the other; if the first is cut off, the second hears
    nothing, and the whole is not complete. -/
theorem seq (hx : Hears complete events x) (hy : Hears complete' more y) :
    Hears (complete && complete') (events ++ more) (x >>= fun _ => y) where
  ends h inv s := by
    rw [Bool.and_eq_true] at h
    have hrun := Step.run_eq (x.run inv) s
    rw [hx.ends h.1] at hrun
    rw [StateT.run_bind, Step.outcome, Step.run_bind_ok hrun, List.foldl_append]
    exact hy.ends h.2 _ _
  fails h inv s := by
    rw [StateT.run_bind]
    have hrun := Step.run_eq (x.run inv) s
    cases hcomplete : complete with
    | false =>
        obtain ⟨failure, hfailure⟩ := hx.fails hcomplete inv s
        rw [hfailure] at hrun
        exact ⟨failure, congrArg Prod.fst (Step.run_bind_error hrun _)⟩
    | true =>
        rw [hx.ends hcomplete] at hrun
        rw [hcomplete, Bool.true_and] at h
        rw [Step.outcome, Step.run_bind_ok hrun]
        exact hy.fails h _ _

/-- What is done to the session is not heard. -/
theorem lift {z : Step Unit} (h : ∀ s, z.outcome s = .ok ()) : Hears true [] (StateT.lift z) where
  ends _ inv s := by
    have hrun := Step.run_eq z s
    rw [h] at hrun
    exact congrArg Prod.fst (Step.run_bind_ok hrun _)
  fails h := nomatch h

/-- The end of a command is heard as such. -/
theorem close : Hears true [.ended] close where
  ends _ inv s := by
    have hrun := Step.run_eq (tellUnknown inv) s
    rw [Session.tellUnknown_outcome] at hrun
    rw [run_close, Step.outcome, Step.run_bind_ok hrun]
    rfl
  fails h := nomatch h

/-- A redirection of data is heard with its target, and cuts the gathering off if that has no
    text. -/
theorem takeRedirect (sign : String) (target : Node) :
    Hears (!redirectsData sign || target.text?.isSome)
      (if redirectsData sign then target.text?.toList.map (.target sign) else [])
      (takeRedirect sign target) := by
  unfold Invocation.takeRedirect
  cases redirectsData sign with
  | false => exact nothing
  | true =>
      cases target.text? with
      | none => exact fail _
      | some text => exact modify fun _ => rfl

/-- An assignment is heard if it takes effect; the parts below it are not gone through. -/
theorem assignment (text : String) (parts : List Node) (below : Gathering Unit) :
    Hears true (Node.assignment text parts).heard (visit (.assignment text parts) below) := by
  rw [Node.heard, visit]
  cases (Session.splitAssignment text).isSome with
  | false => exact nothing
  | true => exact seq (lift (Session.assignText_outcome text)) (modify fun _ => rfl)

mutual

/-- A walk through a tree hears what is met on it. -/
theorem walk : ∀ tree : Node, Hears tree.isComplete tree.heard (tree.walk visit)
  | .command parts => by
      rw [Node.walk, Node.isComplete, Node.heard, ← Bool.and_true (Node.areComplete parts)]
      exact seq (walkAll parts) close
  | .list parts | .pipeline parts | .branch parts | .forLoop parts | .whileLoop parts
  | .untilLoop parts | .function parts => by
      rw [Node.walk, Node.isComplete, Node.heard]
      exact walkAll parts
  | .compound body redirects => by
      rw [Node.walk, Node.isComplete, Node.heard]
      exact seq (walkAll body) (walkAll redirects)
  | .word text parts => by
      rw [Node.walk, Node.isComplete, Node.heard, ← Bool.true_and (Node.areComplete parts)]
      exact seq (modify fun _ => rfl) (walkAll parts)
  | .assignment text parts => by
      rw [Node.walk, Node.isComplete]
      exact assignment text parts _
  | .redirect source sign target => by
      rw [Node.walk, Node.isComplete, Node.heard]
      exact seq (takeRedirect sign target) (walk target)
  | .commandSubstitution body | .processSubstitution body => by
      rw [Node.walk, Node.isComplete, Node.heard]
      exact walk body
  | .parameter name => by
      rw [Node.walk, Node.isComplete, Node.heard]
      exact modify fun _ => rfl
  | .channel _ | .reserved _ | .operator _ | .pipe _ | .tilde _ | .heredoc _ => by
      rw [Node.walk, Node.isComplete, Node.heard]
      exact nothing
  | .unknown _ | .incomplete => by
      rw [Node.walk, Node.isComplete, Node.heard]
      exact fail _

theorem walkAll : ∀ trees : List Node,
    Hears (Node.areComplete trees) (Node.heardAll trees) (Node.walkAll visit trees)
  | [] => by
      rw [Node.walkAll, Node.areComplete, Node.heardAll]
      exact nothing
  | tree :: rest => by
      rw [Node.walkAll, Node.areComplete, Node.heardAll]
      exact seq (walk tree) (walkAll rest)

end

end Hears

/-- Gathering a complete tree ends well, with all that is met taken in. -/
theorem gather_ends (tree : Node) (h : tree.isComplete = true) (s : Session) :
    (gather tree).outcome s = .ok (tree.heard.foldl hear {}) := by
  have hrun := Step.run_eq ((tree.walk visit).run {}) s
  rw [(Hears.walk tree).ends h] at hrun
  exact congrArg Prod.fst (Step.run_bind_ok hrun _)

/-- A tree that is not complete cannot be gathered, from wherever it is tried. -/
theorem gather_fails (tree : Node) (h : tree.isComplete = false) (s : Session) :
    ∃ failure, (gather tree).outcome s = .error failure := by
  obtain ⟨failure, hfailure⟩ := (Hears.walk tree).fails h {} s
  have hrun := Step.run_eq ((tree.walk visit).run {}) s
  rw [hfailure] at hrun
  exact ⟨failure, congrArg Prod.fst (Step.run_bind_error hrun _)⟩

end Invocation

/-! ## What has been taken in -/

/-- The words of a command, parted; the first of them is the command itself. -/
def Sorted.ofSpoken : List String → Sorted
  | [] => {}
  | name :: words =>
    match Verb.ofName? name with
    | some verb => verb.row.sort words
    | none => {}

namespace Invocation

/-- Words do not change whether there is a command. -/
theorem isCommand_takeWord (inv : Invocation) (text : String) :
    (inv.takeWord text).isCommand = inv.isCommand := by
  unfold takeWord
  cases inv.command with
  | none => rfl
  | some name => rfl

/-- Nor does its end. -/
theorem isCommand_closed (inv : Invocation) : inv.closed.isCommand = inv.isCommand := by
  unfold closed
  cases inv.verb? with
  | none => rfl
  | some verb =>
      show (if inv.isCommand = true then inv.sortBy verb.row else inv).isCommand = _
      split
      · rfl
      · rfl

/-- An invocation that has taken in `spoken`, and has parted the words `parted` of it. -/
structure Follows (spoken parted : List String) (inv : Invocation) : Prop where
  command : inv.command = spoken.head?
  words : inv.words = spoken.tail
  sorted : inv.sorted = .ofSpoken parted
  parted_first : parted <+: spoken

namespace Follows

variable {spoken parted : List String} {inv : Invocation}

theorem start : Follows [] [] {} :=
  ⟨rfl, rfl, rfl, List.prefix_refl _⟩

/-- A word goes to the command if it is the first, and else behind the others, before words are
    parted or afterwards. -/
theorem takeWord (h : Follows spoken parted inv) (text : String) :
    Follows (spoken ++ [text]) parted (inv.takeWord text) := by
  have hfirst := h.parted_first.trans (List.prefix_append spoken [text])
  unfold Invocation.takeWord
  cases spoken with
  | nil =>
      have hnone : inv.command = none := h.command
      simp only [hnone]
      exact ⟨rfl, h.words, h.sorted, hfirst⟩
  | cons name words =>
      have hsome : inv.command = some name := h.command
      simp only [hsome]
      exact ⟨rfl, congrArg (· ++ [text]) h.words, h.sorted, hfirst⟩

/-- At the end of a command all words so far are parted anew. -/
theorem closed (h : Follows spoken parted inv) (hopen : inv.isCommand = true) :
    Follows spoken spoken inv.closed := by
  have hverb : inv.verb? = spoken.head?.bind Verb.ofName? := by rw [Invocation.verb?, h.command]
  unfold Invocation.closed
  cases hknown : inv.verb? with
  | some verb =>
      simp only [hopen, if_true]
      refine ⟨h.command, h.words, ?_, List.prefix_refl _⟩
      show verb.row.sort inv.words = _
      rw [hverb] at hknown
      rw [h.words]
      cases spoken with
      | nil => cases hknown
      | cons name words =>
          have hname : Verb.ofName? name = some verb := hknown
          simp only [Sorted.ofSpoken, hname, List.tail_cons]
  | none =>
      refine ⟨h.command, h.words, ?_, List.prefix_refl _⟩
      -- the words of a command that is not known are never parted
      rw [hverb] at hknown
      have hnever : ∀ words, words <+: spoken → Sorted.ofSpoken words = {} := by
        intro words hwords
        cases words with
        | nil => rfl
        | cons name rest =>
            obtain ⟨more, rfl⟩ := hwords
            have hname : Verb.ofName? name = none := hknown
            simp only [Sorted.ofSpoken, hname]
      rw [h.sorted, hnever parted h.parted_first, hnever spoken (List.prefix_refl _)]

/-- Behind an assignment nothing is parted any more. -/
theorem foldl_hear_of_assigned (events : List Heard) : ∀ {spoken inv},
    inv.isCommand = false → Follows spoken parted inv →
      Follows (spoken ++ Heard.words events) parted (events.foldl hear inv) := by
  induction events with
  | nil =>
      intro spoken inv _ h
      rwa [Heard.words_nil, List.append_nil]
  | cons event rest ih =>
      intro spoken inv hdone h
      rw [List.foldl_cons]
      cases event with
      | word text =>
          rw [Heard.words_cons_word, List.append_cons]
          exact ih (by rw [hear, isCommand_takeWord, hdone]) (h.takeWord text)
      | ended =>
          have hsame : inv.closed = inv := by
            unfold Invocation.closed
            cases inv.verb? with
            | none => rfl
            | some verb => simp [hdone]
          rw [hear, hsame]
          exact ih hdone h
      | target sign text => exact ih hdone ⟨h.command, h.words, h.sorted, h.parted_first⟩
      | parameter name => exact ih hdone ⟨h.command, h.words, h.sorted, h.parted_first⟩
      | assigned => exact ih rfl ⟨h.command, h.words, h.sorted, h.parted_first⟩

/-- **What has been taken in** when all events are over. -/
theorem foldl_hear (events : List Heard) : ∀ {spoken parted inv},
    inv.isCommand = true → Follows spoken parted inv →
      Follows (spoken ++ Heard.words events) (Heard.partedLast spoken parted events)
        (events.foldl hear inv) := by
  induction events with
  | nil =>
      intro spoken parted inv _ h
      rwa [Heard.words_nil, List.append_nil]
  | cons event rest ih =>
      intro spoken parted inv hopen h
      rw [List.foldl_cons]
      cases event with
      | word text =>
          rw [Heard.words_cons_word, List.append_cons]
          exact ih (by rw [hear, isCommand_takeWord, hopen]) (h.takeWord text)
      | ended => exact ih (by rw [hear, isCommand_closed, hopen]) (h.closed hopen)
      | target sign text => exact ih hopen ⟨h.command, h.words, h.sorted, h.parted_first⟩
      | parameter name => exact ih hopen ⟨h.command, h.words, h.sorted, h.parted_first⟩
      | assigned =>
          exact foldl_hear_of_assigned rest rfl ⟨h.command, h.words, h.sorted, h.parted_first⟩

end Follows

end Invocation

/-! ## Own words and others -/

namespace Shell.Node

/-- The word that a part of a command is. -/
def ownWord? : Node → Option String
  | .word text _ => some text
  | _ => none

/-- What is met within a part of a command, in its word or in the target of its redirection. -/
def within : Node → List Heard
  | .word _ nested => heardAll nested
  | node => node.heard

/-- The words that a command itself is made of. -/
def ownWords (parts : List Node) : List String :=
  parts.filterMap ownWord?

/-- The words that stand within the parts of a command. -/
def strayWords (parts : List Node) : List String :=
  parts.flatMap fun part => Heard.words part.within

/-- A part of a command without what stands within it. -/
def bare? : Node → Option Node
  | .word text _ => some (.word text [])
  | .assignment text nested => some (.assignment text nested)
  | _ => none

/-- Whether a command starts with an assignment. -/
def assignsFirst : List Node → Bool
  | .assignment text _ :: _ => (Session.splitAssignment text).isSome
  | _ => false

theorem ownWords_cons (part : Node) (rest : List Node) :
    ownWords (part :: rest) = part.ownWord?.toList ++ ownWords rest := by
  cases part with
  | _ => rfl

/-- Each part is met with its own word in front. -/
theorem words_heard (part : Node) :
    Heard.words part.heard = part.ownWord?.toList ++ Heard.words part.within := by
  cases part with
  | word text nested =>
      rw [heard]
      rfl
  | _ => rfl

/-- Own words come in their order, each with the words within it behind it. -/
theorem ownWords_sublist (parts : List Node) :
    (ownWords parts).Sublist (Heard.words (heardAll parts)) := by
  induction parts with
  | nil => exact List.Sublist.refl _
  | cons part rest ih =>
      rw [heardAll, Heard.words_append, words_heard, ownWords_cons, List.append_assoc]
      exact (List.Sublist.refl _).append (ih.trans (List.sublist_append_right _ _))

/-- Every word that is heard is the command's own or a stray one. -/
theorem length_words (parts : List Node) :
    (Heard.words (heardAll parts)).length
      = (ownWords parts).length + (strayWords parts).length := by
  induction parts with
  | nil => rfl
  | cons part rest ih =>
      rw [heardAll, Heard.words_append, words_heard, ownWords_cons]
      simp only [strayWords, List.flatMap_cons, List.length_append] at ih ⊢
      omega

/-- A command has only its own words exactly if none stands within it. -/
theorem words_eq_ownWords_iff (parts : List Node) :
    Heard.words (heardAll parts) = ownWords parts ↔ strayWords parts = [] := by
  constructor
  · intro h
    have hlength := length_words parts
    rw [h] at hlength
    exact List.eq_nil_of_length_eq_zero (by omega)
  · intro h
    have hlength := length_words parts
    rw [h] at hlength
    exact ((ownWords_sublist parts).eq_of_length hlength.symm).symm

/-! ### The bare command -/

/-- Bare parts have nothing below them to be cut off at. -/
theorem areComplete_bare (parts : List Node) : areComplete (parts.filterMap bare?) = true := by
  induction parts with
  | nil => rfl
  | cons part rest ih =>
      cases part with
      | word text nested => exact ih
      | assignment text nested => exact ih
      | _ => exact ih

theorem words_assignment (text : String) (nested : List Node) :
    Heard.words (Node.assignment text nested).heard = [] := by
  rw [heard]
  split
  · rfl
  · rfl

/-- The words of the bare parts are the own words. -/
theorem words_bare (parts : List Node) :
    Heard.words (heardAll (parts.filterMap bare?)) = ownWords parts := by
  induction parts with
  | nil => rfl
  | cons part rest ih =>
      cases part with
      | word text nested => exact congrArg (text :: ·) ih
      | assignment text nested =>
          show Heard.words (heardAll (.assignment text nested :: rest.filterMap bare?)) = _
          rw [heardAll, Heard.words_append, words_assignment]
          exact ih
      | _ => exact ih

/-- An assignment among the bare parts is one among all parts. -/
theorem assigned_of_bare {parts : List Node} (h : .assigned ∈ heardAll (parts.filterMap bare?)) :
    .assigned ∈ heardAll parts := by
  induction parts with
  | nil => exact h
  | cons part rest ih =>
      rw [heardAll, List.mem_append]
      cases part with
      | word text nested =>
          have hrest : .assigned ∈ heardAll (rest.filterMap bare?) :=
            List.mem_of_ne_of_mem (by simp) h
          exact .inr (ih hrest)
      | assignment text nested => exact (List.mem_append.mp h).imp_right ih
      | _ => exact .inr (ih h)

/-- The words of a command as they are parted in the end. -/
def sorted (parts : List Node) : Sorted :=
  .ofSpoken (Heard.partedLast [] [] (heardAll parts ++ [.ended]))

/-- Where nothing is assigned, all words that are met are parted. -/
theorem sorted_of_not_assigned {parts : List Node} (h : .assigned ∉ heardAll parts) :
    sorted parts = .ofSpoken (Heard.words (heardAll parts)) := by
  rw [sorted, Heard.partedLast_of_not_mem h, List.nil_append]

/-- Behind an assignment no word is parted. -/
theorem sorted_of_assignsFirst {parts : List Node} (h : assignsFirst parts = true) :
    sorted parts = {} := by
  unfold assignsFirst at h
  split at h
  · rw [sorted, heardAll, heard, if_pos h]
    rfl
  · exact nomatch h

/-- An assignment in front stays in front when parts are made bare. -/
theorem assignsFirst_bare {parts : List Node} (h : assignsFirst parts = true) :
    assignsFirst (parts.filterMap bare?) = true := by
  unfold assignsFirst at h
  split at h
  · exact h
  · exact nomatch h

end Shell.Node

namespace Invocation

open Shell.Node (heardAll ownWords strayWords assignsFirst)

/-- Two invocations of one command with the same words, operands and options. -/
def Agrees (inv other : Invocation) : Prop :=
  inv.command = other.command ∧ inv.words = other.words ∧
    inv.sorted.operands = other.sorted.operands ∧ inv.sorted.options = other.sorted.options

theorem head?_tail_eq_iff (words others : List String) :
    words.head? = others.head? ∧ words.tail = others.tail ↔ words = others := by
  cases words with
  | nil => cases others with | _ => simp
  | cons word rest => cases others with | _ => simp

/-- What is gathered from a complete command. -/
theorem gather_command {parts : List Node} (h : Node.areComplete parts = true) (s : Session) :
    ∃ inv, (gather (.command parts)).outcome s = .ok inv ∧
      inv.command = (Heard.words (heardAll parts)).head? ∧
      inv.words = (Heard.words (heardAll parts)).tail ∧ inv.sorted = Node.sorted parts := by
  have hwords : Heard.words (Node.command parts).heard = Heard.words (heardAll parts) := by
    rw [Node.heard, Heard.words_append]
    exact List.append_nil _
  have hfollows := Follows.start.foldl_hear (Node.command parts).heard rfl
  rw [List.nil_append, hwords, Node.heard] at hfollows
  refine ⟨_, gather_ends (.command parts) h s, ?_⟩
  rw [Node.heard]
  exact ⟨hfollows.command, hfollows.words, hfollows.sorted⟩

/-- **An invocation is made of the command's own words exactly if no others are on the way.**  A
    command is gathered exactly if it is complete.  The first of all words on the walk is then the
    command, the others are its words, and they are parted as far as they were there in front of
    the first assignment.  So the command is the first of its own words, and its words are the
    others, exactly if no word stands within them or in a redirection.  The invocation is that of
    the bare command, which has no redirections and nothing within its words, exactly if moreover
    the words that were parted last give the same operands and options; and that they do if
    assignments stand in front of the command only. -/
theorem invocation_of_own_words_iff (parts : List Node) (s : Session) :
    (Node.areComplete parts = false →
      ∃ failure, (gather (.command parts)).outcome s = .error failure) ∧
    (Node.areComplete parts = true → ∃ inv bare,
      (gather (.command parts)).outcome s = .ok inv ∧
      (gather (.command (parts.filterMap Node.bare?))).outcome s = .ok bare ∧
      inv.command = (Heard.words (heardAll parts)).head? ∧
      inv.words = (Heard.words (heardAll parts)).tail ∧
      inv.sorted = Node.sorted parts ∧
      (inv.command = (ownWords parts).head? ∧ inv.words = (ownWords parts).tail ↔
        strayWords parts = []) ∧
      (inv.Agrees bare ↔ strayWords parts = [] ∧
        (Node.sorted parts).operands = (Node.sorted (parts.filterMap Node.bare?)).operands ∧
        (Node.sorted parts).options = (Node.sorted (parts.filterMap Node.bare?)).options) ∧
      (assignsFirst parts = true ∨ .assigned ∉ heardAll parts →
        (inv.Agrees bare ↔ strayWords parts = []))) := by
  constructor
  · exact fun h => gather_fails (.command parts) h s
  · intro h
    obtain ⟨inv, hinv, hcommand, hwords, hsorted⟩ := gather_command h s
    obtain ⟨bare, hbare, hbareCommand, hbareWords, hbareSorted⟩ :=
      gather_command (Node.areComplete_bare parts) s
    rw [Node.words_bare] at hbareCommand hbareWords
    have hown : inv.command = (ownWords parts).head? ∧ inv.words = (ownWords parts).tail ↔
        strayWords parts = [] := by
      rw [hcommand, hwords, ← Node.words_eq_ownWords_iff]
      exact head?_tail_eq_iff _ _
    have hagrees : inv.Agrees bare ↔ strayWords parts = [] ∧
        (Node.sorted parts).operands = (Node.sorted (parts.filterMap Node.bare?)).operands ∧
        (Node.sorted parts).options = (Node.sorted (parts.filterMap Node.bare?)).options := by
      rw [Agrees, ← hown, hbareCommand, hbareWords, hsorted, hbareSorted, and_assoc]
    refine ⟨inv, bare, hinv, hbare, hcommand, hwords, hsorted, hown, hagrees, fun hassign => ?_⟩
    rw [hagrees, and_iff_left_iff_imp]
    intro hstray
    suffices hsame : Node.sorted parts = Node.sorted (parts.filterMap Node.bare?) by
      rw [hsame]
      exact ⟨rfl, rfl⟩
    rcases hassign with hfirst | hnone
    · rw [Node.sorted_of_assignsFirst hfirst,
        Node.sorted_of_assignsFirst (Node.assignsFirst_bare hfirst)]
    · rw [Node.sorted_of_not_assigned hnone,
        Node.sorted_of_not_assigned fun hmem => hnone (Node.assigned_of_bare hmem),
        (Node.words_eq_ownWords_iff parts).mpr hstray, Node.words_bare]

/-- `apt install vim > /tmp/log` has three words of its own, but the log becomes a package. -/
theorem redirected_install_takes_target :
    let parts : List Node := [.word "apt" [], .word "install" [], .word "vim" [],
      .redirect none ">" (.word "/tmp/log" [])]
    let s : Session := { settings := {}, registers := {} }
    Node.areComplete parts = true ∧ ownWords parts = ["apt", "install", "vim"] ∧
      ∃ inv bare, (gather (.command parts)).outcome s = .ok inv ∧
        (gather (.command (parts.filterMap Node.bare?))).outcome s = .ok bare ∧
        inv.words = ["install", "vim", "/tmp/log"] ∧
        inv.sorted.operands = ["vim", "/tmp/log"] ∧ ¬ inv.Agrees bare := by
  intro parts s
  obtain ⟨inv, bare, hinv, hbare, -, hwords, hsorted, -, -, hagrees⟩ :=
    (invocation_of_own_words_iff parts s).2 rfl
  refine ⟨rfl, rfl, inv, bare, hinv, hbare, hwords, ?_, ?_⟩
  · rw [hsorted]
    rfl
  · rw [hagrees (.inr (by decide))]
    decide

end Invocation

end Playscript
