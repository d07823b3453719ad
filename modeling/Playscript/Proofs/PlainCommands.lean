import Playscript.Proofs.Commands

/-! # Commands of plain words

    A plain part of a command is an assignment, a word in which no other command stands, or a
    redirection to such a word.  Gathering plain parts is taking them in one after the other
    (`Invocation.take`), which looks at nothing in the session; the assignments among them
    take effect on the way.  At the end the words are parted by the row of the
    command, or the user is told that there is none (`gather_plain`).  So the gathering of plain
    parts never fails, and without assignments it does nothing else to the session than to
    tell. -/

namespace Playscript

open Shell (Node)

namespace Shell.Node

/-- Whether an expansion in a word runs no command. -/
def isPlainExpansion : Node → Bool
  | .parameter _ | .tilde _ => true
  | _ => false

/-- Whether a node is a word in which no command stands. -/
def isPlainWord : Node → Bool
  | .word _ parts => parts.all isPlainExpansion
  | _ => false

def isAssignment : Node → Bool
  | .assignment _ _ => true
  | _ => false

def isChannel : Node → Bool
  | .channel _ => true
  | _ => false

/-- Whether a node is an assignment, a plain word, or a redirection to one; a redirection
    whose target is not remembered may join a channel. -/
def isPlainPart : Node → Bool
  | .assignment _ _ => true
  | .redirect _ sign target =>
    target.isPlainWord || (!Invocation.redirectsData sign && target.isChannel)
  | node => node.isPlainWord

/-- The parameters among the expansions of a word. -/
def parameterNames (parts : List Node) : List String :=
  parts.filterMap fun
    | .parameter name => some name
    | _ => none

/-- The word that a part adds to those of its command; the target of a redirection is one too. -/
def takenWord? : Node → Option String
  | .word text _ => some text
  | .redirect _ _ (.word text _) => some text
  | _ => none

/-- The words that parts add. -/
def takenWords (parts : List Node) : List String :=
  parts.filterMap takenWord?

/-- The redirection that a part notes. -/
def noted? : Node → Option (String × String)
  | .redirect _ sign target =>
    if Invocation.redirectsData sign then target.text?.map (sign, ·) else none
  | _ => none

end Shell.Node

namespace Invocation

/-- Takes a plain word in, with its parameters. -/
def takePlainWord (inv : Invocation) : Node → Invocation
  | .word text parts => { inv.takeWord text with parameters := Node.parameterNames parts }
  | _ => inv

/-- Takes a plain part in. -/
def take (inv : Invocation) : Node → Invocation
  | .assignment text _ =>
    if (Session.splitAssignment text).isSome then { inv with isCommand := false } else inv
  | .redirect _ sign target =>
    takePlainWord
      (if redirectsData sign then { inv with redirection := target.text?.map (sign, ·) } else inv)
      target
  | node => inv.takePlainWord node

/-- The invocation at the end of a command node. -/
def closed (inv : Invocation) : Invocation :=
  match inv.verb? with
  | some verb => if inv.isCommand then inv.sortBy verb.row else inv
  | none => inv

/-- The invocation that plain parts make. -/
def ofParts (parts : List Node) : Invocation :=
  (parts.foldl take {}).closed

end Invocation

namespace Session

/-- Does what a part assigns. -/
def assignPart : Node → Step Unit
  | .assignment text _ => assignText text
  | _ => pure ()

/-- Tells the user of a command that is not known. -/
def tellUnknown (inv : Invocation) : Step Unit :=
  if inv.isCommand && inv.verb?.isNone then
    say (" failed to find " ++ inv.command.getD "None")
  else pure ()

theorem tellUnknown_outcome (inv : Invocation) (s : Session) :
    (tellUnknown inv).outcome s = .ok () := by
  unfold tellUnknown
  split
  · rfl
  · rfl

/-- What parts assign is done without failing. -/
theorem run_assignParts (parts : List Node) (s : Session) :
    ∃ t, (parts.forM assignPart).run s = (.ok (), t) := by
  have hok : ∀ part ∈ parts, ∀ s, (assignPart part).outcome s = .ok () := by
    intro part _ s
    cases part with
    | assignment text below => exact assignText_outcome text s
    | _ => rfl
  exact ⟨(parts.forM assignPart).after s, by rw [Step.run_eq, Step.forM_outcome_ok hok s]⟩

/-- Without assignments there is nothing to assign. -/
theorem assignParts_eq_pure {parts : List Node}
    (h : ∀ part ∈ parts, part.isAssignment = false) : parts.forM assignPart = pure () := by
  induction parts with
  | nil => rfl
  | cons part rest ih =>
      have hpart : assignPart part = pure () := by
        cases part with
        | assignment text below => exact absurd (h _ List.mem_cons_self) (by simp [Node.isAssignment])
        | _ => rfl
      show (assignPart part >>= fun _ => rest.forM assignPart) = pure ()
      rw [hpart, ih fun other hother => h other (List.mem_cons_of_mem part hother)]
      rfl

end Session

namespace Invocation

open Session (assignPart tellUnknown assignText splitAssignment)

/-- The expansions of a plain word add its parameters. -/
theorem run_expansions (parts : List Node) (h : parts.all Node.isPlainExpansion = true) :
    ∀ inv : Invocation, (Node.walkAll visit parts).run inv
      = pure ((), { inv with parameters := inv.parameters ++ Node.parameterNames parts }) := by
  induction parts with
  | nil => intro inv; simp [Node.walkAll, Node.parameterNames]
  | cons part rest ih =>
      intro inv
      rw [List.all_cons, Bool.and_eq_true] at h
      have hrest := ih h.2
      cases part with
      | parameter name =>
          simp [Node.walkAll, Node.walk, visit, hrest, Node.parameterNames]
      | tilde text =>
          simp [Node.walkAll, Node.walk, visit, hrest, Node.parameterNames]
      | _ => simp [Node.isPlainExpansion] at h

theorem run_plainWord {node : Node} (h : node.isPlainWord = true) (inv : Invocation) :
    (node.walk visit).run inv = pure ((), inv.takePlainWord node) := by
  cases node with
  | word text parts =>
      have hparts := run_expansions parts h (inv.takeWord text)
      have hnone : (inv.takeWord text).parameters = [] := by
        unfold takeWord
        cases inv.command with
        | none => rfl
        | some name => rfl
      rw [hnone, List.nil_append] at hparts
      simpa [Node.walk, visit, takePlainWord] using hparts
  | _ => simp [Node.isPlainWord] at h

/-- A redirection notes its target, if it is to be remembered. -/
theorem run_takeRedirect {sign : String} {target : Node}
    (h : (redirectsData sign = true → target.text?.isSome)) (inv : Invocation) :
    (takeRedirect sign target).run inv = pure ((),
      if redirectsData sign then { inv with redirection := target.text?.map (sign, ·) }
      else inv) := by
  cases hdata : redirectsData sign with
  | false => simp [takeRedirect, hdata]
  | true =>
      obtain ⟨text, htext⟩ := Option.isSome_iff_exists.mp (h hdata)
      simp [takeRedirect, hdata, htext]

/-- A redirection takes its target in as a word, if it is one. -/
theorem run_redirect {source : Option Int} {sign : String} {target : Node}
    (h : (Node.redirect source sign target).isPlainPart = true) (inv : Invocation) :
    ((Node.redirect source sign target).walk visit).run inv
      = pure ((), inv.take (.redirect source sign target)) := by
  rw [Node.isPlainPart, Bool.or_eq_true, Bool.and_eq_true] at h
  rw [Node.walk, visit, StateT.run_bind]
  rcases h with hword | ⟨hdata, hchannel⟩
  · have htext : target.text?.isSome := by
      cases target with
      | word text parts => rfl
      | _ => simp [Node.isPlainWord] at hword
    rw [run_takeRedirect (fun _ => htext), pure_bind, run_plainWord hword]
    rfl
  · have hnone : redirectsData sign = false := by simpa using hdata
    cases target with
    | channel number =>
        rw [run_takeRedirect (by simp [hnone]), pure_bind, Node.walk]
        rfl
    | _ => simp [Node.isChannel] at hchannel

/-- A plain part is taken in, and what it assigns is done. -/
theorem run_plainPart {node : Node} (h : node.isPlainPart = true) (inv : Invocation) :
    (node.walk visit).run inv = (do assignPart node; pure ((), inv.take node)) := by
  cases node with
  | assignment text parts =>
      cases hsplit : (splitAssignment text).isSome with
      | true => simp [Node.walk, visit, hsplit, take, assignPart]
      | false =>
          have hnone : splitAssignment text = none := by simpa using hsplit
          simp [Node.walk, visit, take, assignPart, assignText, hnone]
  | redirect source sign target => simpa [assignPart] using run_redirect h inv
  | word text parts =>
      have hword : (Node.word text parts).isPlainWord = true := h
      simpa [assignPart, take] using run_plainWord hword inv
  | _ => simp [Node.isPlainPart, Node.isPlainWord] at h

/-- Plain parts are taken in one after the other. -/
theorem run_plainParts (parts : List Node) (h : ∀ part ∈ parts, part.isPlainPart = true) :
    ∀ inv : Invocation, (Node.walkAll visit parts).run inv
      = (do parts.forM assignPart; pure ((), parts.foldl take inv)) := by
  induction parts with
  | nil => intro inv; simp [Node.walkAll]
  | cons part rest ih =>
      intro inv
      have hpart := run_plainPart (h part List.mem_cons_self) inv
      have hrest := ih (fun other hother => h other (List.mem_cons_of_mem part hother))
      simp [Node.walkAll, hpart, hrest]

/-- At the end of a command node the words are parted, or the user is told. -/
theorem run_close (inv : Invocation) :
    close.run inv = (do tellUnknown inv; pure ((), inv.closed)) := by
  cases hc : inv.isCommand with
  | false =>
      have hclosed : inv.closed = inv := by
        unfold closed
        cases inv.verb? with
        | none => rfl
        | some verb => simp [hc]
      simp [close, tellUnknown, hc, hclosed]
  | true =>
      cases hv : inv.verb? with
      | none =>
          have hbind : inv.command.bind Verb.ofName? = none := hv
          simp [close, tellUnknown, hc, hv, hbind, closed]
      | some verb =>
          have hbind : inv.command.bind Verb.ofName? = some verb := hv
          simp [close, tellUnknown, hc, hv, hbind, closed]

/-- **Gathering plain parts takes them in and never fails.** -/
theorem gather_plain {parts : List Node} (h : ∀ part ∈ parts, part.isPlainPart = true) :
    gather (.command parts) = (do
      parts.forM assignPart
      tellUnknown (parts.foldl take {})
      pure (ofParts parts)) := by
  have hparts := run_plainParts parts h {}
  simp [gather, Node.walk, visit, hparts, run_close, ofParts]

/-- What a plain part adds to the invocation of a command that has a name: its word, if it is one,
    and its redirection, if that is noted. -/
theorem take_part {part : Node} (hplain : part.isPlainPart = true)
    (hassign : part.isAssignment = false) {inv : Invocation} {name : String}
    (hname : inv.command = some name) :
    ∃ parameters, inv.take part = { inv with
      words := inv.words ++ part.takenWord?.toList
      redirection := part.noted?.or inv.redirection
      parameters := parameters } := by
  cases part with
  | assignment text below => cases hassign
  | word text nested =>
      refine ⟨Node.parameterNames nested, ?_⟩
      simp [take, takePlainWord, takeWord, hname, Node.takenWord?, Node.noted?]
  | redirect source sign target =>
      cases target with
      | word text nested =>
          refine ⟨Node.parameterNames nested, ?_⟩
          cases hdata : redirectsData sign with
          | false =>
              simp [take, takePlainWord, takeWord, hname, Node.takenWord?, Node.noted?, hdata]
          | true =>
              simp [take, takePlainWord, takeWord, hname, Node.takenWord?, Node.noted?, hdata,
                Node.text?]
      | channel number =>
          have hdata : redirectsData sign = false := by
            simpa [Node.isPlainPart, Node.isPlainWord, Node.isChannel] using hplain
          refine ⟨inv.parameters, ?_⟩
          simp [take, takePlainWord, Node.takenWord?, Node.noted?, hdata]
      | _ => simp [Node.isPlainPart, Node.isPlainWord, Node.isChannel] at hplain
  | _ => cases hplain

/-- Parts behind a command are taken in: their words in their order, and the last redirection. -/
theorem foldl_take_parts (parts : List Node) :
    (∀ part ∈ parts, part.isPlainPart = true) →
    (∀ part ∈ parts, part.isAssignment = false) →
    ∀ {inv : Invocation} {name : String}, inv.command = some name →
      ∃ parameters, parts.foldl take inv = { inv with
        words := inv.words ++ Node.takenWords parts
        redirection := (parts.filterMap Node.noted?).getLast?.or inv.redirection
        parameters := parameters } := by
  induction parts with
  | nil =>
      intro _ _ inv name _
      exact ⟨inv.parameters, by simp [Node.takenWords]⟩
  | cons part rest ih =>
      intro hplain hassign inv name hname
      obtain ⟨hpart, hrest⟩ := List.forall_mem_cons.mp hplain
      obtain ⟨hpart', hrest'⟩ := List.forall_mem_cons.mp hassign
      obtain ⟨first, hfirst⟩ := take_part hpart hpart' hname
      have hname' : (inv.take part).command = some name := by
        rw [hfirst]
        exact hname
      obtain ⟨parameters, hfold⟩ := ih hrest hrest' hname'
      refine ⟨parameters, ?_⟩
      rw [List.foldl_cons, hfold, hfirst]
      have hwords : part.takenWord?.toList ++ Node.takenWords rest
          = Node.takenWords (part :: rest) := by
        cases hword : part.takenWord? with
        | none => simp [Node.takenWords, hword]
        | some word => simp [Node.takenWords, hword]
      have hnoted : (rest.filterMap Node.noted?).getLast?.or (part.noted?.or inv.redirection)
          = ((part :: rest).filterMap Node.noted?).getLast?.or inv.redirection := by
        cases hnote : part.noted? with
        | none => rw [List.filterMap_cons_none hnote, Option.none_or]
        | some note =>
            rw [List.filterMap_cons_some hnote, List.getLast?_cons, Option.some_or]
            cases (rest.filterMap Node.noted?).getLast? with
            | none => rfl
            | some last => rfl
      rw [← hwords, ← hnoted, List.append_assoc]

/-- The words that are parted do not change what is invoked. -/
theorem verb?_ofParts (parts : List Node) :
    (ofParts parts).verb? = (parts.foldl take {}).verb? := by
  unfold ofParts closed
  cases h : (parts.foldl take {}).verb? with
  | none => exact h
  | some verb =>
      cases (parts.foldl take {}).isCommand with
      | false => exact h
      | true => exact h

/-- Gathering plain parts ends well from every session. -/
theorem run_gather_plain {parts : List Node} (h : ∀ part ∈ parts, part.isPlainPart = true)
    {s t : Session} (hassign : (parts.forM assignPart).run s = (.ok (), t)) :
    (gather (.command parts)).run s
      = (.ok (ofParts parts), (tellUnknown (parts.foldl take {})).after t) := by
  have htell : (tellUnknown (parts.foldl take {})).run t
      = (.ok (), (tellUnknown (parts.foldl take {})).after t) := by
    rw [Step.run_eq, Session.tellUnknown_outcome]
  rw [gather_plain h, Step.run_bind_ok hassign, Step.run_bind_ok htell]
  rfl

end Invocation

end Playscript
