import Playscript.Proofs.Bodies
import Playscript.Proofs.CommandTasks

/-! # Assignments in front of a command

    A command node in which an assignment stands has its words gathered like any other, but they
    are never parted, so it has no operands, no options and no subcommand.  Nothing else is
    different: the walk goes the same way from an invocation whose words are to be parted and from
    one whose words are not (`GathersAlike`).  So a known command behind assignments is done as if
    no word stood behind it, from the session that the assignments lead to; that is as it is done
    without them exactly if it makes no use of its words (`Session.command_behind_assignments_iff`).
    Most commands then fail for want of an operand, and the package managers do nothing. -/

namespace Playscript

open Shell (Node)

namespace Invocation

/-- An invocation whose words are not parted. -/
def unparted (inv : Invocation) : Invocation :=
  { inv with subcommand := none, sorted := {}, isCommand := false }

/-- How a gathering ends for a known command, whether its words are parted or not: it fails in the
    same way, or it takes in the same. -/
inductive EndsAlike (verb : Verb) (x : Gathering Unit) (inv : Invocation) (s : Session) : Prop where
  | fails (failure : Failure) (t : Session) (run : (x.run inv).run s = (.error failure, t))
      (run_unparted : (x.run inv.unparted).run s = (.error failure, t))
  | ends (out : Invocation) (t : Session) (run : (x.run inv).run s = (.ok ((), out), t))
      (run_unparted : (x.run inv.unparted).run s = (.ok ((), out.unparted), t))
      (command : out.command = some verb.name)

/-- A gathering that goes the same way whether the words of a known command are parted or not. -/
def GathersAlike (verb : Verb) (x : Gathering Unit) : Prop :=
  ∀ inv s, inv.command = some verb.name → EndsAlike verb x inv s

namespace GathersAlike

variable {verb : Verb} {x y : Gathering Unit}

theorem nothing : GathersAlike verb (pure ()) :=
  fun inv s hname => .ends inv s rfl rfl hname

theorem fail (failure : Failure) : GathersAlike verb (throw failure) :=
  fun _ s _ => .fails failure s rfl rfl

/-- Two gatherings that go alike, one after the other: the invocations that the first leaves are
    alike again. -/
theorem seq (hx : GathersAlike verb x) (hy : GathersAlike verb y) :
    GathersAlike verb (x >>= fun _ => y) := by
  intro inv s hname
  cases hx inv s hname with
  | fails failure t run run_unparted =>
      refine .fails failure t ?_ ?_
      · rw [StateT.run_bind, Step.run_bind_error run]
      · rw [StateT.run_bind, Step.run_bind_error run_unparted]
  | ends out t run run_unparted command =>
      have hrun : ((x >>= fun _ => y).run inv).run s = (y.run out).run t := by
        rw [StateT.run_bind, Step.run_bind_ok run]
      have hrun_unparted : ((x >>= fun _ => y).run inv.unparted).run s
          = (y.run out.unparted).run t := by
        rw [StateT.run_bind, Step.run_bind_ok run_unparted]
      cases hy out t command with
      | fails failure u run run_unparted =>
          exact .fails failure u (hrun.trans run) (hrun_unparted.trans run_unparted)
      | ends last u run run_unparted command =>
          exact .ends last u (hrun.trans run) (hrun_unparted.trans run_unparted) command

theorem of_modify {g : Invocation → Invocation}
    (hunparted : ∀ inv : Invocation, inv.command = some verb.name →
      g inv.unparted = (g inv).unparted)
    (hcommand : ∀ inv : Invocation, inv.command = some verb.name → (g inv).command = inv.command) :
    GathersAlike verb (modify g) := by
  intro inv s hname
  refine .ends (g inv) s rfl ?_ ((hcommand inv hname).trans hname)
  rw [← hunparted inv hname]
  rfl

/-- What is done to the session is done either way. -/
theorem lift {z : Step Unit} (h : ∀ s, z.outcome s = .ok ()) :
    GathersAlike verb (StateT.lift z) := by
  intro inv s hname
  have hrun := Step.run_eq z s
  rw [h] at hrun
  exact .ends inv (z.after s) (Step.run_bind_ok hrun _) (Step.run_bind_ok hrun _) hname

theorem takeWord (text : String) : GathersAlike verb (modify fun inv => inv.takeWord text) := by
  refine of_modify (fun inv hname => ?_) (fun inv hname => ?_)
  · have hname' : inv.unparted.command = some verb.name := hname
    rw [Invocation.takeWord, Invocation.takeWord, hname, hname']
    rfl
  · rw [Invocation.takeWord, hname]

/-- At the end of a command node the words are parted or not; of a known command nothing is told. -/
theorem close : GathersAlike verb close := by
  intro inv s hname
  have hverb : Verb.ofName? verb.name = some verb := (Session.ofName?_eq_some_iff _ _).mpr rfl
  have hknown : inv.command.bind Verb.ofName? = some verb := by
    rw [hname]
    exact hverb
  have hunparted : (Invocation.close.run inv.unparted).run s = (.ok ((), inv.unparted), s) := rfl
  cases hc : inv.isCommand with
  | true =>
      refine .ends (inv.sortBy verb.row) s ?_ hunparted hname
      simp [Invocation.close, hc, hknown]
  | false =>
      refine .ends inv s ?_ hunparted hname
      simp [Invocation.close, hc]

theorem takeRedirect (sign : String) (target : Node) :
    GathersAlike verb (takeRedirect sign target) := by
  unfold Invocation.takeRedirect
  split
  · cases target.text? with
    | some text => exact of_modify (fun _ _ => rfl) (fun _ _ => rfl)
    | none => exact fail _
  · exact nothing

/-- By the kind of node: nothing that gathering takes in hangs on whether words are parted. -/
theorem visit (node : Node) {below : Gathering Unit} (h : GathersAlike verb below) :
    GathersAlike verb (visit node below) := by
  cases node with
  | word text parts => exact (takeWord text).seq h
  | command parts => exact h.seq close
  | redirect source sign target => exact (takeRedirect sign target).seq h
  | assignment text parts =>
      show GathersAlike verb (if (Session.splitAssignment text).isSome then _ else _)
      split
      · exact (lift (Session.assignText_outcome text)).seq
          (of_modify (fun _ _ => rfl) (fun _ _ => rfl))
      · exact nothing
  | parameter name => exact of_modify (fun _ _ => rfl) (fun _ _ => rfl)
  | list | pipeline | compound | branch | forLoop | whileLoop | untilLoop | function
  | channel | commandSubstitution | processSubstitution | reserved | operator | pipe | tilde
  | heredoc | unknown | incomplete => exact h

/-- Whatever trees stand behind a known command, gathering them goes the same way. -/
theorem walkAll (trees : List Node) :
    GathersAlike verb (Node.walkAll Invocation.visit trees) := by
  have h : Node.Lockstep (fun x _ => GathersAlike verb x) Invocation.visit Invocation.visit :=
    { nothing := nothing
      seq := seq
      fail := fail
      node := fun node _ _ h => visit node h }
  exact h.walkAll trees

end GathersAlike

/-! ## Command nodes with assignments in front -/

end Invocation

namespace Shell.Node

/-- Whether a node is an assignment that takes effect. -/
def assigns : Node → Bool
  | .assignment text _ => (Session.splitAssignment text).isSome
  | _ => false

end Shell.Node

namespace Invocation

open Session (assignPart)

/-- Goes through the parts of a command node with what has been gathered before. -/
def gatherOn (inv : Invocation) (parts : List Node) : Step Invocation := do
  let (_, out) ← ((Node.command parts).walk visit).run inv
  return out

/-- Assignments in front leave an invocation as it is, except that it does not count as a command
    any more if one of them takes effect. -/
theorem foldl_take_assignments (assignments : List Node) :
    (∀ part ∈ assignments, part.isAssignment = true) → ∀ inv : Invocation,
      assignments.foldl take inv
        = { inv with isCommand := inv.isCommand && !assignments.any Node.assigns } := by
  induction assignments with
  | nil =>
      intro _ inv
      rw [List.any_nil, Bool.not_false, Bool.and_true]
      rfl
  | cons part rest ih =>
      intro h inv
      obtain ⟨hpart, hrest⟩ := List.forall_mem_cons.mp h
      cases part with
      | assignment text below =>
          rw [List.foldl_cons, ih hrest, List.any_cons, take, Node.assigns]
          cases (Session.splitAssignment text).isSome with
          | false => rfl
          | true => rw [if_pos rfl, Bool.true_or, Bool.not_true, Bool.and_false, Bool.false_and]
      | _ => cases hpart

/-- Assignments in front are done, and decide whether the words behind them are parted. -/
theorem run_gather_behind {assignments : List Node}
    (hassign : ∀ part ∈ assignments, part.isAssignment = true) (parts : List Node) {s t : Session}
    (hrun : (assignments.forM assignPart).run s = (.ok (), t)) :
    (gather (.command (assignments ++ parts))).run s
      = (gatherOn { isCommand := !assignments.any Node.assigns } parts).run t := by
  have hplain : ∀ part ∈ assignments, part.isPlainPart = true := by
    intro part hpart
    have := hassign part hpart
    cases part with
    | assignment text below => rfl
    | _ => cases this
  have hwalk : ((Node.command (assignments ++ parts)).walk visit).run {} = (do
      assignments.forM assignPart
      ((Node.command parts).walk visit).run { isCommand := !assignments.any Node.assigns }) := by
    rw [Node.walk, Node.walk, visit, visit, Node.walkAll_append, bind_assoc, StateT.run_bind,
      run_plainParts assignments hplain, foldl_take_assignments assignments hassign, bind_assoc]
    rfl
  rw [gather, hwalk, bind_assoc, Step.run_bind_ok hrun]
  rfl

/-- The words of a known command are gathered to the same end, whether they are parted or not. -/
theorem run_gatherOn_known (verb : Verb) (nested rest : List Node) (t : Session) :
    (∃ failure u,
      (gather (.command (.word verb.name nested :: rest))).run t = (.error failure, u) ∧
      (gatherOn { isCommand := false } (.word verb.name nested :: rest)).run t
        = (.error failure, u)) ∨
    (∃ inv u, (gather (.command (.word verb.name nested :: rest))).run t = (.ok inv, u) ∧
      (gatherOn { isCommand := false } (.word verb.name nested :: rest)).run t
        = (.ok inv.unparted, u) ∧ inv.command = some verb.name) := by
  -- the first word names the command, and from there on the two gatherings go alike
  let behind : Gathering Unit := do
    Node.walkAll visit nested
    Node.walkAll visit rest
    close
  have hwalk : ∀ inv : Invocation, inv.command = none →
      ((Node.command (.word verb.name nested :: rest)).walk visit).run inv
        = behind.run { inv with command := some verb.name, parameters := [] } := by
    intro inv hnone
    rw [Node.walk, visit, Node.walkAll, Node.walk, visit, bind_assoc, bind_assoc]
    show behind.run (inv.takeWord verb.name) = _
    rw [takeWord, hnone]
  have halike : GathersAlike verb behind :=
    (GathersAlike.walkAll nested).seq ((GathersAlike.walkAll rest).seq .close)
  have hgather : gather (.command (.word verb.name nested :: rest)) = (do
      let (_, out) ← behind.run { command := some verb.name }
      return out) := by
    rw [gather, hwalk {} rfl]
  have hgatherOn : gatherOn { isCommand := false } (.word verb.name nested :: rest) = (do
      let (_, out) ← behind.run (unparted { command := some verb.name })
      return out) := by
    rw [gatherOn, hwalk _ rfl]
    rfl
  rw [hgather, hgatherOn]
  cases halike { command := some verb.name } t rfl with
  | fails failure u run run_unparted =>
      exact .inl ⟨failure, u, Step.run_bind_error run _, Step.run_bind_error run_unparted _⟩
  | ends out u run run_unparted command =>
      exact .inr ⟨out, u, Step.run_bind_ok run _, Step.run_bind_ok run_unparted _, command⟩

end Invocation

namespace Session

/-! ## Commands that make use of their words -/

/-- A command does with its words what it would not do without: it has a subcommand, or the
    operands that it looks up first. -/
def UsesWords (inv : Invocation) : Verb → Prop
  | .ldconfig | .ssh => False
  | .apt | .aptGet | .yum => ∃ name ∈ Verb.packageRow.subcommands, inv.subcommand = some name
  | .chown => ∃ first rest, inv.sorted.operands = first :: rest ∧
      (rest = [] → first.toList.count ':' ≠ 1)
  | .ln | .cp | .scp | .mv | .chmod => 2 ≤ inv.sorted.operands.length
  | .umask | .exporting | .mkdir | .touch | .gunzip | .echo => inv.sorted.operands ≠ []

theorem perform_unparted (verb : Verb) (inv : Invocation) :
    perform verb inv.unparted = perform verb {} := by
  cases verb <;> rfl

section Lookups

variable {verb : Verb} {inv : Invocation}

/-- All but `chown` fail in one way only: for want of an operand. -/
theorem run_perform_of_lacks (hverb : verb ≠ .chown)
    (h : LacksOperands verb.name inv.sorted.operands) (s : Session) :
    (perform verb inv).run s = (.error .missingOperand, s) := by
  have hnone : inv.sorted.operands = [] → inv.operand 0 = .error .missingOperand := by
    intro hnil
    rw [Invocation.operand, hnil]
    rfl
  have hshort : inv.sorted.operands.length < 2 → inv.operand 0 = .error .missingOperand ∨
      ∃ word, inv.operand 0 = .ok word ∧ inv.operand 1 = .error .missingOperand := by
    intro hlength
    unfold Invocation.operand
    generalize inv.sorted.operands = operands at hlength ⊢
    rcases operands with _ | ⟨word, _ | ⟨second, rest⟩⟩
    · exact .inl rfl
    · exact .inr ⟨word, rfl, rfl⟩
    · exact absurd hlength (by simp)
  cases verb with
  | chown => exact absurd rfl hverb
  | ssh | ldconfig | apt | aptGet | yum => simp [LacksOperands, Verb.name] at h
  | umask | exporting | mkdir | touch | gunzip | echo =>
      have hfirst := hnone (by simpa [LacksOperands, Verb.name] using h)
      simp [perform, umaskCommand, exportCommand, mkdirCommand, touchCommand, gunzipCommand,
        echoCommand, hfirst]
  | ln | cp | scp | mv | chmod =>
      rcases hshort (by simpa [LacksOperands, Verb.name] using h) with
        hfirst | ⟨word, hfirst, hsecond⟩
      · simp [perform, linkCommand, copyCommand, remoteCopyCommand, moveCommand, permissionCommand,
          hfirst]
      · simp [perform, linkCommand, copyCommand, remoteCopyCommand, moveCommand, permissionCommand,
          hfirst, hsecond]

/-- A command that looks up operands is done as without words if it lacks one of them. -/
theorem run_lookup_iff (hverb : verb ≠ .chown) (hempty : LacksOperands verb.name [])
    (huses : UsesWords inv verb ↔ ¬ LacksOperands verb.name inv.sorted.operands) (s : Session) :
    (perform verb {}).run s = (perform verb inv).run s ↔ ¬ UsesWords inv verb := by
  rw [@run_perform_of_lacks verb {} hverb hempty, huses, Classical.not_not]
  constructor
  · intro hrun
    rw [← perform_fails_iff verb inv s]
    exact ⟨.missingOperand, (congrArg Prod.fst hrun).symm⟩
  · intro hlacks
    exact (run_perform_of_lacks hverb hlacks s).symm

/-- `chown` looks at the owner and the group before it looks for a path. -/
theorem run_owner_iff (s : Session) :
    (ownerCommand {}).run s = (ownerCommand inv).run s ↔ ¬ UsesWords inv .chown := by
  have hempty : (ownerCommand {}).run s = (.error .missingOperand, s) := rfl
  rw [hempty, UsesWords]
  cases hoperands : inv.sorted.operands with
  | nil => simp [ownerCommand, Invocation.operand, hoperands]
  | cons first rest =>
      have hcount := ownerAndGroup_ok_iff first
      cases howners : ownerAndGroup first with
      | error failure =>
          -- wrong owners are found out first, so the failure is not that of a missing operand
          have hne : failure ≠ .missingOperand := by
            rintro rfl
            unfold ownerAndGroup at howners
            split at howners
            · cases howners
            · cases howners
            · cases howners
          have hcolon : first.toList.count ':' ≠ 1 := by
            intro hone
            obtain ⟨pair, hpair⟩ := hcount.mpr hone
            rw [howners] at hpair
            cases hpair
          have hrun : (ownerCommand inv).run s = (.error failure, s) := by
            simp [ownerCommand, Invocation.operand, hoperands, howners]
          rw [hrun]
          refine iff_of_false (fun heq => hne ?_) fun hnot => ?_
          · exact (Except.error.inj (congrArg Prod.fst heq)).symm
          · exact hnot ⟨first, rest, rfl, fun _ => hcolon⟩
      | ok pair =>
          have hcolon : first.toList.count ':' = 1 := hcount.mp ⟨pair, howners⟩
          cases rest with
          | nil => simp [ownerCommand, Invocation.operand, hoperands, howners, hcolon]
          | cons path more =>
              rw [run_ownerCommand s hoperands howners]
              refine iff_of_false (fun heq => ?_) fun hnot => ?_
              · cases congrArg Prod.fst heq
              · refine hnot ⟨first, path :: more, rfl, fun hnil => ?_⟩
                exact absurd hnil (List.cons_ne_nil path more)

theorem run_package_iff (command manager : String) (s : Session) :
    (packageCommand command manager {}).run s = (packageCommand command manager inv).run s
      ↔ ¬ ∃ name ∈ Verb.packageRow.subcommands, inv.subcommand = some name := by
  have hempty : packageCommand command manager {} = pure () := rfl
  rw [hempty]
  constructor
  · rintro hrun ⟨name, hname, hsub⟩
    have hnew : newTasks (pure ()) s = [] := List.drop_length
    exact newTasks_packageCommand s hname hsub ((newTasks_of_run hrun).symm.trans hnew)
  · intro hnone
    rw [packageCommand_eq_pure fun name hname hsub => hnone ⟨name, hname, hsub⟩]

/-- **A command is done as without words exactly if it makes no use of them.** -/
theorem run_perform_empty_iff (verb : Verb) (inv : Invocation) (s : Session) :
    (perform verb {}).run s = (perform verb inv).run s ↔ ¬ UsesWords inv verb := by
  cases verb with
  | ldconfig | ssh => exact ⟨fun _ h => h, fun _ => rfl⟩
  | apt => exact run_package_iff "apt" "apt" s
  | aptGet => exact run_package_iff "apt-get" "apt" s
  | yum => exact run_package_iff "yum" "yum" s
  | chown => exact run_owner_iff s
  | umask | exporting | mkdir | touch | gunzip | echo =>
      refine run_lookup_iff (by decide) ?_ ?_ s
      · simp [LacksOperands, Verb.name]
      · refine not_congr ?_
        simp [LacksOperands, Verb.name]
  | ln | cp | scp | mv | chmod =>
      refine run_lookup_iff (by decide) ?_ ?_ s
      · simp [LacksOperands, Verb.name]
      · refine Nat.not_lt.symm.trans (not_congr ?_)
        simp [LacksOperands, Verb.name]

end Lookups

/-! ## What assignments in front change -/

/-- Assignments alone are done, and nothing else is. -/
theorem run_command_assignments {assignments : List Node}
    (hassign : ∀ part ∈ assignments, part.isAssignment = true)
    (heffect : assignments.any Node.assigns = true) {s t : Session}
    (hrun : (assignments.forM assignPart).run s = (.ok (), t)) :
    (command (.command assignments)).run s = (.ok (), t) := by
  have hgather := Invocation.run_gather_behind hassign [] hrun
  rw [List.append_nil, heffect] at hgather
  have hnothing : (Invocation.gatherOn { isCommand := !true } []).run t
      = (.ok { isCommand := false }, t) := rfl
  rw [command, Step.run_bind_ok (hgather.trans hnothing)]
  rfl

/-- A command that names a known one is done with what has been gathered. -/
theorem run_command_of_gather {tree : Node} {verb : Verb} {inv : Invocation} {s t : Session}
    (hgather : (Invocation.gather tree).run s = (.ok inv, t))
    (hname : inv.command = some verb.name) : (command tree).run s = (perform verb inv).run t := by
  have hverb : inv.verb? = some verb := by
    rw [Invocation.verb?, hname]
    exact (ofName?_eq_some_iff _ _).mpr rfl
  rw [command, Step.run_bind_ok hgather, hverb]

section Behind

variable {verb : Verb} {nested parts assignments : List Node}

/-- Behind an assignment that takes effect a known command fails where it fails without it, and is
    else done as if it had no words. -/
theorem run_command_behind (hparts : parts.head? = some (.word verb.name nested))
    (hassign : ∀ part ∈ assignments, part.isAssignment = true)
    (heffect : assignments.any Node.assigns = true) {s t : Session}
    (hrun : (assignments.forM assignPart).run s = (.ok (), t)) :
    (∃ failure u, (Invocation.gather (.command parts)).run t = (.error failure, u) ∧
      (command (.command (assignments ++ parts))).run s = (.error failure, u)) ∨
    (∃ inv u, (Invocation.gather (.command parts)).run t = (.ok inv, u) ∧
      inv.command = some verb.name ∧
      (command (.command (assignments ++ parts))).run s = (perform verb {}).run u) := by
  obtain ⟨rest, rfl⟩ := List.head?_eq_some_iff.mp hparts
  have hgather := Invocation.run_gather_behind hassign (.word verb.name nested :: rest) hrun
  rw [heffect] at hgather
  rcases Invocation.run_gatherOn_known verb nested rest t with
    ⟨failure, u, halone, hunparted⟩ | ⟨inv, u, halone, hunparted, hname⟩
  · refine .inl ⟨failure, u, halone, ?_⟩
    rw [command, Step.run_bind_error (hgather.trans hunparted)]
  · refine .inr ⟨inv, u, halone, hname, ?_⟩
    rw [← perform_unparted verb inv]
    exact run_command_of_gather (hgather.trans hunparted) hname

/-- Behind assignments without effect a command is done as it is without them. -/
theorem run_command_behind_idle (hassign : ∀ part ∈ assignments, part.isAssignment = true)
    (hidle : assignments.any Node.assigns = false) {s t : Session}
    (hrun : (assignments.forM assignPart).run s = (.ok (), t)) :
    (command (.command (assignments ++ parts))).run s = (command (.command parts)).run t := by
  have hgather := Invocation.run_gather_behind hassign parts hrun
  rw [hidle] at hgather
  rw [command, command, Step.run_bind, Step.run_bind, hgather]
  rfl

/-- **A command behind assignments is done as if it had no words.**  Assignments in front of a known
    command, with whatever stands behind it, lead to a session, as they do in a command node of
    their own.  If one of them takes effect, the command behind them does there what it does
    without any words.  So it is done as it is there without the assignments if and only if none of
    them takes effect, or it makes no use of its words, or they cannot be gathered. -/
theorem command_behind_assignments_iff (hparts : parts.head? = some (.word verb.name nested))
    (hassign : ∀ part ∈ assignments, part.isAssignment = true) (s : Session) :
    ∃ t, (assignments.forM assignPart).run s = (.ok (), t) ∧
      (assignments.any Node.assigns = true →
        (command (.command assignments)).run s = (.ok (), t) ∧
        ∀ inv u, (Invocation.gather (.command parts)).run t = (.ok inv, u) →
          (command (.command (assignments ++ parts))).run s = (perform verb {}).run u) ∧
      ((command (.command (assignments ++ parts))).run s = (command (.command parts)).run t ↔
        (assignments.any Node.assigns = true →
          ∀ inv u, (Invocation.gather (.command parts)).run t = (.ok inv, u) →
            ¬ UsesWords inv verb)) := by
  obtain ⟨t, ht⟩ := run_assignParts assignments s
  refine ⟨t, ht, ?_⟩
  cases heffect : assignments.any Node.assigns with
  | false =>
      exact ⟨fun hfalse => absurd hfalse Bool.false_ne_true,
        fun _ hfalse => absurd hfalse Bool.false_ne_true,
        fun _ => run_command_behind_idle hassign heffect ht⟩
  | true =>
      have hassigned := run_command_assignments hassign heffect ht
      rcases run_command_behind hparts hassign heffect ht with
        ⟨failure, u, hgather, hbehind⟩ | ⟨inv, u, hgather, hname, hbehind⟩
      · have halone : (command (.command parts)).run t = (.error failure, u) := by
          rw [command, Step.run_bind_error hgather]
        have hnever : ∀ inv v, (Invocation.gather (.command parts)).run t ≠ (.ok inv, v) := by
          intro inv v hok
          rw [hgather] at hok
          cases congrArg Prod.fst hok
        exact ⟨fun _ => ⟨hassigned, fun inv v hok => absurd hok (hnever inv v)⟩,
          fun _ _ inv v hok => absurd hok (hnever inv v), fun _ => hbehind.trans halone.symm⟩
      · have honly : ∀ other v, (Invocation.gather (.command parts)).run t = (.ok other, v) →
            inv = other ∧ u = v := by
          intro other v hok
          have heq := hgather.symm.trans hok
          exact ⟨Except.ok.inj (congrArg Prod.fst heq), congrArg Prod.snd heq⟩
        refine ⟨fun _ => ⟨hassigned, fun other v hok => ?_⟩, ?_⟩
        · obtain ⟨-, rfl⟩ := honly other v hok
          exact hbehind
        · rw [hbehind, run_command_of_gather hgather hname, run_perform_empty_iff]
          constructor
          · intro hnot _ other v hok
            obtain ⟨rfl, -⟩ := honly other v hok
            exact hnot
          · intro hnot
            exact hnot rfl inv u hgather

end Behind

/-- `A=1 mkdir /x` fails for want of an operand, unlike `mkdir /x` after `A=1`. -/
theorem mkdir_behind_assignment :
    ∃ t, (command (.command [.assignment "A=1" []])).run {} = (.ok (), t) ∧
      (command (.command [.assignment "A=1" [], .word "mkdir" [], .word "/x" []])).run {}
        = (.error .missingOperand, t) ∧
      (command (.command [.assignment "A=1" [], .word "mkdir" [], .word "/x" []])).run {}
        ≠ (command (.command [.word "mkdir" [], .word "/x" []])).run t := by
  obtain ⟨t, -, heffect, hiff⟩ := @command_behind_assignments_iff .mkdir []
    [.word "mkdir" [], .word "/x" []] [.assignment "A=1" []] rfl (by decide) {}
  obtain ⟨hassigned, hempty⟩ := heffect rfl
  have hgather : (Invocation.gather (.command [.word "mkdir" [], .word "/x" []])).run t
      = (.ok (.ofParts [.word "mkdir" [], .word "/x" []]), t) :=
    Invocation.run_gather_plain (by decide) rfl
  refine ⟨t, hassigned, hempty _ t hgather, fun hsame => ?_⟩
  exact hiff.mp hsame rfl _ t hgather (List.cons_ne_nil "/x" [])

end Session

end Playscript
