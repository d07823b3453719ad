import Mathlib.Data.List.TakeWhile
import Playscript.Proofs.Effects

/-! # Which remote copies are let through

    A copy from another host needs leave to pull, one to another host leave to push.  A word
    is on another host if something stands before its first colon and no slash does, once the
    variables in it are written out.  The words of a copy are read differently: as they stand,
    by the pattern `[user@]host:path` (`RemotePath.isSome_host_iff`), in which a host may hold a
    slash and the path has to be there.  So the gate is right under all settings exactly if
    the two readings come to the same for both words (`RemoteCopy.gate_right_iff`). -/

namespace Playscript

open Shell (Node)

/-! ## How a word is read -/

namespace RemotePath

/-- A word on another host: something stands before its first colon, and no slash does. -/
def IsRemote (text : String) : Prop :=
  ∃ host behind, text.toList = host ++ ':' :: behind ∧ host ≠ [] ∧ ':' ∉ host ∧ '/' ∉ host

/-- The pattern `host:path`: the host holds no colon, the path is one line, and a line end may
    stand behind it. -/
def HostAndPath (cs : List Char) : Prop :=
  ∃ host path behind, cs = host ++ ':' :: (path ++ behind) ∧ host ≠ [] ∧ ':' ∉ host ∧
    path ≠ [] ∧ '\n' ∉ path ∧ (behind = [] ∨ behind = ['\n'])

/-- The pattern `[user@]host:path`: the user holds no at sign. -/
def ReadsRemote (text : String) : Prop :=
  (∃ user behind, text.toList = user ++ '@' :: behind ∧ user ≠ [] ∧ '@' ∉ user ∧
    HostAndPath behind) ∨ HostAndPath text.toList

/-- A text up to a mark, and what stands from the mark on. -/
theorem takeWhile_mark {mark : Char} {front behind : List Char} (hfront : mark ∉ front)
    (hbehind : ∀ c ∈ behind.head?, c = mark) :
    (front ++ behind).takeWhile (· != mark) = front ∧
      (front ++ behind).dropWhile (· != mark) = behind := by
  have hall : ∀ c ∈ front, (c != mark) = true := by
    intro c hc
    exact bne_iff_ne.mpr fun heq => hfront (heq ▸ hc)
  rw [List.takeWhile_append_of_pos hall, List.dropWhile_append_of_pos hall]
  cases behind with
  | nil => simp
  | cons c rest => simp [hbehind c rfl]

theorem mark_not_mem_takeWhile (mark : Char) (cs : List Char) :
    mark ∉ cs.takeWhile (· != mark) := by
  intro hmem
  simpa using List.mem_takeWhile_imp hmem

/-- A text is cut where the mark first stands. -/
theorem splitAtMark_eq_some_iff {mark : Char} {cs front behind : List Char} :
    splitAtMark mark cs = some (front, behind) ↔
      cs = front ++ mark :: behind ∧ front ≠ [] ∧ mark ∉ front := by
  constructor
  · intro h
    simp only [splitAtMark] at h
    split at h
    · exact nomatch h
    · next c rest hdrop =>
        split at h
        · exact nomatch h
        · next hne =>
            have hc : c = mark := by
              have hstop := List.head?_dropWhile_not (· != mark) cs
              simpa [hdrop] using hstop
            simp only [Option.some.injEq, Prod.mk.injEq] at h
            obtain ⟨rfl, rfl⟩ := h
            refine ⟨?_, by simpa using hne, mark_not_mem_takeWhile mark cs⟩
            rw [← hc, ← hdrop, hc, List.takeWhile_append_dropWhile]
  · rintro ⟨rfl, hne, hmark⟩
    have hhead : ∀ c ∈ (mark :: behind).head?, c = mark := by simp
    obtain ⟨htake, hdrop⟩ := takeWhile_mark hmark hhead
    simp [splitAtMark, htake, hdrop, hne]

/-- The one line that a text is; at most a line end stands behind it. -/
theorem oneLine?_eq_some_iff {cs path : List Char} : oneLine? cs = some path ↔
    path ≠ [] ∧ '\n' ∉ path ∧ (cs = path ∨ cs = path ++ ['\n']) := by
  have hcut := @List.takeWhile_append_dropWhile _ (· != '\n') cs
  constructor
  · intro h
    simp only [oneLine?, Option.ite_none_right_eq_some, Bool.and_eq_true, Bool.not_eq_true',
      List.isEmpty_eq_false_iff, Bool.or_eq_true, beq_iff_eq, Option.some.injEq] at h
    obtain ⟨⟨hne, hbehind⟩, rfl⟩ := h
    refine ⟨hne, mark_not_mem_takeWhile '\n' cs, hbehind.imp (fun hnone => ?_) fun hend => ?_⟩
    · rwa [hnone, List.append_nil, eq_comm] at hcut
    · rwa [hend, eq_comm] at hcut
  · rintro ⟨hne, hline, rfl | rfl⟩
    · obtain ⟨htake, hdrop⟩ := @takeWhile_mark _ _ [] hline (by simp)
      rw [List.append_nil] at htake hdrop
      simp [oneLine?, htake, hdrop, hne]
    · obtain ⟨htake, hdrop⟩ := @takeWhile_mark _ _ ['\n'] hline (by simp)
      simp [oneLine?, htake, hdrop, hne]

/-- A host and a path are read off the pattern, whoever the user is. -/
theorem hostAndPath?_eq_some_iff {user : Option (List Char)} {cs : List Char} {p : RemotePath} :
    hostAndPath? user cs = some p ↔ ∃ host behind path, cs = host ++ ':' :: behind ∧
      host ≠ [] ∧ ':' ∉ host ∧ oneLine? behind = some path ∧
      p = { user := user.map String.ofList, host := some (String.ofList host)
            path := String.ofList path } := by
  unfold hostAndPath?
  constructor
  · intro h
    split at h
    · cases h
    · next host behind hsplit =>
        obtain ⟨rfl, hhost, hcolon⟩ := splitAtMark_eq_some_iff.mp hsplit
        obtain ⟨path, hpath, rfl⟩ := Option.map_eq_some_iff.mp h
        exact ⟨host, behind, path, rfl, hhost, hcolon, hpath, rfl⟩
  · rintro ⟨host, behind, path, rfl, hhost, hcolon, hpath, rfl⟩
    simp [splitAtMark_eq_some_iff.mpr ⟨rfl, hhost, hcolon⟩, hpath]

theorem isSome_hostAndPath?_iff (user : Option (List Char)) (cs : List Char) :
    (hostAndPath? user cs).isSome = true ↔ HostAndPath cs := by
  rw [Option.isSome_iff_exists]
  simp only [hostAndPath?_eq_some_iff, oneLine?_eq_some_iff]
  constructor
  · rintro ⟨p, host, behind, path, rfl, hhost, hcolon, ⟨hne, hline, rfl | rfl⟩, -⟩
    · exact ⟨host, behind, [], by simp, hhost, hcolon, hne, hline, .inl rfl⟩
    · exact ⟨host, path, ['\n'], rfl, hhost, hcolon, hne, hline, .inr rfl⟩
  · rintro ⟨host, path, behind, rfl, hhost, hcolon, hne, hline, rfl | rfl⟩
    · exact ⟨_, host, _, path, rfl, hhost, hcolon, ⟨hne, hline, .inl (by simp)⟩, rfl⟩
    · exact ⟨_, host, _, path, rfl, hhost, hcolon, ⟨hne, hline, .inr rfl⟩, rfl⟩

/-- What has a host and a path has a host. -/
theorem isSome_host_of_hostAndPath? {user : Option (List Char)} {cs : List Char}
    {p : RemotePath} (h : hostAndPath? user cs = some p) : p.host.isSome = true := by
  obtain ⟨host, behind, path, -, -, -, -, rfl⟩ := hostAndPath?_eq_some_iff.mp h
  rfl

/-- What a word is read as, if it fits the pattern. -/
theorem ofText_eq (text : String) : ofText text
    = (((splitAtMark '@' text.toList).bind fun cut => hostAndPath? (some cut.1) cut.2).or
        (hostAndPath? none text.toList)).getD { path := text } := by
  simp only [ofText]
  cases splitAtMark '@' text.toList with
  | none => simp
  | some cut => cases hread : hostAndPath? (some cut.1) cut.2 <;> simp [hread]

/-- **A word is taken for remote exactly if it fits the pattern.** -/
theorem isSome_host_iff (text : String) :
    (ofText text).host.isSome = true ↔ ReadsRemote text := by
  have hread : ∀ o : Option RemotePath, (∀ p ∈ o, p.host.isSome = true) →
      ((o.getD { path := text }).host.isSome = true ↔ o.isSome = true) := by
    intro o ho
    cases o with
    | none => simp
    | some p => simpa using ho p rfl
  have huser : (((splitAtMark '@' text.toList).bind fun cut =>
      hostAndPath? (some cut.1) cut.2).isSome = true) ↔ ∃ user behind,
        text.toList = user ++ '@' :: behind ∧ user ≠ [] ∧ '@' ∉ user ∧ HostAndPath behind := by
    cases hcut : splitAtMark '@' text.toList with
    | none =>
        refine iff_of_false (by simp) ?_
        rintro ⟨user, behind, heq, hne, hat, -⟩
        simp [splitAtMark_eq_some_iff.mpr ⟨heq, hne, hat⟩] at hcut
    | some cut =>
        rw [Option.bind_some, isSome_hostAndPath?_iff]
        constructor
        · intro hread
          obtain ⟨heq, hne, hat⟩ := splitAtMark_eq_some_iff.mp hcut
          exact ⟨cut.1, cut.2, heq, hne, hat, hread⟩
        · rintro ⟨user, behind, heq, hne, hat, hread⟩
          cases (splitAtMark_eq_some_iff.mpr ⟨heq, hne, hat⟩).symm.trans hcut
          exact hread
  rw [ofText_eq, hread, Option.isSome_or, Bool.or_eq_true, huser, isSome_hostAndPath?_iff,
    ReadsRemote]
  intro p hp
  rcases Option.or_eq_some_iff.mp hp with hp | ⟨-, hp⟩
  · obtain ⟨cut, -, hp⟩ := Option.bind_eq_some_iff.mp hp
    exact isSome_host_of_hostAndPath? hp
  · exact isSome_host_of_hostAndPath? hp

end RemotePath

open RemotePath (IsRemote ReadsRemote)

/-! ## The gate -/

/-- There is leave to pull from a source on another host, and to push to a target on one. -/
def Settings.Permits (settings : Settings) (remoteSource remoteTarget : Prop) : Prop :=
  (remoteSource → settings.pull = true) ∧ (remoteTarget → settings.push = true)

theorem Session.remoteCopyAllowed_iff (source target : String) (settings : Settings) :
    remoteCopyAllowed source target settings = true ↔
      settings.Permits (ReadsRemote source) (ReadsRemote target) := by
  rw [Settings.Permits, ← RemotePath.isSome_host_iff, ← RemotePath.isSome_host_iff,
    remoteCopyAllowed, Settings.allowsCopy]
  cases settings.pull <;> cases settings.push <;> simp

/-- A session with leave to pull and to push or without it. -/
def Session.allowing (s : Session) (pull push : Bool) : Session :=
  { s with settings := { s.settings with pull := pull, push := push } }

/-- A remote copy with two operands. -/
structure RemoteCopy where
  tree : Node
  inv : Invocation
  gathered : (Invocation.gather tree).outcome {} = .ok inv
  verb : inv.verb? = some .scp
  source : String
  target : String
  operands : inv.sorted.operands = [source, target]

namespace RemoteCopy

open Session (command remoteCopyAllowed)

variable (c : RemoteCopy)

/-- A session in which the words of the copy have been gathered. -/
def gatheredIn (s : Session) : Session :=
  (Invocation.gather c.tree).after s

/-- The task of the copy, by its register. -/
def task : String → Task :=
  (Recipe.copied "Scp" (RemotePath.ofText c.source).path
    (RemotePath.ofText c.target).path).registered

/-- A session that has only told the user that the copy is left out. -/
def skippedIn (s : Session) : Session :=
  { c.gatheredIn s with
    output := (c.gatheredIn s).output ++ "scp skipping command scp" ++ "\n" }

/-- There is leave for the copy, by what its words stand for. -/
def Permitted (s : Session) : Prop :=
  s.settings.Permits (IsRemote ((c.gatheredIn s).vars.interpret .plain c.source))
    (IsRemote ((c.gatheredIn s).vars.interpret .plain c.target))

/-- The gate lets the copy through if there is leave for it; if not, nothing comes of it but a
    line to the user. -/
def GateRight (s : Session) : Prop :=
  (c.Permitted s → (command c.tree).run s = (.ok (), (c.gatheredIn s).withTask "scp" c.task)) ∧
  (¬ c.Permitted s → (command c.tree).run s = (.ok (), c.skippedIn s))

/-- Gathering the words leaves the settings alone. -/
theorem settings_gatheredIn (s : Session) : (c.gatheredIn s).settings = s.settings :=
  ((Session.gather_uniform c.tree).reaches s).settings_eq

/-- Gathering the words adds no task. -/
theorem tasks_gatheredIn (s : Session) : (c.gatheredIn s).tasks = s.tasks := by
  obtain ⟨new, hnone, htasks⟩ := (Session.gather_uniform c.tree).adds s
  rw [gatheredIn, htasks, List.eq_nil_of_length_eq_zero hnone, List.append_nil]

/-- What gathering does to the variables does not hang on the settings. -/
theorem vars_gatheredIn (s : Session) (pull push : Bool) :
    (c.gatheredIn (s.allowing pull push)).vars = (c.gatheredIn s).vars := by
  have hscope := (Session.gather_does c.tree).scope
  have hsame : (c.gatheredIn (s.allowing pull push)).scope = (c.gatheredIn s).scope := by
    rw [gatheredIn, gatheredIn, hscope, hscope]
    rfl
  exact congrArg Scope.vars hsame

/-- A remote copy is made or left out, once its words are gathered. -/
theorem run_command (s : Session) : (command c.tree).run s
    = (.ok (), if remoteCopyAllowed c.source c.target s.settings then
        (c.gatheredIn s).withTask "scp" c.task else c.skippedIn s) := by
  have hgather : (Invocation.gather c.tree).run s = (.ok c.inv, c.gatheredIn s) := by
    rw [Step.run_eq, (Session.gather_uniform c.tree).outcome_eq s {}, c.gathered]
    rfl
  have hsource : c.inv.operand 0 = .ok c.source := by simp [Invocation.operand, c.operands]
  have htarget : c.inv.operand 1 = .ok c.target := by simp [Invocation.operand, c.operands]
  rw [command, Step.run_bind_ok hgather, c.verb, ← c.settings_gatheredIn s]
  exact Session.run_remoteCopyCommand hsource htarget _

/-- The gate is right in a session exactly if it is open where there is leave. -/
theorem gateRight_iff_permits (s : Session) : c.GateRight s ↔
    (s.settings.Permits (ReadsRemote c.source) (ReadsRemote c.target) ↔ c.Permitted s) := by
  -- a session with one more task is none with a line to the user alone
  have hdiffer : (c.gatheredIn s).withTask "scp" c.task ≠ c.skippedIn s := by
    intro heq
    have hlength := congrArg (fun t => t.tasks.length) heq
    simp [Session.withTask, skippedIn] at hlength
  rw [GateRight, c.run_command, ← Session.remoteCopyAllowed_iff]
  by_cases hopen : remoteCopyAllowed c.source c.target s.settings = true
  · rw [if_pos hopen]
    constructor
    · rintro ⟨-, hskips⟩
      refine ⟨fun _ => ?_, fun _ => hopen⟩
      by_contra hnot
      exact hdiffer (Prod.mk.inj (hskips hnot)).2
    · intro hiff
      exact ⟨fun _ => rfl, fun hnot => absurd (hiff.mp hopen) hnot⟩
  · rw [if_neg hopen]
    constructor
    · rintro ⟨hcopies, -⟩
      refine ⟨fun h => absurd h hopen, fun hpermitted => ?_⟩
      exact absurd (Prod.mk.inj (hcopies hpermitted)).2.symm hdiffer
    · intro hiff
      exact ⟨fun hpermitted => absurd (hiff.mpr hpermitted) hopen, fun _ => rfl⟩

/-- Two ways of reading open the same gates exactly if they are the same. -/
theorem permits_iff_permits (settings : Settings) (a b a' b' : Prop) :
    (∀ pull push, Settings.Permits { settings with pull := pull, push := push } a b ↔
      Settings.Permits { settings with pull := pull, push := push } a' b') ↔
    (a ↔ a') ∧ (b ↔ b') := by
  constructor
  · intro h
    -- without leave for one side, the gate is open if this side is on no other host
    have hpull := h false true
    have hpush := h true false
    simp only [Settings.Permits, Bool.false_eq_true, imp_false, imp_true_iff, true_and,
      and_true] at hpull hpush
    exact ⟨not_iff_not.mp hpull, not_iff_not.mp hpush⟩
  · rintro ⟨ha, hb⟩ pull push
    rw [Settings.Permits, Settings.Permits, ha, hb]

/-- **The gate is right exactly if both words are read right.**  In every session, gathering the
    words of a copy adds no task; and the copy is made under all settings that give leave for
    it, and under all others nothing comes of it but the line to the user, exactly if each of
    its two words fits the pattern if and only if what it stands for is on another host. -/
theorem gate_right_iff (s : Session) :
    (c.gatheredIn s).tasks = s.tasks ∧
    ((∀ pull push, c.GateRight (s.allowing pull push)) ↔
      (ReadsRemote c.source ↔ IsRemote ((c.gatheredIn s).vars.interpret .plain c.source)) ∧
      (ReadsRemote c.target ↔ IsRemote ((c.gatheredIn s).vars.interpret .plain c.target))) := by
  refine ⟨c.tasks_gatheredIn s, ?_⟩
  rw [← permits_iff_permits s.settings]
  refine forall_congr' fun pull => forall_congr' fun push => ?_
  rw [c.gateRight_iff_permits, Permitted, c.vars_gatheredIn]
  rfl

/-- `scp /etc/motd $DEST` -/
def toVariable : RemoteCopy where
  tree := .command [.word "scp" [], .word "/etc/motd" [], .word "$DEST" [.parameter "DEST"]]
  inv := { command := some "scp", words := ["/etc/motd", "$DEST"],
           sorted := Verb.scp.row.sort ["/etc/motd", "$DEST"], parameters := ["DEST"] }
  gathered := by decide +kernel
  verb := by decide +kernel
  source := "/etc/motd"
  target := "$DEST"
  operands := by decide +kernel

/-- A copy to a variable that stands for another host is made without leave to push. -/
theorem toVariable_not_gated : ¬ ∀ pull push, toVariable.GateRight
    (Session.allowing { vars := { plain := [("DEST", "web:/srv")] } } pull push) := by
  intro hright
  obtain ⟨-, htarget⟩ := (toVariable.gate_right_iff _).2.mp hright
  have hvalue :
      (toVariable.gatheredIn { vars := { plain := [("DEST", "web:/srv")] } }).vars.interpret .plain
        toVariable.target = "web:/srv" := by decide +kernel
  rw [hvalue] at htarget
  have hread := (RemotePath.isSome_host_iff "$DEST").mpr
    (htarget.mpr ⟨['w', 'e', 'b'], "/srv".toList, by decide⟩)
  exact absurd hread (by decide)

end RemoteCopy

end Playscript
