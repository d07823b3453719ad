import Playscript.Proofs.RemoteCopies

/-! # Targets as they are written

    A target is written `[user@]host:path`, or as a path alone (`RemotePath.toText`).  Reading it
    gives parts that make the same text again, and the parts are of the kinds that the form asks
    for (`IsWritten`): a reading neither loses nor adds anything.  The other way round, parts of
    these kinds are read back from their text.  Where no user stands in front, an at sign
    further on could be taken for the end of one, so host and path must not hold it. -/

namespace Playscript.RemotePath

/-- A path as it is written, behind its host and its user. -/
def toText (p : RemotePath) : String :=
  match p.host with
  | some host => p.user.elim "" (· ++ "@") ++ host ++ ":" ++ p.path
  | none => p.path

/-- The parts of a target: a user without an at sign, a host without a colon and a path, none of
    them empty; a path that is on no other host has no user. -/
structure IsWritten (p : RemotePath) : Prop where
  user : ∀ user ∈ p.user, user ≠ "" ∧ '@' ∉ user.toList
  host : ∀ host ∈ p.host, host ≠ "" ∧ ':' ∉ host.toList ∧ p.path ≠ ""
  userless : p.host = none → p.user = none

/-! ## From a text to its parts -/

/-- On one line the path is all that stands behind the colon. -/
theorem hostAndPath?_of_line {user : Option (List Char)} {cs : List Char} {p : RemotePath}
    (hline : '\n' ∉ cs) (h : hostAndPath? user cs = some p) :
    ∃ host path, cs = host ++ ':' :: path ∧ host ≠ [] ∧ ':' ∉ host ∧ path ≠ [] ∧
      p = { user := user.map String.ofList, host := some (String.ofList host)
            path := String.ofList path } := by
  obtain ⟨host, behind, path, rfl, hhost, hcolon, hpath, rfl⟩ := hostAndPath?_eq_some_iff.mp h
  obtain ⟨hne, -, rfl | rfl⟩ := oneLine?_eq_some_iff.mp hpath
  · exact ⟨host, behind, rfl, hhost, hcolon, hne, rfl⟩
  · simp at hline

/-- What is read as a host and a path behind a user is written so. -/
theorem written_of_user {user behind : List Char} {p : RemotePath} (huser : user ≠ [])
    (hat : '@' ∉ user) (hline : '\n' ∉ behind) (h : hostAndPath? (some user) behind = some p) :
    p.toText.toList = user ++ '@' :: behind ∧ p.IsWritten := by
  obtain ⟨host, path, rfl, hhost, hcolon, hpath, rfl⟩ := hostAndPath?_of_line hline h
  refine ⟨by simp [toText], ⟨?_, ?_, by simp⟩⟩
  · simpa using ⟨huser, hat⟩
  · simpa using ⟨hhost, hcolon, hpath⟩

/-- What is read as a host and a path without a user is written so. -/
theorem written_of_host {cs : List Char} {p : RemotePath} (hline : '\n' ∉ cs)
    (h : hostAndPath? none cs = some p) : p.toText.toList = cs ∧ p.IsWritten := by
  obtain ⟨host, path, rfl, hhost, hcolon, hpath, rfl⟩ := hostAndPath?_of_line hline h
  refine ⟨by simp [toText], ⟨by simp, ?_, by simp⟩⟩
  simpa using ⟨hhost, hcolon, hpath⟩

/-- A target of one line is what its parts make. -/
theorem toText_ofText {target : String} (hline : '\n' ∉ target.toList) :
    (ofText target).toText = target ∧ (ofText target).IsWritten := by
  rw [← String.toList_inj, ofText_eq]
  cases hread : ((splitAtMark '@' target.toList).bind fun cut => hostAndPath? (some cut.1) cut.2).or
      (hostAndPath? none target.toList) with
  | none => exact ⟨rfl, ⟨by simp, by simp, by simp⟩⟩
  | some p =>
      rw [Option.getD_some]
      rcases Option.or_eq_some_iff.mp hread with hread | ⟨-, hread⟩
      · obtain ⟨⟨user, behind⟩, hcut, hread⟩ := Option.bind_eq_some_iff.mp hread
        obtain ⟨htarget, huser, hat⟩ := splitAtMark_eq_some_iff.mp hcut
        rw [htarget] at hline ⊢
        exact written_of_user huser hat (fun hmem => hline (by simp [hmem])) hread
      · exact written_of_host hline hread

/-! ## From parts to their text -/

theorem hostAndPath?_of_parts {user : Option (List Char)} {host path : String} (hhost : host ≠ "")
    (hcolon : ':' ∉ host.toList) (hpath : path ≠ "") (hline : '\n' ∉ path.toList) :
    hostAndPath? user (host.toList ++ ':' :: path.toList)
      = some { user := user.map String.ofList, host := some host, path := path } := by
  refine hostAndPath?_eq_some_iff.mpr ⟨host.toList, path.toList, path.toList, rfl,
    mt String.toList_eq_nil_iff.mp hhost, hcolon, ?_, by simp⟩
  exact oneLine?_eq_some_iff.mpr ⟨mt String.toList_eq_nil_iff.mp hpath, hline, .inl rfl⟩

/-- A user, a host and a path are read back. -/
theorem ofText_user_host_path {user host path : String} (huser : user ≠ "")
    (hat : '@' ∉ user.toList) (hhost : host ≠ "") (hcolon : ':' ∉ host.toList) (hpath : path ≠ "")
    (hline : '\n' ∉ path.toList) :
    ofText (user ++ "@" ++ host ++ ":" ++ path)
      = { user := some user, host := some host, path := path } := by
  have htext : (user ++ "@" ++ host ++ ":" ++ path).toList
      = user.toList ++ '@' :: (host.toList ++ ':' :: path.toList) := by simp
  have hcut : splitAtMark '@' (user.toList ++ '@' :: (host.toList ++ ':' :: path.toList))
      = some (user.toList, host.toList ++ ':' :: path.toList) :=
    splitAtMark_eq_some_iff.mpr ⟨rfl, mt String.toList_eq_nil_iff.mp huser, hat⟩
  rw [ofText_eq, htext, hcut, Option.bind_some, hostAndPath?_of_parts hhost hcolon hpath hline]
  simp

/-- A host and a path are read back if nothing in them ends a user. -/
theorem ofText_host_path {host path : String} (hhost : host ≠ "") (hat : '@' ∉ host.toList)
    (hcolon : ':' ∉ host.toList) (hpath : path ≠ "") (hat' : '@' ∉ path.toList)
    (hline : '\n' ∉ path.toList) :
    ofText (host ++ ":" ++ path) = { host := some host, path := path } := by
  have htext : (host ++ ":" ++ path).toList = host.toList ++ ':' :: path.toList := by simp
  have hcut : splitAtMark '@' (host.toList ++ ':' :: path.toList) = none := by
    rw [Option.eq_none_iff_forall_ne_some]
    rintro ⟨user, behind⟩ hsome
    obtain ⟨htarget, -, -⟩ := splitAtMark_eq_some_iff.mp hsome
    have hmem : '@' ∈ host.toList ++ ':' :: path.toList := by simp [htarget]
    simp [hat, hat'] at hmem
  rw [ofText_eq, htext, hcut, Option.bind_none, Option.none_or,
    hostAndPath?_of_parts hhost hcolon hpath hline]
  rfl

/-! ## The end of the path -/

/-- The inside of a directory is meant exactly if the path ends in a slash. -/
theorem recursive_iff (p : RemotePath) :
    p.recursive = true ↔ ∃ front, p.path = front ++ "/" := by
  rw [recursive, beq_iff_eq, List.getLast?_eq_some_iff]
  constructor
  · rintro ⟨front, hpath⟩
    exact ⟨String.ofList front, by rw [← String.toList_inj, hpath]; simp⟩
  · rintro ⟨front, hpath⟩
    exact ⟨front.toList, by rw [hpath]; simp⟩

/-- **A target is read as it is written.**  The parts of a target of one line make the target, and
    are of the kinds that the form asks for; a user, a host and a path of these kinds are read
    back from their text, and so are a host and a path in which no at sign stands; and the
    inside of a directory is meant exactly if the path ends in a slash. -/
theorem ofText_faithful (target user host path : String) :
    ('\n' ∉ target.toList →
      (ofText target).toText = target ∧ (ofText target).IsWritten) ∧
    (user ≠ "" → '@' ∉ user.toList → host ≠ "" → ':' ∉ host.toList → path ≠ "" →
      '\n' ∉ path.toList →
      ofText (user ++ "@" ++ host ++ ":" ++ path)
        = { user := some user, host := some host, path := path }) ∧
    (host ≠ "" → '@' ∉ host.toList → ':' ∉ host.toList → path ≠ "" → '@' ∉ path.toList →
      '\n' ∉ path.toList →
      ofText (host ++ ":" ++ path) = { user := none, host := some host, path := path }) ∧
    ((ofText target).recursive = true ↔ ∃ front, (ofText target).path = front ++ "/") :=
  ⟨toText_ofText, ofText_user_host_path, ofText_host_path, recursive_iff (ofText target)⟩

/-- A user that holds a colon, before a host that holds an at sign. -/
theorem colon_in_user_read_back :
    ofText ("a:b" ++ "@" ++ "c@d" ++ ":" ++ "/e:f@g/")
        = { user := some "a:b", host := some "c@d", path := "/e:f@g/" } ∧
      (ofText "a:b@c@d:/e:f@g/").toText = "a:b@c@d:/e:f@g/" ∧
      (ofText "a:b@c@d:/e:f@g/").recursive = true := by
  obtain ⟨hwritten, hread, -, hend⟩ := ofText_faithful "a:b@c@d:/e:f@g/" "a:b" "c@d" "/e:f@g/"
  have hparts := hread (by decide) (by decide) (by decide) (by decide) (by decide) (by decide)
  refine ⟨hparts, (hwritten (by decide)).1, hend.mpr ⟨"/e:f@g", ?_⟩⟩
  exact congrArg RemotePath.path hparts

end Playscript.RemotePath
