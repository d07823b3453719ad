import Playscript.Proofs.Listings

/-! # Copying a directory

    Something is wanted at some places of a tree.  A step that only gives such places what is
    wanted there meets it (`Meets`), and steps that do so one after the other undo nothing, as long
    as no place is wanted for two things.  Copying a directory is such a step, and it ends well
    with everything below the directory at its new place (`run_copyTree`), if nothing of another
    kind is in the way and the new place is not inside the old one.  Both paths are relative to the
    tree. -/

namespace Playscript

namespace Run

variable {σ α : Type}

/-- Work over a list whose rounds end well, and undo nothing of each other, does all of them. -/
theorem forM_of_rounds {f : α → ExceptT Failure (StateM σ) Unit} {R : σ → σ → Prop}
    (refl : ∀ s, R s s) (trans : ∀ ⦃s t u⦄, R s t → R t u → R s u) (done : α → σ → Prop) {start : σ}
    (hkeep : ∀ a s t, R start s → R s t → done a s → done a t) {xs : List α}
    (hround : ∀ a ∈ xs, ∀ s, R start s → ∃ t, (f a).run s = (.ok (), t) ∧ R s t ∧ done a t) :
    ∃ t, (xs.forM f).run start = (.ok (), t) ∧ R start t ∧ ∀ a ∈ xs, done a t := by
  have hloop : ∀ s, R start s → ∃ t, (xs.forM f).run s = (.ok (), t) ∧ R s t ∧
      ∀ a ∈ xs, done a t := by
    induction xs with
    | nil => exact fun s _ => ⟨s, rfl, refl s, fun a ha => absurd ha List.not_mem_nil⟩
    | cons x rest ih =>
        intro s hs
        obtain ⟨t, hx, hst, hdone⟩ := hround x List.mem_cons_self s hs
        obtain ⟨u, hrest, htu, hall⟩ := ih
          (fun a ha => hround a (List.mem_cons_of_mem x ha)) t (trans hs hst)
        refine ⟨u, (bind_of_ok hx _).trans hrest, trans hst htu, fun a ha => ?_⟩
        rcases List.mem_cons.mp ha with rfl | ha
        · exact hkeep a t u (trans hs hst) htu hdone
        · exact hall a ha
  exact hloop start (refl start)

/-- Nothing is picked from a list if a loop that gives up at the first pick ends well. -/
theorem filterM_of_forM {f : α → ExceptT Failure (StateM σ) Bool} {failure : Failure} {xs : List α}
    {s u : σ} (h : (xs.forM fun a => do if ← f a then throw failure).run s = (.ok (), u)) :
    (xs.filterM f).run s = (.ok [], u) := by
  suffices hloop : ∀ s, (xs.forM fun a => do if ← f a then throw failure).run s = (.ok (), u) →
      (List.filterAuxM f xs []).run s = (.ok [], u) from bind_of_ok (hloop s h) _
  clear h
  induction xs with
  | nil =>
      intro s h
      obtain rfl : s = u := congrArg Prod.snd h
      rfl
  | cons x rest ih =>
      intro s h
      obtain ⟨⟨⟩, t, hx, hrest⟩ := bind_ok_iff.mp h
      obtain ⟨picked, t', hpick, hgo⟩ := bind_ok_iff.mp hx
      cases picked with
      | true => cases hgo
      | false =>
          obtain rfl : t' = t := congrArg Prod.snd hgo
          exact (bind_of_ok hpick _).trans (ih t' hrest)

end Run

/-- A path that leads straight down to a place. -/
structure Path.Down (path : String) (place : List String) : Prop where
  relative : Path.isAbsolute path = false
  names_eq : Path.names path = place
  upless : ".." ∉ place
  ne_nil : place ≠ []

/-- A name behind a path without `..` leads one step further down. -/
theorem Path.down_join {path name : String} (hrelative : Path.isAbsolute path = false)
    (hup : ".." ∉ Path.names path) (hname : Path.IsName name) :
    Path.Down (Path.join path name) (Path.names path ++ [name]) where
  relative := by rw [Path.isAbsolute_join hname.not_absolute, hrelative]
  names_eq := by rw [Path.names_join hname.not_absolute, hname.names_eq]
  upless := by
    rw [List.mem_append, List.mem_singleton, not_or]
    exact ⟨hup, Ne.symm hname.ne_up⟩
  ne_nil := List.concat_ne_nil name _

/-- So the way down can be continued. -/
theorem Path.Down.join {path name : String} {place : List String} (h : Path.Down path place)
    (hname : Path.IsName name) : Path.Down (Path.join path name) (place ++ [name]) := by
  obtain ⟨hrelative, rfl, hup, -⟩ := h
  exact Path.down_join hrelative hup hname

namespace FileTree

/-- On the way down every place in front of the last one has to be a directory; the last one need
    not be there. -/
theorem follow_down {tree : FileTree} {path : String} {place : List String}
    (h : Path.Down path place)
    (hdirectories : ∀ q, q <+: place → q ≠ place → tree.get? q = some .directory) :
    tree.follow path = .ok place := by
  have hpath : path ≠ "" := by
    rintro rfl
    exact h.ne_nil h.names_eq.symm
  refine follow_ok_iff.mpr ⟨hpath, h.relative, ?_⟩
  rw [h.names_eq, followFrom_upless_iff h.upless]
  exact ⟨rfl, hdirectories⟩

/-! ## What is wanted -/

section Wanted

variable {wanted : List String → FileEntry → Prop} {tree tree' : FileTree}

variable (wanted) in
/-- Some places have got what is wanted there, and all others are as they were. -/
def Meets (tree tree' : FileTree) : Prop :=
  ∀ place, tree'.get? place = tree.get? place ∨
    ∃ entry, wanted place entry ∧ tree'.get? place = some entry

variable (wanted tree) in
/-- What is wanted can be had: no place is wanted for two things, what is around something is wanted
    as a directory, and nothing of another kind is in the way. -/
structure Meetable : Prop where
  unique : ∀ {place entry entry'}, wanted place entry → wanted place entry' → entry = entry'
  outer : ∀ {place name entry}, wanted (place ++ [name]) entry → wanted place .directory
  free : ∀ {place entry found}, wanted place entry → tree.get? place = some found →
    (found = .directory ↔ entry = .directory)

namespace Meets

theorem refl (tree : FileTree) : Meets wanted tree tree :=
  fun _ => .inl rfl

/-- Steps one after the other: what the second left as it was is what the first did. -/
theorem trans ⦃t u v : FileTree⦄ (h : Meets wanted t u) (h' : Meets wanted u v) :
    Meets wanted t v := by
  intro place
  rcases h' place with hsame | hmet
  · rw [hsame]
    exact h place
  · exact .inr hmet

/-- Setting one place to what is wanted there. -/
theorem set {place : List String} {entry : FileEntry} (h : wanted place entry) (hne : place ≠ []) :
    Meets wanted tree (tree.set place entry) := by
  intro other
  by_cases hother : other = place
  · rw [hother]
    exact .inr ⟨entry, h, tree.get?_set_self hne entry⟩
  · exact .inl (tree.get?_set_of_ne entry hother)

/-- Making the directories along a place meets what is wanted, if they are. -/
theorem along {place : List String} (h : Filing.Along place tree tree')
    (hplace : ∀ q, q <+: place → wanted q .directory) : Meets wanted tree tree' := by
  intro q
  by_cases hq : q <+: place
  · exact .inr ⟨_, hplace q hq, h.made q hq⟩
  · exact .inl (h.kept q hq)

/-- Where nothing is wanted, all is as it was. -/
theorem elsewhere (h : Meets wanted tree tree') {place : List String}
    (hplace : ∀ entry, ¬ wanted place entry) : tree'.get? place = tree.get? place := by
  rcases h place with hsame | ⟨entry, hentry, -⟩
  · exact hsame
  · exact absurd hentry (hplace entry)

/-- What has been met stays. -/
theorem keeps (h : Meets wanted tree tree') (hm : Meetable wanted tree) {place : List String}
    {entry : FileEntry} (hwanted : wanted place entry) (hthere : tree.get? place = some entry) :
    tree'.get? place = some entry := by
  rcases h place with hsame | ⟨entry', hentry', hthere'⟩
  · rw [hsame, hthere]
  · rw [hthere', hm.unique hentry' hwanted]

/-- A step that meets what is wanted leaves the rest to be had. -/
theorem meetable (h : Meets wanted tree tree') (hm : Meetable wanted tree) :
    Meetable wanted tree' where
  unique := hm.unique
  outer := hm.outer
  free := by
    intro place entry found hwanted hfound
    rcases h place with hsame | ⟨entry', hentry', hthere'⟩
    · exact hm.free hwanted (hsame ▸ hfound)
    · rw [hm.unique hwanted hentry', Option.some.inj (hfound.symm.trans hthere')]

/-- No directory is lost, since nothing but a directory is wanted in its place. -/
theorem directories (h : Meets wanted tree tree') (hm : Meetable wanted tree) (place : List String)
    (hplace : tree.get? place = some .directory) : tree'.get? place = some .directory := by
  rcases h place with hsame | ⟨entry, hentry, hthere⟩
  · rw [hsame, hplace]
  · rw [hthere, (hm.free hentry hplace).mp rfl]

end Meets

namespace Meetable

/-- What is around a wanted directory is wanted as a directory, all the way up. -/
theorem of_isPrefix (hm : Meetable wanted tree) {place : List String}
    (hplace : wanted place .directory) : ∀ q, q <+: place → wanted q .directory := by
  induction place using List.reverseRecOn with
  | nil =>
      intro q hq
      rw [List.prefix_nil.mp hq]
      exact hplace
  | append_singleton front name ih =>
      intro q hq
      rcases List.prefix_concat_iff.mp hq with rfl | hfront
      · exact hplace
      · exact ih (hm.outer hplace) q hfront

end Meetable

end Wanted

/-! ## What is copied -/

/-- What stands below a place, to a bounded depth, is wanted below another one, and nothing is
    wanted below the first. -/
structure Portable (wanted : List String → FileEntry → Prop) (tree : FileTree)
    (source goal : List String) (depth : Nat) : Prop where
  goes : ∀ q entry, tree.get? (source ++ q) = some entry → wanted (goal ++ q) entry
  apart : ∀ q entry, ¬ wanted (source ++ q) entry
  named : ∀ q name, tree.get? (source ++ q ++ [name]) ≠ none → Path.IsName name
  closed : ∀ q name, tree.get? (source ++ q ++ [name]) ≠ none →
    tree.get? (source ++ q) = some .directory
  shallow : ∀ q, tree.get? (source ++ q) ≠ none → q.length < depth

namespace Portable

variable {wanted : List String → FileEntry → Prop} {tree tree' : FileTree}
  {source goal : List String} {depth : Nat}

/-- Nothing below the source is wanted, so it is still to be copied after steps that meet what is
    wanted. -/
theorem of_meets (h : Portable wanted tree source goal depth) (hmeets : Meets wanted tree tree') :
    Portable wanted tree' source goal depth := by
  have hsame : ∀ q, tree'.get? (source ++ q) = tree.get? (source ++ q) :=
    fun q => hmeets.elsewhere (h.apart q)
  constructor
  · intro q entry hq
    exact h.goes q entry (hsame q ▸ hq)
  · exact h.apart
  · intro q name hq
    rw [List.append_assoc, hsame, ← List.append_assoc] at hq
    exact h.named q name hq
  · intro q name hq
    rw [List.append_assoc, hsame, ← List.append_assoc] at hq
    rw [hsame]
    exact h.closed q name hq
  · intro q hq
    exact h.shallow q (hsame q ▸ hq)

/-- An entry of the source is portable itself, with one level less. -/
theorem inside (h : Portable wanted tree source goal (depth + 1)) (name : String) :
    Portable wanted tree (source ++ [name]) (goal ++ [name]) depth := by
  constructor
  · intro q entry hq
    rw [List.append_assoc] at hq ⊢
    exact h.goes _ entry hq
  · intro q entry
    rw [List.append_assoc]
    exact h.apart _ entry
  · intro q last hq
    rw [List.append_assoc source] at hq
    exact h.named _ last hq
  · intro q last hq
    rw [List.append_assoc source] at hq ⊢
    exact h.closed _ last hq
  · intro q hq
    rw [List.append_assoc] at hq
    have hlength := h.shallow _ hq
    rw [List.singleton_append, List.length_cons] at hlength
    exact Nat.lt_of_succ_lt_succ hlength

/-- There is nothing below a file, and something around everything. -/
theorem exists_of_cons (h : Portable wanted tree source goal depth) {name : String}
    {rest : List String} (hthere : tree.get? (source ++ name :: rest) ≠ none) :
    (rest ≠ [] → tree.get? (source ++ [name]) = some .directory) ∧
      tree.get? (source ++ [name]) ≠ none := by
  induction rest using List.reverseRecOn with
  | nil => exact ⟨fun hne => absurd rfl hne, hthere⟩
  | append_singleton front last ih =>
      rw [← List.cons_append, ← List.append_assoc] at hthere
      have hdirectory := h.closed (name :: front) last hthere
      obtain ⟨hinner, hname⟩ := ih (there_of_get? hdirectory)
      refine ⟨fun _ => ?_, hname⟩
      by_cases hfront : front = []
      · rw [hfront] at hdirectory
        exact hdirectory
      · exact hinner hfront

end Portable

end FileTree

namespace Filing

open FileTree

variable {wanted : List String → FileEntry → Prop} {tree : FileTree}

theorem ask_bind {α β : Type} (question : FileTree → α) (k : α → Filing β) (tree : FileTree) :
    (ask question >>= k).run tree = (k (question tree)).run tree :=
  Run.bind_of_ok rfl k

/-- The directories along a way down can be made if no file is in the way. -/
theorem run_makeDirectories_down {path : String} {place : List String} (h : Path.Down path place)
    (hfree : ∀ q, q <+: place → ∀ content, tree.get? q ≠ some (.file content)) :
    ∃ tree', (makeDirectories path).run tree = (.ok (), tree') ∧ Along place tree tree' := by
  obtain ⟨hrelative, rfl, hup, hne⟩ := h
  have hparts : Path.parts path ≠ [] := by
    intro hnil
    rw [Path.names_eq_parts, hnil] at hne
    exact hne rfl
  exact run_makeDirectories_upless hrelative hparts hup hfree

/-- A file is copied by setting the goal: that is no directory, as a file is wanted there, and it is
    not the file itself. -/
theorem run_copyFile (hm : Meetable wanted tree) {path goal : String} (name : String)
    {source target : List String} {content : ByteArray} (hpath : tree.follow path = .ok source)
    (hgoal : tree.follow goal = .ok target) (hslash : Path.endsInSlash goal = false)
    (hwanted : wanted target (.file content)) (hapart : source ≠ target) :
    (copyFile path name content goal).run tree
      = (.ok (), tree.set target (.file content)) := by
  have hplace : tree.get? target ≠ some .directory := by
    intro hdirectory
    cases (hm.free hwanted hdirectory).mp rfl
  have hdirectory : tree.isDirectory goal = false := by
    rw [← Bool.not_eq_true, isDirectory_iff]
    rintro ⟨place, hfollow, hthere⟩
    rw [Except.ok.inj (hgoal.symm.trans hfollow)] at hplace
    exact hplace hthere
  have hsame : tree.samePlace path goal = false := by
    simp only [samePlace, hpath, hgoal]
    exact beq_eq_false_iff_ne.mpr hapart
  rw [copyFile, ask_bind, hdirectory]
  simp only [Bool.false_eq_true, if_false]
  rw [ask_bind, hsame]
  exact run_write content hgoal hplace hslash

/-- Copies one entry of a directory and tells whether that failed. -/
def copyEntry (fuel : Nat) (source target name : String) : Filing Bool :=
  tryCatch
    (do
      match ← (do return (← get).find (Path.join source name) :
          Filing (Except Failure FileEntry)) with
      | .ok .directory => copyTree fuel (Path.join source name) (Path.join target name)
      | .ok (.file content) =>
        copyFile (Path.join source name) name content (Path.join target name)
      | .error failure => throw failure
      return false)
    fun _ => return true

/-- With fuel left, a directory is listed first, then the new one is made, and then its entries are
    copied; if some of them fail, the copy does. -/
theorem copyTree_succ (fuel : Nat) (source target : String) : copyTree (fuel + 1) source target =
    (do
      let names ← ask (·.list source)
      makeDirectories target
      let failed ← names.filterM (copyEntry fuel source target)
      if !failed.isEmpty then throw .copyFailed) := rfl

/-- What stands at the place is what is found, unless the path asks for a directory. -/
theorem find_of_follow {path : String} {place : List String} {entry : FileEntry}
    (h : tree.follow path = .ok place) (hslash : Path.endsInSlash path = false)
    (hplace : tree.get? place = some entry) : tree.find path = .ok entry := by
  cases entry <;> simp [find, h, hplace, hslash, bind, Except.bind, pure, Except.pure]

/-- What stands below a place stands below another one. -/
def Copied (tree tree' : FileTree) (source goal : List String) : Prop :=
  ∀ q entry, tree.get? (source ++ q) = some entry → tree'.get? (goal ++ q) = some entry

variable (wanted) in
/-- Copying ends well and meets what is wanted, with some fuel. -/
def CopyWorks (fuel : Nat) : Prop :=
  ∀ {tree : FileTree} {path target : String} {source goal : List String},
    Meetable wanted tree → tree.follow path = .ok source → tree.get? source = some .directory →
    Path.Down target goal → Portable wanted tree source goal fuel →
    ∃ tree', (copyTree fuel path target).run tree = (.ok (), tree') ∧
      Meets wanted tree tree' ∧ Copied tree tree' source goal

/-- Looking something up changes nothing. -/
theorem run_find (path name : String) (tree : FileTree) :
    (do return (← get).find (Path.join path name) : Filing (Except Failure FileEntry)).run tree
      = (.ok (tree.find (Path.join path name)), tree) := rfl

/-- A directory inside is copied as directories are, and counts as done if that ends well. -/
theorem run_copyEntry_directory {fuel : Nat} {path target name : String} {tree' : FileTree}
    (hfind : tree.find (Path.join path name) = .ok .directory)
    (hrun : (copyTree fuel (Path.join path name) (Path.join target name)).run tree
      = (.ok (), tree')) :
    (copyEntry fuel path target name).run tree = (.ok false, tree') := by
  refine Run.tryCatch_of_ok ?_ _
  rw [Run.bind_of_ok (run_find path name tree), hfind]
  exact Run.bind_of_ok hrun _

/-- A file inside is copied to the same name. -/
theorem run_copyEntry_file {fuel : Nat} {path target name : String} {content : ByteArray}
    {tree' : FileTree} (hfind : tree.find (Path.join path name) = .ok (.file content))
    (hrun : (copyFile (Path.join path name) name content (Path.join target name)).run tree
      = (.ok (), tree')) :
    (copyEntry fuel path target name).run tree = (.ok false, tree') := by
  refine Run.tryCatch_of_ok ?_ _
  rw [Run.bind_of_ok (run_find path name tree), hfind]
  exact Run.bind_of_ok hrun _

section CopyEntry

variable {fuel : Nat} {path target name : String} {source goal : List String}

/-- **One entry is copied**: a directory inside with one level less, by the induction hypothesis,
    and a file by setting one place.  The entry is then below the new directory with all that it
    holds. -/
theorem run_copyEntry (ih : CopyWorks wanted fuel) (hm : Meetable wanted tree)
    (hpath : tree.follow path = .ok source) (hsource : tree.get? source = some .directory)
    (hdown : Path.Down target goal) (hgoal : ∀ q, q <+: goal → tree.get? q = some .directory)
    (hport : Portable wanted tree source goal (fuel + 1))
    (hthere : tree.get? (source ++ [name]) ≠ none) :
    ∃ tree', (copyEntry fuel path target name).run tree = (.ok false, tree') ∧
      Meets wanted tree tree' ∧ Copied tree tree' (source ++ [name]) (goal ++ [name]) := by
  have hname : Path.IsName name := hport.named [] name (by rwa [List.append_nil])
  have hfollow : tree.follow (Path.join path name) = .ok (source ++ [name]) :=
    (follow_join_ok_iff hname).mpr ⟨source, (follow_ok_iff.mp hpath).2, hsource, rfl⟩
  have hinside := hport.inside name
  obtain ⟨entry, hentry⟩ := Option.ne_none_iff_exists'.mp hthere
  have hfind := find_of_follow hfollow (hname.not_endsInSlash path) hentry
  cases entry with
  | directory =>
      obtain ⟨tree', hrun, hmeets, hcopied⟩ := ih hm hfollow hentry (hdown.join hname) hinside
      exact ⟨tree', run_copyEntry_directory hfind hrun, hmeets, hcopied⟩
  | file content =>
      have hwanted := hport.goes [name] _ hentry
      have htarget : tree.follow (Path.join target name) = .ok (goal ++ [name]) := by
        refine follow_down (hdown.join hname) fun q hq hne => hgoal q ?_
        exact (List.prefix_concat_iff.mp hq).resolve_left hne
      have hapart : source ++ [name] ≠ goal ++ [name] := by
        intro hsame
        exact hport.apart [name] _ (hsame ▸ hwanted)
      have hrun := run_copyFile hm name hfollow htarget (hname.not_endsInSlash target) hwanted
        hapart
      have hne : goal ++ [name] ≠ [] := List.concat_ne_nil name goal
      refine ⟨_, run_copyEntry_file hfind hrun, .set hwanted hne, fun q entry hq => ?_⟩
      -- there is nothing below a file
      by_cases hnil : q = []
      · rw [hnil, List.append_nil, hentry] at hq
        rw [hnil, List.append_nil, tree.get?_set_self hne, hq]
      · rw [List.append_assoc, List.singleton_append] at hq
        have hdirectory := (hport.exists_of_cons (there_of_get? hq)).1 hnil
        rw [hentry] at hdirectory
        cases hdirectory

end CopyEntry

/-- The entries of a directory are copied one after the other into a directory that is there. -/
theorem run_copyEntries {fuel : Nat} {path target : String} {source goal : List String}
    {tree : FileTree} (ih : CopyWorks wanted fuel) (hm : Meetable wanted tree)
    (hpath : tree.follow path = .ok source) (hsource : tree.get? source = some .directory)
    (hdown : Path.Down target goal) (hgoal : ∀ q, q <+: goal → tree.get? q = some .directory)
    (hport : Portable wanted tree source goal (fuel + 1)) (names : List String)
    (hnames : ∀ name ∈ names, tree.get? (source ++ [name]) ≠ none) :
    ∃ tree', (names.filterM (copyEntry fuel path target)).run tree = (.ok [], tree') ∧
      Meets wanted tree tree' ∧
      ∀ name ∈ names, Copied tree tree' (source ++ [name]) (goal ++ [name]) := by
  have hkeep : ∀ name s t, Meets wanted tree s → Meets wanted s t →
      Copied tree s (source ++ [name]) (goal ++ [name]) →
      Copied tree t (source ++ [name]) (goal ++ [name]) := by
    intro name s t hs hst hdone q entry hq
    refine hst.keeps (hs.meetable hm) ?_ (hdone q entry hq)
    rw [List.append_assoc] at hq ⊢
    exact hport.goes _ entry hq
  have hround : ∀ name ∈ names, ∀ s, Meets wanted tree s →
      ∃ t, (do if ← copyEntry fuel path target name then throw .copyFailed : Filing Unit).run s
          = (.ok (), t) ∧ Meets wanted s t ∧
        Copied tree t (source ++ [name]) (goal ++ [name]) := by
    intro name hname s hs
    have hsame : ∀ q, s.get? (source ++ q) = tree.get? (source ++ q) :=
      fun q => hs.elsewhere (hport.apart q)
    obtain ⟨t, hrun, hst, hcopied⟩ := run_copyEntry ih (hs.meetable hm)
      (follow_mono hpath (hs.directories hm)) (hs.directories hm _ hsource) hdown
      (fun q hq => hs.directories hm q (hgoal q hq))
      (hport.of_meets hs) (hsame [name] ▸ hnames name hname)
    refine ⟨t, Run.bind_of_ok hrun _, hst, fun q entry hq => hcopied q entry ?_⟩
    rw [List.append_assoc] at hq ⊢
    rw [hsame, hq]
  obtain ⟨tree', hloop, hmeets, hall⟩ := Run.forM_of_rounds Meets.refl Meets.trans _ hkeep hround
  exact ⟨tree', Run.filterM_of_forM hloop, hmeets, hall⟩

/-- **A directory is copied as a whole**, whatever it holds. -/
theorem run_copyTree (fuel : Nat) : CopyWorks wanted fuel := by
  induction fuel with
  | zero =>
      intro tree path target source goal hm hpath hsource hdown hport
      have hdepth := hport.shallow [] (by rw [List.append_nil]; exact there_of_get? hsource)
      cases hdepth
  | succ fuel ih =>
      intro tree path target source goal hm hpath hsource hdown hport
      have hgoal : wanted goal .directory := by
        have hself := hport.goes [] .directory (by rwa [List.append_nil])
        rwa [List.append_nil] at hself
      have hway := hm.of_isPrefix hgoal
      obtain ⟨tree₁, hmake, halong⟩ := run_makeDirectories_down hdown fun q hq content hfile => by
        cases (hm.free (hway q hq) hfile).mpr rfl
      have hmeets₁ : Meets wanted tree tree₁ := .along halong hway
      have hsame : ∀ q, tree₁.get? (source ++ q) = tree.get? (source ++ q) :=
        fun q => hmeets₁.elsewhere (hport.apart q)
      -- the names were listed before the new directory was made
      obtain ⟨tree₂, hloop, hmeets₂, hall⟩ := run_copyEntries ih (hmeets₁.meetable hm)
        (follow_mono hpath (hmeets₁.directories hm))
        (hmeets₁.directories hm source hsource) hdown halong.made (hport.of_meets hmeets₁)
        (tree.list path) fun name hname => by
          obtain ⟨place, hplace, -, hthere⟩ := mem_list.mp hname
          obtain rfl := Except.ok.inj (hpath.symm.trans hplace)
          rwa [hsame]
      refine ⟨tree₂, ?_, hmeets₁.trans hmeets₂, fun q entry hq => ?_⟩
      · rw [copyTree_succ, ask_bind, Run.bind_of_ok hmake, Run.bind_of_ok hloop]
        rfl
      · cases q with
        | nil =>
            rw [List.append_nil, hsource] at hq
            rw [List.append_nil, ← hq]
            exact hmeets₂.keeps (hmeets₁.meetable hm) hgoal
              (halong.made goal (List.prefix_refl goal))
        | cons name rest =>
            have hthere := (hport.exists_of_cons (there_of_get? hq)).2
            have hname : name ∈ tree.list path := mem_list.mpr ⟨source, hpath, hsource, hthere⟩
            have hcopied := hall name hname rest entry
            rw [List.append_assoc, List.append_assoc, hsame] at hcopied
            exact hcopied hq

end Filing

end Playscript
