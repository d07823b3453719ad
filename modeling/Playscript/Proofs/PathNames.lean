import Playscript.Proofs.Directories

/-! # The two sides of a path

    A path with a slash is a front, a slash, and a last segment without slashes.  Cut there, the
    names of the path are the names of both sides (`names_directoryName`), and a name behind a path
    is the last of its normal names (`normalStack_join`). -/

namespace Playscript.Path

/-! ## Cut at the last slash -/

/-- A list of characters is cut at its last slash, if it has one. -/
theorem exists_last_slash {cs : List Char} (h : '/' ∈ cs) :
    ∃ front last, cs = front ++ '/' :: last ∧ '/' ∉ last := by
  induction cs with
  | nil => cases h
  | cons c rest ih =>
      by_cases hrest : '/' ∈ rest
      · obtain ⟨front, last, rfl, hlast⟩ := ih hrest
        exact ⟨c :: front, last, rfl, hlast⟩
      · have hc : '/' = c := (List.mem_cons.mp h).resolve_right hrest
        exact ⟨[], rest, by rw [hc, List.nil_append], hrest⟩

/-- The segment behind the last slash is the last one. -/
theorem segments_cut (front : List Char) {last : List Char} (h : '/' ∉ last) :
    segments (String.ofList (front ++ '/' :: last))
      = segments (String.ofList front) ++ [String.ofList last] := by
  rw [segments, segments, String.toList_ofList, String.toList_ofList,
    Text.splitOnChar_append_mark, Text.splitOnChar_of_not_mem h, List.map_append,
    List.map_singleton]

theorem segments_of_no_slash {path : String} (h : '/' ∉ path.toList) : segments path = [path] := by
  rw [segments, Text.splitOnChar_of_not_mem h, List.map_singleton, String.ofList_toList]

/-- It is the base name of the path. -/
theorem baseName_cut (front : List Char) {last : List Char} (h : '/' ∉ last) :
    baseName (String.ofList (front ++ '/' :: last)) = String.ofList last := by
  rw [baseName, segments_cut front h, List.getLast?_concat]
  rfl

theorem baseName_of_no_slash {path : String} (h : '/' ∉ path.toList) : baseName path = path := by
  rw [baseName, segments_of_no_slash h]
  rfl

/-- And its names, if it is one, come last. -/
theorem names_cut (front : List Char) {last : List Char} (h : '/' ∉ last) :
    names (String.ofList (front ++ '/' :: last))
      = names (String.ofList front) ++ names (String.ofList last) := by
  have hlast : segments (String.ofList last) = [String.ofList last] :=
    segments_of_no_slash (by rwa [String.toList_ofList])
  rw [names, segments_cut front h, List.filter_append, names, names, hlast]

/-- So there is no slash in a base name. -/
theorem slash_not_mem_baseName (path : String) : '/' ∉ (baseName path).toList := by
  by_cases h : '/' ∈ path.toList
  · obtain ⟨front, last, hpath, hlast⟩ := exists_last_slash h
    rw [← String.ofList_toList (s := path), hpath, baseName_cut front hlast, String.toList_ofList]
    exact hlast
  · rw [baseName_of_no_slash h]
    exact h

/-- Without a slash a path does not start at the root. -/
theorem not_absolute_of_no_slash {path : String} (h : '/' ∉ path.toList) :
    isAbsolute path = false := by
  rw [isAbsolute, beq_eq_false_iff_ne]
  exact fun hhead => h (List.mem_of_head? hhead)

/-! ## What stands in front of the last slash -/

/-- Characters without the slashes at their end. -/
def stripSlashes (cs : List Char) : List Char :=
  (cs.reverse.dropWhile (· == '/')).reverse

theorem mem_of_mem_stripSlashes {c : Char} {cs : List Char} (h : c ∈ stripSlashes cs) : c ∈ cs :=
  List.mem_reverse.mp ((List.dropWhile_sublist _).subset (List.mem_reverse.mp h))

/-- The directory is what stands in front of the last slash, without slashes at its end; only if it
    is nothing but slashes, they stay. -/
theorem directoryName_cut (front : List Char) {last : List Char} (h : '/' ∉ last) :
    directoryName (String.ofList (front ++ '/' :: last))
      = if front.all (· == '/') then String.ofList (front ++ ['/'])
        else String.ofList (stripSlashes front) := by
  have hdrop : (last.reverse ++ '/' :: front.reverse).dropWhile (· != '/')
      = '/' :: front.reverse := by
    rw [List.dropWhile_append_of_pos, List.dropWhile_cons_of_neg (by decide)]
    intro c hc
    rw [bne_iff_ne]
    rintro rfl
    exact h (List.mem_reverse.mp hc)
  have hhead : ((front ++ '/' :: last).reverse.dropWhile (· != '/')).reverse = front ++ ['/'] := by
    rw [List.reverse_append, List.reverse_cons, List.append_assoc, List.singleton_append, hdrop,
      List.reverse_cons, List.reverse_reverse]
  rw [directoryName, String.toList_ofList, hhead]
  simp [stripSlashes]

/-- There is nothing to strip from a path that does not end in a slash. -/
theorem stripSlashes_of_last {cs : List Char} (h : cs.getLast? ≠ some '/') :
    stripSlashes cs = cs := by
  induction cs using List.reverseRecOn with
  | nil => rfl
  | append_singleton front c _ =>
      have hc : c ≠ '/' := by
        rintro rfl
        exact h List.getLast?_concat
      simp [stripSlashes, hc]

/-- Slashes at the end of a path hold no names. -/
theorem names_stripSlashes (cs : List Char) :
    names (String.ofList (stripSlashes cs)) = names (String.ofList cs) := by
  induction cs using List.reverseRecOn with
  | nil => rfl
  | append_singleton front c ih =>
      by_cases hc : c = '/'
      · have hstrip : stripSlashes (front ++ [c]) = stripSlashes front := by
          simp [stripSlashes, hc]
        rw [hstrip, ih, hc, names_cut front List.not_mem_nil]
        exact (List.append_nil _).symm
      · have hstrip : stripSlashes (front ++ [c]) = front ++ [c] := by
          simp [stripSlashes, hc]
        rw [hstrip]

/-- Stripping loses no name. -/
theorem names_directoryName_cut (front : List Char) {last : List Char} (h : '/' ∉ last) :
    names (directoryName (String.ofList (front ++ '/' :: last))) = names (String.ofList front) := by
  rw [directoryName_cut front h]
  split
  · rw [names_cut front List.not_mem_nil]
    exact List.append_nil _
  · exact names_stripSlashes front

/-- Stripping its slashes leaves the start of a path that has other characters. -/
theorem head?_stripSlashes {cs : List Char} (h : cs.all (· == '/') = false) :
    (stripSlashes cs).head? = cs.head? := by
  induction cs using List.reverseRecOn with
  | nil => cases h
  | append_singleton front c ih =>
      by_cases hc : c = '/'
      · have hstrip : stripSlashes (front ++ [c]) = stripSlashes front := by
          simp [stripSlashes, hc]
        have hfront : front.all (· == '/') = false := by simpa [hc] using h
        have hne : front ≠ [] := by
          rintro rfl
          cases hfront
        rw [hstrip, ih hfront, List.head?_append_of_ne_nil _ hne]
      · have hstrip : stripSlashes (front ++ [c]) = front ++ [c] := by
          simp [stripSlashes, hc]
        rw [hstrip]

/-- Nor does it lose the root: a path from there has a directory from there. -/
theorem isAbsolute_directoryName_cut (front : List Char) {last : List Char} (h : '/' ∉ last) :
    isAbsolute (directoryName (String.ofList (front ++ '/' :: last)))
      = isAbsolute (String.ofList (front ++ '/' :: last)) := by
  rw [directoryName_cut front h, isAbsolute, isAbsolute, String.toList_ofList]
  cases hall : front.all (· == '/') with
  | true =>
      simp only [if_true]
      rw [String.toList_ofList]
      cases front with
      | nil => rfl
      | cons c rest => rfl
  | false =>
      have hne : front ≠ [] := by
        rintro rfl
        cases hall
      simp only [Bool.false_eq_true, if_false]
      rw [String.toList_ofList, head?_stripSlashes hall, List.head?_append_of_ne_nil _ hne]

/-- The names of a path are those in front of its last slash and the one behind it. -/
theorem names_directoryName (path : String) :
    names path = names (directoryName path) ++ names (baseName path) ∧
      isAbsolute (directoryName path) = isAbsolute path := by
  by_cases h : '/' ∈ path.toList
  · obtain ⟨front, last, hpath, hlast⟩ := exists_last_slash h
    rw [← String.ofList_toList (s := path), hpath, names_cut front hlast,
      names_directoryName_cut front hlast, baseName_cut front hlast,
      isAbsolute_directoryName_cut front hlast]
    exact ⟨rfl, rfl⟩
  · have hnone : directoryName path = "" := by
      have hdrop : path.toList.reverse.dropWhile (· != '/') = [] := by
        rw [List.dropWhile_eq_nil_iff]
        intro c hc
        rw [bne_iff_ne]
        rintro rfl
        exact h (List.mem_reverse.mp hc)
      rw [directoryName, hdrop]
      rfl
    rw [hnone, baseName_of_no_slash h, not_absolute_of_no_slash h]
    exact ⟨rfl, rfl⟩

/-! ## Normal names -/

/-- The normal names on the way to a path, backwards. -/
def normalStack (path : String) : List String :=
  (names path).foldl (normalStep (isAbsolute path)) []

theorem normalNames_eq (path : String) : normalNames path = (normalStack path).reverse := rfl

/-- A name other than `..` goes one level deeper. -/
theorem normalStep_of_ne_up {name : String} (h : name ≠ "..") (rooted : Bool)
    (path : List String) : normalStep rooted path name = name :: path := by
  unfold normalStep
  rw [if_neg (by simpa using h)]

/-- The normal names of a joined path go on from those of its front. -/
theorem normalStack_join {inner : String} (h : isAbsolute inner = false) (outer : String) :
    normalStack (join outer inner)
      = (names inner).foldl (normalStep (isAbsolute outer)) (normalStack outer) := by
  rw [normalStack, names_join h, isAbsolute_join h, List.foldl_append]
  rfl

/-- A single name adds itself. -/
theorem IsName.normalStack_join {name : String} (h : IsName name) (outer : String) :
    normalStack (join outer name) = name :: normalStack outer := by
  rw [Path.normalStack_join h.not_absolute, h.names_eq, List.foldl_cons, List.foldl_nil,
    normalStep_of_ne_up h.ne_up]

/-- A segment leads to where it is entered from, to what is around that, or further inside. -/
theorem normalStack_join_segment {outer last : String} {rest : List String}
    (houter : normalStack outer = last :: rest) (hlast : last ≠ "..") {segment : String}
    (hslash : '/' ∉ segment.toList) :
    normalStack (join outer segment)
      = if segment = "" ∨ segment = "." then last :: rest
        else if segment = ".." then rest else segment :: last :: rest := by
  rw [normalStack_join (not_absolute_of_no_slash hslash), names, segments_of_no_slash hslash,
    houter]
  by_cases hstays : segment = "" ∨ segment = "."
  · rcases hstays with rfl | rfl
    · simp
    · simp
  · obtain ⟨hempty, hdot⟩ := not_or.mp hstays
    by_cases hup : segment = ".."
    · simp [hup, normalStep, hlast]
    · simp [hempty, hdot, hup, normalStep]

/-- Two segments that lead to one place are the same, unless one of them is empty. -/
theorem normalStack_join_inj {outer last : String} {rest : List String}
    (houter : normalStack outer = last :: rest) (hlast : last ≠ "..") {segment segment' : String}
    (hslash : '/' ∉ segment.toList) (hne : segment ≠ "")
    (hslash' : '/' ∉ segment'.toList) (hne' : segment' ≠ "")
    (h : normalStack (join outer segment) = normalStack (join outer segment')) :
    segment = segment' := by
  rw [normalStack_join_segment houter hlast hslash,
    normalStack_join_segment houter hlast hslash'] at h
  -- The three places differ in how deep they are.
  have hlength := congrArg List.length h
  split_ifs at h hlength <;> grind

/-- What stands behind the last slash is the last of the normal names, if it is a name. -/
theorem normalStack_directoryName {path : String} (h : IsName (baseName path)) :
    normalStack path = baseName path :: normalStack (directoryName path) := by
  obtain ⟨hnames, habsolute⟩ := names_directoryName path
  rw [normalStack, hnames, h.names_eq, List.foldl_append, ← habsolute, List.foldl_cons,
    List.foldl_nil, normalStep_of_ne_up h.ne_up]
  rfl

/-- The base name of a path that ends in a name is this name. -/
theorem IsName.baseName_join {name : String} (h : IsName name) (outer : String) :
    baseName (join outer name) = name := by
  by_cases houter : outer = ""
  · rw [houter, join_empty h.not_absolute, baseName_of_no_slash h.no_slash]
  · obtain ⟨front, -, hjoin⟩ := toList_join h.not_absolute houter
    rw [← String.ofList_toList (s := join outer name), hjoin, baseName_cut front h.no_slash,
      String.ofList_toList]

/-- Behind one path, different texts make different paths. -/
theorem join_inj_iff {inner inner' : String} (h : isAbsolute inner = isAbsolute inner')
    (outer : String) : join outer inner = join outer inner' ↔ inner = inner' := by
  rw [join, join, h]
  split
  · rfl
  · split
    · exact String.append_right_inj _
    · exact String.append_right_inj _

theorem IsName.join_inj {outer name name' : String} (h : IsName name) (h' : IsName name')
    (heq : join outer name = join outer name') : name = name' :=
  (join_inj_iff (h.not_absolute.trans h'.not_absolute.symm) outer).mp heq

/-- What two ways have in common is dropped from both. -/
theorem dropCommon_append (front back : List String) :
    dropCommon (front ++ back) front = (back, []) := by
  induction front with
  | nil => cases back <;> rfl
  | cons name rest ih => rw [List.cons_append, dropCommon, if_pos rfl, ih]

/-- The way to a name in a directory is the name. -/
theorem IsName.relative_join {name : String} (h : IsName name) (outer : String) :
    relative (join outer name) outer = name := by
  have hnames : normalNames (join outer name) = normalNames outer ++ [name] := by
    rw [normalNames_eq, h.normalStack_join, List.reverse_cons, ← normalNames_eq]
  rw [relative, hnames, dropCommon_append]
  exact @String.intercalate_singleton "/" name

end Playscript.Path
