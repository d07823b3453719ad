import Mathlib.Data.List.Nodup
import Mathlib.Data.List.Perm.Subperm
import Playscript.Proofs.Directories

/-! # The names in a directory

    A directory lists the names under which something stands in it (`mem_list`). -/

namespace Playscript.FileTree

/-- All names of a tree can stand in a directory. -/
def WellNamed (tree : FileTree) : Prop :=
  ∀ known ∈ tree.entries, ∀ name ∈ known.1, Path.IsName name

/-- The names at a place are the last names of the entries one level below it. -/
theorem mem_namesAt {tree : FileTree} {place : List String} {name : String} :
    name ∈ tree.namesAt place ↔ place ++ [name] ∈ tree.entries.map Prod.fst := by
  rw [namesAt, List.mem_mergeSort, List.mem_filterMap, List.mem_map]
  constructor
  · rintro ⟨⟨known, entry⟩, hmem, hname⟩
    refine ⟨(known, entry), hmem, ?_⟩
    cases hlast : known.getLast? with
    | none => simp [hlast] at hname
    | some last =>
        obtain ⟨front, rfl⟩ := List.getLast?_eq_some_iff.mp hlast
        simp only [List.getLast?_concat, List.dropLast_concat] at hname
        split at hname
        · rename_i hfront
          rw [beq_iff_eq.mp hfront, Option.some.inj hname]
        · cases hname
  · rintro ⟨⟨known, entry⟩, hmem, rfl⟩
    exact ⟨_, hmem, by simp⟩

/-- The places of the entries are those where something stands, the directory of the tree itself
    apart. -/
theorem mem_places_iff {tree : FileTree} {place : List String} (hne : place ≠ []) :
    place ∈ tree.entries.map Prod.fst ↔ tree.get? place ≠ none := by
  have hlookup : ∀ entries : List (List String × FileEntry),
      place ∈ entries.map Prod.fst ↔ entries.lookup place ≠ none := by
    intro entries
    induction entries with
    | nil => simp
    | cons known rest ih =>
        rw [List.map_cons, List.mem_cons, ih, List.lookup_cons]
        by_cases heq : place = known.1
        · simp [heq]
        · rw [beq_eq_false_iff_ne.mpr heq]
          exact or_iff_right heq
  rw [get?, if_neg (by simpa using hne)]
  exact hlookup _

/-- **A directory lists the names under which something stands in it.** -/
theorem mem_list {tree : FileTree} {path name : String} : name ∈ tree.list path ↔
    ∃ place, tree.follow path = .ok place ∧ tree.get? place = some .directory ∧
      tree.get? (place ++ [name]) ≠ none := by
  rw [list]
  cases hdirectory : tree.isDirectory path with
  | false =>
      simp only [Bool.false_eq_true, if_false, List.not_mem_nil, false_iff]
      rintro ⟨place, hfollow, hplace, -⟩
      rw [isDirectory_iff.mpr ⟨place, hfollow, hplace⟩] at hdirectory
      cases hdirectory
  | true =>
      obtain ⟨place, hfollow, hplace⟩ := isDirectory_iff.mp hdirectory
      simp only [if_true, hfollow]
      rw [mem_namesAt, mem_places_iff (List.concat_ne_nil name place)]
      constructor
      · intro h
        exact ⟨place, rfl, hplace, h⟩
      · rintro ⟨place', hplace', -, h⟩
        rw [Except.ok.inj hplace']
        exact h

/-- What stands in a well-named tree has names on all its way. -/
theorem WellNamed.isName_of_get? {tree : FileTree} (h : tree.WellNamed) {place : List String}
    (hplace : tree.get? place ≠ none) : ∀ name ∈ place, Path.IsName name := by
  intro name hname
  have hne : place ≠ [] := by
    rintro rfl
    cases hname
  obtain ⟨known, hknown, rfl⟩ := List.mem_map.mp ((mem_places_iff hne).mpr hplace)
  exact h known hknown name hname

/-- In particular whatever a directory lists. -/
theorem WellNamed.isName_of_mem_list {tree : FileTree} (h : tree.WellNamed) {path name : String}
    (hname : name ∈ tree.list path) : Path.IsName name := by
  obtain ⟨place, -, -, hplace⟩ := mem_list.mp hname
  exact h.isName_of_get? hplace name (List.mem_append_right _ List.mem_cons_self)

/-! ## Around an entry -/

/-- Whatever stands in a tree stands in a directory. -/
def Closed (tree : FileTree) : Prop :=
  ∀ place name, tree.get? (place ++ [name]) ≠ none → tree.get? place = some .directory

/-- It is enough to look at what stands around each entry. -/
theorem closed_of_entries {tree : FileTree}
    (h : ∀ known ∈ tree.entries, tree.get? known.1.dropLast = some .directory) : tree.Closed := by
  intro place name hthere
  obtain ⟨known, hknown, hplace⟩ :=
    List.mem_map.mp ((mem_places_iff (List.concat_ne_nil name place)).mpr hthere)
  have houter := h known hknown
  rwa [hplace, List.dropLast_concat] at houter

/-- By induction from the end of the place: around what is there, there are directories all the way
    up. -/
theorem Closed.directory {tree : FileTree} (h : tree.Closed) {place : List String}
    (hthere : tree.get? place ≠ none) :
    ∀ q, q <+: place → q ≠ place → tree.get? q = some .directory := by
  induction place using List.reverseRecOn with
  | nil =>
      intro q hq hne
      exact absurd (List.prefix_nil.mp hq) hne
  | append_singleton front name ih =>
      intro q hq hne
      have hfront := h front name hthere
      have hq := (List.prefix_concat_iff.mp hq).resolve_left hne
      by_cases hsame : q = front
      · rw [hsame]
        exact hfront
      · exact ih (there_of_get? hfront) q hq hsame

/-- A place is no deeper than the tree has entries, if all of its way is there. -/
theorem length_le_entries {tree : FileTree} {place : List String}
    (h : ∀ q, q <+: place → tree.get? q ≠ none) : place.length ≤ tree.entries.length := by
  have hnodup : ((List.range place.length).map fun n => place.take (n + 1)).Nodup := by
    refine List.Nodup.map_on ?_ List.nodup_range
    intro m hm n hn heq
    have hlength := congrArg List.length heq
    rw [List.length_take, List.length_take] at hlength
    rw [List.mem_range] at hm hn
    omega
  have hsubset : ((List.range place.length).map fun n => place.take (n + 1))
      ⊆ tree.entries.map Prod.fst := by
    intro q hq
    obtain ⟨n, hn, rfl⟩ := List.mem_map.mp hq
    refine (mem_places_iff ?_).mpr (h _ (List.take_prefix _ _))
    rw [List.mem_range] at hn
    rw [← List.length_pos_iff, List.length_take]
    omega
  have hlength := (List.subperm_of_subset hnodup hsubset).length_le
  rwa [List.length_map, List.length_range, List.length_map] at hlength

end Playscript.FileTree
