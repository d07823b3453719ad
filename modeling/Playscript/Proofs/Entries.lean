import Playscript.Value.Basic

/-! # Keys and their values

    What a mapping says of a key once some keys have been set: what those say that set it
    (`get?_merge_of_agree`), and what it said before if none does. -/

namespace Playscript

/-- A key that has been set has its value, be it new or set again. -/
theorem Entries.get?_set_self (entries : Entries) (key : Scalar) (value : Value) :
    (entries.set key value).get? key = some value := by
  induction entries with
  | nil => simp [Entries.set, Entries.get?]
  | cons entry rest ih =>
      by_cases hk : entry.1 = key
      · simp [Entries.set, Entries.get?, hk]
      · simpa [Entries.set, Entries.get?, hk] using ih

/-- Other keys keep theirs. -/
theorem Entries.get?_set_of_ne (entries : Entries) {key other : Scalar} (value : Value)
    (h : other ≠ key) : (entries.set key value).get? other = entries.get? other := by
  induction entries with
  | nil => simp [Entries.set, Entries.get?, Ne.symm h]
  | cons entry rest ih =>
      by_cases hk : entry.1 = key
      · simp [Entries.set, Entries.get?, hk, Ne.symm h]
      · rw [Entries.set, if_neg hk]
        by_cases ho : entry.1 = other
        · simp [Entries.get?, ho]
        · simpa [Entries.get?, ho] using ih

/-- Merging leaves keys alone that are not among the new ones. -/
theorem Entries.get?_merge_of_not_mem {key : Scalar} {more : Entries}
    (h : key ∉ more.map Prod.fst) : ∀ entries : Entries,
      (entries.merge more).get? key = entries.get? key := by
  induction more with
  | nil => intro entries; rfl
  | cons entry rest ih =>
      intro entries
      rw [List.map_cons, List.mem_cons, not_or] at h
      show ((entries.set entry.1 entry.2).merge rest).get? key = _
      rw [ih h.2, Entries.get?_set_of_ne _ _ h.1]

/-- A key that is set, always to the same value, has that value. -/
theorem Entries.get?_merge_of_agree {key : Scalar} {value : Value} {more : Entries}
    (hset : key ∈ more.map Prod.fst) (hagree : ∀ entry ∈ more, entry.1 = key → entry.2 = value) :
    ∀ entries : Entries, (entries.merge more).get? key = some value := by
  induction more with
  | nil => cases hset
  | cons entry rest ih =>
      intro entries
      show ((entries.set entry.1 entry.2).merge rest).get? key = _
      by_cases hrest : key ∈ rest.map Prod.fst
      · exact ih hrest (fun other hother => hagree other (List.mem_cons_of_mem _ hother)) _
      · have hkey : key = entry.1 := by
          rw [List.map_cons] at hset
          exact (List.mem_cons.mp hset).resolve_right hrest
        rw [Entries.get?_merge_of_not_mem hrest, hkey, Entries.get?_set_self,
          hagree entry List.mem_cons_self hkey.symm]

end Playscript
