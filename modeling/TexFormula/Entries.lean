/-! Lists of entries. An entry is a name and a value, and of several entries with one name the first
counts. Tables and dictionaries are such lists in which no name is repeated. -/
namespace TexFormula.Entries

variable {α : Type}

/-- The first entry answers for its own name and for no other. -/
theorem lookup_cons (name other : String) (value : α) (entries : List (String × α)) :
    ((name, value) :: entries).lookup other =
      if other = name then some value else entries.lookup other := by
  by_cases same : other = name
  · simp [same]
  · simp [List.lookup_cons, same, beq_eq_false_iff_ne.mpr same]

/-- What answers for a name is an entry of that name. -/
theorem mem_of_lookup {name : String} {value : α} {entries : List (String × α)}
    (found : entries.lookup name = some value) : (name, value) ∈ entries := by
  induction entries with
  | nil => cases found
  | cons entry rest ih =>
    obtain ⟨key, old⟩ := entry
    rw [lookup_cons] at found
    split at found
    case isTrue same =>
      cases found
      exact same ▸ List.mem_cons_self
    case isFalse => exact List.mem_cons_of_mem _ (ih found)

/-- An entry behind all others answers for its name if none of them has that name. -/
theorem lookup_concat {name : String} {entries : List (String × α)}
    (new : name ∉ entries.map Prod.fst) (other : String) (value : α) :
    (entries ++ [(name, value)]).lookup other =
      if other = name then some value else entries.lookup other := by
  induction entries with
  | nil => exact lookup_cons name other value []
  | cons entry rest ih =>
    obtain ⟨key, old⟩ := entry
    simp only [List.map_cons, List.mem_cons, not_or] at new
    rw [List.cons_append, lookup_cons, lookup_cons, ih new.2]
    by_cases here : other = key
    · subst here
      simp [Ne.symm new.1]
    · simp [here]

end TexFormula.Entries
