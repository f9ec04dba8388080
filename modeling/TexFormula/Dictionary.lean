import TexFormula.Entries

/-! Dictionaries from names to texts. The entries stand in ascending order of their names, so a
dictionary is written out in one way only, whatever the order in which its entries came. -/
namespace TexFormula

/-- Texts under distinct names, in ascending order of the names. -/
structure Dictionary where
  entries : List (String × String) := []
  sorted : entries.Pairwise (fun a b => a.1 < b.1) := by simp
deriving DecidableEq, Repr

namespace Dictionary

/-- The dictionary without entries. -/
def empty : Dictionary := {}

instance : Inhabited Dictionary := ⟨empty⟩

/-- The text under a name. -/
def get? (d : Dictionary) (name : String) : Option String :=
  d.entries.lookup name

/-- Sorted entries with the text under a name set. -/
def insertEntry (name value : String) : List (String × String) → List (String × String)
  | [] => [(name, value)]
  | entry :: rest =>
    if name < entry.1 then (name, value) :: entry :: rest
    else if name = entry.1 then (name, value) :: rest
    else entry :: insertEntry name value rest

theorem mem_insertEntry {name value : String} {entries : List (String × String)}
    {e : String × String} (member : e ∈ insertEntry name value entries) :
    e = (name, value) ∨ e ∈ entries := by
  induction entries with
  | nil => simpa [insertEntry] using member
  | cons entry rest ih =>
    unfold insertEntry at member
    split at member
    · simpa using member
    · split at member
      · rcases List.mem_cons.mp member with same | later
        · exact .inl same
        · exact .inr (List.mem_cons_of_mem _ later)
      · rcases List.mem_cons.mp member with same | later
        · exact .inr (same ▸ List.mem_cons_self)
        · exact (ih later).imp id (List.mem_cons_of_mem _)

theorem sorted_insertEntry (name value : String) {entries : List (String × String)}
    (sorted : entries.Pairwise (fun a b => a.1 < b.1)) :
    (insertEntry name value entries).Pairwise (fun a b => a.1 < b.1) := by
  induction entries with
  | nil => simp [insertEntry]
  | cons entry rest ih =>
    obtain ⟨first, others⟩ := List.pairwise_cons.mp sorted
    unfold insertEntry
    split
    case isTrue before =>
      refine List.pairwise_cons.mpr ⟨fun e member => ?_, sorted⟩
      rcases List.mem_cons.mp member with same | later
      · exact same ▸ before
      · exact String.lt_trans before (first e later)
    case isFalse notBefore =>
      split
      case isTrue same => exact List.pairwise_cons.mpr ⟨same ▸ first, others⟩
      case isFalse different =>
        refine List.pairwise_cons.mpr ⟨fun e member => ?_, ih others⟩
        rcases mem_insertEntry member with new | old
        · subst new
          exact Std.lt_of_le_of_ne (String.not_lt.mp notBefore) (Ne.symm different)
        · exact first e old

/-- The dictionary with the text under a name set. -/
def insert (d : Dictionary) (name value : String) : Dictionary :=
  ⟨insertEntry name value d.entries, sorted_insertEntry name value d.sorted⟩

/-- A text is found under the name it was set under, and nothing changes under other names. -/
theorem get?_insert (d : Dictionary) (name other value : String) :
    (d.insert name value).get? other = if other = name then some value else d.get? other := by
  unfold insert get?
  dsimp only
  induction d.entries with
  | nil => exact Entries.lookup_cons name other value []
  | cons entry rest ih =>
    obtain ⟨key, old⟩ := entry
    unfold insertEntry
    split
    · exact Entries.lookup_cons name other value _
    · split
      case isTrue same =>
        have same : name = key := same
        subst same
        by_cases here : other = name <;> simp [Entries.lookup_cons, here]
      case isFalse different =>
        have different : name ≠ key := different
        rw [Entries.lookup_cons, Entries.lookup_cons, ih]
        by_cases here : other = key
        · subst here
          simp [Ne.symm different]
        · simp [here]

/-- The dictionary without the text under a name. -/
def erase (d : Dictionary) (name : String) : Dictionary :=
  ⟨d.entries.filter (·.1 ≠ name), d.sorted.filter _⟩

/-- Nothing is found under an erased name, and nothing changes under other names. -/
theorem get?_erase (d : Dictionary) (name other : String) :
    (d.erase name).get? other = if other = name then none else d.get? other := by
  unfold erase get?
  dsimp only
  induction d.entries with
  | nil => simp
  | cons entry rest ih =>
    obtain ⟨key, old⟩ := entry
    by_cases same : key = name
    · subst same
      rw [List.filter_cons_of_neg (by simp), ih, Entries.lookup_cons]
      by_cases here : other = key <;> simp [here]
    · rw [List.filter_cons_of_pos (by simpa using same), Entries.lookup_cons, Entries.lookup_cons,
        ih]
      by_cases here : other = key
      · subst here
        simp [same]
      · simp [here]

/-- The dictionary of a list of entries, in which a later text of a name replaces an earlier one. -/
def ofList (entries : List (String × String)) : Dictionary :=
  entries.foldl (fun d entry => d.insert entry.1 entry.2) empty

end Dictionary

end TexFormula
