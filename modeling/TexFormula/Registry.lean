import TexFormula.Entries

/-! Registries: values under names, in the order in which the names came. A name keeps its place
when it gets a new value. -/
namespace TexFormula

/-- Values under distinct names, in the order in which the names came. -/
structure Registry (α : Type) where
  entries : List (String × α) := []
  nodup : (entries.map Prod.fst).Nodup := by simp

namespace Registry

variable {α : Type}

/-- The registry without names. -/
def empty : Registry α := {}

instance : Inhabited (Registry α) := ⟨empty⟩

/-- The names, in order. -/
def names (r : Registry α) : List String :=
  r.entries.map Prod.fst

/-- The value under a name. -/
def get? (r : Registry α) (name : String) : Option α :=
  r.entries.lookup name

/-- Whether there is a value under a name. -/
def contains (r : Registry α) (name : String) : Bool :=
  r.names.contains name

theorem nodup_names (r : Registry α) : r.names.Nodup :=
  r.nodup

/-- The names are those under which there is a value. -/
theorem mem_names_iff {r : Registry α} {name : String} :
    name ∈ r.names ↔ ∃ value, r.get? name = some value := by
  obtain ⟨entries, nodup⟩ := r
  simp only [names, get?]
  clear nodup
  induction entries with
  | nil => simp
  | cons entry rest ih =>
    obtain ⟨key, value⟩ := entry
    rw [List.map_cons, List.mem_cons, ih, Entries.lookup_cons]
    by_cases same : name = key <;> simp [same]

@[simp] theorem contains_iff {r : Registry α} {name : String} :
    r.contains name = true ↔ name ∈ r.names := by
  rw [contains, List.contains_iff_mem]

/-- The entry with the new value if it has the name, and otherwise the entry itself. -/
def replaceIn (name : String) (value : α) (entry : String × α) : String × α :=
  if entry.1 = name then (entry.1, value) else entry

theorem fst_replaceIn (name : String) (value : α) (entry : String × α) :
    (replaceIn name value entry).1 = entry.1 := by
  unfold replaceIn
  split <;> rfl

/-- The registry with a value under a name. A new name comes last. -/
def insert (r : Registry α) (name : String) (value : α) : Registry α :=
  if h : name ∈ r.names then
    { entries := r.entries.map (replaceIn name value)
      nodup := by
        rw [List.map_map]
        have same : Prod.fst ∘ replaceIn name value = Prod.fst :=
          funext (fst_replaceIn name value)
        rw [same]
        exact r.nodup }
  else
    { entries := r.entries ++ [(name, value)]
      nodup := by
        rw [List.map_append, List.nodup_append]
        refine ⟨r.nodup, by simp, ?_⟩
        intro other member last lastMember
        simp only [List.map_cons, List.map_nil, List.mem_singleton] at lastMember
        subst lastMember
        intro same
        exact h (same ▸ member) }

/-- A new value takes the place of an old one, and a new name comes behind the old ones. -/
theorem names_insert (r : Registry α) (name : String) (value : α) :
    (r.insert name value).names = if name ∈ r.names then r.names else r.names ++ [name] := by
  unfold insert
  split
  case isTrue =>
    simp only [names, List.map_map]
    exact congrArg (List.map · r.entries) (funext (fst_replaceIn name value))
  case isFalse => simp [names]

theorem lookup_map_replaceIn (name other : String) (value : α) (entries : List (String × α)) :
    (entries.map (replaceIn name value)).lookup other =
      if other = name ∧ name ∈ entries.map Prod.fst then some value else entries.lookup other := by
  induction entries with
  | nil => simp
  | cons entry rest ih =>
    obtain ⟨key, old⟩ := entry
    by_cases same : key = name
    · subst same
      simp only [List.map_cons, replaceIn, if_true, Entries.lookup_cons, ih]
      by_cases here : other = key <;> simp [here]
    · simp only [List.map_cons, replaceIn, same, if_false, Entries.lookup_cons, ih, List.mem_cons,
        Ne.symm same, false_or]
      by_cases here : other = key
      · subst here
        simp [same]
      · simp [here]

/-- A value is found under the name it was entered under, and nothing changes under other names. -/
theorem get?_insert (r : Registry α) (name other : String) (value : α) :
    (r.insert name value).get? other = if other = name then some value else r.get? other := by
  unfold insert
  split
  case isTrue old =>
    have old : name ∈ r.entries.map Prod.fst := old
    simp only [get?, lookup_map_replaceIn, old, and_true]
  case isFalse new => exact Entries.lookup_concat new other value

/-- The registry with the values of a list of entries, entered one after the other. -/
def insertAll (r : Registry α) (entries : List (String × α)) : Registry α :=
  entries.foldl (fun r entry => r.insert entry.1 entry.2) r

/-- The registry of a list of entries, in which a later value of a name replaces an earlier one. -/
def ofList (entries : List (String × α)) : Registry α :=
  empty.insertAll entries

/-- The registry with each value changed according to its name. -/
def mapValues (f : String → α → α) (r : Registry α) : Registry α where
  entries := r.entries.map fun entry => (entry.1, f entry.1 entry.2)
  nodup := by
    rw [List.map_map]
    exact r.nodup

@[simp] theorem names_mapValues (f : String → α → α) (r : Registry α) :
    (r.mapValues f).names = r.names :=
  List.map_map

/-- A value is changed under the name it is found under. -/
theorem get?_mapValues (f : String → α → α) (r : Registry α) (name : String) :
    (r.mapValues f).get? name = (r.get? name).map (f name) := by
  obtain ⟨entries, nodup⟩ := r
  simp only [get?, mapValues]
  clear nodup
  induction entries with
  | nil => rfl
  | cons entry rest ih =>
    obtain ⟨key, value⟩ := entry
    rw [List.map_cons, Entries.lookup_cons, Entries.lookup_cons, ih]
    split
    case isTrue same => rw [same]; rfl
    case isFalse => rfl

end Registry

end TexFormula
