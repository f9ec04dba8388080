import TexFormula.Registry

/-! Entries of registries. A registry is known by its entries, which are its values under their
names, and values under new names come behind the old ones (`entries_insertAll_of_new`). -/
namespace TexFormula.Registry

variable {α : Type} {r other : Registry α} {name : String} {value : α}

theorem eq_of_entries (same : r.entries = other.entries) : r = other := by
  obtain ⟨entries, nodup⟩ := r
  cases same
  rfl

/-- What is found under a name is the only entry of that name. -/
theorem mem_entries_iff : (name, value) ∈ r.entries ↔ r.get? name = some value := by
  refine ⟨fun member => ?_, Entries.mem_of_lookup⟩
  obtain ⟨entries, nodup⟩ := r
  change entries.lookup name = some value
  induction entries with
  | nil => cases member
  | cons entry rest ih =>
    obtain ⟨key, old⟩ := entry
    obtain ⟨fresh, distinct⟩ := List.nodup_cons.mp nodup
    rw [Entries.lookup_cons]
    rcases List.mem_cons.mp member with same | later
    · cases same
      exact if_pos rfl
    · have apart : name ≠ key := fun same =>
        fresh (List.mem_map.mpr ⟨(name, value), later, same⟩)
      rw [if_neg apart]
      exact ih distinct later

theorem entries_insert_of_new (new : name ∉ r.names) (value : α) :
    (r.insert name value).entries = r.entries ++ [(name, value)] := by
  rw [insert, dif_neg new]

/-- Entries with new names come behind the old ones as they are. -/
theorem entries_insertAll_of_new {entries : List (String × α)}
    (distinct : (entries.map Prod.fst).Nodup) (new : ∀ entry ∈ entries, entry.1 ∉ r.names) :
    (r.insertAll entries).entries = r.entries ++ entries := by
  induction entries generalizing r with
  | nil => exact (List.append_nil _).symm
  | cons entry rest ih =>
    obtain ⟨fresh, distinct⟩ := List.nodup_cons.mp distinct
    have first := new entry List.mem_cons_self
    have apart : ∀ later ∈ rest, later.1 ∉ (r.insert entry.1 entry.2).names := by
      intro later member
      rw [names_insert, if_neg first, List.mem_append, List.mem_singleton]
      rintro (old | same)
      · exact new later (List.mem_cons_of_mem _ member) old
      · exact fresh (same ▸ List.mem_map_of_mem member)
    have behind := ih distinct apart
    rw [entries_insert_of_new first, List.append_assoc] at behind
    exact behind

/-- Under other names nothing changes. -/
theorem get?_insertAll_of_new {entries : List (String × α)}
    (new : name ∉ entries.map Prod.fst) : (r.insertAll entries).get? name = r.get? name := by
  induction entries generalizing r with
  | nil => rfl
  | cons entry rest ih =>
    obtain ⟨apart, later⟩ := not_or.mp (mt List.mem_cons.mpr new)
    have behind := ih (r := r.insert entry.1 entry.2) later
    rw [get?_insert, if_neg apart] at behind
    exact behind

theorem names_insertAll {entries : List (String × α)}
    (member : name ∈ (r.insertAll entries).names) :
    name ∈ r.names ∨ name ∈ entries.map Prod.fst := by
  by_cases new : name ∈ entries.map Prod.fst
  · exact .inr new
  · rw [mem_names_iff, get?_insertAll_of_new new] at member
    exact .inl (mem_names_iff.mpr member)

end TexFormula.Registry
