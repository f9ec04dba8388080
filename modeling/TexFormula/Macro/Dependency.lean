import TexFormula.Macro

/-! Dependencies between macros. A macro depends on the macros its body calls. One that depends on
itself, directly or through others, cannot be expanded; all others can be put in an order in which
each one follows those it depends on. -/
namespace TexFormula.Macro

/-- The macros of a table that a macro's body calls. -/
def Table.dependencies (table : Table) (name : String) : List String :=
  match table.get? name with
  | none => []
  | some m => ((m.body.filter Token.isCommand).map (·.value)).filter table.contains

/-- Whether the search for `target` from the names in `todo` finds it. Names that were visited are
no longer among the `unseen` ones. -/
def reaches (next : String → List String) (target : String) (unseen todo : List String) : Bool :=
  match todo with
  | [] => false
  | name :: rest =>
    if name = target then true
    else if name ∈ unseen then reaches next target (unseen.erase name) (next name ++ rest)
    else reaches next target unseen rest
termination_by (unseen.length, todo.length)
decreasing_by
  · have := List.length_erase_of_mem ‹name ∈ unseen›
    have := List.length_pos_of_mem ‹name ∈ unseen›
    exact Prod.Lex.left _ _ (by omega)
  · exact Prod.Lex.right _ (by simp)

/-- The number of active names that a name depends on. -/
def waitCount (next : String → List String) (active : List String) (name : String) : Nat :=
  active.countP (next name).contains

/-- A waiting name and the number of names it waits for, after `name` has come. -/
def countDown (next : String → List String) (name : String) (entry : String × Nat) :
    String × Nat :=
  if (next entry.1).contains name then (entry.1, entry.2 - 1) else entry

/-- The waiting names, each with the number of names it waits for, after `name` has come. -/
def countAll (next : String → List String) (name : String) (waiting : List (String × Nat)) :
    List (String × Nat) :=
  waiting.map (countDown next name)

/-- The names that wait for nothing any more. -/
def freed (counted : List (String × Nat)) : List String :=
  (counted.filter (·.2 = 0)).map Prod.fst

/-- The names that still wait, with the number of names they wait for. -/
def blocked (counted : List (String × Nat)) : List (String × Nat) :=
  counted.filter (·.2 ≠ 0)

theorem length_freed_add_blocked (counted : List (String × Nat)) :
    (freed counted).length + (blocked counted).length = counted.length := by
  simpa [freed, blocked, List.countP_eq_length_filter] using
    (List.length_eq_countP_add_countP (l := counted) fun entry => entry.2 = 0).symm

/-- The order in which the ready names come, and those of the waiting names that become ready. Of
the names that become ready with one name the last comes next, before all that were ready already.
-/
def releaseOrder (next : String → List String) (ready : List String)
    (waiting : List (String × Nat)) : List String :=
  match ready with
  | [] => []
  | name :: rest =>
    let counted := countAll next name waiting
    name :: releaseOrder next ((freed counted).reverse ++ rest) (blocked counted)
termination_by ready.length + waiting.length
decreasing_by
  have parts := length_freed_add_blocked (countAll next name waiting)
  have same : (countAll next name waiting).length = waiting.length := List.length_map _
  simp only [List.length_append, List.length_reverse, List.length_cons]
  omega

/-- The active names in an order in which each one follows the active ones it depends on. Those
that depend on themselves, directly or through others, are left out, and so are those that depend on
one that is left out. -/
def dependencyOrder (next : String → List String) (active : List String) : List String :=
  let counted := active.map fun name => (name, waitCount next active name)
  releaseOrder next (freed counted) (blocked counted)

/-- The macros that depend on themselves, directly or through others. They are among those that are
left out of the order of all macros, and only these are searched. -/
def Table.cyclicNames (table : Table) : List String :=
  let order := dependencyOrder table.dependencies table.names
  let leftover := table.names.filter fun name => !order.contains name
  leftover.filter fun name => reaches table.dependencies name leftover (table.dependencies name)

/-- The macros that do not depend on themselves, each one after those of them it depends on. -/
def Table.flattenOrder (table : Table) : List String :=
  let cyclicNames := table.cyclicNames
  dependencyOrder table.dependencies (table.names.filter fun name => !cyclicNames.contains name)

end TexFormula.Macro
