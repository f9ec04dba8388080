import TexFormula.Proofs.Table.Stable

/-! The content of a table cut into rows and cells. The pieces of a list, joined again with one node
between any two of them, are the list with that node for each of those it was cut at
(`intercalate_pieces`). A break at the end of the content is left out before it is cut
(`rows_eq_pieces`), so the rows and cells are the content without that break (`joinGrid_grid`). -/
namespace TexFormula.Table

variable {p : Node → Bool} {n : Node} {nodes front rest : List Node}

/-! ### Pieces -/

theorem pieces_ne_nil (p : Node → Bool) (nodes : List Node) : pieces p nodes ≠ [] := by
  cases nodes with
  | nil => exact List.cons_ne_nil _ _
  | cons n rest =>
    unfold pieces
    split
    · exact List.cons_ne_nil _ _
    · split <;> exact List.cons_ne_nil _ _

theorem pieces_of_end (ends : p n = true) (rest : List Node) :
    pieces p (n :: rest) = [] :: pieces p rest := by
  rw [pieces, if_pos ends]

/-- A node that ends no piece is the first of the piece behind it. -/
theorem pieces_of_inside (inside : p n = false) {piece : List Node} {more : List (List Node)}
    (cut : pieces p rest = piece :: more) : pieces p (n :: rest) = (n :: piece) :: more := by
  rw [pieces, if_neg (Bool.eq_false_iff.mp inside), cut]

theorem pieces_append (inside : ∀ m ∈ front, p m = false) (ends : p n = true) (rest : List Node) :
    pieces p (front ++ n :: rest) = front :: pieces p rest := by
  induction front with
  | nil => exact pieces_of_end ends rest
  | cons m front ih =>
    obtain ⟨here, later⟩ := List.forall_mem_cons.mp inside
    exact pieces_of_inside here (ih later)

theorem pieces_of_none (inside : ∀ m ∈ nodes, p m = false) : pieces p nodes = [nodes] := by
  induction nodes with
  | nil => rfl
  | cons m rest ih =>
    obtain ⟨here, later⟩ := List.forall_mem_cons.mp inside
    exact pieces_of_inside here (ih later)

/-- An end behind a list leaves an empty piece behind its pieces. -/
theorem pieces_concat (ends : p n = true) (nodes : List Node) :
    pieces p (nodes ++ [n]) = pieces p nodes ++ [[]] := by
  induction nodes with
  | nil => exact pieces_of_end ends []
  | cons m rest ih =>
    cases here : p m with
    | true => rw [List.cons_append, pieces_of_end here, pieces_of_end here, ih, List.cons_append]
    | false =>
      obtain ⟨piece, more, cut⟩ := List.exists_cons_of_ne_nil (pieces_ne_nil p rest)
      rw [cut, List.cons_append] at ih
      rw [List.cons_append, pieces_of_inside here ih, pieces_of_inside here cut, List.cons_append]

/-- Pieces whose nodes are changed and which are joined again are the changed list, with one and the
same node for each of those at which it was cut. -/
theorem intercalate_pieces (p : Node → Bool) (change : Node → Node) (separator : Node)
    (nodes : List Node) :
    [separator].intercalate ((pieces p nodes).map (List.map change)) =
      nodes.map fun n => if p n then separator else change n := by
  induction nodes with
  | nil => rfl
  | cons n rest ih =>
    obtain ⟨piece, more, cut⟩ := List.exists_cons_of_ne_nil (pieces_ne_nil p rest)
    rw [cut, List.map_cons] at ih
    cases here : p n with
    | true =>
      rw [pieces_of_end here, cut, List.map_cons, List.map_cons, List.intercalate_cons_cons, ih,
        List.map_cons, if_pos here]
      rfl
    | false =>
      rw [pieces_of_inside here cut, List.map_cons, List.map_cons, List.map_cons,
        if_neg (Bool.eq_false_iff.mp here), ← ih]
      cases more with
      | nil => rw [List.map_nil, List.intercalate_singleton, List.intercalate_singleton]
      | cons next more => simp only [List.map_cons, List.intercalate_cons_cons, List.cons_append]

theorem length_pieces (p : Node → Bool) (nodes : List Node) :
    (pieces p nodes).length = nodes.countP p + 1 := by
  induction nodes with
  | nil => rfl
  | cons n rest ih =>
    cases here : p n with
    | true => rw [pieces_of_end here, List.length_cons, ih, List.countP_cons_of_pos here]
    | false =>
      obtain ⟨piece, more, cut⟩ := List.exists_cons_of_ne_nil (pieces_ne_nil p rest)
      rw [pieces_of_inside here cut, List.countP_cons_of_neg (Bool.eq_false_iff.mp here), ← ih, cut]
      rfl

/-- No piece has a node at which the list was cut. -/
theorem inside_of_mem_pieces {piece : List Node} (there : piece ∈ pieces p nodes) :
    ∀ n ∈ piece, p n = false := by
  induction nodes generalizing piece with
  | nil =>
    cases List.mem_singleton.mp there
    exact List.forall_mem_nil _
  | cons n rest ih =>
    cases here : p n with
    | true =>
      rw [pieces_of_end here] at there
      obtain empty | later := List.mem_cons.mp there
      · exact empty ▸ List.forall_mem_nil _
      · exact ih later
    | false =>
      obtain ⟨first, more, cut⟩ := List.exists_cons_of_ne_nil (pieces_ne_nil p rest)
      rw [pieces_of_inside here cut] at there
      obtain same | later := List.mem_cons.mp there
      · exact same ▸ List.forall_mem_cons.mpr ⟨here, ih (cut ▸ List.mem_cons_self)⟩
      · exact ih (cut ▸ List.mem_cons_of_mem _ later)

/-- The pieces have all nodes of the list in their order, but for those at which it was cut. -/
theorem flatten_pieces (p : Node → Bool) (nodes : List Node) :
    (pieces p nodes).flatten = nodes.filter fun n => !p n := by
  induction nodes with
  | nil => rfl
  | cons n rest ih =>
    cases here : p n with
    | true => rw [pieces_of_end here, List.flatten_cons, ih, List.nil_append,
        List.filter_cons_of_neg (by simp [here])]
    | false =>
      obtain ⟨piece, more, cut⟩ := List.exists_cons_of_ne_nil (pieces_ne_nil p rest)
      rw [pieces_of_inside here cut, List.flatten_cons, List.cons_append, ← List.flatten_cons, ← cut,
        ih, List.filter_cons_of_pos (by simp [here])]

/-- The last piece has a node unless there is none behind the last end. -/
theorem getLast?_pieces_of_inside (inside : p n = false) (nodes : List Node) :
    (pieces p (nodes ++ [n])).getLast? ≠ some [] := by
  induction nodes with
  | nil =>
    rw [List.nil_append, pieces_of_none (List.forall_mem_singleton.mpr inside)]
    simp
  | cons m rest ih =>
    obtain ⟨piece, more, cut⟩ := List.exists_cons_of_ne_nil (pieces_ne_nil p (rest ++ [n]))
    rw [cut] at ih
    cases here : p m with
    | true =>
      rw [List.cons_append, pieces_of_end here, cut, List.getLast?_cons_cons]
      exact ih
    | false =>
      rw [List.cons_append, pieces_of_inside here cut]
      cases more with
      | nil => simp
      | cons next more =>
        rw [List.getLast?_cons_cons] at ih ⊢
        exact ih

/-! ### Rows and cells -/

/-- The content of a table without a row break at its end. -/
def withoutLastBreak (nodes : List Node) : List Node :=
  if nodes.getLast?.any (·.marks.rowBreak) then nodes.dropLast else nodes

theorem mem_of_mem_withoutLastBreak (member : n ∈ withoutLastBreak nodes) : n ∈ nodes := by
  unfold withoutLastBreak at member
  split at member
  · exact List.dropLast_subset _ member
  · exact member

/-- Content that there is has one row more than it has breaks, the last one not counted. -/
theorem rows_eq_pieces (some : nodes ≠ []) :
    rows nodes = pieces (·.marks.rowBreak) (withoutLastBreak nodes) := by
  obtain ⟨front, last, rfl⟩ : ∃ front last, nodes = front ++ [last] :=
    ⟨_, _, (List.dropLast_concat_getLast some).symm⟩
  rw [withoutLastBreak, List.getLast?_concat, List.dropLast_concat]
  cases ends : last.marks.rowBreak with
  | true =>
    rw [rows, pieces_concat (p := (·.marks.rowBreak)) ends, List.getLast?_concat]
    simp [ends]
  | false =>
    have full := getLast?_pieces_of_inside (p := (·.marks.rowBreak)) ends front
    rw [Option.any_some, ends, if_neg Bool.false_ne_true, rows]
    split
    case h_1 empty => exact absurd empty full
    case h_2 => rfl

theorem rows_nil : rows [] = [] := rfl

theorem length_rows (nodes : List Node) :
    (rows nodes).length =
      if nodes = [] then 0 else (withoutLastBreak nodes).countP (·.marks.rowBreak) + 1 := by
  split
  case isTrue empty => rw [empty, rows_nil, List.length_nil]
  case isFalse some => rw [rows_eq_pieces some, length_pieces]

/-- The content of a table as rows of cells. -/
def grid (nodes : List Node) : List (List (List Node)) :=
  (rows nodes).map cells

/-- The content of a table from its rows of cells, with one node between two rows and another one
between two cells. -/
def joinGrid (rowBreak cellBreak : Node) (grid : List (List (List Node))) : List Node :=
  [rowBreak].intercalate (grid.map ([cellBreak].intercalate ·))

/-- A node, or what stands for it between two rows or cells. -/
def breakAs (rowBreak cellBreak n : Node) : Node :=
  if n.marks.rowBreak then rowBreak else if n.marks.cellBreak then cellBreak else n

/-- Cutting the content into cells and joining them again gives the content, but for a break at its
end, with the nodes of the joining for the breaks. -/
theorem joinGrid_grid (rowBreak cellBreak : Node) (nodes : List Node) :
    joinGrid rowBreak cellBreak (grid nodes) =
      (withoutLastBreak nodes).map (breakAs rowBreak cellBreak) := by
  have inner : ∀ row, [cellBreak].intercalate (cells row) =
      row.map fun n => if n.marks.cellBreak then cellBreak else n := fun row => by
    have joined := intercalate_pieces (·.marks.cellBreak) id cellBreak row
    rwa [List.map_id_fun, List.map_id] at joined
  by_cases empty : nodes = []
  · subst empty
    rfl
  · rw [joinGrid, grid, List.map_map, rows_eq_pieces empty]
    exact (congrArg _ (List.map_congr_left fun row _ => inner row)).trans
      (intercalate_pieces (·.marks.rowBreak) _ rowBreak _)

/-- The cells have all nodes of the content in their order, but for the breaks. -/
theorem flatten_grid (nodes : List Node) :
    (grid nodes).flatten.flatten = nodes.filter fun n => !n.marks.isBreak := by
  have rows_flatten : (rows nodes).flatten = nodes.filter fun n => !n.marks.rowBreak := by
    rw [← flatten_pieces (·.marks.rowBreak), rows]
    split
    case h_1 last =>
      obtain ⟨front, whole⟩ := List.getLast?_eq_some_iff.mp last
      rw [whole, List.dropLast_concat, List.flatten_append]
      simp
    case h_2 => rfl
  have inner : ∀ contents : List (List Node),
      (contents.map cells).flatten.flatten = contents.flatten.filter fun n => !n.marks.cellBreak := by
    intro contents
    induction contents with
    | nil => rfl
    | cons content rest ih =>
      rw [List.map_cons, List.flatten_cons, List.flatten_append, ih, cells, flatten_pieces,
        List.flatten_cons, List.filter_append]
  rw [grid, inner, rows_flatten, List.filter_filter]
  congr 1
  funext n
  rw [Marks.isBreak, Bool.not_or, Bool.and_comm]

/-- No cell has a break in it, and no row is without a cell. -/
theorem grid_free {row : List (List Node)} (there : row ∈ grid nodes) :
    row ≠ [] ∧ ∀ cell ∈ row, ∀ n ∈ cell, n.marks.isBreak = false := by
  obtain ⟨content, among, rfl⟩ := List.mem_map.mp there
  refine ⟨pieces_ne_nil _ _, fun cell inside n member => ?_⟩
  have some : nodes ≠ [] := by
    rintro rfl
    cases among
  rw [rows_eq_pieces some] at among
  have noCell : n.marks.cellBreak = false := inside_of_mem_pieces inside n member
  have noRow : n.marks.rowBreak = false :=
    inside_of_mem_pieces among n (mem_of_mem_pieces inside member)
  rw [Marks.isBreak, noCell, noRow, Bool.or_false]

end TexFormula.Table
