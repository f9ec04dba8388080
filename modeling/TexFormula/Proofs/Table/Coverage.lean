import TexFormula.Proofs.Table.Cutting

/-! Which cells of a table are laid out. The content of a table is a grid of cells, and a cell of the
grid has a place in the table unless a cell above it or one to its left covers it. This module says
so for every place by itself: how many further rows its column is covered for (`coverAt`), and how
many further columns of its row are skipped there (`skipAt`). The table has a row for each row of
the grid, and in it a cell for each of those that are laid (`children_ofRow`). -/
namespace TexFormula.Table

variable {spec : ColumnSpec} {alone : Bool} {n : Node} {nodes : List Node}

/-! ### The content of a cell -/

/-- The number of rows or columns that a cell asks for by an attribute of its nodes. Of several
numbers the last one counts. -/
def asked? (name : String) (content : List Node) : Option Nat :=
  (content.filterMap fun n => (n.attribute? name).bind readSpan?).getLast?

/-- The number of rows or columns that a cell covers besides its own. -/
def further (name : String) (content : List Node) : Nat :=
  ((asked? name content).map (· - 1)).getD 0

/-- The spacing that the nodes of a cell ask for below their row. -/
def spacing? (content : List Node) : Option String :=
  (content.filterMap (·.attribute? "rowspacing")).getLast?

/-- What a node becomes in a cell. -/
def placed (alone : Bool) (n : Node) : Node :=
  let start : Cell := { node := {} }
  (start.spanColumns alone (start.spanRows alone n).2).2

/-- The last node that gives a value decides. -/
theorem foldl_eq_getLast? {α : Type} {step : Cell → Node → Cell} (value : Cell → α)
    {f : Node → Option α} (last : ∀ cell n, value (step cell n) = (f n).getD (value cell))
    (start : Cell) (nodes : List Node) :
    value (nodes.foldl step start) = ((nodes.filterMap f).getLast?).getD (value start) := by
  induction nodes generalizing start with
  | nil => rfl
  | cons n rest ih =>
    rw [List.foldl_cons, ih, last, List.filterMap_cons]
    cases f n with
    | none => rfl
    | some a => rw [List.getLast?_cons, Option.getD_some, Option.getD_some]

theorem getLast?_filterMap_map {α β : Type} (f : Node → Option α) (g : α → β) (nodes : List Node) :
    (nodes.filterMap fun n => (f n).map g).getLast? = ((nodes.filterMap f).getLast?).map g := by
  rw [← List.map_filterMap, List.getLast?_map]

/-- Spanning rows changes attributes of the cell and of the node only. -/
theorem spanRows_eq (cell : Cell) (alone : Bool) (n : Node) :
    (cell.spanRows alone n).1.below =
        (((n.attribute? "rowspan").bind readSpan?).map (· - 1)).getD cell.below ∧
      (cell.spanRows alone n).1.beside = cell.beside ∧
      (cell.spanRows alone n).1.spacing = cell.spacing ∧
      (cell.spanRows alone n).1.node.tag = cell.node.tag ∧
      (cell.spanRows alone n).1.node.children = cell.node.children ∧
      (cell.spanRows alone n).2 = (({ node := {} } : Cell).spanRows alone n).2 ∧
      (cell.spanRows alone n).2.attribute? "columnspan" = n.attribute? "columnspan" := by
  unfold Cell.spanRows
  cases asks : n.attribute? "rowspan" with
  | none => exact ⟨rfl, rfl, rfl, rfl, rfl, rfl, rfl⟩
  | some span =>
    have erased : (n.eraseAttribute "rowspan").attribute? "columnspan" = n.attribute? "columnspan" :=
      (Dictionary.get?_erase _ _ _).trans (if_neg (by decide))
    simp only [Option.bind_some]
    cases readSpan? span with
    | none => exact ⟨rfl, rfl, rfl, rfl, rfl, rfl, erased⟩
    | some count =>
      refine ⟨rfl, rfl, rfl, rfl, rfl, rfl, ?_⟩
      dsimp only
      split
      · exact ((Dictionary.get?_insert _ _ _ _).trans (if_neg (by decide))).trans erased
      · exact erased

/-- Spanning columns changes attributes of the cell and the node only. -/
theorem spanColumns_eq (cell : Cell) (alone : Bool) (n : Node) :
    (cell.spanColumns alone n).1.below = cell.below ∧
      (cell.spanColumns alone n).1.beside.getD 0 =
        (((n.attribute? "columnspan").bind readSpan?).map (· - 1)).getD (cell.beside.getD 0) ∧
      (cell.spanColumns alone n).1.spacing = cell.spacing ∧
      (cell.spanColumns alone n).1.node.tag = cell.node.tag ∧
      (cell.spanColumns alone n).1.node.children = cell.node.children ∧
      (cell.spanColumns alone n).2 = (({ node := {} } : Cell).spanColumns alone n).2 := by
  unfold Cell.spanColumns
  cases asks : n.attribute? "columnspan" with
  | none => exact ⟨rfl, rfl, rfl, rfl, rfl, rfl⟩
  | some span =>
    simp only [Option.bind_some]
    cases readSpan? span <;> exact ⟨rfl, rfl, rfl, rfl, rfl, rfl⟩

/-- A node that is added asks for spacing, for rows and for columns, one after the other. -/
theorem add_eq (cell : Cell) (alone : Bool) (n : Node) :
    cell.add alone n =
      let start : Cell := { cell with spacing := (n.attribute? "rowspacing").or cell.spacing }
      let rows := start.spanRows alone n
      let columns := rows.1.spanColumns alone rows.2
      { columns.1 with node := columns.1.node.append [columns.2] } := by
  simp only [Cell.add]
  cases n.attribute? "rowspacing" with
  | none => simp only [Option.none_or]
  | some spacing => simp only [Option.some_or]

/-- The node of a cell gets what is added as its last child. -/
theorem node_add (cell : Cell) (alone : Bool) (n : Node) :
    (cell.add alone n).node.tag = cell.node.tag ∧
      (cell.add alone n).node.children = cell.node.children ++ [placed alone n] := by
  let start : Cell := { cell with spacing := (n.attribute? "rowspacing").or cell.spacing }
  let rows := start.spanRows alone n
  let columns := rows.1.spanColumns alone rows.2
  obtain ⟨-, -, -, rowsTag, rowsChildren, rowsGive, -⟩ := spanRows_eq start alone n
  obtain ⟨-, -, -, columnsTag, columnsChildren, columnsGive⟩ := spanColumns_eq rows.1 alone rows.2
  have kept : columns.1.node.children = cell.node.children := columnsChildren.trans rowsChildren
  have given : columns.2 = placed alone n :=
    columnsGive.trans (congrArg (fun m => (({ node := {} } : Cell).spanColumns alone m).2) rowsGive)
  rw [add_eq, ← kept, ← given]
  exact ⟨columnsTag.trans rowsTag, rfl⟩

theorem below_add (cell : Cell) (alone : Bool) (n : Node) :
    (cell.add alone n).below =
      (((n.attribute? "rowspan").bind readSpan?).map (· - 1)).getD cell.below := by
  rw [add_eq]
  exact (spanColumns_eq _ _ _).1.trans (spanRows_eq _ _ _).1

theorem beside_add (cell : Cell) (alone : Bool) (n : Node) :
    (cell.add alone n).beside.getD 0 =
      (((n.attribute? "columnspan").bind readSpan?).map (· - 1)).getD (cell.beside.getD 0) := by
  let start : Cell := { cell with spacing := (n.attribute? "rowspacing").or cell.spacing }
  obtain ⟨-, rows, -, -, -, -, kept⟩ := spanRows_eq start alone n
  rw [add_eq]
  exact (spanColumns_eq _ _ _).2.1.trans (by rw [kept, rows])

theorem spacing_add (cell : Cell) (alone : Bool) (n : Node) :
    (cell.add alone n).spacing = ((n.attribute? "rowspacing").map some).getD cell.spacing := by
  let start : Cell := { cell with spacing := (n.attribute? "rowspacing").or cell.spacing }
  have asked : start.spacing = ((n.attribute? "rowspacing").map some).getD cell.spacing := by
    change (n.attribute? "rowspacing").or cell.spacing = _
    cases n.attribute? "rowspacing" <;> rfl
  rw [add_eq]
  exact (spanColumns_eq _ _ _).2.2.1.trans ((spanRows_eq _ _ _).2.2.1.trans asked)

/-- The cell that is put together starts as one without content. -/
theorem ofNodes_start (spec : ColumnSpec) (column : Nat) (content : List Node) :
    ∃ start : Cell, start.node.tag = "mtd" ∧ start.node.children = [] ∧ start.below = 0 ∧
      start.beside = none ∧ start.spacing = none ∧
      Cell.ofNodes spec column content =
        content.foldl (Cell.add (content.length == 1)) start := by
  unfold Cell.ofNodes
  cases spec.alignAt? column <;> exact ⟨_, rfl, rfl, rfl, rfl, rfl, rfl⟩

/-- The node of a cell holds what is in the cell. -/
theorem node_ofNodes (spec : ColumnSpec) (column : Nat) (content : List Node) :
    (Cell.ofNodes spec column content).node.tag = "mtd" ∧
      (Cell.ofNodes spec column content).node.children =
        content.map (placed (content.length == 1)) := by
  have filled : ∀ (alone : Bool) (nodes : List Node) (cell : Cell),
      (nodes.foldl (Cell.add alone) cell).node.tag = cell.node.tag ∧
        (nodes.foldl (Cell.add alone) cell).node.children =
          cell.node.children ++ nodes.map (placed alone) := by
    intro alone nodes
    induction nodes with
    | nil => exact fun cell => ⟨rfl, (List.append_nil _).symm⟩
    | cons n rest ih =>
      intro cell
      obtain ⟨tag, children⟩ := node_add cell alone n
      obtain ⟨tags, more⟩ := ih (cell.add alone n)
      rw [List.foldl_cons, tags, more, children, List.append_assoc, List.singleton_append,
        List.map_cons]
      exact ⟨tag, rfl⟩
  obtain ⟨start, tag, empty, -, -, -, folded⟩ := ofNodes_start spec column content
  obtain ⟨tag', children⟩ := filled (content.length == 1) content start
  rw [folded, tag', tag, children, empty, List.nil_append]
  exact ⟨rfl, rfl⟩

/-- A cell covers the rows that its nodes ask for. -/
theorem below_ofNodes (spec : ColumnSpec) (column : Nat) (content : List Node) :
    (Cell.ofNodes spec column content).below = further "rowspan" content := by
  obtain ⟨start, -, -, none, -, -, folded⟩ := ofNodes_start spec column content
  rw [folded, foldl_eq_getLast? Cell.below fun cell n => below_add cell _ n, getLast?_filterMap_map,
    none, further, asked?]

/-- A cell covers the columns that its nodes ask for. -/
theorem beside_ofNodes (spec : ColumnSpec) (column : Nat) (content : List Node) :
    (Cell.ofNodes spec column content).beside.getD 0 = further "columnspan" content := by
  obtain ⟨start, -, -, -, none, -, folded⟩ := ofNodes_start spec column content
  have last := foldl_eq_getLast? (fun cell => cell.beside.getD 0)
    (fun cell n => beside_add cell (content.length == 1) n) start content
  rw [folded, last, getLast?_filterMap_map, none, further, asked?, Option.getD_none]

/-- A cell asks for the spacing that its nodes ask for. -/
theorem spacing_ofNodes (spec : ColumnSpec) (column : Nat) (content : List Node) :
    (Cell.ofNodes spec column content).spacing = spacing? content := by
  obtain ⟨start, -, -, -, -, none, folded⟩ := ofNodes_start spec column content
  rw [folded, foldl_eq_getLast? Cell.spacing fun cell n => spacing_add cell _ n,
    getLast?_filterMap_map, none, spacing?]
  cases (content.filterMap (·.attribute? "rowspacing")).getLast? <;> rfl

/-! ### Places -/

/-- How many further columns a row skips in front of a column, where `covered` says for how many
further rows each column is covered. A column that is covered is not counted. -/
def skipAt (covered : Nat → Nat) (row : List (List Node)) : Nat → Nat
  | 0 => 0
  | column + 1 =>
    if 0 < covered column then skipAt covered row column
    else match skipAt covered row column with
      | 0 => further "columnspan" (row.getD column [])
      | left + 1 => left

/-- For how many further rows a column is covered behind a row. Only a cell of the row counts as a
row there. -/
def coverBelow (covered : Nat → Nat) (row : List (List Node)) (column : Nat) : Nat :=
  match row[column]?, covered column with
  | none, left => left
  | some _, left + 1 => left
  | some content, 0 =>
    if skipAt covered row column = 0 then further "rowspan" content else 0

/-- For how many further rows each column is covered in front of a row of a grid. -/
def coverAt (g : List (List (List Node))) : Nat → Nat → Nat
  | 0 => fun _ => 0
  | r + 1 => coverBelow (coverAt g r) (g.getD r [])

/-- Whether there is a place for a cell in a column of a row. -/
def isFree (covered : Nat → Nat) (row : List (List Node)) (column : Nat) : Bool :=
  covered column == 0 && skipAt covered row column == 0

theorem isFree_iff {covered : Nat → Nat} {row : List (List Node)} {c : Nat} :
    isFree covered row c = true ↔ covered c = 0 ∧ skipAt covered row c = 0 := by
  rw [isFree, Bool.and_eq_true, beq_iff_eq, beq_iff_eq]

/-- A column that is covered from above is not counted where columns are skipped. -/
theorem skipAt_succ_of_covered {covered : Nat → Nat} {row : List (List Node)} {c : Nat}
    (above : 0 < covered c) : skipAt covered row (c + 1) = skipAt covered row c := by
  rw [skipAt, if_pos above]

theorem skipAt_succ_of_skipped {covered : Nat → Nat} {row : List (List Node)} {c left : Nat}
    (above : covered c = 0) (skipped : skipAt covered row c = left + 1) :
    skipAt covered row (c + 1) = left := by
  rw [skipAt, above, if_neg (Nat.lt_irrefl 0), skipped]

/-- A cell that is laid says how many columns are skipped behind it. -/
theorem skipAt_succ_of_isFree {covered : Nat → Nat} {row : List (List Node)} {c : Nat}
    (free : isFree covered row c = true) :
    skipAt covered row (c + 1) = further "columnspan" (row.getD c []) := by
  obtain ⟨above, skipped⟩ := isFree_iff.mp free
  rw [skipAt, above, if_neg (Nat.lt_irrefl 0), skipped]

/-- A row as it is laid from a column on: it has the cells for which there is a place. -/
structure Line.Lays (line : Line) (spec : ColumnSpec) (covered : Nat → Nat)
    (row : List (List Node)) (columns : List Nat) : Prop where
  cells : line.cells =
    (columns.filter (isFree covered row)).map fun c => (Cell.ofNodes spec c (row.getD c [])).node
  spacing : line.spacing =
    spacing? ((columns.filter (isFree covered row)).flatMap (row.getD · []))

theorem spacing?_append (front rest : List Node) :
    spacing? (front ++ rest) = (spacing? rest <|> spacing? front) := by
  rw [spacing?, List.filterMap_append, List.getLast?_append, Option.or_eq_orElse]
  rfl

section Line

variable {line : Line} {covered : Nat → Nat} {row : List (List Node)} {columns : List Nat} {c : Nat}

/-- A column without a place leaves a row as it is. -/
theorem Line.Lays.skip (lays : line.Lays spec covered row columns)
    (taken : isFree covered row c = false) (cover : List Nat) :
    ({ line with cover } : Line).Lays spec covered row (c :: columns) := by
  have taken : ¬ isFree covered row c = true := Bool.eq_false_iff.mp taken
  constructor
  · rw [List.filter_cons_of_neg taken]
    exact lays.cells
  · rw [List.filter_cons_of_neg taken]
    exact lays.spacing

/-- A column with a place begins a row with its cell. -/
theorem Line.Lays.place (lays : line.Lays spec covered row columns)
    (free : isFree covered row c = true) (cover : List Nat) :
    let cell := Cell.ofNodes spec c (row.getD c [])
    ({ cells := cell.node :: line.cells, cover, spacing := line.spacing <|> cell.spacing } :
      Line).Lays spec covered row (c :: columns) := by
  constructor
  · rw [List.filter_cons_of_pos free, List.map_cons, lays.cells]
  · rw [List.filter_cons_of_pos free, List.flatMap_cons, spacing?_append, spacing_ofNodes,
      lays.spacing]

theorem getD_cons_of {first column : Nat} {later : List Nat} {cover : Nat → Nat}
    (here : first = cover column) (next : ∀ i, later.getD i 0 = cover (column + 1 + i)) (i : Nat) :
    (first :: later).getD i 0 = cover (column + i) := by
  cases i with
  | zero => exact here
  | succ i =>
    rw [List.getD_cons_succ, next, Nat.add_assoc, Nat.add_comm 1]

theorem getD_uncons {cover : List Nat} {column : Nat}
    (same : ∀ i, cover.getD i 0 = covered (column + i)) :
    cover.headD 0 = covered column ∧ ∀ i, cover.tail.getD i 0 = covered (column + 1 + i) := by
  have next : ∀ i, cover.getD (i + 1) 0 = covered (column + 1 + i) := by
    intro i
    rw [same, Nat.add_assoc, Nat.add_comm 1]
  have first := same 0
  cases cover with
  | nil => exact ⟨first, next⟩
  | cons left cover => exact ⟨first, next⟩

/-- A row is laid column by column, with the cells that have a place, and covers what it leaves. -/
theorem layLine_spec (spec : ColumnSpec) (covered : Nat → Nat) (row : List (List Node))
    {column : Nat} {cover : List Nat} (same : ∀ i, cover.getD i 0 = covered (column + i))
    {rest : List (List Node)} (left : row.drop column = rest) :
    (layLine spec column (skipAt covered row column) cover rest).Lays spec covered row
        (List.range' column rest.length) ∧
      ∀ i, (layLine spec column (skipAt covered row column) cover rest).cover.getD i 0 =
        coverBelow covered row (column + i) := by
  induction rest generalizing column cover with
  | nil =>
    have beyond : row.length ≤ column := List.drop_eq_nil_iff.mp left
    refine ⟨⟨rfl, rfl⟩, fun i => ?_⟩
    rw [coverBelow, List.getElem?_eq_none (by omega)]
    exact same i
  | cons content rest ih =>
    have here : row[column]? = some content := by
      rw [← List.head?_drop, left, List.head?_cons]
    have later : row.drop (column + 1) = rest := by
      rw [← List.tail_drop, left, List.tail_cons]
    obtain ⟨first, beyond⟩ := getD_uncons same
    have given : content = row.getD column [] := by
      rw [List.getD_eq_getElem?_getD, here, Option.getD_some]
    obtain ⟨lays, covers⟩ := ih beyond later
    rw [List.length_cons, List.range'_succ]
    cases above : covered column with
    | succ left =>
      have taken : isFree covered row column = false := by simp [isFree, above]
      rw [skipAt_succ_of_covered (above ▸ Nat.succ_pos left)] at lays covers
      simp only [layLine, first, above]
      exact ⟨lays.skip taken _, getD_cons_of (by simp [coverBelow, here, above]) covers⟩
    | zero =>
      cases skipped : skipAt covered row column with
      | succ left =>
        have taken : isFree covered row column = false := by simp [isFree, skipped]
        rw [skipAt_succ_of_skipped above skipped] at lays covers
        simp only [layLine, first, above]
        exact ⟨lays.skip taken _,
          getD_cons_of (by simp [coverBelow, here, above, skipped]) covers⟩
      | zero =>
        have free : isFree covered row column = true := isFree_iff.mpr ⟨above, skipped⟩
        rw [skipAt_succ_of_isFree free, ← given, ← beside_ofNodes spec column] at lays covers
        simp only [layLine, first, above]
        refine ⟨?_, getD_cons_of ?_ covers⟩
        · rw [given] at lays ⊢
          exact lays.place free _
        · simp [coverBelow, here, above, skipped, below_ofNodes]

end Line

variable (g : List (List (List Node)))

/-- What a cell of a grid holds. -/
def cellAt (g : List (List (List Node))) (r c : Nat) : List Node :=
  (g.getD r []).getD c []

theorem mem_flatten_of_mem_getD {α : Type} {l : List (List α)} {i : Nat} {a : α}
    (there : a ∈ l.getD i []) : a ∈ l.flatten := by
  rw [List.getD_eq_getElem?_getD] at there
  cases found : l[i]? with
  | none =>
    rw [found] at there
    cases there
  | some piece =>
    rw [found] at there
    exact List.mem_flatten_of_mem (List.mem_of_getElem? found) there

/-- Whether a cell of a grid has a place in the table. -/
def Laid (g : List (List (List Node))) (r c : Nat) : Prop :=
  c < (g.getD r []).length ∧ isFree (coverAt g r) (g.getD r []) c = true

instance (g : List (List (List Node))) (r c : Nat) : Decidable (Laid g r c) :=
  inferInstanceAs (Decidable (_ ∧ _))

theorem laid_iff {g : List (List (List Node))} {r c : Nat} :
    Laid g r c ↔ c < (g.getD r []).length ∧ coverAt g r c = 0 ∧
      skipAt (coverAt g r) (g.getD r []) c = 0 := by
  rw [Laid, isFree_iff]

/-- The columns of a row whose cells have a place. -/
def laidColumns (g : List (List (List Node))) (r : Nat) : List Nat :=
  (List.range (g.getD r []).length).filter (isFree (coverAt g r) (g.getD r []))

/-- What the cells of a row hold that have a place. -/
def laidNodes (g : List (List (List Node))) (r : Nat) : List Node :=
  (laidColumns g r).flatMap (cellAt g r)

theorem mem_laidColumns {r c : Nat} : c ∈ laidColumns g r ↔ Laid g r c := by
  rw [laidColumns, List.mem_filter, List.mem_range, Laid]

/-- The row of a table that is made of a row of the grid. -/
def rowNode (spec : ColumnSpec) (g : List (List (List Node))) (r : Nat) : Node :=
  .branch "mtr" ((laidColumns g r).map fun c => (Cell.ofNodes spec c (cellAt g r c)).node)

theorem layLines_spec (spec : ColumnSpec) {r : Nat} {cover : List Nat}
    (same : ∀ i, cover.getD i 0 = coverAt g r i) {contents : List (List Node)}
    (left : g.drop r = contents.map cells) :
    (layLines spec cover contents).map (fun line => (line.node, line.spacing)) =
      (List.range' r contents.length).map fun r => (rowNode spec g r, spacing? (laidNodes g r)) := by
  induction contents generalizing r cover with
  | nil => rfl
  | cons content rest ih =>
    have here : g.getD r [] = cells content := by
      rw [List.getD_eq_getElem?_getD, ← List.head?_drop, left, List.map_cons, List.head?_cons,
        Option.getD_some]
    have later : g.drop (r + 1) = rest.map cells := by
      rw [← List.tail_drop, left, List.map_cons, List.tail_cons]
    have start : ∀ i, cover.getD i 0 = coverAt g r (0 + i) := fun i => by
      rw [Nat.zero_add]
      exact same i
    obtain ⟨⟨laid, asked⟩, covers⟩ :=
      layLine_spec spec (coverAt g r) (cells content) start List.drop_zero
    have next : ∀ i, (layLine spec 0 0 cover (cells content)).cover.getD i 0 =
        coverAt g (r + 1) i := fun i => by
      rw [coverAt, here]
      exact (covers i).trans (by rw [Nat.zero_add])
    rw [← List.range_eq_range'] at laid asked
    rw [layLines, List.map_cons, List.length_cons, List.range'_succ, List.map_cons,
      ih next later]
    congr 1
    have cell : cellAt g r = ((cells content).getD · []) := funext fun c => by rw [cellAt, here]
    rw [Line.node, rowNode, laidNodes, laidColumns, here, cell]
    exact Prod.ext (congrArg (Node.branch "mtr") laid) asked

/-! ### The table -/

/-- The specification of the columns of a table. -/
def columnsOf (n : Node) : ColumnSpec :=
  .parse (n.option.getD "")

/-- The rows of a table are those of its grid, each with the cells that have a place and with the
spacing that these ask for. -/
theorem lines_ofRow (n : Node) :
    (layLines (columnsOf n) [] (rows n.children)).map (fun line => (line.node, line.spacing)) =
      (List.range (grid n.children).length).map fun r =>
        (rowNode (columnsOf n) (grid n.children) r, spacing? (laidNodes (grid n.children) r)) := by
  have none : ∀ i, ([] : List Nat).getD i 0 = coverAt (grid n.children) 0 i := fun _ => rfl
  rw [List.range_eq_range', grid, List.length_map]
  exact layLines_spec _ _ none rfl

theorem children_ofRow (n : Node) :
    (ofRow n).children =
      (List.range (grid n.children).length).map (rowNode (columnsOf n) (grid n.children)) := by
  have rows := congrArg (List.map Prod.fst) (lines_ofRow n)
  rwa [List.map_map, List.map_map] at rows

theorem spacings_ofRow (n : Node) :
    (layLines (columnsOf n) [] (rows n.children)).map Line.spacing =
      (List.range (grid n.children).length).map fun r =>
        spacing? (laidNodes (grid n.children) r) := by
  have rows := congrArg (List.map Prod.snd) (lines_ofRow n)
  rwa [List.map_map, List.map_map] at rows

end TexFormula.Table
