import Mathlib.Data.List.Forall2
import TexFormula.Plan.Step
import TexFormula.Proofs.Table.Coverage

/-! Tables with spans and without. Without spans a table is its content cut into cells, and nothing
else happens to it (`contents_ofRow`). A cell that spans rows or columns covers others, and these
have no place in the table. A span is used up by the cells it covers: one over rows by the cells
below it in its column, and one over columns by the cells to its right that are not covered from
above. -/
namespace TexFormula.Table

open Node

variable {n : Node} {g : List (List (List Node))} {r c : Nat}

/-! ### Rows -/

/-- How many of some rows below a row have a cell in a column. -/
def cellsBelow (g : List (List (List Node))) (r c rows : Nat) : Nat :=
  (List.range' (r + 1) rows).countP fun s => c < (g.getD s []).length

theorem cellsBelow_succ (g : List (List (List Node))) (r c rows : Nat) :
    cellsBelow g r c (rows + 1) =
      cellsBelow g r c rows + if c < (g.getD (r + 1 + rows) []).length then 1 else 0 := by
  rw [cellsBelow, List.range'_1_concat, List.countP_append, cellsBelow, List.countP_singleton]
  simp only [decide_eq_true_eq]

theorem cellsBelow_le (g : List (List (List Node))) (r c rows : Nat) :
    cellsBelow g r c rows ≤ rows := by
  have bound := List.countP_le_length (l := List.range' (r + 1) rows)
    (p := fun s => c < (g.getD s []).length)
  rwa [List.length_range'] at bound

/-- All rows have a cell in a column if as many have one as there are. -/
theorem cellsBelow_eq_iff {rows : Nat} :
    cellsBelow g r c rows = rows ↔ ∀ k < rows, c < (g.getD (r + 1 + k) []).length := by
  induction rows with
  | zero => simp [cellsBelow]
  | succ rows ih =>
    have bound := cellsBelow_le g r c rows
    rw [cellsBelow_succ, Nat.forall_lt_succ_right, ← ih]
    split <;> omega

theorem getElem?_of_lt {row : List (List Node)} (inside : c < row.length) :
    row[c]? = some (row.getD c []) := by
  rw [List.getD_eq_getElem?_getD, List.getElem?_eq_getElem inside, Option.getD_some]

/-- What a row leaves of the cover of a column. -/
theorem coverAt_succ_of_cell (inside : c < (g.getD r []).length) (covered : 0 < coverAt g r c) :
    coverAt g (r + 1) c = coverAt g r c - 1 := by
  obtain ⟨left, above⟩ := Nat.exists_eq_add_one_of_ne_zero (Nat.ne_of_gt covered)
  rw [coverAt, coverBelow, getElem?_of_lt inside, above, Nat.add_sub_cancel]

theorem coverAt_succ_of_none (beyond : (g.getD r []).length ≤ c) :
    coverAt g (r + 1) c = coverAt g r c := by
  rw [coverAt, coverBelow, List.getElem?_eq_none beyond]

theorem coverAt_succ_of_free (inside : c < (g.getD r []).length) (above : coverAt g r c = 0) :
    coverAt g (r + 1) c = if Laid g r c then further "rowspan" (cellAt g r c) else 0 := by
  have laid : Laid g r c ↔ skipAt (coverAt g r) (g.getD r []) c = 0 :=
    ⟨fun laid => (laid_iff.mp laid).2.2, fun none => laid_iff.mpr ⟨inside, above, none⟩⟩
  rw [coverAt, coverBelow, getElem?_of_lt inside, above]
  simp only [laid, cellAt]

/-- A span over rows is used up by the cells below it in its column. -/
theorem coverAt_of_laid (laid : Laid g r c) {rows : Nat}
    (few : cellsBelow g r c rows ≤ further "rowspan" (cellAt g r c)) :
    coverAt g (r + 1 + rows) c = further "rowspan" (cellAt g r c) - cellsBelow g r c rows := by
  induction rows with
  | zero =>
    rw [Nat.add_zero, coverAt_succ_of_free laid.1 (laid_iff.mp laid).2.1, if_pos laid]
    rfl
  | succ rows ih =>
    rw [cellsBelow_succ] at few ⊢
    rw [← Nat.add_assoc]
    by_cases inside : c < (g.getD (r + 1 + rows) []).length
    · rw [if_pos inside] at few ⊢
      have before := ih (Nat.le_of_succ_le few)
      rw [coverAt_succ_of_cell inside (by omega), before]
      omega
    · rw [if_neg inside] at few ⊢
      rw [coverAt_succ_of_none (Nat.le_of_not_lt inside), ih few, Nat.add_zero]

/-- A column is covered only by a cell above that spans rows and is not used up. -/
theorem exists_above_of_covered (covered : 0 < coverAt g r c) :
    ∃ s rows, r = s + 1 + rows ∧ Laid g s c ∧
      cellsBelow g s c rows + coverAt g r c = further "rowspan" (cellAt g s c) := by
  induction r with
  | zero => cases covered
  | succ r ih =>
    by_cases inside : c < (g.getD r []).length
    · by_cases above : 0 < coverAt g r c
      · obtain ⟨s, rows, rfl, laid, used⟩ := ih above
        refine ⟨s, rows + 1, rfl, laid, ?_⟩
        rw [coverAt_succ_of_cell inside above] at covered ⊢
        rw [cellsBelow_succ, if_pos inside]
        omega
      · have free := coverAt_succ_of_free inside (Nat.eq_zero_of_not_pos above)
        by_cases laid : Laid g r c
        · rw [if_pos laid] at free
          exact ⟨r, 0, rfl, laid, by rw [free]; exact Nat.zero_add _⟩
        · rw [if_neg laid] at free
          omega
    · rw [coverAt_succ_of_none (Nat.le_of_not_lt inside)] at covered ⊢
      obtain ⟨s, rows, rfl, laid, used⟩ := ih covered
      refine ⟨s, rows + 1, rfl, laid, ?_⟩
      rwa [cellsBelow_succ, if_neg inside, Nat.add_zero]

/-! ### Columns -/

section Columns

variable {covered : Nat → Nat} {row : List (List Node)}

/-- A span over columns is used up by columns, at most one by one. -/
theorem le_skipAt_of_isFree (free : isFree covered row c = true) (columns : Nat) :
    further "columnspan" (row.getD c []) ≤ skipAt covered row (c + 1 + columns) + columns := by
  induction columns with
  | zero => exact Nat.le_of_eq (skipAt_succ_of_isFree free).symm
  | succ columns ih =>
    rw [← Nat.add_assoc (c + 1), skipAt]
    split
    · omega
    · split <;> omega

/-- Columns are skipped only behind a cell that spans columns. -/
theorem exists_left_of_skipped (skipped : 0 < skipAt covered row c) :
    ∃ b < c, isFree covered row b = true ∧ 0 < further "columnspan" (row.getD b []) := by
  induction c with
  | zero => cases skipped
  | succ c ih =>
    rw [skipAt] at skipped
    split at skipped
    · obtain ⟨b, before, found⟩ := ih skipped
      exact ⟨b, Nat.lt_succ_of_lt before, found⟩
    case isFalse above =>
      split at skipped
      case h_1 none =>
        exact ⟨c, Nat.lt_succ_self c, isFree_iff.mpr ⟨Nat.eq_zero_of_not_pos above, none⟩, skipped⟩
      case h_2 left more =>
        obtain ⟨b, before, found⟩ := ih (more ▸ Nat.succ_pos left)
        exact ⟨b, Nat.lt_succ_of_lt before, found⟩

end Columns

/-! ### Places -/

theorem not_laid_below (laid : Laid g r c) {rows : Nat}
    (within : rows < further "rowspan" (cellAt g r c)) : ¬ Laid g (r + 1 + rows) c := by
  have few := cellsBelow_le g r c rows
  have left := coverAt_of_laid laid (by omega : cellsBelow g r c rows ≤ _)
  intro below
  have free := (laid_iff.mp below).2.1
  omega

theorem not_laid_beside (laid : Laid g r c) {columns : Nat}
    (within : columns < further "columnspan" (cellAt g r c)) : ¬ Laid g r (c + 1 + columns) := by
  have left := le_skipAt_of_isFree laid.2 columns
  intro beside
  have free := (laid_iff.mp beside).2.2
  rw [cellAt] at within
  omega

/-- A cell without a place is below a cell that spans rows or behind one that spans columns. -/
theorem exists_spanning (inside : c < (g.getD r []).length) (covered : ¬ Laid g r c) :
    (∃ s < r, Laid g s c ∧ 0 < further "rowspan" (cellAt g s c)) ∨
      ∃ b < c, Laid g r b ∧ 0 < further "columnspan" (cellAt g r b) := by
  by_cases above : 0 < coverAt g r c
  · obtain ⟨s, rows, rfl, laid, used⟩ := exists_above_of_covered above
    exact .inl ⟨s, by omega, laid, by omega⟩
  · have skipped : 0 < skipAt (coverAt g r) (g.getD r []) c := by
      rw [laid_iff] at covered
      omega
    obtain ⟨b, before, free, spans⟩ := exists_left_of_skipped skipped
    exact .inr ⟨b, before, ⟨Nat.lt_trans before inside, free⟩, spans⟩

/-! ### Nodes of cells -/

/-- What is in a cell is in the content of the table. -/
theorem mem_of_mem_cellAt {nodes : List Node} {m : Node} (member : m ∈ cellAt (grid nodes) r c) :
    m ∈ nodes := by
  obtain ⟨cell, inRow, inside⟩ := List.mem_flatten.mp (mem_flatten_of_mem_getD member)
  have inGrid := List.mem_flatten_of_mem (mem_flatten_of_mem_getD inRow) inside
  rw [flatten_grid] at inGrid
  exact (List.mem_filter.mp inGrid).1

theorem further_of_none {name : String} {content : List Node}
    (none : ∀ m ∈ content, m.attribute? name = none) : further name content = 0 := by
  have nothing : (content.filterMap fun m => (m.attribute? name).bind readSpan?) = [] :=
    List.filterMap_eq_nil_iff.mpr fun m member => by rw [none m member, Option.bind_none]
  rw [further, asked?, nothing]
  rfl

/-- Without spans over columns only cells above cover a cell. -/
theorem laid_iff_of_rows {nodes : List Node}
    (none : ∀ m ∈ nodes, m.attribute? "columnspan" = none) :
    Laid (grid nodes) r c ↔ c < ((grid nodes).getD r []).length ∧ coverAt (grid nodes) r c = 0 := by
  refine ⟨fun laid => ⟨laid.1, (laid_iff.mp laid).2.1⟩, fun ⟨inside, above⟩ => ?_⟩
  refine laid_iff.mpr ⟨inside, above, Nat.eq_zero_of_not_pos fun skipped => ?_⟩
  obtain ⟨b, -, -, spans⟩ := exists_left_of_skipped skipped
  have nothing : further "columnspan" (cellAt (grid nodes) r b) = 0 :=
    further_of_none fun m member => none m (mem_of_mem_cellAt member)
  rw [cellAt] at nothing
  omega

/-- Without spans every cell has a place. -/
theorem laid_iff_of_unspanned {nodes : List Node}
    (noRows : ∀ m ∈ nodes, m.attribute? "rowspan" = none)
    (noColumns : ∀ m ∈ nodes, m.attribute? "columnspan" = none) :
    Laid (grid nodes) r c ↔ c < ((grid nodes).getD r []).length := by
  refine (laid_iff_of_rows noColumns).trans (and_iff_left_of_imp fun _ => ?_)
  refine Nat.eq_zero_of_not_pos fun covered => ?_
  obtain ⟨s, rows, -, -, used⟩ := exists_above_of_covered covered
  have nothing : further "rowspan" (cellAt (grid nodes) s c) = 0 :=
    further_of_none fun m member => noRows m (mem_of_mem_cellAt member)
  omega

theorem map_getD_range {α : Type} (l : List α) (a : α) :
    (List.range l.length).map (l.getD · a) = l := by
  refine List.ext_getElem (by simp) fun i _ inside => ?_
  rw [List.getElem_map, List.getElem_range, List.getD_eq_getElem?_getD,
    List.getElem?_eq_getElem inside, Option.getD_some]

/-! ### Tables without spans -/

/-- What the cells of a table hold, row by row. -/
def contents (table : Node) : List (List (List Node)) :=
  table.children.map fun row => row.children.map Node.children

theorem placed_of_unspanned (alone : Bool) (noRows : n.attribute? "rowspan" = none)
    (noColumns : n.attribute? "columnspan" = none) : placed alone n = n := by
  simp only [placed, Cell.spanRows, noRows, Cell.spanColumns, noColumns]

/-- What the cells of a table hold are the nodes of the cells of the grid that have a place. -/
theorem contents_ofRow (n : Node) :
    contents (ofRow n) = (List.range (grid n.children).length).map fun r =>
      (laidColumns (grid n.children) r).map fun c =>
        (cellAt (grid n.children) r c).map
          (placed ((cellAt (grid n.children) r c).length == 1)) := by
  rw [contents, children_ofRow, List.map_map]
  refine List.map_congr_left fun r _ => ?_
  rw [Function.comp_apply, rowNode, branch, List.map_map]
  exact List.map_congr_left fun c _ => (node_ofNodes _ _ _).2

/-- The cells of a table without spans hold the cells of the grid. -/
theorem contents_ofRow_of_unspanned
    (noRows : ∀ m ∈ n.children, m.attribute? "rowspan" = none)
    (noColumns : ∀ m ∈ n.children, m.attribute? "columnspan" = none) :
    contents (ofRow n) = grid n.children := by
  have all : ∀ r, laidColumns (grid n.children) r =
      List.range ((grid n.children).getD r []).length := fun r => by
    refine List.filter_eq_self.mpr fun c member => ?_
    exact ((laid_iff_of_unspanned noRows noColumns).mpr (List.mem_range.mp member)).2
  have whole : ∀ r c, (cellAt (grid n.children) r c).map
      (placed ((cellAt (grid n.children) r c).length == 1)) = cellAt (grid n.children) r c := by
    intro r c
    refine (List.map_congr_left fun m member => ?_).trans (List.map_id _)
    have there := mem_of_mem_cellAt member
    exact placed_of_unspanned _ (noRows m there) (noColumns m there)
  have row : ∀ r, (List.range ((grid n.children).getD r []).length).map (cellAt (grid n.children) r) =
      (grid n.children).getD r [] := fun r => map_getD_range _ _
  rw [contents_ofRow]
  simp only [whole, all, row]
  exact map_getD_range _ _

/-! ### What a node becomes -/

/-- Whether one dictionary is another one but for what spans ask for and what arrows get. -/
def SpanAttributes (d e : Dictionary) : Prop :=
  ∀ name, name ≠ "rowspan" → name ≠ "columnspan" → name ≠ "minsize" → e.get? name = d.get? name

/-- Whether a node is another one with such attributes, by itself or below an element with a space
above it. -/
def Holds (n m : Node) : Prop :=
  ∃ attributes, SpanAttributes n.attributes attributes ∧
    (m = { n with attributes } ∨ ∃ space, m = .branch "mover" [{ n with attributes }, space])

theorem spanAttributes_erase {d e : Dictionary} {name : String} (changed : SpanAttributes d e)
    (spans : name = "rowspan" ∨ name = "columnspan") : SpanAttributes d (e.erase name) := by
  intro other noRows noColumns noSize
  have different : other ≠ name := by
    obtain rfl | rfl := spans
    · exact noRows
    · exact noColumns
  rw [Dictionary.get?_erase, if_neg different, changed other noRows noColumns noSize]

/-- What a node becomes in a cell. -/
theorem holds_placed (alone : Bool) (n : Node) : Holds n (placed alone n) := by
  have rows : ∃ attributes, SpanAttributes n.attributes attributes ∧
      (({ node := {} } : Cell).spanRows alone n).2 = { n with attributes } := by
    unfold Cell.spanRows
    cases n.attribute? "rowspan" with
    | none => exact ⟨n.attributes, fun _ _ _ _ => rfl, by cases n; rfl⟩
    | some span =>
      have erased : SpanAttributes n.attributes (n.attributes.erase "rowspan") :=
        spanAttributes_erase (fun _ _ _ _ => rfl) (.inl rfl)
      dsimp only
      cases readSpan? span with
      | none => exact ⟨_, erased, rfl⟩
      | some count =>
        dsimp only
        split
        · refine ⟨_, fun name noRows noColumns noSize => ?_, rfl⟩
          exact (Dictionary.get?_insert _ _ _ _).trans
            ((if_neg noSize).trans (erased name noRows noColumns noSize))
        · exact ⟨_, erased, rfl⟩
  obtain ⟨attributes, changed, given⟩ := rows
  have erased : SpanAttributes n.attributes (attributes.erase "columnspan") :=
    spanAttributes_erase changed (.inr rfl)
  rw [placed, given]
  unfold Cell.spanColumns
  cases ({ n with attributes } : Node).attribute? "columnspan" with
  | none => exact ⟨attributes, changed, .inl rfl⟩
  | some span =>
    dsimp only
    cases readSpan? span with
    | none => exact ⟨_, erased, .inl rfl⟩
    | some count =>
      dsimp only
      split
      · exact ⟨_, erased, .inr ⟨_, rfl⟩⟩
      · exact ⟨_, erased, .inl rfl⟩

/-! ### Main results -/

/-- A table without spans is its content cut into rows and cells: joined again, its cells are the
content, with no node lost, doubled or moved. Only a row break at the end of the content is left
out, and it begins no row; empty cells and empty rows before it are there. -/
theorem joined_cells_of_unspanned (noRows : ∀ m ∈ n.children, m.attribute? "rowspan" = none)
    (noColumns : ∀ m ∈ n.children, m.attribute? "columnspan" = none) :
    (ofRow n).tag = "mtable" ∧
      (∀ row ∈ (ofRow n).children, row.tag = "mtr" ∧ row.children ≠ [] ∧
        ∀ cell ∈ row.children, cell.tag = "mtd" ∧
          ∀ m ∈ cell.children, m.marks.isBreak = false) ∧
      (ofRow n).children.length =
        (if n.children = [] then 0
        else (withoutLastBreak n.children).countP (·.marks.rowBreak) + 1) ∧
      (∀ rowBreak cellBreak, joinGrid rowBreak cellBreak (contents (ofRow n)) =
        (withoutLastBreak n.children).map (breakAs rowBreak cellBreak)) ∧
      ∀ rowBreak cellBreak, (∀ m ∈ n.children, breakAs rowBreak cellBreak m = m) →
        joinGrid rowBreak cellBreak (contents (ofRow n)) = withoutLastBreak n.children := by
  have cut := contents_ofRow_of_unspanned noRows noColumns
  have joined : ∀ rowBreak cellBreak, joinGrid rowBreak cellBreak (contents (ofRow n)) =
      (withoutLastBreak n.children).map (breakAs rowBreak cellBreak) := fun rowBreak cellBreak => by
    rw [cut, joinGrid_grid]
  refine ⟨rfl, fun row member => ?_, ?_, joined, fun rowBreak cellBreak same => ?_⟩
  · have there : row.children.map Node.children ∈ grid n.children := by
      rw [← cut]
      exact List.mem_map_of_mem member
    obtain ⟨some, free⟩ := grid_free there
    rw [children_ofRow] at member
    obtain ⟨r, -, rfl⟩ := List.mem_map.mp member
    refine ⟨rfl, fun empty => some (by rw [empty, List.map_nil]), fun cell inside => ⟨?_, ?_⟩⟩
    · obtain ⟨c, -, rfl⟩ := List.mem_map.mp inside
      exact (node_ofNodes _ _ _).1
    · exact free _ (List.mem_map_of_mem inside)
  · have length := congrArg List.length cut
    rw [contents, List.length_map] at length
    rw [length, grid, List.length_map, length_rows]
  · rw [joined]
    refine (List.map_congr_left fun m member => ?_).trans (List.map_id _)
    exact same m (mem_of_mem_withoutLastBreak member)

/-- Cells and rows without content, three breaks in a row and one at the end. -/
theorem joined_cells_of_unspanned_gaps :
    let content := [leaf "mi" "a", Step.cellBreak, Step.rowBreak, Step.rowBreak, Step.cellBreak,
      leaf "mi" "b", Step.rowBreak]
    (∀ m ∈ content, m.attribute? "rowspan" = none) ∧
      (∀ m ∈ content, m.attribute? "columnspan" = none) ∧
      contents (ofRow (.row content)) =
        [[[leaf "mi" "a"], []], [[]], [[], [leaf "mi" "b"]]] ∧
      joinGrid Step.rowBreak Step.cellBreak (contents (ofRow (.row content))) =
        content.dropLast := by
  intro content
  have noRows : ∀ m ∈ content, m.attribute? "rowspan" = none := by decide
  have noColumns : ∀ m ∈ content, m.attribute? "columnspan" = none := by decide
  have alike : ∀ m ∈ content, breakAs Step.rowBreak Step.cellBreak m = m := by
    simp only [content, List.forall_mem_cons]
    exact ⟨rfl, rfl, rfl, rfl, rfl, rfl, rfl, List.forall_mem_nil _⟩
  obtain ⟨-, -, -, -, joined⟩ := joined_cells_of_unspanned (n := .row content) noRows noColumns
  exact ⟨noRows, noColumns, rfl, joined _ _ alike⟩

/-- The cells of a table hold the content of the table in its order, every node as it is, with other
span attributes or below an element of its own; and a cell that has no place is lost with what it
holds. The cells that a cell spans have no place, and only behind cells that span rows or columns is
one without a place. -/
theorem content_kept_where_laid (n : Node) :
    (grid n.children).flatten.flatten = n.children.filter (fun m => !m.marks.isBreak) ∧
      (ofRow n).children.length = (grid n.children).length ∧
      (∀ r < (grid n.children).length, ∃ row, (ofRow n).children[r]? = some row ∧ row.tag = "mtr" ∧
        List.Forall₂ (fun c cell => cell.tag = "mtd" ∧
            List.Forall₂ Holds (cellAt (grid n.children) r c) cell.children)
          (laidColumns (grid n.children) r) row.children) ∧
      (∀ r, (laidColumns (grid n.children) r).Sublist
        (List.range ((grid n.children).getD r []).length)) ∧
      (∀ r c, c ∈ laidColumns (grid n.children) r → ∀ rows,
        rows < further "rowspan" (cellAt (grid n.children) r c) →
          c ∉ laidColumns (grid n.children) (r + 1 + rows)) ∧
      (∀ r c, c ∈ laidColumns (grid n.children) r → ∀ columns,
        columns < further "columnspan" (cellAt (grid n.children) r c) →
          c + 1 + columns ∉ laidColumns (grid n.children) r) ∧
      ∀ r c, c < ((grid n.children).getD r []).length → c ∉ laidColumns (grid n.children) r →
        (∃ s < r, c ∈ laidColumns (grid n.children) s ∧
          0 < further "rowspan" (cellAt (grid n.children) s c)) ∨
        ∃ b < c, b ∈ laidColumns (grid n.children) r ∧
          0 < further "columnspan" (cellAt (grid n.children) r b) := by
  simp only [mem_laidColumns]
  refine ⟨flatten_grid _, ?_, fun r inside => ⟨rowNode (columnsOf n) (grid n.children) r, ?_, rfl, ?_⟩,
    fun r => List.filter_sublist, fun r c laid rows within => not_laid_below laid within,
    fun r c laid columns within => not_laid_beside laid within,
    fun r c inside covered => exists_spanning inside covered⟩
  · rw [children_ofRow, List.length_map, List.length_range]
  · rw [children_ofRow, List.getElem?_map, List.getElem?_range inside, Option.map_some]
  · rw [rowNode, branch, List.forall₂_map_right_iff, List.forall₂_same]
    intro c _
    obtain ⟨tag, children⟩ := node_ofNodes (columnsOf n) c (cellAt (grid n.children) r c)
    rw [children, List.forall₂_map_right_iff, List.forall₂_same]
    exact ⟨tag, fun m _ => holds_placed _ m⟩

/-- A node of a cell that has no place occurs nowhere in the table. -/
theorem covered_content_lost :
    ¬ ∀ n : Node, ∀ m ∈ n.children, m.isWritten = true → m.marks.isBreak = false →
      ∃ row ∈ (ofRow n).children, ∃ cell ∈ row.children, ∃ k ∈ cell.children, Holds m k := by
  intro kept
  let wide := (leaf "mi" "A").setAttribute "columnspan" "2"
  let table : Node := .row [wide, Step.cellBreak, leaf "mi" "B"]
  have laid : contents (ofRow table) = [[[leaf "mi" "A"]]] := rfl
  have last : leaf "mi" "B" ∈ table.children :=
    List.mem_cons_of_mem _ (List.mem_cons_of_mem _ List.mem_cons_self)
  obtain ⟨row, inTable, cell, inRow, k, inCell, attributes, -, found⟩ :=
    kept table (leaf "mi" "B") last (by decide) rfl
  have there : cell.children ∈ (contents (ofRow table)).flatten :=
    List.mem_flatten_of_mem (List.mem_map_of_mem inTable) (List.mem_map_of_mem inRow)
  rw [laid] at there
  obtain rfl : k = leaf "mi" "A" := List.mem_singleton.mp (List.mem_singleton.mp there ▸ inCell)
  obtain same | ⟨space, same⟩ := found
  · have text : "A" = "B" := congrArg Node.text same
    exact absurd text (by decide)
  · have tag : "mi" = "mover" := congrArg Node.tag same
    exact absurd tag (by decide)

/-- A cell that spans rows takes the places of the cells below it in its column, one after the
other, however far down they are. So in a table without spans over columns it covers the rows it
asks for, and the row behind these has its cell exactly if every one of them has a cell in the
column. -/
theorem row_span_used_up_by_cells (none : ∀ m ∈ n.children, m.attribute? "columnspan" = none)
    {span : Nat} (laid : Laid (grid n.children) r c) (positive : 0 < span)
    (asks : asked? "rowspan" (cellAt (grid n.children) r c) = some span) :
    (ofRow n).children =
        (List.range (grid n.children).length).map (rowNode (columnsOf n) (grid n.children)) ∧
      (∀ k, 0 < k → k < span → ¬ Laid (grid n.children) (r + k) c) ∧
      (c < ((grid n.children).getD (r + span) []).length →
        (Laid (grid n.children) (r + span) c ↔
          ∀ k, 0 < k → k < span → c < ((grid n.children).getD (r + k) []).length)) := by
  obtain ⟨more, rfl⟩ := Nat.exists_eq_add_one_of_ne_zero (Nat.ne_of_gt positive)
  have covers : further "rowspan" (cellAt (grid n.children) r c) = more := by
    rw [further, asks, Option.map_some, Option.getD_some, Nat.add_sub_cancel]
  have below : ∀ k, 0 < k → ∃ rows, k = rows + 1 ∧ r + k = r + 1 + rows := fun k some =>
    ⟨k - 1, by omega, by omega⟩
  refine ⟨children_ofRow n, fun k some within => ?_, fun inside => ?_⟩
  · obtain ⟨rows, rfl, place⟩ := below k some
    rw [place]
    exact not_laid_below laid (by omega)
  · have few := cellsBelow_le (grid n.children) r c more
    have left := coverAt_of_laid laid (Nat.le_trans few (Nat.le_of_eq covers.symm))
    have place : r + (more + 1) = r + 1 + more := by omega
    rw [place] at inside ⊢
    rw [laid_iff_of_rows none, left, covers, and_iff_right inside]
    have all : more - cellsBelow (grid n.children) r c more = 0 ↔
        cellsBelow (grid n.children) r c more = more := by omega
    rw [all, cellsBelow_eq_iff]
    refine ⟨fun each k some within => ?_, fun each k within => ?_⟩
    · obtain ⟨rows, rfl, place⟩ := below k some
      rw [place]
      exact each rows (by omega)
    · rw [Nat.add_assoc, Nat.add_comm 1]
      exact each (k + 1) (Nat.succ_pos k) (by omega)

/-- A cell over two rows: the cell below it has no place, and the one below that has. -/
theorem row_span_used_up_by_cells_column :
    let tall := (leaf "mi" "A").setAttribute "rowspan" "2"
    let table : Node := .row [leaf "mi" "x", Step.cellBreak, tall, Step.rowBreak,
      leaf "mi" "y", Step.cellBreak, Step.rowBreak, leaf "mi" "z", Step.cellBreak, leaf "mi" "B"]
    (∀ m ∈ table.children, m.attribute? "columnspan" = none) ∧
      Laid (grid table.children) 0 1 ∧
      asked? "rowspan" (cellAt (grid table.children) 0 1) = some 2 ∧
      ¬ Laid (grid table.children) 1 1 ∧ Laid (grid table.children) 2 1 := by
  intro tall table
  have none : ∀ m ∈ table.children, m.attribute? "columnspan" = none := by decide
  have laid : Laid (grid table.children) 0 1 := by decide
  have asks : asked? "rowspan" (cellAt (grid table.children) 0 1) = some 2 := by decide
  obtain ⟨-, covered, behind⟩ := row_span_used_up_by_cells none laid Nat.two_pos asks
  refine ⟨none, laid, asks, covered 1 Nat.one_pos Nat.one_lt_two, (behind (by decide)).mpr ?_⟩
  intro k some within
  obtain rfl : k = 1 := by omega
  decide

/-- A span over two rows outlives them where the second has no cell in the column: the third row
loses its cell to it. -/
theorem row_span_outlives_its_rows :
    ¬ ∀ n : Node, (∀ m ∈ n.children, m.attribute? "columnspan" = none) → ∀ r c span,
      Laid (grid n.children) r c → 0 < span →
      asked? "rowspan" (cellAt (grid n.children) r c) = some span →
        (∀ k, 0 < k → k < span → ¬ Laid (grid n.children) (r + k) c) ∧
        (c < ((grid n.children).getD (r + span) []).length →
          Laid (grid n.children) (r + span) c) := by
  intro ends
  let tall := (leaf "mi" "A").setAttribute "rowspan" "2"
  let table : Node := .row [leaf "mi" "x", Step.cellBreak, tall, Step.rowBreak,
    leaf "mi" "y", Step.rowBreak, leaf "mi" "z", Step.cellBreak, leaf "mi" "B"]
  obtain ⟨-, behind⟩ :=
    ends table (by decide) 0 1 2 (by decide) Nat.two_pos (by decide)
  exact absurd (behind (by decide)) (by decide)

end TexFormula.Table
