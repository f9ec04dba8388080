import TexFormula.Proofs.Table.Rules
import TexFormula.Proofs.Table.Spans

/-! The alignment of the cells of a table. A cell is aligned twice: when it is laid, by the column
of the grid that it stands in, and in a framed table once more, by the cells that are left in front
of it in its row. The second is the one that stays (`text_align_of_cell`). The two agree where no
cell to the left is skipped. -/
namespace TexFormula.Table

variable {spec : ColumnSpec} {cell n : Node} {row nodes : List Node} {r c j : Nat}

/-- The alignment of a cell in the style language. -/
def textAlign? (n : Node) : Option String :=
  n.css.get? "text-align"

/-- A cell of a table by its row and by the cells in front of it. -/
def placedAt? (table : Node) (r j : Nat) : Option Node :=
  table.children[r]?.bind (·.children[j]?)

/-! ### Cells as they are laid -/

/-- What is added to a cell changes neither its style nor the alignment it asks for. -/
theorem style_add (cell : Cell) (alone : Bool) (n : Node) :
    (cell.add alone n).node.css = cell.node.css ∧
      (cell.add alone n).node.attribute? "columnalign" = cell.node.attribute? "columnalign" := by
  have rows (cell : Cell) : (cell.spanRows alone n).1.node.css = cell.node.css ∧
      (cell.spanRows alone n).1.node.attribute? "columnalign" =
        cell.node.attribute? "columnalign" := by
    have kept (span : String) : (cell.node.setAttribute "rowspan" span).attribute? "columnalign" =
        cell.node.attribute? "columnalign" :=
      (Dictionary.get?_insert _ _ _ _).trans (if_neg (by decide))
    unfold Cell.spanRows
    split
    · exact ⟨rfl, rfl⟩
    · dsimp only
      split <;> exact ⟨rfl, kept _⟩
  have columns (cell : Cell) (m : Node) : (cell.spanColumns alone m).1.node.css = cell.node.css ∧
      (cell.spanColumns alone m).1.node.attribute? "columnalign" =
        cell.node.attribute? "columnalign" := by
    have kept (span : String) :
        (cell.node.setAttribute "columnspan" span).attribute? "columnalign" =
          cell.node.attribute? "columnalign" :=
      (Dictionary.get?_insert _ _ _ _).trans (if_neg (by decide))
    unfold Cell.spanColumns
    split
    · exact ⟨rfl, rfl⟩
    · dsimp only
      split <;> exact ⟨rfl, kept _⟩
  rw [add_eq]
  let start : Cell := { cell with spacing := (n.attribute? "rowspacing").or cell.spacing }
  have second := columns (start.spanRows alone n).1 (start.spanRows alone n).2
  exact ⟨second.1.trans (rows start).1, second.2.trans (rows start).2⟩

/-- A cell is laid with the alignment of its column. -/
theorem style_ofNodes (spec : ColumnSpec) (column : Nat) (content : List Node) :
    textAlign? (Cell.ofNodes spec column content).node =
        (spec.alignAt? column).map Alignment.name ∧
      (Cell.ofNodes spec column content).node.attribute? "columnalign" = none := by
  have filled (alone : Bool) (cell : Cell) :
      (content.foldl (Cell.add alone) cell).node.css = cell.node.css ∧
        (content.foldl (Cell.add alone) cell).node.attribute? "columnalign" =
          cell.node.attribute? "columnalign" := by
    induction content generalizing cell with
    | nil => exact ⟨rfl, rfl⟩
    | cons n rest ih =>
      obtain ⟨css, asks⟩ := style_add cell alone n
      obtain ⟨kept, still⟩ := ih (cell.add alone n)
      exact ⟨kept.trans css, still.trans asks⟩
  unfold Cell.ofNodes textAlign?
  rw [(filled _ _).1, (filled _ _).2]
  cases spec.alignAt? column with
  | none => exact ⟨rfl, rfl⟩
  | some alignment => exact ⟨(Dictionary.get?_insert _ _ _ _).trans (if_pos rfl), rfl⟩

/-- Whether a row is one of cells that ask for no alignment themselves. -/
structure Unaligned (row : Node) : Prop where
  tag : row.tag = "mtr"
  silent : row.attribute? "columnalign" = none
  cells : ∀ cell ∈ row.children, cell.tag = "mtd" ∧ cell.attribute? "columnalign" = none

theorem unaligned_rowNode (spec : ColumnSpec) (g : List (List (List Node))) (r : Nat) :
    Unaligned (rowNode spec g r) := by
  refine ⟨rfl, rfl, fun cell member => ?_⟩
  obtain ⟨column, -, rfl⟩ := List.mem_map.mp member
  exact ⟨(node_ofNodes _ _ _).1, (style_ofNodes _ _ _).2⟩

/-! ### Cells that are aligned again -/

/-- A cell with the alignment that it asks for itself, or with the given one. -/
def restyled (given : Option String) (cell : Node) : Node :=
  match cell.attribute? "columnalign" <|> given with
  | some value => cell.setCss "text-align" value
  | none => cell

theorem textAlign?_restyled (value : String) (cell : Node) :
    (restyled (some value) cell).tag = cell.tag ∧
      textAlign? (restyled (some value) cell) =
        some ((cell.attribute? "columnalign").getD value) := by
  unfold restyled
  cases cell.attribute? "columnalign" <;>
    exact ⟨rfl, (Dictionary.get?_insert _ _ _ _).trans (if_pos rfl)⟩

/-- Cells are aligned by the number of those in front of them. -/
theorem getElem?_alignCells (fromTable : List String) (column : Nat)
    (are : ∀ cell ∈ row, cell.tag = "mtd") :
    (alignCells none fromTable column row)[j]? =
      row[j]?.map (restyled (repeatedAt? fromTable (column + j))) := by
  induction row generalizing column j with
  | nil => rfl
  | cons cell rest ih =>
    obtain ⟨here, later⟩ := List.forall_mem_cons.mp are
    rw [alignCells, if_pos (beq_iff_eq.mpr here)]
    cases j with
    | zero => rfl
    | succ j =>
      rw [List.getElem?_cons_succ, List.getElem?_cons_succ, ih _ later, Nat.add_right_comm,
        Nat.add_assoc]

/-- The list of alignments that a table is written with. -/
def listedAlign (table : Node) : List String :=
  Text.words ((table.attribute? "columnalign").getD "center")

/-- A cell of a table whose rows ask for no alignment is aligned by those in front of it. -/
theorem placedAt?_align {table : Node}
    (rows : ∀ row ∈ table.children, row.tag = "mtr" ∧ row.attribute? "columnalign" = none ∧
      ∀ cell ∈ row.children, cell.tag = "mtd") (r j : Nat) :
    placedAt? (align table) r j =
      (placedAt? table r j).map (restyled (repeatedAt? (listedAlign table) j)) := by
  rw [placedAt?, placedAt?, align, List.getElem?_map]
  cases there : table.children[r]? with
  | none => rfl
  | some row =>
    obtain ⟨tag, silent, cells⟩ := rows row (List.mem_of_getElem? there)
    have aligned := getElem?_alignCells (j := j) (listedAlign table) 0 cells
    rw [Nat.zero_add] at aligned
    rw [Option.map_some, Option.bind_some, Option.bind_some, alignRow,
      if_pos (beq_iff_eq.mpr tag), silent]
    exact aligned

theorem isWord_name (alignment : Alignment) : IsWord alignment.name := by
  refine ⟨by cases alignment <;> decide, ?_⟩
  cases alignment <;> simp only [Alignment.name, String.reduceToList, List.forall_mem_cons]
  case left => exact ⟨rfl, rfl, rfl, rfl, List.forall_mem_nil _⟩
  case center => exact ⟨rfl, rfl, rfl, rfl, rfl, rfl, List.forall_mem_nil _⟩
  case right => exact ⟨rfl, rfl, rfl, rfl, rfl, List.forall_mem_nil _⟩

theorem words_name (alignment : Alignment) : Text.words alignment.name = [alignment.name] := by
  have words := words_intercalate (List.forall_mem_singleton.mpr (isWord_name alignment))
  rwa [String.intercalate_singleton] at words

theorem attribute?_columnalign (n : Node) :
    (ofRow n).attribute? "columnalign" = some ((columnsOf n).alignText?.getD "center") := by
  simp only [ofRow, columnsOf, Node.attribute?, Node.setAttribute, Dictionary.get?_insert]
  rw [if_neg (by decide)]
  cases spacingText? _ <;> cases ColumnSpec.rulesText? _ <;> simp [Dictionary.get?_insert]

/-- The list of alignments of a table is read as its specification is. -/
theorem repeatedAt?_listedAlign (n : Node) (j : Nat) :
    repeatedAt? (listedAlign (ofRow n)) j =
      some ((((columnsOf n).alignAt? j).map Alignment.name).getD "center") := by
  rw [listedAlign, attribute?_columnalign, Option.getD_some, ColumnSpec.alignText?,
    ColumnSpec.alignAt?]
  by_cases none : (columnsOf n).align = []
  · rw [none, List.isEmpty_nil, if_pos rfl, Option.getD_none]
    exact (congrArg (repeatedAt? · j) (words_name .center)).trans (repeatedAt?_singleton _ _)
  · have words : Text.words (" ".intercalate ((columnsOf n).align.map Alignment.name)) =
        (columnsOf n).align.map Alignment.name := by
      refine words_intercalate fun word member => ?_
      obtain ⟨alignment, -, rfl⟩ := List.mem_map.mp member
      exact isWord_name alignment
    obtain ⟨alignment, found⟩ := exists_repeatedAt? none j
    rw [if_neg (by simpa using none), Option.getD_some, words, repeatedAt?_map, found]
    rfl

/-! ### Columns -/

/-- A cell that has a place has at most as many in front of it as there are columns there, and as
many where none of these is skipped. -/
theorem getElem?_filter_range {p : Nat → Bool} {count : Nat}
    (there : ((List.range count).filter p)[j]? = some c) :
    j ≤ c ∧ (j = c ↔ ∀ b < c, p b = true) := by
  induction count generalizing j c with
  | zero => cases there
  | succ count ih =>
    rw [List.range_succ, List.filter_append, List.getElem?_append] at there
    split at there
    case isTrue => exact ih there
    case isFalse beyond =>
      have before := List.length_filter_le p (List.range count)
      rw [List.length_range] at before
      cases last : p count with
      | false => simp [last] at there
      | true =>
        rw [List.filter_cons_of_pos last, List.filter_nil, List.getElem?_singleton] at there
        split at there
        case isFalse => cases there
        case isTrue first =>
          obtain rfl := Option.some.inj there
          have place : j = ((List.range count).filter p).length := by omega
          have all : ((List.range count).filter p).length = count ↔ ∀ b < count, p b = true := by
            have whole := List.length_filter_eq_length_iff (p := p) (l := List.range count)
            rw [List.length_range] at whole
            simpa only [List.mem_range] using whole
          exact ⟨place ▸ before, place ▸ all⟩

theorem getElem?_laidColumns {g : List (List (List Node))}
    (there : (laidColumns g r)[j]? = some c) :
    Laid g r c ∧ j ≤ c ∧ (j = c ↔ ∀ b < c, Laid g r b) := by
  have laid := (mem_laidColumns g).mp (List.mem_of_getElem? there)
  have places : ∀ b < c, (isFree (coverAt g r) (g.getD r []) b = true ↔ Laid g r b) :=
    fun b before => (and_iff_right (Nat.lt_trans before laid.1)).symm
  obtain ⟨few, all⟩ := getElem?_filter_range there
  exact ⟨laid, few, all.trans (forall₂_congr places)⟩

/-- The cells of a table are those of its grid that have a place, in their order. -/
theorem placedAt?_ofRow (n : Node) (r j : Nat) :
    placedAt? (ofRow n) r j = (laidColumns (grid n.children) r)[j]?.map fun c =>
      (Cell.ofNodes (columnsOf n) c (cellAt (grid n.children) r c)).node := by
  rw [placedAt?, children_ofRow, List.getElem?_map]
  by_cases inside : r < (grid n.children).length
  · rw [List.getElem?_range inside, Option.map_some, Option.bind_some, rowNode]
    exact List.getElem?_map
  · have beyond := Nat.le_of_not_lt inside
    have empty : (grid n.children).getD r [] = [] := List.getD_eq_default _ _ beyond
    have none : laidColumns (grid n.children) r = [] := by
      rw [laidColumns, empty]
      rfl
    rw [none, List.getElem?_eq_none (by rwa [List.length_range])]
    rfl

end TexFormula.Table

namespace TexFormula.Environment

open Table (columnsOf grid laidColumns Laid listedAlign placedAt? restyled textAlign? Unaligned)

variable {name : String} {n : Node} {r j : Nat}

/-! ### Environments -/

/-- The alignment that an environment asks for in a column of its table. -/
def alignmentAt? (name : String) (spec : ColumnSpec) (column : Nat) : Option String :=
  match name with
  | "align" | "aligned" | "split" => some (if column = 0 then "right" else "left")
  | "cases" => some "left"
  | "gather" | "gathered" => some "center"
  | "pmatrix" | "bmatrix" | "Bmatrix" | "vmatrix" | "Vmatrix" | "subarray" | "smallmatrix" =>
    some (((spec.alignAt? column).map Alignment.name).getD "center")
  | _ => (spec.alignAt? column).map Alignment.name

theorem unaligned_of_placedAt? {table cell : Node} (rows : ∀ row ∈ table.children, Unaligned row)
    {r : Nat} (found : placedAt? table r j = some cell) :
    cell.tag = "mtd" ∧ cell.attribute? "columnalign" = none := by
  obtain ⟨row, inTable, inRow⟩ := Option.bind_eq_some_iff.mp found
  exact (rows row (List.mem_of_getElem? inTable)).cells cell (List.mem_of_getElem? inRow)

/-- The cells of a table that is dressed, with what the list of the table says. -/
theorem placedAt?_align_of_same {table : Node} (rows : ∀ row ∈ table.children, Unaligned row)
    {dressed : Node} (same : dressed.children = table.children) (list : Nat → String)
    (listed : ∀ j, repeatedAt? (listedAlign dressed) j = some (list j)) (r j : Nat) :
    (placedAt? (Table.align dressed) r j).map (fun cell => (cell.tag, textAlign? cell)) =
      (placedAt? table r j).map fun _ => ("mtd", some (list j)) := by
  have plain : ∀ row ∈ dressed.children, row.tag = "mtr" ∧ row.attribute? "columnalign" = none ∧
      ∀ cell ∈ row.children, cell.tag = "mtd" := by
    rw [same]
    exact fun row member => ⟨(rows row member).tag, (rows row member).silent,
      fun cell inside => ((rows row member).cells cell inside).1⟩
  have there : placedAt? dressed r j = placedAt? table r j := by
    rw [placedAt?, placedAt?, same]
  rw [Table.placedAt?_align plain, there, listed, Option.map_map]
  cases found : placedAt? table r j with
  | none => rfl
  | some cell =>
    obtain ⟨tag, silent⟩ := unaligned_of_placedAt? rows found
    obtain ⟨kept, aligned⟩ := Table.textAlign?_restyled (list j) cell
    rw [Option.map_some, Option.map_some, Function.comp_apply, kept, aligned, tag, silent,
      Option.getD_none]

/-- A row of cells whose first one is aligned to the right. -/
theorem getElem?_alignFirstCell {row : List Node} (are : ∀ cell ∈ row, cell.tag = "mtd") :
    (alignFirstCell row)[j]? =
      row[j]?.map fun cell => if j = 0 then alignNode "right" cell else cell := by
  cases row with
  | nil => rfl
  | cons cell rest =>
    rw [alignFirstCell, if_pos (beq_iff_eq.mpr (are cell List.mem_cons_self))]
    cases j with
    | zero => rfl
    | succ j =>
      rw [List.getElem?_cons_succ, List.getElem?_cons_succ]
      exact (Option.map_id_apply).symm

/-- Where the first cell of each row is aligned to the right, this cell is, and no other one. -/
theorem placedAt?_align_of_first {table : Node} (rows : ∀ row ∈ table.children, Unaligned row)
    {dressed : Node} (listed : listedAlign dressed = ["left"])
    (first : dressed.children =
      table.children.map fun row => { row with children := alignFirstCell row.children })
    (r j : Nat) :
    (placedAt? (Table.align dressed) r j).map (fun cell => (cell.tag, textAlign? cell)) =
      (placedAt? table r j).map fun _ => ("mtd", some (if j = 0 then "right" else "left")) := by
  have cells : ∀ row ∈ table.children, ∀ cell ∈ row.children, cell.tag = "mtd" :=
    fun row member cell inside => ((rows row member).cells cell inside).1
  have plain : ∀ row ∈ dressed.children, row.tag = "mtr" ∧ row.attribute? "columnalign" = none ∧
      ∀ cell ∈ row.children, cell.tag = "mtd" := by
    rw [first]
    refine List.forall_mem_map.mpr fun row member => ?_
    refine ⟨(rows row member).tag, (rows row member).silent, fun cell inside => ?_⟩
    obtain ⟨i, there⟩ := List.mem_iff_getElem?.mp inside
    rw [getElem?_alignFirstCell (cells row member), Option.map_eq_some_iff] at there
    obtain ⟨before, found, rfl⟩ := there
    have tag := cells row member before (List.mem_of_getElem? found)
    split
    · exact tag
    · exact tag
  have there : placedAt? dressed r j =
      (placedAt? table r j).map fun cell => if j = 0 then alignNode "right" cell else cell := by
    rw [placedAt?, placedAt?, first, List.getElem?_map]
    cases found : table.children[r]? with
    | none => rfl
    | some row => exact getElem?_alignFirstCell (cells row (List.mem_of_getElem? found))
  rw [Table.placedAt?_align plain, there, listed, Table.repeatedAt?_singleton, Option.map_map,
    Option.map_map]
  cases found : placedAt? table r j with
  | none => rfl
  | some cell =>
    obtain ⟨tag, silent⟩ := unaligned_of_placedAt? rows found
    simp only [Option.map_some, Function.comp_apply]
    split
    case isTrue =>
      obtain ⟨kept, aligned⟩ := Table.textAlign?_restyled "left" (alignNode "right" cell)
      have asks : (alignNode "right" cell).attribute? "columnalign" = some "right" :=
        (Dictionary.get?_insert _ _ _ _).trans (if_pos rfl)
      rw [kept, aligned, asks]
      exact congrArg (some <| Prod.mk · _) tag
    case isFalse =>
      obtain ⟨kept, aligned⟩ := Table.textAlign?_restyled "left" cell
      rw [kept, aligned, tag, silent, Option.getD_none]

/-- The alignment that an environment leaves a cell with that it frames. -/
theorem placedAt?_align_dress? {dressed : Node} (given : dress? name (Table.ofRow n) = some dressed)
    (r j : Nat) :
    (placedAt? (Table.align dressed) r j).map (fun cell => (cell.tag, textAlign? cell)) =
      (placedAt? (Table.ofRow n) r j).map fun _ =>
        ("mtd", alignmentAt? name (columnsOf n) j) := by
  have rows : ∀ row ∈ (Table.ofRow n).children, Unaligned row := by
    rw [Table.children_ofRow]
    exact List.forall_mem_map.mpr fun r _ => Table.unaligned_rowNode _ _ r
  have listed := Table.repeatedAt?_listedAlign n
  have words (alignment : Alignment) {table : Node}
      (asks : table.attribute? "columnalign" = some alignment.name) :
      listedAlign table = [alignment.name] := by
    rw [listedAlign, asks, Option.getD_some, Table.words_name]
  have all (alignment : Alignment) {table : Node}
      (asks : table.attribute? "columnalign" = some alignment.name) (j : Nat) :
      repeatedAt? (listedAlign table) j = some alignment.name := by
    rw [words alignment asks, Table.repeatedAt?_singleton]
  have set (table : Node) (name value : String) :
      (table.setAttribute name value).attribute? name = some value :=
    (Dictionary.get?_insert _ _ _ _).trans (if_pos rfl)
  have other (name value : String) (different : "columnalign" ≠ name) (table : Node) :
      listedAlign (table.setAttribute name value) = listedAlign table := by
    have kept : (table.setAttribute name value).attribute? "columnalign" =
        table.attribute? "columnalign" :=
      (Dictionary.get?_insert _ _ _ _).trans (if_neg different)
    rw [listedAlign, kept, listedAlign]
  unfold dress? at given
  split at given
  all_goals cases given
  -- the matrices with fences keep the list of the table
  iterate 5 exact placedAt?_align_of_same rows rfl _ listed r j
  case _ =>
    refine placedAt?_align_of_same rows ?_ (fun _ => "left") ?_ r j
    · rfl
    · exact all .left (set _ _ _)
  iterate 3
    refine placedAt?_align_of_first rows ?_ ?_ r j
    · exact words .left (set _ _ _)
    · rfl
  iterate 2
    refine placedAt?_align_of_same rows ?_ (fun _ => "center") ?_ r j
    · rfl
    · exact all .center (set _ _ _)
  iterate 2
    refine placedAt?_align_of_same rows ?_
      (fun j => (((columnsOf n).alignAt? j).map Alignment.name).getD "center") ?_ r j
    · rfl
    · rw [other _ _ (by decide)]
      exact listed

/-- Where an environment does not frame its table, it asks for the alignments of the columns. -/
theorem alignmentAt?_of_bare (bare : dress? name n = none) (spec : ColumnSpec) (column : Nat) :
    alignmentAt? name spec column = (spec.alignAt? column).map Alignment.name := by
  unfold dress? at bare
  split at bare
  case h_14 =>
    unfold alignmentAt?
    split
    all_goals first | contradiction | rfl
  all_goals cases bare

/-! ### Main result -/

/-- The alignment of the cells of an environment. A cell has the alignment of its column of the grid
where the table is not framed, and that of the column with the number of the cells in front of it
where it is. These are the same column where every cell to the left has a place. -/
theorem text_align_of_cell {c : Context} (tabular : c.table = true) (n : Node) (name : String) :
    ∃ table, (frame n name c = table ∨ table ∈ (frame n name c).children) ∧ table.tag = "mtable" ∧
      (∀ r j, (placedAt? table r j).map (fun cell => (cell.tag, textAlign? cell)) =
        (laidColumns (grid n.children) r)[j]?.map fun column =>
          ("mtd", alignmentAt? (plainName name) (columnsOf n)
            (if (dress? (plainName name) n).isSome then j else column))) ∧
      ∀ r j column, (laidColumns (grid n.children) r)[j]? = some column →
        Laid (grid n.children) r column ∧ j ≤ column ∧
          (j = column ↔ ∀ before < column, Laid (grid n.children) r before) := by
  have columns : ∀ r j column, (laidColumns (grid n.children) r)[j]? = some column →
      Laid (grid n.children) r column ∧ j ≤ column ∧
        (j = column ↔ ∀ before < column, Laid (grid n.children) r before) :=
    fun _ _ _ there => Table.getElem?_laidColumns there
  have frames : (dress? (plainName name) (Table.ofRow n)).isSome =
      (dress? (plainName name) n).isSome := by
    unfold dress?
    split <;> rfl
  unfold frame
  rw [if_pos tabular]
  dsimp only
  cases dressed : dress? (plainName name) (Table.ofRow n) with
  | none =>
    rw [dressed] at frames
    refine ⟨_, .inl rfl, rfl, fun r j => ?_, columns⟩
    rw [Table.placedAt?_ofRow, Option.map_map, ← frames]
    refine congrArg (Option.map · _) (funext fun column => ?_)
    rw [Function.comp_apply, (Table.node_ofNodes _ _ _).1, (Table.style_ofNodes _ _ _).1,
      alignmentAt?_of_bare dressed]
    rfl
  | some table =>
    rw [dressed] at frames
    refine ⟨Table.align table, .inr ?_, (rowspacing_dress? dressed).1, fun r j => ?_, columns⟩
    · exact List.mem_append_right _ List.mem_cons_self
    · rw [placedAt?_align_dress? dressed, Table.placedAt?_ofRow, Option.map_map, ← frames]
      rfl

/-- A framed table of one row with a cell that spans two columns, which has its second cell in the
third column. -/
theorem text_align_of_cell_spanned :
    let wide := (Node.leaf "mi" "a").setAttribute "columnspan" "2"
    let content := [wide, Step.cellBreak, Step.cellBreak, Node.leaf "mi" "b"]
    let n : Node := { Node.row content with option := some "lcr" }
    ∃ table, (frame n "pmatrix" { table := true } = table ∨
        table ∈ (frame n "pmatrix" { table := true }).children) ∧
      (placedAt? table 0 1).map textAlign? = some (some "center") ∧
      (laidColumns (grid n.children) 0)[1]? = some 2 ∧ ¬ Laid (grid n.children) 0 1 := by
  intro wide content n
  obtain ⟨table, framed, -, cells, columns⟩ :=
    text_align_of_cell (c := { table := true }) rfl n "pmatrix"
  have second : (laidColumns (grid n.children) 0)[1]? = some 2 := by cbv
  have center : alignmentAt? (plainName "pmatrix") (columnsOf n)
      (if (dress? (plainName "pmatrix") n).isSome then 1 else 2) = some "center" := by cbv
  have cell := cells 0 1
  rw [second, Option.map_some, center] at cell
  refine ⟨table, framed, ?_, second, by decide⟩
  have aligned := congrArg (Option.map Prod.snd) cell
  rwa [Option.map_map] at aligned

/-- A framed table gives a cell the alignment of another column behind a skipped cell. -/
theorem text_align_of_other_column :
    ¬ ∀ (n : Node) (name : String) (table : Node),
      table ∈ (frame n name { table := true }).children → table.tag = "mtable" →
      ∀ r j column, (laidColumns (grid n.children) r)[j]? = some column →
        (placedAt? table r j).map textAlign? =
          some (alignmentAt? (plainName name) (columnsOf n) column) := by
  intro aligned
  let wide := (Node.leaf "mi" "a").setAttribute "columnspan" "2"
  let content := [wide, Step.cellBreak, Step.cellBreak, Node.leaf "mi" "b"]
  let n : Node := { Node.row content with option := some "lcr" }
  let table := Table.align (Table.ofRow n)
  have right := aligned n "pmatrix" table (List.mem_cons_of_mem _ List.mem_cons_self) rfl 0 1 2
    (by cbv)
  have center : (placedAt? table 0 1).map textAlign? = some (some "center") := by cbv
  have different : alignmentAt? (plainName "pmatrix") (columnsOf n) 2 = some "right" := by cbv
  rw [center, different] at right
  exact absurd right (by decide)

end TexFormula.Environment
