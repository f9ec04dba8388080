import TexFormula.Environment
import TexFormula.Proofs.Node.Shape
import TexFormula.Proofs.Table.Stable

/-! Tables are made of rows, and rows of cells. A cell takes the nodes of a row as they are, and
only an arrow that spans columns becomes part of an element; an arrow is always written. -/
namespace TexFormula

namespace Node

variable {F : Fit} {n : Node} {children : List Node}

/-- A cell of a table that is put together. -/
structure IsCell (F : Fit) (n : Node) : Prop where
  tag : n.tag = "mtd"
  below : ∀ child ∈ n.children, child.Inner F

/-- A row of a table. -/
structure IsRow (F : Fit) (n : Node) : Prop where
  tag : n.tag = "mtr"
  cells : ∀ child ∈ n.children, child.IsCell F

/-- A table. -/
structure IsTable (F : Fit) (n : Node) : Prop where
  tag : n.tag = "mtable"
  visible : n.marks.hidden = false
  rows : ∀ child ∈ n.children, child.IsRow F

theorem plain_of_name (tag : n.tag = name) (other : name ≠ "mo") : n.IsPlain :=
  plain_of_tag (tag ▸ other)

theorem IsCell.inner (cell : n.IsCell F) : n.Inner F := by
  have free : IsFree n.tag := by
    rw [cell.tag]
    decide
  exact .plain (shaped_of_free free cell.below) (plain_of_name cell.tag (by decide))

theorem IsRow.inner (row : n.IsRow F) : n.Inner F := by
  refine .plain (.node ⟨fun k given => ?_, fun child member => ?_, fun table => ?_,
    fun _ child member _ => ?_⟩ ?_) (plain_of_name row.tag (by decide))
  · rw [row.tag] at given
    cases given
  · exact (row.cells child member).inner.inside
  · rw [row.tag] at table
    exact absurd table (by decide)
  · exact (row.cells child member).tag
  · exact fun child member => (row.cells child member).inner.shaped

theorem IsTable.solid (table : n.IsTable F) : n.Solid F := by
  refine Made.solid ⟨F.part_of_written ?_, .node ⟨fun k given => ?_, fun child member => ?_,
    fun _ child member _ => ?_, fun row => ?_⟩ ?_⟩ (plain_of_name table.tag (by decide))
  · simp [isWritten, table.visible, table.tag]
  · rw [table.tag] at given
    cases given
  · exact (table.rows child member).inner.inside
  · exact .inl (table.rows child member).tag
  · rw [table.tag] at row
    exact absurd row (by decide)
  · exact fun child member => (table.rows child member).inner.shaped

theorem Resembles.isTable {m : Node} (resembles : n.Resembles m) (table : n.IsTable F) :
    m.IsTable F :=
  ⟨resembles.tag.trans table.tag, (congrArg Marks.hidden resembles.marks).trans table.visible,
    resembles.children ▸ table.rows⟩

end Node

namespace Table

open Node

variable {F : Fit} {nodes : List Node} {n : Node}

/-! ### Cells -/

theorem arranged_spanRows {cell : Cell} (alone : Bool) (made : cell.node.IsCell F)
    (given : n.Arranged F) :
    (cell.spanRows alone n).1.node.IsCell F ∧ (cell.spanRows alone n).2.Arranged F := by
  have erased : (n.eraseAttribute "rowspan").Arranged F :=
    Resembles.arranged (n := n) ⟨rfl, rfl, rfl⟩ rfl rfl given
  have spanned : ∀ span, (cell.node.setAttribute "rowspan" span).IsCell F := fun span =>
    ⟨made.tag, made.below⟩
  unfold Cell.spanRows
  split
  case h_1 => exact ⟨made, given⟩
  case h_2 span asked =>
    dsimp only
    split
    case h_1 => exact ⟨spanned span, erased⟩
    case h_2 count read =>
      refine ⟨spanned span, ?_⟩
      dsimp only
      split
      · exact Resembles.arranged (n := n) ⟨rfl, rfl, rfl⟩ rfl rfl given
      · exact erased

theorem inner_spanColumns {cell : Cell} (alone : Bool) (made : cell.node.IsCell F)
    (given : n.Arranged F) :
    (cell.spanColumns alone n).1.node.IsCell F ∧ (cell.spanColumns alone n).2.Inner F := by
  have erased : (n.eraseAttribute "columnspan").Arranged F :=
    Resembles.arranged (n := n) ⟨rfl, rfl, rfl⟩ rfl rfl given
  have spanned : ∀ span, (cell.node.setAttribute "columnspan" span).IsCell F := fun span =>
    ⟨made.tag, made.below⟩
  unfold Cell.spanColumns
  split
  case h_1 => exact ⟨made, given.toInner⟩
  case h_2 span asked =>
    dsimp only
    split
    case h_1 => exact ⟨spanned span, erased.toInner⟩
    case h_2 count read =>
      refine ⟨spanned span, ?_⟩
      dsimp only
      split
      case isTrue arrow =>
        have space : ((element "mspace").setAttribute "width" (arrowWidth count)).Solid F :=
          (solid_element _ (by decide)).setAttribute _ _
        have moved := erased.solid_of_arrow (Bool.and_eq_true_iff.mp arrow).2
        exact (solid_two "mover" rfl moved space).toInner
      case isFalse => exact erased.toInner

theorem isCell_add {cell : Cell} {alone : Bool} (made : cell.node.IsCell F)
    (given : n.Arranged F) : (cell.add alone n).node.IsCell F := by
  have filled : ∀ start : Cell, start.node.IsCell F →
      let rows := start.spanRows alone n
      let columns := rows.1.spanColumns alone rows.2
      (columns.1.node.append [columns.2]).IsCell F := by
    intro start made
    obtain ⟨spanned, arranged⟩ := arranged_spanRows alone made given
    obtain ⟨covered, inner⟩ := inner_spanColumns alone spanned arranged
    exact ⟨covered.tag, List.forall_mem_append.mpr
      ⟨covered.below, List.forall_mem_singleton.mpr inner⟩⟩
  unfold Cell.add
  cases n.attribute? "rowspacing" with
  | none => exact filled _ made
  | some spacing => exact filled { cell with spacing := some spacing } made

theorem isCell_ofNodes (spec : ColumnSpec) (column : Nat) (arranged : ∀ n ∈ nodes, n.Arranged F) :
    (Cell.ofNodes spec column nodes).node.IsCell F := by
  have started : (element "mtd").IsCell F := ⟨rfl, List.forall_mem_nil _⟩
  have filled : ∀ (cell : Cell), cell.node.IsCell F →
      (nodes.foldl (Cell.add (nodes.length == 1)) cell).node.IsCell F := by
    generalize (nodes.length == 1) = alone
    induction nodes with
    | nil => exact fun _ made => made
    | cons n rest ih =>
      obtain ⟨here, later⟩ := List.forall_mem_cons.mp arranged
      exact fun cell made => ih later _ (isCell_add made here)
  unfold Cell.ofNodes
  cases spec.alignAt? column with
  | none => exact filled _ started
  | some alignment => exact filled _ ⟨rfl, List.forall_mem_nil _⟩

/-! ### Rows and tables -/

theorem isCell_layLine (spec : ColumnSpec) (column skip : Nat) (cover : List Nat)
    {contents : List (List Node)} (arranged : ∀ content ∈ contents, ∀ n ∈ content, n.Arranged F) :
    ∀ n ∈ (layLine spec column skip cover contents).cells, n.IsCell F := by
  induction contents generalizing column skip cover with
  | nil => exact List.forall_mem_nil _
  | cons content rest ih =>
    obtain ⟨here, later⟩ := List.forall_mem_cons.mp arranged
    unfold layLine
    simp only
    split
    · exact ih _ _ _ later
    · split
      · exact ih _ _ _ later
      · exact List.forall_mem_cons.mpr ⟨isCell_ofNodes spec column here, ih _ _ _ later⟩

theorem isRow_layLines (spec : ColumnSpec) (cover : List Nat) {contents : List (List Node)}
    (arranged : ∀ content ∈ contents, ∀ n ∈ content, n.Arranged F) :
    ∀ line ∈ layLines spec cover contents, line.node.IsRow F := by
  induction contents generalizing cover with
  | nil => exact List.forall_mem_nil _
  | cons content rest ih =>
    obtain ⟨here, later⟩ := List.forall_mem_cons.mp arranged
    have cut : ∀ piece ∈ cells content, ∀ n ∈ piece, n.Arranged F := fun piece there n member =>
      here n (mem_of_mem_pieces there member)
    exact List.forall_mem_cons.mpr ⟨⟨rfl, isCell_layLine spec 0 0 cover cut⟩, ih _ later⟩

theorem isTable_ofRow (visible : n.marks.hidden = false)
    (arranged : ∀ child ∈ n.children, child.Arranged F) : (ofRow n).IsTable F := by
  have content : ∀ row ∈ rows n.children, ∀ m ∈ row, m.Arranged F := fun row there m member =>
    arranged m (mem_of_mem_rows there member)
  have lines := isRow_layLines (ColumnSpec.parse (n.option.getD "")) [] content
  refine ⟨rfl, ?_, fun child member => ?_⟩
  · unfold ofRow
    dsimp only
    split <;> split <;> exact visible
  · obtain ⟨line, there, same⟩ := List.mem_map.mp member
    exact same ▸ lines line there

theorem isCell_alignCells (fromRow : Option String) (fromTable : List String) (column : Nat)
    (cells : ∀ n ∈ nodes, n.IsCell F) :
    ∀ n ∈ alignCells fromRow fromTable column nodes, n.IsCell F := by
  induction nodes generalizing column with
  | nil => exact cells
  | cons cell rest ih =>
    obtain ⟨here, later⟩ := List.forall_mem_cons.mp cells
    unfold alignCells
    split
    · refine List.forall_mem_cons.mpr ⟨?_, ih _ later⟩
      split
      · exact ⟨here.tag, here.below⟩
      · exact here
    · exact List.forall_mem_cons.mpr ⟨here, ih _ later⟩

theorem isTable_align {table : Node} (made : table.IsTable F) :
    (align table).IsTable F := by
  refine ⟨made.tag, made.visible, fun n member => ?_⟩
  obtain ⟨row, there, same⟩ := List.mem_map.mp member
  have known := made.rows row there
  subst same
  unfold alignRow
  split
  · exact ⟨known.tag, isCell_alignCells _ _ _ known.cells⟩
  · exact known

end Table

namespace Environment

open Node

variable {F : Fit} {nodes : List Node} {n : Node}

theorem isCell_alignFirstCell (cells : ∀ n ∈ nodes, n.IsCell F) :
    ∀ n ∈ alignFirstCell nodes, n.IsCell F := by
  induction nodes with
  | nil => exact cells
  | cons cell rest ih =>
    obtain ⟨here, later⟩ := List.forall_mem_cons.mp cells
    unfold alignFirstCell
    split
    · exact List.forall_mem_cons.mpr ⟨⟨here.tag, here.below⟩, later⟩
    · exact List.forall_mem_cons.mpr ⟨here, ih later⟩

theorem isTable_alignFirstCells (table : n.IsTable F) :
    ({ n with children := n.children.map fun row =>
      { row with children := alignFirstCell row.children } } : Node).IsTable F := by
  refine ⟨table.tag, table.visible, fun m member => ?_⟩
  obtain ⟨row, there, same⟩ := List.mem_map.mp member
  have known := table.rows row there
  exact same ▸ ⟨known.tag, isCell_alignFirstCell known.cells⟩

/-- Only tables are framed, and they stay tables. -/
theorem isTable_dress? {name : String} {dressed : Node} (table : n.IsTable F)
    (given : dress? name n = some dressed) : dressed.IsTable F := by
  have set : ∀ entries, (n.setAttributes entries).IsTable F := fun entries =>
    (resembles_setAttributes n entries).isTable table
  unfold dress? at given
  split at given
  all_goals cases given
  · exact table
  · exact table
  · exact table
  · exact table
  · exact table
  · exact set [("columnalign", "left")]
  · exact isTable_alignFirstCells ⟨table.tag, table.visible, table.rows⟩
  · exact isTable_alignFirstCells ⟨table.tag, table.visible, table.rows⟩
  · exact isTable_alignFirstCells ⟨table.tag, table.visible, table.rows⟩
  · exact set _
  · exact set _
  · exact set [("displaystyle", "false")]
  · exact set [("scriptlevel", "1")]

/-- Whatever is framed is read as a table. -/
theorem table_of_dress? {name : String} {dressed : Node} (star : Bool) (c : Context)
    (given : dress? (plainName name) n = some dressed) : (context name star c).table = true := by
  change tables.contains (plainName name) = true
  generalize plainName name = plain at given
  unfold dress? at given
  split at given
  all_goals first
    | cases given
      done
    | decide

/-- No environment has a delimiter that is written as another one. -/
theorem plain_delimiters (name : String) : ∀ text ∈ [(delimiters name).1, (delimiters name).2],
    ∀ glyph ∈ text, (leaf "mo" glyph).IsPlain := by
  unfold delimiters
  split <;> decide

theorem inner_fences {delimiter : Option String}
    (plain : ∀ glyph ∈ delimiter, (leaf "mo" glyph).IsPlain) :
    ∀ n ∈ (delimiter.map fence).toList, n.Inner F := by
  cases delimiter with
  | none => exact List.forall_mem_nil _
  | some text => exact List.forall_mem_singleton.mpr (solid_fence text (plain text rfl)).toInner

theorem made_frame (name : String) (star : Bool) (c : Context) (made : n.Made F)
    (visible : n.marks.hidden = false) (arranged : ∀ child ∈ n.children, child.Arranged F) :
    (frame n name (context name star c)).Made F := by
  have table : (Table.ofRow n).IsTable F := Table.isTable_ofRow visible arranged
  unfold frame
  dsimp only
  split
  case h_1 =>
    split
    · exact table.solid.toMade
    · exact made
  case h_2 dressed given =>
    rw [if_pos (table_of_dress? star c given)] at given
    have framed := Table.isTable_align (isTable_dress? table given)
    have plain := plain_delimiters (plainName name)
    refine (solid_row (List.forall_mem_append.mpr ⟨inner_fences ?_, List.forall_mem_cons.mpr
      ⟨framed.solid.toInner, inner_fences ?_⟩⟩)).toMade
    · exact plain _ List.mem_cons_self
    · exact plain _ (List.mem_cons_of_mem _ List.mem_cons_self)

end Environment

end TexFormula
