import TexFormula.Decimal
import TexFormula.Length
import TexFormula.Node
import TexFormula.Table.Alignment
import TexFormula.Text.Trim

/-! Tables. The content of a table is one row of nodes with marks between cells and rows. A cell can
span several columns or rows; the places it covers hold no cell of their own. -/
namespace TexFormula.Table

/-- The pieces of a list between the nodes that satisfy `p`, the empty ones too. There is always one
more piece than there are such nodes. -/
def pieces (p : Node → Bool) : List Node → List (List Node)
  | [] => [[]]
  | n :: rest =>
    if p n then [] :: pieces p rest
    else match pieces p rest with
      | [] => [[n]]
      | piece :: more => (n :: piece) :: more

/-- The rows of the content of a table. A break at the end does not start another row. -/
def rows (nodes : List Node) : List (List Node) :=
  let all := pieces (·.marks.rowBreak) nodes
  match all.getLast? with
  | some [] => all.dropLast
  | _ => all

/-- The cells of the content of a row. -/
def cells (nodes : List Node) : List (List Node) :=
  pieces (·.marks.cellBreak) nodes

/-- The space between rows where none is asked for. -/
def presetSpacing : String := "1.0ex"

/-- The number of rows or columns that a text asks a cell to span. -/
def readSpan? (text : String) : Option Nat :=
  Decimal.readCount? (Text.trim text)

/-- A number of 64 bits as it is read with a sign. -/
def signed (n : Int) : Int :=
  n.bmod UInt64.size

/-- The least height of an arrow beside `n` rows. Rows are one em high and half an em apart. -/
def arrowHeight (n : Nat) : String :=
  Length.ofHalves (signed (3 * signed n - 1))

/-- The width of an arrow over `n` columns. -/
def arrowWidth (n : Nat) : String :=
  Length.ofHalves (2 * signed (2 * signed n - 1))

/-- A cell that is being put together. -/
structure Cell where
  node : Node
  /-- The number of further rows that the cell covers. -/
  below : Nat := 0
  /-- The number of further columns that the cell covers, if it says so. -/
  beside : Option Nat := none
  /-- The spacing that the cell asks for below its row. -/
  spacing : Option String := none

/-- The cell after a node has asked it to span rows. An arrow that is alone in its cell is as high
as the rows. -/
def Cell.spanRows (cell : Cell) (alone : Bool) (n : Node) : Cell × Node :=
  match n.attribute? "rowspan" with
  | none => (cell, n)
  | some span =>
    let n := n.eraseAttribute "rowspan"
    let node := cell.node.setAttribute "rowspan" span
    match readSpan? span with
    | none => ({ cell with node }, n)
    | some count =>
      ({ cell with node, below := count - 1 },
        if alone && n.marks.verticalArrow then n.setAttribute "minsize" (arrowHeight count) else n)

/-- The cell after a node has asked it to span columns. An arrow that is alone in its cell gets a
space as wide as the columns, for it does not stretch over them by itself. -/
def Cell.spanColumns (cell : Cell) (alone : Bool) (n : Node) : Cell × Node :=
  match n.attribute? "columnspan" with
  | none => (cell, n)
  | some span =>
    let n := n.eraseAttribute "columnspan"
    let node := cell.node.setAttribute "columnspan" span
    match readSpan? span with
    | none => ({ cell with node }, n)
    | some count =>
      ({ cell with node, beside := some (count - 1) },
        if alone && n.marks.horizontalArrow then
          .branch "mover" [n, (Node.element "mspace").setAttribute "width" (arrowWidth count)]
        else n)

/-- The cell with one more node in it. -/
def Cell.add (alone : Bool) (cell : Cell) (n : Node) : Cell :=
  let cell := match n.attribute? "rowspacing" with
    | some spacing => { cell with spacing := some spacing }
    | none => cell
  let (cell, n) := cell.spanRows alone n
  let (cell, n) := cell.spanColumns alone n
  { cell with node := cell.node.append [n] }

/-- The cell with the given content in a column. -/
def Cell.ofNodes (spec : ColumnSpec) (column : Nat) (nodes : List Node) : Cell :=
  let node := Node.element "mtd"
  let node := match spec.alignAt? column with
    | some alignment => node.setCss "text-align" alignment.name
    | none => node
  nodes.foldl (Cell.add (nodes.length == 1)) { node }

/-- A row of a table. -/
structure Line where
  cells : List Node := []
  /-- For each column the number of further rows in which it is covered. -/
  cover : List Nat := []
  /-- The spacing that the row asks for. -/
  spacing : Option String := none

/-- The row of the given cells from a column on. A column that is covered from above has no cell,
and neither has one of the `skip` columns that a cell to the left covers. A column that is covered
from above does not count among the latter. -/
def layLine (spec : ColumnSpec) (column skip : Nat) (cover : List Nat) : List (List Node) → Line
  | [] => { cover }
  | content :: rest =>
    let further := cover.tail
    match cover.headD 0 with
    | covered + 1 =>
      let line := layLine spec (column + 1) skip further rest
      { line with cover := covered :: line.cover }
    | 0 =>
      match skip with
      | skip + 1 =>
        let line := layLine spec (column + 1) skip further rest
        { line with cover := 0 :: line.cover }
      | 0 =>
        let cell := Cell.ofNodes spec column content
        let line := layLine spec (column + 1) (cell.beside.getD 0) further rest
        { cells := cell.node :: line.cells
          cover := cell.below :: line.cover
          spacing := line.spacing <|> cell.spacing }

/-- The rows of a table, each with the spacing it asks for. -/
def layLines (spec : ColumnSpec) (cover : List Nat) : List (List Node) → List Line
  | [] => []
  | content :: rest =>
    let line := layLine spec 0 0 cover (cells content)
    line :: layLines spec line.cover rest

/-- The node of a row. -/
def Line.node (l : Line) : Node :=
  .branch "mtr" l.cells

/-- The spacing of all rows as one text, if one of them asks for any. -/
def spacingText? (lines : List Line) : Option String :=
  if lines.any (·.spacing.isSome) then
    some (" ".intercalate (trimRepeats (lines.map (·.spacing.getD presetSpacing))))
  else none

/-- The node as a table. The column specification is the argument of the environment. -/
def ofRow (n : Node) : Node :=
  let spec := ColumnSpec.parse (n.option.getD "")
  let lines := layLines spec [] (rows n.children)
  let n := n.setAttribute "columnalign" (spec.alignText?.getD "center")
  let n := match spec.rulesText? with
    | some text => n.setAttribute "columnlines" text
    | none => n
  let n := match spacingText? lines with
    | some text => n.setAttribute "rowspacing" text
    | none => n
  { n.setAttribute "rowalign" "center" with tag := "mtable", children := lines.map Line.node }

end TexFormula.Table
