import TexFormula.Node
import TexFormula.Text.Trim

/-! Alignment in tables: the specification of the columns, which is a letter for the alignment of
each column and rules between them, and the alignment of cells as a property of the style language,
beside the attribute of the table. -/
namespace TexFormula

/-! ### Columns -/

/-- The alignment of a column. -/
inductive Alignment where
  | left
  | center
  | right
deriving DecidableEq, Repr, Inhabited

/-- The name of an alignment. -/
def Alignment.name : Alignment → String
  | left => "left"
  | center => "center"
  | right => "right"

/-- The alignment that a letter stands for. -/
def Alignment.ofLetter? (c : Char) : Option Alignment :=
  match c with
  | 'l' => some .left
  | 'c' => some .center
  | 'r' => some .right
  | _ => none

/-- What is drawn between two columns. -/
inductive Rule where
  | solid
  | dashed
  | none
deriving DecidableEq, Repr, Inhabited

/-- The name of a rule. -/
def Rule.name : Rule → String
  | solid => "solid"
  | dashed => "dashed"
  | none => "none"

/-- The rule that a character stands for. -/
def Rule.ofChar? (c : Char) : Option Rule :=
  match c with
  | '|' => some .solid
  | ':' => some .dashed
  | _ => Option.none

/-- The list without the values at its end that repeat the one before them. A list that is read with
its last value repeated for ever says the same before and after. -/
def trimRepeats [DecidableEq α] : List α → List α
  | [] => []
  | a :: rest =>
    match trimRepeats rest with
    | [] => [a]
    | [b] => if a = b then [a] else [a, b]
    | more => a :: more

/-- The value at an index of a list whose last value is repeated for ever. -/
def repeatedAt? (values : List α) (i : Nat) : Option α :=
  values[i]? <|> values.getLast?

/-- A column specification: the alignments of the columns and the rules between them. Both repeat
their last value. -/
structure ColumnSpec where
  align : List Alignment := []
  rules : List Rule := []
deriving DecidableEq, Repr, Inhabited

namespace ColumnSpec

/-- The alignments and rules of a specification, without what is before the first character. Between
two letters without a rule there is none, and `afterRule` says that this is already settled. -/
def read (afterRule : Bool) : List Char → List Alignment × List Rule
  | [] => ([], [])
  | c :: rest =>
    match Rule.ofChar? c with
    | some rule =>
      let more := read true rest
      (more.1, rule :: more.2)
    | none =>
      match Alignment.ofLetter? c with
      | none => read afterRule rest
      | some alignment =>
        let more := read false rest
        (alignment :: more.1, if afterRule then more.2 else .none :: more.2)

/-- The specification that a text gives. A rule cannot be drawn before the first column, so one at
the very start does not count. -/
def parse (text : String) : ColumnSpec :=
  let given := match text.toList with
    | [] => []
    | c :: rest => if (Rule.ofChar? c).isSome then rest else c :: rest
  let found := read true given
  { align := trimRepeats found.1, rules := trimRepeats found.2 }

/-- The alignments as one text, if there are any. -/
def alignText? (s : ColumnSpec) : Option String :=
  if s.align.isEmpty then none else some (" ".intercalate (s.align.map Alignment.name))

/-- The rules as one text, if there are any. -/
def rulesText? (s : ColumnSpec) : Option String :=
  if s.rules.isEmpty then none else some (" ".intercalate (s.rules.map Rule.name))

/-- The alignment of a column. -/
def alignAt? (s : ColumnSpec) (column : Nat) : Option Alignment :=
  repeatedAt? s.align column

end ColumnSpec

end TexFormula

/-! ### Cells -/

namespace TexFormula.Table

/-- The cells of a row, from a column on, with their alignment. A cell's own attribute comes before
that of its row, and that before the list of the table. Only cells count as columns. -/
def alignCells (fromRow : Option String) (fromTable : List String) (column : Nat) :
    List Node → List Node
  | [] => []
  | cell :: rest =>
    if cell.tag == "mtd" then
      let alignment := cell.attribute? "columnalign" <|> fromRow <|> repeatedAt? fromTable column
      let cell := match alignment with
        | some value => cell.setCss "text-align" value
        | none => cell
      cell :: alignCells fromRow fromTable (column + 1) rest
    else cell :: alignCells fromRow fromTable column rest

/-- The row with its cells aligned. -/
def alignRow (fromTable : List String) (row : Node) : Node :=
  if row.tag == "mtr" then
    { row with children := alignCells (row.attribute? "columnalign") fromTable 0 row.children }
  else row

/-- The table with its cells aligned. -/
def align (table : Node) : Node :=
  let fromTable := Text.words ((table.attribute? "columnalign").getD "center")
  { table with children := table.children.map (alignRow fromTable) }

end TexFormula.Table
