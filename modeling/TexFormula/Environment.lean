import TexFormula.Context
import TexFormula.Table.Alignment
import TexFormula.Table.Grid

/-! Environments. The name of an environment decides how its content is read, and how it is framed
once it is read. -/
namespace TexFormula.Environment

/-- The matrices. Their starred forms take a column specification. -/
def matrices : List String :=
  ["matrix", "pmatrix", "bmatrix", "Bmatrix", "vmatrix", "Vmatrix", "smallmatrix"]

/-- The tables that take a column specification. -/
def arrays : List String := ["array", "subarray"]

/-- The environments whose content is a table. -/
def tables : List String :=
  matrices ++ arrays
    ++ ["table", "align", "aligned", "split", "cases", "gather", "gathered"]

/-- The name of an environment without the stars at its end. -/
def plainName (name : String) : String :=
  Text.trimTrailing '*' name

/-- The context for the content of an environment. What an environment around it asks for does not
reach it. -/
def context (name : String) (star : Bool) (c : Context) : Context :=
  let name := plainName name
  { c with
    table := tables.contains name
    takesArgument := arrays.contains name || (star && matrices.contains name) }

/-- The delimiters on the left and on the right of an environment. -/
def delimiters (name : String) : Option String × Option String :=
  match name with
  | "pmatrix" => (some "(", some ")")
  | "bmatrix" => (some "[", some "]")
  | "Bmatrix" => (some "\x7b", some "\x7d")
  | "vmatrix" => (some "|", some "|")
  | "Vmatrix" => (some "‖", some "‖")
  | "cases" => (some "\x7b", none)
  | _ => (none, none)

/-- A node aligned in an attribute and in its style. -/
def alignNode (alignment : String) (n : Node) : Node :=
  (n.setAttribute "columnalign" alignment).setCss "text-align" alignment

/-- The row with its first cell aligned to the right. -/
def alignFirstCell : List Node → List Node
  | [] => []
  | cell :: rest =>
    if cell.tag == "mtd" then alignNode "right" cell :: rest else cell :: alignFirstCell rest

/-- The table of an environment with the attributes that its name asks for, or `none` where the
content of the environment is not framed. -/
def dress? (name : String) (n : Node) : Option Node :=
  match name with
  | "pmatrix" | "bmatrix" | "Bmatrix" | "vmatrix" | "Vmatrix" => some n
  | "cases" => some (n.setAttribute "columnalign" "left")
  | "align" | "aligned" | "split" =>
    let n := alignNode "left" (n.setAttribute "displaystyle" "true")
    some { n with children := n.children.map fun row =>
      { row with children := alignFirstCell row.children } }
  | "gather" | "gathered" =>
    some (n.setAttributes [("displaystyle", "true"), ("columnalign", "center")])
  | "subarray" => some (n.setAttribute "displaystyle" "false")
  | "smallmatrix" => some (n.setAttribute "scriptlevel" "1")
  | _ => none

/-- The content of an environment in its frame. -/
def frame (n : Node) (name : String) (c : Context) : Node :=
  let n := if c.table then Table.ofRow n else n
  let name := plainName name
  match dress? name n with
  | none => n
  | some n =>
    let (left, right) := delimiters name
    .row ((left.map Node.fence).toList ++ Table.align n :: (right.map Node.fence).toList)

end TexFormula.Environment
