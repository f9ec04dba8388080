import TexFormula.Document
import TexFormula.Node.Xml

/-! What a document answers. A formula is rendered with its number and its source around it, and the
answer depends on what was done with the document before. So a session is a list of operations on
one document, each of which finds the document as the one before left it. -/
namespace TexFormula.Document

/-! ### Rendering -/

/-- A formula with its number, as a table of one row. -/
def numbered (n : Nat) (formula : Node) : Node :=
  let label := Node.leaf "mtext" ("(" ++ toString n ++ ")")
  .branch "mtable"
    [.branch "mlabeledtr" [.branch "mtd" [label], .branch "mtd" [formula]]]

/-- A formula with its source beside it. -/
def annotated (source : String) (formula : Node) : Node :=
  .branch "semantics"
    [formula, (Node.leaf "annotation" source).setAttribute "encoding" "application/x-tex"]

/-- The element that holds a whole formula. -/
def whole (style : Style) (content : Node) : Node :=
  (Node.branch "math" [content]).setAttributes style.attributes

/-- Whether formulas of a style get a number. -/
def numbers (d : Document) (style : Style) : Bool :=
  d.options.numbering && style.isDisplay

/-- The formula with the next number, if formulas of the style get one, and the document after it.
-/
def number (d : Document) (style : Style) (formula : Node) : Node × Document :=
  if d.numbers style then
    (numbered (d.equations + 1) formula, { d with equations := d.equations + 1 })
  else (formula, d)

/-- The formula with its source beside it, if the document asks for that. -/
def annotate (d : Document) (source : String) (formula : Node) : Node :=
  if d.options.annotate then annotated source formula else formula

/-- Renders a formula as a whole element. -/
def render (d : Document) (source : String) (style : Style) : Except Error String × Document :=
  match d.read source style with
  | .error e => (.error e, d)
  | .ok (formula, d) =>
    let (formula, d) := d.number style formula
    (.ok ((whole style (d.annotate source formula)).toXml d.options.pretty), d)

/-- Renders a formula without the element around it. -/
def renderBody (d : Document) (source : String) : Except Error String × Document :=
  match d.read source .inlined with
  | .error e => (.error e, d)
  | .ok (formula, d) => (.ok (formula.toXml d.options.pretty), d)

/-! ### Sessions -/

/-- What can be done with a document. -/
inductive Operation where
  | render (source : String) (style : Style)
  | renderBody (source : String)
  | addMacros (declarations : List (String × String))
  | setOptions (options : Options)

/-- What an operation renders, if it renders anything, and the document after it. -/
def perform (d : Document) : Operation → Option (Except Error String) × Document
  | .render source style => (d.render source style).map some id
  | .renderBody source => (d.renderBody source).map some id
  | .addMacros declarations => (none, d.addMacros declarations)
  | .setOptions options => (none, { d with options })

/-- The document after a session. -/
def after (d : Document) (session : List Operation) : Document :=
  session.foldl (fun d operation => (d.perform operation).2) d

/-- What the operations of a session render, in order. -/
def outcomes (d : Document) : List Operation → List (Option (Except Error String))
  | [] => []
  | operation :: rest => (d.perform operation).1 :: (d.perform operation).2.outcomes rest

end TexFormula.Document
