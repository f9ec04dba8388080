import TexFormula.Dictionary
import TexFormula.Node.Marks
import TexFormula.Token

/-! Nodes of the formula tree. A node is an element of the output, or it holds a place in a row of
nodes without being written. -/
namespace TexFormula

/-- A node. Its text counts only where it has no children. -/
structure Node where
  /-- The name of the element. A node without a name is not written. -/
  tag : String := ""
  /-- The text of the element, as it is read and not as it is written. -/
  text : String := ""
  attributes : Dictionary := .empty
  /-- Properties of the style language, which are written into one attribute. -/
  css : Dictionary := .empty
  marks : Marks := {}
  children : List Node := []
  /-- The token that the node was made from. -/
  token : Token := {}
  /-- The argument that an environment was given. -/
  option : Option String := none
deriving Repr, Inhabited

namespace Node

/-- A node without content. -/
def element (tag : String) : Node :=
  { tag }

/-- A node with a text. -/
def leaf (tag text : String) : Node :=
  { tag, text }

/-- A node with children. -/
def branch (tag : String) (children : List Node) : Node :=
  { tag, children }

/-- A row of nodes. -/
def row (children : List Node) : Node :=
  branch "mrow" children

/-- What stands in a row where a node was taken away. -/
def placeholder : Node :=
  { marks := { hidden := true } }

/-- A text that stands for what could not be read, with the reason as its title. -/
def error (text title : String) : Node :=
  { tag := "merror", text, attributes := Dictionary.empty.insert "title" title }

/-- Whether a node holds a place and nothing else. -/
def isPlaceholder (n : Node) : Bool :=
  n.tag == "" && n.marks.hidden

/-- The text of an attribute. -/
def attribute? (n : Node) (name : String) : Option String :=
  n.attributes.get? name

/-- The node with an attribute set. -/
def setAttribute (n : Node) (name value : String) : Node :=
  { n with attributes := n.attributes.insert name value }

/-- The node without an attribute. -/
def eraseAttribute (n : Node) (name : String) : Node :=
  { n with attributes := n.attributes.erase name }

/-- The node with several attributes set, one after the other. -/
def setAttributes (n : Node) (entries : List (String × String)) : Node :=
  entries.foldl (fun n entry => n.setAttribute entry.1 entry.2) n

/-- The node with a property of the style language set. -/
def setCss (n : Node) (name value : String) : Node :=
  { n with css := n.css.insert name value }

/-- The node with further marks. -/
def mark (n : Node) (marks : Marks) : Node :=
  { n with marks := n.marks.union marks }

/-- The node with the token it was made from. Outside a token list no place is counted, so the token
has no partner here. -/
def fromToken (n : Node) (token : Token) : Node :=
  { n with token := token.unpaired }

/-- The node with further children at the end. -/
def append (n : Node) (children : List Node) : Node :=
  { n with children := n.children ++ children }

/-- The node with the attributes that follow from its marks. -/
def reflectMarks (n : Node) : Node :=
  let n := if n.marks.largeOperator then n.setAttribute "largeop" "true" else n
  let n := if n.marks.movableLimits then n.setAttribute "movablelimits" "true" else n
  if n.marks.stretchy then n.setAttribute "stretchy" "true" else n

/-- A fence that stretches over what it stands beside. -/
def fence (text : String) : Node :=
  (leaf "mo" text).setAttributes [("fence", "true"), ("stretchy", "true")]

end Node

/-! ### Fractions and binomials -/

/-- The ways to write one thing above another. -/
inductive Fraction where
  /-- A line between the two, in the size that the place gives. -/
  | plain
  /-- A line between the two, in the size of a displayed formula. -/
  | displayed
  /-- A line between the two, in the size of a formula in running text. -/
  | inlined
  /-- No line between the two. -/
  | unlined
  /-- No line between the two, and parentheses around them. -/
  | binomial
  /-- A binomial in the size of a formula in running text. -/
  | inlinedBinomial
deriving DecidableEq, Repr

/-- The node with one thing above another. -/
def Fraction.node (f : Fraction) (upper lower : Node) : Node :=
  let lined := Node.branch "mfrac" [upper, lower]
  let unlined := lined.setAttribute "linethickness" "0"
  let binomial := Node.row [.fence "(", unlined, .fence ")"]
  match f with
  | plain => lined
  | displayed => lined.setAttribute "displaystyle" "true"
  | inlined => lined.setAttribute "displaystyle" "false"
  | .unlined => unlined
  | .binomial => binomial
  | inlinedBinomial => binomial.setAttribute "displaystyle" "false"

end TexFormula
