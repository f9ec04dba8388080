import TexFormula.Context
import TexFormula.Length
import TexFormula.Node
import TexFormula.Symbol.Table
import TexFormula.Text.Invisible

/-! Nodes that are made from one token or symbol, and the form of the letters in them. The two
forms of script letters have one name in the output, so a variation selector after each character
tells them apart. -/
namespace TexFormula

/-! ### Letters -/

/-- The character that follows each character of a variant. -/
def Variant.selector? (v : Variant) : Option Char :=
  if v = { chancery := true } then some '\ufe00'
  else if v = { roundhand := true } then some '\ufe01'
  else none

namespace Node

/-- The node with a selector after each character of its text. -/
def withSelector (n : Node) (selector : Char) : Node :=
  { n with text := String.ofList (n.text.toList.flatMap fun c => [c, selector]) }

/-- The node in a variant. A variant without a name changes nothing. -/
def applyVariant (n : Node) (v : Variant) : Node :=
  match v.name? with
  | none => n
  | some name =>
    let n := n.setAttribute "mathvariant" name
    let n := if v = { chancery := true } then n.setAttribute "class" "calligraphic" else n
    match v.selector? with
    | none => n
    | some selector => n.withSelector selector

end Node

end TexFormula

/-! ### Tokens and symbols -/

namespace TexFormula.Node

/-- The text of a delimiter. A command stands for its glyph if it has one. -/
def delimiterText (t : Token) : String :=
  if t.kind.command then ((Symbol.named? t.value).map (·.glyph)).getD t.value
  else if t.kind.escaped && t.value == "|" then "‖"
  else t.value

/-- The node of a delimiter. Fences stretch over what is between them, escaped delimiters stretch
too, and all others do not. The invisible delimiter has no node. -/
def delimiter? (t : Token) (c : Context) : Option Node :=
  if t.kind.null then none
  else
    let n := (leaf "mo" (delimiterText t)).fromToken t
    let n :=
      if t.kind.fence then
        let n := n.setAttributes [("fence", "true"), ("stretchy", "true")]
        if n.text == "|" then n.setAttribute "symmetric" "true" else n
      else if t.kind.escaped then n.setAttribute "stretchy" "true"
      else n.setAttribute "stretchy" "false"
    some (if t.kind.command then n.applyVariant c.variant else n)

/-- The element of a symbol. Signs are operators only as fences. -/
def symbolTag (s : Symbol) (t : Token) : String :=
  match s.cls with
  | .letter => "mi"
  | .other => if t.kind.fence then "mo" else "mi"
  | _ => "mo"

/-- The marks of the node of a symbol. -/
def symbolMarks (s : Symbol) : Marks :=
  if s.cls = .large then { s.marks with largeOperator := true, movableLimits := true } else s.marks

/-- The node of a symbol. In a table arrows stretch. -/
def ofSymbol (s : Symbol) (t : Token) (c : Context) : Node :=
  let n := ((leaf (symbolTag s t) s.glyph).mark (symbolMarks s)).fromToken t
  let isArrow := n.marks.horizontalArrow || n.marks.verticalArrow
  let n := if c.table && isArrow then n.setAttribute "stretchy" "true" else n
  let variant := if n.marks.upright && c.variant = {} then { normal := true } else c.variant
  (n.applyVariant variant).reflectMarks

/-- The node of an identifier, which is a symbol or the name itself. -/
def ofIdentifier (marks : Marks) (t : Token) (c : Context) : Node :=
  let n := ((element "mi").mark marks).fromToken t
  let n := match Symbol.named? t.value with
    | some s => { n with text := s.glyph }
    | none => { n with text := t.value }.setAttribute "lspace" "0.11111em"
  (n.applyVariant c.variant).reflectMarks

/-- Whether a token is a tie, a blank at which no line ends. -/
def isTie (t : Token) : Bool :=
  t.kind.reserved && t.value == "~"

/-- The element of a token that is neither a delimiter nor a command. -/
def plainTag (t : Token) (c : Context) : String :=
  if c.text || isTie t then "mtext"
  else if t.kind.letter then "mi"
  else if t.kind.number then "mn"
  else "mo"

/-- The node of a token that is neither a delimiter nor a command. -/
def ofPlain (t : Token) (c : Context) : Node :=
  let n := (leaf (plainTag t c) (if isTie t then "\u00a0" else t.value)).fromToken t
  if t.kind.letter || t.kind.number || c.text then n.applyVariant c.variant else n

/-- The space of a length, or an error that names the command if the text is no length. -/
def space (command length : String) : Node :=
  match Length.parse? length with
  | some width => (element "mspace").setAttribute "width" width
  | none => error command ("invalid dimension " ++ Text.quoted length)

/-- The elements whose text takes a variant. -/
def textElements : List String := ["mi", "mn", "mo", "mtext"]

/-- The node as the result of a command: it has the variant of the place, unless it has one of its
own, and the attributes that follow from its marks. -/
def finish (n : Node) (t : Token) (c : Context) : Node :=
  let n := n.fromToken t
  let n :=
    if textElements.contains n.tag && (n.attribute? "mathvariant").isNone then
      n.applyVariant c.variant
    else n
  n.reflectMarks

end TexFormula.Node
