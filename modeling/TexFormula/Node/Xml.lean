import TexFormula.Node
import TexFormula.Text.Trim

/-! Nodes as XML. Attributes are written in the order of their names, with the style properties of a
node as one attribute among them. Text is escaped here and nowhere else. -/
namespace TexFormula.Node

/-- How one character is written in a text. -/
def escapeChar (c : Char) : List Char :=
  if c == '&' then ['&', 'a', 'm', 'p', ';']
  else if c == '<' then ['&', 'l', 't', ';']
  else if c == '>' then ['&', 'g', 't', ';']
  else [c]

/-- How one character is written in the value of an attribute. -/
def escapeAttributeChar (c : Char) : List Char :=
  if c == '\x22' then ['&', 'q', 'u', 'o', 't', ';'] else escapeChar c

/-- A text as it is written between tags. -/
def escape (s : String) : String :=
  String.ofList (s.toList.flatMap escapeChar)

/-- A text as it is written between the quotes of an attribute. -/
def escapeAttribute (s : String) : String :=
  String.ofList (s.toList.flatMap escapeAttributeChar)

/-- The elements that are written without content. -/
def emptyTags : List String :=
  ["malignmark", "maligngroup", "mspace", "mprescripts", "none"]

/-- The parts of the style attribute: the one that was set, and the style properties. -/
def styleParts (n : Node) : List String :=
  ((n.attribute? "style").map Text.trim).toList
    ++ n.css.entries.map fun property => property.1 ++ ": " ++ property.2 ++ ";"

/-- The value of the style attribute, if there is one. -/
def style? (n : Node) : Option String :=
  match n.styleParts with
  | [] => none
  | parts => some (" ".intercalate parts)

/-- The attributes as they are written, in ascending order of their names. -/
def writtenAttributes (n : Node) : List (String × String) :=
  match n.style? with
  | none => n.attributes.entries
  | some style => (n.attributes.insert "style" style).entries

/-- An attribute in a tag. -/
def writeAttribute (entry : String × String) : String :=
  " " ++ entry.1 ++ "=\"" ++ escapeAttribute entry.2 ++ "\""

/-- The tag before the content of a node. -/
def openTag (n : Node) : String :=
  "<" ++ n.tag ++ String.join (n.writtenAttributes.map writeAttribute) ++ ">"

/-- The tag after the content of a node. -/
def closeTag (n : Node) : String :=
  "</" ++ n.tag ++ ">"

/-- Whether a node is written at all. -/
def isWritten (n : Node) : Bool :=
  !n.marks.hidden && n.tag != ""

/-- The blanks before a line at a depth. -/
def indentation (depth : Nat) : String :=
  "".pushn ' ' (2 * depth)

mutual

/-- A node as XML on one line. -/
def render : Node → String
  | n@⟨tag, text, _, _, _, children, _, _⟩ =>
    if n.isWritten then
      n.openTag
        ++ (if emptyTags.contains tag then ""
          else if children.isEmpty then escape text
          else renderAll children)
        ++ n.closeTag
    else ""

/-- Nodes as XML on one line, one after the other. -/
def renderAll : List Node → String
  | [] => ""
  | n :: rest => render n ++ renderAll rest

end

mutual

/-- A node as XML with each element on a line of its own, two blanks deeper than the one it belongs
to. -/
def renderPretty (depth : Nat) : Node → String
  | n@⟨tag, text, _, _, _, children, _, _⟩ =>
    if n.isWritten then
      indentation depth ++ n.openTag
        ++ (if emptyTags.contains tag then ""
          else if children.isEmpty then escape text
          else "\n" ++ renderPrettyAll (depth + 1) children ++ indentation depth)
        ++ n.closeTag
    else ""

/-- Nodes as XML, each on lines of its own. -/
def renderPrettyAll (depth : Nat) : List Node → String
  | [] => ""
  | n :: rest =>
    (if n.isWritten then renderPretty depth n ++ "\n" else "") ++ renderPrettyAll depth rest

end

/-- A node as XML, on one line or on many. -/
def toXml (pretty : Bool) (n : Node) : String :=
  if pretty then n.renderPretty 0 else n.render

end TexFormula.Node
