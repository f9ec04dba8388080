import TexFormula.Context
import TexFormula.Json

/-! The style of a whole formula: how large it is and whether it stands on its own. -/
namespace TexFormula

/-- The style of a formula. -/
inductive Style where
  | display
  | inlined
  | script
  | scriptScript
deriving DecidableEq, Repr, Inhabited

namespace Style

/-- All styles. -/
def all : List Style := [.display, .inlined, .script, .scriptScript]

/-- The name of a style. -/
def name : Style → String
  | display => "display"
  | inlined => "inline"
  | script => "script"
  | scriptScript => "scriptscript"

/-- The style of a name. -/
def named? (name : String) : Option Style :=
  all.find? (·.name == name)

/-- Whether formulas of a style stand on lines of their own. -/
def isDisplay (s : Style) : Bool :=
  s == .display

/-- The context that a formula of a style is read in. -/
def context (s : Style) : Context :=
  { root := true
    styles := match s with
      | display => { display := true }
      | inlined => { inlined := true }
      | script => { script := true }
      | scriptScript => { scriptScript := true } }

/-- The attributes that depend on the style. -/
def ownAttributes : Style → List (String × String)
  | display => [("display", "block"), ("class", "math-displaystyle"), ("displaystyle", "true")]
  | inlined => [("display", "inline"), ("class", "math-textstyle")]
  | script => [("display", "inline"), ("class", "math-textstyle"), ("scriptlevel", "1")]
  | scriptScript => [("display", "inline"), ("class", "math-textstyle"), ("scriptlevel", "2")]

/-- The attributes of the element around a formula. -/
def attributes (s : Style) : List (String × String) :=
  ("xmlns", "http://www.w3.org/1998/Math/MathML")
    :: ("style", "font-feature-settings: 'dtls' off;") :: s.ownAttributes

/-- The style that a text in the JSON format gives: its name, or an object with its name as the only
name and nothing under it. -/
def ofJson? (source : String) : Option Style :=
  match Json.parse? source with
  | some (.text units) => (Json.decode? units).bind named?
  | some (.object [(name, .null)]) => (Json.decode? name).bind named?
  | _ => none

end Style

end TexFormula
