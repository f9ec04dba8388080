import TexFormula.Command.Identifier
import TexFormula.Command.Space
import TexFormula.Command.Structural
import TexFormula.Macro.Definition
import TexFormula.Symbol.Table

/-! Commands by name. A name that several tables have means what the first of them says. -/
namespace TexFormula

/-- What a command means. -/
inductive Command where
  /-- It defines a macro. -/
  | definition (command : Definition.Command)
  | logo (node : Node)
  /-- It is a name, with the marks of its node. -/
  | identifier (marks : Marks)
  | symbol (symbol : Symbol)
  /-- It is an operator with a layout of its own. -/
  | built (node : Node)
  | alphabet (variant : Variant)
  /-- It is a space, with its width in eighteenths of an em, or a line break. -/
  | space (width : Int)
  | switch (switch : Switch)
  | structural (command : Command.Structural)
  /-- It is a space with the length written behind it. -/
  | kern
  /-- It puts a glyph above or below its argument. -/
  | accent (above : Bool) (glyph : String)
  | unknown

namespace Command

/-- The commands whose meaning a macro of the same name cannot hide. -/
def fixed? (name : String) : Option Command :=
  ((Definition.Command.named? name).map definition) <|> ((logo? name).map logo)

/-- Whether a command of a name is a space with the length behind it. -/
def kern? (name : String) : Option Command :=
  if name = "kern" ∨ name = "mkern" then some kern else none

/-- The meaning of a command that no macro hides. -/
def named (name : String) : Command :=
  (((identifierMarks? name).map identifier)
    <|> ((Symbol.named? name).map symbol)
    <|> ((builtLimit? name).map built)
    <|> ((mathAlphabets.lookup name).map alphabet)
    <|> ((spaces.lookup name).map space)
    <|> ((Switch.named? name).map switch)
    <|> ((structural? name).map structural)
    <|> kern? name
    <|> ((accentsAbove.lookup name).map (accent true))
    <|> ((accentsBelow.lookup name).map (accent false))).getD unknown

end Command

end TexFormula
