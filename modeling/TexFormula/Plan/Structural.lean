import TexFormula.Command.Identifier
import TexFormula.Command.Structural
import TexFormula.Node.Letterform
import TexFormula.Plan.Sideset
import TexFormula.Table.Grid
import TexFormula.Text.Alphabetic

/-! Plans of the commands that build a node from a fixed number of arguments. -/
namespace TexFormula.Plan

open Command (Unary Binary Ternary)

variable {bound : Queue}

/-- The source text of an argument. -/
def argumentText (e : Expr) : String :=
  Text.trim (Token.spellingAll e.argument)

/-- An operator that stretches. -/
def stretchy (text : String) : Node :=
  (Node.leaf "mo" text).setAttribute "stretchy" "true"

/-- Whether a text is a single letter. -/
def isSingleLetter (text : String) : Bool :=
  match text.toList with
  | [c] => Text.isAlphabetic c
  | _ => false

/-- The negation of a single token. If there is no glyph for it, a stroke goes through the glyph of
the token. -/
def negated (t : Token) : Node :=
  let symbol := Symbol.named? t.value
  let text := match Command.negations.lookup t.value with
    | some glyph => glyph
    | none => (symbol.map (·.glyph)).getD t.value ++ "\u0338"
  let isLetter := symbol.any (·.cls == .letter) || isSingleLetter t.value
  .leaf (if isLetter then "mi" else "mo") text

/-- The negation of an argument. -/
def negation (c : Context) (e : Expr.Below bound) : Plan bound Node :=
  match e.val.argument.filter (!·.isBlank) with
  | [] => return .error "not" "\\not requires an argument"
  | [t] => return negated t
  | _ => readInto c ((Node.element "menclose").setAttribute "notation" Command.Strike.up.name) e

/-- The text that a function is named by: what the argument says without its commands. -/
def functionText (e : Expr) : String :=
  Text.trim (String.join ((e.argument.filter (!·.kind.command)).map (·.value)))

/-- A modulus. -/
def modulus (parenthesized : Bool) (argument : Node) : Node :=
  let space := fun width => (Node.element "mspace").setAttribute "width" width
  if parenthesized then
    .row [space "0.7em", .leaf "mo" "(", (Node.leaf "mo" "mod").setAttribute "lspace" "0", argument,
      .leaf "mo" ")"]
  else .row [space "0.5em", .leaf "mo" "mod", argument]

/-- The plan of a command with one argument. -/
def unary (command : Unary) (t : Token) (c : Context) (optional : Option (Expr.Below bound))
    (e : Expr.Below bound) : Plan bound Node :=
  match command with
  | .strike strike =>
    readInto c ((Node.element "menclose").setAttribute "notation" strike.name) e
  | .box text =>
    readInto { c with text := c.text || text }
      ((Node.element "menclose").setAttribute "notation" "box") e
  | .phantom => readInto c (.element "mphantom") e
  | .operator =>
    return ((Node.leaf "mo" (argumentText e.val)).setAttribute "rspace" "0").mark Command.limitMarks
  | .functionName =>
    let name := (Node.leaf "mi" (functionText e.val)).setAttribute "lspace" "0.11111em"
    return if t.kind.star then name.mark Command.limitMarks else name
  | .modulus parenthesized => modulus parenthesized <$> readArgument c e
  | .lines => do
    let content ← readInto { c with table := true } (.element "mrow") e
    return (Table.ofRow content).setAttributes [("rowspacing", "0"), ("displaystyle", "false")]
  | .brace above => do
    let content ← readArgument c e
    let tag := if above then "mover" else "munder"
    return (Node.branch tag [content, stretchy (if above then "⏞" else "⏟")]).mark
      { stackedLimits := true }
  | .negation => negation c e
  | .radical => do
    let radicand ← readArgument c e
    match optional with
    | some index => return .branch "mroot" [radicand, ← readArgument c index]
    | none => return .branch "msqrt" [radicand]
  | .text => return .leaf "mtext" (Token.spellingAll e.val.argument)
  | .textAlphabet variant => readArgument { c with text := true, variant } e
  | .arrow toRight => do
    let arrow := stretchy (if toRight then "→" else "←")
    let above ← readArgument c e
    match optional with
    | some label => return .branch "munderover" [arrow, ← readArgument c label, above]
    | none => return .branch "mover" [arrow, above]
  | .space => return .space t.value (argumentText e.val)

/-- The plan of a command with two arguments. -/
def binary (command : Binary) (c : Context) (first second : Expr.Below bound) : Plan bound Node :=
  match command with
  | .fraction fraction => do
    let upper ← readArgument c first
    let lower ← readArgument c second
    return fraction.node upper lower
  | .decoration name => do
    let content ← readArgument c second
    return content.setAttribute name (argumentText first.val)
  | .stack above => do
    let base ← readArgument c second
    let base := if base.tag == "mo" then base.setAttribute "stretchy" "true" else base
    let script ← readArgument c first
    return .row [.branch (if above then "mover" else "munder") [base, script]]
  | .raise =>
    readInto c ((Node.element "mpadded").setAttribute "voffset" (argumentText first.val)) second

/-- The plan of a command with three arguments. -/
def ternary (command : Ternary) (c : Context) (first second third : Expr.Below bound) :
    Plan bound Node :=
  match command with
  | .span name => do
    let content ← readArgument c third
    return content.setAttribute name (argumentText first.val)
  | .prescript => do
    let base ← readArgument c third
    let sub ← readArgument c second
    let sup ← readArgument c first
    return .branch "mmultiscripts"
      [base, .element "none", .element "none", .element "mprescripts", sub, sup]
  | .sideset => do
    let base ← readArgument c third
    let right ← readSide c second
    let left ← readSide c first
    return (Node.branch "mmultiscripts" (base :: right ++ .element "mprescripts" :: left)).mark
      { stackedLimits := true }

end TexFormula.Plan
