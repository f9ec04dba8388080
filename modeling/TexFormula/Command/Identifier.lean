import TexFormula.Node
import TexFormula.Node.Marks

/-! Commands for names that are set upright, such as those of functions, and commands that always
stand for the same nodes. -/
namespace TexFormula.Command

/-- The marks of an operator with movable limits above and below. -/
def limitMarks : Marks :=
  { movableLimits := true, stackedLimits := true }

/-- The names of functions. -/
def functions : List String :=
  ["arccos", "arcsin", "arctan", "cos", "cosh", "cot", "coth", "csc", "deg", "dim", "exp", "hom",
   "ker", "ln", "lg", "log", "sec", "sin", "sinh", "tan", "tanh"]

/-- The names of operators that take limits. -/
def limitFunctions : List String :=
  ["det", "gcd", "inf", "lim", "max", "min", "Pr", "sup"]

/-- The marks of an identifier by its name. The two limit switches are identifiers that are never
written. -/
def identifierMarks? (name : String) : Option Marks :=
  if functions.contains name then some {}
  else if limitFunctions.contains name then some limitMarks
  else match name with
    | "limits" => some { limits := true, hidden := true }
    | "nolimits" => some { noLimits := true, hidden := true }
    | _ => none

/-! ### Logos and limits -/

/-- A letter of a logo that stands above or below the line. -/
def shiftedLetter (text offset padding : String) : Node :=
  let size := ((Node.branch "mstyle" [.leaf "mtext" text]).setAttributes
    [("scriptlevel", "0"), ("displaystyle", "false")])
  (Node.branch "mpadded" [size]).setAttributes [("voffset", offset), ("style", padding)]

/-- A space that draws the letters of a logo together. -/
def tighten (width : String) : Node :=
  (Node.element "mspace").setAttributes
    [("width", width), ("style", "margin-left:" ++ width ++ ";")]

/-- The letters that both logos end with. -/
def logoTail : List Node :=
  [.leaf "mtext" "T", tighten "-0.1667em", shiftedLetter "E" "-0.2155em" "padding:0 0 0.2155em 0;",
   tighten "-0.125em", .leaf "mtext" "X"]

/-- The letters that the longer logo starts with. -/
def logoHead : List Node :=
  [.leaf "mtext" "L", (Node.element "mspace").setAttribute "style" "margin-left:-0.35em;",
   shiftedLetter "A" "0.2em" "padding:0.2em 0 0 0;", tighten "-0.15em"]

/-- The logo of a name. -/
def logo? (name : String) : Option Node :=
  match name with
  | "LaTeX" => some (.row (logoHead ++ logoTail))
  | "TeX" => some (.row logoTail)
  | _ => none

/-- The word for a limit with an arrow below it. -/
def arrowLimit (arrow : String) : Node :=
  let below := (Node.leaf "mo" arrow).setAttribute "stretchy" "true"
  (Node.branch "munder" [.leaf "mo" "lim", below]).mark limitMarks

/-- The word for a limit with a line on one side. -/
def linedLimit (padding side : String) : Node :=
  let word := ((Node.leaf "mo" "lim").setCss "padding" padding).setCss side "0.065em solid"
  (Node.branch "mpadded" [word]).mark limitMarks

/-- The limit operators that are built from several parts. -/
def builtLimit? (name : String) : Option Node :=
  match name with
  | "varinjlim" => some (arrowLimit "→")
  | "varprojlim" => some (arrowLimit "←")
  | "varliminf" => some (linedLimit "0 0 0.1em 0" "border-bottom")
  | "varlimsup" => some (linedLimit "0.1em 0 0 0" "border-top")
  | _ => none

end TexFormula.Command
