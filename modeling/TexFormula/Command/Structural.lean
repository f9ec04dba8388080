import TexFormula.Command.Alphabet
import TexFormula.Node

/-! Commands that build a node from a fixed number of arguments, and the glyphs of accents and
negations. -/
namespace TexFormula.Command

/-- The lines that strike an argument out. -/
inductive Strike where
  | up
  | down
  | both
deriving DecidableEq, Repr

/-- The name of a strike in the output. -/
def Strike.name : Strike → String
  | up => "updiagonalstrike"
  | down => "downdiagonalstrike"
  | both => "updiagonalstrike downdiagonalstrike"

/-- Commands with one argument. -/
inductive Unary where
  | strike (strike : Strike)
  /-- A box around a formula, or around text. -/
  | box (text : Bool)
  | phantom
  /-- An operator of any text. -/
  | operator
  /-- The name of a function. -/
  | functionName
  /-- A modulus, with or without parentheses. -/
  | modulus (parenthesized : Bool)
  /-- Lines below each other. -/
  | lines
  /-- A brace above or below. -/
  | brace (above : Bool)
  | negation
  | radical
  | text
  | textAlphabet (variant : Variant)
  /-- An arrow to the right or to the left with a text above it. -/
  | arrow (toRight : Bool)
  | space
deriving DecidableEq, Repr

/-- Commands with two arguments. -/
inductive Binary where
  | fraction (fraction : Fraction)
  /-- The first argument is the value of an attribute of the second. -/
  | decoration (name : String)
  /-- The first argument stands above or below the second. -/
  | stack (above : Bool)
  | raise
deriving DecidableEq, Repr

/-- Commands with three arguments. -/
inductive Ternary where
  /-- The third argument spans rows or columns. -/
  | span (name : String)
  /-- The first two arguments are scripts before the third. -/
  | prescript
  /-- The first two arguments are scripts on both sides of the third. -/
  | sideset
deriving DecidableEq, Repr

/-- Commands that build a node from arguments. -/
inductive Structural where
  | unary (command : Unary)
  | binary (command : Binary)
  | ternary (command : Ternary)
deriving DecidableEq, Repr

/-- The number of arguments. -/
def Structural.arity : Structural → Nat
  | unary _ => 1
  | binary _ => 2
  | ternary _ => 3

/-- Whether an argument in square brackets may come before the others. -/
def Structural.takesOptional : Structural → Bool
  | unary .radical => true
  | unary (.arrow _) => true
  | _ => false

/-- The commands with one argument by name. -/
def unaryCommands : List (String × Unary) :=
  [("cancel", .strike .up), ("bcancel", .strike .down), ("xcancel", .strike .both),
   ("boxed", .box false), ("fbox", .box true), ("phantom", .phantom), ("mathop", .operator),
   ("operatorname", .functionName), ("bmod", .modulus false), ("pmod", .modulus true),
   ("substack", .lines), ("overbrace", .brace true), ("underbrace", .brace false),
   ("not", .negation), ("sqrt", .radical), ("text", .text), ("xrightarrow", .arrow true),
   ("xleftarrow", .arrow false), ("hspace", .space), ("mspace", .space)]
  ++ textAlphabets.map fun entry => (entry.1, .textAlphabet entry.2)

/-- The commands with two arguments by name. -/
def binaryCommands : List (String × Binary) :=
  [("frac", .fraction .plain), ("cfrac", .fraction .displayed), ("dfrac", .fraction .displayed),
   ("tfrac", .fraction .inlined), ("binom", .fraction .binomial),
   ("tbinom", .fraction .inlinedBinomial), ("textcolor", .decoration "mathcolor"),
   ("class", .decoration "class"), ("overset", .stack true), ("stackrel", .stack true),
   ("underset", .stack false), ("raisebox", .raise)]

/-- The commands with three arguments by name. -/
def ternaryCommands : List (String × Ternary) :=
  [("multirow", .span "rowspan"), ("multicolumn", .span "columnspan"), ("prescript", .prescript),
   ("sideset", .sideset)]

/-- The command of a name that builds a node from arguments. -/
def structural? (name : String) : Option Structural :=
  ((unaryCommands.lookup name).map .unary)
    <|> ((binaryCommands.lookup name).map .binary)
    <|> ((ternaryCommands.lookup name).map .ternary)

/-! ### Accents and negations -/

/-- The glyphs that stand above what they accent. -/
def accentsAbove : List (String × String) :=
  [("acute", "´"), ("bar", "¯"), ("breve", "˘"), ("u", "˘"), ("check", "ˇ"), ("dot", "˙"),
   ("ddot", "\u0308"), ("dddot", "\u20db"), ("ddddot", "\u20dc"), ("invbreve", "\u0311"),
   ("grave", "`"), ("hat", "^"), ("mathring", "˚"), ("overleftarrow", "←"), ("overline", "‾"),
   ("overrightarrow", "→"), ("tilde", "~"), ("vec", "\u20d7"), ("widehat", "^"),
   ("widetilde", "\u0360")]

/-- The glyphs that stand below what they accent. -/
def accentsBelow : List (String × String) :=
  [("underline", "\u0332")]

/-- The negated forms that are glyphs of their own. -/
def negations : List (String × String) :=
  [("<", "≮"), ("=", "≠"), (">", "≯"), ("Bumpeq", "≎\u0338"), ("Leftarrow", "⇍"),
   ("Rightarrow", "⇏"), ("VDash", "⊯"), ("Vdash", "⊮"), ("apid", "≋\u0338"), ("approx", "≉"),
   ("bumpeq", "≏\u0338"), ("cong", "≇"), ("doteq", "≐\u0338"), ("eqsim", "≂\u0338"),
   ("equiv", "≢"), ("exists", "∄"), ("geq", "≱"), ("geqslant", "⩾\u0338"), ("greaterless", "≹"),
   ("gt", "≯"), ("in", "∉"), ("leftarrow", "↚"), ("leftrightarrow", "↮"), ("leq", "≰"),
   ("leqslant", "⩽\u0338"), ("lessgreater", "≸"), ("lt", "≮"), ("mid", "∤"), ("ni", "∌"),
   ("otgreaterless", "≹"), ("otlessgreater", "≸"), ("parallel", "∦"), ("prec", "⊀"),
   ("preceq", "⪯\u0338"), ("precsim", "≾\u0338"), ("rightarrow", "↛"), ("sim", "≁"),
   ("sime", "≄"), ("simeq", "≄"), ("sqsubseteq", "⋢"), ("sqsupseteq", "⋣"), ("subset", "⊄"),
   ("subseteq", "⊈"), ("subseteqq", "⫅\u0338"), ("succ", "⊁"), ("succeq", "⪰\u0338"),
   ("succsim", "≿\u0338"), ("supset", "⊅"), ("supseteq", "⊉"), ("supseteqq", "⫆\u0338"),
   ("triangleleft", "⋪"), ("trianglelefteq", "⋬"), ("triangleright", "⋫"),
   ("trianglerighteq", "⋭"), ("vDash", "⊭"), ("vdash", "⊬")]

end TexFormula.Command
