import TexFormula.Context

/-! Commands that change the form of letters: alphabets, which act on an argument, and switches,
which act on everything up to the end of the cell. -/
namespace TexFormula

namespace Command

/-- The mathematical alphabets. -/
def mathAlphabets : List (String × Variant) :=
  [("mathbb", { doubleStruck := true }),
   ("mathbf", { bold := true }),
   ("boldsymbol", { bold := true }),
   ("mathbfit", { bold := true, italic := true }),
   ("mathcal", { chancery := true }),
   ("mathfrak", { fraktur := true }),
   ("mathit", { italic := true }),
   ("mathrm", { normal := true }),
   ("mathscr", { roundhand := true }),
   ("mathsf", { sans := true }),
   ("mathsfbf", { sans := true, bold := true }),
   ("mathsfbfsl", { sans := true, bold := true, italic := true }),
   ("mathsfsl", { sans := true, italic := true }),
   ("mathtt", { monospace := true })]

/-- The alphabets for text. -/
def textAlphabets : List (String × Variant) :=
  [("mbox", {}),
   ("textrm", { normal := true }),
   ("textbf", { bold := true }),
   ("textit", { italic := true }),
   ("textsf", { sans := true }),
   ("texttt", { monospace := true })]

end Command

/-- A switch: the parts of the context that it changes, and the attributes of the element around
what it acts on. -/
structure Switch where
  context : Context := {}
  attributes : List (String × String) := []
  /-- An argument that names a color comes first. -/
  takesColor : Bool := false
deriving DecidableEq, Repr

namespace Switch

/-- The switch to a variant. -/
def ofVariant (variant : Variant) : Switch :=
  { context := { variant } }

/-- The switch to a style, which is set at a level of script sizes. -/
def ofStyle (styles : StyleMarks) (displaystyle level : String) : Switch :=
  { context := { styles }
    attributes := [("displaystyle", displaystyle), ("scriptlevel", level)] }

/-- The switch to a size. -/
def ofSize (size : Nat) (percentage : String) : Switch :=
  { context := .ofSize size, attributes := [("mathsize", percentage)] }

/-- The switches by name. -/
def all : List (String × Switch) :=
  [("color", { takesColor := true }),
   ("bf", ofVariant { bold := true }),
   ("em", ofVariant { italic := true }),
   ("rm", { ofVariant { normal := true } with attributes := [("mathvariant", "normal")] }),
   ("displaystyle", ofStyle { display := true } "true" "0"),
   ("textstyle", ofStyle { inlined := true } "false" "0"),
   ("scriptstyle", ofStyle { script := true } "false" "1"),
   ("scriptscriptstyle", ofStyle { scriptScript := true } "false" "2"),
   ("tiny", ofSize 1 "050.0%"),
   ("scriptsize", ofSize 2 "070.0%"),
   ("footnotesize", ofSize 3 "080.0%"),
   ("small", ofSize 4 "090.0%"),
   ("normalsize", ofSize 5 "100.0%"),
   ("large", ofSize 6 "120.0%"),
   ("Large", ofSize 7 "144.0%"),
   ("LARGE", ofSize 8 "172.8%"),
   ("huge", ofSize 9 "207.4%"),
   ("Huge", ofSize 10 "248.8%")]

/-- The switch of a name. -/
def named? (name : String) : Option Switch :=
  all.lookup name

end Switch

end TexFormula
