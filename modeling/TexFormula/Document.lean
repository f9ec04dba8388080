import TexFormula.Formula
import TexFormula.Macro.Declaration
import TexFormula.Style

/-! Documents. The formulas of a document are rendered one after the other and share its macros:
what one formula defines is known in the formulas after it. A formula that cannot be read leaves the
document as it was. -/
namespace TexFormula

/-- The state of a document between two formulas. -/
structure Document where
  /-- The bodies of the declared macros as they were given, by name. -/
  sources : Registry String := .empty
  /-- The declared macros and those that formulas have defined. -/
  macros : Macro.Table := .empty
  options : Options := {}
  /-- The number of equations that have a number. -/
  equations : Nat := 0

namespace Document

/-- The sources with further declarations, in which names can have backslashes before them. -/
def declareSources (sources : Registry String) (declarations : List (String × String)) :
    Registry String :=
  sources.insertAll (declarations.map fun (name, body) => (Macro.plainName name, body))

/-- A document with declared macros, each given by name and body. -/
def ofMacros (declarations : List (String × String)) (options : Options) : Document :=
  let sources := declareSources .empty declarations
  { sources, macros := Macro.declareAll sources.entries, options }

/-- The declarations that a text in the JSON format gives: an object of texts. They come in the
order of their names. -/
def declarationsOfJson? (source : String) : Option (List (String × String)) := do
  let entries ← (← Json.parse? source).entries?
  let declarations ← entries.mapM fun (name, body) => body.text?.map (name, ·)
  return (Dictionary.ofList declarations).entries

/-- A document with the macros that a text in the JSON format declares. -/
def ofJson? (source : String) (options : Options) : Option Document :=
  (declarationsOfJson? source).map (ofMacros · options)

/-- A table with those macros of another one that formulas have defined and whose names are free. -/
def keepDefined (table old : Macro.Table) : Macro.Table :=
  table.insertAll
    (old.entries.filter fun (name, m) => m.inFormula && !table.contains name)

/-- The document with further declared macros. All declared bodies are read again, for a macro can
call one that is declared after it. -/
def addMacros (d : Document) (declarations : List (String × String)) : Document :=
  let sources := declareSources d.sources declarations
  { d with sources, macros := keepDefined (Macro.declareAll sources.entries) d.macros }

/-- The row for what was read. -/
def body (node : Option Node) : Node :=
  match node with
  | none => .row []
  | some n => if n.tag == "mrow" || n.tag == "mtd" then n else (Node.row [n]).arrange

/-- The tree of a formula, and the document with the macros that it defines. -/
def read (d : Document) (source : String) (style : Style) : Except Error (Node × Document) := do
  let tokens ← Token.tokenize source
  let expanded ← Macro.expand d.macros tokens
  let (node, scope) := Formula.read d.options style.context expanded { macros := d.macros }
  return (body node, { d with macros := scope.macros })

end Document

end TexFormula
