import TexFormula.Macro.Dependency
import TexFormula.Macro.Expansion
import TexFormula.Text.Trim

/-! Tables of declared macros. Every body is read once. A macro that depends on itself is replaced
by a stand-in, and in all other bodies the calls of declared macros are expanded beforehand, so that
a call in a formula is replaced in one round. -/
namespace TexFormula.Macro

/-- The number that a placeholder carries. -/
def placeholder? (t : Token) : Option Nat :=
  if t.kind.argument then Decimal.readCount? t.value else none

/-- The number of arguments of a body, which is the largest number of a placeholder in it. -/
def countArguments (body : List Token) : Nat :=
  (body.filterMap placeholder?).foldl max 0

/-- The name of a macro without the backslashes before it. -/
def plainName (name : String) : String :=
  Text.trimLeading '\\' name

/-- The table with a declared macro in it. A body that cannot be read declares nothing. -/
def declare (table : Table) (name source : String) : Table :=
  match Token.tokenize source with
  | .ok body => table.insert (plainName name) { body, arity := countArguments body }
  | .error _ => table

/-- The table with the stand-in in place of each macro that depends on itself. -/
def markCyclic (table : Table) : Table :=
  let cyclicNames := table.cyclicNames
  table.mapValues fun name m => if cyclicNames.contains name then cyclic name else m

/-- The table with the calls in one body expanded, if they can be. -/
def flatten (table : Table) (name : String) : Table :=
  match table.get? name with
  | none => table
  | some m =>
    match expand table m.body with
    | .ok body => table.insert name { m with body }
    | .error _ => table

/-- The table with the calls expanded in the body of each macro that does not depend on itself. A
macro comes after those it depends on, so that their bodies are already expanded. -/
def flattenAll (table : Table) : Table :=
  table.flattenOrder.foldl flatten (markCyclic table)

/-- The table of macros, each given by name and body, with the bodies as they are read. The last
body of a name is the one that counts. -/
def readAll (sources : List (String × String)) : Table :=
  sources.foldl (fun table source => declare table source.1 source.2) .empty

/-- The table of declared macros, ready for use. -/
def declareAll (sources : List (String × String)) : Table :=
  flattenAll (readAll sources)

end TexFormula.Macro
