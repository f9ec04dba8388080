import TexFormula.Registry
import TexFormula.Token

/-! Macros. A macro is declared before any formula is read, or defined inside a formula. Declared
macros are replaced in the tokens of a formula before it is parsed; a macro defined inside a formula
is replaced when the parser meets its call. -/
namespace TexFormula

/-- A macro: the tokens its call stands for, with placeholders for the arguments. -/
structure Macro where
  body : List Token := []
  /-- What the first argument is if the call gives none in square brackets. A macro without it takes
  every argument as it comes. -/
  optional : Option (List Token) := none
  arity : Nat := 0
  /-- Whether the macro was defined inside a formula. -/
  inFormula : Bool := false
deriving DecidableEq, Repr, Inhabited

namespace Macro

/-- The macros by name, without the backslash. -/
abbrev Table := Registry Macro

/-- The stand-in for a macro that depends on itself. -/
def cyclic (name : String) : Macro :=
  { body := [{ kind := { cyclic := true }, value := name }] }

/-- Whether a call of the macro stands for nothing but a mark that some macro depends on itself. -/
def isCyclic (m : Macro) : Bool :=
  match m.body with
  | [t] => t.kind.cyclic
  | _ => false

/-- The declared macro that a token calls. -/
def Table.callee? (table : Table) (t : Token) : Option Macro :=
  if t.isCommand then (table.get? t.value).filter (!·.inFormula) else none

theorem Table.callee?_eq_some {table : Table} {t : Token} {m : Macro} :
    table.callee? t = some m ↔
      t.isCommand = true ∧ table.get? t.value = some m ∧ m.inFormula = false := by
  unfold Table.callee?
  split <;> simp_all [Option.filter_eq_some_iff]

end Macro

end TexFormula
