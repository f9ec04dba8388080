/-! What makes a formula source unreadable, and the message for each cause. Everything else that
goes wrong is shown inside the formula, some of it with one of these messages. -/
namespace TexFormula

/-- What a brace or environment delimiter delimits. -/
inductive Bracket where
  | curly
  | environment (name : String)
deriving DecidableEq, Repr

/-- How a message calls a bracket. -/
def Bracket.description : Bracket → String
  | .curly => "curly brace"
  | .environment name => "environment (" ++ name ++ ")"

/-- Why a macro call cannot be replaced. -/
inductive ExpansionFault where
  /-- The body refers to an argument by something that is not a number. -/
  | badReference (value : String)
  /-- Calls are left after as many rounds as are allowed. -/
  | endless
deriving DecidableEq, Repr

/-- The reason as a message gives it. -/
def ExpansionFault.reason : ExpansionFault → String
  | .badReference value => "bad argument reference #" ++ value
  | .endless => "macro expansion did not terminate"

/-- What is wrong with a definition inside a source. -/
inductive DefinitionFault where
  | noSingleName
  | noName
  | argumentCount
  | argumentOrder
  | noBody
deriving DecidableEq, Repr

/-- The fault as a message gives it. -/
def DefinitionFault.reason : DefinitionFault → String
  | .noSingleName => "expects an argument of exactly one \\command"
  | .noName => "expects a \\command to define"
  | .argumentCount => "unspecified argument count"
  | .argumentOrder => "parameters must be numbered in order"
  | .noBody => "missing definition body"

/-- A cause of failure. -/
inductive Error where
  /-- A bracket whose partner is missing or of another kind or name, with an excerpt of the source
  that points at the token at `position`. -/
  | mismatched (bracket : Bracket) (position : Nat) (excerpt : String)
  /-- A macro that expands to itself. -/
  | cyclicMacro (name : String)
  | failedExpansion (name : String) (fault : ExpansionFault)
  | argumentCount (command : String) (expected got : Nat)
  | badDefinition (command : String) (fault : DefinitionFault)
deriving DecidableEq, Repr

/-- The message for a cause of failure. -/
def Error.message : Error → String
  | .mismatched bracket position excerpt =>
    "mismatched " ++ bracket.description ++ " at position " ++ toString position ++ excerpt
  | .cyclicMacro name => "cyclic dependency in macro definition: \\" ++ name
  | .failedExpansion name fault => "could not expand macro \\" ++ name ++ ": " ++ fault.reason
  | .argumentCount command expected got =>
    "\\" ++ command ++ " expects " ++ toString expected ++ " argument(s), got " ++ toString got
  | .badDefinition command fault => "malformed \\" ++ command ++ ": " ++ fault.reason

end TexFormula
