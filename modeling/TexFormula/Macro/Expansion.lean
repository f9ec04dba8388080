import TexFormula.Macro.Call
import TexFormula.Token.Stream

/-! Expansion of declared macros. All calls in a token list are replaced in one round, and the
result is made ready for parsing again, for a body can end a delimiter that stands before the call.
Rounds follow each other until one finds no call. -/
namespace TexFormula.Macro

/-- The largest number of rounds, and the largest number of calls inside each other while a formula
is parsed. -/
def maxDepth : Nat := 64

/-- The tokens with every call of a declared macro replaced once, and whether there was one. The
arguments of a call are not searched for calls in the same round. -/
def expandRound (table : Table) : List Token → Except Error (List Token × Bool)
  | [] => .ok ([], false)
  | t :: rest =>
    match table.callee? t with
    | none => do
      let others ← expandRound table rest
      return (t.unpaired :: others.1, others.2)
    | some m => do
      let taken := m.collectArguments t.value (Queue.ofTokens rest)
      let arguments ← taken.1
      let expanded ← m.expandCall t.value arguments
      let others ← expandRound table (rest.drop (rest.length - taken.2.weight))
      return (expanded ++ others.1, true)
termination_by tokens => tokens.length
decreasing_by all_goals simp only [List.length_cons, List.length_drop]; omega

/-- The name of the first command that is a macro. -/
def firstCall (table : Table) (tokens : List Token) : String :=
  ((tokens.find? fun t => t.kind.command && table.contains t.value).map (·.value)).getD ""

/-- The tokens after at most `n` rounds of expansion. -/
def expandRounds (table : Table) : Nat → List Token → Except Error (List Token)
  | 0, tokens => .error (.failedExpansion (firstCall table tokens) .endless)
  | n + 1, tokens => do
    let round ← expandRound table tokens
    if round.2 then
      let prepared ← Token.prepare round.1
      expandRounds table n prepared
    else return tokens

/-- The tokens with every call of a declared macro replaced, until none is left. Without declared
macros nothing is done. -/
def expand (table : Table) (tokens : List Token) : Except Error (List Token) :=
  if table.entries.all (·.2.inFormula) then .ok tokens else expandRounds table maxDepth tokens

end TexFormula.Macro
