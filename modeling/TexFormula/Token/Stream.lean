import TexFormula.Text.Trim
import TexFormula.Token
import TexFormula.Token.Lexer
import TexFormula.Token.Pairing
import TexFormula.Token.Sizing

/-! Token lists that are ready to be parsed: sizing commands are in the delimiters they belong to,
environments are delimited by one token on each side, and every delimiter knows its partner. -/
namespace TexFormula.Token

/-! ### Excerpts

For error messages: the tokens around an offending one, and below them a line of carets that stand
under it. -/

/-- How many tokens an excerpt shows before the offending token. It shows one less after it. -/
def excerptReach : Nat := 16

/-- The excerpt around the token at a position. There is none where the position lies outside the
list. -/
def excerpt (tokens : List Token) (position : Nat) : String :=
  match tokens[position]? with
  | none => ""
  | some offender =>
    let start := position - excerptReach
    let before := spellingAll ((tokens.take position).drop start)
    let window := spellingAll ((tokens.take (position + excerptReach)).drop start)
    let carets := max 1 offender.spelling.length
    "\n" ++ window ++ "\n" ++ "".pushn ' ' before.length ++ "".pushn '^' carets ++ "HERE\n"

/-! ### Environments

The begin and the end of an environment as one token each. In the source they are a command and
a name in curly braces, and a star at the end of the name is a mark of the token. -/

/-- Whether a token is one of the commands that begin or end an environment. -/
def delimitsEnvironment (t : Token) : Bool :=
  t.isNamed "begin" || t.isNamed "end"

/-- The delimiter of the environment whose name is spelled by the given characters. -/
def environmentDelimiter (opens : Bool) (name : List Char) : Token :=
  let star := name.getLast? == some '*'
  let plain := if star then name.dropLast else name
  { kind := { env := true, opens, closes := !opens, star }
    value := Text.trim (String.ofList plain) }

/-- The tokens with every begin and end of an environment collapsed. The curly braces in the list
are paired, so the offset of the brace before a name is the length of the name and one more. The
result has no pairs. -/
def collapseEnvironments : List Token → List Token
  | [] => []
  | t :: rest =>
    if t.delimitsEnvironment then
      match _h : rest.dropWhile isBlank with
      | [] => t.unpaired :: collapseEnvironments rest
      | brace :: after =>
        if brace.kind.curly && brace.kind.opens then
          let length := brace.offset.toNat
          let name := (spellingAll (after.take (length - 1))).toList
          environmentDelimiter (t.value == "begin") name :: collapseEnvironments (after.drop length)
        else t.unpaired :: collapseEnvironments rest
    else t.unpaired :: collapseEnvironments rest
termination_by tokens => tokens.length
decreasing_by
  · simp
  · have dropped := (List.dropWhile_suffix (l := rest) isBlank).length_le
    simp_all only [List.length_cons, List.length_drop]
    omega
  · simp
  · simp

/-! ### Preparing -/

/-- The error for a fault in pairing, with an excerpt from the list in which it was found. -/
def mismatch (tokens : List Token) (fault : Bracket × Nat) : Error :=
  .mismatched fault.1 fault.2 (excerpt tokens fault.2)

/-- The tokens with one family of delimiters paired. -/
def pairStrictly (f : Pairing.Family) (tokens : List Token) : Except Error (List Token) :=
  match Pairing.strictLinks f 0 [] tokens with
  | .ok links => .ok (Pairing.link tokens links)
  | .error fault => .error (mismatch tokens fault)

/-- Refuses tokens whose braces and environments are paired but cross. -/
def checkNesting (tokens : List Token) : Except Error Unit :=
  match Pairing.crossing? 0 [] tokens with
  | none => .ok ()
  | some fault => .error (mismatch tokens fault)

/-- The tokens with the delimiters paired that have no partner yet. -/
def pairLoosely (tokens : List Token) : List Token :=
  Pairing.link tokens (Pairing.looseLinks 0 [] tokens)

/-- Makes a token list ready to be parsed. Curly braces are paired twice, since the names of
environments are found by their braces, and positions change when these go away. -/
def prepare (tokens : List Token) : Except Error (List Token) := do
  let braced ← pairStrictly .curly ((absorbSizing tokens).map unpaired)
  let collapsed ← pairStrictly .environment (collapseEnvironments braced)
  let nested ← pairStrictly .curly collapsed
  checkNesting nested
  return pairLoosely nested

/-- The tokens of a source, ready to be parsed. -/
def tokenize (source : String) : Except Error (List Token) :=
  prepare (lex source)

end TexFormula.Token
