import TexFormula.Text.Alphabetic
import TexFormula.Text.CharSet
import TexFormula.Text.Trim
import TexFormula.Token

/-! Reading tokens off a source. A token ends before the first character that does not belong to it,
and what follows it is read on its own. Every token takes at least one character, so reading ends.
-/
namespace TexFormula.Token

/-- The left brackets. -/
def leftBrackets : List Char := ['(', '[', '\x7b']

/-- The right brackets. -/
def rightBrackets : List Char := [')', ']', '\x7d']

/-- The characters that stand for themselves only behind a backslash. The backslash is one too, but
two backslashes are a command. -/
def reservedChars : List Char := ['#', '$', '%', '^', '&', '_', '\x7b', '\x7d', '~']

/-- A token of one character. -/
def single (kind : TokenKind) (c : Char) : Token :=
  { kind, value := String.singleton c }

/-- The command whose name starts with the letter `c`, and the rest. The name takes all letters that
follow, and a star after them belongs to the command. -/
def nextCommand (c : Char) (cs : List Char) : Token × List Char :=
  let name := String.ofList (c :: cs.takeWhile Text.isAlphabetic)
  match cs.dropWhile Text.isAlphabetic with
  | '*' :: rest => ({ kind := { command := true, star := true }, value := name }, rest)
  | rest => ({ kind := { command := true }, value := name }, rest)

/-- The token that starts with a backslash, read off what follows the backslash, and the rest. -/
def nextEscaped : List Char → Token × List Char
  | [] => (single { char := true } '\\', [])
  | c :: cs =>
    if c == '|' then (single { fence := true, escaped := true } c, cs)
    else if leftBrackets.contains c then
      (single { opens := true, escaped := true, fence := true } c, cs)
    else if rightBrackets.contains c then
      (single { closes := true, escaped := true, fence := true } c, cs)
    else if c == '\\' then (single { command := true } c, cs)
    else if reservedChars.contains c then (single { char := true, escaped := true } c, cs)
    else if Text.isBlank c then
      ({ kind := { whitespace := true, command := true }, value := " " }, cs)
    else if Text.isAlphabetic c then nextCommand c cs
    else (single { command := true } c, cs)

/-- The token that starts with a number sign, read off what follows the sign, and the rest. -/
def nextPlaceholder : List Char → Token × List Char
  | [] => (single { reserved := true } '#', [])
  | c :: cs =>
    if c.isDigit then (single { argument := true } c, cs)
    else (single { reserved := true } '#', c :: cs)

/-- The characters that carry on a number. -/
def isNumberPart (c : Char) : Bool :=
  Text.isNumeric c || c == '.'

/-- The token whose first character is `c`, and the rest of the source. -/
def nextFrom (c : Char) (cs : List Char) : Token × List Char :=
  if Text.isAlphabetic c then (single { letter := true } c, cs)
  else if Text.isNumeric c then
    ({ kind := { number := true }, value := String.ofList (c :: cs.takeWhile isNumberPart) },
      cs.dropWhile isNumberPart)
  else if c == '\\' then nextEscaped cs
  else if c == '\x7b' then (single { curly := true, opens := true } c, cs)
  else if c == '\x7d' then (single { curly := true, closes := true } c, cs)
  else if leftBrackets.contains c then (single { opens := true } c, cs)
  else if rightBrackets.contains c then (single { closes := true } c, cs)
  else if c == '^' || c == '_' then (single { script := true } c, cs)
  else if c == '%' then
    ({ kind := { comment := true }, value := String.ofList (cs.takeWhile (· != '\n')) },
      cs.dropWhile (· != '\n'))
  else if c == '#' then nextPlaceholder cs
  else if reservedChars.contains c then (single { reserved := true } c, cs)
  else if Text.isBlank c then
    ({ kind := { whitespace := true }, value := " " }, cs.dropWhile Text.isBlank)
  else if c == '|' then (single { fence := true } c, cs)
  else (single { char := true } c, cs)

/-- A property of both branches is one of the choice between them. -/
theorem length_ite_le {p : Prop} [Decidable p] {yes no : Token × List Char} {n : Nat}
    (left : yes.2.length ≤ n) (right : no.2.length ≤ n) :
    (if p then yes else no).2.length ≤ n := by
  split <;> assumption

theorem nextCommand_length (c : Char) (cs : List Char) :
    (nextCommand c cs).2.length ≤ cs.length := by
  have dropped := (List.dropWhile_suffix (l := cs) Text.isAlphabetic).length_le
  unfold nextCommand
  split
  case h_1 rest starred =>
    rw [starred, List.length_cons] at dropped
    exact Nat.le_of_succ_le dropped
  case h_2 => exact dropped

theorem nextEscaped_length (cs : List Char) : (nextEscaped cs).2.length ≤ cs.length := by
  cases cs with
  | nil => simp [nextEscaped]
  | cons c cs =>
    have named := nextCommand_length c cs
    unfold nextEscaped
    dsimp only [List.length_cons]
    repeat' refine length_ite_le ?_ ?_
    all_goals first
      | exact Nat.le_succ _
      | exact Nat.le_succ_of_le named

theorem nextPlaceholder_length (cs : List Char) : (nextPlaceholder cs).2.length ≤ cs.length := by
  cases cs with
  | nil => simp [nextPlaceholder]
  | cons c cs => simp only [nextPlaceholder]; split <;> simp

/-- Reading a token leaves no more than what follows its first character. -/
theorem nextFrom_length (c : Char) (cs : List Char) : (nextFrom c cs).2.length ≤ cs.length := by
  unfold nextFrom
  repeat' refine length_ite_le ?_ ?_
  all_goals first
    | exact Nat.le_refl _
    | exact nextEscaped_length cs
    | exact nextPlaceholder_length cs
    | exact (List.dropWhile_suffix _).length_le

/-- The tokens of a source, one after the other. -/
def lexChars : List Char → List Token
  | [] => []
  | c :: cs => (nextFrom c cs).1 :: lexChars (nextFrom c cs).2
termination_by cs => cs.length
decreasing_by
  have := nextFrom_length c cs
  simp only [List.length_cons]
  omega

/-- The tokens of a source text. None of them has a partner yet. -/
def lex (source : String) : List Token :=
  lexChars source.toList

end TexFormula.Token
