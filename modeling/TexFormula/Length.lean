import TexFormula.Decimal
import TexFormula.Text.CharSet
import TexFormula.Text.Trim

/-! Lengths. A formula source writes a length as a decimal number and a unit; in the output it is a
length of the style language, where the math unit, an eighteenth of an em, does not exist and
becomes a number of em with at most five decimals. -/
namespace TexFormula.Length

/-- The units a source may write. -/
def units : List (List Char) :=
  [['e', 'm'], ['e', 'x'], ['p', 't'], ['m', 'u'], ['p', 'x'], ['c', 'm'], ['m', 'm'], ['i', 'n']]

/-- A decimal number as written: sign, digits before the point, and digits after it if there is a
point. -/
structure Numeral where
  sign : List Char
  whole : List Char
  fraction : Option (List Char)
deriving DecidableEq, Repr

/-- The numeral as written. -/
def Numeral.spelling (n : Numeral) : List Char :=
  n.sign ++ n.whole ++ match n.fraction with
    | some digits => '.' :: digits
    | none => []

/-- The sign a text starts with, and the rest. -/
def takeSign : List Char → List Char × List Char
  | '+' :: rest => (['+'], rest)
  | '-' :: rest => (['-'], rest)
  | cs => ([], cs)

/-- The decimal number a text starts with, and the rest. Digits may be missing before the point but
not at the end of the number. -/
def takeNumeral (cs : List Char) : Option (Numeral × List Char) :=
  let signed := takeSign cs
  let whole := signed.2.takeWhile Text.isDecimalDigit
  match signed.2.dropWhile Text.isDecimalDigit with
  | '.' :: rest =>
    let fraction := rest.takeWhile Text.isDecimalDigit
    if fraction = [] then none
    else some (⟨signed.1, whole, some fraction⟩, rest.dropWhile Text.isDecimalDigit)
  | rest => if whole = [] then none else some (⟨signed.1, whole, none⟩, rest)

/-- The number and the unit of a text that is a length and nothing else. Blanks may stand around it
and before its unit. -/
def split? (text : String) : Option (Numeral × List Char) :=
  match takeNumeral (Text.trim text).toList with
  | none => none
  | some (n, rest) =>
    let unit := rest.dropWhile Text.isBlank
    if unit ∈ units then some (n, unit) else none

/-- A decimal without the zeros at its end, and without the point if nothing follows it. -/
def trimZeros (cs : List Char) : List Char :=
  Text.dropTrailing (· == '.') (Text.dropTrailing (· == '0') cs)

/-- The value of a numeral in the digits 0 to 9, without its sign, as numerator and denominator. -/
def Numeral.value? (n : Numeral) : Option (Nat × Nat) :=
  let fraction := n.fraction.getD []
  let digits := n.whole ++ fraction
  if digits.all Char.isDigit then some (Decimal.ofDigits digits, Nat.pow 10 fraction.length)
  else none

/-- An eighteenth of a quotient in em. The number and its eighteenth are binary numbers, so each is
rounded before the decimals are. -/
def eighteenthOf (num den : Nat) : List Char :=
  match Decimal.Binary64.nearest num den with
  | none => ['i', 'n', 'f']
  | some (n, d) =>
    match Decimal.Binary64.nearest n (18 * d) with
    | none => ['i', 'n', 'f']
    | some (n, d) => trimZeros (Decimal.fixed 5 n d)

/-- The output form of a length, if the text is one. -/
def parse? (text : String) : Option String :=
  match split? text with
  | none => none
  | some (n, unit) =>
    if unit = ['m', 'u'] then
      n.value?.map fun v =>
        let minus := if n.sign = ['-'] then ['-'] else []
        String.ofList (minus ++ eighteenthOf v.1 v.2 ++ ['e', 'm'])
    else some (String.ofList (n.spelling ++ unit))

/-- A width of `n` eighteenths of an em. -/
def ofEighteenths (n : Int) : String :=
  let minus := if n < 0 then ['-'] else []
  String.ofList (minus ++ trimZeros (Decimal.fixed 5 n.natAbs 18) ++ ['e', 'm'])

/-- A width of `n` halves of an em, always with one decimal. The number of halves is a binary
number and rounded as such. -/
def ofHalves (n : Int) : String :=
  let minus := if n < 0 then ['-'] else []
  let number := match Decimal.Binary64.nearest n.natAbs 1 with
    | none => ['i', 'n', 'f']
    | some (num, den) => Decimal.fixed 1 num (2 * den)
  String.ofList (minus ++ number ++ ['e', 'm'])

end TexFormula.Length
