import TexFormula.Text.CharSet

/-! Blanks, the characters with the Unicode property White_Space: taking them and other characters
off the ends of a text, and cutting a text at them. -/
namespace TexFormula.Text

/-- Every code point with the property White_Space. -/
def blankRanges : CharSet :=
  [(0x9, 0xD), (0x20, 0x20), (0x85, 0x85), (0xA0, 0xA0), (0x1680, 0x1680), (0x2000, 0x200A),
   (0x2028, 0x2029), (0x202F, 0x202F), (0x205F, 0x205F), (0x3000, 0x3000)]

/-- Whether a character is a blank. -/
def isBlank (c : Char) : Bool :=
  blankRanges.contains c

/-- The list without the longest run at its end whose characters all satisfy `p`. -/
def dropTrailing (p : Char → Bool) (cs : List Char) : List Char :=
  (cs.reverse.dropWhile p).reverse

/-- The text without the blanks at both ends. -/
def trim (s : String) : String :=
  String.ofList (dropTrailing isBlank (s.toList.dropWhile isBlank))

/-- The text without the run of the character `c` at its end. -/
def trimTrailing (c : Char) (s : String) : String :=
  String.ofList (dropTrailing (· == c) s.toList)

/-- The text without the run of the character `c` at its start. -/
def trimLeading (c : Char) (s : String) : String :=
  String.ofList (s.toList.dropWhile (· == c))

/-- The pieces between the blanks of a text, the empty ones too. There is always one more piece
than there are blanks. -/
def piecesAtBlanks : List Char → List (List Char)
  | [] => [[]]
  | c :: cs =>
    if isBlank c then [] :: piecesAtBlanks cs
    else match piecesAtBlanks cs with
      | [] => [[c]]
      | piece :: rest => (c :: piece) :: rest

/-- The words of a text: its longest runs without a blank. -/
def words (s : String) : List String :=
  ((piecesAtBlanks s.toList).filter (· ≠ [])).map String.ofList

end TexFormula.Text
