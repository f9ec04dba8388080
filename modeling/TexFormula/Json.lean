/-! Values written in the JSON format. Options and macros can be given in it. A text of the format
can spell half of a surrogate pair, which is no character, so a text is kept as code units until it
is known whether it matters. -/
namespace TexFormula.Json

/-- A value. Numbers are not kept, for nothing here is given by a number. -/
inductive Value where
  | null
  | bool (b : Bool)
  | number
  /-- A text as it was spelled: characters, and the code units of characters that were escaped. -/
  | text (units : List Nat)
  | list (values : List Value)
  /-- The entries in the order in which they were written. A name can occur more than once. -/
  | object (entries : List (List Nat × Value))

/-- The words and marks that values are written with. -/
inductive Lexeme where
  | openList
  | closeList
  | openObject
  | closeObject
  | comma
  | colon
  | null
  | bool (b : Bool)
  | number
  | text (units : List Nat)

/-- Whether a character can stand between words. -/
def isBlank (c : Char) : Bool :=
  c == ' ' || c == '\t' || c == '\n' || c == '\r'

/-- The value of a hexadecimal digit. -/
def hexDigit? (c : Char) : Option Nat :=
  if c.isDigit then some (c.toNat - '0'.toNat)
  else if 'a' ≤ c ∧ c ≤ 'f' then some (c.toNat - 'a'.toNat + 10)
  else if 'A' ≤ c ∧ c ≤ 'F' then some (c.toNat - 'A'.toNat + 10)
  else none

/-- The value of four hexadecimal digits. -/
def hexUnit? (a b c d : Char) : Option Nat := do
  let a ← hexDigit? a
  let b ← hexDigit? b
  let c ← hexDigit? c
  let d ← hexDigit? d
  return ((a * 16 + b) * 16 + c) * 16 + d

/-- The character that a letter after a backslash stands for. -/
def escaped? : Char → Option Char
  | '\x22' => some '\x22'
  | '\\' => some '\\'
  | '/' => some '/'
  | 'b' => some '\x08'
  | 'f' => some '\x0c'
  | 'n' => some '\n'
  | 'r' => some '\r'
  | 't' => some '\t'
  | _ => none

/-- The units of a text up to its closing quote, and what follows. -/
def readText : List Char → Option (List Nat × List Char)
  | [] => none
  | '\x22' :: rest => some ([], rest)
  | '\\' :: 'u' :: a :: b :: c :: d :: rest => do
    let unit ← hexUnit? a b c d
    let (units, after) ← readText rest
    return (unit :: units, after)
  | '\\' :: c :: rest => do
    let c ← escaped? c
    let (units, after) ← readText rest
    return (c.toNat :: units, after)
  | c :: rest => do
    if c.toNat < 0x20 || c == '\\' then none
    let (units, after) ← readText rest
    return (c.toNat :: units, after)

/-- What follows the digits at the start of a text. There must be a digit. -/
def skipDigits : List Char → Option (List Char)
  | c :: rest => if c.isDigit then some (rest.dropWhile Char.isDigit) else none
  | [] => none

/-- What follows the whole part of a number. A zero is not followed by further digits of it. -/
def skipWhole : List Char → Option (List Char)
  | '0' :: rest => some rest
  | cs => skipDigits cs

/-- What follows the fraction of a number, if it has one. -/
def skipFraction : List Char → Option (List Char)
  | '.' :: rest => skipDigits rest
  | cs => some cs

/-- What follows the digits of an exponent and the sign before them. -/
def skipSigned : List Char → Option (List Char)
  | '+' :: rest => skipDigits rest
  | '-' :: rest => skipDigits rest
  | cs => skipDigits cs

/-- What follows the exponent of a number, if it has one. -/
def skipExponent : List Char → Option (List Char)
  | 'e' :: rest => skipSigned rest
  | 'E' :: rest => skipSigned rest
  | cs => some cs

/-- What follows the number at the start of a text. -/
def skipNumber (cs : List Char) : Option (List Char) := do
  let unsigned := match cs with
    | '-' :: rest => rest
    | cs => cs
  skipExponent (← skipFraction (← skipWhole unsigned))

/-- The first word or mark of a text, and what follows. -/
def nextLexeme : List Char → Option (Lexeme × List Char)
  | '[' :: rest => some (.openList, rest)
  | ']' :: rest => some (.closeList, rest)
  | '\x7b' :: rest => some (.openObject, rest)
  | '\x7d' :: rest => some (.closeObject, rest)
  | ',' :: rest => some (.comma, rest)
  | ':' :: rest => some (.colon, rest)
  | 'n' :: 'u' :: 'l' :: 'l' :: rest => some (.null, rest)
  | 't' :: 'r' :: 'u' :: 'e' :: rest => some (.bool true, rest)
  | 'f' :: 'a' :: 'l' :: 's' :: 'e' :: rest => some (.bool false, rest)
  | '\x22' :: rest => (readText rest).map fun (units, after) => (.text units, after)
  | cs => (skipNumber cs).map fun after => (.number, after)

/-- The words and marks of a text, of which at most `n` are read. -/
def lexemesWithin : Nat → List Char → Option (List Lexeme)
  | 0, _ => none
  | n + 1, cs =>
    match cs.dropWhile isBlank with
    | [] => some []
    | c :: rest => do
      let (lexeme, after) ← nextLexeme (c :: rest)
      let others ← lexemesWithin n after
      return lexeme :: others

/-- The words and marks of a text. Each of them takes a character, so there are no more of them than
of characters. -/
def lexemes (cs : List Char) : Option (List Lexeme) :=
  lexemesWithin (cs.length + 1) cs

/-- A list or object whose end is not yet read, with what was read of it, the last first. -/
inductive Frame where
  | list (done : List Value)
  | object (done : List (List Nat × Value)) (name : List Nat)

mutual

/-- Reads a value inside the given frames. -/
def readValue (frames : List Frame) : List Lexeme → Option Value
  | .null :: rest => resume frames .null rest
  | .bool b :: rest => resume frames (.bool b) rest
  | .number :: rest => resume frames .number rest
  | .text units :: rest => resume frames (.text units) rest
  | .openList :: .closeList :: rest => resume frames (.list []) rest
  | .openList :: rest => readValue (.list [] :: frames) rest
  | .openObject :: .closeObject :: rest => resume frames (.object []) rest
  | .openObject :: .text name :: .colon :: rest => readValue (.object [] name :: frames) rest
  | _ => none

/-- Reads on after a value inside the given frames. -/
def resume (frames : List Frame) (value : Value) : List Lexeme → Option Value
  | [] =>
    match frames with
    | [] => some value
    | _ :: _ => none
  | .comma :: .text name :: .colon :: rest =>
    match frames with
    | .object done last :: below => readValue (.object ((last, value) :: done) name :: below) rest
    | _ => none
  | .comma :: rest =>
    match frames with
    | .list done :: below => readValue (.list (value :: done) :: below) rest
    | _ => none
  | .closeList :: rest =>
    match frames with
    | .list done :: below => resume below (.list (value :: done).reverse) rest
    | _ => none
  | .closeObject :: rest =>
    match frames with
    | .object done last :: below => resume below (.object ((last, value) :: done).reverse) rest
    | _ => none
  | _ => none

end

/-- The value that a text spells, if it spells one and nothing else. -/
def parse? (source : String) : Option Value := do
  readValue [] (← lexemes source.toList)

/-- The character of two code units that form a surrogate pair. -/
def pair? (high low : Nat) : Option Char :=
  if 0xDC00 ≤ low ∧ low ≤ 0xDFFF then
    some (Char.ofNat (0x10000 + (high - 0xD800) * 0x400 + (low - 0xDC00)))
  else none

/-- The characters that units spell. Half a surrogate pair spells none. -/
def decodeUnits : List Nat → Option (List Char)
  | [] => some []
  | unit :: rest =>
    if 0xD800 ≤ unit ∧ unit ≤ 0xDBFF then
      match rest with
      | [] => none
      | low :: after => do
        let c ← pair? unit low
        let others ← decodeUnits after
        return c :: others
    else if 0xDC00 ≤ unit ∧ unit ≤ 0xDFFF then none
    else do
      let others ← decodeUnits rest
      return Char.ofNat unit :: others

/-- The text that units spell. -/
def decode? (units : List Nat) : Option String :=
  (decodeUnits units).map String.ofList

/-- The truth value that a value is. -/
def Value.bool? : Value → Option Bool
  | .bool b => some b
  | _ => none

/-- The text that a value is. -/
def Value.text? : Value → Option String
  | .text units => decode? units
  | _ => none

/-- The entries of an object, if all their names are texts. -/
def Value.entries? : Value → Option (List (String × Value))
  | .object entries => entries.mapM fun (name, value) => (decode? name).map (·, value)
  | _ => none

end TexFormula.Json
