/-! Tokens of a formula source. A token is a classified piece of source text. Its classification is
a set of marks and not one class, for the marks combine: a delimiter can be escaped, be a fence and
carry a size, and a command can carry a star. -/
namespace TexFormula

/-- The marks of a token. -/
structure TokenKind where
  /-- The invisible delimiter that a full stop stands for after a fence command. -/
  null : Bool := false
  whitespace : Bool := false
  comment : Bool := false
  /-- A backslash and a name, or a backslash and a single other character. -/
  command : Bool := false
  /-- A reserved character or delimiter behind a backslash. -/
  escaped : Bool := false
  number : Bool := false
  letter : Bool := false
  char : Bool := false
  opens : Bool := false
  closes : Bool := false
  /-- A curly brace. -/
  curly : Bool := false
  /-- The begin or the end of an environment. -/
  env : Bool := false
  fence : Bool := false
  /-- A superscript or subscript mark. -/
  script : Bool := false
  /-- A placeholder in the body of a macro. -/
  argument : Bool := false
  /-- A call of a macro that depends on itself. -/
  cyclic : Bool := false
  reserved : Bool := false
  /-- A command or environment written with a star. -/
  star : Bool := false
  size1 : Bool := false
  size2 : Bool := false
  size3 : Bool := false
  size4 : Bool := false
deriving DecidableEq, Repr, Inhabited

/-- The size from 1 to 4 that a kind asks for. Without a size mark, or with several, it is 0. -/
def TokenKind.size (k : TokenKind) : Nat :=
  match k.size1, k.size2, k.size3, k.size4 with
  | true, false, false, false => 1
  | false, true, false, false => 2
  | false, false, true, false => 3
  | false, false, false, true => 4
  | _, _, _, _ => 0

/-- A classified piece of source text. -/
structure Token where
  kind : TokenKind := {}
  value : String := ""
  /-- How far away the partner of a delimiter stands in the token list, counted to the right. It is
  0 for a token without a partner. -/
  offset : Int := 0
deriving DecidableEq, Repr, Inhabited

namespace Token

/-- Whitespace or a comment, which are skipped where an argument is looked for. -/
def isBlank (t : Token) : Bool :=
  (t.kind.whitespace || t.kind.comment) && !t.kind.command

/-- A command that can name a macro. The command made of a backslash and a blank cannot. -/
def isCommand (t : Token) : Bool :=
  t.kind.command && !t.kind.whitespace

/-- Whether a token is the command of the given name. -/
def isNamed (t : Token) (name : String) : Bool :=
  t.kind.command && t.value == name

/-- The mark between two cells of a row. -/
def isCellBreak (t : Token) : Bool :=
  t.kind.reserved && t.value == "&"

/-- The commands that end a row. -/
def isRowBreak (t : Token) : Bool :=
  t.isNamed "\\" || t.isNamed "cr"

/-- The source text of a token. -/
def spelling (t : Token) : String :=
  if t.kind.env then
    "\\" ++ (if t.kind.opens then "begin" else "end") ++ "\x7b" ++ t.value
      ++ (if t.kind.star then "*" else "") ++ "\x7d"
  else
    (if (t.kind.command || t.kind.escaped) && !t.isBlank then "\\"
      else if t.kind.argument then "#"
      else if t.kind.comment then "%"
      else "")
      ++ t.value ++ (if t.kind.star then "*" else "")

/-- The source text of a token list. Comments are left out. -/
def spellingAll (tokens : List Token) : String :=
  String.join ((tokens.filter (!·.kind.comment)).map spelling)

/-- The token without a partner. -/
def unpaired (t : Token) : Token :=
  { t with offset := 0 }

@[simp] theorem kind_unpaired (t : Token) : t.unpaired.kind = t.kind := rfl

@[simp] theorem value_unpaired (t : Token) : t.unpaired.value = t.value := rfl

@[simp] theorem offset_unpaired (t : Token) : t.unpaired.offset = 0 := rfl

@[simp] theorem unpaired_unpaired (t : Token) : t.unpaired.unpaired = t.unpaired := rfl

end Token

end TexFormula
