import TexFormula.Token

/-! Sizing commands. A fence or size command is not a token of its own: it marks the delimiter after
it and goes away. Blanks between the two go away too. -/
namespace TexFormula

/-- On which side of a formula a delimiter stands. -/
inductive Side where
  | left
  | right
  | middle
deriving DecidableEq, Repr

/-- What a sizing command does to the delimiter after it. -/
inductive Sizing where
  /-- The delimiter stretches over what it encloses. -/
  | fence (side : Side)
  /-- The delimiter has one of four sizes. -/
  | size (level : Fin 4) (side : Side)
deriving DecidableEq, Repr

namespace Sizing

/-- The level of a size command, given the name without the letter for its side. -/
def level? : List Char → Option (Fin 4)
  | ['b', 'i', 'g'] => some 0
  | ['B', 'i', 'g'] => some 1
  | ['b', 'i', 'g', 'g'] => some 2
  | ['B', 'i', 'g', 'g'] => some 3
  | _ => none

/-- The side that the last letter of a size command stands for. -/
def side? : Char → Option Side
  | 'l' => some .left
  | 'r' => some .right
  | 'm' => some .middle
  | _ => none

/-- The size command of a name. -/
def sizeNamed? (name : List Char) : Option Sizing :=
  match level? name with
  | some level => some (.size level .middle)
  | none =>
    match name.getLast? with
    | none => none
    | some last =>
      match side? last, level? name.dropLast with
      | some side, some level => some (.size level side)
      | _, _ => none

/-- The sizing command of a name. -/
def named? (name : String) : Option Sizing :=
  match name with
  | "left" => some (.fence .left)
  | "right" => some (.fence .right)
  | "middle" => some (.fence .middle)
  | _ => sizeNamed? name.toList

/-- The sizing command that a token is, if it is one. -/
def ofToken? (t : Token) : Option Sizing :=
  if t.isCommand then named? t.value else none

/-- A delimiter on one side opens or closes, and one in the middle does neither. -/
def place (side : Side) (k : TokenKind) : TokenKind :=
  match side with
  | .left => { k with opens := true, closes := false }
  | .right => { k with opens := false, closes := true }
  | .middle => { k with opens := false, closes := false }

/-- The marks of a delimiter after a sizing command. A fence command makes it a fence, a size
command makes it a plain delimiter of that size, and both decide on its side. -/
def mark (s : Sizing) (k : TokenKind) : TokenKind :=
  match s with
  | .fence side => place side { k with fence := true }
  | .size level side =>
    let k := place side { k with fence := false }
    match level with
    | 0 => { k with size1 := true }
    | 1 => { k with size2 := true }
    | 2 => { k with size3 := true }
    | 3 => { k with size4 := true }

/-- The token after a sizing command. A full stop is the invisible delimiter. -/
def apply (s : Sizing) (t : Token) : Token :=
  if t.value == "." && !t.kind.command then { t with kind := s.mark { null := true }, value := "" }
  else { t with kind := s.mark t.kind }

end Sizing

/-- The tokens with every sizing command put into the token after it. A sizing command at the end
stays as it is. -/
def Token.absorbSizing : List Token → List Token
  | [] => []
  | t :: rest =>
    match Sizing.ofToken? t with
    | none => t :: absorbSizing rest
    | some sizing =>
      match _h : rest.dropWhile Token.isBlank with
      | [] => [t]
      | delimiter :: after => sizing.apply delimiter :: absorbSizing after
termination_by tokens => tokens.length
decreasing_by
  · simp
  · have dropped := (List.dropWhile_suffix (l := rest) Token.isBlank).length_le
    simp_all only [List.length_cons]
    omega

end TexFormula
