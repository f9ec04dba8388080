import TexFormula.Error
import TexFormula.Token

/-! Pairing of delimiters. Curly braces and environments are paired strictly: each closing delimiter
belongs to the last one still open, and it is an error when that one is missing or does not agree
with it. All other delimiters are paired loosely, and what does not fit stays alone. -/
namespace TexFormula.Pairing

/-- Two positions whose tokens belong together. -/
structure Link where
  opener : Nat
  closer : Nat
deriving DecidableEq, Repr

/-- The openers that wait for their partner, the last one first, each with its position. -/
abbrev Waiting := List (Nat × Token)

/-- The delimiters that are paired strictly. -/
inductive Family where
  | curly
  | environment
deriving DecidableEq, Repr

/-- Whether a token belongs to a family. -/
def Family.has (f : Family) (t : Token) : Bool :=
  match f with
  | .curly => t.kind.curly
  | .environment => t.kind.env

/-- Whether an opener and a closer of one family agree. Environments agree in their names. -/
def Family.agrees (f : Family) (opener closer : Token) : Bool :=
  match f with
  | .curly => true
  | .environment => opener.value == closer.value

/-- What a token of a family delimits. -/
def bracket (t : Token) : Bracket :=
  if t.kind.env then .environment t.value else .curly

/-- The links of a family among the tokens from position `i` on, or the bracket and the position of
the first fault. -/
def strictLinks (f : Family) (i : Nat) (waiting : Waiting) :
    List Token → Except (Bracket × Nat) (List Link)
  | [] =>
    match waiting with
    | [] => .ok []
    | (position, opener) :: _ => .error (bracket opener, position)
  | t :: rest =>
    if f.has t && t.kind.opens then strictLinks f (i + 1) ((i, t) :: waiting) rest
    else if f.has t && t.kind.closes then
      match waiting with
      | [] => .error (bracket t, i)
      | (position, opener) :: below =>
        if f.agrees opener t then
          match strictLinks f (i + 1) below rest with
          | .ok links => .ok (⟨position, i⟩ :: links)
          | .error fault => .error fault
        else .error (bracket opener, i)
    else strictLinks f (i + 1) waiting rest

/-- The bracket and the position of the first token that closes a brace or environment while
another one that was opened later is still open. -/
def crossing? (i : Nat) (waiting : Waiting) : List Token → Option (Bracket × Nat)
  | [] => none
  | t :: rest =>
    if !(t.kind.curly || t.kind.env) || t.offset == 0 then crossing? (i + 1) waiting rest
    else if 0 < t.offset then crossing? (i + 1) ((i, t) :: waiting) rest
    else
      match waiting with
      | [] => some (bracket t, i)
      | (position, opener) :: below =>
        if (position : Int) = i + t.offset then crossing? (i + 1) below rest
        else some (bracket opener, i)

/-- The bracket that a plain bracket pairs with. -/
def opposite? (value : String) : Option String :=
  match value with
  | "(" => some ")"
  | "[" => some "]"
  | "\x7b" => some "\x7d"
  | ")" => some "("
  | "]" => some "["
  | "\x7d" => some "\x7b"
  | _ => none

/-- Whether two delimiters pair loosely: fences pair with fences, and brackets with their
counterpart. -/
def pairsLoosely (opener closer : Token) : Bool :=
  (opener.kind.fence && closer.kind.fence) || opposite? opener.value == some closer.value

/-- The links among the tokens from position `i` on that have no partner yet. A closer that does not
pair with the last open delimiter stays alone and leaves it open. -/
def looseLinks (i : Nat) (waiting : Waiting) : List Token → List Link
  | [] => []
  | t :: rest =>
    if t.offset != 0 then looseLinks (i + 1) waiting rest
    else if t.kind.opens then looseLinks (i + 1) ((i, t) :: waiting) rest
    else if !t.kind.closes then looseLinks (i + 1) waiting rest
    else
      match waiting with
      | [] => looseLinks (i + 1) [] rest
      | (position, opener) :: below =>
        if pairsLoosely opener t then ⟨position, i⟩ :: looseLinks (i + 1) below rest
        else looseLinks (i + 1) ((position, opener) :: below) rest

/-- The offsets that links give to `n` positions, 0 where there is no link. -/
def offsets (n : Nat) (links : List Link) : Array Int :=
  links.foldl
    (fun a l => (a.setIfInBounds l.opener (l.closer - l.opener)).setIfInBounds l.closer
      (l.opener - l.closer))
    (Array.replicate n 0)

/-- The token with a new offset, if that is not 0. -/
def setOffset (t : Token) (offset : Int) : Token :=
  if offset = 0 then t else { t with offset }

/-- The tokens with the offsets that links give them. All others keep theirs. -/
def link (tokens : List Token) (links : List Link) : List Token :=
  List.zipWith setOffset tokens (offsets tokens.length links).toList

end TexFormula.Pairing
