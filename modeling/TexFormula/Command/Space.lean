import TexFormula.Length
import TexFormula.Node

/-! Spaces of a fixed width: the commands for them, and how they are joined in a row. Spaces that
stand next to each other, with nothing but placeholders in between, become one space as wide as all
of them. -/
namespace TexFormula.Command

/-- The widths of the spaces by name, in eighteenths of an em. The command of width 0 is no space
but a line break. -/
def spaces : List (String × Int) :=
  [("\\", 0), (",", 3), (":", 4), (">", 4), (";", 5), (" ", 6), ("!", -3), ("quad", 18),
   ("qquad", 36), ("enspace", 9), ("thinspace", 3), ("medspace", 4), ("thickspace", 5),
   ("negthinspace", -3)]

end TexFormula.Command

namespace TexFormula.Row

/-- The width of a space that can be joined with others, in eighteenths of an em. -/
def spaceWidth? (n : Node) : Option Int :=
  if n.tag == "mspace" && n.token.kind.command then
    (Command.spaces.lookup n.token.value).filter (· ≠ 0)
  else none

/-- The width of the spaces that a list starts with, and the list with placeholders for them. -/
def absorbSpaces : List Node → Int × List Node
  | [] => (0, [])
  | n :: rest =>
    if n.isPlaceholder then
      let more := absorbSpaces rest
      (more.1, n :: more.2)
    else match spaceWidth? n with
      | none => (0, n :: rest)
      | some width =>
        let more := absorbSpaces rest
        (width + more.1, .placeholder :: more.2)

theorem length_absorbSpaces (nodes : List Node) :
    (absorbSpaces nodes).2.length = nodes.length := by
  induction nodes with
  | nil => rfl
  | cons n rest ih =>
    unfold absorbSpaces
    split
    · simp [ih]
    · split
      · rfl
      · simp [ih]

/-- The row with adjacent spaces joined in the place of the first. -/
def joinSpaces : List Node → List Node
  | [] => []
  | n :: rest =>
    match spaceWidth? n with
    | none => n :: joinSpaces rest
    | some width =>
      n.setAttribute "width" (Length.ofEighteenths (width + (absorbSpaces rest).1))
        :: joinSpaces (absorbSpaces rest).2
termination_by nodes => nodes.length
decreasing_by
  · simp
  · simp only [List.length_cons, length_absorbSpaces]
    omega

end TexFormula.Row
