import TexFormula.Plan

/-! Scripts on one side of a base. Subscripts and superscripts are written in any order; in the
output they come in pairs, and a missing one of a pair is an empty element. -/
namespace TexFormula.Plan

variable {bound : Queue}

/-- A script as it is written: whether it is a superscript, and what it is, if anything follows the
mark. -/
structure SideScript (α : Type) where
  above : Bool
  content : α

/-- The scripts that a queue writes. What is neither a mark nor follows one does not count. -/
def sideScripts (q : Queue.Below bound) : List (SideScript (Option (Expr.Below bound))) :=
  match _taken : q.popArgument.1 with
  | none => []
  | some e =>
    let rest := q.popArgument.2
    if e.val.kind == .single && e.val.first.kind.script then
      ⟨e.val.first.value == "^", rest.popArgument.1⟩ :: sideScripts rest.popArgument.2
    else sideScripts rest
termination_by q.val.weight
decreasing_by
  · exact Nat.lt_of_le_of_lt rest.weight_popArgument_le
      (Queue.Below.weight_popArgument_lt ‹q.popArgument.1 = _›)
  · exact Queue.Below.weight_popArgument_lt ‹q.popArgument.1 = _›

/-- Reads scripts in the order in which they are written. -/
def readSideScripts (c : Context) :
    List (SideScript (Option (Expr.Below bound))) → Plan bound (List (SideScript Node))
  | [] => return []
  | script :: rest => do
    let content ← match script.content with
      | some e => readArgument c e
      | none => pure (.element "none")
    let others ← readSideScripts c rest
    return ⟨script.above, content⟩ :: others

/-- The subscripts and superscripts in pairs, each one in the first pair that it fits into. A mark
that repeats the one before it starts a new pair. -/
structure SidePairs where
  below : List Node := []
  above : List Node := []
  /-- Whether the last script was a superscript. -/
  lastAbove : Option Bool := none

/-- The pairs with one more script. -/
def SidePairs.add (p : SidePairs) (script : SideScript Node) : SidePairs :=
  let missing := if p.lastAbove = some script.above then [Node.element "none"] else []
  if script.above then
    { below := p.below ++ missing, above := p.above ++ [script.content], lastAbove := some true }
  else
    { below := p.below ++ [script.content], above := p.above ++ missing, lastAbove := some false }

/-- A list filled up to a length with empty elements. -/
def fillWithNone (length : Nat) (nodes : List Node) : List Node :=
  nodes ++ List.replicate (length - nodes.length) (.element "none")

/-- The pairs as a list in which subscripts and superscripts alternate. There is at least one pair.
-/
def SidePairs.nodes (p : SidePairs) : List Node :=
  let length := max 1 (max p.below.length p.above.length)
  ((fillWithNone length p.below).zip (fillWithNone length p.above)).flatMap fun (sub, sup) =>
    [sub, sup]

/-- Reads the scripts on one side. -/
def readSide (c : Context) (e : Expr.Below bound) : Plan bound (List Node) := do
  let scripts := sideScripts (.ofTokens e.val.argument e.argument_length_lt)
  let read ← readSideScripts c scripts
  return (read.foldl SidePairs.add {}).nodes

end TexFormula.Plan
