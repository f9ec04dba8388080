import TexFormula.Context
import TexFormula.Node

/-! A row while it is read. Scripts and operators that build fractions stand for no node of their
own: they mark the node that comes next, and the row is put together when all its nodes are there.
-/
namespace TexFormula.Row

/-- The part of a row that was read. -/
structure Draft where
  /-- The nodes, the last one first. -/
  latest : List Node := []
  /-- The marks for the next node. -/
  pending : Marks := {}

namespace Draft

/-- The nodes in their order. -/
def nodes (d : Draft) : List Node :=
  d.latest.reverse

/-- Further marks for the next node. -/
def promote (d : Draft) (marks : Marks) : Draft :=
  { d with pending := d.pending.union marks }

/-- Further nodes, which no mark is meant for. -/
def place (d : Draft) (nodes : List Node) : Draft :=
  { d with latest := nodes.reverse ++ d.latest }

/-- The node in the size that its token asks for. -/
def resize (t : Token) (n : Node) : Node :=
  if t.kind.size = 0 then n
  else n.setAttributes [("scriptlevel", "-" ++ toString t.kind.size), ("stretchy", "false")]

/-- Whether a node is a plain text. -/
def isText (n : Node) : Bool :=
  n.tag == "mtext" && n.children.isEmpty

/-- Whether a node continues the text before it. -/
def continues (last n : Node) : Bool :=
  isText last && isText n && last.attributes == n.attributes && last.marks == n.marks

/-- One more node, which takes the pending marks. In a text, pieces that are written alike become
one. -/
def add (c : Context) (t : Token) (d : Draft) (n : Node) : Draft :=
  let n := (resize t n).mark d.pending
  match d.latest with
  | last :: others =>
    if c.text && continues last n then
      { latest := { last with text := last.text ++ n.text } :: others }
    else { latest := n :: d.latest }
  | [] => { latest := [n] }

/-- One more node if there is one. Otherwise the marks stay for the node after it. -/
def addOption (c : Context) (t : Token) (d : Draft) (n : Option Node) : Draft :=
  n.elim d (d.add c t)

end Draft

end TexFormula.Row
