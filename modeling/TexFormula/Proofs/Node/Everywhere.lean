import TexFormula.Node.Xml

/-! Properties of all nodes of a tree, and the vocabulary of the output: the names of elements and
attributes that formulas are written with. -/
namespace TexFormula.Node

/-- A property of a node and of all nodes below it. -/
inductive Everywhere (p : Node → Prop) : Node → Prop
  | node {n : Node} (here : p n) (below : ∀ child ∈ n.children, Everywhere p child) :
      Everywhere p n

theorem Everywhere.self {p : Node → Prop} {n : Node} (all : n.Everywhere p) : p n := by
  cases all with
  | node here below => exact here

theorem Everywhere.children {p : Node → Prop} {n : Node} (all : n.Everywhere p) :
    ∀ child ∈ n.children, child.Everywhere p := by
  cases all with
  | node here below => exact below

theorem Everywhere.mono {p q : Node → Prop} {n : Node} (weaker : ∀ m, p m → q m)
    (all : n.Everywhere p) : n.Everywhere q := by
  induction all with
  | node here below ih => exact .node (weaker _ here) ih

/-- A property of a node or of a node below it. -/
inductive Somewhere (p : Node → Prop) : Node → Prop
  | here {n : Node} (holds : p n) : Somewhere p n
  | inside {n child : Node} (member : child ∈ n.children) (found : Somewhere p child) :
      Somewhere p n

/-! ### Optional nodes and nodes by cases -/

theorem everywhere_none {p : Node → Prop} : ∀ n ∈ (none : Option Node), n.Everywhere p :=
  fun _ given => nomatch given

theorem everywhere_some {p : Node → Prop} {n : Node} (all : n.Everywhere p) :
    ∀ m ∈ some n, m.Everywhere p :=
  fun _ given => Option.some.inj given ▸ all

theorem everywhere_ite {p : Node → Prop} {condition : Prop} [Decidable condition] {n m : Node}
    (yes : condition → n.Everywhere p) (no : ¬ condition → m.Everywhere p) :
    (if condition then n else m).Everywhere p := by
  split
  case isTrue holds => exact yes holds
  case isFalse fails => exact no fails

/-! ### Names -/

/-- If the node is written, then under a name that satisfies `p`, with attributes whose names
satisfy `q`. -/
def HasNames (p q : String → Prop) (n : Node) : Prop :=
  n.isWritten = true → p n.tag ∧ ∀ a ∈ n.attributes.entries, q a.1

/-! ### The vocabulary of the output -/

/-- The names of the elements of the output. -/
def elementNames : List String :=
  ["annotation", "math", "menclose", "merror", "mfrac", "mi", "mlabeledtr", "mmultiscripts", "mn",
   "mo", "mover", "mpadded", "mphantom", "mprescripts", "mroot", "mrow", "mspace", "msqrt",
   "mstyle", "msub", "msubsup", "msup", "mtable", "mtd", "mtext", "mtr", "munder", "munderover",
   "none", "semantics"]

/-- The names of the attributes of the output. -/
def attributeNames : List String :=
  ["accent", "class", "columnalign", "columnlines", "columnspan", "display", "displaystyle",
   "encoding", "fence", "largeop", "linebreak", "linethickness", "lspace", "mathcolor", "mathsize",
   "mathvariant", "minsize", "movablelimits", "notation", "rowalign", "rowspacing", "rowspan",
   "rspace", "scriptlevel", "stretchy", "style", "symmetric", "title", "voffset", "width", "xmlns"]

/-- Whether a node is in the vocabulary. A node that is hidden or has no name only holds a place in
a row. -/
structure InVocabulary (n : Node) : Prop where
  tag : n.marks.hidden = true ∨ n.tag = "" ∨ n.tag ∈ elementNames
  attributes : ∀ a ∈ n.attributes.entries, a.1 ∈ attributeNames

/-- A node that is in the vocabulary with all nodes below it. -/
def Standard (n : Node) : Prop :=
  n.Everywhere InVocabulary

/-- A standard node is written with names from the vocabulary alone. -/
theorem Standard.hasNames {n : Node} (standard : n.Standard) :
    n.Everywhere (HasNames (· ∈ elementNames) (· ∈ attributeNames)) := by
  refine standard.mono fun m known written => ⟨?_, known.attributes⟩
  simp only [isWritten, Bool.and_eq_true, Bool.not_eq_true', bne_iff_ne] at written
  rcases known.tag with hidden | nameless | listed
  · exact absurd hidden (by simp [written.1])
  · exact absurd nameless written.2
  · exact listed

end TexFormula.Node
