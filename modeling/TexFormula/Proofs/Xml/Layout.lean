import TexFormula.Proofs.Xml.Markup

/-! The layout of a rendered tree. A tree is written as a list of whole tags and contents
(`segments`), the same ones on one line and on many. On many lines, line breaks stand between them,
and only between two tags of which one is the parent's or both are siblings' (`fits_of_segments`),
so the two texts differ in nothing else (`toXml_pretty_breaks_lines`). -/
namespace TexFormula.Node

/-- A stretch of a rendered tree: a whole tag, the whole content of an element without children, or
the end of a line with the blanks that the next line starts with. Levels count from the root. -/
inductive Segment
  | opening (level : Nat) (n : Node)
  | content (level : Nat) (n : Node)
  | closing (level : Nat) (n : Node)
  | lineBreak (level : Nat)

namespace Segment

/-- A segment as it is written. -/
def write : Segment → String
  | .opening _ n => n.openTag
  | .content _ n => escape n.text
  | .closing _ n => n.closeTag
  | .lineBreak level => "\n" ++ String.ofList (List.replicate (2 * level) ' ')

/-- Segments as they are written, one after the other. -/
def writeAll (segments : List Segment) : String :=
  String.join (segments.map write)

/-- Whether a segment is written on one line too. -/
def isMarkup : Segment → Bool
  | .lineBreak _ => false
  | _ => true

/-- The element that a segment opens, with its level. -/
def opened? : Segment → Option (Nat × Node)
  | .opening level n => some (level, n)
  | _ => none

/-- The places of a line break: after the opening tag of an element that has children, between two
siblings, and before the closing tag of an element that has children. The next line starts at the
level of the tag on it. -/
inductive Breaks : Segment → Nat → Segment → Prop
  | first {level : Nat} {parent child : Node} (member : child ∈ parent.children) :
      Breaks (.opening level parent) (level + 1) (.opening (level + 1) child)
  | next {level : Nat} {parent child sibling : Node} (member : child ∈ parent.children)
      (beside : sibling ∈ parent.children) :
      Breaks (.closing (level + 1) child) (level + 1) (.opening (level + 1) sibling)
  | last {level : Nat} {parent child : Node} (member : child ∈ parent.children) :
      Breaks (.closing (level + 1) child) level (.closing level parent)
  | unwritten {level : Nat} {parent : Node} (filled : parent.children ≠ []) :
      Breaks (.opening level parent) level (.closing level parent)

/-- Whether a segment may stand between two others, or where there are none. A tag that opens a line
has its indentation before it; a content has the two tags of its own element around it. -/
def Fits (before : Option Segment) (here : Segment) (after : Option Segment) : Prop :=
  match here with
  | .opening level _ => before = none ∨ before = some (.lineBreak level)
  | .content level n =>
    n.children = [] ∧ before = some (.opening level n) ∧ after = some (.closing level n)
  | .closing level n =>
    n.children = [] ∨ n.tag ∈ emptyTags ∨ before = some (.lineBreak level)
  | .lineBreak level => ∃ s ∈ before, ∃ t ∈ after, Breaks s level t

/-- Whether each segment fits where it stands, if the given one stands before them. -/
def Fitting (before : Option Segment) : List Segment → Prop
  | [] => True
  | s :: rest => Fits before s rest.head? ∧ Fitting (some s) rest

theorem Fitting.fits {before : Option Segment} {front back : List Segment} {s : Segment}
    (fitting : Fitting before (front ++ s :: back)) :
    Fits (front.getLast?.or before) s back.head? := by
  induction front generalizing before with
  | nil => exact fitting.1
  | cons t front ih =>
    have here := ih fitting.2
    rw [List.getLast?_cons]
    cases last : front.getLast? with
    | none => simpa [last] using here
    | some u => simpa [last] using here

end Segment

open Segment

mutual

/-- What a node is written as at a level. -/
def segments (level : Nat) : Node → List Segment
  | n@⟨tag, _, _, _, _, children, _, _⟩ =>
    if n.isWritten then
      .opening level n ::
        ((if emptyTags.contains tag then []
          else if children.isEmpty then [.content level n]
          else segmentsBelow (level + 1) children ++ [.lineBreak level])
        ++ [.closing level n])
    else []

/-- What nodes are written as below a node, each on lines of its own. -/
def segmentsBelow (level : Nat) : List Node → List Segment
  | [] => []
  | n :: rest =>
    (if n.isWritten then .lineBreak level :: segments level n else []) ++ segmentsBelow level rest

end

mutual

/-- The nodes of a tree that are written, in the order in which they are, with their levels. -/
def writtenFrom (level : Nat) : Node → List (Nat × Node)
  | n@⟨tag, _, _, _, _, children, _, _⟩ =>
    if n.isWritten then
      (level, n) :: if emptyTags.contains tag then [] else writtenFromAll (level + 1) children
    else []

/-- The nodes of trees that are written. -/
def writtenFromAll (level : Nat) : List Node → List (Nat × Node)
  | [] => []
  | n :: rest => writtenFrom level n ++ writtenFromAll level rest

end

/-! ### What is written -/

theorem write_lineBreak (level : Nat) :
    (Segment.lineBreak level).write = "\n" ++ indentation level := by
  have blanks : String.ofList (List.replicate (2 * level) ' ') = indentation level := by
    apply String.toList_inj.mp
    rw [String.toList_ofList, indentation, toList_pushn]
    rfl
  rw [write, blanks]

theorem writeAll_append (front back : List Segment) :
    writeAll (front ++ back) = writeAll front ++ writeAll back := by
  rw [writeAll, List.map_append, String.join_append, writeAll, writeAll]

theorem writeAll_cons (s : Segment) (rest : List Segment) :
    writeAll (s :: rest) = s.write ++ writeAll rest := by
  rw [writeAll, List.map_cons, String.join_cons, writeAll]

theorem writeAll_nil : writeAll [] = "" :=
  String.join_nil

theorem writeAll_singleton (s : Segment) : writeAll [s] = s.write := by
  rw [writeAll_cons, writeAll_nil, String.append_empty]

mutual

/-- On one line, a tree is written without the line breaks. -/
theorem render_eq_writeAll (level : Nat) (n : Node) :
    n.render = writeAll ((n.segments level).filter isMarkup) := by
  obtain ⟨tag, text, attributes, css, marks, children, token, option⟩ := n
  rw [render, segments]
  split
  case isTrue written =>
    rw [List.filter_cons_of_pos rfl, List.filter_append, writeAll_cons, writeAll_append,
      List.filter_cons_of_pos rfl, List.filter_nil, writeAll_singleton, ← String.append_assoc]
    congr 2
    split
    · rfl
    · split
      · rw [List.filter_cons_of_pos rfl, List.filter_nil, writeAll_singleton, write]
      · rw [List.filter_append, List.filter_cons_of_neg Bool.false_ne_true, List.filter_nil,
          List.append_nil, renderAll_eq_writeAll (level + 1) children]
  case isFalse => rfl

theorem renderAll_eq_writeAll (level : Nat) (ns : List Node) :
    renderAll ns = writeAll ((segmentsBelow level ns).filter isMarkup) := by
  cases ns with
  | nil => rfl
  | cons n rest =>
    rw [renderAll, segmentsBelow, List.filter_append, writeAll_append,
      ← renderAll_eq_writeAll level rest]
    congr 1
    split
    case isTrue written =>
      rw [List.filter_cons_of_neg (by simp [isMarkup]), ← render_eq_writeAll level n]
    case isFalse hidden =>
      obtain ⟨tag, text, attributes, css, marks, children, token, option⟩ := n
      rw [render, if_neg hidden]
      rfl

end

mutual

/-- On many lines, a tree is written with the line breaks, after the blanks of its first line. -/
theorem renderPretty_eq_writeAll (level : Nat) {n : Node} (written : n.isWritten = true) :
    n.renderPretty level = indentation level ++ writeAll (n.segments level) := by
  obtain ⟨tag, text, attributes, css, marks, children, token, option⟩ := n
  rw [renderPretty, segments, if_pos written, if_pos written, writeAll_cons, writeAll_append,
    writeAll_singleton, ← String.append_assoc, ← String.append_assoc]
  congr 2
  split
  · rfl
  · split
    · rw [writeAll_singleton, write]
    · rw [writeAll_append, writeAll_singleton, write_lineBreak,
        newline_append_renderPrettyAll (level + 1) children, String.append_assoc]

/-- The end of the last line comes before the closing tag of the node that the others are in. -/
theorem newline_append_renderPrettyAll (level : Nat) (ns : List Node) :
    "\n" ++ renderPrettyAll level ns = writeAll (segmentsBelow level ns) ++ "\n" := by
  cases ns with
  | nil => rfl
  | cons n rest =>
    rw [renderPrettyAll, segmentsBelow, writeAll_append, String.append_assoc,
      ← newline_append_renderPrettyAll level rest]
    split
    case isTrue written =>
      rw [writeAll_cons, renderPretty_eq_writeAll level written, write_lineBreak]
      simp only [String.append_assoc]
    case isFalse => rw [writeAll_nil, String.empty_append, String.empty_append]

end

mutual

/-- The tags that open elements are those of the written nodes, each at its level. -/
theorem opened_segments (level : Nat) (n : Node) :
    (n.segments level).filterMap opened? = n.writtenFrom level := by
  obtain ⟨tag, text, attributes, css, marks, children, token, option⟩ := n
  rw [segments, writtenFrom]
  split
  case isTrue written =>
    have root : opened? (.opening level
        ⟨tag, text, attributes, css, marks, children, token, option⟩) =
        some (level, ⟨tag, text, attributes, css, marks, children, token, option⟩) := rfl
    rw [List.filterMap_cons_some root, List.filterMap_append, List.filterMap_cons_none rfl,
      List.filterMap_nil, List.append_nil]
    congr 1
    split
    · rfl
    · split
      case isTrue childless =>
        rw [List.isEmpty_iff.mp childless]
        rfl
      case isFalse =>
        rw [List.filterMap_append, opened_segmentsBelow (level + 1) children,
          List.filterMap_cons_none rfl, List.filterMap_nil, List.append_nil]
  case isFalse => rfl

theorem opened_segmentsBelow (level : Nat) (ns : List Node) :
    (segmentsBelow level ns).filterMap opened? = writtenFromAll level ns := by
  cases ns with
  | nil => rfl
  | cons n rest =>
    rw [segmentsBelow, writtenFromAll, List.filterMap_append, opened_segmentsBelow level rest]
    congr 1
    split
    case isTrue written => rw [List.filterMap_cons_none rfl, opened_segments level n]
    case isFalse hidden =>
      obtain ⟨tag, text, attributes, css, marks, children, token, option⟩ := n
      rw [writtenFrom, if_neg hidden]
      rfl

end

/-! ### Where the lines break -/

/-- The segments after which the next line below a node may start. -/
def Segment.IsEdge (level : Nat) (parent : Node) (s : Segment) : Prop :=
  s = .opening level parent ∨ ∃ child ∈ parent.children, s = .closing (level + 1) child

namespace Segment.IsEdge

variable {level : Nat} {parent child : Node} {s : Segment}

theorem breaks_child (edge : s.IsEdge level parent) (member : child ∈ parent.children) :
    Breaks s (level + 1) (.opening (level + 1) child) := by
  obtain rfl | ⟨before, beside, rfl⟩ := edge
  · exact .first member
  · exact .next beside member

theorem breaks_parent (edge : s.IsEdge level parent) (filled : parent.children ≠ []) :
    Breaks s level (.closing level parent) := by
  obtain rfl | ⟨before, beside, rfl⟩ := edge
  · exact .unwritten filled
  · exact .last beside

end Segment.IsEdge

theorem head?_segments {level : Nat} {n : Node} (written : n.isWritten = true)
    (rest : List Segment) : (n.segments level ++ rest).head? = some (.opening level n) := by
  obtain ⟨tag, text, attributes, css, marks, children, token, option⟩ := n
  rw [segments, if_pos written, List.cons_append, List.head?_cons]

mutual

theorem fitting_segments {level : Nat} {n : Node} {before : Option Segment} {rest : List Segment}
    (written : n.isWritten = true) (start : Fits before (.opening level n) none)
    (after : Fitting (some (.closing level n)) rest) :
    Fitting before (n.segments level ++ rest) := by
  obtain ⟨tag, text, attributes, css, marks, children, token, option⟩ := n
  rw [segments, if_pos written, List.cons_append, List.append_assoc]
  refine ⟨start, ?_⟩
  split
  case isTrue empty => exact ⟨.inr (.inl (List.contains_iff_mem.mp empty)), after⟩
  case isFalse =>
    split
    case isTrue childless =>
      have none : children = [] := List.isEmpty_iff.mp childless
      exact ⟨⟨none, rfl, rfl⟩, .inl none, after⟩
    case isFalse filled =>
      rw [List.append_assoc]
      exact fitting_segmentsBelow (fun _ member => member) (mt List.isEmpty_iff.mpr filled)
        (.inl rfl) after

theorem fitting_segmentsBelow {level : Nat} {parent : Node} {ns : List Node} {before : Segment}
    {rest : List Segment} (members : ∀ n ∈ ns, n ∈ parent.children)
    (filled : parent.children ≠ []) (edge : before.IsEdge level parent)
    (after : Fitting (some (.closing level parent)) rest) :
    Fitting (some before)
      (segmentsBelow (level + 1) ns ++ (.lineBreak level :: .closing level parent :: rest)) := by
  cases ns with
  | nil => exact ⟨⟨before, rfl, _, rfl, edge.breaks_parent filled⟩, .inr (.inr rfl), after⟩
  | cons n ns =>
    obtain ⟨here, later⟩ := List.forall_mem_cons.mp members
    rw [segmentsBelow, List.append_assoc]
    split
    case isTrue written =>
      refine ⟨⟨before, rfl, _, head?_segments written _, edge.breaks_child here⟩, ?_⟩
      -- The siblings behind follow the closing tag of this child.
      exact fitting_segments written (.inr rfl)
        (fitting_segmentsBelow later filled (.inr ⟨n, here, rfl⟩) after)
    case isFalse => exact fitting_segmentsBelow later filled edge after

end

/-- Every segment of a tree fits where it stands. -/
theorem fits_of_segments {n : Node} {level : Nat} {front back : List Segment} {s : Segment}
    (same : n.segments level = front ++ s :: back) : Fits front.getLast? s back.head? := by
  have fitting : Fitting none (n.segments level) := by
    by_cases written : n.isWritten = true
    · rw [← List.append_nil (n.segments level)]
      exact fitting_segments written (.inl rfl) trivial
    · obtain ⟨tag, text, attributes, css, marks, children, token, option⟩ := n
      rw [segments, if_neg written]
      trivial
  rw [same] at fitting
  simpa using fitting.fits

/-- On many lines, a tree is written as the same tags and contents as on one line, with line breaks
in between. Each written node has one opening tag in them, in the order of the tree, which follows
the indentation of its level unless it is the first; and a line breaks nowhere but between two tags,
after the opening tag of a node that has children, between its children and before its closing tag.
-/
theorem toXml_pretty_breaks_lines (n : Node) :
    n.toXml false = writeAll ((n.segments 0).filter isMarkup) ∧
      n.toXml true = writeAll (n.segments 0) ∧
      (n.segments 0).filterMap opened? = n.writtenFrom 0 ∧
      ∀ front s back, n.segments 0 = front ++ s :: back → Fits front.getLast? s back.head? := by
  refine ⟨render_eq_writeAll 0 n, ?_, opened_segments 0 n, fun _ _ _ => fits_of_segments⟩
  change n.renderPretty 0 = _
  by_cases written : n.isWritten = true
  · rw [renderPretty_eq_writeAll 0 written]
    exact String.empty_append
  · obtain ⟨tag, text, attributes, css, marks, children, token, option⟩ := n
    rw [renderPretty, segments, if_neg written, if_neg written]
    rfl

end TexFormula.Node
