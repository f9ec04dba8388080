import TexFormula.Proofs.Xml.Decoding

/-! The markup of a rendered tree. Rendered on one line or on many, a tree is written in balanced
pieces whose names are those of its nodes (`spells_toXml`); every other character of it stands in
the content of an element or in the value of an attribute. -/
namespace TexFormula.Xml

variable {p q : String → Prop}

/-- A text that is written in balanced pieces, with elements whose names satisfy `p` and attributes
whose names satisfy `q`. -/
def Spells (p q : String → Prop) (cs : List Char) : Prop :=
  ∃ pieces : List Piece, cs = pieces.flatMap Piece.write ∧ Balanced pieces ∧
    ∀ piece ∈ pieces, piece.HasNames p q

theorem spells_nil : Spells p q [] :=
  ⟨[], rfl, .nil, List.forall_mem_nil _⟩

theorem Spells.append {front back : List Char} (left : Spells p q front)
    (right : Spells p q back) : Spells p q (front ++ back) := by
  obtain ⟨pieces, written, balanced, names⟩ := left
  obtain ⟨pieces', written', balanced', names'⟩ := right
  refine ⟨pieces ++ pieces', ?_, balanced.append balanced',
    List.forall_mem_append.mpr ⟨names, names'⟩⟩
  rw [List.flatMap_append, written, written']

/-- Characters that are written as references where they would look like markup. -/
theorem spells_escaped (cs : List Char) : Spells p q (cs.flatMap Node.escapeChar) := by
  refine ⟨cs.map .char, ?_, balanced_chars cs, fun piece member => ?_⟩
  · rw [List.flatMap_map]
    rfl
  · obtain ⟨c, -, same⟩ := List.mem_map.mp member
    exact same ▸ trivial

theorem Spells.element {inside : List Char} (within : Spells p q inside) {name : String}
    {attributes : List (String × String)} (opening : (Piece.opening name attributes).HasNames p q) :
    Spells p q ((Piece.opening name attributes).write ++ inside ++ (Piece.closing name).write) := by
  obtain ⟨pieces, written, balanced, names⟩ := within
  refine ⟨.opening name attributes :: pieces ++ [.closing name], ?_,
    .element name attributes balanced .nil, ?_⟩
  · simp [written]
  · exact List.forall_mem_cons.mpr ⟨opening, List.forall_mem_append.mpr
      ⟨names, List.forall_mem_singleton.mpr opening.1⟩⟩

/-- Markup with names is read back. -/
theorem Spells.scan {s : String} (spells : Spells p q s.toList)
    (elements : ∀ name, p name → isName name = true)
    (attributes : ∀ name, q name → isName name = true) :
    ∃ pieces, scan s = some pieces ∧ s = String.ofList (pieces.flatMap Piece.write) ∧
      Balanced pieces ∧ ∀ piece ∈ pieces, piece.HasNames p q := by
  obtain ⟨pieces, written, balanced, names⟩ := spells
  have same : s = String.ofList (pieces.flatMap Piece.write) := by
    rw [← written, String.ofList_toList]
  refine ⟨pieces, ?_, same, balanced, names⟩
  rw [same]
  refine scan_write fun piece member => ?_
  have known := names piece member
  cases piece with
  | opening name listed =>
    exact ⟨elements name known.1, fun a inside => attributes a.1 (known.2 a inside)⟩
  | closing name => exact elements name known
  | char c => trivial

end TexFormula.Xml

namespace TexFormula.Node

open Xml (Spells spells_nil spells_escaped)

variable {p q : String → Prop}

theorem spells_render (style : q "style") {n : Node} (names : n.Everywhere (HasNames p q)) :
    Spells p q n.render.toList := by
  by_cases written : n.isWritten = true
  · exact ⟨n.normal.pieces, toList_render written, Xml.balanced_pieces _,
      hasNames_pieces style written names⟩
  · obtain ⟨tag, text, attributes, css, marks, children, token, option⟩ := n
    rw [render, if_neg written]
    exact spells_nil

theorem toList_pushn (s : String) (c : Char) (n : Nat) :
    (s.pushn c n).toList = s.toList ++ List.replicate n c := by
  induction n with
  | zero => simp [String.pushn, Nat.repeat]
  | succ n ih =>
    simp only [String.pushn, Nat.repeat, String.toList_push] at ih ⊢
    rw [ih, List.append_assoc, List.replicate_succ']

/-- The blanks at the start of a line are content like any other. -/
theorem spells_indentation (depth : Nat) : Spells p q (indentation depth).toList := by
  have plain : (List.replicate (2 * depth) ' ').flatMap escapeChar =
      List.replicate (2 * depth) ' ' := by
    generalize 2 * depth = n
    induction n with
    | zero => rfl
    | succ n ih => exact congrArg (' ' :: ·) ih
  rw [indentation, toList_pushn, ← plain]
  exact spells_escaped _

theorem spells_newline : Spells p q "\n".toList :=
  spells_escaped ['\n']

mutual

theorem spells_renderPretty (style : q "style") (depth : Nat) {n : Node}
    (names : n.Everywhere (HasNames p q)) : Spells p q (n.renderPretty depth).toList := by
  obtain ⟨tag, text, attributes, css, marks, children, token, option⟩ := n
  rw [renderPretty]
  split
  case isTrue written =>
    have below : ∀ child ∈ children, child.Everywhere (HasNames p q) := names.children
    have inside : Spells p q (if emptyTags.contains tag = true then ""
        else if children.isEmpty then escape text
        else "\n" ++ renderPrettyAll (depth + 1) children ++ indentation depth).toList := by
      split
      · exact spells_nil
      · split
        · rw [escape, String.toList_ofList]
          exact spells_escaped _
        · rw [String.toList_append, String.toList_append]
          exact (spells_newline.append (spells_renderPrettyAll style (depth + 1) below)).append
            (spells_indentation depth)
    have element := inside.element (names.self.opening style written)
    rw [← toList_openTag, ← toList_closeTag] at element
    simp only [String.toList_append, List.append_assoc] at element ⊢
    exact (spells_indentation depth).append element
  case isFalse => exact spells_nil

theorem spells_renderPrettyAll (style : q "style") (depth : Nat) {ns : List Node}
    (names : ∀ n ∈ ns, n.Everywhere (HasNames p q)) :
    Spells p q (renderPrettyAll depth ns).toList := by
  cases ns with
  | nil => exact spells_nil
  | cons n rest =>
    obtain ⟨here, later⟩ := List.forall_mem_cons.mp names
    rw [renderPrettyAll, String.toList_append]
    refine Spells.append ?_ (spells_renderPrettyAll style depth later)
    split
    · rw [String.toList_append]
      exact (spells_renderPretty style depth here).append spells_newline
    · exact spells_nil

end

/-- A tree is written in balanced pieces whose names are those of its nodes, on one line or on many.
-/
theorem spells_toXml (style : q "style") (pretty : Bool) {n : Node}
    (names : n.Everywhere (HasNames p q)) : Spells p q (n.toXml pretty).toList := by
  cases pretty with
  | true => exact spells_renderPretty style 0 names
  | false => exact spells_render style names

end TexFormula.Node
