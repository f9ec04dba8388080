import TexFormula.Proofs.Node.Everywhere
import TexFormula.Proofs.Xml.Reading

/-! What a reader of XML finds in a node that was rendered: the node as it is meant to be written,
with nothing lost and nothing added (`decode_render`). -/

/-! ### Elements

Elements as they are put together from the pieces of a text. Every element is found again in its
own pieces (`ofPieces?_pieces`), in which each opening tag has its closing tag
(`balanced_pieces`). -/

namespace TexFormula.Xml

/-- An element. Its text is what stands in it beside its children. -/
structure Element where
  name : String
  attributes : List (String × String) := []
  text : String := ""
  children : List Element := []
deriving Repr

/-- Puts pieces into the innermost of the open elements until the outermost one is closed, which has
to happen at the last piece. -/
def build (inner : Element) (outer : List Element) : List Piece → Option Element
  | [] => none
  | .opening name attributes :: rest => build { name, attributes } (inner :: outer) rest
  | .char c :: rest => build { inner with text := inner.text.push c } outer rest
  | .closing name :: rest =>
    if name = inner.name then
      match outer with
      | [] => if rest = [] then some inner else none
      | next :: outer => build { next with children := next.children ++ [inner] } outer rest
    else none

/-- The element that pieces make up, if they are those of one element. -/
def Element.ofPieces? : List Piece → Option Element
  | .opening name attributes :: rest => build { name, attributes } [] rest
  | _ => none

/-- The element that a text is read as. -/
def decode (s : String) : Option Element :=
  (scan s).bind Element.ofPieces?

/-- Pieces in which each opening tag has its closing tag, and tags do not cross. -/
inductive Balanced : List Piece → Prop
  | nil : Balanced []
  | char (c : Char) {rest : List Piece} (after : Balanced rest) : Balanced (.char c :: rest)
  | element (name : String) (attributes : List (String × String)) {inside rest : List Piece}
      (within : Balanced inside) (after : Balanced rest) :
      Balanced (.opening name attributes :: inside ++ .closing name :: rest)

mutual

/-- The pieces of an element. -/
def Element.pieces : Element → List Piece
  | ⟨name, attributes, text, children⟩ =>
    .opening name attributes :: (text.toList.map .char ++ Element.piecesAll children)
      ++ [.closing name]

/-- The pieces of elements that follow one another. -/
def Element.piecesAll : List Element → List Piece
  | [] => []
  | e :: rest => e.pieces ++ Element.piecesAll rest

end

theorem build_chars (inner : Element) (outer : List Element) (cs : List Char)
    (rest : List Piece) :
    build inner outer (cs.map .char ++ rest) =
      build { inner with text := inner.text ++ String.ofList cs } outer rest := by
  induction cs generalizing inner with
  | nil =>
    cases inner
    simp
  | cons c cs ih =>
    have text : inner.text.push c ++ String.ofList cs =
        inner.text ++ String.ofList (c :: cs) := by
      apply String.toList_inj.mp
      simp
    rw [List.map_cons, List.cons_append, build, ih, text]

mutual

/-- The pieces of an element add it to the element they stand in. -/
theorem build_pieces (inner : Element) (outer : List Element) (e : Element) (rest : List Piece) :
    build inner outer (e.pieces ++ rest) =
      build { inner with children := inner.children ++ [e] } outer rest := by
  obtain ⟨name, attributes, text, children⟩ := e
  have shape : (Element.mk name attributes text children).pieces ++ rest =
      .opening name attributes ::
        (text.toList.map .char ++ (Element.piecesAll children ++ .closing name :: rest)) := by
    simp [Element.pieces]
  rw [shape, build, build_chars, build_piecesAll]
  simp [build]

theorem build_piecesAll (inner : Element) (outer : List Element) (es : List Element)
    (rest : List Piece) :
    build inner outer (Element.piecesAll es ++ rest) =
      build { inner with children := inner.children ++ es } outer rest := by
  cases es with
  | nil =>
    cases inner
    simp [Element.piecesAll]
  | cons e es =>
    rw [Element.piecesAll, List.append_assoc, build_pieces, build_piecesAll]
    simp

end

/-- An element is put together again from its pieces. -/
theorem ofPieces?_pieces (e : Element) : Element.ofPieces? e.pieces = some e := by
  obtain ⟨name, attributes, text, children⟩ := e
  have inside := build_chars { name, attributes } [] text.toList
    (Element.piecesAll children ++ [.closing name])
  simp only [Element.pieces, Element.ofPieces?, List.cons_append, List.append_assoc]
  rw [inside, build_piecesAll]
  simp [build]

theorem Balanced.append {front back : List Piece} (left : Balanced front) (right : Balanced back) :
    Balanced (front ++ back) := by
  induction left with
  | nil => exact right
  | char c after ih => exact .char c ih
  | element name attributes within after _ ih =>
    simpa using Balanced.element name attributes within ih

theorem balanced_chars (cs : List Char) : Balanced (cs.map .char) := by
  induction cs with
  | nil => exact .nil
  | cons c cs ih => exact .char c ih

mutual

theorem balanced_pieces (e : Element) : Balanced e.pieces := by
  obtain ⟨name, attributes, text, children⟩ := e
  exact .element name attributes ((balanced_chars _).append (balanced_piecesAll children)) .nil

theorem balanced_piecesAll (es : List Element) : Balanced (Element.piecesAll es) := by
  cases es with
  | nil => exact .nil
  | cons e es => exact (balanced_pieces e).append (balanced_piecesAll es)

end

end TexFormula.Xml

/-! ### Nodes -/

namespace TexFormula.Node

/-- Whether the names that a node is written with are names as XML has them. -/
def IsNamed : Node → Prop :=
  HasNames (Xml.isName · = true) (Xml.isName · = true)

/-- Style properties as one text. -/
def declarations (properties : List (String × String)) : String :=
  " ".intercalate (properties.map fun property => property.1 ++ ": " ++ property.2 ++ ";")

/-- The style attribute without the blanks around it, and the style properties after it. -/
def mergedStyle (n : Node) : Option String :=
  match n.attribute? "style", n.css.entries with
  | none, [] => none
  | some style, [] => some (Text.trim style)
  | none, properties => some (declarations properties)
  | some style, properties => some (Text.trim style ++ " " ++ declarations properties)

mutual

/-- The element that a node is written as. Nodes that are not written are left out, an element that
is written without content has none, and the text of a node with children does not count. -/
def normal : Node → Xml.Element
  | n@⟨tag, text, _, _, _, children, _, _⟩ =>
    { name := tag
      attributes := n.writtenAttributes
      text := if emptyTags.contains tag || !children.isEmpty then "" else text
      children := if emptyTags.contains tag then [] else normalAll children }

/-- The elements that nodes are written as. -/
def normalAll : List Node → List Xml.Element
  | [] => []
  | n :: rest => if n.isWritten then n.normal :: normalAll rest else normalAll rest

end

/-! ### Attributes -/

theorem style?_eq_mergedStyle (n : Node) : n.style? = n.mergedStyle := by
  unfold style? mergedStyle styleParts declarations
  cases n.attribute? "style" with
  | none => cases n.css.entries <;> rfl
  | some style =>
    cases n.css.entries with
    | nil => rfl
    | cons property properties => exact congrArg some String.intercalate_cons_cons

theorem lookup_writtenAttributes (n : Node) (name : String) :
    n.writtenAttributes.lookup name =
      if name = "style" then n.mergedStyle else n.attribute? name := by
  unfold writtenAttributes
  cases style : n.style? with
  | none =>
    have merged : n.mergedStyle = none := (style?_eq_mergedStyle n).symm.trans style
    by_cases same : name = "style"
    · have unset : n.attribute? "style" = none := by
        cases value : n.attribute? "style" with
        | none => rfl
        | some value => simp [style?, styleParts, *] at style
      rw [if_pos same, merged, same]
      exact unset
    · rw [if_neg same]
      rfl
  | some value =>
    have merged : n.mergedStyle = some value := (style?_eq_mergedStyle n).symm.trans style
    rw [merged]
    exact n.attributes.get?_insert "style" name value

theorem ascending_writtenAttributes (n : Node) :
    n.writtenAttributes.Pairwise (fun a b => a.1 < b.1) := by
  unfold writtenAttributes
  cases n.style? with
  | none => exact n.attributes.sorted
  | some style => exact (n.attributes.insert "style" style).sorted

theorem mem_writtenAttributes {n : Node} {a : String × String}
    (member : a ∈ n.writtenAttributes) : a.1 = "style" ∨ a ∈ n.attributes.entries := by
  unfold writtenAttributes at member
  cases style : n.style? with
  | none =>
    rw [style] at member
    exact .inr member
  | some style' =>
    rw [style] at member
    exact (Dictionary.mem_insertEntry member).imp (congrArg Prod.fst) id

/-! ### Rendering as writing pieces -/

theorem toList_openTag (n : Node) :
    n.openTag.toList = (Xml.Piece.opening n.tag n.writtenAttributes).write := by
  have each : ∀ a : String × String, (writeAttribute a).toList = Xml.writeAttribute a := by
    intro a
    simp [writeAttribute, Xml.writeAttribute, escapeAttribute]
  have attributes : (String.join (n.writtenAttributes.map writeAttribute)).toList =
      n.writtenAttributes.flatMap Xml.writeAttribute := by
    rw [String.toList_join, List.flatMap_map]
    exact congrArg (List.flatMap · n.writtenAttributes) (funext each)
  simp [openTag, Xml.Piece.write, attributes]

theorem toList_closeTag (n : Node) : n.closeTag.toList = (Xml.Piece.closing n.tag).write := by
  simp [closeTag, Xml.Piece.write]

theorem toList_escape (s : String) :
    (escape s).toList = (s.toList.map Xml.Piece.char).flatMap Xml.Piece.write := by
  rw [List.flatMap_map]
  simp [escape, Xml.Piece.write]

mutual

/-- Rendering a node is writing the pieces of the element it is written as. -/
theorem toList_render {n : Node} (written : n.isWritten = true) :
    n.render.toList = n.normal.pieces.flatMap Xml.Piece.write := by
  obtain ⟨tag, text, attributes, css, marks, children, token, option⟩ := n
  rw [render, if_pos written, normal, Xml.Element.pieces]
  simp only [String.toList_append, toList_openTag, toList_closeTag, List.flatMap_cons,
    List.flatMap_append, List.flatMap_nil, List.append_nil, List.append_assoc, List.cons_append]
  by_cases empty : emptyTags.contains tag = true
  · simp only [empty, if_true, Bool.true_or]
    rfl
  · simp only [empty, Bool.false_or, if_false, Bool.false_eq_true]
    cases children with
    | nil => simp [normalAll, Xml.Element.piecesAll, toList_escape]
    | cons child rest => simp [toList_renderAll]

theorem toList_renderAll (ns : List Node) :
    (renderAll ns).toList = (Xml.Element.piecesAll (normalAll ns)).flatMap Xml.Piece.write := by
  cases ns with
  | nil => simp [renderAll, normalAll, Xml.Element.piecesAll]
  | cons n rest =>
    rw [renderAll, normalAll, String.toList_append, toList_renderAll rest]
    by_cases written : n.isWritten = true
    · rw [toList_render written]
      simp [written, Xml.Element.piecesAll]
    · have skipped : n.render = "" := by
        obtain ⟨tag, text, attributes, css, marks, children, token, option⟩ := n
        simp [render, written]
      simp [written, skipped]

end

/-! ### Names -/

variable {p q : String → Prop}

theorem HasNames.opening (style : q "style") {n : Node} (written : n.isWritten = true)
    (names : n.HasNames p q) :
    (Xml.Piece.opening n.tag n.writtenAttributes).HasNames p q := by
  refine ⟨(names written).1, fun a member => ?_⟩
  rcases mem_writtenAttributes member with same | own
  · exact same ▸ style
  · exact (names written).2 a own

mutual

/-- The names in the pieces of a node are names of nodes and attributes in it. -/
theorem hasNames_pieces (style : q "style") {n : Node} (written : n.isWritten = true)
    (names : n.Everywhere (HasNames p q)) :
    ∀ piece ∈ n.normal.pieces, piece.HasNames p q := by
  obtain ⟨tag, text, attributes, css, marks, children, token, option⟩ := n
  intro piece member
  have opening := names.self.opening style written
  have below : ∀ child ∈ children, child.Everywhere (HasNames p q) := names.children
  rw [normal, Xml.Element.pieces] at member
  simp only [List.cons_append, List.mem_cons, List.mem_append, List.mem_map, List.not_mem_nil,
    or_false] at member
  rcases member with first | (⟨c, -, char⟩ | child) | last
  · exact first ▸ opening
  · exact char ▸ trivial
  · by_cases empty : emptyTags.contains tag = true
    · rw [if_pos empty] at child
      cases child
    · rw [if_neg empty] at child
      exact hasNames_piecesAll style below piece child
  · exact last ▸ opening.1

theorem hasNames_piecesAll (style : q "style") {ns : List Node}
    (names : ∀ n ∈ ns, n.Everywhere (HasNames p q)) :
    ∀ piece ∈ Xml.Element.piecesAll (normalAll ns), piece.HasNames p q := by
  intro piece member
  cases ns with
  | nil => cases member
  | cons n rest =>
    have later := hasNames_piecesAll style fun m there => names m (List.mem_cons_of_mem _ there)
    rw [normalAll] at member
    by_cases written : n.isWritten = true
    · rw [if_pos written, Xml.Element.piecesAll] at member
      rcases List.mem_append.mp member with first | other
      · exact hasNames_pieces style written (names n List.mem_cons_self) piece first
      · exact later piece other
    · rw [if_neg written] at member
      exact later piece member

end

/-! ### Reading what was rendered -/

theorem scan_render {n : Node} (written : n.isWritten = true) (named : n.Everywhere IsNamed) :
    Xml.scan n.render = some n.normal.pieces := by
  have style : Xml.isName "style" = true := by decide
  rw [← String.ofList_toList (s := n.render), toList_render written]
  exact Xml.scan_write (hasNames_pieces (q := (Xml.isName · = true)) style written named)

/-- A rendered node is read as the element it is meant to be, in which every tag is closed. The
attributes of that element stand in ascending order without repetition, each with the text it was
given, except that the style attribute and the style properties are one attribute. So nodes that are
meant to be different elements are rendered differently. -/
theorem decode_render (n : Node) (written : n.isWritten = true) (named : n.Everywhere IsNamed) :
    Xml.decode n.render = some n.normal ∧
      (∃ pieces, Xml.scan n.render = some pieces ∧ Xml.Balanced pieces) ∧
      (∀ m : Node, m.normal.attributes.Pairwise (fun a b => a.1 < b.1) ∧
        ∀ name, m.normal.attributes.lookup name =
          if name = "style" then m.mergedStyle else m.attribute? name) ∧
      ∀ m : Node, m.isWritten = true → m.Everywhere IsNamed → m.normal ≠ n.normal →
        m.render ≠ n.render := by
  have decodes : ∀ m : Node, m.isWritten = true → m.Everywhere IsNamed →
      Xml.decode m.render = some m.normal := by
    intro m written named
    rw [Xml.decode, scan_render written named, Option.bind_some, Xml.ofPieces?_pieces]
  refine ⟨decodes n written named, ⟨_, scan_render written named, Xml.balanced_pieces _⟩,
    fun m => ?_, fun m writtenToo namedToo different same => different ?_⟩
  · obtain ⟨tag, text, attributes, css, marks, children, token, option⟩ := m
    rw [normal]
    exact ⟨ascending_writtenAttributes _, lookup_writtenAttributes _⟩
  · have both := decodes m writtenToo namedToo
    rw [same, decodes n written named] at both
    exact (Option.some.inj both).symm

/-- A cell in which one child is hidden, one has no name, one is an element without content and one
has a text that has to be escaped. -/
def crowdedCell : Node :=
  { tag := "mtd"
    text := "not shown"
    attributes := .ofList [("title", "a \"b\" & c"), ("style", " color: red; "), ("id", "x")]
    css := .ofList [("text-align", "left")]
    children := [{ leaf "mi" "x" with marks := { hidden := true } }, leaf "" "y",
      leaf "mspace" "not shown", leaf "mo" "<"] }

theorem decode_render_crowdedCell :
    crowdedCell.isWritten = true ∧ crowdedCell.Everywhere IsNamed ∧
      Xml.decode crowdedCell.render = some
        { name := "mtd"
          attributes := [("id", "x"), ("style", "color: red; text-align: left;"),
            ("title", "a \"b\" & c")]
          children := [{ name := "mspace" }, { name := "mo", text := "<" }] } := by
  have leaves : ∀ child ∈ crowdedCell.children, child.Everywhere IsNamed := by
    intro child member
    simp only [crowdedCell, List.mem_cons, List.not_mem_nil, or_false] at member
    rcases member with same | same | same | same
    all_goals
      subst same
      refine .node (fun _ => ⟨?_, by simp [leaf, Dictionary.empty]⟩) (by simp [leaf])
    · decide
    · contradiction
    · decide
    · decide
  have named : crowdedCell.Everywhere IsNamed := .node (fun _ => by decide) leaves
  exact ⟨rfl, named, (decode_render crowdedCell rfl named).1⟩

end TexFormula.Node
