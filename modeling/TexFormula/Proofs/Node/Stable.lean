import TexFormula.Document.Session
import TexFormula.Node
import TexFormula.Node.Letterform
import TexFormula.Proofs.Node.Everywhere

/-! Nodes that commands build. Commands give nodes names and attributes of the vocabulary and marks
of their own, and put nodes together to larger ones; they do nothing else, whatever texts they are
given. What is not disturbed by that holds of every node that a command builds, as long as it holds
of the nodes that the command was given. It is proved here once for all such properties. -/

/-! ### Nodes -/

namespace TexFormula

/-- Whether a node is to be put together with its neighbours: it is a script of the node before it,
or the second operand of a fraction. -/
def Marks.isPending (m : Marks) : Bool :=
  m.isScript || m.isOperand

theorem Marks.isPending_union (a b : Marks) :
    (a.union b).isPending = (a.isPending || b.isPending) := by
  simp only [isPending, isScript, isOperand, union]
  ac_rfl

namespace Node

/-- Whether a node is another one with harmless changes: it has the same name or one of the
vocabulary, its attributes are the old ones or of the vocabulary, and it is neither shown nor put
together with its neighbours where the other one is not. -/
structure Alters (n m : Node) : Prop where
  tag : m.tag = n.tag ∨ m.tag ∈ elementNames
  attributes : ∀ a ∈ m.attributes.entries, a ∈ n.attributes.entries ∨ a.1 ∈ attributeNames
  hidden : n.marks.hidden = true → m.marks.hidden = true
  pending : n.marks.isPending = false → m.marks.isPending = false

/-- A property of nodes that harmless changes do not disturb. It holds of an empty node, and of a
hidden one whatever its name is. -/
class Stable (A : Node → Prop) : Prop where
  empty : A {}
  hidden : ∀ n : Node, n.marks.hidden = true → n.attributes = .empty → A n
  altered : ∀ n m, Alters n m → A n → A m

instance : Stable InVocabulary where
  empty := ⟨.inr (.inl rfl), fun _ member => nomatch member⟩
  hidden n hidden bare := ⟨.inl hidden, fun a member => by
    rw [bare] at member
    cases member⟩
  altered n m alters known := by
    refine ⟨?_, fun a member => ?_⟩
    · rcases alters.tag with same | listed
      · rw [same]
        exact known.tag.imp_left alters.hidden
      · exact .inr (.inr listed)
    · exact (alters.attributes a member).elim (known.attributes a) id

variable {A : Node → Prop} [Stable A]

/-! ### Nodes that are made anew -/

/-- A node without attributes and with no mark that concerns its neighbours. -/
theorem stable_of_bare {n : Node} (known : n.tag = "" ∨ n.tag ∈ elementNames)
    (bare : n.attributes = .empty) (plain : n.marks.isPending = false)
    (children : ∀ child ∈ n.children, child.Everywhere A) : n.Everywhere A := by
  refine .node (Stable.altered {} n ⟨known, fun a member => ?_, ?_, fun _ => plain⟩ Stable.empty)
    children
  · rw [bare] at member
    cases member
  · exact fun hidden => nomatch hidden

theorem stable_element (tag : String) (known : tag ∈ elementNames) :
    (element tag).Everywhere A :=
  stable_of_bare (.inr known) rfl rfl fun _ child => nomatch child

theorem stable_leaf (tag text : String) (known : tag ∈ elementNames) :
    (leaf tag text).Everywhere A :=
  stable_of_bare (.inr known) rfl rfl fun _ child => nomatch child

theorem stable_branch (tag : String) {children : List Node}
    (holds : ∀ child ∈ children, child.Everywhere A) (known : tag ∈ elementNames) :
    (branch tag children).Everywhere A :=
  stable_of_bare (.inr known) rfl rfl holds

theorem stable_one (tag : String) {child : Node} (holds : child.Everywhere A)
    (known : tag ∈ elementNames) : (branch tag [child]).Everywhere A :=
  stable_branch _ (List.forall_mem_singleton.mpr holds) known

theorem stable_two (tag : String) {first second : Node} (one : first.Everywhere A)
    (other : second.Everywhere A) (known : tag ∈ elementNames) :
    (branch tag [first, second]).Everywhere A :=
  stable_branch _ (List.forall_mem_cons.mpr ⟨one, List.forall_mem_singleton.mpr other⟩) known

theorem stable_row {children : List Node} (holds : ∀ child ∈ children, child.Everywhere A) :
    (row children).Everywhere A :=
  stable_branch _ holds (by decide)

theorem stable_placeholder : placeholder.Everywhere A :=
  .node (Stable.hidden _ rfl rfl) fun _ child => nomatch child

theorem stable_default : (default : Node).Everywhere A :=
  .node Stable.empty fun _ child => nomatch child

/-! ### Nodes that are made from others -/

/-- What is neither name, attribute nor child of a node can change, as long as a hidden node stays
hidden and a node without marks for its neighbours gets none. -/
theorem Everywhere.of_same {n m : Node} (holds : n.Everywhere A) (tag : m.tag = n.tag)
    (attributes : m.attributes = n.attributes) (children : m.children = n.children)
    (hidden : n.marks.hidden = true → m.marks.hidden = true)
    (pending : n.marks.isPending = false → m.marks.isPending = false) : m.Everywhere A := by
  refine .node (Stable.altered n m ⟨.inl tag, fun a member => ?_, hidden, pending⟩ holds.self) ?_
  · rw [attributes] at member
    exact .inl member
  · rw [children]
    exact holds.children

theorem Everywhere.withChildren {n : Node} (holds : n.Everywhere A) {children : List Node}
    (given : ∀ child ∈ children, child.Everywhere A) : { n with children }.Everywhere A :=
  .node (Stable.altered n _ ⟨.inl rfl, fun _ => .inl, id, id⟩ holds.self) given

theorem Everywhere.withTag {n : Node} (holds : n.Everywhere A) {tag : String}
    (known : tag ∈ elementNames) : { n with tag }.Everywhere A :=
  .node (Stable.altered n _ ⟨.inr known, fun _ => .inl, id, id⟩ holds.self) holds.children

theorem Everywhere.append {n : Node} (holds : n.Everywhere A) {children : List Node}
    (given : ∀ child ∈ children, child.Everywhere A) : (n.append children).Everywhere A :=
  holds.withChildren fun child member =>
    (List.mem_append.mp member).elim (holds.children child) (given child)

theorem Everywhere.setAttribute {n : Node} (holds : n.Everywhere A) (name value : String)
    (known : name ∈ attributeNames) : (n.setAttribute name value).Everywhere A := by
  refine .node (Stable.altered n _ ⟨.inl rfl, fun a member => ?_, id, id⟩ holds.self)
    holds.children
  rcases Dictionary.mem_insertEntry member with new | old
  · exact .inr (new ▸ known)
  · exact .inl old

theorem Everywhere.setAttributes {n : Node} (holds : n.Everywhere A)
    (entries : List (String × String))
    (known : ∀ entry ∈ entries, entry.1 ∈ attributeNames) :
    (n.setAttributes entries).Everywhere A := by
  induction entries generalizing n with
  | nil => exact holds
  | cons entry rest ih =>
    have first := holds.setAttribute _ entry.2 (known entry List.mem_cons_self)
    exact ih first fun later member => known later (List.mem_cons_of_mem _ member)

theorem Everywhere.eraseAttribute {n : Node} (holds : n.Everywhere A) (name : String) :
    (n.eraseAttribute name).Everywhere A :=
  .node (Stable.altered n _ ⟨.inl rfl, fun _ member => .inl (List.mem_filter.mp member).1, id, id⟩
    holds.self) holds.children

theorem Everywhere.setCss {n : Node} (holds : n.Everywhere A) (name value : String) :
    (n.setCss name value).Everywhere A :=
  holds.of_same rfl rfl rfl id id

theorem Everywhere.fromToken {n : Node} (holds : n.Everywhere A) (t : Token) :
    (n.fromToken t).Everywhere A :=
  holds.of_same rfl rfl rfl id id

/-- Marks that do not concern the neighbours of a node. -/
theorem Everywhere.mark {n : Node} (holds : n.Everywhere A) {marks : Marks}
    (plain : marks.isPending = false) : (n.mark marks).Everywhere A := by
  refine holds.of_same rfl rfl rfl (fun hidden => ?_) fun before => ?_
  · simp [Node.mark, Marks.union, hidden]
  · rw [Node.mark, Marks.isPending_union, before, plain]
    rfl

/-- An attribute that is set on a condition. -/
theorem Everywhere.setAttributeIf {n : Node} (holds : n.Everywhere A) (name value : String)
    (condition : Prop) [Decidable condition] (known : name ∈ attributeNames) :
    (if condition then n.setAttribute name value else n).Everywhere A :=
  everywhere_ite (fun _ => holds.setAttribute _ value known) fun _ => holds

theorem Everywhere.reflectMarks {n : Node} (holds : n.Everywhere A) :
    n.reflectMarks.Everywhere A := by
  unfold Node.reflectMarks
  refine .setAttributeIf ?_ _ _ _ (by decide)
  refine .setAttributeIf ?_ _ _ _ (by decide)
  exact holds.setAttributeIf _ _ _ (by decide)

theorem Everywhere.withSelector {n : Node} (holds : n.Everywhere A) (selector : Char) :
    (n.withSelector selector).Everywhere A :=
  holds.of_same rfl rfl rfl id id

theorem Everywhere.applyVariant {n : Node} (holds : n.Everywhere A) (v : Variant) :
    (n.applyVariant v).Everywhere A := by
  unfold Node.applyVariant
  cases v.name? with
  | none => exact holds
  | some name =>
    have named := holds.setAttribute "mathvariant" name (by decide)
    have classed := named.setAttributeIf "class" "calligraphic" (v = { chancery := true })
      (by decide)
    cases v.selector? with
    | none => exact classed
    | some selector => exact classed.withSelector selector

theorem Everywhere.finish {n : Node} (holds : n.Everywhere A) (t : Token) (c : Context) :
    (n.finish t c).Everywhere A := by
  have made := holds.fromToken t
  exact (everywhere_ite (fun _ => made.applyVariant c.variant) fun _ => made).reflectMarks

/-! ### Nodes of one token -/

theorem stable_error (text title : String) : (error text title).Everywhere A :=
  (stable_leaf "merror" text (by decide)).setAttribute "title" title (by decide)

theorem stable_fence (text : String) : (fence text).Everywhere A :=
  (stable_leaf _ text (by decide)).setAttributes _ (by decide)

theorem stable_fraction (f : Fraction) {upper lower : Node} (above : upper.Everywhere A)
    (below : lower.Everywhere A) : (f.node upper lower).Everywhere A := by
  have lined : (branch "mfrac" [upper, lower]).Everywhere A :=
    stable_two _ above below (by decide)
  have unlined := lined.setAttribute "linethickness" "0" (by decide)
  have binomial : (row [fence "(", (branch "mfrac" [upper, lower]).setAttribute "linethickness" "0",
      fence ")"]).Everywhere A :=
    stable_row fun child member => by
      simp only [List.mem_cons, List.not_mem_nil, or_false] at member
      rcases member with same | same | same
      · exact same ▸ stable_fence "("
      · exact same ▸ unlined
      · exact same ▸ stable_fence ")"
  cases f with
  | plain => exact lined
  | displayed => exact lined.setAttribute "displaystyle" "true" (by decide)
  | inlined => exact lined.setAttribute "displaystyle" "false" (by decide)
  | unlined => exact unlined
  | binomial => exact binomial
  | inlinedBinomial => exact binomial.setAttribute "displaystyle" "false" (by decide)

theorem stable_ofPlain (t : Token) (c : Context) : (ofPlain t c).Everywhere A := by
  have known : plainTag t c ∈ elementNames := by
    unfold plainTag
    split
    · decide
    · split
      · decide
      · split <;> decide
  have made := (stable_leaf (A := A) _ (if isTie t then "\u00a0" else t.value) known).fromToken t
  exact everywhere_ite (fun _ => made.applyVariant c.variant) fun _ => made

theorem stable_delimiter {t : Token} {c : Context} {n : Node} (given : n ∈ delimiter? t c) :
    n.Everywhere A := by
  have made := (stable_leaf (A := A) "mo" (delimiterText t) (by decide)).fromToken t
  have fenced := made.setAttributes [("fence", "true"), ("stretchy", "true")] (by decide)
  unfold delimiter? at given
  split at given
  · cases given
  · cases given
    refine everywhere_ite (fun _ => Everywhere.applyVariant ?_ _) fun _ => ?_
    all_goals
      refine everywhere_ite (fun _ => fenced.setAttributeIf _ _ _ (by decide)) fun _ => ?_
      refine everywhere_ite (fun _ => ?_) fun _ => ?_
      · exact made.setAttribute _ _ (by decide)
      · exact made.setAttribute _ _ (by decide)

theorem stable_ofSymbol {s : Symbol} (plain : s.marks.isPending = false) (t : Token)
    (c : Context) : (ofSymbol s t c).Everywhere A := by
  have known : symbolTag s t ∈ elementNames := by
    unfold symbolTag
    split
    · decide
    · split <;> decide
    · decide
  have marks : (symbolMarks s).isPending = false := by
    unfold symbolMarks
    split <;> exact plain
  have made := ((stable_leaf (A := A) _ s.glyph known).mark marks).fromToken t
  unfold ofSymbol
  exact ((made.setAttributeIf _ _ _ (by decide)).applyVariant _).reflectMarks

theorem stable_ofIdentifier {marks : Marks} (plain : marks.isPending = false) (t : Token)
    (c : Context) : (ofIdentifier marks t c).Everywhere A := by
  have made := ((stable_element (A := A) "mi" (by decide)).mark plain).fromToken t
  have withText : ∀ text, { ((element "mi").mark marks).fromToken t with text }.Everywhere A :=
    fun text => made.of_same rfl rfl rfl id id
  unfold ofIdentifier
  refine (Everywhere.applyVariant ?_ c.variant).reflectMarks
  split
  · exact withText _
  · exact (withText _).setAttribute _ _ (by decide)

theorem stable_space (command length : String) : (space command length).Everywhere A := by
  unfold space
  cases Length.parse? length with
  | none => exact stable_error _ _
  | some width =>
    exact (stable_element _ (by decide)).setAttribute "width" width (by decide)

end Node

end TexFormula

/-! ### Documents

What a document puts around a formula: its number, its source and the element that holds it.
What is stable holds of all of that if it holds of the formula. -/

namespace TexFormula.Document

open Node (Stable attributeNames stable_leaf stable_one stable_two everywhere_ite)

variable {A : Node → Prop} [Stable A] {formula : Node}

theorem stable_numbered (n : Nat) (holds : formula.Everywhere A) :
    (numbered n formula).Everywhere A := by
  have label := stable_leaf (A := A) "mtext" ("(" ++ toString n ++ ")") (by decide)
  have cell : ∀ {content : Node}, content.Everywhere A →
      (Node.branch "mtd" [content]).Everywhere A := fun known => stable_one _ known (by decide)
  have row := stable_two "mlabeledtr" (cell label) (cell holds) (by decide)
  exact stable_one _ row (by decide)

theorem stable_annotated (source : String) (holds : formula.Everywhere A) :
    (annotated source formula).Everywhere A := by
  have annotation := (stable_leaf (A := A) "annotation" source (by decide)).setAttribute
    "encoding" "application/x-tex" (by decide)
  exact stable_two _ holds annotation (by decide)

theorem stable_whole (style : Style) (holds : formula.Everywhere A) :
    (whole style formula).Everywhere A := by
  have known : ∀ entry ∈ style.attributes, entry.1 ∈ attributeNames := by
    cases style <;> decide
  exact (stable_one "math" holds (by decide)).setAttributes _ known

theorem stable_annotate (d : Document) (source : String) (holds : formula.Everywhere A) :
    (d.annotate source formula).Everywhere A :=
  everywhere_ite (fun _ => stable_annotated source holds) fun _ => holds

theorem stable_number (d : Document) (style : Style) (holds : formula.Everywhere A) :
    (d.number style formula).1.Everywhere A := by
  unfold number
  split
  · exact stable_numbered _ holds
  · exact holds

end TexFormula.Document
