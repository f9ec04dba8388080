import TexFormula.Proofs.Node.Stable

/-! The shape of elements. Some elements take a fixed number of children, and what a table consists
of is fixed as well. What else is asked of children is left open (`Fit`): it may be asked of all of
them, or only of those that are counted. A node of which all this holds can be put into every
element (`Solid`). What a command makes is no child yet (`Made`), and a node that is not written can
only stand in a row (`Usable`). -/
namespace TexFormula.Node

/-- The number of children of the elements that have a fixed one. -/
def arity? (tag : String) : Option Nat :=
  if ["msub", "msup", "munder", "mover", "mfrac", "mroot"].contains tag then some 2
  else if ["msubsup", "munderover"].contains tag then some 3
  else none

/-- The elements that are made of certain children. -/
def framedTags : List String :=
  ["msub", "msup", "munder", "mover", "mfrac", "mroot", "msubsup", "munderover", "mtable", "mtr",
   "mlabeledtr"]

/-- Whether an element is written and can have any children. -/
def IsFree (tag : String) : Prop :=
  tag ≠ "" ∧ tag ∉ framedTags

instance (tag : String) : Decidable (IsFree tag) :=
  inferInstanceAs (Decidable (_ ∧ _))

/-- The characters of a source that are written as other ones. -/
def sourceCharacters : List String := ["-", "'", "’"]

/-- Whether a node is no operator with such a character. -/
def IsPlain (n : Node) : Prop :=
  n.tag = "mo" → n.text ∉ sourceCharacters

instance (n : Node) : Decidable n.IsPlain :=
  inferInstanceAs (Decidable (_ → _))

/-- What is asked of the nodes that elements are built from. It holds of all nodes whose texts
commands choose, and attributes do not matter for it. -/
structure Fit where
  /-- What is asked of every child. -/
  inside : Node → Prop
  /-- What is asked of the children of elements that have a fixed number of them. -/
  part : Node → Prop
  inside_of_plain : ∀ {n}, n.IsPlain → inside n
  inside_congr : ∀ {n m : Node}, m.tag = n.tag → m.text = n.text → m.token = n.token →
    m.marks = n.marks → inside n → inside m
  part_of_written : ∀ {n}, n.isWritten = true → part n
  part_congr : ∀ {n m : Node}, m.tag = n.tag → m.marks.hidden = n.marks.hidden → part n → part m

/-- A node that has as many children as its name says, all of them as it is asked for, and a table
of rows of cells. -/
structure Shaped (F : Fit) (n : Node) : Prop where
  parts : ∀ k ∈ arity? n.tag, n.children.length = k ∧ ∀ child ∈ n.children, F.part child
  inside : ∀ child ∈ n.children, F.inside child
  rows : n.tag = "mtable" → ∀ child ∈ n.children, child.isWritten = true →
    child.tag = "mtr" ∨ child.tag = "mlabeledtr"
  cells : n.tag = "mtr" ∨ n.tag = "mlabeledtr" → ∀ child ∈ n.children, child.isWritten = true →
    child.tag = "mtd"

/-- A node that can be a child of an element of any children. -/
structure Inner (F : Fit) (n : Node) : Prop where
  inside : F.inside n
  shaped : n.Everywhere (Shaped F)

/-- A node as commands make it. -/
structure Made (F : Fit) (n : Node) : Prop where
  part : F.part n
  shaped : n.Everywhere (Shaped F)

/-- A node that can be put into every element. -/
structure Solid (F : Fit) (n : Node) : Prop extends Inner F n, Made F n

/-- Whether a node that is not written is passed over, wherever it stands in a row: it is hidden, or
it ends a cell or a row and no mark takes it for a part of something else. -/
structure PassedOver (n : Node) : Prop where
  other : n.marks.horizontalArrow = false
  idle : n.marks.hidden = true ∨ n.marks.isBreak = true ∧ n.marks.isPending = false

/-- A node that can come into a row with marks for its neighbours: it is written, or hidden. -/
structure Placed (F : Fit) (n : Node) : Prop where
  role : F.part n ∨ n.marks.hidden = true ∧ n.marks.horizontalArrow = false
  shaped : n.Everywhere (Shaped F)

/-- A node that can stand in a row. -/
structure Usable (F : Fit) (n : Node) : Prop where
  role : F.part n ∨ n.PassedOver
  shaped : n.Everywhere (Shaped F)

/-- A node of a row that was put together. -/
structure Arranged (F : Fit) (n : Node) : Prop extends Usable F n, Inner F n

/-- A node with the same name, marks and children as another one. -/
structure Resembles (n m : Node) : Prop where
  tag : m.tag = n.tag
  marks : m.marks = n.marks
  children : m.children = n.children

/-- Marks for the node behind a script mark or an operator between two operands. -/
structure ForNext (marks : Marks) : Prop where
  visible : marks.hidden = false
  other : marks.horizontalArrow = false

variable {F : Fit} {n m : Node} {children : List Node} {tag : String}

/-! ### Plain nodes -/

theorem plain_of_tag (other : n.tag ≠ "mo") : n.IsPlain :=
  fun same => absurd same other

theorem plain_of_blank (blank : n.text = "") : n.IsPlain := by
  intro _
  rw [blank]
  decide

/-! ### Shapes -/

theorem arity?_of_free (free : IsFree tag) : arity? tag = none := by
  have other : ∀ tags : List String, (∀ name ∈ tags, name ∈ framedTags) →
      tags.contains tag = false := by
    intro tags known
    rw [Bool.eq_false_iff, Ne, List.contains_iff_mem]
    exact fun member => free.2 (known tag member)
  have two : ["msub", "msup", "munder", "mover", "mfrac", "mroot"].contains tag = false :=
    other _ (by decide)
  have three : ["msubsup", "munderover"].contains tag = false := other _ (by decide)
  unfold arity?
  rw [two, three]
  rfl

theorem shaped_of_free (free : IsFree n.tag) (below : ∀ child ∈ n.children, child.Inner F) :
    n.Everywhere (Shaped F) := by
  refine .node ⟨fun k given => ?_, fun child member => (below child member).inside,
    fun table => ?_, fun row => ?_⟩ fun child member => (below child member).shaped
  · rw [arity?_of_free free] at given
    cases given
  · rw [table] at free
    exact absurd free (by decide)
  · rcases row with plain | labeled
    · rw [plain] at free
      exact absurd free (by decide)
    · rw [labeled] at free
      exact absurd free (by decide)

/-- The node of a break has no name and no children. -/
theorem shaped_of_nameless (nameless : n.tag = "") (bare : n.children = []) :
    n.Everywhere (Shaped F) := by
  refine .node ⟨fun k given => ?_, ?_, ?_, ?_⟩ ?_
  · rw [nameless] at given
    cases given
  all_goals
    rw [bare]
    first
      | exact List.forall_mem_nil _
      | exact fun _ => List.forall_mem_nil _

theorem isWritten_of_free (free : IsFree n.tag) (visible : n.marks.hidden = false) :
    n.isWritten = true := by
  simp [isWritten, visible, free.1]

theorem Made.placed (made : n.Made F) : n.Placed F :=
  ⟨.inl made.part, made.shaped⟩

theorem Made.usable (made : n.Made F) : n.Usable F :=
  ⟨.inl made.part, made.shaped⟩

theorem Inner.plain (shaped : n.Everywhere (Shaped F)) (plain : n.IsPlain) : n.Inner F :=
  ⟨F.inside_of_plain plain, shaped⟩

theorem Made.solid (made : n.Made F) (plain : n.IsPlain) : n.Solid F :=
  ⟨.plain made.shaped plain, made.part⟩

/-- What is asked of children holds everywhere in a node that can be a child itself. -/
theorem Inner.everywhere (inner : n.Inner F) : n.Everywhere F.inside := by
  obtain ⟨inside, shaped⟩ := inner
  induction shaped with
  | node here below ih =>
    exact .node inside fun child member => ih child member (here.inside child member)

theorem made_of_free (free : IsFree n.tag) (visible : n.marks.hidden = false)
    (below : ∀ child ∈ n.children, child.Inner F) : n.Made F :=
  ⟨F.part_of_written (isWritten_of_free free visible), shaped_of_free free below⟩

theorem made_leaf (tag text : String) (free : IsFree tag) : (leaf tag text).Made F :=
  made_of_free free rfl (List.forall_mem_nil _)

theorem solid_leaf (tag text : String) (free : IsFree tag) (plain : (leaf tag text).IsPlain) :
    (leaf tag text).Solid F :=
  (made_leaf tag text free).solid plain

theorem solid_element (tag : String) (free : IsFree tag) : (element tag).Solid F :=
  solid_leaf tag "" free (plain_of_blank rfl)

theorem solid_branch (tag : String) (below : ∀ child ∈ children, child.Inner F)
    (free : IsFree tag) : (branch tag children).Solid F :=
  (made_of_free free rfl below).solid (plain_of_blank rfl)

theorem solid_row (below : ∀ child ∈ children, child.Inner F) : (row children).Solid F :=
  solid_branch "mrow" below (by decide)

/-- An element that has the number of children that it needs, all of which can be put into it. -/
theorem shaped_of_parts (count : arity? n.tag = some n.children.length)
    (parts : ∀ child ∈ n.children, child.Solid F) : n.Everywhere (Shaped F) := by
  have other : ∀ tag, arity? tag = none → n.tag ≠ tag := by
    rintro tag none same
    cases (same ▸ count).symm.trans none
  refine .node ⟨fun k given => ?_, fun child member => (parts child member).inside, ?_, ?_⟩
    fun child member => (parts child member).shaped
  · cases count.symm.trans given
    exact ⟨rfl, fun child member => (parts child member).part⟩
  · exact fun table => absurd table (other _ rfl)
  · exact fun row => (row.elim (other _ rfl) (other _ rfl)).elim

theorem solid_of_parts (count : arity? tag = some children.length)
    (parts : ∀ child ∈ children, child.Solid F) : (branch tag children).Solid F := by
  refine Made.solid ⟨F.part_of_written ?_, shaped_of_parts count parts⟩ (plain_of_blank rfl)
  have named : tag ≠ "" := by
    rintro rfl
    cases count
  simp [isWritten, branch, named]

theorem solid_two (tag : String) {first second : Node} (count : arity? tag = some 2)
    (one : first.Solid F) (other : second.Solid F) : (branch tag [first, second]).Solid F :=
  solid_of_parts count (List.forall_mem_cons.mpr ⟨one, List.forall_mem_singleton.mpr other⟩)

/-- The shape of a node does not depend on its marks. -/
theorem shaped_withMarks (shaped : n.Everywhere (Shaped F)) (marks : Marks) :
    { n with marks }.Everywhere (Shaped F) := by
  obtain ⟨parts, inside, rows, cells⟩ := shaped.self
  exact .node ⟨parts, inside, rows, cells⟩ shaped.children

/-! ### Nodes that resemble others -/

theorem resembles_self (n : Node) : n.Resembles n :=
  ⟨rfl, rfl, rfl⟩

theorem Resembles.trans {k : Node} (first : n.Resembles m) (second : m.Resembles k) :
    n.Resembles k :=
  ⟨second.tag.trans first.tag, second.marks.trans first.marks,
    second.children.trans first.children⟩

theorem resembles_ite {condition : Prop} [Decidable condition] {k : Node}
    (yes : n.Resembles m) (no : n.Resembles k) :
    n.Resembles (if condition then m else k) := by
  split
  · exact yes
  · exact no

theorem resembles_setAttributes (n : Node) (entries : List (String × String)) :
    n.Resembles (n.setAttributes entries) := by
  induction entries generalizing n with
  | nil => exact resembles_self n
  | cons entry rest ih =>
    have first : n.Resembles (n.setAttribute entry.1 entry.2) := ⟨rfl, rfl, rfl⟩
    exact first.trans (ih _)

theorem resembles_applyVariant (n : Node) (v : Variant) : n.Resembles (n.applyVariant v) := by
  unfold applyVariant
  split
  · exact resembles_self n
  · simp only
    have classed : ∀ name : String, n.Resembles (if v = { chancery := true } then
        (n.setAttribute "mathvariant" name).setAttribute "class" "calligraphic"
        else n.setAttribute "mathvariant" name) := fun name =>
      resembles_ite ⟨rfl, rfl, rfl⟩ ⟨rfl, rfl, rfl⟩
    split
    · exact classed _
    · exact (classed _).trans ⟨rfl, rfl, rfl⟩

theorem resembles_reflectMarks (n : Node) : n.Resembles n.reflectMarks := by
  have set : ∀ (m : Node) (name : String) (condition : Prop) [Decidable condition],
      m.Resembles (if condition then m.setAttribute name "true" else m) :=
    fun m name condition _ => resembles_ite ⟨rfl, rfl, rfl⟩ (resembles_self m)
  exact ((set n _ _).trans (set _ _ _)).trans (set _ _ _)

theorem resembles_finish (n : Node) (t : Token) (c : Context) : n.Resembles (n.finish t c) := by
  have made : n.Resembles (n.fromToken t) := ⟨rfl, rfl, rfl⟩
  unfold finish
  exact (made.trans (resembles_ite (resembles_applyVariant _ _) (resembles_self _))).trans
    (resembles_reflectMarks _)

namespace Resembles

variable (resembles : n.Resembles m)
include resembles

theorem part (part : F.part n) : F.part m :=
  F.part_congr resembles.tag (congrArg Marks.hidden resembles.marks) part

theorem shaped (shaped : n.Everywhere (Shaped F)) : m.Everywhere (Shaped F) := by
  obtain ⟨tag, -, children⟩ := resembles
  obtain ⟨parts, inside, rows, cells⟩ := shaped.self
  rw [← tag, ← children] at parts rows cells
  rw [← children] at inside
  exact .node ⟨parts, inside, rows, cells⟩ (children ▸ shaped.children)

theorem passedOver (passed : n.PassedOver) : m.PassedOver := by
  obtain ⟨other, idle⟩ := passed
  rw [← resembles.marks] at other idle
  exact ⟨other, idle⟩

theorem inner (text : m.text = n.text) (token : m.token = n.token) (inner : n.Inner F) :
    m.Inner F :=
  ⟨F.inside_congr resembles.tag text token resembles.marks inner.inside,
    resembles.shaped inner.shaped⟩

theorem made (made : n.Made F) : m.Made F :=
  ⟨resembles.part made.part, resembles.shaped made.shaped⟩

theorem solid (text : m.text = n.text) (token : m.token = n.token) (solid : n.Solid F) :
    m.Solid F :=
  ⟨resembles.inner text token solid.toInner, resembles.part solid.part⟩

theorem placed (placed : n.Placed F) : m.Placed F := by
  obtain ⟨role, shaped⟩ := placed
  rw [← resembles.marks] at role
  exact ⟨role.imp_left resembles.part, resembles.shaped shaped⟩

theorem usable (usable : n.Usable F) : m.Usable F :=
  ⟨usable.role.imp resembles.part resembles.passedOver, resembles.shaped usable.shaped⟩

theorem arranged (text : m.text = n.text) (token : m.token = n.token) (arranged : n.Arranged F) :
    m.Arranged F :=
  ⟨resembles.usable arranged.toUsable, (resembles.inner text token arranged.toInner).inside⟩

end Resembles

/-! ### What commands make -/

namespace Made

variable (made : n.Made F)
include made

theorem setAttribute (name value : String) : (n.setAttribute name value).Made F :=
  Resembles.made (n := n) ⟨rfl, rfl, rfl⟩ made

theorem setAttributes (entries : List (String × String)) : (n.setAttributes entries).Made F :=
  (resembles_setAttributes n entries).made made

theorem fromToken (t : Token) : (n.fromToken t).Made F :=
  Resembles.made (n := n) ⟨rfl, rfl, rfl⟩ made

theorem applyVariant (v : Variant) : (n.applyVariant v).Made F :=
  (resembles_applyVariant n v).made made

/-- Other marks than the one that hides a node. -/
theorem withMarks {marks : Marks} (visible : marks.hidden = n.marks.hidden) :
    { n with marks }.Made F :=
  ⟨F.part_congr (n := n) rfl visible made.part, shaped_withMarks made.shaped _⟩

theorem mark {marks : Marks} (visible : marks.hidden = false) : (n.mark marks).Made F :=
  made.withMarks (by simp [Marks.union, visible])

end Made

theorem made_ite {condition : Prop} [Decidable condition] (yes : n.Made F) (no : m.Made F) :
    (if condition then n else m).Made F := by
  split
  · exact yes
  · exact no

namespace Solid

variable (solid : n.Solid F)
include solid

theorem setAttribute (name value : String) : (n.setAttribute name value).Solid F :=
  Resembles.solid (n := n) ⟨rfl, rfl, rfl⟩ rfl rfl solid

theorem setAttributes (entries : List (String × String)) : (n.setAttributes entries).Solid F := by
  induction entries generalizing n with
  | nil => exact solid
  | cons entry rest ih => exact ih (solid.setAttribute _ _)

theorem setCss (name value : String) : (n.setCss name value).Solid F :=
  Resembles.solid (n := n) ⟨rfl, rfl, rfl⟩ rfl rfl solid

end Solid

theorem solid_ite {condition : Prop} [Decidable condition] (yes : n.Solid F) (no : m.Solid F) :
    (if condition then n else m).Solid F := by
  split
  · exact yes
  · exact no

/-! ### Nodes that are not written -/

/-- A written part of something is taken from a row only where it is written. -/
theorem Usable.made (usable : n.Usable F) (visible : n.marks.hidden = false)
    (taken : n.marks.isBreak = false ∨ n.marks.isPending = true) : n.Made F := by
  refine ⟨usable.role.resolve_right fun passed => ?_, usable.shaped⟩
  rcases passed.idle with hidden | ⟨ends, plain⟩
  · cases hidden.symm.trans visible
  · rcases taken with inside | pending
    · cases ends.symm.trans inside
    · cases pending.symm.trans plain

theorem Usable.made_of_arrow (usable : n.Usable F) (arrow : n.marks.horizontalArrow = true) :
    n.Made F := by
  refine ⟨usable.role.resolve_right fun passed => ?_, usable.shaped⟩
  cases arrow.symm.trans passed.other

theorem Arranged.solid_of_arrow (arranged : n.Arranged F)
    (arrow : n.marks.horizontalArrow = true) : n.Solid F :=
  ⟨arranged.toInner, (arranged.made_of_arrow arrow).part⟩

/-- Marks that only concern the neighbours of a node. -/
theorem PassedOver.withMarks (passed : n.PassedOver) {marks : Marks}
    (hidden : marks.hidden = n.marks.hidden) (ends : marks.isBreak = n.marks.isBreak)
    (arrow : marks.horizontalArrow = n.marks.horizontalArrow)
    (pending : marks.isPending = n.marks.isPending) : { n with marks }.PassedOver := by
  obtain ⟨other, idle⟩ := passed
  rw [← hidden, ← ends, ← pending] at idle
  exact ⟨arrow.trans other, idle⟩

theorem part_mark {marks : Marks} (next : ForNext marks) (part : F.part n) :
    F.part (n.mark marks) :=
  F.part_congr (n := n) rfl (by simp [Node.mark, Marks.union, next.visible]) part

theorem Placed.mark (placed : n.Placed F) {marks : Marks} (next : ForNext marks) :
    (n.mark marks).Usable F := by
  refine ⟨placed.role.imp (part_mark next) ?_, shaped_withMarks placed.shaped _⟩
  rintro ⟨hidden, other⟩
  refine ⟨?_, .inl ?_⟩
  · simp [Node.mark, Marks.union, other, next.other]
  · simp [Node.mark, Marks.union, hidden]

/-- A node that is not written takes marks only if it is hidden or nothing is asked of it. -/
theorem Usable.mark (usable : n.Usable F) {marks : Marks} (next : ForNext marks)
    (idle : F.part n ∨ n.marks.hidden = true ∨ marks.isPending = false) :
    (n.mark marks).Usable F := by
  refine ⟨?_, shaped_withMarks usable.shaped _⟩
  rcases usable.role with part | passed
  · exact .inl (part_mark next part)
  · have other : (n.marks.union marks).horizontalArrow = false := by
      simp [Marks.union, passed.other, next.other]
    rcases idle with part | hidden | plain
    · exact .inl (part_mark next part)
    · exact .inr ⟨other, .inl (by simp [Node.mark, Marks.union, hidden])⟩
    · refine .inr ⟨other, passed.idle.imp (fun hidden => ?_) fun ends => ⟨?_, ?_⟩⟩
      · simp [Node.mark, Marks.union, hidden]
      · have ends := ends.1
        simp only [Marks.isBreak, Bool.or_eq_true] at ends
        rcases ends with cell | row
        · simp [Node.mark, Marks.isBreak, Marks.union, cell]
        · simp [Node.mark, Marks.isBreak, Marks.union, row]
      · rw [Node.mark, Marks.isPending_union, ends.2, plain]
        rfl

theorem usable_placeholder : placeholder.Usable F :=
  ⟨.inr ⟨rfl, .inl rfl⟩, shaped_of_nameless rfl rfl⟩

/-! ### Nodes of one token -/

theorem made_error (text title : String) : (error text title).Made F :=
  (made_leaf "merror" text (by decide)).setAttribute "title" title

theorem solid_fence (text : String) (plain : (leaf "mo" text).IsPlain) : (fence text).Solid F :=
  (solid_leaf "mo" text (by decide) plain).setAttributes _

theorem solid_fraction (f : Fraction) {upper lower : Node} (above : upper.Solid F)
    (below : lower.Solid F) : (f.node upper lower).Solid F := by
  have lined : (branch "mfrac" [upper, lower]).Solid F := solid_two _ rfl above below
  have unlined := lined.setAttribute "linethickness" "0"
  have left : (fence "(").Solid F := solid_fence _ (by decide)
  have right : (fence ")").Solid F := solid_fence _ (by decide)
  have binomial : (row [fence "(", (branch "mfrac" [upper, lower]).setAttribute "linethickness" "0",
      fence ")"]).Solid F := by
    refine solid_row ?_
    simp only [List.forall_mem_cons]
    exact ⟨left.toInner, unlined.toInner, right.toInner, List.forall_mem_nil _⟩
  cases f with
  | plain => exact lined
  | displayed => exact lined.setAttribute _ _
  | inlined => exact lined.setAttribute _ _
  | unlined => exact unlined
  | binomial => exact binomial
  | inlinedBinomial => exact binomial.setAttribute _ _

theorem made_ofPlain (t : Token) (c : Context) : (ofPlain t c).Made F := by
  have free : IsFree (plainTag t c) := by
    unfold plainTag
    split
    · decide
    · split
      · decide
      · split <;> decide
  have made : ((leaf (plainTag t c) (if isTie t then "\u00a0" else t.value)).fromToken t).Made F :=
    (made_leaf _ _ free).fromToken t
  exact made_ite (made.applyVariant _) made

theorem made_delimiter {t : Token} {c : Context} (given : n ∈ delimiter? t c) : n.Made F := by
  have made : ((leaf "mo" (delimiterText t)).fromToken t).Made F :=
    (made_leaf "mo" (delimiterText t) (by decide)).fromToken t
  have fenced := made.setAttributes [("fence", "true"), ("stretchy", "true")]
  have dressed : (if t.kind.fence then
      let n := ((leaf "mo" (delimiterText t)).fromToken t).setAttributes
        [("fence", "true"), ("stretchy", "true")]
      if n.text == "|" then n.setAttribute "symmetric" "true" else n
    else if t.kind.escaped then
      ((leaf "mo" (delimiterText t)).fromToken t).setAttribute "stretchy" "true"
    else ((leaf "mo" (delimiterText t)).fromToken t).setAttribute "stretchy" "false").Made F :=
    made_ite (made_ite (fenced.setAttribute _ _) fenced)
      (made_ite (made.setAttribute _ _) (made.setAttribute _ _))
  unfold delimiter? at given
  split at given
  · cases given
  · cases given
    exact made_ite (dressed.applyVariant _) dressed

theorem made_ofSymbol {s : Symbol} (visible : s.marks.hidden = false) (t : Token) (c : Context) :
    (ofSymbol s t c).Made F := by
  have free : IsFree (symbolTag s t) := by
    unfold symbolTag
    split
    · decide
    · split <;> decide
    · decide
  have marks : (symbolMarks s).hidden = false := by
    unfold symbolMarks
    split <;> exact visible
  have made : (((leaf (symbolTag s t) s.glyph).mark (symbolMarks s)).fromToken t).Made F :=
    ((made_leaf _ s.glyph free).mark marks).fromToken t
  unfold ofSymbol
  exact (resembles_reflectMarks _).made
    ((made_ite (made.setAttribute _ _) made).applyVariant _)

/-- An identifier is written or hidden. -/
theorem placed_ofIdentifier {marks : Marks} (other : marks.horizontalArrow = false) (t : Token)
    (c : Context) : (ofIdentifier marks t c).Placed F := by
  have free : IsFree ((element "mi").mark marks).tag := (by decide : IsFree "mi")
  have made : ((element "mi").mark marks).Placed F := by
    refine ⟨?_, shaped_of_free free (List.forall_mem_nil _)⟩
    cases hidden : ((element "mi").mark marks).marks.hidden with
    | true => exact .inr ⟨rfl, other⟩
    | false => exact .inl (F.part_of_written (isWritten_of_free free hidden))
  unfold ofIdentifier
  refine ((Resembles.trans ?_ (resembles_applyVariant _ _)).trans
    (resembles_reflectMarks _)).placed made
  split <;> exact ⟨rfl, rfl, rfl⟩

theorem made_space (command length : String) : (space command length).Made F := by
  unfold space
  split
  · exact (solid_element _ (by decide)).toMade.setAttribute _ _
  · exact made_error _ _

/-! ### Written parts -/

/-- The node is written, if that is asked for. -/
def Shown (strict : Prop) (n : Node) : Prop :=
  strict → n.isWritten = true

/-- Parts of elements are written, if that is asked for. -/
def Fit.shown (strict : Prop) : Fit where
  inside _ := True
  part := Shown strict
  inside_of_plain _ := trivial
  inside_congr _ _ _ _ := id
  part_of_written written _ := written
  part_congr tag hidden shown asked := by
    rw [isWritten, tag, hidden]
    exact shown asked

/-- A node that has as many children as its name says, and a table of rows of cells. -/
structure Counted (n : Node) : Prop where
  parts : ∀ k ∈ arity? n.tag, n.children.length = k
  rows : n.tag = "mtable" → ∀ child ∈ n.children, child.isWritten = true →
    child.tag = "mtr" ∨ child.tag = "mlabeledtr"
  cells : n.tag = "mtr" ∨ n.tag = "mlabeledtr" → ∀ child ∈ n.children, child.isWritten = true →
    child.tag = "mtd"

/-- A node that is written with as many children as its name says, and a table of rows of cells.
Children that are not written do not count. -/
structure Proper (n : Node) : Prop where
  parts : ∀ k ∈ arity? n.tag, n.children.countP isWritten = k
  rows : n.tag = "mtable" → ∀ child ∈ n.children, child.isWritten = true →
    child.tag = "mtr" ∨ child.tag = "mlabeledtr"
  cells : n.tag = "mtr" ∨ n.tag = "mlabeledtr" → ∀ child ∈ n.children, child.isWritten = true →
    child.tag = "mtd"

theorem Shaped.counted (shaped : n.Shaped F) : n.Counted :=
  ⟨fun k given => (shaped.parts k given).1, shaped.rows, shaped.cells⟩

/-- Where all parts are written, all of them count. -/
theorem Shaped.proper (shaped : n.Shaped (.shown True)) : n.Proper where
  parts k given := by
    obtain ⟨length, shown⟩ := shaped.parts k given
    rw [← length, List.countP_eq_length]
    exact fun child member => shown child member trivial
  rows := shaped.rows
  cells := shaped.cells

end TexFormula.Node
