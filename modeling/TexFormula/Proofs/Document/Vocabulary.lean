import Mathlib
import TexFormula.Proofs.Document.Reading
import TexFormula.Proofs.Node.Stable
import TexFormula.Proofs.Formula.Invariant
import TexFormula.Proofs.Plan.Actions
import TexFormula.Proofs.Row.Passes
import TexFormula.Proofs.Xml.Markup

/-! What a formula is written with. Whatever a source says and whatever macros, options and style a
document has, only names from the vocabulary become markup, and texts of the source are content and
values (`markup_in_vocabulary`). -/

/-! ### Rows

Putting a row together keeps its nodes in the vocabulary (`standard_arrange`). The marks of a
node do not matter for that, so the passes that attach nodes to their bases keep the same property
as the others. -/

namespace TexFormula.Row

open Node

variable {nodes : List Node}

/-- A node without attributes is standard under every name of the vocabulary, whatever its marks
are. -/
theorem standard_of_tag {n : Node} (known : n.tag ∈ elementNames) (bare : n.attributes = .empty)
    (children : ∀ child ∈ n.children, child.Standard) : n.Standard :=
  .node ⟨.inr (.inr known), fun a member => by
    rw [bare] at member
    cases member⟩ children

theorem standard_of_marks {n : Node} (standard : n.Standard) {marks : Marks}
    (hidden : n.marks.hidden = true → marks.hidden = true) : { n with marks }.Standard :=
  .node ⟨standard.self.tag.imp_left hidden, standard.self.attributes⟩ standard.children

theorem standard_switchLimits (switch : Marks) {n : Node} (standard : n.Standard) :
    (switchLimits switch n).Standard := by
  have marked : { n with marks := { n.marks with
      stackedLimits := switch.limits, movableLimits := false } }.Standard :=
    standard_of_marks standard id
  exact everywhere_ite (fun _ => marked.setAttribute _ _ (by decide))
    fun _ => marked.eraseAttribute _

theorem standard_assemble {base : Node} {sub sup : Option Node} (standard : base.Standard)
    (below : ∀ n ∈ sub, n.Standard) (above : ∀ n ∈ sup, n.Standard) :
    (assemble base sub sup).Standard := by
  have known : scriptTag sub.isSome sup.isSome base.marks.stackedLimits ∈ elementNames := by
    unfold scriptTag
    split <;> decide
  have bare : { base with marks := base.marks.withoutOperand }.Standard :=
    standard_of_marks standard id
  refine standard_of_tag known rfl (List.forall_mem_cons.mpr ⟨bare, ?_⟩)
  refine List.forall_mem_append.mpr ⟨fun n member => ?_, fun n member => ?_⟩
  · exact below n (Option.mem_toList.mp member)
  · exact above n (Option.mem_toList.mp member)

theorem standard_attach {base script : Node} {partner : Option Node} (standard : base.Standard)
    (first : script.Standard) (second : ∀ n ∈ partner, n.Standard) :
    (attach base script partner).Standard := by
  have one : ∀ n ∈ some (unscripted script), n.Standard :=
    everywhere_some (standard_of_marks first id)
  have other : ∀ n ∈ partner.map unscripted, n.Standard :=
    Option.forall_mem_map.mpr fun m given => standard_of_marks (second m given) id
  exact everywhere_ite (fun _ => standard_assemble standard one other)
    fun _ => standard_assemble standard other one

theorem standard_arrange (standard : ∀ n ∈ nodes, n.Standard) :
    ∀ n ∈ arrange nodes, n.Standard := by
  have none := List.forall_mem_nil Node.Standard
  have switched := forall_applySwitches stable_placeholder
    (fun switch _ given => standard_switchLimits switch given) standard
  have scripted := forall_attachScriptsFrom stable_placeholder (stable_element _ (by decide))
    (fun _ given _ => given)
    (fun _ _ _ _ base script _ partner =>
      standard_attach base script fun n given => (partner n given).1)
    none switched
  have built := forall_buildFractionsFrom stable_placeholder
    (stable_row (List.forall_mem_nil _)) (fun _ given _ => given)
    (fun f _ _ _ upper lower _ => stable_fraction f upper (standard_of_marks lower id))
    none scripted
  exact stable_fixCharactersFrom none (stable_joinSpaces built)

/-! ### Drafts -/

theorem Draft.standard_resize (t : Token) {n : Node} (standard : n.Standard) :
    (resize t n).Standard := by
  have level : "scriptlevel" ∈ attributeNames := by decide
  have fixed : "stretchy" ∈ attributeNames := by decide
  exact everywhere_ite (fun _ => standard) fun _ => standard.setAttributes _
    (List.forall_mem_cons.mpr ⟨level, List.forall_mem_singleton.mpr fixed⟩)

theorem Draft.standard_add {d : Draft} (c : Context) (t : Token)
    (standard : ∀ n ∈ d.latest, n.Standard) {n : Node} (given : n.Standard) :
    ∀ m ∈ (d.add c t n).latest, m.Standard :=
  forall_add c t standard (fun _ _ last => last.of_same rfl rfl rfl id id)
    (standard_of_marks (standard_resize t given) fun hidden => by simp [Marks.union, hidden])

end TexFormula.Row

namespace TexFormula.Node

theorem Standard.arrange {n : Node} (standard : n.Standard) : n.arrange.Standard :=
  standard.withChildren (Row.standard_arrange standard.children)

end TexFormula.Node

/-! ### Formulas -/

namespace TexFormula

open Node (InVocabulary elementNames attributeNames stable_row stable_error everywhere_none
  everywhere_some everywhere_ite)

/-- All that is read is standard, whatever is to be read. -/
def Formula.vocabulary : Formula.Invariant where
  job := Job.Everywhere InVocabulary
  queue _ _ := True
  node := Node.Standard
  draft _ d := ∀ n ∈ d.latest, n.Standard
  scope _ := True

namespace Formula

theorem standard_finish {job : Job} (asked : job.Everywhere InVocabulary) {nodes : List Node}
    (standard : ∀ n ∈ nodes, n.Standard) : ∀ n ∈ job.finish nodes, n.Standard := by
  unfold Job.finish
  split
  case h_1 parent given =>
    have appended := (asked parent given).append standard
    have named : Node.Standard { parent.append nodes with
        tag := if parent.tag == "" then "mrow" else parent.tag } := by
      split
      · exact appended.withTag (by decide)
      · exact appended.of_same rfl rfl rfl id id
    exact everywhere_some (Node.Standard.arrange (named.of_same rfl rfl rfl id id))
  case h_2 =>
    split
    · exact everywhere_none
    case h_2 n => exact everywhere_some (standard n List.mem_cons_self)
    · have row := stable_row standard
      exact everywhere_some (Node.Standard.arrange (row.of_same rfl rfl rfl id id))

theorem allows_vocabulary {bound : Queue} (c : Context) (s : Scope) {step : Step bound}
    (standard : step.action.Everywhere InVocabulary) : vocabulary.Allows c s step := by
  refine ⟨trivial, ?_⟩
  cases action : step.action with
  | skip => trivial
  | promote marks => exact fun _ given => given
  | place nodes =>
    rw [action] at standard
    exact fun d given => Row.Draft.forall_place given standard
  | add plan =>
    rw [action] at standard
    exact standard
  | define name m => trivial
  | call name m => exact ⟨trivial, fun _ _ => Plan.stable_start everywhere_none⟩

theorem kept_vocabulary (o : Options) : vocabulary.Kept o where
  start _ := ⟨trivial, List.forall_mem_nil _⟩
  step _ _ := allows_vocabulary _ _ (Step.stable_ofExpr _ _ _ _ _)
  add given standard := Row.Draft.standard_add _ _ given standard
  blank := stable_row (List.forall_mem_nil _)
  refusal _ := stable_error _ _
  failure _ _ := stable_error _ _
  count _ := trivial
  finish asked given := standard_finish asked (Row.forall_reverse given)

/-- Every formula is read into standard nodes. -/
theorem standard_read (o : Options) (c : Context) (tokens : List Token) (s : Scope) :
    ∀ n ∈ (read o c tokens s).1, n.Standard :=
  ((kept_vocabulary o).readJob 0 (Plan.stable_start everywhere_none) trivial).1

end Formula

namespace Document

theorem standard_body {node : Option Node} (standard : ∀ n ∈ node, n.Standard) :
    (body node).Standard := by
  unfold body
  cases node with
  | none => exact stable_row (List.forall_mem_nil _)
  | some n =>
    have known := standard n rfl
    have row : (Node.row [n]).Standard := stable_row (List.forall_mem_singleton.mpr known)
    exact everywhere_ite (fun _ => known) fun _ => row.arrange

theorem standard_read {d after : Document} {source : String} {style : Style} {n : Node}
    (succeeds : d.read source style = .ok (n, after)) : n.Standard := by
  obtain ⟨tokens, expanded, -, -, same, -⟩ := read_eq_ok_iff.mp succeeds
  exact same ▸ standard_body (Formula.standard_read _ _ _ _)

/-- Whatever is rendered is a standard node. -/
theorem exists_standard {d : Document} {source : String} {style : Style} {xml : String}
    (rendered : (d.render source style).1 = .ok xml ∨ (d.renderBody source).1 = .ok xml) :
    ∃ (n : Node) (pretty : Bool), n.Standard ∧ xml = n.toXml pretty := by
  rcases rendered with whole | body
  · cases outcome : d.read source style with
    | error e =>
      rw [render_of_error outcome] at whole
      cases whole
    | ok result =>
      rw [render_of_ok outcome] at whole
      cases whole
      have numbered := stable_number result.2 style (standard_read outcome)
      exact ⟨_, _, stable_whole style (stable_annotate _ source numbered), rfl⟩
  · obtain ⟨formula, after, outcome, written⟩ := exists_read_of_renderBody body
    exact ⟨formula, _, standard_read outcome, written⟩

/-- Only names of the vocabulary become markup. For every document, source and style, a rendered
formula is a text in XML whose tags match, whose elements and attributes have names from the
vocabulary, and in which everything else is the content of an element or the value of an attribute,
written with references for what would look like markup. -/
theorem markup_in_vocabulary (d : Document) (source : String) (style : Style) {xml : String}
    (rendered : (d.render source style).1 = .ok xml ∨ (d.renderBody source).1 = .ok xml) :
    ∃ pieces, Xml.scan xml = some pieces ∧
      xml = String.ofList (pieces.flatMap Xml.Piece.write) ∧ Xml.Balanced pieces ∧
      ∀ piece ∈ pieces, piece.HasNames (· ∈ elementNames) (· ∈ attributeNames) := by
  obtain ⟨n, pretty, standard, same⟩ := exists_standard rendered
  have spells := Node.spells_toXml (q := (· ∈ attributeNames)) (by decide) pretty
    standard.hasNames
  rw [← same] at spells
  have elements : ∀ name ∈ elementNames, Xml.isName name = true := by decide
  have attributes : ∀ name ∈ attributeNames, Xml.isName name = true := by decide
  exact spells.scan elements attributes

/-- A macro whose body would close an attribute and open an element, if it were not escaped. -/
def hostile : Document :=
  ofMacros [("e", "\\class\x7b\"><b\x7d\x7b<\x7d")] {}

set_option maxRecDepth 2000 in
theorem markup_in_vocabulary_hostile :
    (hostile.renderBody "\\e").1 =
        .ok "<mrow><mo class=\"&quot;&gt;&lt;b\">&lt;</mo></mrow>" ∧
      ∃ pieces, Xml.scan "<mrow><mo class=\"&quot;&gt;&lt;b\">&lt;</mo></mrow>" = some pieces ∧
        "<mrow><mo class=\"&quot;&gt;&lt;b\">&lt;</mo></mrow>" =
          String.ofList (pieces.flatMap Xml.Piece.write) ∧ Xml.Balanced pieces ∧
        ∀ piece ∈ pieces, piece.HasNames (· ∈ elementNames) (· ∈ attributeNames) := by
  have rendered : (hostile.renderBody "\\e").1 =
      .ok "<mrow><mo class=\"&quot;&gt;&lt;b\">&lt;</mo></mrow>" := by cbv
  exact ⟨rendered, markup_in_vocabulary hostile "\\e" .inlined (.inr rendered)⟩

end Document

end TexFormula
