import Mathlib
import TexFormula.Proofs.Document.Shape
import TexFormula.Proofs.Formula.Shape

/-! The elements of a rendered formula. Scripts, fractions and roots have as many children as their
names say, and tables consist of rows of cells, in every formula that can be read
(`rendered_tree_proper`). But not every child is written: a switch that is all of an argument stands
for the argument and does not show (`switch_for_operand`). -/

/-! ### States

States in which no part gets lost. A row that ends with several nodes, or that is read into a
node, is written; a row of one node is not if that node is a switch or a break. This does no harm if
the node comes into another row, as that of a group or of a call does. As long as such a node goes
nowhere else (`Machine.Placing`), all parts of elements that are kept are written
(`sound_of_placing`). That elements have the right number of children does not depend on this. -/

namespace TexFormula.Formula

open Node (Fit Shown Usable IsFree Inner)

variable {strict : Prop}

/-- A written element of any children that has a node among them, with leaves beside it. -/
structure Frames (n m : Node) : Prop where
  free : IsFree m.tag
  visible : m.marks.hidden = false
  beside : ∀ child ∈ m.children, child = n ∨ IsFree child.tag ∧ child.children = []

/-- Whether a node that is not written can come into a row with the marks that wait there. -/
def Reading.Admits (r : Reading) (n : Node) : Prop :=
  n.marks.hidden = true ∨ r.draft.pending.isPending = false

/-- Whether a node that is given to what waits for it comes into the row behind, as it is or in an
element of any children. -/
def Waiting.Takes (n : Node) : Waiting → Prop
  | .part _ next r =>
    ∃ m, next (some n) = .done (some m) ∧ (n.Resembles m ∧ r.Admits n ∨ Frames n m)
  | .call _ r => r.Admits n

/-- A node that is handed on comes into the row in shape. -/
theorem Reading.InShape.usable_mark {r : Reading} {n : Node} (shaped : r.InShape (.shown strict))
    (usable : n.Usable (.shown strict)) (admits : r.Admits n) :
    (n.mark r.draft.pending).Usable (.shown strict) :=
  usable.mark shaped.pending (.inr admits)

theorem Frames.usable_mark {r : Reading} {n k : Node} (frames : Frames n k)
    (shaped : r.InShape (.shown strict)) (usable : n.Usable (.shown strict)) :
    (k.mark r.draft.pending).Usable (.shown strict) := by
  have made : k.Made (.shown strict) := by
    refine Node.made_of_free frames.free frames.visible fun child member => ⟨trivial, ?_⟩
    rcases frames.beside child member with same | ⟨free, bare⟩
    · exact same ▸ usable.shaped
    · refine Node.shaped_of_free free ?_
      rw [bare]
      exact List.forall_mem_nil _
  exact made.placed.mark shaped.pending

theorem Waiting.Takes.keeps {n : Node} {waiting : Waiting} (takes : waiting.Takes n) :
    waiting.Keeps (.shown strict) n := by
  cases waiting with
  | part t next r =>
    obtain ⟨m, given, into⟩ := takes
    refine ⟨m, given, fun row usable => ?_⟩
    rcases into with ⟨resembles, admits⟩ | frames
    · refine row.usable_mark (resembles.usable usable) ?_
      unfold Reading.Admits
      rw [resembles.marks]
      exact admits
    · exact frames.usable_mark row usable
  | call t r => exact fun row usable => row.usable_mark usable takes

namespace Machine

variable {m : Machine}

/-- Whether no node goes where it does not show although it has to: if a job ends with one that is
not written, it comes into a row. -/
def Placing (m : Machine) : Prop :=
  ∀ n, m.focus = .done (some n) → n.isWritten = false → ∀ first ∈ m.waiting.head?, first.Takes n

/-- A state in which no part gets lost is sound. Every state is if parts need not be written. -/
theorem sound_of_placing (placing : strict → m.Placing) : m.Sound (.shown strict) where
  row _ _ _ usable n member := ⟨Row.usable_arrange usable n member, trivial⟩
  fences _ _ _ _ _ := ⟨fun _ _ => trivial, fun _ _ => trivial⟩
  done n focus other first given := by
    have hidden : ¬ n.Shown strict := fun shown => other ⟨trivial, shown⟩
    simp only [Shown, Classical.not_imp, Bool.not_eq_true] at hidden
    exact (placing hidden.1 n focus hidden.2 first given).keeps

/-! ### A check -/

/-- A check for states in which no node gets lost. It takes one with children for lost, and knows of
no elements around it. -/
def isPlacing (m : Machine) : Bool :=
  match m.focus with
  | .done (some n) =>
    n.isWritten ||
      match m.waiting with
      | [] => true
      | .call _ r :: _ => n.marks.hidden || !r.draft.pending.isPending
      | .part _ next r :: _ =>
        (n.marks.hidden || !r.draft.pending.isPending) &&
        match next (some n) with
        | .done (some m) =>
          m.tag == n.tag && m.marks == n.marks && m.children.isEmpty && n.children.isEmpty
        | _ => false
  | _ => true

theorem placing_of_isPlacing (checked : m.isPlacing = true) : m.Placing := by
  intro n focus hidden
  unfold isPlacing at checked
  rw [focus] at checked
  simp only [hidden, Bool.false_or] at checked
  split at checked
  case h_1 whole =>
    rw [whole]
    rintro first ⟨⟩
  case h_2 t r others whole =>
    rw [whole]
    rintro first ⟨⟩
    simpa [Waiting.Takes, Reading.Admits] using checked
  case h_3 t next r others whole =>
    rw [whole]
    rintro first ⟨⟩
    obtain ⟨admits, same⟩ := Bool.and_eq_true_iff.mp checked
    split at same
    case h_1 k given =>
      simp only [Bool.and_eq_true, beq_iff_eq, List.isEmpty_iff] at same
      obtain ⟨⟨⟨tag, marks⟩, bare⟩, alone⟩ := same
      refine ⟨k, given, .inl ⟨⟨tag, marks, bare.trans alone.symm⟩, ?_⟩⟩
      simpa [Reading.Admits] using admits
    case h_2 => cases same

end Machine

end TexFormula.Formula

/-! ### Rendered formulas -/

namespace TexFormula.Document

open Formula (Machine)
open Node (Shaped Counted Proper)

variable {d after : Document} {source : String} {style : Style} {formula : Node}

/-- A formula that can be read is in shape, with all parts written if none gets lost. -/
theorem shaped_of_placing {strict : Prop} (succeeds : d.read source style = .ok (formula, after))
    (placing : strict → ∀ m, d.Reaches source style m → m.Placing) :
    formula.Everywhere (Shaped (.shown strict)) ∧
      (whole style (after.annotate source (after.number style formula).1)).Everywhere
        (Shaped (.shown strict)) := by
  obtain ⟨body, tree⟩ := inner_of_read succeeds
    (fun m reached => Machine.sound_of_placing fun asked => placing asked m reached)
    (fun _ _ _ _ _ usable child member => ⟨Row.usable_arrange
      (List.forall_mem_singleton.mpr usable) child member, trivial⟩)
  exact ⟨body.shaped, tree.shaped⟩

/-- In every formula that can be read, as it is rendered with and without the element around it, the
elements for scripts, fractions and roots have as many children as their names say, and tables
consist of rows of cells. All of these children are written if, in every state that reading the
formula comes to, a node that is not written and is all of a row comes into another row. -/
theorem rendered_tree_proper (succeeds : d.read source style = .ok (formula, after)) :
    let tree := whole style (after.annotate source (after.number style formula).1)
    (d.render source style).1 = .ok (tree.toXml after.options.pretty) ∧
      (style = .inlined → (d.renderBody source).1 = .ok (formula.toXml after.options.pretty)) ∧
      (formula.Everywhere Counted ∧ tree.Everywhere Counted) ∧
      ((∀ m, d.Reaches source style m → m.Placing) →
        formula.Everywhere Proper ∧ tree.Everywhere Proper) := by
  refine ⟨?_, ?_, ?_, fun placing => ?_⟩
  · rw [render_of_ok succeeds]
  · rintro rfl
    rw [renderBody_of_ok succeeds]
  · obtain ⟨body, tree⟩ := shaped_of_placing succeeds False.elim
    exact ⟨body.mono fun _ => Shaped.counted, tree.mono fun _ => Shaped.counted⟩
  · obtain ⟨body, tree⟩ := @shaped_of_placing _ _ _ _ _ True succeeds fun _ => placing
    exact ⟨body.mono fun _ => Shaped.proper, tree.mono fun _ => Shaped.proper⟩

set_option maxRecDepth 4096 in
theorem rendered_tree_proper_group :
    ∃ formula after,
      ({} : Document).read "\x7b\\limits\x7dx^2" .inlined = .ok (formula, after) ∧
      (∀ m, ({} : Document).Reaches "\x7b\\limits\x7dx^2" .inlined m → m.Placing) ∧
      (({} : Document).renderBody "\x7b\\limits\x7dx^2").1 =
        .ok "<mrow><msup><mi>x</mi><mn>2</mn></msup></mrow>" ∧
      formula.Everywhere Proper := by
  have shown : (({} : Document).renderBody "\x7b\\limits\x7dx^2").1 =
      .ok "<mrow><msup><mi>x</mi><mn>2</mn></msup></mrow>" := by cbv
  have checked : ({} : Document).passes Machine.isPlacing "\x7b\\limits\x7dx^2" .inlined 30 =
      true := by cbv
  have placing : ∀ m, ({} : Document).Reaches "\x7b\\limits\x7dx^2" .inlined m → m.Placing :=
    fun m reached => reached.of_passes (fun _ => Machine.placing_of_isPlacing) checked
  obtain ⟨formula, after, outcome, -⟩ := exists_read_of_renderBody shown
  obtain ⟨-, -, -, proper⟩ := rendered_tree_proper outcome
  exact ⟨formula, after, outcome, placing, shown, (proper placing).1⟩

set_option maxRecDepth 4096 in
/-- The first operand of a fraction is a switch, which stands for it and is not written. So the
fraction is written with one child. -/
theorem switch_for_operand :
    ∃ formula after,
      ({} : Document).read "\\frac\x7b\\limits\x7d\x7b2\x7d" .inlined = .ok (formula, after) ∧
      (({} : Document).renderBody "\\frac\x7b\\limits\x7d\x7b2\x7d").1 =
        .ok "<mrow><mfrac><mn>2</mn></mfrac></mrow>" ∧
      ¬ formula.Everywhere Proper := by
  have shown : (({} : Document).renderBody "\\frac\x7b\\limits\x7d\x7b2\x7d").1 =
      .ok "<mrow><mfrac><mn>2</mn></mfrac></mrow>" := by cbv
  have parts : (({} : Document).read "\\frac\x7b\\limits\x7d\x7b2\x7d" .inlined).toOption.map
      (fun result => result.1.children.map fun n => (n.tag, n.children.countP Node.isWritten)) =
        some [("mfrac", 1)] := by cbv
  obtain ⟨formula, after, outcome, -⟩ := exists_read_of_renderBody shown
  rw [outcome] at parts
  simp only [Except.toOption, Option.map_some, Option.some.injEq] at parts
  obtain ⟨fraction, rest, children, same, -⟩ := List.map_eq_cons_iff.mp parts
  obtain ⟨tag, count⟩ := Prod.mk.inj same
  refine ⟨formula, after, outcome, shown, fun proper => ?_⟩
  have two := (proper.children fraction (children ▸ List.mem_cons_self)).self.parts 2 (tag ▸ rfl)
  cases count.symm.trans two

end TexFormula.Document
