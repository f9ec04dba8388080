import Mathlib
import TexFormula.Proofs.Node.Stable
import TexFormula.Proofs.Document.Reading
import TexFormula.Proofs.Formula.Quiet

/-! The marks that a rendered formula has left. A script or an operator between two operands marks
the node after it, and the mark is to be gone when the formula is written: the node then is in an
element for scripts or in a fraction. It is as long as every marked node comes into a row with its
base (`rendered_tree_quiet`). A row that is all of a formula does not: it takes its own mark with it
(`mark_of_whole_row_left`). -/
namespace TexFormula.Document

open Formula (Machine)
open Node (Quiet stable_row)

variable {d after : Document} {source : String} {style : Style} {formula : Node}

/-- As long as all states are tidy, they are quiet. -/
theorem Reaches.quiet {m : Machine} (reached : d.Reaches source style m)
    (tidy : ∀ m, d.Reaches source style m → m.Tidy) : m.Quiet := by
  obtain ⟨tokens, expanded, prepared, found, run⟩ := reached
  exact Machine.Quiet.run (Machine.quiet_start _ _ _ _)
    (fun between reached => tidy between ⟨tokens, expanded, prepared, found, reached⟩) run

/-! ### Whole formulas -/

/-- A whole formula is quiet if it is read into a row itself, which then has no mark, or is put into
one. -/
theorem quiet_body {m : Machine} {node : Option Node} (done : m.focus = .done node)
    (whole : m.waiting = []) (quiet : m.Quiet) (tidy : m.Tidy) : (body node).Everywhere Quiet := by
  have ready : ∀ n ∈ node, n.Ready := by
    have focus := quiet.focus
    rwa [done] at focus
  unfold body
  cases node with
  | none => exact stable_row (List.forall_mem_nil _)
  | some n =>
    dsimp only
    split
    case isTrue row =>
      refine .node ?_ (ready n rfl).below
      by_contra marked
      have handed := tidy.done n done marked
      rw [Machine.HandsOn, whole] at handed
      exact handed row
    case isFalse =>
      exact .node (.inr rfl) (Row.quiet_arrange (List.forall_mem_singleton.mpr (ready n rfl)))

/-- A marked node that is a whole formula is in an element around it in the row it is put into. -/
theorem gathered_body {n : Node} (marked : ¬ n.Quiet) (switch : n.marks.isLimitSwitch = false)
    (single : ¬ (n.tag == "mrow" || n.tag == "mtd") = true) :
    (body (some n)).Somewhere n.Gathers := by
  obtain ⟨m, child, found⟩ :=
    Row.gathered_arrange (List.mem_singleton.mpr rfl) marked switch
  unfold body
  dsimp only
  rw [if_neg single]
  exact .inside child found

/-! ### Tidy formulas -/

/-- A check for the states of reading a formula, if it takes at most a number of steps. -/
def isTidy (d : Document) (source : String) (style : Style) (steps : Nat) : Bool :=
  d.passes Machine.isTidy source style steps

theorem Reaches.tidy {steps : Nat} (checked : d.isTidy source style steps = true) {m : Machine}
    (reached : d.Reaches source style m) : m.Tidy :=
  reached.of_passes (fun _ => Machine.tidy_of_isTidy) checked

/-! ### Rendered formulas -/

/-- Nothing is left to be put together in a formula that can be read, as it is rendered with and
without the element around it: every script and every second operand of a fraction has come into an
element around it. This is so if, in every state that reading the formula comes to, a marked node
that is all of a row comes into another row, and no node is a script and an operand at once. -/
theorem rendered_tree_quiet (succeeds : d.read source style = .ok (formula, after))
    (tidy : ∀ m, d.Reaches source style m → m.Tidy) :
    let tree := whole style (after.annotate source (after.number style formula).1)
    (d.render source style).1 = .ok (tree.toXml after.options.pretty) ∧
      (style = .inlined → (d.renderBody source).1 = .ok (formula.toXml after.options.pretty)) ∧
      tree.Everywhere Quiet ∧ formula.Everywhere Quiet ∧
      (∀ m, d.Reaches source style m → m.Gathers) ∧
      ∀ m n, d.Reaches source style m → m.focus = .done (some n) → m.waiting = [] → ¬ n.Quiet →
        n.marks.isLimitSwitch = false → formula.Somewhere n.Gathers := by
  obtain ⟨last, node, reached, done, alone, same, others⟩ := reaches_of_read succeeds
  have quiet : formula.Everywhere Quiet :=
    same ▸ quiet_body done alone (reached.quiet tidy) (tidy last reached)
  refine ⟨?_, ?_, ?_, quiet, fun m _ => m.gathers, ?_⟩
  · rw [render_of_ok succeeds]
  · rintro rfl
    rw [renderBody_of_ok succeeds]
  · exact stable_whole style (stable_annotate after source (stable_number after style quiet))
  · intro m n passed focus stops marked switch
    have ends : m.next? d.options = none := by
      unfold Machine.next?
      rw [focus, stops]
    cases Machine.Run.eq_of_stops ends (others m passed)
    cases done.symm.trans focus
    have handed := (tidy _ reached).done n focus marked
    rw [Machine.HandsOn, alone] at handed
    exact same ▸ gathered_body marked switch handed

set_option maxRecDepth 4096 in
theorem rendered_tree_quiet_group :
    ∃ formula after, ({} : Document).read "x\x7b^2\x7d\\over3" .inlined = .ok (formula, after) ∧
      (∀ m, ({} : Document).Reaches "x\x7b^2\x7d\\over3" .inlined m → m.Tidy) ∧
      (({} : Document).renderBody "x\x7b^2\x7d\\over3").1 =
        .ok "<mrow><mfrac><msup><mi>x</mi><mn>2</mn></msup><mn>3</mn></mfrac></mrow>" ∧
      formula.Everywhere Quiet := by
  have shown : (({} : Document).renderBody "x\x7b^2\x7d\\over3").1 =
      .ok "<mrow><mfrac><msup><mi>x</mi><mn>2</mn></msup><mn>3</mn></mfrac></mrow>" := by cbv
  have checked : ({} : Document).isTidy "x\x7b^2\x7d\\over3" .inlined 30 = true := by cbv
  have tidy := fun m => Reaches.tidy (m := m) checked
  obtain ⟨formula, after, outcome, -⟩ := exists_read_of_renderBody shown
  obtain ⟨-, -, -, quiet, -⟩ := rendered_tree_quiet outcome tidy
  exact ⟨formula, after, outcome, tidy, shown, quiet⟩

set_option maxRecDepth 4096 in
/-- A group that is all of a formula is taken for the row of the formula, which was put together
already. So it stays the superscript of nothing and is written without an element for scripts. -/
theorem mark_of_whole_row_left :
    ∃ formula after, ({} : Document).read "^\x7bab\x7d" .inlined = .ok (formula, after) ∧
      (({} : Document).renderBody "^\x7bab\x7d").1 = .ok "<mrow><mi>a</mi><mi>b</mi></mrow>" ∧
      formula.isWritten = true ∧ formula.marks.superscript = true ∧ ¬ formula.Everywhere Quiet := by
  have shown : (({} : Document).renderBody "^\x7bab\x7d").1 =
      .ok "<mrow><mi>a</mi><mi>b</mi></mrow>" := by cbv
  have marks : (({} : Document).read "^\x7bab\x7d" .inlined).toOption.map
      (fun result => (result.1.isWritten, result.1.marks.hidden, result.1.marks.superscript)) =
        some (true, false, true) := by cbv
  obtain ⟨formula, after, outcome, -⟩ := exists_read_of_renderBody shown
  rw [outcome] at marks
  simp only [Except.toOption, Option.map_some, Option.some.injEq, Prod.mk.injEq] at marks
  obtain ⟨written, visible, superscript⟩ := marks
  refine ⟨formula, after, outcome, shown, written, superscript, fun quiet => ?_⟩
  have pending : formula.marks.isPending = true := by
    simp [Marks.isPending, Marks.isScript, superscript]
  rcases quiet.self with hidden | other
  · cases hidden.symm.trans visible
  · cases other.symm.trans pending

end TexFormula.Document
