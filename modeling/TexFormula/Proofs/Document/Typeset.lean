import Mathlib
import TexFormula.Proofs.Document.Shape
import TexFormula.Proofs.Formula.Shape
import TexFormula.Proofs.Row.Typeset

/-! The operators of a rendered formula. A hyphen of the source is to be written as a minus sign and
an apostrophe as a prime. They are in every row (`Machine.rewrites`), and everywhere in a formula if
every such character comes into a row and is no part of anything else there
(`rendered_operators_typeset`). A character that is a script by itself is not replaced
(`hyphen_of_script_left`). -/

/-! ### States

States in which every character is replaced that has to be. Characters are replaced when a row
is put together, so one that has to be replaced must come into a row and be no part of anything else
there. A row that ends with a single node is not put together; if that node is such a character, it
must come into another row. As long as no character goes elsewhere (`Machine.Legible`), all
characters in nodes that are kept are replaced (`sound_of_legible`). -/

namespace TexFormula.Formula

open Node (Fit Shaped shaped_withMarks)

/-- Whether a raw character that is given to what waits for it comes into the row behind as such. -/
def Waiting.HandsOver (n : Node) : Waiting → Prop
  | .part _ next _ => ∃ m, next (some n) = .done (some m) ∧ m.isRaw = true ∧
      m.children = n.children
  | .call _ _ => True

theorem tag_of_isRaw {n : Node} (raw : n.isRaw = true) : n.tag = "mo" := by
  simp only [Node.isRaw, Bool.and_eq_true, beq_iff_eq] at raw
  exact raw.1.2

theorem Waiting.HandsOver.keeps {n : Node} {waiting : Waiting} (hands : waiting.HandsOver n)
    (raw : n.isRaw = true) : waiting.Keeps .typeset n := by
  cases waiting with
  | part t next r =>
    obtain ⟨m, given, still, children⟩ := hands
    refine ⟨m, given, fun _ usable => Node.usable_of_shaped ?_⟩
    have tag := (tag_of_isRaw still).trans (tag_of_isRaw raw).symm
    have marked := shaped_withMarks usable.shaped (m.mark r.draft.pending).marks
    exact Node.Resembles.shaped (n := { n with marks := _ }) ⟨tag, rfl, children⟩ marked
  | call t r => exact fun _ usable => Node.usable_of_shaped (shaped_withMarks usable.shaped _)

namespace Machine

variable {m : Machine}

/-- Whether a raw character that a job ends with comes into a row as such. As a whole formula it
does so, but it must not be a script or an operand then. -/
def HandsOver (m : Machine) (n : Node) : Prop :=
  match m.waiting with
  | [] => n.marks.isPending = false
  | first :: _ => first.HandsOver n

/-- The nodes of the fences around an expression. -/
def fences (r : Reading) (e : Expr) : List Node :=
  (Node.delimiter? e.first r.job.context).toList ++
    (e.closer?.bind (Node.delimiter? · r.job.context)).toList

/-- Whether all characters are replaced that have to be: a raw character comes into a row, in a row
it is no part of another node, and fences are no raw characters. -/
structure Legible (m : Machine) : Prop where
  done : ∀ n, m.focus = .done (some n) → n.isRaw = true → m.HandsOver n
  row : ∀ r, m.focus = .row r → r.left = [] → Row.Legible r.draft.nodes
  fences : ∀ r, m.focus = .row r → ∀ e ∈ r.left.head?, e.kind = .fenced →
    ∀ n ∈ fences r e, n.isRaw = false

/-- Whether all characters in the nodes of a row that ends here are replaced in what the row comes
to, unless that is the only node of the row itself. -/
def Rewrites (m : Machine) : Prop :=
  ∀ r, m.focus = .row r → r.left = [] → ∀ whole ∈ r.job.finish r.draft.nodes,
    r.draft.nodes = [whole] ∨ ∀ child ∈ whole.children, child.isRaw = false

theorem sound_of_legible (legible : m.Legible) : m.Sound .typeset where
  row r focus left usable :=
    Row.arranged_arrange (fun n member => (usable n member).shaped) (legible.row r focus left)
  fences r focus e first kind := by
    have known := legible.fences r focus e first kind
    refine ⟨fun n given => known n ?_, fun n given => known n ?_⟩
    · exact List.mem_append_left _ (Option.mem_toList.mpr given)
    · exact List.mem_append_right _ (Option.mem_toList.mpr given)
  done n focus other first given := by
    have raw : n.isRaw = true := eq_true_of_ne_false fun typeset => other ⟨typeset, trivial⟩
    have hands := legible.done n focus raw
    obtain ⟨rest, stack⟩ := List.head?_eq_some_iff.mp given
    rw [HandsOver, stack] at hands
    exact hands.keeps raw

/-- Characters are replaced in every row that is put together. -/
theorem rewrites (m : Machine) : m.Rewrites := by
  intro r _ _ whole given
  unfold Job.finish at given
  split at given
  case h_1 parent _ =>
    cases given
    exact .inr (Row.isRaw_arrange _)
  case h_2 =>
    split at given
    · cases given
    case h_2 n single =>
      cases given
      exact .inl single
    · cases given
      exact .inr (Row.isRaw_arrange _)

/-! ### A check -/

/-- A check for states in which all characters are replaced that have to be. It takes a character
with children for one that is not. -/
def isLegible (m : Machine) : Bool :=
  match m.focus with
  | .row r =>
    match r.left with
    | [] => decide (Row.Legible r.draft.nodes)
    | e :: _ => e.kind != .fenced || (fences r e).all fun n => !n.isRaw
  | .plan .. => true
  | .done none => true
  | .done (some n) =>
    !n.isRaw ||
      match m.waiting with
      | [] => !n.marks.isPending
      | .call .. :: _ => true
      | .part _ next _ :: _ =>
        match next (some n) with
        | .done (some m) => m.isRaw && m.children.isEmpty && n.children.isEmpty
        | _ => false

theorem legible_of_isLegible (checked : m.isLegible = true) : m.Legible := by
  unfold isLegible at checked
  constructor
  · intro n focus raw
    rw [focus] at checked
    simp only [raw, Bool.not_true, Bool.false_or] at checked
    unfold HandsOver
    split at checked
    case h_1 whole =>
      rw [whole]
      simpa using checked
    case h_2 whole =>
      rw [whole]
      trivial
    case h_3 whole =>
      rw [whole]
      split at checked
      case h_1 k given =>
        simp only [Bool.and_eq_true, List.isEmpty_iff] at checked
        exact ⟨k, given, checked.1.1, checked.1.2.trans checked.2.symm⟩
      case h_2 => cases checked
  · intro r focus left
    rw [focus] at checked
    simp only [left, decide_eq_true_eq] at checked
    exact checked
  · intro r focus e first kind n member
    obtain ⟨rest, left⟩ := List.head?_eq_some_iff.mp first
    rw [focus] at checked
    simp only [left, kind, bne_self_eq_false, Bool.false_or] at checked
    simpa using List.all_eq_true.mp checked n member

end Machine

end TexFormula.Formula

/-! ### Rendered formulas -/

namespace TexFormula.Document

open Formula (Machine)
open Node (Fit Shaped Typeset typeset_of_isRaw)

variable {d after : Document} {source : String} {style : Style} {formula : Node}

/-- A whole formula that is a single node is legible if that is no raw character with a mark. -/
theorem legible_single {m : Machine} {n : Node} (legible : m.Legible)
    (done : m.focus = .done (some n)) (alone : m.waiting = []) : Row.Legible [n] := by
  refine ⟨fun part => ⟨?_, rfl⟩, trivial⟩
  by_contra raw
  have hands := legible.done n done (eq_true_of_ne_false raw)
  rw [Machine.HandsOver, alone] at hands
  simp [Row.isPart, hands] at part

/-- In every formula that can be read, as it is rendered with and without the element around it, no
operator is written as a hyphen, and none as an apostrophe unless it stands for a command, if in
every state that reading the formula comes to, a character that has to be replaced and is all of a
row comes into another row, is no part of another node of a row and is no fence. Whatever the states
are, it is replaced in every row that is put together. -/
theorem rendered_operators_typeset (succeeds : d.read source style = .ok (formula, after)) :
    let tree := whole style (after.annotate source (after.number style formula).1)
    (d.render source style).1 = .ok (tree.toXml after.options.pretty) ∧
      (style = .inlined → (d.renderBody source).1 = .ok (formula.toXml after.options.pretty)) ∧
      (∀ m, d.Reaches source style m → m.Rewrites) ∧
      ((∀ m, d.Reaches source style m → m.Legible) →
        formula.Everywhere Typeset ∧ tree.Everywhere Typeset) := by
  refine ⟨?_, ?_, fun m _ => m.rewrites, fun legible => ?_⟩
  · rw [render_of_ok succeeds]
  · rintro rfl
    rw [renderBody_of_ok succeeds]
  · obtain ⟨body, tree⟩ := inner_of_read succeeds
      (fun m reached => Machine.sound_of_legible (legible m reached))
      (fun m n reached done alone usable => Row.arranged_arrange
        (List.forall_mem_singleton.mpr usable.shaped)
        (legible_single (legible m reached) done alone))
    exact ⟨body.everywhere.mono fun _ => typeset_of_isRaw,
      tree.everywhere.mono fun _ => typeset_of_isRaw⟩

set_option maxRecDepth 4096 in
theorem rendered_operators_typeset_group :
    ∃ formula after,
      ({} : Document).read "\x7b-\x7dx'" .inlined = .ok (formula, after) ∧
      (∀ m, ({} : Document).Reaches "\x7b-\x7dx'" .inlined m → m.Legible) ∧
      (({} : Document).renderBody "\x7b-\x7dx'").1 =
        .ok "<mrow><mo>−</mo><msup><mi>x</mi><mo>′</mo></msup></mrow>" ∧
      formula.Everywhere Typeset := by
  have shown : (({} : Document).renderBody "\x7b-\x7dx'").1 =
      .ok "<mrow><mo>−</mo><msup><mi>x</mi><mo>′</mo></msup></mrow>" := by cbv
  have checked : ({} : Document).passes Machine.isLegible "\x7b-\x7dx'" .inlined 40 = true := by cbv
  have legible : ∀ m, ({} : Document).Reaches "\x7b-\x7dx'" .inlined m → m.Legible :=
    fun m reached => reached.of_passes (fun _ => Machine.legible_of_isLegible) checked
  obtain ⟨formula, after, outcome, -⟩ := exists_read_of_renderBody shown
  obtain ⟨-, -, -, typeset⟩ := rendered_operators_typeset outcome
  exact ⟨formula, after, outcome, legible, shown, (typeset legible).1⟩

set_option maxRecDepth 4096 in
/-- A hyphen that is a superscript by itself is in the element for scripts before characters are
replaced, and nothing looks at it there. -/
theorem hyphen_of_script_left :
    ∃ formula after, ({} : Document).read "x^-" .inlined = .ok (formula, after) ∧
      (({} : Document).renderBody "x^-").1 =
        .ok "<mrow><msup><mi>x</mi><mo>-</mo></msup></mrow>" ∧
      ¬ formula.Everywhere Typeset := by
  have shown : (({} : Document).renderBody "x^-").1 =
      .ok "<mrow><msup><mi>x</mi><mo>-</mo></msup></mrow>" := by cbv
  have parts : (({} : Document).read "x^-" .inlined).toOption.map (fun result =>
      result.1.children.map fun n =>
        n.children.map fun child => (child.isWritten, child.tag, child.text)) =
      some [[(true, "mi", "x"), (true, "mo", "-")], []] := by cbv
  obtain ⟨formula, after, outcome, -⟩ := exists_read_of_renderBody shown
  rw [outcome] at parts
  simp only [Except.toOption, Option.map_some, Option.some.injEq] at parts
  obtain ⟨scripts, rest, children, same, -⟩ := List.map_eq_cons_iff.mp parts
  obtain ⟨base, others, within, -, more⟩ := List.map_eq_cons_iff.mp same
  obtain ⟨hyphen, last, rfl, look, -⟩ := List.map_eq_cons_iff.mp more
  obtain ⟨written, operator, text⟩ := by simpa only [Prod.mk.injEq] using look
  have here : scripts ∈ formula.children := children ▸ List.mem_cons_self
  have there : hyphen ∈ scripts.children :=
    within ▸ List.mem_cons_of_mem _ List.mem_cons_self
  refine ⟨formula, after, outcome, shown, fun all => ?_⟩
  have typeset := ((all.children scripts here).children hyphen there).self
  exact (typeset written operator).1 text

end TexFormula.Document
