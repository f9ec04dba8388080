import TexFormula.Environment
import TexFormula.Proofs.Node.Stable

/-! Tables and environments keep what is stable of their nodes. What a cell or row asks for in its
attributes becomes a value of the table, or an attribute of the same name of the cell. -/
namespace TexFormula.Table

open Node

variable {A : Node → Prop} [Stable A] {nodes : List Node}

/-- Every node of a piece is one of the list that was cut. -/
theorem mem_of_mem_pieces {p : Node → Bool} {piece : List Node} (there : piece ∈ pieces p nodes)
    {n : Node} (member : n ∈ piece) : n ∈ nodes := by
  induction nodes generalizing piece with
  | nil =>
    rw [pieces, List.mem_singleton] at there
    subst there
    cases member
  | cons first rest ih =>
    unfold pieces at there
    split at there
    · rcases List.mem_cons.mp there with none | later
      · subst none
        cases member
      · exact List.mem_cons_of_mem _ (ih later member)
    · split at there
      case h_1 =>
        rw [List.mem_singleton] at there
        subst there
        exact List.mem_singleton.mp member ▸ List.mem_cons_self
      case h_2 piece' more cut =>
        rw [cut] at ih
        rcases List.mem_cons.mp there with here | later
        · subst here
          rcases List.mem_cons.mp member with same | inside
          · exact same ▸ List.mem_cons_self
          · exact List.mem_cons_of_mem _ (ih List.mem_cons_self inside)
        · exact List.mem_cons_of_mem _ (ih (List.mem_cons_of_mem _ later) member)

theorem mem_of_mem_rows {row : List Node} (there : row ∈ rows nodes) {n : Node}
    (member : n ∈ row) : n ∈ nodes := by
  unfold rows at there
  simp only at there
  split at there
  · exact mem_of_mem_pieces (List.dropLast_subset _ there) member
  · exact mem_of_mem_pieces there member

/-! ### Cells -/

theorem stable_spanRows {cell : Cell} (alone : Bool) {n : Node}
    (holds : cell.node.Everywhere A) (given : n.Everywhere A) :
    (cell.spanRows alone n).1.node.Everywhere A ∧ (cell.spanRows alone n).2.Everywhere A := by
  have erased := given.eraseAttribute "rowspan"
  unfold Cell.spanRows
  split
  case h_1 => exact ⟨holds, given⟩
  case h_2 span asked =>
    have spanned := holds.setAttribute "rowspan" span (by decide)
    simp only
    split
    case h_1 => exact ⟨spanned, erased⟩
    case h_2 count read =>
      exact ⟨spanned, erased.setAttributeIf _ _ _ (by decide)⟩

theorem stable_spanColumns {cell : Cell} (alone : Bool) {n : Node}
    (holds : cell.node.Everywhere A) (given : n.Everywhere A) :
    (cell.spanColumns alone n).1.node.Everywhere A ∧ (cell.spanColumns alone n).2.Everywhere A := by
  have erased := given.eraseAttribute "columnspan"
  unfold Cell.spanColumns
  split
  case h_1 => exact ⟨holds, given⟩
  case h_2 span asked =>
    have spanned := holds.setAttribute "columnspan" span (by decide)
    simp only
    split
    case h_1 => exact ⟨spanned, erased⟩
    case h_2 count read =>
      have space := (stable_element (A := A) "mspace" (by decide)).setAttribute "width"
        (arrowWidth count) (by decide)
      have stretched := stable_two "mover" erased space (by decide)
      exact ⟨spanned, everywhere_ite (fun _ => stretched) fun _ => erased⟩

theorem stable_add {cell : Cell} {alone : Bool} {n : Node} (holds : cell.node.Everywhere A)
    (given : n.Everywhere A) : (cell.add alone n).node.Everywhere A := by
  have filled : ∀ start : Cell, start.node.Everywhere A →
      let rows := start.spanRows alone n
      let columns := rows.1.spanColumns alone rows.2
      (columns.1.node.append [columns.2]).Everywhere A := by
    intro start made
    have spanned := stable_spanRows alone made given
    have covered := stable_spanColumns alone spanned.1 spanned.2
    exact covered.1.append (List.forall_mem_singleton.mpr covered.2)
  unfold Cell.add
  cases n.attribute? "rowspacing" with
  | none => exact filled _ holds
  | some spacing => exact filled { cell with spacing := some spacing } holds

theorem stable_ofNodes (spec : ColumnSpec) (column : Nat) (holds : ∀ n ∈ nodes, n.Everywhere A) :
    (Cell.ofNodes spec column nodes).node.Everywhere A := by
  have started := stable_element (A := A) "mtd" (by decide)
  have filled : ∀ (cell : Cell), cell.node.Everywhere A →
      (nodes.foldl (Cell.add (nodes.length == 1)) cell).node.Everywhere A := by
    generalize (nodes.length == 1) = alone
    induction nodes with
    | nil => exact fun _ made => made
    | cons n rest ih =>
      obtain ⟨here, later⟩ := List.forall_mem_cons.mp holds
      exact fun cell made => ih later _ (stable_add made here)
  unfold Cell.ofNodes
  cases spec.alignAt? column with
  | none => exact filled _ started
  | some alignment => exact filled _ (started.setCss _ _)

/-! ### Rows and tables -/

theorem stable_layLine (spec : ColumnSpec) (column skip : Nat) (cover : List Nat)
    {contents : List (List Node)} (holds : ∀ content ∈ contents, ∀ n ∈ content, n.Everywhere A) :
    ∀ n ∈ (layLine spec column skip cover contents).cells, n.Everywhere A := by
  induction contents generalizing column skip cover with
  | nil => exact List.forall_mem_nil _
  | cons content rest ih =>
    obtain ⟨here, later⟩ := List.forall_mem_cons.mp holds
    unfold layLine
    simp only
    split
    · exact ih _ _ _ later
    · split
      · exact ih _ _ _ later
      · exact List.forall_mem_cons.mpr ⟨stable_ofNodes spec column here, ih _ _ _ later⟩

theorem stable_layLines (spec : ColumnSpec) (cover : List Nat) {contents : List (List Node)}
    (holds : ∀ content ∈ contents, ∀ n ∈ content, n.Everywhere A) :
    ∀ line ∈ layLines spec cover contents, ∀ n ∈ line.cells, n.Everywhere A := by
  induction contents generalizing cover with
  | nil => exact List.forall_mem_nil _
  | cons content rest ih =>
    obtain ⟨here, later⟩ := List.forall_mem_cons.mp holds
    have cut : ∀ piece ∈ cells content, ∀ n ∈ piece, n.Everywhere A := fun piece there n member =>
      here n (mem_of_mem_pieces there member)
    exact List.forall_mem_cons.mpr ⟨stable_layLine spec 0 0 cover cut, ih _ later⟩

theorem stable_ofRow {n : Node} (holds : n.Everywhere A) : (ofRow n).Everywhere A := by
  have content : ∀ row ∈ rows n.children, ∀ m ∈ row, m.Everywhere A := fun row there m member =>
    holds.children m (mem_of_mem_rows there member)
  have lines := stable_layLines (ColumnSpec.parse (n.option.getD "")) [] content
  have nodes : ∀ m ∈ (layLines (ColumnSpec.parse (n.option.getD "")) []
      (rows n.children)).map Line.node, m.Everywhere A := fun m member => by
    obtain ⟨line, there, same⟩ := List.mem_map.mp member
    exact same ▸ stable_branch _ (lines line there) (by decide)
  have aligned := holds.setAttribute "columnalign"
    ((ColumnSpec.parse (n.option.getD "")).alignText?.getD "center") (by decide)
  unfold ofRow
  refine .withChildren (.withTag (.setAttribute ?_ "rowalign" _ (by decide)) (by decide)) nodes
  split
  · refine .setAttribute ?_ "rowspacing" _ (by decide)
    split
    · exact aligned.setAttribute "columnlines" _ (by decide)
    · exact aligned
  · split
    · exact aligned.setAttribute "columnlines" _ (by decide)
    · exact aligned

theorem stable_alignCells (fromRow : Option String) (fromTable : List String) (column : Nat)
    (holds : ∀ n ∈ nodes, n.Everywhere A) :
    ∀ n ∈ alignCells fromRow fromTable column nodes, n.Everywhere A := by
  induction nodes generalizing column with
  | nil => exact holds
  | cons cell rest ih =>
    obtain ⟨here, later⟩ := List.forall_mem_cons.mp holds
    unfold alignCells
    split
    · refine List.forall_mem_cons.mpr ⟨?_, ih _ later⟩
      split
      · exact here.setCss _ _
      · exact here
    · exact List.forall_mem_cons.mpr ⟨here, ih _ later⟩

theorem stable_alignRow (fromTable : List String) {row : Node} (holds : row.Everywhere A) :
    (alignRow fromTable row).Everywhere A :=
  everywhere_ite (fun _ => holds.withChildren (stable_alignCells _ _ _ holds.children))
    fun _ => holds

theorem stable_align {table : Node} (holds : table.Everywhere A) : (align table).Everywhere A :=
  holds.withChildren fun n member => by
    obtain ⟨row, there, same⟩ := List.mem_map.mp member
    exact same ▸ stable_alignRow _ (holds.children row there)

end TexFormula.Table

namespace TexFormula.Environment

open Node

variable {A : Node → Prop} [Stable A]

theorem stable_alignNode (alignment : String) {n : Node} (holds : n.Everywhere A) :
    (alignNode alignment n).Everywhere A :=
  (holds.setAttribute _ _ (by decide)).setCss _ _

theorem stable_alignFirstCell {nodes : List Node} (holds : ∀ n ∈ nodes, n.Everywhere A) :
    ∀ n ∈ alignFirstCell nodes, n.Everywhere A := by
  induction nodes with
  | nil => exact holds
  | cons cell rest ih =>
    obtain ⟨here, later⟩ := List.forall_mem_cons.mp holds
    unfold alignFirstCell
    split
    · exact List.forall_mem_cons.mpr ⟨stable_alignNode "right" here, later⟩
    · exact List.forall_mem_cons.mpr ⟨here, ih later⟩

theorem stable_alignFirstCells {n : Node} (holds : n.Everywhere A) :
    (Node.Everywhere A) { n with children := n.children.map fun row =>
      { row with children := alignFirstCell row.children } } :=
  holds.withChildren fun m member => by
    obtain ⟨row, there, same⟩ := List.mem_map.mp member
    have known : row.Everywhere A := holds.children row there
    exact same ▸ known.withChildren (stable_alignFirstCell known.children)

theorem stable_dress? {name : String} {n dressed : Node} (holds : n.Everywhere A)
    (given : dress? name n = some dressed) : dressed.Everywhere A := by
  have displayed := stable_alignNode "left"
    (holds.setAttribute "displaystyle" "true" (by decide))
  have centered := holds.setAttributes
    [("displaystyle", "true"), ("columnalign", "center")] (by decide)
  unfold dress? at given
  split at given
  all_goals cases given
  · exact holds
  · exact holds
  · exact holds
  · exact holds
  · exact holds
  · exact holds.setAttribute _ _ (by decide)
  · exact stable_alignFirstCells displayed
  · exact stable_alignFirstCells displayed
  · exact stable_alignFirstCells displayed
  · exact centered
  · exact centered
  · exact holds.setAttribute _ _ (by decide)
  · exact holds.setAttribute _ _ (by decide)

theorem stable_fences (delimiter : Option String) :
    ∀ n ∈ (delimiter.map fence).toList, n.Everywhere A := by
  cases delimiter with
  | none => exact List.forall_mem_nil _
  | some text => exact List.forall_mem_singleton.mpr (stable_fence text)

theorem stable_frame {n : Node} (holds : n.Everywhere A) (name : String) (c : Context) :
    (frame n name c).Everywhere A := by
  have table := @everywhere_ite A (c.table = true) _ _ n
    (fun _ => Table.stable_ofRow holds) fun _ => holds
  unfold frame
  simp only
  split
  case h_1 => exact table
  case h_2 dressed given =>
    have framed := Table.stable_align (stable_dress? table given)
    exact stable_row (List.forall_mem_append.mpr ⟨stable_fences _,
      List.forall_mem_cons.mpr ⟨framed, stable_fences _⟩⟩)

end TexFormula.Environment
