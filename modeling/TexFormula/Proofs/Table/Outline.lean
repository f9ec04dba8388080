import TexFormula.Proofs.Formula.Idle
import TexFormula.Proofs.Table.Alignment

/-! The shape of a table. How many rows a table has and how many cells are in each of them follows
from the breaks among the nodes it is made of, from the end of these nodes, and from what the cells
ask to span (`rowLengths_eq_of_breaks`). Nothing else that is in the cells matters, and neither does
the frame of the table. The breaks are those that the reading of the content comes to if nothing
else divides it (`Undivided`). -/
namespace TexFormula.Table

variable {n n' : Node} {nodes : List Node} {g g' : List (List (List Node))}

/-! ### Breaks -/

/-- The numbers of cells in the rows that some breaks make. -/
def rowSizes : List Bool → List Nat
  | [] => [1]
  | true :: rest => 1 :: rowSizes rest
  | false :: rest => (rowSizes rest).modifyHead (· + 1)

/-- Whether nodes end in something else than the break of a row. -/
def endsOpen (nodes : List Node) : Bool :=
  nodes.getLast?.any fun n => !n.marks.rowBreak

theorem length_cells (row : List Node) : (cells row).length = row.countP (·.marks.cellBreak) + 1 :=
  length_pieces _ row

/-- The rows of a list have as many cells as its breaks say. -/
theorem sizes_pieces (nodes : List Node) :
    (pieces (·.marks.rowBreak) nodes).map (fun row => (cells row).length) =
      rowSizes (breaksOf nodes) := by
  induction nodes with
  | nil => rfl
  | cons n rest ih =>
    cases row : n.marks.rowBreak with
    | true =>
      have breaks : breaksOf (n :: rest) = true :: breaksOf rest := by
        simp [breaksOf, Marks.isBreak, row]
      rw [pieces_of_end (p := (·.marks.rowBreak)) row, breaks, List.map_cons, ih, rowSizes]
      rfl
    | false =>
      obtain ⟨piece, more, cut⟩ :=
        List.exists_cons_of_ne_nil (pieces_ne_nil (·.marks.rowBreak) rest)
      rw [cut, List.map_cons] at ih
      rw [pieces_of_inside (p := (·.marks.rowBreak)) row cut, List.map_cons, length_cells]
      cases cell : n.marks.cellBreak with
      | true =>
        have breaks : breaksOf (n :: rest) = false :: breaksOf rest := by
          simp [breaksOf, Marks.isBreak, row, cell]
        have more : (n :: piece).countP (·.marks.cellBreak) =
            piece.countP (·.marks.cellBreak) + 1 := List.countP_cons_of_pos cell
        rw [breaks, rowSizes, ← ih, List.modifyHead_cons, more, length_cells]
      | false =>
        have breaks : breaksOf (n :: rest) = breaksOf rest := by
          simp [breaksOf, Marks.isBreak, row, cell]
        have same : (n :: piece).countP (·.marks.cellBreak) = piece.countP (·.marks.cellBreak) :=
          List.countP_cons_of_neg (Bool.eq_false_iff.mp cell)
        rw [breaks, ← ih, same, length_cells]

/-- The rows of a table have as many cells as the breaks say. If the last break ends a row and
nothing comes behind it, there is no row behind it. -/
theorem sizes_grid (nodes : List Node) :
    (grid nodes).map List.length =
      if endsOpen nodes then rowSizes (breaksOf nodes)
      else (rowSizes (breaksOf nodes)).dropLast := by
  rw [grid, List.map_map, ← sizes_pieces]
  obtain rfl | ⟨front, last, rfl⟩ := List.eq_nil_or_concat' nodes
  · rfl
  · have some : front ++ [last] ≠ [] := List.concat_ne_nil _ _
    rw [rows_eq_pieces some, withoutLastBreak, endsOpen, List.getLast?_concat, Option.any_some,
      Option.any_some]
    cases ends : last.marks.rowBreak with
    | true =>
      rw [if_pos rfl, List.dropLast_concat, pieces_concat (p := (·.marks.rowBreak)) ends,
        List.map_append, Bool.not_true, if_neg Bool.false_ne_true, List.map_singleton,
        List.dropLast_concat]
      rfl
    | false => rfl

/-! ### Spans -/

/-- Whether the cells of two grids ask to span the same. -/
def SameSpans (g g' : List (List (List Node))) : Prop :=
  ∀ r c, further "rowspan" (cellAt g r c) = further "rowspan" (cellAt g' r c) ∧
    further "columnspan" (cellAt g r c) = further "columnspan" (cellAt g' r c)

/-- Cells of nodes that ask for no spans ask to span the same. -/
theorem sameSpans_of_unspanned {nodes nodes' : List Node}
    (none : ∀ m ∈ nodes ++ nodes', ∀ name ∈ ["rowspan", "columnspan"], m.attribute? name = none) :
    SameSpans (grid nodes) (grid nodes') := by
  intro r c
  have nothing (name : String) (spans : name ∈ ["rowspan", "columnspan"]) :
      further name (cellAt (grid nodes) r c) = further name (cellAt (grid nodes') r c) := by
    rw [further_of_none fun m member =>
        none m (List.mem_append_left _ (mem_of_mem_cellAt member)) name spans,
      further_of_none fun m member =>
        none m (List.mem_append_right _ (mem_of_mem_cellAt member)) name spans]
  exact ⟨nothing "rowspan" (by decide), nothing "columnspan" (by decide)⟩

section Spans
variable (sizes : g.map List.length = g'.map List.length) (spans : SameSpans g g')
include sizes

theorem length_getD (r : Nat) : (g.getD r []).length = (g'.getD r []).length := by
  have length (g : List (List (List Node))) :
      (g.getD r []).length = (g.map List.length).getD r 0 := by
    rw [List.getD_eq_getElem?_getD, List.getD_eq_getElem?_getD, List.getElem?_map]
    cases g[r]? <;> rfl
  rw [length, length, sizes]

include spans

omit sizes in
theorem skipAt_congr (covered : Nat → Nat) (r c : Nat) :
    skipAt covered (g.getD r []) c = skipAt covered (g'.getD r []) c := by
  induction c with
  | zero => rfl
  | succ c ih =>
    have asked := (spans r c).2
    unfold cellAt at asked
    rw [skipAt, skipAt, ih, asked]

/-- Grids of the same size whose cells ask to span the same are covered in the same places. -/
theorem coverAt_congr (r : Nat) : coverAt g r = coverAt g' r := by
  induction r with
  | zero => rfl
  | succ r ih =>
    funext c
    have length := length_getD sizes r
    have asked := (spans r c).1
    have skipped := skipAt_congr spans (coverAt g' r) r c
    unfold cellAt at asked
    rw [coverAt, coverAt, ih, coverBelow, coverBelow]
    by_cases inside : c < (g.getD r []).length
    · rw [getElem?_of_lt inside, getElem?_of_lt (length ▸ inside)]
      cases coverAt g' r c with
      | zero => exact if_congr (by rw [skipped]) asked rfl
      | succ left => rfl
    · have beyond := Nat.le_of_not_lt inside
      rw [List.getElem?_eq_none beyond, List.getElem?_eq_none (length ▸ beyond)]

theorem laidColumns_congr (r : Nat) : laidColumns g r = laidColumns g' r := by
  rw [laidColumns, laidColumns, length_getD sizes, coverAt_congr sizes spans]
  refine List.filter_congr fun c _ => ?_
  rw [isFree, isFree, skipAt_congr spans]

end Spans

/-! ### Tables -/

/-- The numbers of cells in the rows of a table. -/
def rowLengths (table : Node) : List Nat :=
  table.children.map fun row => row.children.length

theorem rowLengths_ofRow (n : Node) :
    rowLengths (ofRow n) = (List.range (grid n.children).length).map fun r =>
      (laidColumns (grid n.children) r).length := by
  rw [rowLengths, children_ofRow, List.map_map]
  refine List.map_congr_left fun r _ => ?_
  rw [Function.comp_apply, rowNode, Node.branch, List.length_map]

/-- Tables have rows of the same lengths if they are made of nodes with the same breaks and with the
same spans, and if both end in a row break or neither does. -/
theorem rowLengths_eq_of_breaks (breaks : breaksOf n.children = breaksOf n'.children)
    (ends : endsOpen n.children = endsOpen n'.children)
    (spans : SameSpans (grid n.children) (grid n'.children)) :
    rowLengths (ofRow n) = rowLengths (ofRow n') := by
  have sizes : (grid n.children).map List.length = (grid n'.children).map List.length := by
    rw [sizes_grid, sizes_grid, breaks, ends]
  have rows := congrArg List.length sizes
  rw [List.length_map, List.length_map] at rows
  rw [rowLengths_ofRow, rowLengths_ofRow, rows]
  refine List.map_congr_left fun r _ => ?_
  rw [laidColumns_congr sizes spans]

theorem rowSizes_ne_nil (breaks : List Bool) : rowSizes breaks ≠ [] := by
  induction breaks with
  | nil => nofun
  | cons row rest ih =>
    cases row with
    | true => nofun
    | false =>
      obtain ⟨size, more, given⟩ := List.exists_cons_of_ne_nil ih
      rw [rowSizes, given]
      nofun

/-- Tables that are made of nodes with the same breaks have as many rows if both end in a row break
or neither does, and only then. -/
theorem length_rowLengths_iff_of_breaks (breaks : breaksOf n.children = breaksOf n'.children) :
    (rowLengths (ofRow n)).length = (rowLengths (ofRow n')).length ↔
      endsOpen n.children = endsOpen n'.children := by
  have rows (n : Node) : (rowLengths (ofRow n)).length =
      if endsOpen n.children then (rowSizes (breaksOf n.children)).length
      else (rowSizes (breaksOf n.children)).length - 1 := by
    have sizes := congrArg List.length (sizes_grid n.children)
    rw [List.length_map] at sizes
    rw [rowLengths_ofRow, List.length_map, List.length_range, sizes]
    split
    · rfl
    · exact List.length_dropLast
  have some := List.length_pos_iff.mpr (rowSizes_ne_nil (breaksOf n'.children))
  rw [rows, rows, breaks]
  cases endsOpen n.children <;> cases endsOpen n'.children <;> simp <;> omega

theorem length_alignCells (fromRow : Option String) (fromTable : List String) (column : Nat)
    (row : List Node) : (alignCells fromRow fromTable column row).length = row.length := by
  induction row generalizing column with
  | nil => rfl
  | cons cell rest ih =>
    unfold alignCells
    split <;> rw [List.length_cons, List.length_cons, ih]

theorem rowLengths_align (table : Node) : rowLengths (align table) = rowLengths table := by
  rw [rowLengths, align, List.map_map, rowLengths]
  refine List.map_congr_left fun row _ => ?_
  rw [Function.comp_apply, alignRow]
  split
  · exact length_alignCells _ _ _ _
  · rfl

end TexFormula.Table

namespace TexFormula.Environment

open Formula (breaksIn readJob readers)
open Table (breaksOf endsOpen grid rowLengths SameSpans)

variable {o : Options} {depth : Nat} {bound : Queue} {n n' : Node} {t : Token} {c : Context}
  {content content' : List Token} {s : Scope}

/-! ### Environments -/

theorem length_alignFirstCell (row : List Node) : (alignFirstCell row).length = row.length := by
  induction row with
  | nil => rfl
  | cons cell rest ih =>
    unfold alignFirstCell
    split
    · rfl
    · rw [List.length_cons, List.length_cons, ih]

theorem rowLengths_dress? {name : String} {dressed : Node} (given : dress? name n = some dressed) :
    rowLengths dressed = rowLengths n := by
  unfold dress? at given
  split at given
  case h_7 | h_8 | h_9 =>
    cases given
    rw [rowLengths, List.map_map, rowLengths]
    exact List.map_congr_left fun row _ => length_alignFirstCell _
  all_goals cases given
  all_goals rfl

/-- In the frame of an environment stands the table of its content, row by row and cell by cell. -/
theorem exists_rows_of_frame (tabular : c.table = true) (n : Node) (name : String) :
    ∃ table, (frame n name c = table ∨ table ∈ (frame n name c).children) ∧
      table.tag = "mtable" ∧ rowLengths table = rowLengths (Table.ofRow n) := by
  unfold frame
  rw [if_pos tabular]
  dsimp only
  cases dressed : dress? (plainName name) (Table.ofRow n) with
  | none => exact ⟨_, .inl rfl, rfl, rfl⟩
  | some table =>
    refine ⟨Table.align table, .inr ?_, (rowspacing_dress? dressed).1, ?_⟩
    · exact List.mem_append_right _ List.mem_cons_self
    · rw [Table.rowLengths_align, rowLengths_dress? dressed]

/-- The breaks that reading the content of an environment comes to. -/
def contentBreaks (o : Options) (depth : Nat) (t : Token) (c : Context) (content : List Token)
    (s : Scope) : List Bool :=
  let job := contentJob t c content
  breaksIn o depth job.context job.queue s

/-- The content of an environment is the row that is put together of the nodes that are read. -/
theorem children_content (gives : (readJob o depth (contentJob t c content) s).1 = some n) :
    let job := contentJob t c content
    n.children = Row.arrange (Formula.readRow o depth job.context job.queue {} s).1.nodes := by
  intro job
  let nodes := (Formula.readRow o depth job.context job.queue {} s).1.nodes
  have parent : job.parent = some (.element "mrow") := Plan.parent_start _ _ _
  have finished : job.finish nodes =
      some { (Node.element "mrow").append nodes with option := job.option }.arrange := by
    unfold Job.finish
    rw [parent]
    rfl
  have all := (Formula.readJob_fst o depth job s).trans finished
  obtain rfl := Option.some.inj (gives.symm.trans all)
  rfl

/-- The content of an environment has the breaks that reading it comes to. -/
theorem sublist_content (gives : (readJob o depth (contentJob t c content) s).1 = some n) :
    (contentBreaks o depth t c content s).Sublist (breaksOf n.children) := by
  let job := contentJob t c content
  have start : (([] : List Bool).map Formula.breakNode).Sublist ({} : Row.Draft).nodes :=
    List.nil_sublist _
  rw [children_content gives]
  exact Formula.sublist_arrange
    (Formula.sublist_readRow o depth job.context job.queue {} s start)

/-- Whether nothing but the breaks that the reading of an environment comes to breaks its content
into cells. -/
def Undivided (o : Options) (depth : Nat) (t : Token) (c : Context) (content : List Token)
    (s : Scope) (n : Node) : Prop :=
  (readJob o depth (contentJob t c content) s).1 = some n ∧
    n.children.countP (·.marks.isBreak) = (contentBreaks o depth t c content s).length

/-- The context that the content of an environment is read in. -/
def contentContext (t : Token) (c : Context) : Context :=
  { context t.value t.kind.star c with takesArgument := false }

theorem table_contentContext (t : Token) (c : Context) :
    (contentContext t c).table = (context t.value t.kind.star c).table := by
  rw [contentContext]

theorem breaksOf_undivided (undivided : Undivided o depth t c content s n) :
    breaksOf n.children = contentBreaks o depth t c content s :=
  Formula.breaksOf_eq_of_count (sublist_content undivided.1) undivided.2

/-- Whether an environment shows a table whose rows have these numbers of cells. -/
def ShowsRows (o : Options) (depth : Nat) (t : Token) (c : Context)
    (short : content.length < bound.weight) (s : Scope) (lengths : List Nat) : Prop :=
  ∃ node table, ((Step.environment t c content short).run (readers o depth bound).part s).1 =
      some node ∧
    (node = table ∨ table ∈ node.children) ∧ table.tag = "mtable" ∧ rowLengths table = lengths

/-- An environment shows the table of the content that it reads. -/
theorem showsRows_of_reads (tabular : (context t.value t.kind.star c).table = true)
    (short : content.length < bound.weight)
    (gives : (readJob o depth (contentJob t c content) s).1 = some n) :
    ShowsRows o depth t c short s (rowLengths (Table.ofRow n)) := by
  obtain ⟨table, framed, tag, rows⟩ := exists_rows_of_frame tabular n t.value
  exact ⟨_, table, run_environment short gives, framed, tag, rows⟩

/-- Two contents whose readings come to the same breaks. If one of them is divided by nothing else,
then the other one is divided by nothing else exactly if it has the same breaks. Then both are shown
with as many rows unless one of them ends in a row break and the other one does not, and the rows
have as many cells if the cells ask to span the same. -/
theorem grid_of_contentBreaks (tabular : (context t.value t.kind.star c).table = true)
    (short : content.length < bound.weight) (short' : content'.length < bound.weight)
    (gives : (readJob o depth (contentJob t c content) s).1 = some n)
    (undivided' : Undivided o depth t c content' s n')
    (breaks : contentBreaks o depth t c content s = contentBreaks o depth t c content' s) :
    let lengths := rowLengths (Table.ofRow n)
    let lengths' := rowLengths (Table.ofRow n')
    (Undivided o depth t c content s n ↔ breaksOf n.children = breaksOf n'.children) ∧
      (Undivided o depth t c content s n →
        ShowsRows o depth t c short s lengths ∧ ShowsRows o depth t c short' s lengths' ∧
          (lengths.length = lengths'.length ↔ endsOpen n.children = endsOpen n'.children) ∧
          (lengths.length = lengths'.length → SameSpans (grid n.children) (grid n'.children) →
            lengths = lengths')) := by
  have equivalent : Undivided o depth t c content s n ↔
      breaksOf n.children = breaksOf n'.children := by
    refine ⟨fun undivided => ?_, fun same => ⟨gives, ?_⟩⟩
    · rw [breaksOf_undivided undivided, breaksOf_undivided undivided', breaks]
    · rw [← Table.length_breaksOf, same, breaksOf_undivided undivided', breaks]
  refine ⟨equivalent, fun undivided => ?_⟩
  have same := equivalent.mp undivided
  have rows := Table.length_rowLengths_iff_of_breaks same
  exact ⟨showsRows_of_reads tabular short gives, showsRows_of_reads tabular short' undivided'.1,
    rows, fun equal spans => Table.rowLengths_eq_of_breaks same (rows.mp equal) spans⟩

end TexFormula.Environment
