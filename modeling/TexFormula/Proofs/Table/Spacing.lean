import TexFormula.Proofs.Formula.Endings
import TexFormula.Proofs.Plan.Yields
import TexFormula.Proofs.Table.Coverage
import TexFormula.Proofs.Table.Trimming

/-! The spacing of the rows of a table. The end of a row can ask for space below it, and the node
that does so stands at the end of the last cell of its row. So the table has a spacing for a row as
its end asks for it, unless the last cell of the row has no place (`keptSpacing`); and the list that
the table says so with is as good without the values that repeat at its end
(`repeatedAt?_trimRepeats`). -/
namespace TexFormula.Table

open Formula (KeepsEnds)
open Node (placeholder)

variable {ends : List (Option Expr)} {n : Node} {nodes content front rest : List Node}

/-! ### Words -/

/-- Whether a text is one word. -/
def IsWord (text : String) : Prop :=
  text ≠ "" ∧ ∀ c ∈ text.toList, Text.isBlank c = false

theorem piecesAtBlanks_word {word : List Char} (solid : ∀ c ∈ word, Text.isBlank c = false) :
    Text.piecesAtBlanks word = [word] := by
  induction word with
  | nil => rfl
  | cons c word ih =>
    obtain ⟨here, later⟩ := List.forall_mem_cons.mp solid
    rw [Text.piecesAtBlanks, if_neg (Bool.eq_false_iff.mp here), ih later]

theorem piecesAtBlanks_append {word : List Char} (solid : ∀ c ∈ word, Text.isBlank c = false)
    (rest : List Char) :
    Text.piecesAtBlanks (word ++ ' ' :: rest) = word :: Text.piecesAtBlanks rest := by
  induction word with
  | nil => rfl
  | cons c word ih =>
    obtain ⟨here, later⟩ := List.forall_mem_cons.mp solid
    rw [List.cons_append, Text.piecesAtBlanks, if_neg (Bool.eq_false_iff.mp here), ih later]

/-- The words of a text of words with blanks between them. -/
theorem words_intercalate {words : List String} (are : ∀ word ∈ words, IsWord word) :
    Text.words (" ".intercalate words) = words := by
  induction words with
  | nil => rfl
  | cons word words ih =>
    obtain ⟨⟨some, solid⟩, later⟩ := List.forall_mem_cons.mp are
    have kept : word.toList ≠ [] := fun empty => some (String.toList_eq_nil_iff.mp empty)
    cases words with
    | nil =>
      rw [String.intercalate_singleton, Text.words, piecesAtBlanks_word solid]
      simp [kept]
    | cons next more =>
      have rest := ih later
      have cut : (word ++ " " ++ " ".intercalate (next :: more)).toList =
          word.toList ++ ' ' :: (" ".intercalate (next :: more)).toList := by
        simp
      rw [Text.words] at rest
      rw [String.intercalate_cons_cons, Text.words, cut, piecesAtBlanks_append solid,
        List.filter_cons_of_pos (by simpa using kept), List.map_cons, rest, String.ofList_toList]

/-! ### The spacing of a table -/

theorem spacing?_of_silent (silent : ∀ m ∈ content, m.attribute? "rowspacing" = none) :
    spacing? content = none := by
  rw [spacing?, List.filterMap_eq_nil_iff.mpr silent]
  rfl

/-- The list of what the rows of a table ask for, with the preset space where they ask for none. -/
def entries (asked : Nat → Option String) (count : Nat) : List String :=
  (List.range count).map fun r => (asked r).getD presetSpacing

theorem spacingText?_eq (lines : List Line) {asked : Nat → Option String} {count : Nat}
    (are : lines.map Line.spacing = (List.range count).map asked) :
    spacingText? lines = if ∃ r < count, (asked r).isSome then
      some (" ".intercalate (trimRepeats (entries asked count))) else none := by
  have any : lines.any (·.spacing.isSome) = true ↔ ∃ r < count, (asked r).isSome = true := by
    have same : lines.any (·.spacing.isSome) = (lines.map Line.spacing).any Option.isSome := by
      rw [List.any_map]
      rfl
    rw [same, are]
    simp
  have list : lines.map (·.spacing.getD presetSpacing) = entries asked count := by
    have same : lines.map (·.spacing.getD presetSpacing) =
        (lines.map Line.spacing).map (·.getD presetSpacing) := by
      rw [List.map_map]
      rfl
    rw [same, are, List.map_map]
    rfl
  rw [spacingText?, list]
  simp only [any]

/-- A table has the spacing that its rows ask for. -/
theorem rowspacing_ofRow (silent : n.attribute? "rowspacing" = none) :
    (ofRow n).attribute? "rowspacing" =
      spacingText? (layLines (columnsOf n) [] (rows n.children)) := by
  have silent : n.attributes.get? "rowspacing" = none := silent
  simp only [ofRow, columnsOf, Node.attribute?, Node.setAttribute, Dictionary.get?_insert]
  rw [if_neg (by decide)]
  cases spacingText? _ <;> cases ColumnSpec.rulesText? _ <;>
    simp [Dictionary.get?_insert, silent]

/-! ### Rows and their ends -/

/-- Whether a node asks for space below its row. -/
def asksSpace (n : Node) : Bool :=
  (n.attribute? "rowspacing").isSome

theorem attribute?_spacing (e : Expr) :
    (Step.spacing e).attribute? "rowspacing" = some (Token.spellingAll e.inner) :=
  (Dictionary.get?_insert _ _ _ _).trans (if_pos rfl)

theorem silent_of_countP (none : content.countP asksSpace = 0) :
    ∀ m ∈ content, m.attribute? "rowspacing" = .none := by
  intro m member
  have silent := List.countP_eq_zero.mp none m member
  exact Option.not_isSome_iff_eq_none.mp silent

/-- Whether the content of a row asks for space as its end does, and nothing else in it does. -/
inductive EndsWith : Option Expr → List Node → Prop where
  | bare {content : List Node} (silent : ∀ m ∈ content, m.attribute? "rowspacing" = none) :
      EndsWith none content
  | spaced {front : List Node} (silent : ∀ m ∈ front, m.attribute? "rowspacing" = none)
      (asked : Expr) (count : Nat) :
      EndsWith (some asked) (front ++ Step.spacing asked :: List.replicate count placeholder)

theorem countP_spaced (front : List Node) (asked : Expr) (count : Nat) :
    (front ++ Step.spacing asked :: List.replicate count placeholder).countP asksSpace =
      front.countP asksSpace + 1 := by
  have asks : asksSpace (Step.spacing asked) = true := by rw [asksSpace, attribute?_spacing]; rfl
  have silent : (List.replicate count placeholder).countP asksSpace = 0 :=
    List.countP_eq_zero.mpr fun m member => by
      rw [List.eq_of_mem_replicate member]
      decide
  rw [List.countP_append, List.countP_cons_of_pos asks, silent]

theorem asks_of_spaced {e : Option Expr} {row : List Node}
    (spaced : ∀ asked ∈ e, ∃ front count,
      row = front ++ Step.spacing asked :: List.replicate count placeholder) :
    (if e.isSome = true then 1 else 0) ≤ row.countP asksSpace := by
  cases e with
  | none => exact Nat.zero_le _
  | some asked =>
    obtain ⟨front, count, rfl⟩ := spaced asked rfl
    rw [countP_spaced]
    exact Nat.le_add_left _ _

/-- There are at least as many breaks as ends, and as many nodes that ask for space as ends do. -/
theorem counts_of_keepsEnds (kept : KeepsEnds ends nodes) :
    ends.length ≤ nodes.countP (·.marks.rowBreak) ∧
      ends.countP Option.isSome ≤ nodes.countP asksSpace := by
  induction ends generalizing nodes with
  | nil => exact ⟨Nat.zero_le _, Nat.zero_le _⟩
  | cons e ends ih =>
    obtain ⟨row, separator, rest, rfl, isBreak, spaced, later⟩ := kept
    obtain ⟨breaks, asks⟩ := ih later
    have here := asks_of_spaced spaced
    simp only [List.countP_append, List.countP_cons, List.length_cons, isBreak, if_true]
    omega

/-- If nothing but the ends of rows breaks rows or asks for space, then the rows end as these say,
and nothing asks for space behind them. -/
theorem endsWith_pieces (kept : KeepsEnds ends nodes)
    (breaks : nodes.countP (·.marks.rowBreak) = ends.length)
    (asks : nodes.countP asksSpace = ends.countP Option.isSome) :
    List.Forall₂ EndsWith (ends ++ [none]) (pieces (·.marks.rowBreak) nodes) := by
  induction ends generalizing nodes with
  | nil =>
    have inside : ∀ m ∈ nodes, m.marks.rowBreak = false := fun m member =>
      Bool.eq_false_iff.mpr (List.countP_eq_zero.mp breaks m member)
    rw [pieces_of_none inside]
    exact .cons (.bare (silent_of_countP asks)) .nil
  | cons e ends ih =>
    obtain ⟨row, separator, rest, rfl, isBreak, spaced, later⟩ := kept
    obtain ⟨breaksLater, asksLater⟩ := counts_of_keepsEnds later
    have here := asks_of_spaced spaced
    simp only [List.countP_append, List.countP_cons, List.length_cons, isBreak, if_true]
      at breaks asks
    -- Every count is met from below, so it is met part by part.
    have noBreak : row.countP (·.marks.rowBreak) = 0 := by omega
    have inside : ∀ m ∈ row, m.marks.rowBreak = false := fun m member =>
      Bool.eq_false_iff.mpr (List.countP_eq_zero.mp noBreak m member)
    have once : row.countP asksSpace = if e.isSome = true then 1 else 0 := by omega
    rw [pieces_append inside isBreak, List.cons_append]
    refine .cons ?_ (ih later (by omega) (by omega))
    cases e with
    | none => exact .bare (silent_of_countP once)
    | some asked =>
      obtain ⟨front, count, rfl⟩ := spaced asked rfl
      rw [countP_spaced] at once
      exact .spaced (silent_of_countP (Nat.succ.inj once)) asked count

/-! ### Cells and places -/

theorem pieces_append_of_inside {p : Node → Bool} (inside : ∀ m ∈ rest, p m = false)
    (front : List Node) : ∃ before last, pieces p front = before ++ [last] ∧
      pieces p (front ++ rest) = before ++ [last ++ rest] := by
  induction front with
  | nil => exact ⟨[], [], rfl, pieces_of_none inside⟩
  | cons m front ih =>
    obtain ⟨before, last, cut, cut'⟩ := ih
    cases here : p m with
    | true =>
      refine ⟨[] :: before, last, ?_, ?_⟩
      · rw [pieces_of_end here, cut, List.cons_append]
      · rw [List.cons_append, pieces_of_end here, cut', List.cons_append]
    | false =>
      cases before with
      | nil => exact ⟨[], m :: last, pieces_of_inside here cut, pieces_of_inside here cut'⟩
      | cons first before =>
        exact ⟨(m :: first) :: before, last, pieces_of_inside here cut, pieces_of_inside here cut'⟩

/-- The last column of a row of a grid. -/
def lastColumn (g : List (List (List Node))) (r : Nat) : Nat :=
  (g.getD r []).length - 1

/-- The spacing that the end of a row asks for. It is lost if the last cell of the row has no place.
-/
def keptSpacing (ends : List (Option Expr)) (n : Node) (r : Nat) : Option String :=
  if Laid (grid n.children) r (lastColumn (grid n.children) r) then
    (ends.getD r none).map fun e => Token.spellingAll e.inner
  else none

theorem spacing?_spaced (front : List Node) (asked : Expr) (count : Nat) :
    spacing? (front ++ Step.spacing asked :: List.replicate count placeholder) =
      some (Token.spellingAll asked.inner) := by
  have silent : (List.replicate count placeholder).filterMap (·.attribute? "rowspacing") = [] :=
    List.filterMap_eq_nil_iff.mpr fun m member => by
      rw [List.eq_of_mem_replicate member]
      rfl
  rw [spacing?, List.filterMap_append, List.filterMap_cons, attribute?_spacing, silent,
    List.getLast?_concat]

theorem laidColumns_of_length {g : List (List (List Node))} {r k : Nat}
    (length : (g.getD r []).length = k + 1) :
    laidColumns g r = (List.range k).filter (isFree (coverAt g r) (g.getD r [])) ++
      if Laid g r k then [k] else [] := by
  have inside : k < (g.getD r []).length := by omega
  rw [laidColumns, length, List.range_succ, List.filter_append, List.filter_singleton,
    Bool.cond_eq_ite]
  simp only [Laid, inside, true_and]

/-- In a row of a grid of which only the last cell asks for space, this counts if the cell has a
place. -/
theorem spacing?_laidNodes_of_last {g : List (List (List Node))} {r : Nat}
    {before : List (List Node)} {last : List Node} (row : g.getD r [] = before ++ [last])
    (silent : ∀ m ∈ before.flatten, m.attribute? "rowspacing" = none) :
    spacing? (laidNodes g r) = if Laid g r (lastColumn g r) then spacing? last else none := by
  have length : (g.getD r []).length = before.length + 1 := by
    rw [row, List.length_append, List.length_singleton]
  have column : lastColumn g r = before.length := by rw [lastColumn, length, Nat.add_sub_cancel]
  have atLast : cellAt g r before.length = last := by
    rw [cellAt, row, List.getD_eq_getElem?_getD, List.getElem?_concat_length, Option.getD_some]
  have quiet : spacing? (((List.range before.length).filter
      (isFree (coverAt g r) (g.getD r []))).flatMap (cellAt g r)) = none := by
    refine spacing?_of_silent fun m member => ?_
    obtain ⟨c, inRange, there⟩ := List.mem_flatMap.mp member
    have short : c < before.length := List.mem_range.mp (List.mem_filter.mp inRange).1
    rw [cellAt, row, List.getD_eq_getElem?_getD, List.getElem?_append_left short,
      ← List.getD_eq_getElem?_getD] at there
    exact silent m (mem_flatten_of_mem_getD there)
  rw [laidNodes, laidColumns_of_length length, column, List.flatMap_append, spacing?_append, quiet]
  split
  · rw [List.flatMap_singleton, atLast]
    cases spacing? last <;> rfl
  · rfl

/-- The cells of a row that have a place ask for the space that the end of the row asks for, if the
last cell has one. -/
theorem spacing?_laidNodes {g : List (List (List Node))} {r : Nat} {e : Option Expr}
    (row : g.getD r [] = cells content) (ends : EndsWith e content) :
    spacing? (laidNodes g r) = if Laid g r (lastColumn g r) then
      e.map fun e => Token.spellingAll e.inner else none := by
  have inPieces : ∀ front, ∀ m ∈ (pieces (·.marks.cellBreak) front).flatten, m ∈ front := by
    intro front m member
    rw [flatten_pieces] at member
    exact (List.mem_filter.mp member).1
  cases ends with
  | bare silent =>
    have nothing : spacing? (laidNodes g r) = none := by
      refine spacing?_of_silent fun m member => ?_
      obtain ⟨c, -, there⟩ := List.mem_flatMap.mp member
      rw [cellAt, row] at there
      exact silent m (inPieces content m (mem_flatten_of_mem_getD there))
    rw [nothing]
    split <;> rfl
  | @spaced front silent asked count =>
    have inside : ∀ m ∈ Step.spacing asked :: List.replicate count placeholder,
        m.marks.cellBreak = false := by
      refine List.forall_mem_cons.mpr ⟨rfl, fun m member => ?_⟩
      rw [List.eq_of_mem_replicate member]
      rfl
    obtain ⟨before, last, cutFront, cut⟩ :=
      pieces_append_of_inside (p := (·.marks.cellBreak)) inside front
    have quiet : ∀ m ∈ before.flatten, m.attribute? "rowspacing" = none := fun m member => by
      refine silent m (inPieces front m ?_)
      rw [cutFront, List.flatten_append]
      exact List.mem_append_left _ member
    rw [spacing?_laidNodes_of_last (row.trans cut) quiet, spacing?_spaced]
    rfl

/-! ### Tables whose rows end as they are asked to -/

/-- The rows are the pieces between the row breaks, but for an empty one at the end. -/
theorem rows_prefix (nodes : List Node) :
    rows nodes <+: pieces (·.marks.rowBreak) nodes ∧
      (pieces (·.marks.rowBreak) nodes).length ≤ (rows nodes).length + 1 := by
  unfold rows
  dsimp only
  split
  · exact ⟨List.dropLast_prefix _, by rw [List.length_dropLast]; omega⟩
  · exact ⟨List.prefix_rfl, Nat.le_succ _⟩

section Ends

variable (kept : KeepsEnds ends n.children)
  (breaks : n.children.countP (·.marks.rowBreak) = ends.length)
  (asks : n.children.countP asksSpace = ends.countP Option.isSome)
include kept breaks asks

theorem endsWith_row {r : Nat} (inside : r < (grid n.children).length) :
    ∃ content, (grid n.children).getD r [] = cells content ∧
      EndsWith (ends.getD r none) content := by
  obtain ⟨front, -⟩ := rows_prefix n.children
  have among : r < (rows n.children).length := by rwa [grid, List.length_map] at inside
  have some : r < (pieces (·.marks.rowBreak) n.children).length :=
    Nat.lt_of_lt_of_le among front.length_le
  obtain ⟨same, each⟩ := List.forall₂_iff_get.mp (endsWith_pieces kept breaks asks)
  have within : r < (ends ++ [none]).length := same ▸ some
  have wanted : (ends ++ [none])[r] = ends.getD r none := by
    rw [List.getElem_append]
    split
    case isTrue early => rw [List.getD_eq_getElem _ _ early]
    case isFalse late =>
      rw [List.getD_eq_default _ _ (Nat.le_of_not_lt late), List.getElem_singleton]
  have here := each r within some
  rw [List.get_eq_getElem, List.get_eq_getElem, ← front.getElem among, wanted] at here
  refine ⟨(rows n.children)[r], ?_, here⟩
  rw [grid, List.getD_eq_getElem?_getD, List.getElem?_map, List.getElem?_eq_getElem among]
  rfl

/-- A table whose rows end as some ends say has the spacing that these ask for, as far as the last
cells of the rows have a place. -/
theorem rowspacing_of_ends (silent : n.attribute? "rowspacing" = none) :
    (ofRow n).attribute? "rowspacing" =
      if ∃ r < (grid n.children).length, (keptSpacing ends n r).isSome then
        some (" ".intercalate (trimRepeats
          (entries (keptSpacing ends n) (grid n.children).length)))
      else none := by
  have asked : ∀ r ∈ List.range (grid n.children).length,
      spacing? (laidNodes (grid n.children) r) = keptSpacing ends n r := by
    intro r inside
    obtain ⟨content, row, ends⟩ := endsWith_row kept breaks asks (List.mem_range.mp inside)
    exact spacing?_laidNodes row ends
  have lines := (spacings_ofRow n).trans (List.map_congr_left asked)
  rw [rowspacing_ofRow silent, spacingText?_eq _ lines]

omit kept asks in
/-- There is a row for each end, and perhaps one behind the last. -/
theorem length_grid_of_ends : ends.length ≤ (grid n.children).length ∧
    (grid n.children).length ≤ ends.length + 1 := by
  obtain ⟨front, almost⟩ := rows_prefix n.children
  have most := front.length_le
  rw [length_pieces, breaks] at almost most
  rw [grid, List.length_map]
  omega

end Ends

theorem isWord_presetSpacing : IsWord presetSpacing := by
  have letters : presetSpacing.toList = ['1', '.', '0', 'e', 'x'] := by simp [presetSpacing]
  refine ⟨by decide, ?_⟩
  rw [letters]
  simp only [List.forall_mem_cons]
  exact ⟨rfl, rfl, rfl, rfl, rfl, List.forall_mem_nil _⟩

/-- What a table asks for is in words if what the ends ask for is. -/
theorem isWord_of_mem_entries
    (words : ∀ asked, some asked ∈ ends → IsWord (Token.spellingAll asked.inner)) {count : Nat}
    {word : String} (member : word ∈ entries (keptSpacing ends n) count) : IsWord word := by
  obtain ⟨r, -, rfl⟩ := List.mem_map.mp member
  unfold keptSpacing
  split
  case isTrue =>
    cases found : ends.getD r none with
    | none => exact isWord_presetSpacing
    | some asked =>
      have inside : some asked ∈ ends := by
        rw [List.getD_eq_getElem?_getD] at found
        cases there : ends[r]? with
        | none =>
          rw [there] at found
          cases found
        | some e =>
          rw [there] at found
          exact found ▸ List.mem_of_getElem? there
      exact words asked inside
  case isFalse => exact isWord_presetSpacing

end TexFormula.Table

namespace TexFormula.Environment

open Formula (KeepsEnds readJob readers rowEnds)
open Table (grid keptSpacing)

variable {o : Options} {depth : Nat} {bound : Queue} {ends : List (Option Expr)} {n : Node}

/-! ### Environments -/

/-- What an environment puts on its table does not matter to the space between the rows. -/
theorem rowspacing_dress? {name : String} {dressed : Node} (given : dress? name n = some dressed) :
    dressed.tag = n.tag ∧ dressed.children.length = n.children.length ∧
      dressed.attribute? "rowspacing" = n.attribute? "rowspacing" := by
  unfold dress? at given
  split at given
  all_goals cases given
  all_goals
    refine ⟨rfl, by simp [Node.setAttributes, alignNode, Node.setAttribute, Node.setCss], ?_⟩
    simp [Node.attribute?, Node.setAttributes, alignNode, Node.setAttribute, Node.setCss,
      Dictionary.get?_insert]

/-- In the frame of an environment stands the table of its content. -/
theorem exists_table_of_frame {c : Context} (tabular : c.table = true) (n : Node) (name : String) :
    ∃ table, (frame n name c = table ∨ table ∈ (frame n name c).children) ∧
      table.tag = "mtable" ∧ table.children.length = (Table.ofRow n).children.length ∧
      table.attribute? "rowspacing" = (Table.ofRow n).attribute? "rowspacing" := by
  unfold frame
  rw [if_pos tabular]
  dsimp only
  cases dressed : dress? (plainName name) (Table.ofRow n) with
  | none => exact ⟨_, .inl rfl, rfl, rfl, rfl⟩
  | some table =>
    obtain ⟨tag, length, spacing⟩ := rowspacing_dress? dressed
    refine ⟨Table.align table, .inr ?_, tag, ?_, spacing⟩
    · exact List.mem_append_right _ List.mem_cons_self
    · rw [Table.align, List.length_map, length]

/-- The job of reading the content of an environment. -/
def contentJob (t : Token) (c : Context) (content : List Token) : Job :=
  .start (.ofTokens content) (context t.value t.kind.star c) (some (.element "mrow"))

/-- The ends of rows that reading the content of an environment comes to. -/
def contentEnds (o : Options) (depth : Nat) (t : Token) (c : Context) (content : List Token)
    (s : Scope) : List (Option Expr) :=
  let job := contentJob t c content
  rowEnds o depth job.context job.queue s

/-- The content of an environment has the ends of rows that reading it comes to. -/
theorem exists_content (o : Options) (depth : Nat) (t : Token) (c : Context)
    (content : List Token) (s : Scope) :
    ∃ n, (readJob o depth (contentJob t c content) s).1 = some n ∧
      n.attribute? "rowspacing" = none ∧
      KeepsEnds (contentEnds o depth t c content s) n.children := by
  let job := contentJob t c content
  let nodes := (Formula.readRow o depth job.context job.queue {} s).1.nodes
  let n : Node := { (Node.element "mrow").append nodes with option := job.option }
  have has : Formula.HasEnds ([] ++ rowEnds o depth job.context job.queue s) nodes :=
    Formula.hasEnds_readRow o depth job.context job.queue {} s trivial
  have parent : job.parent = some (.element "mrow") := Plan.parent_start _ _ _
  have finished : job.finish nodes = some n.arrange := by
    unfold Job.finish
    rw [parent]
    rfl
  have gives := (Formula.readJob_fst o depth job s).trans finished
  exact ⟨n.arrange, gives, rfl, Formula.keepsEnds_arrange has⟩

/-- An environment gives its content in its frame. -/
theorem run_environment {t : Token} {c : Context} {content : List Token} {s : Scope}
    (short : content.length < bound.weight)
    (gives : (readJob o depth (contentJob t c content) s).1 = some n) :
    ((Step.environment t c content short).run (readers o depth bound).part s).1 =
      some (frame n t.value (context t.value t.kind.star c)) := by
  have run : ((Step.environment t c content short).run (readers o depth bound).part s).1 =
      some (frame ((readJob o depth (contentJob t c content) s).1.getD {}) t.value
        (context t.value t.kind.star c)) := rfl
  rw [run, gives, Option.getD_some]

/-! ### Main result -/

/-- An environment keeps the space that the end of a row asks for as the entry of that row, in a list
whose last entry goes on for the rows behind it; a row that asks for none has the preset one. Where
no row has a space to keep, there is no list. What the end of a row asks for is lost if a cell above
or to the left of the last cell of that row covers it (`keptSpacing`). -/
theorem row_spacing_of_ends {t : Token} {c : Context} {content : List Token}
    (short : content.length < bound.weight) (s : Scope)
    (tabular : (context t.value t.kind.star c).table = true)
    (gives : (readJob o depth (contentJob t c content) s).1 = some n)
    (comes : contentEnds o depth t c content s = ends)
    (breaks : n.children.countP (·.marks.rowBreak) = ends.length)
    (asks : n.children.countP Table.asksSpace = ends.countP Option.isSome) :
    ∃ node table, ((Step.environment t c content short).run (readers o depth bound).part s).1 =
        some node ∧
      (node = table ∨ table ∈ node.children) ∧ table.tag = "mtable" ∧
      table.children.length = (grid n.children).length ∧
      ends.length ≤ table.children.length ∧ table.children.length ≤ ends.length + 1 ∧
      (table.attribute? "rowspacing" = none ↔
        ∀ r < table.children.length, keptSpacing ends n r = none) ∧
      ∀ text, table.attribute? "rowspacing" = some text → ∃ listed, text = " ".intercalate listed ∧
        (∀ r < table.children.length,
          repeatedAt? listed r = some ((keptSpacing ends n r).getD Table.presetSpacing)) ∧
        ((∀ asked, some asked ∈ ends → Table.IsWord (Token.spellingAll asked.inner)) →
          Text.words text = listed) := by
  obtain ⟨n', given, silent, kept⟩ := exists_content o depth t c content s
  obtain rfl : n = n' := Option.some.inj (gives.symm.trans given)
  obtain ⟨table, framed, tag, length, spacing⟩ := exists_table_of_frame tabular n t.value
  have run := run_environment short gives
  subst comes
  have rows : table.children.length = (grid n.children).length := by
    rw [length, Table.children_ofRow, List.length_map, List.length_range]
  obtain ⟨most, least⟩ := Table.length_grid_of_ends breaks
  rw [Table.rowspacing_of_ends kept breaks asks silent] at spacing
  refine ⟨_, table, run, framed, tag, rows, rows ▸ most, rows ▸ least, ?_, fun text given => ?_⟩
  · rw [rows, spacing, ite_eq_right_iff]
    simp [Option.eq_none_iff_forall_not_mem]
  · rw [rows]
    rw [spacing] at given
    split at given
    case isFalse => cases given
    case isTrue =>
      obtain rfl := Option.some.inj given
      refine ⟨_, rfl, fun r inside => ?_, fun words => ?_⟩
      · have within : r < (Table.entries (keptSpacing (contentEnds o depth t c content s) n)
            (grid n.children).length).length := by
          rwa [Table.entries, List.length_map, List.length_range]
        rw [Table.repeatedAt?_trimRepeats, Table.repeatedAt?_of_lt within]
        simp only [Table.entries, List.getElem_map, List.getElem_range]
      · exact Table.words_intercalate fun word member =>
          Table.isWord_of_mem_entries words (Table.mem_of_mem_trimRepeats member)

/-- Three rows, of which the first asks for space and has its last cell. -/
theorem row_spacing_of_ends_matrix :
    let letter (value : String) : Token := { kind := { letter := true }, value }
    let separator : Token := { kind := { reserved := true }, value := "&" }
    let rowEnd : Token := { kind := { command := true }, value := "\\" }
    let opener : Token := { kind := { opens := true }, value := "[", offset := 4 }
    let closer : Token := { kind := { closes := true }, value := "]", offset := -4 }
    let content := [letter "a", separator, letter "b", rowEnd, opener,
      { kind := { number := true }, value := "2" }, letter "e", letter "x", closer, letter "c",
      rowEnd, letter "d"]
    let matrix : Token := { kind := { env := true, opens := true }, value := "matrix" }
    let bound : Queue := [⟨.environment, matrix, content⟩]
    ∃ node table text listed, ((Step.environment matrix {} content (Nat.lt_succ_self _)).run
        (readers {} 0 bound).part { macros := .empty }).1 = some node ∧
      (node = table ∨ table ∈ node.children) ∧ table.attribute? "rowspacing" = some text ∧
      Text.words text = listed ∧ repeatedAt? listed 0 = some "2ex" ∧
      repeatedAt? listed 1 = some "1.0ex" ∧ repeatedAt? listed 2 = some "1.0ex" := by
  intro letter separator rowEnd opener closer content matrix bound
  let c := context matrix.value matrix.kind.star {}
  let shown (value : String) : Node := .ofPlain (letter value) c
  let dim : Expr := ⟨.options, opener, (content.drop 5).take 4⟩
  let n : Node := .row [shown "a", Step.cellBreak, shown "b", Step.spacing dim, Step.rowBreak,
    shown "c", Step.rowBreak, shown "d"]
  have tabular : c.table = true := by decide
  have gives : (readJob {} 0 (contentJob matrix {} content) { macros := .empty }).1 = some n := by
    cbv
  have comes : contentEnds {} 0 matrix {} content { macros := .empty } = [some dim, none] := by cbv
  have breaks : n.children.countP (·.marks.rowBreak) = [some dim, none].length := by decide
  have asks : n.children.countP Table.asksSpace = [some dim, none].countP Option.isSome := by
    decide
  have short : content.length < bound.weight := Nat.lt_succ_self _
  obtain ⟨node, table, run, framed, -, rows, -, -, absent, reads⟩ :=
    row_spacing_of_ends short { macros := .empty } tabular gives comes breaks asks
  have three : table.children.length = 3 := rows.trans (by cbv)
  rw [three] at absent reads
  have first : keptSpacing [some dim, none] n 0 = some "2ex" := by cbv
  cases given : table.attribute? "rowspacing" with
  | none => cases first.symm.trans (absent.mp given 0 (by decide))
  | some text =>
    obtain ⟨listed, -, entries, words⟩ := reads text given
    have spelled : Token.spellingAll dim.inner = "2ex" := by cbv
    have solid : Table.IsWord "2ex" := by
      refine ⟨by decide, ?_⟩
      simp only [String.reduceToList, List.forall_mem_cons]
      exact ⟨rfl, rfl, rfl, List.forall_mem_nil _⟩
    refine ⟨node, table, text, listed, run, framed, given, words fun asked member => ?_, ?_, ?_, ?_⟩
    · obtain same | same := List.mem_pair.mp member <;> cases same
      exact spelled ▸ solid
    · exact (entries 0 (by decide)).trans (by cbv)
    · exact (entries 1 (by decide)).trans (by cbv)
    · exact (entries 2 (by decide)).trans (by cbv)

/-- The space that the end of a row asks for is lost where the last cell of the row is covered by
one to its left. -/
theorem spacing_lost_with_covered_cell :
    ¬ ∀ (nodes : List Node) (ends : List (Option Expr)), Formula.HasEnds ends nodes →
      (Row.arrange nodes).countP (·.marks.rowBreak) = ends.length →
      (Row.arrange nodes).countP Table.asksSpace = ends.countP Option.isSome →
      ((Table.ofRow (Node.row nodes).arrange).attribute? "rowspacing" = none ↔
        ∀ e ∈ ends, e = none) := by
  intro reads
  let wide := (Node.leaf "mi" "a").setAttribute "columnspan" "2"
  let dim : Expr := ⟨.options, { kind := { opens := true }, value := "[" },
    [{ kind := { number := true }, value := "2" }, { kind := { closes := true }, value := "]" }]⟩
  let nodes := [wide, Step.cellBreak, Step.spacing dim, Step.rowBreak, Node.leaf "mi" "b"]
  have has : Formula.HasEnds [some dim] nodes := ⟨[wide, Step.cellBreak], [_], rfl, trivial⟩
  have none := (reads nodes _ has (by cbv) (by cbv)).mp (by cbv)
  cases none _ List.mem_cons_self

end TexFormula.Environment
