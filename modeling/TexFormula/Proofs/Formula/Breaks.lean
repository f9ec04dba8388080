import TexFormula.Proofs.Formula.Endings
import TexFormula.Proofs.Table.Cutting

/-! The breaks of a table. Where the body of a table is read, some expressions are breaks between
cells or rows, and which ones a reading comes to is said here by following the queue alone
(`breaksIn`). The nodes that are read have these breaks among them, in this order
(`sublist_readRow`), and so has the row that is put together of them (`sublist_arrange`). The row
can have others besides, if a group or a command gives one as its node. -/
namespace TexFormula

/-- The breaks among nodes, in their order: whether each of them ends a row. -/
def Table.breaksOf (nodes : List Node) : List Bool :=
  (nodes.filter (·.marks.isBreak)).map (·.marks.rowBreak)

theorem Table.length_breaksOf (nodes : List Node) :
    (breaksOf nodes).length = nodes.countP (·.marks.isBreak) := by
  rw [breaksOf, List.length_map, List.countP_eq_length_filter]

theorem Table.breaksOf_append (front rest : List Node) :
    breaksOf (front ++ rest) = breaksOf front ++ breaksOf rest := by
  rw [breaksOf, List.filter_append, List.map_append, breaksOf, breaksOf]

namespace Formula

variable {o : Options} {depth : Nat} {c : Context} {bound : Queue} {breaks : List Bool}
  {nodes rest : List Node} {d : Row.Draft} {s : Scope}

/-! ### Reading -/

/-- The node of a break. -/
def breakNode (row : Bool) : Node :=
  if row then Step.rowBreak else Step.cellBreak

/-- The break that an expression in front of a queue makes, if it makes one. -/
def break? (c : Context) (e : Expr) : Option Bool :=
  if c.table && (e.kind == .single || e.kind == .options) then
    if e.first.isCellBreak then some false else if e.first.isRowBreak then some true else none
  else none

/-- The breaks that reading a queue comes to. -/
def breaksIn (o : Options) (depth : Nat) (c : Context) (q : Queue) (s : Scope) : List Bool :=
  match q with
  | [] => []
  | e :: rest =>
    let progress := perform (readers o depth (e :: rest)) c (Step.ofExpr o s.macros c e rest) {} s
    (break? c e).toList ++ breaksIn o depth c progress.rest.val progress.scope
termination_by q.weight
decreasing_by exact progress.rest.property

theorem separator_breakNode (row : Bool) : Row.Separator (breakNode row) := by
  cases row
  · exact Row.separator_breaks.1
  · exact Row.separator_breaks.2

theorem rowBreak_breakNode (row : Bool) : (breakNode row).marks.rowBreak = row := by
  cases row <;> rfl

/-- Nodes with another node behind them have the breaks already. -/
theorem sublist_of_concat {last : Node} (has : (breaks.map breakNode).Sublist (nodes ++ [last]))
    (other : ∀ row, last ≠ breakNode row) : (breaks.map breakNode).Sublist nodes := by
  obtain ⟨front, behind, whole, before, single⟩ := List.sublist_append_iff.mp has
  rcases List.sublist_singleton.mp single with empty | full
  · rwa [whole, empty, List.append_nil]
  · have member : last ∈ breaks.map breakNode := by
      rw [whole, full]
      exact List.mem_append_right _ (List.mem_singleton_self last)
    obtain ⟨row, -, same⟩ := List.mem_map.mp member
    exact absurd same.symm (other row)

/-- The breaks of a row stay there. -/
theorem enduring_breaks (breaks : List Bool) :
    Enduring fun nodes => (breaks.map breakNode).Sublist nodes := by
  refine ⟨fun has more => has.trans (List.sublist_append_left _ more), fun has text => ?_⟩
  refine sublist_of_concat has ?_
  rintro row rfl
  cases row <;> simp [Row.Draft.isText, breakNode, Step.rowBreak, Step.cellBreak] at text

/-- The step for a break puts it behind the row, with nothing that breaks in front of it. -/
theorem action_of_break {e : Expr} {row : Bool} (found : break? c e = some row) (o : Options)
    (macros : Macro.Table) (rest : Queue) :
    ∃ front, (Step.ofExpr o macros c e rest).action = .place (front ++ [breakNode row]) ∧
      ∀ n ∈ front, n.marks.isBreak = false := by
  obtain ⟨kind, t, more⟩ := e
  have places (q : Queue.Below (⟨kind, t, more⟩ :: rest)) (table : c.table = true)
      (which : (if t.isCellBreak then some false else if t.isRowBreak then some true else none) =
        some row) :
      ∃ front, (Step.single o macros t c q).1 = .place (front ++ [breakNode row]) ∧
        ∀ n ∈ front, n.marks.isBreak = false := by
    split at which
    case isTrue cell =>
      cases which
      refine ⟨[], ?_, List.forall_mem_nil _⟩
      rw [Step.single, if_pos (by rw [table, cell]; rfl)]
      rfl
    case isFalse =>
      split at which
      case isTrue ends =>
        cases which
        rw [single_of_isRowBreak table ends, endRow_eq]
        refine ⟨_, rfl, fun n member => ?_⟩
        obtain ⟨spacing, -, rfl⟩ := Option.mem_map.mp (Option.mem_toList.mp member)
        rfl
      case isFalse => cases which
  unfold break? at found
  split at found
  case isFalse => cases found
  case isTrue among =>
    obtain ⟨table, shape⟩ := Bool.and_eq_true_iff.mp among
    cases kind with
    | single => exact places _ table found
    | options => exact places _ table found
    | _ => cases shape

/-- The nodes that are read have the breaks among them that the queue comes to. -/
theorem sublist_readRow (o : Options) (depth : Nat) (c : Context) (q : Queue) (d : Row.Draft)
    (s : Scope) {breaks : List Bool} (has : (breaks.map breakNode).Sublist d.nodes) :
    ((breaks ++ breaksIn o depth c q s).map breakNode).Sublist
      (readRow o depth c q d s).1.nodes := by
  match q with
  | [] =>
    rw [breaksIn, List.append_nil, readRow]
    exact has
  | e :: rest =>
    let step := Step.ofExpr o s.macros c e rest
    let progress := perform (readers o depth (e :: rest)) c step d s
    obtain ⟨left, after⟩ := perform_draft (readers o depth (e :: rest)) c step {} d s
    have shorter : progress.rest.val.weight < Queue.weight (e :: rest) := progress.rest.property
    have placed : ((breaks ++ (break? c e).toList).map breakNode).Sublist
        progress.draft.nodes := by
      cases found : break? c e with
      | none =>
        rw [Option.toList_none, List.append_nil]
        exact (enduring_breaks breaks).perform has _ c step s
      | some row =>
        obtain ⟨front, place, -⟩ := action_of_break found o s.macros rest
        have draft : progress.draft = d.place (front ++ [breakNode row]) := by
          simp only [progress, step, perform, place]
        rw [draft, nodes_place, Option.toList_some, List.map_append]
        exact has.append (List.sublist_append_right _ _)
    rw [readRow_cons, breaksIn, ← List.append_assoc, left, after]
    exact sublist_readRow o depth c progress.rest.val progress.draft progress.scope placed
termination_by q.weight

/-! ### The row that is put together -/

/-- Without the switches in front, nodes have the same breaks. -/
theorem sublist_dropSwitches (has : (breaks.map breakNode).Sublist nodes) :
    (breaks.map breakNode).Sublist (nodes.dropWhile (·.marks.isLimitSwitch)) := by
  rw [← List.takeWhile_append_dropWhile (p := (·.marks.isLimitSwitch)) (l := nodes)] at has
  obtain ⟨front, behind, whole, before, later⟩ := List.sublist_append_iff.mp has
  have none : front = [] := by
    refine List.eq_nil_iff_forall_not_mem.mpr fun n member => ?_
    have switch := List.mem_takeWhile_imp (before.subset member)
    obtain ⟨row, -, rfl⟩ := List.mem_map.mp (whole ▸ List.mem_append_left behind member)
    rw [(separator_breakNode row).noSwitch] at switch
    cases switch
  rwa [whole, none, List.nil_append]

/-- A break that switches act on is the same break. -/
theorem breaksOf_switchBreak (row : Bool) (behind rest : List Node) :
    Table.breaksOf (Row.switchBreak (breakNode row) behind :: rest) =
      row :: Table.breaksOf rest := by
  have ends : (Row.switchBreak (breakNode row) behind).marks.isBreak = true :=
    ((separator_breakNode row).obey _).ends
  have first : (Row.switchBreak (breakNode row) behind).marks.rowBreak = row :=
    (rowBreak_obey _ _).trans (rowBreak_breakNode row)
  rw [Table.breaksOf, List.filter_cons, if_pos ends, List.map_cons, first, Table.breaksOf]

/-- The row that is put together has the breaks of the nodes that were read. -/
theorem sublist_arrange (has : (breaks.map breakNode).Sublist nodes) :
    breaks.Sublist (Table.breaksOf (Row.arrange nodes)) := by
  induction breaks generalizing nodes with
  | nil => exact List.nil_sublist _
  | cons row breaks ih =>
    obtain ⟨front, rest, rfl, inside, later⟩ := List.cons_sublist_iff.mp has
    obtain ⟨before, behind, rfl⟩ := List.append_of_mem inside
    rw [List.append_assoc, List.cons_append, (separator_breakNode row).arrange_append,
      Table.breaksOf_append, breaksOf_switchBreak]
    refine List.Sublist.trans ?_ (List.sublist_append_right _ _)
    have onward := later.trans (List.sublist_append_right behind rest)
    exact (ih (sublist_dropSwitches onward)).cons_cons row

/-- If a row has as many breaks as a reading comes to, these are its breaks. -/
theorem breaksOf_eq_of_count (has : breaks.Sublist (Table.breaksOf nodes))
    (count : nodes.countP (·.marks.isBreak) = breaks.length) : Table.breaksOf nodes = breaks := by
  refine (has.eq_of_length ?_).symm
  rw [Table.length_breaksOf, count]

end Formula

end TexFormula
