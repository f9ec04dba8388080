import TexFormula.Formula
import TexFormula.Proofs.Row.Cells

/-! The ends of the rows of a table. Where the body of a table is read, a break between rows ends a
row, and an expression in square brackets behind it asks for the space below that row. Which ends
there are is said here by following the queue alone (`rowEnds`). The nodes that are read have just
these ends among them, in this order (`hasEnds_readRow`), and so has the row that is put together of
them: the node that asks for space is then still the last one of its row, but for placeholders
(`keepsEnds_arrange`). -/
namespace TexFormula.Formula

open Node (placeholder)

variable {o : Options} {depth : Nat} {c : Context} {bound : Queue} {ends : List (Option Expr)}
  {nodes rest : List Node} {last : Node} {e : Option Expr} {d : Row.Draft}

/-! ### Reading -/

/-- How the jobs of a step are done at a depth of calls inside each other. -/
def readers (o : Options) (depth : Nat) (bound : Queue) : Readers bound where
  part := fun job _ => readJob o depth job
  call? := if depth < Macro.maxDepth then some (readJob o (depth + 1)) else none

theorem readRow_cons (o : Options) (depth : Nat) (c : Context) (e : Expr) (rest : Queue)
    (d : Row.Draft) (s : Scope) :
    readRow o depth c (e :: rest) d s =
      let progress := perform (readers o depth (e :: rest)) c (Step.ofExpr o s.macros c e rest) d s
      readRow o depth c progress.rest.val progress.draft progress.scope := by
  rw [readRow]
  rfl

theorem readJob_fst (o : Options) (depth : Nat) (job : Job) (s : Scope) :
    (readJob o depth job s).1 =
      job.finish (readRow o depth job.context job.queue {} s).1.nodes := rfl

/-- What is left of the queue behind a step, and the scope, do not depend on what was read. -/
theorem perform_draft (readers : Readers bound) (c : Context) (step : Step bound)
    (d other : Row.Draft) (s : Scope) :
    (perform readers c step d s).rest = (perform readers c step other s).rest ∧
      (perform readers c step d s).scope = (perform readers c step other s).scope := by
  unfold perform
  cases step.action with
  | call name m =>
    simp only [call]
    split
    · exact ⟨rfl, rfl⟩
    · split
      · split <;> exact ⟨rfl, rfl⟩
      · exact ⟨rfl, rfl⟩
  | _ => exact ⟨rfl, rfl⟩

/-! ### What steps do to a row -/

/-- What a step does to the row that is being read. -/
inductive Change
  | keep
  | promote (marks : Marks)
  | place (nodes : List Node)
  | add (t : Token) (n : Node)

namespace Change

def apply (c : Context) (d : Row.Draft) : Change → Row.Draft
  | keep => d
  | promote marks => d.promote marks
  | place nodes => d.place nodes
  | add t n => d.add c t n

/-- The nodes that come into the row. -/
def added : Change → List Node
  | keep | promote _ => []
  | place nodes => nodes
  | add _ n => [n]

end Change

/-- What is shown for a call. -/
def callNode (readers : Readers bound) (c : Context) (name : String) (m : Macro)
    (rest : Queue.Below bound) (s : Scope) : Node :=
  match readers.call? with
  | none => Scope.refusal name
  | some read =>
    if s.calls < Scope.maxCalls then
      match s.callTokens name m (m.collectArguments name rest.val).1 with
      | .error e => Scope.failure name e
      | .ok tokens => (read (.start (.ofTokens tokens) c none) s.count).1.getD (.row [])
    else Scope.refusal name

/-- What a step does to the row, whatever stands in the row. -/
def change (readers : Readers bound) (c : Context) (step : Step bound) (s : Scope) : Change :=
  match step.action with
  | .skip | .define _ _ => .keep
  | .promote marks => .promote marks
  | .place nodes => .place nodes
  | .add plan => (plan.run readers.part s).1.elim .keep (.add step.token)
  | .call name m => .add step.token (callNode readers c name m step.rest s)

theorem draft_perform (readers : Readers bound) (c : Context) (step : Step bound) (d : Row.Draft)
    (s : Scope) :
    (perform readers c step d s).draft = (change readers c step s).apply c d := by
  unfold perform change
  cases step.action with
  | add plan =>
    dsimp only
    cases (plan.run readers.part s).1 <;> rfl
  | call name m =>
    simp only [call, callNode]
    cases readers.call? with
    | none => rfl
    | some read =>
      dsimp only
      by_cases room : s.calls < Scope.maxCalls
      · rw [if_pos room, if_pos room]
        cases s.callTokens name m (m.collectArguments name step.rest.val).1 <;> rfl
      · rw [if_neg room, if_neg room]
        rfl
  | _ => rfl

/-! ### Ends of rows -/

/-- The end of a row that an expression in front of a queue makes, if it makes one, with the
expression in square brackets behind it. -/
def rowEnd? (c : Context) (e : Expr) (rest : Queue) : Option (Option Expr) :=
  if c.table && e.first.isRowBreak then
    match e.kind with
    | .single => some rest.popOptions.1
    | .options => some (rest.splice e.rest).popOptions.1
    | _ => none
  else none

/-- The ends of rows that reading a queue comes to. -/
def rowEnds (o : Options) (depth : Nat) (c : Context) (q : Queue) (s : Scope) :
    List (Option Expr) :=
  match q with
  | [] => []
  | e :: rest =>
    let progress := perform (readers o depth (e :: rest)) c (Step.ofExpr o s.macros c e rest) {} s
    (rowEnd? c e rest).toList ++ rowEnds o depth c progress.rest.val progress.scope
termination_by q.weight
decreasing_by exact progress.rest.property

/-- The nodes for the end of a row. -/
def endNodes (e : Option Expr) : List Node :=
  (e.map Step.spacing).toList ++ [Step.rowBreak]

/-- Whether nodes have some ends of rows among them, in this order. -/
def HasEnds : List (Option Expr) → List Node → Prop
  | [], _ => True
  | e :: ends, nodes => ∃ row rest, nodes = row ++ (endNodes e ++ rest) ∧ HasEnds ends rest

theorem HasEnds.append (has : HasEnds ends nodes) (more : List Node) :
    HasEnds ends (nodes ++ more) := by
  induction ends generalizing nodes with
  | nil => trivial
  | cons e ends ih =>
    obtain ⟨row, rest, rfl, later⟩ := has
    exact ⟨row, rest ++ more, by simp only [List.append_assoc], ih later⟩

theorem HasEnds.concat (has : HasEnds ends nodes) (e : Option Expr) :
    HasEnds (ends ++ [e]) (nodes ++ endNodes e) := by
  induction ends generalizing nodes with
  | nil => exact ⟨nodes, [], by rw [List.append_nil], trivial⟩
  | cons e ends ih =>
    obtain ⟨row, rest, rfl, later⟩ := has
    exact ⟨row, rest ++ endNodes _, by simp only [List.append_assoc], ih later⟩

/-- A node that is no break between rows is behind all ends. -/
theorem HasEnds.of_append (has : HasEnds ends (nodes ++ [last])) (other : last ≠ Step.rowBreak) :
    HasEnds ends nodes := by
  induction ends generalizing nodes with
  | nil => trivial
  | cons e ends ih =>
    obtain ⟨row, rest, whole, later⟩ := has
    obtain rfl | ⟨front, n, rfl⟩ := List.eq_nil_or_concat' rest
    · rw [List.append_nil, endNodes, ← List.append_assoc] at whole
      exact absurd (List.append_singleton_inj.mp whole).2 other
    · rw [← List.append_assoc, ← List.append_assoc] at whole
      obtain ⟨rfl, rfl⟩ := List.append_singleton_inj.mp whole
      exact ⟨row, front, by rw [List.append_assoc], ih later⟩

theorem nodes_place (d : Row.Draft) (nodes : List Node) :
    (d.place nodes).nodes = d.nodes ++ nodes := by
  rw [Row.Draft.nodes, Row.Draft.place, List.reverse_append, List.reverse_reverse, Row.Draft.nodes]

/-- A node comes behind the nodes of a row, or is joined with the text that is the last of them,
which has the same marks. -/
theorem nodes_add (d : Row.Draft) (c : Context) (t : Token) (n : Node) :
    let added := (Row.Draft.resize t n).mark d.pending
    (d.add c t n).nodes = d.nodes ++ [added] ∨
      ∃ front last, d.nodes = front ++ [last] ∧ Row.Draft.isText last = true ∧
        Row.Draft.isText added = true ∧ last.marks = added.marks ∧
        (d.add c t n).nodes = front ++ [{ last with text := last.text ++ added.text }] := by
  unfold Row.Draft.add
  dsimp only
  split
  case h_1 text others latest =>
    have whole : d.nodes = others.reverse ++ [text] := by
      rw [Row.Draft.nodes, latest, List.reverse_cons]
    split
    case isTrue joins =>
      simp only [Row.Draft.continues, Bool.and_eq_true, beq_iff_eq] at joins
      obtain ⟨-, ⟨⟨plain, other⟩, -⟩, marks⟩ := joins
      exact .inr ⟨others.reverse, text, whole, plain, other, marks, List.reverse_cons⟩
    case isFalse => exact .inl List.reverse_cons
  case h_2 latest =>
    have whole : d.nodes = [] := by rw [Row.Draft.nodes, latest, List.reverse_nil]
    rw [whole]
    exact .inl List.reverse_cons

/-- The last node of a row is new, or stands for a text that was the last one before. -/
theorem exists_nodes_add (d : Row.Draft) (c : Context) (t : Token) (n : Node) :
    ∃ front last, (d.add c t n).nodes = front ++ [last] ∧
      (d.nodes = front ∨ ∃ text, d.nodes = front ++ [text] ∧ Row.Draft.isText text = true) := by
  rcases nodes_add d c t n with behind | ⟨front, text, before, plain, -, -, joined⟩
  · exact ⟨d.nodes, _, behind, .inl rfl⟩
  · exact ⟨front, _, joined, .inr ⟨text, before, plain⟩⟩

/-- What stays true of the nodes of a row while the row is read: nodes come behind them, and a text
at their end may be joined with the next one. -/
structure Enduring (P : List Node → Prop) : Prop where
  append : ∀ {nodes}, P nodes → ∀ more, P (nodes ++ more)
  shorten : ∀ {nodes last}, P (nodes ++ [last]) → Row.Draft.isText last = true → P nodes

theorem Enduring.add {P : List Node → Prop} (enduring : Enduring P) (holds : P d.nodes)
    (c : Context) (t : Token) (n : Node) : P (d.add c t n).nodes := by
  obtain ⟨front, last, after, before | ⟨text, before, joins⟩⟩ := exists_nodes_add d c t n
  · exact after ▸ enduring.append (before ▸ holds) [last]
  · exact after ▸ enduring.append (enduring.shorten (before ▸ holds) joins) [last]

/-- A step leaves what is true of the nodes before it. -/
theorem Enduring.perform {P : List Node → Prop} (enduring : Enduring P) (holds : P d.nodes)
    (readers : Readers bound) (c : Context) (step : Step bound) (s : Scope) :
    P (perform readers c step d s).draft.nodes := by
  rw [draft_perform]
  cases change readers c step s with
  | keep => exact holds
  | promote marks => exact holds
  | place nodes =>
    rw [Change.apply, nodes_place]
    exact enduring.append holds nodes
  | add t n => exact enduring.add holds c t n

/-- The ends of rows stay where they are. -/
theorem enduring_hasEnds (ends : List (Option Expr)) : Enduring (HasEnds ends) := by
  refine ⟨HasEnds.append, fun has text => has.of_append ?_⟩
  rintro rfl
  simp [Row.Draft.isText, Step.rowBreak] at text

theorem endRow_eq (q : Queue.Below bound) :
    (Step.endRow q).1 = .place (endNodes q.val.popOptions.1) := by
  have taken : q.popOptions.1.map Subtype.val = q.val.popOptions.1 := Queue.Below.fst_split _ _ _
  rw [← taken, Step.endRow]
  split
  case h_1 e rest popped =>
    rw [popped]
    rfl
  case h_2 rest popped =>
    rw [popped]
    rfl

theorem single_of_isRowBreak {t : Token} (table : c.table = true) (row : t.isRowBreak = true)
    (o : Options) (macros : Macro.Table) (q : Queue.Below bound) :
    Step.single o macros t c q = Step.endRow q := by
  have noCell : t.isCellBreak = false := by
    have value : t.value = "\\" ∨ t.value = "cr" := by
      simp only [Token.isRowBreak, Token.isNamed, Bool.or_eq_true, Bool.and_eq_true,
        beq_iff_eq] at row
      exact row.imp And.right And.right
    obtain value | value := value <;> simp [Token.isCellBreak, value]
  simp [Step.single, table, row, noCell]

/-- The step for the end of a row puts its nodes there. -/
theorem action_of_rowEnd {e : Expr} {rest : Queue} {asked : Option Expr}
    (found : rowEnd? c e rest = some asked) (o : Options) (macros : Macro.Table) :
    (Step.ofExpr o macros c e rest).action = .place (endNodes asked) := by
  unfold rowEnd? at found
  split at found
  case isFalse => cases found
  case isTrue ends =>
    obtain ⟨table, row⟩ := Bool.and_eq_true_iff.mp ends
    obtain ⟨kind, t, more⟩ := e
    have places := fun q : Queue.Below (⟨kind, t, more⟩ :: rest) =>
      (congrArg Prod.fst (single_of_isRowBreak table row o macros q)).trans (endRow_eq q)
    cases kind with
    | single =>
      cases found
      exact places _
    | options =>
      cases found
      exact places _
    | _ => cases found

/-- The nodes that are read have the ends of rows among them that the queue comes to. -/
theorem hasEnds_readRow (o : Options) (depth : Nat) (c : Context) (q : Queue) (d : Row.Draft)
    (s : Scope) {ends : List (Option Expr)} (has : HasEnds ends d.nodes) :
    HasEnds (ends ++ rowEnds o depth c q s) (readRow o depth c q d s).1.nodes := by
  match q with
  | [] =>
    rw [rowEnds, List.append_nil, readRow]
    exact has
  | e :: rest =>
    let step := Step.ofExpr o s.macros c e rest
    let progress := perform (readers o depth (e :: rest)) c step d s
    obtain ⟨left, after⟩ := perform_draft (readers o depth (e :: rest)) c step {} d s
    have shorter : progress.rest.val.weight < Queue.weight (e :: rest) := progress.rest.property
    have placed : HasEnds (ends ++ (rowEnd? c e rest).toList) progress.draft.nodes := by
      cases found : rowEnd? c e rest with
      | none =>
        rw [Option.toList_none, List.append_nil]
        exact (enduring_hasEnds ends).perform has _ c step s
      | some asked =>
        have place : step.action = .place (endNodes asked) := action_of_rowEnd found o s.macros
        have draft : progress.draft = d.place (endNodes asked) := by
          simp only [progress, perform, place]
        rw [draft, nodes_place]
        exact has.concat asked
    rw [readRow_cons, rowEnds, ← List.append_assoc, left, after]
    exact hasEnds_readRow o depth c progress.rest.val progress.draft progress.scope placed
termination_by q.weight

/-! ### The row that is put together -/

/-- Whether nodes are rows with breaks behind them for some ends, and perhaps another row. The node
that asks for space at an end is the last one of its row, but for placeholders. -/
def KeepsEnds : List (Option Expr) → List Node → Prop
  | [], _ => True
  | e :: ends, nodes => ∃ row separator rest, nodes = row ++ separator :: rest ∧
      separator.marks.rowBreak = true ∧
      (∀ asked ∈ e, ∃ front count,
        row = front ++ Step.spacing asked :: List.replicate count placeholder) ∧
      KeepsEnds ends rest

theorem HasEnds.dropSwitches (has : HasEnds ends nodes) :
    HasEnds ends (nodes.dropWhile (·.marks.isLimitSwitch)) := by
  cases ends with
  | nil => trivial
  | cons e ends =>
    obtain ⟨row, rest, rfl, later⟩ := has
    have stop : ∀ n ∈ (endNodes e ++ rest).head?, n.marks.isLimitSwitch = false := by
      cases e <;> rintro _ ⟨⟩ <;> rfl
    exact ⟨row.dropWhile (·.marks.isLimitSwitch), rest, (Row.takeWhile_append_of_stop stop row).2,
      later⟩

/-- A node that asks for space stays at the end of its row when the row is put together. -/
theorem finish_spacing (row : List Node) (asked : Expr) (count : Nat) :
    Row.finish (Row.applySwitches (row ++ [Step.spacing asked]) ++
        List.replicate count placeholder) =
      Row.finish (Row.applySwitches row) ++
        Step.spacing asked :: List.replicate count placeholder := by
  have hidden : ∀ n ∈ Step.spacing asked :: List.replicate count placeholder,
      n.marks.hidden = true :=
    List.forall_mem_cons.mpr ⟨rfl, Row.hidden_replicate count⟩
  have other : ∀ n ∈ Step.spacing asked :: List.replicate count placeholder,
      Row.isFixedSpace n = false := by
    refine List.forall_mem_cons.mpr ⟨rfl, fun n member => ?_⟩
    rw [List.eq_of_mem_replicate member]
    rfl
  have stop : ∀ n ∈ (Step.spacing asked :: List.replicate count placeholder).head?,
      n.isPlaceholder = false ∧ Row.isPrime n = false := by
    rintro _ ⟨⟩
    exact ⟨rfl, rfl⟩
  have apart : Row.applySwitches (row ++ [Step.spacing asked]) =
      Row.applySwitches row ++ [Step.spacing asked] := Row.applySwitches_op rfl row []
  rw [apart, List.append_assoc]
  exact Row.finish_append_of_trailing hidden other stop _

theorem rowBreak_obey (op : Node) (switches : List Node) :
    (Row.obey op switches).marks.rowBreak = op.marks.rowBreak := by
  induction switches generalizing op with
  | nil => rfl
  | cons s switches ih => exact (ih _).trans (by rw [(Row.obeys_switchLimits s.marks op).marks])

/-- The row that is put together has the ends of the nodes that were read. -/
theorem keepsEnds_arrange (has : HasEnds ends nodes) : KeepsEnds ends (Row.arrange nodes) := by
  induction ends generalizing nodes with
  | nil => trivial
  | cons e ends ih =>
    obtain ⟨row, rest, rfl, later⟩ := has
    have whole : row ++ (endNodes e ++ rest) =
        (row ++ (e.map Step.spacing).toList) ++ Step.rowBreak :: rest := by
      rw [endNodes, List.append_assoc, List.append_assoc, List.singleton_append]
    rw [whole, Row.separator_breaks.2.arrange_append]
    refine ⟨_, _, _, rfl, rowBreak_obey _ _, fun asked given => ?_, ih later.dropSwitches⟩
    cases given
    exact ⟨_, _, finish_spacing row asked _⟩

end TexFormula.Formula
