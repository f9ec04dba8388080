import TexFormula.Proofs.Formula.Machine
import TexFormula.Proofs.Plan.Actions
import TexFormula.Proofs.Row.Gathering

/-! Nothing is left to be put together while a formula is read. A row that has several nodes, or
that is read into a node, is put together when it ends; a row of one node is not, and the marks of
that node stay. This does no harm if the node comes into another row, as that of a group or of a
call does. As long as a marked node goes nowhere else (`Machine.Tidy`), all that is kept in nodes is
put together (`Quiet.next`). -/
namespace TexFormula.Formula

open Node (everywhere_none everywhere_some)

/-- Whether a node that is given to what waits for it comes into the row behind, with its marks and
its children. -/
def Waiting.HandsOn (n : Node) : Waiting → Prop
  | .part _ next _ => ∃ m, next (some n) = .done (some m) ∧ m.marks = n.marks ∧
      m.children = n.children
  | .call _ _ => True

namespace Machine

/-- Whether the node of a job that is done comes into a row. The node of a whole formula does so
unless it is a row or a cell itself. -/
def HandsOn (m : Machine) (n : Node) : Prop :=
  match m.waiting with
  | [] => ¬ (n.tag == "mrow" || n.tag == "mtd") = true
  | first :: _ => first.HandsOn n

/-- Whether no marked node gets lost: if a job ends with one, it comes into a row, and no node of a
row is a script and an operand at once. -/
structure Tidy (m : Machine) : Prop where
  done : ∀ n, m.focus = .done (some n) → ¬ n.Quiet → m.HandsOn n
  row : ∀ r, m.focus = .row r → ∀ n ∈ r.draft.latest, n.hasTwoRoles = false

/-- Whether every marked node of a row that ends here is in an element around it in what the row
comes to, unless it is all there is in the row. A limit switch goes away with its marks. -/
def Gathers (m : Machine) : Prop :=
  ∀ r, m.focus = .row r → r.left = [] → ∀ n ∈ r.draft.nodes, ¬ n.Quiet →
    n.marks.isLimitSwitch = false →
    ∀ whole ∈ r.job.finish r.draft.nodes, whole = n ∨ whole.Somewhere n.Gathers

end Machine

/-! ### Jobs -/

/-- A row that is put together is quiet, and a single node stays as ready as it is. -/
theorem ready_finish {job : Job} (asked : job.Everywhere Node.Quiet) {nodes : List Node}
    (ready : ∀ n ∈ nodes, n.Ready) : ∀ n ∈ job.finish nodes, n.Ready := by
  unfold Job.finish
  split
  case h_1 parent given =>
    have quiet := asked parent given
    have all : ∀ n ∈ parent.children ++ nodes, n.Ready :=
      List.forall_mem_append.mpr ⟨fun n member => (quiet.children n member).ready, ready⟩
    intro n same
    cases same
    exact ⟨Row.quiet_arrange all, quiet.ready.role⟩
  case h_2 =>
    split
    · exact fun _ given => nomatch given
    · intro n same
      cases same
      exact ready _ List.mem_cons_self
    · intro n same
      cases same
      exact ⟨Row.quiet_arrange ready, rfl⟩

theorem gathered_finish (job : Job) {nodes : List Node} {n : Node} (member : n ∈ nodes)
    (marked : ¬ n.Quiet) (switch : n.marks.isLimitSwitch = false) :
    ∀ whole ∈ job.finish nodes, whole = n ∨ whole.Somewhere n.Gathers := by
  intro whole given
  unfold Job.finish at given
  split at given
  case h_1 parent _ =>
    have inside := List.mem_append_right parent.children member
    obtain ⟨m, child, found⟩ := Row.gathered_arrange inside marked switch
    cases given
    exact .inr (.inside child found)
  case h_2 =>
    split at given
    · cases given
    · cases given
      exact .inl (List.mem_singleton.mp member).symm
    · obtain ⟨m, child, found⟩ := Row.gathered_arrange member marked switch
      cases given
      exact .inr (.inside child found)

/-! ### States -/

/-- A plan that gives nodes below which nothing is left to be put together, if its jobs give nodes
where nothing is left at all. -/
def PlanQuiet {bound : Queue} (plan : Plan bound (Option Node)) : Prop :=
  plan.Yields (Job.Everywhere Node.Quiet) (Node.Everywhere Node.Quiet)
    fun node => ∀ n ∈ node, n.QuietBelow

structure Reading.Quiet (r : Reading) : Prop where
  job : r.job.Everywhere Node.Quiet
  draft : ∀ n ∈ r.draft.latest, n.QuietBelow

def Waiting.Quiet : Waiting → Prop
  | .part _ next r =>
    r.Quiet ∧ ∀ node, (∀ n ∈ node, n.Everywhere Node.Quiet) → PlanQuiet (next node)
  | .call _ r => r.Quiet

def Focus.Quiet : Focus → Prop
  | .row r => r.Quiet
  | .plan _ left r => PlanQuiet left ∧ r.Quiet
  | .done node => ∀ n ∈ node, n.Ready

namespace Machine

/-- Whether nothing is left to be put together in any node that the machine keeps, except in those
of a row that is still read. -/
structure Quiet (m : Machine) : Prop where
  focus : m.focus.Quiet
  waiting : ∀ w ∈ m.waiting, w.Quiet

end Machine

theorem Reading.quiet_start {job : Job} (asked : job.Everywhere Node.Quiet) :
    (Reading.start job).Quiet :=
  ⟨asked, List.forall_mem_nil _⟩

theorem Reading.Quiet.add {r : Reading} (quiet : r.Quiet) (t : Token) {n : Node}
    (given : n.QuietBelow) : (r.add t n).Quiet :=
  ⟨quiet.job, Row.Draft.quietBelow_add _ t quiet.draft given⟩

theorem Reading.Quiet.addOption {r : Reading} (quiet : r.Quiet) (t : Token) {node : Option Node}
    (given : ∀ n ∈ node, n.QuietBelow) : (r.addOption t node).Quiet := by
  cases node with
  | none => exact quiet
  | some n => exact quiet.add t (given n rfl)

namespace Machine

variable {o : Options} {m after : Machine}

theorem Quiet.call (quiet : m.Quiet) (t : Token) (name : String) (f : Macro) {r : Reading}
    (row : r.Quiet) : (m.call t name f r).Quiet := by
  have refused : (Scope.refusal name).Everywhere Node.Quiet := Node.stable_error _ _
  have failed : ∀ e, (Scope.failure name e).Everywhere Node.Quiet :=
    fun _ => Node.stable_error _ _
  have behind : ∀ left, { r with left }.Quiet := fun _ => ⟨row.job, row.draft⟩
  unfold Machine.call
  split
  · exact ⟨row.add t refused.children, quiet.waiting⟩
  · dsimp only
    cases m.scope.callTokens name f (f.collectArguments name r.left).1 with
    | error e => exact ⟨(behind _).add t (failed e).children, quiet.waiting⟩
    | ok tokens =>
      exact ⟨Reading.quiet_start (Plan.stable_start everywhere_none),
        List.forall_mem_cons.mpr ⟨behind _, quiet.waiting⟩⟩

theorem Quiet.act {bound : Queue} (quiet : m.Quiet) (t : Token) {action : Action bound}
    (given : action.Everywhere Node.Quiet) {r : Reading} (row : r.Quiet) :
    (m.act t action r).Quiet := by
  cases action with
  | skip => exact ⟨row, quiet.waiting⟩
  | promote marks => exact ⟨⟨row.job, row.draft⟩, quiet.waiting⟩
  | place nodes =>
    exact ⟨⟨row.job, Row.Draft.forall_place row.draft fun n member => (given n member).children⟩,
      quiet.waiting⟩
  | add plan =>
    exact ⟨⟨Plan.Yields.mono given fun _ all n member => (all n member).children, row⟩,
      quiet.waiting⟩
  | define name f => exact ⟨row, quiet.waiting⟩
  | call name f => exact quiet.call t name f row

/-- A plan goes on with the node of a job: a quiet one is what it expects, and any other one it
gives on as it is. -/
theorem planQuiet_next {bound : Queue} {t : Token}
    {next : Option Node → Plan bound (Option Node)} {r : Reading}
    (quiet : (Waiting.part t next r).Quiet) {node : Option Node} (ready : ∀ n ∈ node, n.Ready)
    (handed : ∀ n ∈ node, ¬ n.Quiet → (Waiting.part t next r).HandsOn n) :
    PlanQuiet (next node) := by
  cases node with
  | none => exact quiet.2 none everywhere_none
  | some n =>
    by_cases alone : n.Quiet
    · exact quiet.2 _ (everywhere_some (.node alone (ready n rfl).below))
    · obtain ⟨given, same, -, children⟩ := handed n rfl alone
      rw [same]
      rintro m ⟨⟩
      unfold Node.QuietBelow
      rw [children]
      exact (ready n rfl).below

/-- The state after a tidy state keeps nothing that is left to be put together. -/
theorem Quiet.next (quiet : m.Quiet) (tidy : m.Tidy) (follows : m.next? o = some after) :
    after.Quiet := by
  obtain ⟨now, waiting⟩ := quiet
  unfold next? at follows
  split at follows
  case h_1 r focus =>
    have row : r.Quiet := by rwa [focus] at now
    split at follows
    · cases follows
      have ready : ∀ n ∈ r.draft.nodes, n.Ready := Row.forall_reverse fun n member =>
        ⟨row.draft n member, tidy.row r focus n member⟩
      exact ⟨ready_finish row.job ready, waiting⟩
    case h_2 e rest left =>
      cases follows
      exact Quiet.act ⟨now, waiting⟩ _ (Step.stable_ofExpr _ _ _ e rest) ⟨row.job, row.draft⟩
  case h_2 t node r focus =>
    rw [focus] at now
    cases follows
    exact ⟨now.2.addOption t now.1, waiting⟩
  case h_3 t job _ next r focus =>
    rw [focus] at now
    cases follows
    exact ⟨Reading.quiet_start now.1.1,
      List.forall_mem_cons.mpr ⟨⟨now.2, now.1.2⟩, waiting⟩⟩
  case h_4 node focus =>
    have ready : ∀ n ∈ node, n.Ready := by rwa [focus] at now
    have handed : ∀ n ∈ node, ¬ n.Quiet → m.HandsOn n := by
      rintro n ⟨⟩
      exact tidy.done n focus
    unfold HandsOn at handed
    split at follows
    · cases follows
    case h_2 bound t next r others stack =>
      rw [stack] at waiting handed
      obtain ⟨first, others⟩ := List.forall_mem_cons.mp waiting
      cases follows
      exact ⟨⟨planQuiet_next first ready handed, first.1⟩, others⟩
    case h_3 t r others stack =>
      rw [stack] at waiting
      obtain ⟨first, others⟩ := List.forall_mem_cons.mp waiting
      cases follows
      refine ⟨Reading.Quiet.add first t ?_, others⟩
      cases node with
      | none => exact List.forall_mem_nil _
      | some n => exact (ready n rfl).below

/-- As long as all states are tidy, nothing that is left to be put together is kept. -/
theorem Quiet.run (quiet : m.Quiet) (tidy : ∀ between, Run o m between → between.Tidy)
    (run : Run o m after) : after.Quiet := by
  induction run with
  | refl => exact quiet
  | tail before follows ih => exact ih.next (tidy _ before) follows

theorem quiet_start (depth : Nat) (s : Scope) (c : Context) (tokens : List Token) :
    (start depth s (.start (.ofTokens tokens) c none)).Quiet :=
  ⟨Reading.quiet_start (Plan.stable_start everywhere_none), List.forall_mem_nil _⟩

/-- No marked node of a row gets lost when the row ends, whatever comes of the row afterwards. -/
theorem gathers (m : Machine) : m.Gathers :=
  fun r _ _ _ member marked switch => gathered_finish r.job member marked switch

/-! ### Tidy states by computation -/

/-- A check for tidy states. It takes a marked node with children for one that gets lost. -/
def isTidy (m : Machine) : Bool :=
  match m.focus with
  | .row r => r.draft.latest.all fun n => !n.hasTwoRoles
  | .plan .. => true
  | .done none => true
  | .done (some n) =>
    n.marks.hidden || !n.marks.isPending ||
      match m.waiting with
      | [] => !(n.tag == "mrow" || n.tag == "mtd")
      | .call .. :: _ => true
      | .part _ next _ :: _ =>
        match next (some n) with
        | .done (some m) => m.marks == n.marks && m.children.isEmpty && n.children.isEmpty
        | _ => false

theorem tidy_of_isTidy (checked : m.isTidy = true) : m.Tidy := by
  unfold isTidy at checked
  constructor
  · intro n focus marked
    rw [focus] at checked
    have other : (n.marks.hidden || !n.marks.isPending) = false :=
      Bool.eq_false_iff.mpr fun quiet => marked (by simpa [Node.Quiet] using quiet)
    simp only [other, Bool.false_or] at checked
    unfold HandsOn
    split at checked
    case h_1 whole =>
      rw [whole]
      simpa using checked
    case h_2 whole =>
      rw [whole]
      trivial
    case h_3 whole =>
      rw [whole]
      split at checked
      case h_1 k given =>
        simp only [Bool.and_eq_true, beq_iff_eq, List.isEmpty_iff] at checked
        exact ⟨k, given, checked.1.1, checked.1.2.trans checked.2.symm⟩
      case h_2 => cases checked
  · intro r focus n member
    rw [focus] at checked
    simpa using List.all_eq_true.mp checked n member

end Machine

end TexFormula.Formula
