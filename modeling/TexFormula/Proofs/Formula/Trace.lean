import TexFormula.Proofs.Formula.Alike
import TexFormula.Proofs.Formula.Level
import TexFormula.Proofs.Step.Beside

/-! The steps of a reading, one by one. A reading is followed by what its steps do to the row: the
break that a step makes, and the nodes that it adds (`trace`). Where nothing defines or calls a
macro, this depends on the queue alone, and two queues that are the same up to some place have the
same steps up to there (`trace_beside`). If only the steps for breaks add breaks, then these are all
breaks that divide the row (`breaks_readRow`). -/
namespace TexFormula.Formula
open Queue
open Table (division)

variable {o : Options} {depth : Nat} {c : Context} {bound bound' q q' : Queue} {s : Scope}
  {d : Row.Draft} {nodes : List Node}

/-- For each step of a reading, the break that it makes, if it makes one, and the nodes that it adds
to the row. -/
def trace (o : Options) (depth : Nat) (c : Context) (q : Queue) (s : Scope) :
    List (Option Bool × List Node) :=
  match q with
  | [] => []
  | e :: rest =>
    let step := Step.ofExpr o s.macros c e rest
    let progress := perform (readers o depth (e :: rest)) c step {} s
    (break? c e, (change (readers o depth (e :: rest)) c step s).added) ::
      trace o depth c progress.rest.val progress.scope
termination_by q.weight
decreasing_by exact progress.rest.property

/-- Whether no step of a reading adds a break to the row but the steps for breaks: no group and no
command gives one as its node. -/
def keepsBreaks (o : Options) (depth : Nat) (c : Context) (q : Queue) (s : Scope) : Bool :=
  (trace o depth c q s).all fun (ends, added) => ends.isSome || added.all (!·.marks.isBreak)

theorem breaksIn_eq_filterMap (o : Options) (depth : Nat) (c : Context) (q : Queue) (s : Scope) :
    breaksIn o depth c q s = (trace o depth c q s).filterMap Prod.fst := by
  match q with
  | [] =>
    rw [breaksIn, trace]
    rfl
  | e :: rest =>
    let progress := perform (readers o depth (e :: rest)) c (Step.ofExpr o s.macros c e rest) {} s
    have lighter : progress.rest.val.weight < Queue.weight (e :: rest) := progress.rest.property
    rw [breaksIn, trace, List.filterMap_cons,
      breaksIn_eq_filterMap o depth c progress.rest.val progress.scope]
    cases break? c e <;> rfl
termination_by q.weight

/-! ### Readings without definitions and calls -/

/-- Plans that are the same give the same. -/
theorem run_of_alike {α : Type} {plan : Plan bound α} {plan' : Plan bound' α}
    (plans : Plan.Alike .nothing plan plan') (o : Options) (depth : Nat) (s : Scope) :
    plan.run (readers o depth bound).part s = plan'.run (readers o depth bound').part s := by
  induction plans generalizing s with
  | done value => rfl
  | @read job job' fits fits' next next' jobs more ih =>
    obtain ⟨node, scopes⟩ := alike_readJob (o := o) depth jobs (Scope.alike_self s) False.elim
    have both : readJob o depth job s = readJob o depth job' s := Prod.ext node scopes.eq
    change (next (readJob o depth job s).1).run _ (readJob o depth job s).2 =
      (next' (readJob o depth job' s).1).run _ (readJob o depth job' s).2
    rw [both]
    exact ih _ _

/-- The same step changes the row in the same way, whatever stands behind it. -/
theorem change_of_alike {step : Step bound} {step' : Step bound'} (inert : step.action.Inert)
    (acts : Action.Alike .nothing Eq step.action step'.action) (token : step.token = step'.token)
    (o : Options) (depth : Nat) (c : Context) (s : Scope) :
    change (readers o depth bound) c step s = change (readers o depth bound') c step' s := by
  unfold change
  rw [← token]
  generalize step.action = action at inert acts
  generalize step'.action = action' at acts
  cases acts with
  | skip | promote | place => rfl
  | add plans =>
    dsimp only
    rw [run_of_alike plans]
  | define => exact inert.elim
  | call => exact inert.elim

/-- As long as a step does not take the place in which two queues differ, it changes the row in the
same way in both. -/
theorem change_beside {W : Queue → Queue → Prop} {left : Nat} {e e' : Expr} {rest rest' : Queue}
    (beside : Queue.Beside W left (e :: rest) (e' :: rest')) (stops : ¬ W (e :: rest) (e' :: rest'))
    (idle : Idle s.macros (e :: rest)) (o : Options) (depth : Nat) (c : Context) :
    let step := Step.ofExpr o s.macros c e rest
    let step' := Step.ofExpr o s.macros c e' rest'
    Queue.Beside W left step.rest.val step'.rest.val ∧ (left ≤ step.rest.val.weight →
      change (readers o depth (e :: rest)) c step s =
        change (readers o depth (e' :: rest')) c step' s) := by
  intro step step'
  have first : e.first.kind.command = true → ¬ s.macros.Active e.first.value :=
    idle e List.mem_cons_self e.first List.mem_cons_self
  obtain ⟨behind, same⟩ := Step.beside_ofExpr beside stops first o c
  have token : step.token = step'.token := by
    rw [Step.token_ofExpr, Step.token_ofExpr, beside.first_eq stops]
  exact ⟨behind, fun reaches => change_of_alike (Step.inert_ofExpr first o c rest) (same reaches)
    token o depth c s⟩

theorem trace_cons {e : Expr} {rest : Queue} (idle : Idle s.macros (e :: rest)) (o : Options)
    (depth : Nat) (c : Context) :
    let step := Step.ofExpr o s.macros c e rest
    trace o depth c (e :: rest) s =
      (break? c e, (change (readers o depth (e :: rest)) c step s).added) ::
        trace o depth c step.rest.val s := by
  intro step
  obtain ⟨behind, scope⟩ := perform_of_idle idle o depth c {}
  rw [trace, behind, scope]

/-- Queues that are the same up to a place are read with the same steps up to there. -/
theorem trace_beside {W : Queue → Queue → Prop} (o : Options) (depth : Nat) (c : Context)
    (s : Scope) {q q' : Queue} (beside : Queue.Beside W 0 q q') (idle : Idle s.macros q)
    (idle' : Idle s.macros q') :
    ∃ before p p', W p p' ∧ trace o depth c q s = before ++ trace o depth c p s ∧
      trace o depth c q' s = before ++ trace o depth c p' s := by
  by_cases reached : W q q'
  · exact ⟨[], q, q', reached, rfl, rfl⟩
  · cases beside with
    | past gone => exact absurd gone (Nat.not_lt_zero _)
    | wall given => exact absurd given reached
    | here _ _ _ gone => exact absurd gone (Nat.not_lt_zero _)
    | @there e rest rest' reaches more =>
      let step := Step.ofExpr o s.macros c e rest
      let step' := Step.ofExpr o s.macros c e rest'
      obtain ⟨behind, same⟩ := change_beside (.there reaches more) reached idle o depth c
      have here := same (Nat.zero_le _)
      have lighter : step.rest.val.weight < Queue.weight (e :: rest) := step.rest.property
      obtain ⟨before, p, p', given, one, other⟩ := trace_beside o depth c s behind
        (idle_step idle o c) (idle_step idle' o c)
      refine ⟨(break? c e, (change (readers o depth (e :: rest)) c step s).added) :: before, p, p',
        given, ?_, ?_⟩
      · rw [trace_cons idle, one, List.cons_append]
      · rw [trace_cons idle', other, ← here, List.cons_append]
termination_by q.weight

/-! ### Rows without other breaks -/

section Breaks
variable {change : Change} (bare : change.IsBare) (promise : d.pending.IsPromise)
include bare promise

/-- What adds no break to a row leaves its breaks as they are. -/
theorem breaks_apply (unbroken : ∀ n ∈ change.added, n.marks.isBreak = false) (c : Context) :
    (division (change.apply c d).nodes).breaks = (division d.nodes).breaks := by
  cases change with
  | keep => rfl
  | promote marks => rfl
  | place nodes =>
    rw [Change.apply, nodes_place]
    exact (congrArg Table.Division.breaks (Table.Division.after_append {} d.nodes nodes)).trans
      (Table.Division.breaks_after unbroken)
  | add t n =>
    have inside : (n.marks.union d.pending).isBreak = false := by
      rw [Table.isBreak_union promise]
      exact unbroken n (List.mem_singleton_self n)
    rw [Change.apply, Table.division_add (bare n (List.mem_singleton_self n)) promise,
      Table.Division.breaks_next inside]

end Breaks

/-- A break adds itself to the breaks of a row. -/
theorem breaks_place {front : List Node} (plain : ∀ n ∈ front, n.marks.isBreak = false)
    (row : Bool) (d : Row.Draft) :
    (division (d.place (front ++ [breakNode row])).nodes).breaks =
      (division d.nodes).breaks ++ [row] := by
  have separator := separator_breakNode row
  have divides : (breakNode row).marks.divides = true := by cases row <;> rfl
  rw [nodes_place, ← List.append_assoc, Table.division_concat,
    Table.Division.next_of_divides separator.noSwitch divides, rowBreak_breakNode]
  exact congrArg (· ++ [row]) ((congrArg Table.Division.breaks
    (Table.Division.after_append {} d.nodes front)).trans (Table.Division.breaks_after plain))

/-- If only the steps for breaks add breaks, then a row has the breaks that its reading comes to,
and no others. -/
theorem breaks_readRow (o : Options) (depth : Nat) (c : Context) {q : Queue} {d : Row.Draft}
    {s : Scope} (keeps : keepsBreaks o depth c q s = true) (promise : d.pending.IsPromise) :
    (division (readRow o depth c q d s).1.nodes).breaks =
      (division d.nodes).breaks ++ breaksIn o depth c q s := by
  match q with
  | [] => rw [readRow, breaksIn, List.append_nil]
  | e :: rest =>
    let step := Step.ofExpr o s.macros c e rest
    let made := change (readers o depth (e :: rest)) c step s
    let progress := perform (readers o depth (e :: rest)) c step d s
    obtain ⟨left, after⟩ := perform_draft (readers o depth (e :: rest)) c step {} d s
    have bare : made.IsBare := bare_change (Step.carries_ofExpr o s.macros c e rest) o depth c s
    have draft : progress.draft = made.apply c d := draft_perform _ c step d s
    have lighter : progress.rest.val.weight < Queue.weight (e :: rest) := progress.rest.property
    rw [keepsBreaks, trace, List.all_cons, Bool.and_eq_true_iff, left, after] at keeps
    obtain ⟨here, later⟩ := keeps
    have promise' : progress.draft.pending.IsPromise := by
      rw [draft]
      exact (Change.level_apply (Row.Draft.level_self promise) bare c).promise
    have placed : (division progress.draft.nodes).breaks =
        (division d.nodes).breaks ++ (break? c e).toList := by
      cases found : break? c e with
      | none =>
        rw [found] at here
        have unbroken : ∀ n ∈ made.added, n.marks.isBreak = false := by
          intro n member
          simpa using List.all_eq_true.mp here n member
        rw [draft, breaks_apply bare promise unbroken, Option.toList_none, List.append_nil]
      | some row =>
        obtain ⟨front, place, plain⟩ := action_of_break found o s.macros rest
        have draft : progress.draft = d.place (front ++ [breakNode row]) := by
          simp only [progress, step, perform, place]
        rw [draft, breaks_place plain]
        rfl
    rw [readRow_cons, breaksIn, left, after, ← List.append_assoc, ← placed]
    exact breaks_readRow o depth c later promise'
termination_by q.weight

end TexFormula.Formula

namespace TexFormula.Environment

open Formula (readJob)
open Table (breaksOf endsOpen division)

variable {o : Options} {depth : Nat} {t : Token} {c : Context} {content : List Token} {s : Scope}
  {n : Node}

/-! ### Contents of environments -/

/-- The content of an environment is divided as the nodes are that are read for it. -/
theorem divided_content (gives : (readJob o depth (contentJob t c content) s).1 = some n) :
    let job := contentJob t c content
    let v := division (Formula.readRow o depth job.context job.queue {} s).1.nodes
    breaksOf n.children = v.breaks ∧ endsOpen n.children = v.last.any (!·) := by
  intro job v
  have empty : Formula.bareness.draft job.context {} :=
    ⟨List.forall_mem_nil _, ⟨rfl, rfl, rfl⟩⟩
  have bare := ((Formula.kept_bareness o).readRow depth (q := job.queue) (s := s) trivial empty
    trivial).1.1
  rw [children_content gives]
  exact Table.divided_arrange _ bare

/-- Whether no step of reading the content of an environment adds a break but the steps for breaks.
-/
def keepsBreaks (o : Options) (depth : Nat) (t : Token) (c : Context) (content : List Token)
    (s : Scope) : Bool :=
  let job := contentJob t c content
  Formula.keepsBreaks o depth job.context job.queue s

/-- If no other step adds a break, then the breaks that the reading comes to are all that divide the
content. -/
theorem undivided_of_keepsBreaks (keeps : keepsBreaks o depth t c content s = true) :
    ∃ n, Undivided o depth t c content s n := by
  obtain ⟨n, gives, -⟩ := exists_content o depth t c content s
  let job := contentJob t c content
  refine ⟨n, gives, ?_⟩
  rw [← Table.length_breaksOf, (divided_content gives).1,
    Formula.breaks_readRow o depth job.context keeps ⟨rfl, rfl, rfl⟩]
  rfl

end TexFormula.Environment
