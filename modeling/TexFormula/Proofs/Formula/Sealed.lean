import TexFormula.Proofs.Formula.Showing
import TexFormula.Proofs.Formula.Trace

/-! Places that are sealed. A group or an argument that is read into a single node gives that node,
so a break that is alone in it comes into the row around it. A place of a queue is sealed if no job
of the step that takes it ends in this way (`isSealed`); then that step gives an ordinary node
(`run_of_isSealed`). So two readings that differ in a sealed place only divide their rows alike
(`level_beside`), and whatever else the queue holds is read in the same way in both of them. -/
namespace TexFormula
open Queue

/-- Whether a job ends with a break or a limit switch alone, which it gives as it is. -/
def Job.endsAlone (job : Job) (nodes : List Node) : Bool :=
  job.parent.isNone &&
    match nodes with
    | [n] => n.marks.isBreak || n.marks.isLimitSwitch
    | _ => false

/-- Whether no job of a plan ends with a break or a limit switch alone. -/
def Plan.isSealed {bound : Queue} {α : Type} (o : Options) (depth : Nat) :
    Plan bound α → Scope → Bool
  | done _, _ => true
  | read job _ next, s =>
    let row := Formula.readRow o depth job.context job.queue {} s
    !job.endsAlone row.1.nodes && (next (job.finish row.1.nodes)).isSealed o depth row.2

def Action.isSealed {bound : Queue} (o : Options) (depth : Nat) : Action bound → Scope → Bool
  | .add plan, s => plan.isSealed o depth s
  | _, _ => true

/-- Whether no job of the step that takes the token in front of the last `left` tokens of a queue
ends with a break or a limit switch alone. -/
def Formula.isSealed (o : Options) (depth : Nat) (c : Context) (left : Nat) (q : Queue)
    (s : Scope) : Bool :=
  match q with
  | [] => true
  | e :: rest =>
    let step := Step.ofExpr o s.macros c e rest
    let progress := perform (readers o depth (e :: rest)) c step {} s
    if left ≤ progress.rest.val.weight then
      isSealed o depth c left progress.rest.val progress.scope
    else if left ≤ weight (e :: rest) then step.action.isSealed o depth s
    else true
termination_by q.weight
decreasing_by exact progress.rest.property

variable {o : Options} {depth : Nat} {c : Context} {bound bound' : Queue} {s : Scope}
  {d d' : Row.Draft} {left : Nat}

/-! ### Nodes of sealed steps -/

/-- A job that does not end with a break or a switch alone gives an ordinary node. -/
theorem Job.ordinary_of_endsAlone {job : Job} (into : job.IntoOrdinary) {nodes : List Node}
    (several : job.endsAlone nodes = false) : ∀ n ∈ job.finish nodes, n.Ordinary := by
  intro n given
  rcases Formula.finish_cases into nodes n given with ordinary | ⟨parent, rfl⟩
  · exact ordinary
  · simp only [endsAlone, parent, Option.isNone_none, Bool.true_and,
      Bool.or_eq_false_iff] at several
    exact ⟨several.1, several.2⟩

/-- What a plan yields from ordinary nodes, it gives if its jobs are sealed. -/
theorem Plan.run_of_isSealed {α : Type} {R : α → Prop} {plan : Plan bound α}
    (yields : plan.Yields Job.IntoOrdinary Node.Ordinary R)
    (closed : plan.isSealed o depth s = true) :
    R (plan.run (Formula.readers o depth bound).part s).1 := by
  induction plan generalizing s with
  | done value => exact yields
  | read job fits next ih =>
    rw [isSealed, Bool.and_eq_true_iff, Bool.not_eq_true'] at closed
    obtain ⟨several, later⟩ := closed
    exact ih _ (yields.2 _ (Job.ordinary_of_endsAlone yields.1 several)) later

namespace Formula

/-! ### Steps that take the place -/

/-- A group that shows gives an ordinary node if it is sealed. -/
theorem ordinary_group (plain : c.takesArgument = false) {content : List Token}
    {short : content.length < bound.weight} (shows : (ofTokens content).Shows)
    (idle : Idle s.macros (Job.start (ofTokens content) c none).queue)
    (closed : (Plan.readTokens content short c none).isSealed o depth s = true) :
    ∃ n, ((Plan.readTokens content short c none).run (readers o depth bound).part s).1 = some n ∧
      n.Ordinary := by
  rw [(start_group plain content).1] at idle
  have row := nodes_ne_nil_of_shows o depth plain {} s shows idle
  obtain ⟨n, node⟩ := exists_group plain short row
  have all := Plan.run_of_isSealed (Step.carries_group (A := Node.Ordinary) c content short) closed
  exact ⟨n, node, all n node⟩

/-- The steps that take a sealed place add ordinary nodes to rows, or end them both. -/
theorem level_perform_of_joins {step : Step bound} {step' : Step bound'} (level : d.Level d')
    (joins : step.action.Joins c step'.action) (closed : step.action.isSealed o depth s = true)
    (closed' : step'.action.isSealed o depth s = true) (plain : c.takesArgument = false)
    (idle : ∀ plan, step.action = .add plan →
      plan.Yields (fun job => Idle s.macros job.queue) (fun _ => True) fun _ => True)
    (idle' : ∀ plan, step'.action = .add plan →
      plan.Yields (fun job => Idle s.macros job.queue) (fun _ => True) fun _ => True) :
    (perform (readers o depth bound) c step d s).draft.Level
      (perform (readers o depth bound') c step' d' s).draft := by
  have both {plan : Plan bound (Option Node)} {plan' : Plan bound' (Option Node)}
      (gives : ∃ n, (plan.run (readers o depth bound).part s).1 = some n ∧ n.Ordinary)
      (gives' : ∃ n, (plan'.run (readers o depth bound').part s).1 = some n ∧ n.Ordinary) :
      (d.addOption c step.token (plan.run (readers o depth bound).part s).1).Level
        (d'.addOption c step'.token (plan'.run (readers o depth bound').part s).1) := by
    obtain ⟨n, node, ordinary⟩ := gives
    obtain ⟨n', node', ordinary'⟩ := gives'
    rw [node, node']
    exact level.add_ordinary ordinary ordinary'
  unfold perform
  generalize step.action = action at joins closed idle
  generalize step'.action = action' at joins closed' idle'
  cases joins with
  | group shows shows' =>
    apply both
    · exact ordinary_group plain shows (idle _ rfl).1 closed
    · exact ordinary_group plain shows' (idle' _ rfl).1 closed'
  | built fills fills' =>
    apply both
    · exact Plan.run_of_isSealed fills closed
    · exact Plan.run_of_isSealed fills' closed'
  | @ended e e' same =>
    refine level.place ?_
    cases e <;> cases e' <;> first | rfl | cases same

/-! ### Readings -/

theorem isSealed_cons (o : Options) (depth : Nat) (c : Context) (left : Nat) {e : Expr}
    {rest : Queue} (idle : Idle s.macros (e :: rest)) :
    let step := Step.ofExpr o s.macros c e rest
    isSealed o depth c left (e :: rest) s =
      if left ≤ step.rest.val.weight then isSealed o depth c left step.rest.val s
      else if left ≤ weight (e :: rest) then step.action.isSealed o depth s else true := by
  intro step
  obtain ⟨behind, scope⟩ := perform_of_idle idle o depth c {}
  rw [isSealed, behind, scope]

/-- Two queues that differ in one place are read into rows that are divided alike, if the place is
sealed in both of them and nothing in them defines or calls a macro. -/
theorem level_beside (o : Options) (depth : Nat) (plain : c.takesArgument = false) (s : Scope)
    (some : 0 < left) {q q' : Queue} {d d' : Row.Draft}
    (beside : Queue.Beside (fun _ _ => False) left q q') (level : d.Level d')
    (idle : Idle s.macros q) (idle' : Idle s.macros q')
    (closed : isSealed o depth c left q s = true)
    (closed' : isSealed o depth c left q' s = true) :
    (readRow o depth c q d s).1.Level (readRow o depth c q' d' s).1 := by
  by_cases gone : q.weight < left
  · obtain rfl := beside.eq_of_gone gone
    exact level_readRow level o depth c q s
  · have weights := beside.weight_eq some
    match q, q' with
    | [], _ => exact absurd some gone
    | e :: rest, [] =>
      rw [weights] at gone
      exact absurd some gone
    | e :: rest, e' :: rest' =>
      let step := Step.ofExpr o s.macros c e rest
      let step' := Step.ofExpr o s.macros c e' rest'
      let progress := perform (readers o depth (e :: rest)) c step d s
      let progress' := perform (readers o depth (e' :: rest')) c step' d' s
      have first : e.first.kind.command = true → ¬ s.macros.Active e.first.value :=
        idle e List.mem_cons_self e.first List.mem_cons_self
      obtain ⟨behind, same⟩ := change_beside beside id idle o depth c
      obtain ⟨rest_eq, scope⟩ : progress.rest = step.rest ∧ progress.scope = s :=
        perform_of_idle idle o depth c d
      obtain ⟨rest_eq', scope'⟩ : progress'.rest = step'.rest ∧ progress'.scope = s :=
        perform_of_idle idle' o depth c d'
      have lighter : step.rest.val.weight < Queue.weight (e :: rest) := step.rest.property
      rw [readRow_cons, readRow_cons]
      change (readRow o depth c progress.rest.val progress.draft progress.scope).1.Level
        (readRow o depth c progress'.rest.val progress'.draft progress'.scope).1
      rw [rest_eq, rest_eq', scope, scope']
      rw [isSealed_cons o depth c left idle] at closed
      rw [isSealed_cons o depth c left idle'] at closed'
      by_cases reaches : left ≤ step.rest.val.weight
      · -- the step does not come to the place, so it is the same step in both readings
        have reaches' : left ≤ step'.rest.val.weight := behind.weight_eq some ▸ reaches
        rw [if_pos reaches] at closed
        rw [if_pos reaches'] at closed'
        have next : progress.draft.Level progress'.draft := by
          have bare := bare_change (Step.carries_ofExpr o s.macros c e rest) o depth c s
          rw [draft_perform, draft_perform, ← same reaches]
          exact Change.level_apply level bare c
        exact level_beside o depth plain s some behind next (idle_step idle o c)
          (idle_step idle' o c) closed closed'
      · -- the step takes the place, and what is behind it is the same again
        have passed : step.rest.val.weight < left := Nat.lt_of_not_le reaches
        have equal : step.rest.val = step'.rest.val := behind.eq_of_gone passed
        have reaches' : ¬ left ≤ step'.rest.val.weight := equal ▸ reaches
        have within : left ≤ Queue.weight (e :: rest) := Nat.le_of_not_lt gone
        have within' : left ≤ Queue.weight (e' :: rest') := weights ▸ within
        rw [if_neg reaches, if_pos within] at closed
        rw [if_neg reaches', if_pos within'] at closed'
        have joins := Step.joins_ofExpr beside some first o c within passed
        have next : progress.draft.Level progress'.draft :=
          level_perform_of_joins level joins closed closed' plain (idle.jobs o c) (idle'.jobs o c)
        rw [← equal]
        exact level_readRow next o depth c step.rest.val s
termination_by q.weight

end Formula

end TexFormula
