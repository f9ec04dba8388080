import TexFormula.Proofs.Formula.Idle
import TexFormula.Proofs.Step.Taking

/-! Queues that show something. A row never loses all its nodes, and a step that gives something
for sure leaves a node there. So if an expression of a queue shows, then the row that the queue is
read into has a node, however deep in groups the token is that shows (`nodes_ne_nil_of_shows`). -/
namespace TexFormula.Formula
open Queue

variable {o : Options} {depth : Nat} {c : Context} {bound q : Queue} {d : Row.Draft} {s : Scope}

/-! ### Rows with a node -/

theorem nodes_add_ne_nil (d : Row.Draft) (c : Context) (t : Token) (n : Node) :
    (d.add c t n).nodes ≠ [] := by
  obtain ⟨front, last, nodes, -⟩ := exists_nodes_add d c t n
  rw [nodes]
  exact List.append_ne_nil_of_right_ne_nil front (List.cons_ne_nil last [])

theorem nodes_apply_ne_nil {change : Change} (some : d.nodes ≠ [] ∨ change.added ≠ [])
    (c : Context) : (change.apply c d).nodes ≠ [] := by
  cases change with
  | keep => exact some.resolve_right fun none => none rfl
  | promote marks => exact some.resolve_right fun none => none rfl
  | place nodes =>
    rw [Change.apply, nodes_place]
    rcases some with before | here
    · exact List.append_ne_nil_of_left_ne_nil before nodes
    · exact List.append_ne_nil_of_right_ne_nil _ here
  | add t n => exact nodes_add_ne_nil d c t n

theorem nodes_readRow_ne_nil (o : Options) (depth : Nat) (c : Context) (q : Queue) (s : Scope)
    {d : Row.Draft} (some : d.nodes ≠ []) : (readRow o depth c q d s).1.nodes ≠ [] := by
  match q with
  | [] =>
    rw [readRow]
    exact some
  | e :: rest =>
    let step := Step.ofExpr o s.macros c e rest
    let progress := perform (readers o depth (e :: rest)) c step d s
    have next : progress.draft.nodes ≠ [] := by
      rw [draft_perform]
      exact nodes_apply_ne_nil (.inl some) c
    rw [readRow_cons]
    exact nodes_readRow_ne_nil o depth c progress.rest.val progress.scope next
termination_by q.weight
decreasing_by exact progress.rest.property

/-- A step that gives something adds a node to the row. -/
theorem added_of_gives {step : Step bound} (gives : step.action.Gives) (readers : Readers bound)
    (c : Context) (s : Scope) : (change readers c step s).added ≠ [] := by
  unfold change
  generalize step.action = action at gives
  cases gives with
  | place n nodes => exact List.cons_ne_nil n nodes
  | @add plan yields =>
    have given : (plan.run readers.part s).1.isSome = true :=
      (Plan.Yields.run (I := fun _ => True) (fun _ _ _ _ _ => ⟨fun _ _ => trivial, trivial⟩)
        yields trivial).1
    obtain ⟨n, node⟩ := Option.isSome_iff_exists.mp given
    dsimp only
    rw [node]
    exact List.cons_ne_nil n []

/-! ### Queues -/

theorem exists_finish (job : Job) {nodes : List Node} (some : nodes ≠ []) :
    ∃ n, job.finish nodes = Option.some n := by
  unfold Job.finish
  split
  · exact ⟨_, rfl⟩
  · match nodes with
    | [] => exact absurd rfl some
    | [n] => exact ⟨n, rfl⟩
    | n :: m :: rest => exact ⟨_, rfl⟩

/-- The job for a group, where no argument of an environment is asked for. -/
theorem start_group (plain : c.takesArgument = false) (content : List Token) :
    (Job.start (ofTokens content) c none).queue = ofTokens content ∧
      (Job.start (ofTokens content) c none).context = c := by
  have same : { c with takesArgument := false } = c := by
    rw [← plain]
  rw [Job.context_start, same]
  unfold Job.start
  rw [plain]
  exact ⟨rfl, rfl⟩

/-- A group with a node in its row gives a node. -/
theorem exists_group (plain : c.takesArgument = false) {content : List Token}
    (short : content.length < bound.weight)
    (some : (readRow o depth c (ofTokens content) {} s).1.nodes ≠ []) :
    ∃ n, ((Plan.readTokens content short c none).run (readers o depth bound).part s).1 =
      Option.some n := by
  obtain ⟨queue, context⟩ := start_group plain content
  change ∃ n, (readJob o depth (Job.start (ofTokens content) c none) s).1 = Option.some n
  rw [readJob_fst, queue, context]
  exact exists_finish _ some

/-- If an expression of a queue shows, and nothing in the queue defines or calls a macro, then a
row has a node when the queue is read. -/
theorem nodes_ne_nil_of_shows (o : Options) (depth : Nat) (plain : c.takesArgument = false)
    {q : Queue} (d : Row.Draft) (s : Scope) (shows : q.Shows) (idle : Idle s.macros q) :
    (readRow o depth c q d s).1.nodes ≠ [] := by
  match q with
  | [] =>
    obtain ⟨e, member, -⟩ := shows
    cases member
  | e :: rest =>
    let step := Step.ofExpr o s.macros c e rest
    let progress := perform (readers o depth (e :: rest)) c step d s
    have first : e.first.kind.command = true → ¬ s.macros.Active e.first.value :=
      idle e List.mem_cons_self e.first List.mem_cons_self
    have given (some : (change (readers o depth (e :: rest)) c step s).added ≠ []) :
        (readRow o depth c (e :: rest) d s).1.nodes ≠ [] := by
      have here : progress.draft.nodes ≠ [] := by
        rw [draft_perform]
        exact nodes_apply_ne_nil (.inr some) c
      rw [readRow_cons]
      exact nodes_readRow_ne_nil o depth c _ _ here
    rcases Step.gives_or_shows first shows o c with gives | later | ⟨content, short, group, inside⟩
    · exact given (added_of_gives gives _ c s)
    · obtain ⟨left, same⟩ : progress.rest = step.rest ∧ progress.scope = s :=
        perform_of_idle idle o depth c d
      have lighter : step.rest.val.weight < Queue.weight (e :: rest) := step.rest.property
      rw [readRow_cons]
      change (readRow o depth c progress.rest.val progress.draft progress.scope).1.nodes ≠ []
      rw [left, same]
      exact nodes_ne_nil_of_shows o depth plain progress.draft s later (idle_step idle o c)
    · -- the token that shows is in a group, which is read into a row of its own
      have still : Idle s.macros (ofTokens content) := by
        have job : Idle s.macros (Job.start (ofTokens content) c none).queue :=
          (idle.jobs o c _ group).1
        rwa [(start_group plain content).1] at job
      have lighter : Queue.weight (ofTokens content) < Queue.weight (e :: rest) := by
        rw [weight_ofTokens]
        exact short
      have row := nodes_ne_nil_of_shows o depth plain {} s inside still
      obtain ⟨n, node⟩ := exists_group plain short row
      refine given ?_
      simp only [change, step, group, node, Option.elim_some]
      exact List.cons_ne_nil n []
termination_by q.weight

end TexFormula.Formula
