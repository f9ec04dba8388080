import Mathlib.Logic.Relation
import TexFormula.Formula

/-! Reading as a machine. The reader of formulas follows the structure of a formula and comes to an
end because every job it starts is smaller than the one it belongs to. The machine of this module
knows nothing of that: it does one thing at a time, keeps what waits for a result on a stack, and
counts up when it starts to read the expansion of a call and down when it is done with it. It may
run forever or stop anywhere. The main statement is that it does what the reader does
(`Machine.does_readJob`): from the start of a job it comes to the reader's result, at the depth at
which it started. -/
namespace TexFormula.Formula

variable {bound : Queue}

/-- A row that is being read. -/
structure Reading where
  job : Job
  /-- What is left of the queue. -/
  left : Queue
  draft : Row.Draft := {}

namespace Reading

/-- The row of a job of which nothing is read yet. -/
def start (job : Job) : Reading :=
  { job, left := job.queue }

/-- The row with one more node. -/
def add (r : Reading) (t : Token) (n : Node) : Reading :=
  { r with draft := r.draft.add r.job.context t n }

/-- The row with one more node if there is one. -/
def addOption (r : Reading) (t : Token) (n : Option Node) : Reading :=
  { r with draft := r.draft.addOption r.job.context t n }

end Reading

/-- What waits for the result of a job. -/
inductive Waiting where
  /-- A plan that goes on with the node of a part of the queue, and the row its node is meant for.
  -/
  | part {bound : Queue} (token : Token) (next : Option Node → Plan bound (Option Node))
      (row : Reading)
  /-- The row in which a call stands. -/
  | call (token : Token) (row : Reading)

/-- What is done next. -/
inductive Focus where
  | row (row : Reading)
  | plan {bound : Queue} (token : Token) (plan : Plan bound (Option Node)) (row : Reading)
  /-- A job is done. -/
  | done (node : Option Node)

/-- A state of the machine. -/
structure Machine where
  /-- How many calls are being expanded inside each other. -/
  depth : Nat
  scope : Scope
  focus : Focus
  /-- What waits for a result, the last one first. -/
  waiting : List Waiting := []

namespace Machine

/-- The start of a job. -/
def start (depth : Nat) (s : Scope) (job : Job) : Machine :=
  { depth, scope := s, focus := .row (.start job) }

/-- The machine after a call was met, which is refused if there are too many calls inside each other
or altogether. -/
def call (m : Machine) (t : Token) (name : String) (f : Macro) (r : Reading) : Machine :=
  if Macro.maxDepth ≤ m.depth ∨ Scope.maxCalls ≤ m.scope.calls then
    { m with focus := .row (r.add t (Scope.refusal name)) }
  else
    let taken := f.collectArguments name r.left
    let behind := { r with left := taken.2 }
    match m.scope.callTokens name f taken.1 with
    | .error e =>
      { m with scope := m.scope.count, focus := .row (behind.add t (Scope.failure name e)) }
    | .ok tokens =>
      { depth := m.depth + 1
        scope := m.scope.count
        focus := .row (.start (.start (.ofTokens tokens) r.job.context none))
        waiting := .call t behind :: m.waiting }

/-- The machine after a step of a row. -/
def act (m : Machine) (t : Token) (action : Action bound) (r : Reading) : Machine :=
  match action with
  | .skip => { m with focus := .row r }
  | .promote marks => { m with focus := .row { r with draft := r.draft.promote marks } }
  | .place nodes => { m with focus := .row { r with draft := r.draft.place nodes } }
  | .add plan => { m with focus := .plan t plan r }
  | .define name f => { m with scope := m.scope.define name f, focus := .row r }
  | .call name f => m.call t name f r

/-- The state after a state. Only a machine with a result that nothing waits for stops. -/
def next? (o : Options) (m : Machine) : Option Machine :=
  match m.focus with
  | .row r =>
    match r.left with
    | [] => some { m with focus := .done (r.job.finish r.draft.nodes) }
    | e :: rest =>
      let step := Step.ofExpr o m.scope.macros r.job.context e rest
      some (m.act step.token step.action { r with left := step.rest.val })
  | .plan t (.done node) r => some { m with focus := .row (r.addOption t node) }
  | .plan t (.read job _ next) r =>
    some { m with focus := .row (.start job), waiting := .part t next r :: m.waiting }
  | .done node =>
    match m.waiting with
    | [] => none
    | .part t next r :: others =>
      some { m with focus := .plan t (next node) r, waiting := others }
    | .call t r :: others =>
      some { m with
        depth := m.depth - 1
        focus := .row (r.add t (node.getD (.row [])))
        waiting := others }

/-- One state follows another. -/
abbrev Follows (o : Options) (m after : Machine) : Prop :=
  m.next? o = some after

/-- A state is reached from another one, at once or after any number of steps. -/
abbrev Run (o : Options) : Machine → Machine → Prop :=
  Relation.ReflTransGen (Follows o)

/-- What comes after a state that follows another one comes after that as well. -/
theorem Run.step {o : Options} {m after last : Machine} (follows : m.next? o = some after)
    (run : Run o after last) : Run o m last :=
  .head follows run

variable {o : Options} {depth : Nat} {s : Scope} {waiting : List Waiting}

/-- Nothing comes after a state that stops. -/
theorem Run.eq_of_stops {m after : Machine} (stops : m.next? o = none) (run : Run o m after) :
    after = m := by
  rcases run.cases_head with same | ⟨next, follows, -⟩
  · exact same.symm
  · cases stops.symm.trans follows

/-- A state that is reached comes before a last state that is reached. -/
theorem run_of_last {m after last : Machine} (ends : last.next? o = none) (whole : Run o m last)
    (reached : Run o m after) : Run o after last := by
  have unique : Relator.RightUnique (Follows o) := fun _ _ _ this that =>
    Option.some.inj (this.symm.trans that)
  obtain onward | beyond := Relation.ReflTransGen.total_of_right_unique unique reached whole
  · exact onward
  · exact Run.eq_of_stops ends beyond ▸ .refl

/-- A check of all states of a run that stops after a number of steps. -/
def allFor (check : Machine → Bool) (o : Options) : Nat → Machine → Bool
  | 0, _ => false
  | steps + 1, m =>
    check m && match m.next? o with
      | none => true
      | some after => allFor check o steps after

/-- What a check of all states finds is true of every state of the run. -/
theorem of_allFor {check : Machine → Bool} {P : Machine → Prop} (sound : ∀ m, check m = true → P m)
    {steps : Nat} {m after : Machine} (checked : m.allFor check o steps = true)
    (run : Run o m after) : P after := by
  induction steps generalizing m with
  | zero => cases checked
  | succ steps ih =>
    obtain ⟨here, later⟩ := Bool.and_eq_true_iff.mp checked
    rcases run.cases_head with same | ⟨next, follows, further⟩
    · exact same ▸ sound m here
    · rw [follows] at later
      exact ih later further

/-- The machine does a job as `perform` does if it gets from the start of the job to the result, at
the same depth and whatever waits for the result. -/
def Does (o : Options) (depth : Nat) (job : Job) (perform : Scope → Option Node × Scope) : Prop :=
  ∀ s waiting, Run o ⟨depth, s, .row (.start job), waiting⟩
    ⟨depth, (perform s).2, .done (perform s).1, waiting⟩

/-- A plan is carried out as it is run, if its jobs are done as they are done in the run. -/
theorem run_plan {part : (job : Job) → job.queue.weight < bound.weight → Scope →
      Option Node × Scope}
    (parts : ∀ job fits, Does o depth job (part job fits)) (t : Token) (r : Reading)
    (plan : Plan bound (Option Node)) :
    Run o ⟨depth, s, .plan t plan r, waiting⟩
      ⟨depth, (plan.run part s).2, .row (r.addOption t (plan.run part s).1), waiting⟩ := by
  induction plan generalizing s with
  | done node => exact .single rfl
  | read job fits next ih =>
    have begun : Run o ⟨depth, s, .plan t (.read job fits next) r, waiting⟩
        ⟨depth, s, .row (.start job), .part t next r :: waiting⟩ := .single rfl
    have resumed : Run o
        ⟨depth, (part job fits s).2, .done (part job fits s).1, .part t next r :: waiting⟩
        ⟨depth, (part job fits s).2, .plan t (next (part job fits s).1) r, waiting⟩ := .single rfl
    exact begun.trans ((parts job fits s _).trans (resumed.trans (ih _)))

/-! ### Steps of a row -/

section Row
variable (s waiting) (job : Job) (d : Row.Draft) {readers : Readers bound}
  (full : readers.call? = none → Macro.maxDepth ≤ depth)
  (room : ∀ read ∈ readers.call?, depth < Macro.maxDepth ∧
    ∀ job, Does o (depth + 1) job (read job))
include full room

/-- A call is made as the reader makes it, if expansions are read one level deeper as the reader
does, and there is a level left for the machine exactly if there is one for the reader. -/
theorem run_call (t : Token) (name : String) (f : Macro) (rest : Queue.Below bound)
    (focus : Focus) :
    let progress := Formula.call readers job.context t name f rest d s
    Run o (call ⟨depth, s, focus, waiting⟩ t name f ⟨job, rest.val, d⟩)
      ⟨depth, progress.scope, .row ⟨job, progress.rest.val, progress.draft⟩, waiting⟩ := by
  unfold call Formula.call
  cases given : readers.call? with
  | none =>
    simp only [full given, true_or, if_true]
    exact .refl
  | some read =>
    obtain ⟨deeper, reads⟩ := room read given
    by_cases few : s.calls < Scope.maxCalls
    · have allowed : ¬ (Macro.maxDepth ≤ depth ∨ Scope.maxCalls ≤ s.calls) := by omega
      simp only [few, if_true, allowed, if_false]
      cases s.callTokens name f (f.collectArguments name rest.val).1 with
      | error e => exact .refl
      | ok tokens => exact (reads _ _ _).tail rfl
    · have refused : Macro.maxDepth ≤ depth ∨ Scope.maxCalls ≤ s.calls := by omega
      simp only [few, if_false, refused, if_true]
      exact .refl

/-- A step is made as the reader makes it, if parts and expansions are read as the reader does. -/
theorem run_perform (parts : ∀ job fits, Does o depth job (readers.part job fits))
    (step : Step bound) (focus : Focus) :
    let progress := Formula.perform readers job.context step d s
    Run o (act ⟨depth, s, focus, waiting⟩ step.token step.action ⟨job, step.rest.val, d⟩)
      ⟨depth, progress.scope, .row ⟨job, progress.rest.val, progress.draft⟩, waiting⟩ := by
  unfold act Formula.perform
  cases step.action with
  | skip => exact .refl
  | promote marks => exact .refl
  | place nodes => exact .refl
  | add plan => exact run_plan parts step.token _ plan
  | define name f => exact .refl
  | call name f => exact run_call s waiting job d full room step.token name f step.rest focus

end Row

/-- The machine reads a row as the reader does. -/
theorem run_readRow (job : Job) (q : Queue) (d : Row.Draft) :
    Run o ⟨depth, s, .row ⟨job, q, d⟩, waiting⟩
      ⟨depth, (readRow o depth job.context q d s).2,
        .row ⟨job, [], (readRow o depth job.context q d s).1⟩, waiting⟩ := by
  generalize same : job.context = c
  fun_induction readRow o depth c q d s generalizing job waiting with
  | case1 depth c d s => exact .refl
  | case2 depth c d s e rest readers progress part call =>
    rename_i after
    subst same
    have full : readers.call? = none → Macro.maxDepth ≤ depth := by
      intro nothing
      by_cases room : depth < Macro.maxDepth
      · cases nothing.symm.trans (dif_pos room)
      · exact Nat.le_of_not_lt room
    have room : ∀ read ∈ readers.call?, depth < Macro.maxDepth ∧
        ∀ inner, Does o (depth + 1) inner (read inner) := by
      intro read given
      by_cases room : depth < Macro.maxDepth
      · cases (dif_pos room).symm.trans given
        exact ⟨room, fun inner s waiting => (call room inner s inner rfl).tail rfl⟩
      · cases (dif_neg room).symm.trans given
    have parts : ∀ inner fits, Does o depth inner (readers.part inner fits) :=
      fun inner fits s waiting => (part inner fits s inner rfl).tail rfl
    have stepped := run_perform s waiting job d full room parts
      (Step.ofExpr o s.macros job.context e rest) (.row ⟨job, e :: rest, d⟩)
    exact .head rfl (stepped.trans (after job rfl))

/-- The machine does a job as the reader does. -/
theorem does_readJob (job : Job) : Does o depth job (readJob o depth job) :=
  fun _ _ => (run_readRow job job.queue {}).tail rfl

end Machine

end TexFormula.Formula
