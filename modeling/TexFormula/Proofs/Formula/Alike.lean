import TexFormula.Proofs.Formula.Machine
import TexFormula.Proofs.Step.Alike

/-! Reading goes the same way twice. A state of the first reading and one of the second go together
if all that they keep does. A step of the first reading is a step of the second one as well, and
then the states after it go together again; or it passes over a comment that the second reading does
not have, and then the second reading waits (`Alike.next`). So both come to the same end
(`alike_readJob`). -/
namespace TexFormula

open Token (SameMarks)

/-- What the parts of two readings share. -/
structure Scope.Alike (D : Difference) (s s' : Scope) : Prop where
  macros : Macro.Table.Alike D s.macros s'.macros
  calls : s.calls = s'.calls

namespace Scope.Alike

variable {D : Difference} {s s' : Scope} {f f' : Macro} (scopes : Scope.Alike D s s')
include scopes

theorem count : Scope.Alike D s.count s'.count :=
  ⟨scopes.macros, congrArg (· + 1) scopes.calls⟩

theorem define (name : String) (alike : Macro.Alike D f f') :
    Scope.Alike D (s.define name f) (s'.define name f') :=
  ⟨scopes.macros.insert alike name, scopes.calls⟩

end Scope.Alike

theorem Scope.alike_self (s : Scope) : Scope.Alike .nothing s s :=
  ⟨Macro.Table.alike_self fun _ _ _ => Macro.alike_self (fun _ _ => trivial)
    fun _ _ _ _ => trivial, rfl⟩

theorem Scope.Alike.eq {s s' : Scope} (alike : Scope.Alike .nothing s s') : s = s' := by
  obtain ⟨⟨-, same⟩, calls⟩ := alike
  obtain ⟨macros, count⟩ := s
  obtain ⟨macros', count'⟩ := s'
  cases same.resolve_left id
  cases calls
  rfl

/-- Whether an action calls no macro whose expansion fails for its delimiters. The error says where
a delimiter stands. -/
def Action.Balanced {bound : Queue} (s : Scope) (rest : Queue) : Action bound → Prop
  | .call name f => ∀ b i x,
    s.callTokens name f (f.collectArguments name rest).1 ≠ .error (.mismatched b i x)
  | _ => True

namespace Formula

/-- Rows of two readings. -/
structure Reading.Alike (D : Difference) (r r' : Reading) : Prop where
  job : Job.Alike D r.job r'.job
  left : Queue.Alike D True r.left r'.left
  draft : r.draft = r'.draft

/-- What waits for a result in two readings. -/
inductive Waiting.Alike (D : Difference) : Waiting → Waiting → Prop
  | part {bound bound' : Queue} {t t' : Token} {r r' : Reading}
    {next : Option Node → Plan bound (Option Node)}
    {next' : Option Node → Plan bound' (Option Node)} (marks : SameMarks D t t')
    (go : ∀ node, Plan.Alike D (next node) (next' node)) (row : Reading.Alike D r r') :
    Alike D (.part t next r) (.part t' next' r')
  | call {t t' : Token} {r r' : Reading} (marks : SameMarks D t t') (row : Reading.Alike D r r') :
    Alike D (.call t r) (.call t' r')

/-- What is done next in two readings. -/
inductive Focus.Alike (D : Difference) : Focus → Focus → Prop
  | row {r r' : Reading} (row : Reading.Alike D r r') : Alike D (.row r) (.row r')
  | plan {bound bound' : Queue} {t t' : Token} {r r' : Reading}
    {plan : Plan bound (Option Node)} {plan' : Plan bound' (Option Node)}
    (marks : SameMarks D t t') (plans : Plan.Alike D plan plan') (row : Reading.Alike D r r') :
    Alike D (.plan t plan r) (.plan t' plan' r')
  | done (node : Option Node) : Alike D (.done node) (.done node)

/-- States of two readings. -/
structure Machine.Alike (D : Difference) (m m' : Machine) : Prop where
  depth : m.depth = m'.depth
  scope : Scope.Alike D m.scope m'.scope
  focus : Focus.Alike D m.focus m'.focus
  waiting : List.Forall₂ (Waiting.Alike D) m.waiting m'.waiting

/-- Whether no comment has a say in what comes next: none is heard by a command, and no call fails
for the delimiters of its expansion. -/
def Machine.Silent (o : Options) (m : Machine) : Prop :=
  match m.focus with
  | .row ⟨job, e :: rest, _⟩ =>
    Step.Silent m.scope.macros e rest ∧
      let step := Step.ofExpr o m.scope.macros job.context e rest
      Action.Balanced m.scope step.rest.val step.action
  | _ => True

variable {D : Difference} {t t' : Token} {r r' : Reading} {s s' : Scope} {m m' after : Machine}
  {f f' : Macro} {bound bound' : Queue} {o : Options}

theorem Reading.alike_start {job job' : Job} (jobs : Job.Alike D job job') :
    Reading.Alike D (.start job) (.start job') :=
  ⟨jobs, jobs.queue, rfl⟩

namespace Reading.Alike

variable (rows : Reading.Alike D r r') (marks : SameMarks D t t')
include rows marks

theorem add (n : Node) : Reading.Alike D (r.add t n) (r'.add t' n) := by
  refine ⟨rows.job, rows.left, ?_⟩
  have same := marks.eq_at rows.job.context (f := fun t c => r.draft.add c t n) fun _ _ => rfl
  exact same.trans (by rw [rows.draft]; rfl)

theorem addOption (node : Option Node) :
    Reading.Alike D (r.addOption t node) (r'.addOption t' node) := by
  cases node with
  | none => exact rows
  | some n => exact rows.add marks n

omit marks in
theorem finish : r.job.finish r.draft.nodes = r'.job.finish r'.draft.nodes := by
  unfold Job.finish
  rw [rows.job.parent, rows.job.option, rows.draft]

end Reading.Alike

namespace Machine.Alike

/-- A call that does not fail for its delimiters goes the same way in both readings. -/
theorem call (alike : Machine.Alike D m m') (marks : SameMarks D t t') (name : String)
    (macros : Macro.Alike D f f') (rows : Reading.Alike D r r')
    (balanced : D.comments → ∀ b i x,
      m.scope.callTokens name f (f.collectArguments name r.left).1 ≠ .error (.mismatched b i x)) :
    Machine.Alike D (m.call t name f r) (m'.call t' name f' r') := by
  obtain ⟨given, left⟩ := Macro.alike_collectArguments Queue.unconses_alike name macros rows.left
  have expanded := Scope.alike_callTokens alike.scope.macros name macros given
  have behind : Reading.Alike D { r with left := (f.collectArguments name r.left).2 }
      { r' with left := (f'.collectArguments name r'.left).2 } := ⟨rows.job, left, rows.draft⟩
  unfold Machine.call
  rw [← alike.depth, ← alike.scope.calls]
  split
  · exact ⟨rfl, alike.scope, .row (rows.add marks _), alike.waiting⟩
  · simp only
    generalize m.scope.callTokens name f (f.collectArguments name r.left).1 = tokens
      at expanded balanced ⊢
    generalize m'.scope.callTokens name f' (f'.collectArguments name r'.left).1 = tokens'
      at expanded ⊢
    cases expanded with
    | error e => exact ⟨rfl, alike.scope.count, .row (behind.add marks _), alike.waiting⟩
    | mismatched allowed b i x => exact absurd rfl (balanced allowed b i x)
    | ok aligned =>
      have begun := Reading.alike_start
        (Job.alike_start aligned.queue.anywhere rows.job.context none)
      exact ⟨rfl, alike.scope.count, .row begun, .cons (.call marks behind) alike.waiting⟩

theorem act (alike : Machine.Alike D m m') {step : Step bound} {step' : Step bound'}
    (steps : Step.Alike D (Macro.Alike D) step step') (rows : Reading.Alike D r r')
    (balanced : D.comments → Action.Balanced m.scope step.rest.val step.action) :
    Machine.Alike D (m.act step.token step.action { r with left := step.rest.val })
      (m'.act step'.token step'.action { r' with left := step'.rest.val }) := by
  have left : Reading.Alike D { r with left := step.rest.val }
      { r' with left := step'.rest.val } := ⟨rows.job, steps.rest, rows.draft⟩
  have actions := steps.action
  generalize step.action = action at actions balanced ⊢
  generalize step'.action = action' at actions ⊢
  cases actions with
  | skip => exact ⟨alike.depth, alike.scope, .row left, alike.waiting⟩
  | promote marks =>
    have draft : r.draft.promote marks = r'.draft.promote marks := by rw [rows.draft]
    exact ⟨alike.depth, alike.scope, .row ⟨rows.job, steps.rest, draft⟩, alike.waiting⟩
  | place nodes =>
    have draft : r.draft.place nodes = r'.draft.place nodes := by rw [rows.draft]
    exact ⟨alike.depth, alike.scope, .row ⟨rows.job, steps.rest, draft⟩, alike.waiting⟩
  | add plans => exact ⟨alike.depth, alike.scope, .plan steps.token plans left, alike.waiting⟩
  | define _ macros =>
    exact ⟨alike.depth, alike.scope.define _ macros, .row left, alike.waiting⟩
  | call name macros =>
    exact alike.call steps.token name macros left balanced

/-- A state that goes together with one that stops stops as well. -/
theorem stops (alike : Machine.Alike D m m') (stops : m.next? o = none) : m'.next? o = none := by
  obtain ⟨-, -, focus, waiting⟩ := alike
  obtain ⟨depth, scope, now, stack⟩ := m
  obtain ⟨depth', scope', now', stack'⟩ := m'
  cases focus with
  | @row r =>
    obtain ⟨job, left, draft⟩ := r
    cases left <;> cases stops
  | plan _ plans => cases plans <;> cases stops
  | done node =>
    cases waiting with
    | nil => rfl
    | cons first _ => cases first <;> cases stops

/-- A step of the first reading is one of the second reading, or passes over a comment that the
second reading does not have. -/
theorem next (alike : Machine.Alike D m m') (silent : D.comments → m.Silent o)
    (follows : m.next? o = some after) :
    (∃ after', m'.next? o = some after' ∧ Machine.Alike D after after') ∨
      Machine.Alike D after m' := by
  have whole := alike
  obtain ⟨depth, scope, focus, waiting⟩ := alike
  obtain ⟨n, s, now, stack⟩ := m
  obtain ⟨n', s', now', stack'⟩ := m'
  cases focus with
  | @row r r' rows =>
    have queues := rows.left
    obtain ⟨job, left, draft⟩ := r
    obtain ⟨job', left', draft'⟩ := r'
    cases queues with
    | nil =>
      cases follows
      refine .inl ⟨_, rfl, depth, scope, ?_, waiting⟩
      have node := rows.finish
      simp only at node
      rw [node]
      exact .done _
    | @drop c q _ allowed comment gap more =>
      -- the comment stands in front, and is passed over in text as anywhere else
      have passed :
          (Step.whitespace c job.context : Action (⟨.whitespace, c, []⟩ :: q)) = .skip := by
        simp [Step.whitespace, comment]
      have same : some (Machine.act ⟨n, s, .row ⟨job, ⟨.whitespace, c, []⟩ :: q, draft⟩, stack⟩ c
          (Step.whitespace c job.context : Action (⟨.whitespace, c, []⟩ :: q)) ⟨job, q, draft⟩) =
          some after := follows
      rw [passed] at same
      cases same
      exact .inr ⟨depth, scope, .row ⟨rows.job, more, rows.draft⟩, waiting⟩
    | @cons e e' q q' first more =>
      have steps := Step.alike_ofExpr o scope.macros.related (fun _ _ alike => alike.inFormula)
        rows.job.context first more fun allowed => (silent allowed).1
      cases follows
      exact .inl ⟨_, rfl, whole.act steps rows fun allowed => (silent allowed).2⟩
  | plan marks plans rows =>
    cases plans with
    | done node =>
      cases follows
      exact .inl ⟨_, rfl, depth, scope, .row (rows.addOption marks node), waiting⟩
    | read jobs go =>
      cases follows
      exact .inl ⟨_, rfl, depth, scope, .row (Reading.alike_start jobs),
        .cons (.part marks go rows) waiting⟩
  | done node =>
    cases waiting with
    | nil => cases follows
    | cons first others =>
      cases first with
      | part marks go rows =>
        cases follows
        exact .inl ⟨_, rfl, depth, scope, .plan marks (go node) rows, others⟩
      | call marks rows =>
        cases follows
        exact .inl ⟨_, rfl, congrArg (· - 1) depth, scope, .row (rows.add marks _), others⟩

/-- Whatever the first reading comes to, the second one comes to a state that goes together with it.
-/
theorem run (alike : Machine.Alike D m m') (silent : D.comments → ∀ between, Run o m between →
    between.Silent o) (reached : Run o m after) :
    ∃ after', Run o m' after' ∧ Machine.Alike D after after' := by
  induction reached with
  | refl => exact ⟨m', .refl, alike⟩
  | @tail between after before follows ih =>
    obtain ⟨between', before', along⟩ := ih
    rcases along.next (fun allowed => silent allowed _ before) follows with
      ⟨after', follows', result⟩ | result
    · exact ⟨after', before'.tail follows', result⟩
    · exact ⟨between', before', result⟩

end Machine.Alike

/-- Jobs that go together give the same node, and leave macros that go together. -/
theorem alike_readJob {job job' : Job} (depth : Nat) (jobs : Job.Alike D job job')
    (scopes : Scope.Alike D s s')
    (silent : D.comments → ∀ m, Machine.Run o (.start depth s job) m → m.Silent o) :
    (readJob o depth job s).1 = (readJob o depth job' s').1 ∧
      Scope.Alike D (readJob o depth job s).2 (readJob o depth job' s').2 := by
  have start : Machine.Alike D (.start depth s job) (.start depth s' job') :=
    ⟨rfl, scopes, .row (Reading.alike_start jobs), .nil⟩
  have run : Machine.Run o (.start depth s job)
      ⟨depth, (readJob o depth job s).2, .done (readJob o depth job s).1, []⟩ :=
    Machine.does_readJob job s []
  have run' : Machine.Run o (.start depth s' job')
      ⟨depth, (readJob o depth job' s').2, .done (readJob o depth job' s').1, []⟩ :=
    Machine.does_readJob job' s' []
  obtain ⟨last, reached, result⟩ := start.run silent run
  have same := Machine.Run.eq_of_stops (result.stops rfl) (Machine.run_of_last rfl run' reached)
  subst same
  obtain ⟨-, scopes, focus, -⟩ := result
  refine ⟨?_, scopes⟩
  generalize (readJob o depth job s).1 = node at focus
  generalize (readJob o depth job' s').1 = node' at focus
  cases focus
  rfl

/-- Token lists that go together are read into the same node. -/
theorem alike_read {c c' : Context} {tokens tokens' : List Token} (same : c.plain = c'.plain)
    (aligned : Aligned D True tokens tokens') (scopes : Scope.Alike D s s')
    (silent : D.comments → ∀ m, Machine.Run o (.start 0 s (.start (.ofTokens tokens) c none)) m →
      m.Silent o) :
    (read o c tokens s).1 = (read o c' tokens' s').1 ∧
      Scope.Alike D (read o c tokens s).2 (read o c' tokens' s').2 :=
  alike_readJob 0 (Job.alike_start aligned.queue same none) scopes silent

/-! ### Silent states by computation -/

/-- A check that the step for an expression hears no comment. -/
def Machine.isSilentStep (macros : Macro.Table) (e : Expr) (rest : Queue) : Bool :=
  if e.first.kind.command then
    (Command.meaning? macros e.first.value).all fun meaning =>
      (meaning.heard (e.behind rest)).all fun t => !t.kind.comment || t.value == ""
  else true

/-- A check for silent states. -/
def Machine.isSilent (o : Options) (m : Machine) : Bool :=
  match m.focus with
  | .row ⟨job, e :: rest, _⟩ =>
    let step := Step.ofExpr o m.scope.macros job.context e rest
    isSilentStep m.scope.macros e rest &&
      match step.action with
      | .call name f =>
        match m.scope.callTokens name f (f.collectArguments name step.rest.val).1 with
        | .error (.mismatched ..) => false
        | _ => true
      | _ => true
  | _ => true

theorem Machine.silent_of_isSilentStep {macros : Macro.Table} {e : Expr} {rest : Queue}
    (checked : isSilentStep macros e rest = true) : Step.Silent macros e rest := by
  intro command meaning given t member comment
  rw [isSilentStep, if_pos command, Option.all_eq_true] at checked
  have mute := List.all_eq_true.mp (checked meaning given) t member
  simpa [comment] using mute

theorem Machine.silent_of_isSilent (checked : m.isSilent o = true) : m.Silent o := by
  unfold isSilent at checked
  unfold Silent
  split at checked
  case h_1 job e rest draft focus =>
    obtain ⟨heard, balanced⟩ := Bool.and_eq_true_iff.mp checked
    refine ⟨silent_of_isSilentStep heard, ?_⟩
    dsimp only
    generalize Step.ofExpr o m.scope.macros job.context e rest = step at balanced ⊢
    generalize step.action = action at balanced ⊢
    cases action with
    | call name f =>
      intro b i x failed
      simp [failed] at balanced
    | skip | promote | place | add | define => trivial
  case h_2 => trivial

end Formula

end TexFormula
