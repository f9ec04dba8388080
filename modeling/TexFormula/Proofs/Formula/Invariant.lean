import TexFormula.Formula
import TexFormula.Proofs.Plan.Yields

/-! Invariants of reading. What every single step keeps is kept while a whole formula is read, with
all the parts that are read inside it and all calls that are expanded on the way
(`Invariant.Kept.readRow`). -/
namespace TexFormula.Formula

/-- A property for each kind of thing that comes up while a formula is read. -/
structure Invariant where
  /-- Of what is to be read. -/
  job : Job → Prop
  /-- Of what is left to be read in a context. -/
  queue : Context → Queue → Prop
  /-- Of what was read. -/
  node : Node → Prop
  /-- Of the row that is being read in a context. -/
  draft : Context → Row.Draft → Prop
  scope : Scope → Prop

namespace Invariant

variable {bound : Queue}

/-- Whether an invariant lets a step do what it does. -/
def Allows (I : Invariant) (c : Context) (s : Scope) (step : Step bound) : Prop :=
  I.queue c step.rest.val ∧
  match step.action with
  | .skip => True
  | .promote marks => ∀ d, I.draft c d → I.draft c (d.promote marks)
  | .place nodes => ∀ d, I.draft c d → I.draft c (d.place nodes)
  | .add plan => plan.Yields I.job I.node fun node => ∀ n ∈ node, I.node n
  | .define name m => I.scope (s.define name m)
  | .call name m =>
    I.queue c (m.collectArguments name step.rest.val).2 ∧
    ∀ tokens, s.callTokens name m (m.collectArguments name step.rest.val).1 = .ok tokens →
      I.job (.start (.ofTokens tokens) c none)

/-- An invariant that is kept by every single step, from the start of a job to its end. -/
structure Kept (I : Invariant) (o : Options) : Prop where
  start : ∀ {job}, I.job job → I.queue job.context job.queue ∧ I.draft job.context {}
  step : ∀ {c e rest s}, I.queue c (e :: rest) → I.scope s →
    I.Allows c s (Step.ofExpr o s.macros c e rest)
  add : ∀ {c t d n}, I.draft c d → I.node n → I.draft c (d.add c t n)
  blank : I.node (.row [])
  refusal : ∀ name, I.node (Scope.refusal name)
  failure : ∀ name e, I.node (Scope.failure name e)
  count : ∀ {s}, I.scope s → I.scope s.count
  finish : ∀ {job d}, I.job job → I.draft job.context d → ∀ n ∈ job.finish d.nodes, I.node n

namespace Kept

variable {I : Invariant} {o : Options} {c : Context} {d : Row.Draft} {s : Scope}

/-- What a way of doing jobs keeps. -/
def Reads (I : Invariant) (result : Option Node × Scope) : Prop :=
  (∀ n ∈ result.1, I.node n) ∧ I.scope result.2

/-- What a step leads to keeps the invariant. -/
def Progresses (I : Invariant) (c : Context) (progress : Progress bound) : Prop :=
  I.queue c progress.rest.val ∧ I.draft c progress.draft ∧ I.scope progress.scope

theorem addOption (kept : I.Kept o) {t : Token} (draft : I.draft c d) {node : Option Node}
    (given : ∀ n ∈ node, I.node n) : I.draft c (d.addOption c t node) := by
  cases node with
  | none => exact draft
  | some n => exact kept.add draft (given n rfl)

/-- A call keeps the invariant if reading its expansion does. -/
theorem call (kept : I.Kept o) {readers : Readers bound}
    (reads : ∀ read ∈ readers.call?, ∀ job s, I.job job → I.scope s → Reads I (read job s))
    {t : Token} {name : String} {m : Macro} {rest : Queue.Below bound}
    (left : I.queue c rest.val) (behind : I.queue c (m.collectArguments name rest.val).2)
    (asked : ∀ tokens, s.callTokens name m (m.collectArguments name rest.val).1 = .ok tokens →
      I.job (.start (.ofTokens tokens) c none))
    (draft : I.draft c d) (scope : I.scope s) :
    Progresses I c (Formula.call readers c t name m rest d s) := by
  have refused := kept.add (t := t) draft (kept.refusal name)
  unfold Formula.call
  split
  case h_1 => exact ⟨left, refused, scope⟩
  case h_2 read given =>
    split
    · simp only
      split
      case h_1 e failed =>
        exact ⟨behind, kept.add draft (kept.failure name e), kept.count scope⟩
      case h_2 tokens expanded =>
        obtain ⟨found, after⟩ := reads read given _ _ (asked tokens expanded) (kept.count scope)
        refine ⟨behind, kept.add draft ?_, after⟩
        cases node : (read (.start (.ofTokens tokens) c none) s.count).1 with
        | none => exact kept.blank
        | some n => exact found n node
    · exact ⟨left, refused, scope⟩

/-- A step keeps the invariant if reading its parts and its expansion does. -/
theorem perform (kept : I.Kept o) {readers : Readers bound}
    (parts : ∀ job fits s, I.job job → I.scope s → Reads I (readers.part job fits s))
    (calls : ∀ read ∈ readers.call?, ∀ job s, I.job job → I.scope s → Reads I (read job s))
    {step : Step bound} (allowed : I.Allows c s step) (draft : I.draft c d) (scope : I.scope s) :
    Progresses I c (Formula.perform readers c step d s) := by
  obtain ⟨left, allowed⟩ := allowed
  unfold Formula.perform
  cases action : step.action with
  | skip => exact ⟨left, draft, scope⟩
  | promote marks =>
    rw [action] at allowed
    exact ⟨left, allowed d draft, scope⟩
  | place nodes =>
    rw [action] at allowed
    exact ⟨left, allowed d draft, scope⟩
  | add plan =>
    rw [action] at allowed
    obtain ⟨given, after⟩ := Plan.Yields.run parts allowed scope
    exact ⟨left, kept.addOption draft given, after⟩
  | define name m =>
    rw [action] at allowed
    exact ⟨left, draft, allowed⟩
  | call name m =>
    rw [action] at allowed
    exact kept.call calls left allowed.1 allowed.2 draft scope

/-- The end of a job keeps the invariant. -/
theorem close (kept : I.Kept o) {job : Job} (asked : I.job job) {row : Row.Draft × Scope}
    (draft : I.draft job.context row.1) (scope : I.scope row.2) : Reads I (Formula.close job row) :=
  ⟨kept.finish asked draft, scope⟩

/-- What every step keeps is kept while a row is read. -/
theorem readRow (kept : I.Kept o) (depth : Nat) {q : Queue} (queue : I.queue c q)
    (draft : I.draft c d) (scope : I.scope s) :
    I.draft c (Formula.readRow o depth c q d s).1 ∧
      I.scope (Formula.readRow o depth c q d s).2 := by
  fun_induction Formula.readRow o depth c q d s with
  | case1 depth c d s => exact ⟨draft, scope⟩
  | case2 depth c d s e rest readers progress part call after =>
    have parts : ∀ job fits s, I.job job → I.scope s → Reads I (readers.part job fits s) := by
      intro job fits s asked scope
      obtain ⟨queue, empty⟩ := kept.start asked
      have row := part job fits s queue empty scope
      exact kept.close asked row.1 row.2
    have calls : ∀ read ∈ readers.call?, ∀ job s, I.job job → I.scope s →
        Reads I (read job s) := by
      intro read given job s asked scope
      by_cases room : depth < Macro.maxDepth
      · obtain ⟨queue, empty⟩ := kept.start asked
        have row := call room job s queue empty scope
        cases (dif_pos room).symm.trans given
        exact kept.close asked row.1 row.2
      · cases (dif_neg room).symm.trans given
    obtain ⟨left, added, defined⟩ :=
      kept.perform parts calls (kept.step queue scope) draft scope
    exact after left added defined

/-- What every step keeps is kept while a job is done. -/
theorem readJob (kept : I.Kept o) (depth : Nat) {job : Job} (asked : I.job job)
    (scope : I.scope s) : Reads I (Formula.readJob o depth job s) := by
  obtain ⟨queue, empty⟩ := kept.start asked
  have row := kept.readRow depth queue empty scope
  exact kept.close asked row.1 row.2

end Kept

end Invariant

end TexFormula.Formula
