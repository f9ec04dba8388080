import TexFormula.Proofs.Command.Stable
import TexFormula.Proofs.Formula.Breaks
import TexFormula.Proofs.Formula.Invariant
import TexFormula.Proofs.Step.Alike

/-! Formulas without definitions and calls. If no token names a command that defines a macro, or a
macro that a formula has defined, then the known macros stay as they are while a formula is read. So
the breaks that a reading comes to depend on the queue and on the known macros alone
(`breaksIn_of_idle`), and nothing that is read inside an expression matters to them. -/
namespace TexFormula

/-- Whether a name defines macros, or calls one that a formula has defined. -/
def Macro.Table.Active (table : Macro.Table) (name : String) : Prop :=
  (Definition.Command.named? name).isSome ∨ ∃ m, table.get? name = some m ∧ m.inFormula = true

/-- Tokens of which none defines or calls a macro. -/
def Difference.idle (table : Macro.Table) : Difference where
  comments := False
  macros := True
  holds t := t.kind.command = true → ¬ table.Active t.value
  lasts := Token.lasting_anyCommand.persistent (¬ table.Active ·)
  coherent := False.elim
  stored := False.elim

/-- Whether an action neither defines nor calls a macro. -/
def Action.Inert {bound : Queue} : Action bound → Prop
  | .define _ _ | .call _ _ => False
  | _ => True

variable {bound : Queue} {table : Macro.Table} {o : Options} {t : Token} {c : Context} {q : Queue}
  {tokens : List Token} {e : Expr} {rest : Queue}

/-! ### Actions -/

namespace Command

/-- What holds of the meanings that the tables give to a name holds of the first of them. -/
theorem named_cases {p : Command → Prop} (name : String)
    (identifier : ∀ marks, p (.identifier marks)) (symbol : ∀ found, p (.symbol found))
    (built : ∀ node, p (.built node)) (alphabet : ∀ variant, p (.alphabet variant))
    (space : ∀ width, p (.space width))
    (switch : ∀ found, Switch.named? name = some found → p (.switch found))
    (structural : ∀ command, p (.structural command)) (kern : p .kern)
    (accent : ∀ above glyph, p (.accent above glyph)) (unknown : p .unknown) : p (named name) := by
  have kerns : ∀ meaning ∈ kern? name, p meaning := by
    intro meaning given
    unfold kern? at given
    split at given <;> cases given
    exact kern
  unfold named
  refine holds_getD ?_ unknown
  refine forall_mem_orElse (Option.forall_mem_map.mpr fun _ _ => identifier _) ?_
  refine forall_mem_orElse (Option.forall_mem_map.mpr fun _ _ => symbol _) ?_
  refine forall_mem_orElse (Option.forall_mem_map.mpr fun _ _ => built _) ?_
  refine forall_mem_orElse (Option.forall_mem_map.mpr fun _ _ => alphabet _) ?_
  refine forall_mem_orElse (Option.forall_mem_map.mpr fun _ _ => space _) ?_
  refine forall_mem_orElse (Option.forall_mem_map.mpr switch) ?_
  refine forall_mem_orElse (Option.forall_mem_map.mpr fun _ _ => structural _) ?_
  refine forall_mem_orElse kerns ?_
  exact forall_mem_orElse (Option.forall_mem_map.mpr fun _ _ => accent _ _)
    (Option.forall_mem_map.mpr fun _ _ => accent _ _)

theorem named_ne_definition (name : String) (command : Definition.Command) :
    named name ≠ .definition command := by
  apply named_cases (p := (· ≠ .definition command)) <;> intros <;> rintro ⟨⟩

end Command

namespace Plan

/-- A command that defines nothing. -/
theorem inert_perform {command : Command} (other : ∀ d, command ≠ .definition d) (o : Options)
    (macros : Macro.Table) (t : Token) (c : Context) (q : Queue.Below bound) :
    (perform o macros command t c q).1.Inert := by
  cases command with
  | definition d => exact absurd rfl (other d)
  | _ => trivial

/-- A name that neither defines nor calls a macro has a meaning, which does not define one. -/
theorem meaning?_of_idle (idle : ¬ table.Active t.value) :
    ∃ meaning, Command.meaning? table t.value = some meaning ∧
      ∀ d, meaning ≠ .definition d := by
  unfold Macro.Table.Active at idle
  obtain ⟨noDefinition, noMacro⟩ := not_or.mp idle
  have undefined : Definition.Command.named? t.value = none :=
    Option.not_isSome_iff_eq_none.mp noDefinition
  unfold Command.meaning?
  split
  case h_1 meaning fixed =>
    refine ⟨meaning, rfl, ?_⟩
    rintro d rfl
    unfold Command.fixed? at fixed
    rw [undefined] at fixed
    obtain ⟨node, -, given⟩ := Option.map_eq_some_iff.mp fixed
    cases given
  case h_2 =>
    have uncalled : (table.get? t.value).filter (·.inFormula) = none := by
      refine Option.filter_eq_none_iff.mpr fun m found inFormula => ?_
      exact noMacro ⟨m, found, inFormula⟩
    rw [uncalled]
    exact ⟨_, rfl, Command.named_ne_definition t.value⟩

/-- A command does what its meaning says. -/
theorem command_of_meaning? {meaning : Command} (o : Options)
    (means : Command.meaning? table t.value = some meaning) (c : Context)
    (q : Queue.Below bound) : command o table t c q = perform o table meaning t c q := by
  unfold Command.meaning? at means
  unfold command
  cases fixed : Command.fixed? t.value with
  | some known =>
    rw [fixed] at means
    obtain rfl := Option.some.inj means
    rfl
  | none =>
    rw [fixed] at means
    cases called : (table.get? t.value).filter (·.inFormula) with
    | some m =>
      rw [called] at means
      cases means
    | none =>
      rw [called] at means
      obtain rfl := Option.some.inj means
      rfl

end Plan

namespace Step

variable (idle : t.kind.command = true → ¬ table.Active t.value)
include idle

theorem inert_plain (o : Options) (c : Context) (q : Queue.Below bound) :
    (plain o table t c q).1.Inert := by
  have named (command : t.kind.command = true) : (Plan.command o table t c q).1.Inert := by
    obtain ⟨meaning, means, other⟩ := Plan.meaning?_of_idle (idle command)
    rw [Plan.command_of_meaning? o means]
    exact Plan.inert_perform other _ _ _ _ _
  unfold plain
  simp only
  repeat' split
  all_goals first | trivial | exact named ‹_›

theorem inert_single (o : Options) (c : Context) (q : Queue.Below bound) :
    (single o table t c q).1.Inert := by
  unfold single
  split
  · trivial
  · split
    · unfold endRow
      split <;> trivial
    · split
      · trivial
      · exact inert_plain idle o c q

omit idle in
theorem inert_ofExpr (idle : e.first.kind.command = true → ¬ table.Active e.first.value)
    (o : Options) (c : Context) (rest : Queue) : (ofExpr o table c e rest).action.Inert := by
  unfold ofExpr
  simp only
  split
  · unfold whitespace
    split <;> trivial
  · trivial
  · trivial
  · trivial
  · exact inert_single idle o c _
  · exact inert_single idle o c _

end Step

/-- The context of a job does not depend on what is read in it. -/
theorem Job.context_start (q : Queue) (c : Context) (parent : Option Node) :
    (Job.start q c parent).context = { c with takesArgument := false } := by
  unfold Job.start
  simp only
  split
  · split <;> rfl
  · rfl

namespace Formula

/-! ### Queues -/

/-- Whether no token in a queue defines or calls a macro. -/
def Idle (table : Macro.Table) (q : Queue) : Prop :=
  ∀ e ∈ q, ∀ t ∈ e.tokens, t.kind.command = true → ¬ table.Active t.value

theorem idle_of_alike {q' : Queue} (alike : Queue.Alike (.idle table) True q q') : Idle table q' :=
  alike.holds

theorem Idle.alike (idle : Idle table q) : Queue.Alike (.idle table) True q q :=
  Queue.alike_self idle

theorem idle_ofTokens (idle : ∀ t ∈ tokens, t.kind.command = true → ¬ table.Active t.value) :
    Idle table (.ofTokens tokens) := by
  have aligned : Aligned (.idle table) True tokens tokens := .refl idle
  exact idle_of_alike aligned.queue

theorem idle_start (idle : Idle table q) (c : Context) (parent : Option Node) :
    Idle table (Job.start q c parent).queue :=
  idle_of_alike (Job.alike_start idle.alike rfl parent).queue

/-- The step in front of a queue goes together with itself. -/
theorem Idle.step (idle : Idle table (e :: rest)) (o : Options) (c : Context) :
    Step.Alike (.idle table) Eq (Step.ofExpr o table c e rest) (Step.ofExpr o table c e rest) := by
  obtain ⟨here, later⟩ := List.forall_mem_cons.mp idle
  have tables : table.Related (.idle table) Eq table := fun name _ => by
    cases table.get? name with
    | none => exact .none
    | some m => exact .some rfl
  exact Step.alike_ofExpr o tables (fun _ _ same => congrArg _ same) rfl
    (Expr.alike_self here) (Queue.alike_self later) False.elim

/-- What a step leaves of a queue without definitions and calls has none. -/
theorem idle_step (idle : Idle table (e :: rest)) (o : Options) (c : Context) :
    Idle table (Step.ofExpr o table c e rest).rest.val :=
  idle_of_alike (idle.step o c).rest

theorem idle_jobs {α : Type} {bound bound' : Queue} {plan : Plan bound α} {plan' : Plan bound' α}
    (plans : Plan.Alike (.idle table) plan plan') :
    plan'.Yields (fun job => Idle table job.queue) (fun _ => True) fun _ => True := by
  induction plans with
  | done => trivial
  | read jobs _ ih => exact ⟨idle_of_alike jobs.queue, fun node _ => ih node⟩

/-! ### Readings -/

theorem rest_perform_of_inert {step : Step bound} (inert : step.action.Inert)
    (readers : Readers bound) (c : Context) (d : Row.Draft) (s : Scope) :
    (perform readers c step d s).rest = step.rest := by
  unfold perform
  generalize step.action = action at inert ⊢
  cases action with
  | define => exact inert.elim
  | call => exact inert.elim
  | _ => rfl

/-- A step that neither defines nor calls a macro leaves the scope to its parts. -/
theorem scope_perform_of_inert {step : Step bound} (inert : step.action.Inert)
    {readers : Readers bound} {s : Scope} {J : Job → Prop}
    (jobs : ∀ plan, step.action = .add plan → plan.Yields J (fun _ => True) fun _ => True)
    (parts : ∀ job fits, J job → (readers.part job fits s).2 = s) (c : Context) (d : Row.Draft) :
    (perform readers c step d s).scope = s := by
  unfold perform
  generalize step.action = action at inert jobs ⊢
  cases action with
  | define => exact inert.elim
  | call => exact inert.elim
  | skip | promote | place => rfl
  | add plan =>
    have kept (job : Job) (fits : job.queue.weight < bound.weight) (s' : Scope) (asked : J job)
        (same : s' = s) : (∀ n ∈ (readers.part job fits s').1, True) ∧
          (readers.part job fits s').2 = s :=
      ⟨fun _ _ => trivial, same ▸ parts job fits asked⟩
    exact (Plan.Yields.run kept (jobs plan rfl) rfl).2

/-- The jobs of a step in front of a queue without definitions and calls have none either. -/
theorem Idle.jobs (idle : Idle table (e :: rest)) (o : Options) (c : Context)
    (plan : Plan (e :: rest) (Option Node))
    (adds : (Step.ofExpr o table c e rest).action = .add plan) :
    plan.Yields (fun job => Idle table job.queue) (fun _ => True) fun _ => True := by
  have actions := (idle.step o c).action
  rw [adds] at actions
  cases actions with
  | add plans => exact idle_jobs plans

/-- Without definitions and calls, a reading leaves its scope as it is. -/
theorem scope_readRow (o : Options) (depth : Nat) (c : Context) {q : Queue} (d : Row.Draft)
    (s : Scope) (idle : Idle s.macros q) : (readRow o depth c q d s).2 = s := by
  match q with
  | [] => rw [readRow]
  | e :: rest =>
    let step := Step.ofExpr o s.macros c e rest
    let progress := perform (readers o depth (e :: rest)) c step d s
    have inert := Step.inert_ofExpr (idle e List.mem_cons_self e.first List.mem_cons_self) o c rest
    have left : progress.rest = step.rest := rest_perform_of_inert inert _ _ _ _
    have lighter : step.rest.val.weight < Queue.weight (e :: rest) := step.rest.property
    have same : progress.scope = s := by
      refine scope_perform_of_inert inert (idle.jobs o c) (fun job fits asked => ?_) c d
      exact scope_readRow o depth job.context {} s asked
    rw [readRow_cons]
    change (readRow o depth c progress.rest.val progress.draft progress.scope).2 = s
    rw [left, same]
    exact scope_readRow o depth c progress.draft s (idle_step idle o c)
termination_by q.weight

/-- Without definitions and calls, a step leaves what is behind it, and its scope. -/
theorem perform_of_idle {s : Scope} (idle : Idle s.macros (e :: rest)) (o : Options) (depth : Nat)
    (c : Context) (d : Row.Draft) :
    let step := Step.ofExpr o s.macros c e rest
    let progress := perform (readers o depth (e :: rest)) c step d s
    progress.rest = step.rest ∧ progress.scope = s := by
  have inert := Step.inert_ofExpr (idle e List.mem_cons_self e.first List.mem_cons_self) o c rest
  refine ⟨rest_perform_of_inert inert _ _ _ _, ?_⟩
  refine scope_perform_of_inert inert (idle.jobs o c) (fun job fits asked => ?_) c d
  exact scope_readRow o depth job.context {} s asked

/-- The breaks that a queue comes to while the known macros stay as they are. -/
def idleBreaks (o : Options) (macros : Macro.Table) (c : Context) (q : Queue) : List Bool :=
  match q with
  | [] => []
  | e :: rest =>
    let behind := (Step.ofExpr o macros c e rest).rest
    (break? c e).toList ++ idleBreaks o macros c behind.val
termination_by q.weight
decreasing_by exact behind.property

theorem idleBreaks_cons (o : Options) (macros : Macro.Table) (c : Context) (e : Expr)
    (rest : Queue) :
    idleBreaks o macros c (e :: rest) = (break? c e).toList ++
      idleBreaks o macros c (Step.ofExpr o macros c e rest).rest.val := by
  rw [idleBreaks]

/-- Without definitions and calls, the breaks that reading a queue comes to depend on the queue and
on the known macros. -/
theorem breaksIn_of_idle (o : Options) (depth : Nat) (c : Context) {q : Queue} (s : Scope)
    (idle : Idle s.macros q) : breaksIn o depth c q s = idleBreaks o s.macros c q := by
  match q with
  | [] => rw [breaksIn, idleBreaks]
  | e :: rest =>
    let step := Step.ofExpr o s.macros c e rest
    let progress := perform (readers o depth (e :: rest)) c step {} s
    have lighter : step.rest.val.weight < Queue.weight (e :: rest) := step.rest.property
    obtain ⟨left, same⟩ : progress.rest = step.rest ∧ progress.scope = s :=
      perform_of_idle idle o depth c {}
    have ahead : breaksIn o depth c progress.rest.val progress.scope =
        idleBreaks o s.macros c step.rest.val := by
      rw [left, same, breaksIn_of_idle o depth c s (idle_step idle o c)]
    rw [breaksIn, idleBreaks_cons, ahead]
termination_by q.weight

end Formula

end TexFormula
