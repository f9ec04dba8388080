import TexFormula.Proofs.Step.Beside

/-! Steps that take something. Without definitions and calls, a step leaves the queue behind its
expression as it is, or it adds a node to the row for sure (`Step.gives_or_same`). So the step that
takes the place where two queues differ adds a node in both of them, which is ordinary if no job
ends with a break alone, or it is the end of a row in both (`Step.joins_ofExpr`). -/
namespace TexFormula
open Queue

/-- A plan that gives an ordinary node if all its jobs give such nodes. -/
def Plan.Fills {bound : Queue} (plan : Plan bound (Option Node)) : Prop :=
  plan.Yields Job.IntoOrdinary Node.Ordinary fun node => ∃ n, node = some n ∧ n.Ordinary

/-- An action that adds a node to the row for sure. -/
inductive Action.Gives {bound : Queue} : Action bound → Prop
  | place (n : Node) (nodes : List Node) : Gives (.place (n :: nodes))
  | add {plan : Plan bound (Option Node)}
    (yields : plan.Yields (fun _ => True) (fun _ => True) fun node => node.isSome = true) :
    Gives (.add plan)

/-- Actions in a context that add a node each, or end a row. -/
inductive Action.Joins (c : Context) {bound bound' : Queue} : Action bound → Action bound' → Prop
  | group {content content' : List Token} {short : content.length < bound.weight}
    {short' : content'.length < bound'.weight} (shows : Shows (ofTokens content))
    (shows' : Shows (ofTokens content')) :
    Joins c (.add (Plan.readTokens content short c none))
      (.add (Plan.readTokens content' short' c none))
  | built {plan : Plan bound (Option Node)} {plan' : Plan bound' (Option Node)}
    (fills : plan.Fills) (fills' : plan'.Fills) : Joins c (.add plan) (.add plan')
  | ended {e e' : Option Expr} (both : e.isSome = e'.isSome) :
    Joins c (.place (Formula.endNodes e)) (.place (Formula.endNodes e'))

variable {W : Queue → Queue → Prop} {left : Nat} {bound bound' : Queue} {t : Token} {c : Context}
  {table : Macro.Table} {rest rest' : Queue} {e e' : Expr} {command : Command}

/-! ### Commands -/

theorem Action.gives_build (plan : Plan bound Node) : (Action.build plan).Gives := by
  have all : plan.Yields (fun _ => True) (fun _ => True) fun _ => True :=
    Plan.yields_of_all (fun _ => trivial) (fun _ => trivial) plan
  exact .add (all.map fun _ _ => rfl)

theorem Action.gives_node (n : Node) : (Action.node n : Action bound).Gives :=
  .add rfl

namespace Plan

variable (defines : ∀ d, command ≠ .definition d)
include defines

/-- A command that defines nothing always adds a node. -/
theorem gives_perform (o : Options) (macros : Macro.Table) (t : Token) (c : Context)
    (q : Queue.Below bound) : (perform o macros command t c q).1.Gives := by
  cases command with
  | definition d => exact absurd rfl (defines d)
  | logo | identifier | symbol | built | space => exact Action.gives_node _
  | alphabet | switch | structural | kern | accent | unknown => exact Action.gives_build _

/-- A command that takes something from the queue builds its node of nodes that are read. -/
theorem fills_perform (known : command.IsOrdinary) (o : Options) (macros : Macro.Table) (t : Token)
    (c : Context) (q : Queue.Below bound) :
    (perform o macros command t c q).2 = q ∨
      ∃ plan, (perform o macros command t c q).1 = .add plan ∧ plan.Fills := by
  have build {plan : Plan bound Node} (carries : plan.Carries Node.Ordinary) :
      (some <$> plan).Fills :=
    carries.map fun n ordinary => ⟨n, rfl, ordinary⟩
  have finish {plan : Plan bound Node} (carries : plan.Carries Node.Ordinary) :
      (some <$> ((·.finish t c) <$> plan)).Fills :=
    build (carries.map fun _ ordinary => Node.carried_finish ordinary t c)
  cases command with
  | definition d => exact absurd rfl (defines d)
  | logo | identifier | symbol | built | space | unknown => exact .inl rfl
  | alphabet variant => exact .inr ⟨_, rfl, build (carries_alphabet t.value variant c q)⟩
  | switch switch => exact .inr ⟨_, rfl, build (carries_switched t.value switch c q)⟩
  | structural found => exact .inr ⟨_, rfl, finish (carries_structural found t c q)⟩
  | kern =>
    have kern : (pure (kern t.value q).1 : Plan bound Node).Carries Node.Ordinary :=
      carried_kern t.value q
    exact .inr ⟨_, rfl, finish kern⟩
  | accent above glyph => exact .inr ⟨_, rfl, finish (carries_accent above glyph c q)⟩

end Plan

namespace Step

variable {q : Queue.Below bound} {q' : Queue.Below bound'}

section Single
variable (idle : t.kind.command = true → ¬ table.Active t.value)
include idle

theorem gives_plain (shown : t.isShown = true) (o : Options) (c : Context) (q : Queue.Below bound) :
    (plain o table t c q).1.Gives := by
  unfold Token.isShown at shown
  simp only [Bool.and_eq_true, Bool.not_eq_true', Bool.or_eq_false_iff] at shown
  obtain ⟨⟨⟨⟨⟨solid, opens⟩, closes⟩, fence⟩, null⟩, -⟩ := shown
  unfold plain
  simp only [solid, opens, closes, fence, null]
  simp only [Bool.false_and, Bool.or_self, if_neg Bool.false_ne_true]
  split
  · exact Action.gives_node _
  · split
    · exact Action.gives_node _
    · split
      · exact Action.gives_node _
      · split
        case isTrue command =>
          obtain ⟨meaning, means, defines⟩ := Plan.meaning?_of_idle (idle command)
          rw [Plan.command_of_meaning? o means]
          exact Plan.gives_perform defines _ _ _ _ _
        case isFalse => exact Action.gives_node _

/-- A token that shows gives a node. -/
theorem gives_single (shown : t.isShown = true) (o : Options) (c : Context)
    (q : Queue.Below bound) : (single o table t c q).1.Gives := by
  have unmarked : pendingMarks? t = none := by
    unfold Token.isShown at shown
    simp only [Bool.and_eq_true, Option.isNone_iff_eq_none] at shown
    exact shown.2
  unfold single
  rw [unmarked]
  split
  · exact .place _ _
  · split
    · rw [Formula.endRow_eq]
      cases q.val.popOptions.1 <;> exact .place _ _
    · exact gives_plain idle shown o c q

theorem gives_or_same_plain (o : Options) (c : Context) (q : Queue.Below bound) :
    (plain o table t c q).1.Gives ∨ (plain o table t c q).2 = q := by
  have named (command : t.kind.command = true) : (Plan.command o table t c q).1.Gives := by
    obtain ⟨meaning, means, defines⟩ := Plan.meaning?_of_idle (idle command)
    rw [Plan.command_of_meaning? o means]
    exact Plan.gives_perform defines _ _ _ _ _
  unfold plain
  simp only
  repeat' split
  all_goals first | exact .inr rfl | exact .inl (named ‹_›)

/-- A token gives a node, or it leaves the queue as it is. -/
theorem gives_or_same (o : Options) (c : Context) (q : Queue.Below bound) :
    (single o table t c q).1.Gives ∨ (single o table t c q).2 = q := by
  unfold single
  split
  · exact .inr rfl
  · split
    · rw [Formula.endRow_eq]
      cases q.val.popOptions.1 <;> exact .inl (.place _ _)
    · split
      · exact .inr rfl
      · exact gives_or_same_plain idle o c q

/-- A token that takes something from the queue builds its node of nodes that are read. -/
theorem fills_plain (o : Options) (c : Context) (q : Queue.Below bound) :
    (plain o table t c q).2 = q ∨
      ∃ plan, (plain o table t c q).1 = .add plan ∧ plan.Fills := by
  have named (command : t.kind.command = true) : (Plan.command o table t c q).2 = q ∨
      ∃ plan, (Plan.command o table t c q).1 = .add plan ∧ plan.Fills := by
    obtain ⟨meaning, means, defines⟩ := Plan.meaning?_of_idle (idle command)
    rw [Plan.command_of_meaning? o means]
    exact Plan.fills_perform defines (Command.isOrdinary_meaning? _ means) _ _ _ _ _
  unfold plain
  simp only
  repeat' split
  all_goals first | exact .inl rfl | exact named ‹_›

omit idle in
/-- The step in front of a queue that shows something gives something, or it leaves such a queue, or
it reads a group that shows something. -/
theorem gives_or_shows (idle : e.first.kind.command = true → ¬ table.Active e.first.value)
    (shows : Queue.Shows (e :: rest)) (o : Options) (c : Context) :
    (ofExpr o table c e rest).action.Gives ∨ (ofExpr o table c e rest).rest.val.Shows ∨
      ∃ (content : List Token) (short : content.length < Queue.weight (e :: rest)),
        (ofExpr o table c e rest).action = .add (Plan.readTokens content short c none) ∧
          Queue.Shows (ofTokens content) := by
  obtain ⟨shown, member, shows⟩ := shows
  have all {q : Queue.Below (e :: rest)} {inner : Context} {parent : Option Node} :
      (Plan.readQueue q inner parent).Yields (fun _ => True) (fun _ => True) fun _ => True :=
    Plan.yields_of_all (fun _ => trivial) (fun _ => trivial) _
  obtain ⟨kind, first, tail⟩ := e
  cases kind with
  | environment => exact .inl (.add (all.bind fun _ _ => rfl))
  | fenced => exact .inl (.add (all.bind fun _ _ => rfl))
  | whitespace =>
    rcases List.mem_cons.mp member with rfl | behind
    · cases shows
    · exact .inr (.inl ⟨shown, behind, shows⟩)
  | group =>
    rcases List.mem_cons.mp member with rfl | behind
    · cases shows with
      | group inside shows => exact .inr (.inr ⟨_, _, rfl, _, inside, shows⟩)
    · exact .inr (.inl ⟨shown, behind, shows⟩)
  | options =>
    let spliced := Below.opened ⟨.options, first, tail⟩ rest
    have same : Queue.Shows spliced.val := by
      rcases List.mem_cons.mp member with rfl | behind
      · cases shows with
        | options inside shows => exact ⟨_, List.mem_append_left _ inside, shows⟩
      · exact ⟨shown, List.mem_append_right _ behind, shows⟩
    rcases gives_or_same idle o c spliced with gives | left
    · exact .inl gives
    · exact .inr (.inl ((congrArg (Queue.Shows ·.val) left).mpr same))
  | single =>
    let behind := Below.tail ⟨.single, first, tail⟩ rest
    rcases List.mem_cons.mp member with rfl | later
    · cases shows with
      | single shown => exact .inl (gives_single idle shown o c behind)
    · rcases gives_or_same idle o c behind with gives | left
      · exact .inl gives
      · exact .inr (.inl ((congrArg (Queue.Shows ·.val) left).mpr ⟨shown, later, shows⟩))

variable (beside : Queue.Beside W left q.val q'.val) (some : 0 < left)
  (reaches : left ≤ q.val.weight)
include beside some reaches

/-- A token that takes the place from both queues gives an ordinary node in both readings, or it
ends a row. -/
theorem joins_single (o : Options) (c : Context)
    (gone : (single o table t c q).2.val.weight < left) :
    (single o table t c q).1.Joins c (single o table t c q').1 := by
  have reaches' : left ≤ q'.val.weight := beside.weight_eq some ▸ reaches
  have taken {rest : Queue.Below bound} (gone : rest.val.weight < left) : rest ≠ q := by
    rintro rfl
    omega
  have taken' {rest : Queue.Below bound'} (gone : rest.val.weight < left) : rest ≠ q' := by
    rintro rfl
    omega
  have acts := beside_single beside idle o c
  have gone' : (single o table t c q').2.val.weight < left := by
    rw [← acts.rest.eq_of_gone gone]
    exact gone
  unfold single at gone gone' ⊢
  split at gone
  · exact absurd rfl (taken gone)
  · rename_i noCell
    rw [if_neg noCell] at gone' ⊢
    rw [if_neg noCell]
    split at gone
    case isTrue row =>
      rw [if_pos row, if_pos row, Formula.endRow_eq, Formula.endRow_eq]
      exact .ended beside.popOptions.2.2
    case isFalse noRow =>
      rw [if_neg noRow] at gone' ⊢
      rw [if_neg noRow]
      split at gone
      · exact absurd rfl (taken gone)
      · rename_i unmarked
        simp only [unmarked] at gone' ⊢
        rcases fills_plain idle o c q with same | ⟨plan, act, fills⟩
        · exact absurd same (taken gone)
        · rcases fills_plain idle o c q' with same' | ⟨plan', act', fills'⟩
          · exact absurd same' (taken' gone')
          · rw [act, act']
            exact .built fills fills'

end Single

/-- The step that takes the place where two queues differ gives an ordinary node in both readings,
or it ends a row. -/
theorem joins_ofExpr (beside : Queue.Beside W left (e :: rest) (e' :: rest')) (some : 0 < left)
    (idle : e.first.kind.command = true → ¬ table.Active e.first.value) (o : Options)
    (c : Context) (reaches : left ≤ Queue.weight (e :: rest))
    (gone : (ofExpr o table c e rest).rest.val.weight < left) :
    (ofExpr o table c e rest).action.Joins c (ofExpr o table c e' rest').action := by
  cases beside with
  | past gone => exact absurd reaches (Nat.not_le.mpr gone)
  | wall _ _ _ never => omega
  | here similar composite length behind _ filled deeper inside =>
    obtain ⟨kind, first, tail⟩ := e
    obtain ⟨kind', first', tail'⟩ := e'
    obtain rfl : kind = kind' := similar.kind
    obtain rfl : first = first' := similar.first
    cases kind with
    | single | whitespace => cases composite
    | group => exact .group (filled rfl).1 (filled rfl).2
    | environment => exact .built (yields_environment _ _ _ _) (yields_environment _ _ _ _)
    | fenced => exact .built (yields_fenced _ _ _ _ _) (yields_fenced _ _ _ _ _)
    | options =>
      let before := Below.opened ⟨.options, first, tail⟩ rest
      let after := Below.opened ⟨.options, first, tail'⟩ rest
      have spliced : Queue.Beside W left before.val after.val := inside rfl
      exact joins_single idle spliced some (deeper rfl) o c gone
  | there further behind =>
    obtain ⟨kind, first, tail⟩ := e
    cases kind with
    | whitespace | group | environment | fenced => exact absurd further (Nat.not_le.mpr gone)
    | options =>
      let before := Below.opened ⟨.options, first, tail⟩ rest
      let after := Below.opened ⟨.options, first, tail⟩ rest'
      have spliced : Queue.Beside W left before.val after.val := behind.prepend further _
      have within : left ≤ before.val.weight := by
        rw [weight_splice]
        omega
      exact joins_single idle spliced some within o c gone
    | single =>
      let before := Below.tail ⟨.single, first, tail⟩ rest
      let after := Below.tail ⟨.single, first, tail⟩ rest'
      have same : Queue.Beside W left before.val after.val := behind
      exact joins_single idle same some further o c gone

end Step

end TexFormula
