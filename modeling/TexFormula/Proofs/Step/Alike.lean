import TexFormula.Plan.Step
import TexFormula.Proofs.Action.Alike

/-! Steps of two readings. A step does the same to a row in both readings, and leaves the same of
the queue, but for what these differ in (`Step.alike_ofExpr`). -/
namespace TexFormula
open Token

/-- Steps of two readings. -/
structure Step.Alike (D : Difference) (R : Macro → Macro → Prop) {bound bound' : Queue}
    (step : Step bound) (step' : Step bound') : Prop where
  token : SameMarks D step.token step'.token
  action : Action.Alike D R step.action step'.action
  rest : Queue.Alike D True step.rest.val step'.rest.val

/-- The queue that a command in front of it takes its arguments from. -/
def Expr.behind (e : Expr) (rest : Queue) : Queue :=
  if e.kind = .options then rest.splice e.rest else rest

/-- What is behind an expression, as its step has it. -/
abbrev Queue.Below.tail (e : Expr) (rest : Queue) : Queue.Below (e :: rest) :=
  ⟨rest, Queue.weight_lt_cons e rest⟩

/-- What is behind the opening bracket of an expression, as its step has it. -/
abbrev Queue.Below.opened (e : Expr) (rest : Queue) : Queue.Below (e :: rest) :=
  ⟨rest.splice e.rest, Queue.weight_splice_rest_lt e rest⟩

/-- The step for an expression hears no comment. -/
def Step.Silent (macros : Macro.Table) (e : Expr) (rest : Queue) : Prop :=
  e.first.kind.command = true → ∀ meaning ∈ Command.meaning? macros e.first.value,
    Mute (meaning.heard (e.behind rest))

variable {D : Difference} {t t' : Token} {c c' : Context} {l l' : List Token}
  {bound bound' : Queue} {e e' : Expr} {rest rest' : Queue} {R : Macro → Macro → Prop}

namespace Step

section Single
variable {q : Queue.Below bound} {q' : Queue.Below bound'}
  (queues : Queue.Alike D True q.val q'.val)
include queues

theorem alike_endRow : Action.Acts D R (endRow q) (endRow q') := by
  obtain ⟨found, left⟩ := Queue.Below.taken_popOptions queues
  unfold endRow
  cases one : q.popOptions with
  | mk first behind =>
    cases other : q'.popOptions with
    | mk first' behind' =>
      rw [one, other] at found left
      cases found with
      | none => exact ⟨.place _, left⟩
      | some alike =>
        simp only [spacing, alike.inner.thins.spellingAll_eq]
        exact ⟨.place _, left⟩

variable (same : c.plain = c'.plain) {macros macros' : Macro.Table}
  (tables : macros.Related D R macros') (sorted : ∀ m m', R m m' → m.inFormula = m'.inFormula)
  (o : Options) (marks : SameMarks D t t')
  (mute : D.comments → t.kind.command = true → ∀ meaning ∈ Command.meaning? macros t.value,
    Mute (meaning.heard q.val))
include same tables sorted marks mute

theorem alike_plain : Action.Acts D R (plain o macros t c q) (plain o macros' t' c' q') := by
  unfold plain
  simp only [← marks.kind, ← marks.value, ← marks.isBlank]
  split
  · exact ⟨.skip, queues⟩
  · split
    · refine ⟨Plan.alike_node ?_, queues⟩
      exact marks.eq_of_blind (f := (Node.error t.value _).fromToken) fun _ => rfl
    · split
      · refine ⟨Plan.alike_node ?_, queues⟩
        exact marks.eq_of_blind (f := (Node.error _ _).fromToken) fun _ => rfl
      · split
        · refine ⟨.add (Plan.alike_pure ?_), queues⟩
          exact marks.eq_at same (f := Node.delimiter?) fun _ _ => rfl
        · split
          · refine ⟨Plan.alike_node ?_, queues⟩
            exact marks.eq_of_blind (f := (Node.leaf "mo" t.value).fromToken) fun _ => rfl
          · split
            case isTrue command =>
              exact Plan.alike_command queues same tables sorted o marks command
                fun allowed => mute allowed command
            case isFalse =>
              refine ⟨Plan.alike_node ?_, queues⟩
              exact marks.eq_at same (f := Node.ofPlain) fun _ _ => rfl

theorem alike_single : Action.Acts D R (single o macros t c q) (single o macros' t' c' q') := by
  have blind : ∀ t : Token, pendingMarks? t = pendingMarks? t.unpaired := fun _ => rfl
  unfold single
  rw [← Context.table_eq same, ← marks.eq_of_blind (f := Token.isCellBreak) fun _ => rfl,
    ← marks.eq_of_blind (f := Token.isRowBreak) fun _ => rfl, ← marks.eq_of_blind blind]
  split
  · exact ⟨.place _, queues⟩
  · split
    · exact alike_endRow queues
    · split
      · exact ⟨.promote _, queues⟩
      · exact alike_plain queues same tables sorted o marks mute

end Single

section Parts
variable (same : c.plain = c'.plain)
include same

theorem alike_whitespace (marks : SameMarks D t t') :
    Action.Alike D R (whitespace t c : Action bound) (whitespace t' c' : Action bound') := by
  unfold whitespace
  rw [← Context.text_eq same, ← marks.kind]
  split
  · have node := marks.eq_of_blind
      (f := ((Node.element "mspace").setAttribute "width" "1em").fromToken) fun _ => rfl
    rw [node]
    exact .place _
  · exact .skip

theorem alike_environment (marks : SameMarks D t t') (content : Aligned D False l l')
    {short : l.length < bound.weight} {short' : l'.length < bound'.weight} :
    Plan.Alike D (environment t c l short) (environment t' c' l' short') := by
  have inner : (Environment.context t.value t.kind.star c).plain =
      (Environment.context t'.value t'.kind.star c').plain := by
    rw [← marks.value, ← marks.kind]
    exact Context.plain_eq same (f := Environment.context t.value t.kind.star) fun _ => rfl
  refine (Plan.alike_readTokens inner content _).bind fun node => Plan.alike_pure ?_
  rw [Environment.frame, Environment.frame, Context.table_eq inner, marks.value]

theorem alike_fenced (marks : SameMarks D t t') {closer closer' : Option Token}
    (closers : Option.Rel (Token.Alike D) closer closer') (content : Aligned D False l l')
    {short : l.length < bound.weight} {short' : l'.length < bound'.weight} :
    Plan.Alike D (fenced t closer c l short) (fenced t' closer' c' l' short') := by
  have blind : ∀ t c, Node.delimiter? t c = Node.delimiter? t.unpaired c.plain := fun _ _ => rfl
  have left := marks.eq_at same blind
  have right : closer.bind (Node.delimiter? · c) = closer'.bind (Node.delimiter? · c') := by
    cases closers with
    | none => rfl
    | some alike => exact alike.eq_at same blind
  exact (Plan.alike_readTokens same content _).bind fun node =>
    Plan.alike_pure (by rw [left, right])

end Parts

/-- A step goes the same way in both readings. -/
theorem alike_ofExpr (o : Options) {macros macros' : Macro.Table}
    (tables : macros.Related D R macros') (sorted : ∀ m m', R m m' → m.inFormula = m'.inFormula)
    (same : c.plain = c'.plain) (alike : Expr.Alike D e e') (queues : Queue.Alike D True rest rest')
    (silent : D.comments → Silent macros e rest) :
    Step.Alike D R (ofExpr o macros c e rest) (ofExpr o macros' c' e' rest') := by
  obtain ⟨kind, first, more⟩ := e
  obtain ⟨kind', first', more'⟩ := e'
  obtain rfl : kind = kind' := alike.kind
  have marks : SameMarks D first first' := alike.first.toSameMarks
  cases kind with
  | whitespace => exact ⟨marks, alike_whitespace same marks, queues⟩
  | group => exact ⟨marks, .add (Plan.alike_readTokens same alike.inner _), queues⟩
  | environment => exact ⟨marks, .add (alike_environment same marks alike.inner), queues⟩
  | fenced => exact ⟨marks, .add (alike_fenced same marks alike.closer? alike.inner), queues⟩
  | options =>
    have acts : Action.Acts D R
        (single o macros first c (Queue.Below.opened ⟨.options, first, more⟩ rest))
        (single o macros' first' c' (Queue.Below.opened ⟨.options, first', more'⟩ rest')) :=
      alike_single (Queue.alike_splice alike.rest queues) same tables sorted o marks silent
    exact ⟨marks, acts.1, acts.2⟩
  | single =>
    have acts : Action.Acts D R
        (single o macros first c (Queue.Below.tail ⟨.single, first, more⟩ rest))
        (single o macros' first' c' (Queue.Below.tail ⟨.single, first', more'⟩ rest')) :=
      alike_single queues same tables sorted o marks silent
    exact ⟨marks, acts.1, acts.2⟩

end Step

end TexFormula
