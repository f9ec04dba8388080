import TexFormula.Proofs.Action.Alike
import TexFormula.Proofs.Expr.Beside
import TexFormula.Proofs.Formula.Idle
import TexFormula.Proofs.Plan.Carried

/-! Steps along queues that differ in one place. As long as a step does not take the place, it is
the same step in both queues, and it leaves queues that differ in that place again
(`Step.beside_ofExpr`). -/
namespace TexFormula
open Queue Queue.Below

variable {W : Queue → Queue → Prop} {left : Nat} {bound bound' : Queue} {t : Token} {c : Context}
  {table : Macro.Table} {q q' rest rest' : Queue} {e e' : Expr}

/-- A queue goes together with itself. -/
theorem Queue.alike_nothing (q : Queue) : Queue.Alike .nothing True q q :=
  Queue.alike_self fun _ _ _ _ => trivial

theorem Expr.alike_nothing {e : Expr.Below bound} {e' : Expr.Below bound'} (same : SameExpr e e') :
    Expr.Alike .nothing e.val e'.val := by
  rw [← same]
  exact Expr.alike_self fun _ _ => trivial

theorem Queue.Below.found_nothing {one : Option (Expr.Below bound)}
    {other : Option (Expr.Below bound')} (same : Option.Rel SameExpr one other) :
    Found .nothing one other := by
  cases same with
  | none => exact .none
  | some equal => exact .some (Expr.alike_nothing equal)

theorem Token.marks_nothing (t : Token) : Token.SameMarks .nothing t t :=
  ⟨trivial, rfl⟩

/-- A job takes no argument if there is none in front. -/
theorem Job.start_of_bare {c : Context}
    (bare : c.takesArgument = true → ∀ e ∈ q.peekArgument?, Job.isOption e = false)
    (parent : Option Node) : (Job.start q c parent).queue = q := by
  unfold Job.start
  rw [peekArgument?_eq] at bare
  cases asks : c.takesArgument with
  | false => rfl
  | true =>
    cases found : q.popArgument with
    | mk first rest =>
      cases first with
      | none => rfl
      | some e =>
        have other := bare asks e (by rw [found]; rfl)
        simp only [other, if_neg Bool.false_ne_true]

/-- The argument of an environment is taken from both queues or from none. -/
theorem Queue.Beside.start (beside : Queue.Beside W left q q') (c : Context)
    (parent : Option Node) :
    Queue.Beside W left (Job.start q c parent).queue (Job.start q' c parent).queue := by
  have none {q : Queue} (breaks : ∀ b ∈ q.popArgument.1, b.isBreak = true) :
      (Job.start q c parent).queue = q := by
    refine Job.start_of_bare (fun _ b next => ?_) parent
    rw [peekArgument?_eq] at next
    rw [Job.isOption, Expr.kind_of_isBreak (breaks b next)]
    rfl
  rcases beside.popArgument with ⟨breaks, breaks'⟩ | ⟨similar, more, -⟩
  · rw [none breaks, none breaks']
    exact beside
  · unfold Job.start
    cases c.takesArgument with
    | false => exact beside
    | true =>
      cases taken : q.popArgument with
      | mk first behind =>
        cases taken' : q'.popArgument with
        | mk first' behind' =>
          rw [taken, taken'] at similar more
          cases similar with
          | none => exact beside
          | @some e e' alike =>
            have same : Job.isOption e' = Job.isOption e := by
              rw [Job.isOption, Job.isOption, alike.kind]
            simp only [same]
            by_cases option : Job.isOption e = true
            · rw [if_pos option, if_pos option]
              exact more
            · rw [if_neg option, if_neg option]
              exact beside

namespace Plan

theorem snd_switched (name : String) (switch : Switch) (c : Context) (b : Queue.Below bound) :
    (switched name switch c b).2.val = b.val.splitAtBreak.2 := by
  unfold switched
  simp only
  split
  · split <;> rfl
  · rfl

theorem snd_kern (name : String) (b : Queue.Below bound) : (kern name b).2 = (takeLength b).2 := by
  unfold kern
  split
  case h_1 rest taken => rw [taken]
  case h_2 text rest taken => rw [taken]

variable {q : Queue.Below bound} {q' : Queue.Below bound'}

/-- Plans that are the same unless the place was taken. -/
abbrev Beside (W : Queue → Queue → Prop) (left : Nat)
    (one : Plan bound Node × Queue.Below bound) (other : Plan bound' Node × Queue.Below bound') :
    Prop :=
  TakenBeside W left (Plan.Alike .nothing) one other

variable (beside : Queue.Beside W left q.val q'.val)
include beside

theorem beside_alphabet (name : String) (variant : Variant) (c : Context) :
    Beside W left (alphabet name variant c q) (alphabet name variant c q') := by
  obtain ⟨⟨more, same⟩, similar⟩ := beside_takeArgument beside
  unfold alphabet
  cases one : q.takeArgument with
  | mk first behind =>
    cases other : q'.takeArgument with
    | mk first' behind' =>
      rw [one, other] at more same similar
      cases similar with
      | none => exact ⟨more, fun _ => .done _⟩
      | some =>
        refine ⟨more, fun reaches => ?_⟩
        cases same reaches with
        | some equal =>
          have alike := Expr.alike_nothing equal
          simp only
          split
          · exact alike_readInto rfl alike _
          · exact alike_readArgument rfl alike

theorem beside_accent (above : Bool) (glyph : String) (c : Context) :
    Beside W left (accent above glyph c q) (accent above glyph c q') := by
  obtain ⟨⟨more, same⟩, similar⟩ := beside_takeArgument beside
  unfold accent
  cases one : q.takeArgument with
  | mk first behind =>
    cases other : q'.takeArgument with
    | mk first' behind' =>
      rw [one, other] at more same similar
      cases similar with
      | none => exact ⟨more, fun _ => .done _⟩
      | some =>
        refine ⟨more, fun reaches => ?_⟩
        cases same reaches with
        | some equal => exact (alike_readArgument rfl (Expr.alike_nothing equal)).map _

theorem beside_switched (name : String) (switch : Switch) (c : Context) :
    Beside W left (switched name switch c q) (switched name switch c q') := by
  obtain ⟨more, same⟩ := beside_splitAtBreak beside
  refine ⟨by rw [snd_switched, snd_switched]; exact more, fun reaches => ?_⟩
  rw [snd_switched] at reaches
  have body : q.splitAtBreak.1.val = q'.splitAtBreak.1.val := same reaches
  have queues : Queue.Alike .nothing True q.splitAtBreak.1.val q'.splitAtBreak.1.val :=
    body ▸ Queue.alike_nothing _
  obtain ⟨found, left⟩ := Queue.Below.taken_popArgument queues
  unfold switched
  simp only
  split
  · cases one : q.splitAtBreak.1.popArgument with
    | mk first behind =>
      cases other : q'.splitAtBreak.1.popArgument with
      | mk first' behind' =>
        rw [one, other] at found left
        cases found with
        | none => exact .done _
        | some alike =>
          simp only [argumentText_eq alike]
          exact alike_readSwitched left rfl switch _
  · exact alike_readSwitched queues rfl switch _

theorem beside_structural (command : Command.Structural) (t : Token) (c : Context) :
    Beside W left (structural command t c q) (structural command t c q') := by
  have breaks : q.val.peekArgument?.all Expr.isBreak = q'.val.peekArgument?.all Expr.isBreak := by
    rw [peekArgument?_eq, peekArgument?_eq]
    rcases beside.popArgument with ⟨breaks, breaks'⟩ | ⟨similar, -⟩
    · rw [(Option.all_eq_true _ _).mpr breaks, (Option.all_eq_true _ _).mpr breaks']
    · generalize q.val.popArgument.1 = next at similar
      generalize q'.val.popArgument.1 = next' at similar
      cases similar with
      | none => rfl
      | some alike => exact alike.isBreak
  have optional : TakenBeside W left (Option.Rel SameExpr)
      (if command.takesOptional then q.popOptions else (none, q))
      (if command.takesOptional then q'.popOptions else (none, q')) := by
    split
    · exact beside_popOptions beside
    · exact ⟨beside, fun _ => .none⟩
  obtain ⟨more, options⟩ := optional
  obtain ⟨last, arguments⟩ := beside_takeArguments more command.arity
  cases only : q.val.peekArgument?.all Expr.isBreak with
  | true =>
    unfold structural
    rw [← breaks, only]
    exact ⟨beside, fun _ => .done _⟩
  | false =>
    have rest : (structural command t c q).2 =
        ((if command.takesOptional then q.popOptions else (none, q)).2.takeArguments
          command.arity).2 := by
      unfold structural
      rw [only]
      rfl
    have rest' : (structural command t c q').2 =
        ((if command.takesOptional then q'.popOptions else (none, q')).2.takeArguments
          command.arity).2 := by
      unfold structural
      rw [← breaks, only]
      rfl
    refine ⟨by rw [rest, rest']; exact last, fun reaches => ?_⟩
    rw [rest] at reaches
    exact alike_of_arguments rfl command (Token.marks_nothing t) breaks
      (found_nothing (options (Nat.le_trans reaches (weight_takeArguments_le _ _))))
      ((arguments reaches).imp fun _ _ => Expr.alike_nothing) fun _ => False.elim

theorem beside_takeLength :
    TakenBeside W left Eq (takeLength q) (takeLength q') := by
  obtain ⟨⟨more, same⟩, similar⟩ := beside_takeArgument beside
  unfold takeLength
  cases one : q.takeArgument with
  | mk first behind =>
    cases other : q'.takeArgument with
    | mk first' behind' =>
      rw [one, other] at more same similar
      cases similar with
      | none => exact ⟨more, fun _ => rfl⟩
      | @some e e' alike =>
        simp only [← alike.kind]
        split
        · refine ⟨more, fun reaches => ?_⟩
          cases same reaches with
          | some equal => rw [equal]
        · have start : Length.Same (Token.spellingAll e.val.tokens)
              (Token.spellingAll e'.val.tokens) := by
            rcases alike.hidden with equal | ⟨-, braced, braced'⟩
            · exact .inl (by rw [equal])
            · exact .inr ⟨braced, braced'⟩
          obtain ⟨last, text⟩ := more.extendLength start
          refine ⟨last, fun reaches => ?_⟩
          have less := weight_extendLength (Token.spellingAll e.val.tokens) behind.val
          cases same (Nat.le_trans reaches less) with
          | some equal => exact congrArg some (text (by rw [equal]))

theorem beside_kern (name : String) :
    TakenBeside W left Eq (kern name q) (kern name q') := by
  obtain ⟨more, text⟩ := beside_takeLength beside
  refine ⟨by rw [snd_kern, snd_kern]; exact more, fun reaches => ?_⟩
  rw [snd_kern] at reaches
  have same := text reaches
  unfold kern
  cases one : takeLength q with
  | mk first behind =>
    cases other : takeLength q' with
    | mk first' behind' =>
      rw [one, other] at same
      obtain rfl : first = first' := same
      cases first <;> rfl

/-- Actions that are the same unless the place was taken. -/
abbrev ActsBeside (W : Queue → Queue → Prop) (left : Nat)
    (one : Action bound × Queue.Below bound) (other : Action bound' × Queue.Below bound') : Prop :=
  TakenBeside W left (Action.Alike .nothing Eq) one other

/-- A command that defines nothing does the same in both queues unless it takes the place. -/
theorem beside_perform {command : Command} (defines : ∀ d, command ≠ .definition d) (o : Options)
    (t : Token) (c : Context) :
    ActsBeside W left (perform o table command t c q) (perform o table command t c q') := by
  have node (n : Node) : ActsBeside W left (Action.node n, q) (Action.node n, q') :=
    ⟨beside, fun _ => alike_node rfl⟩
  have finish {plan : Plan bound Node} {plan' : Plan bound' Node}
      (plans : Plan.Alike .nothing plan plan') :
      Action.Alike .nothing Eq (Action.build ((·.finish t c) <$> plan))
        (Action.build ((·.finish t c) <$> plan')) :=
    alike_build (plans.map _)
  cases command with
  | definition d => exact absurd rfl (defines d)
  | logo | identifier | symbol | built | space => exact node _
  | alphabet variant =>
    obtain ⟨more, same⟩ := beside_alphabet beside t.value variant c
    exact ⟨more, fun reaches => alike_build (same reaches)⟩
  | switch switch =>
    obtain ⟨more, same⟩ := beside_switched beside t.value switch c
    exact ⟨more, fun reaches => alike_build (same reaches)⟩
  | structural command =>
    obtain ⟨more, same⟩ := beside_structural beside command t c
    exact ⟨more, fun reaches => finish (same reaches)⟩
  | kern =>
    obtain ⟨more, same⟩ := beside_kern beside t.value
    exact ⟨more, fun reaches => finish (alike_pure (same reaches))⟩
  | accent above glyph =>
    obtain ⟨more, same⟩ := beside_accent beside above glyph c
    exact ⟨more, fun reaches => finish (same reaches)⟩
  | unknown => exact ⟨beside, fun _ => finish (.done _)⟩

end Plan

namespace Step

theorem snd_endRow (b : Queue.Below bound) : (endRow b).2 = b.popOptions.2 := by
  unfold endRow
  split
  case h_1 e rest taken => rw [taken]
  case h_2 rest taken => rw [taken]

open Formula (endNodes)

variable {q : Queue.Below bound} {q' : Queue.Below bound'}

section Single
variable (beside : Queue.Beside W left q.val q'.val)
include beside

theorem beside_endRow : Plan.ActsBeside W left (endRow q) (endRow q') := by
  obtain ⟨more, same⟩ := beside_popOptions beside
  refine ⟨by rw [snd_endRow, snd_endRow]; exact more, fun reaches => ?_⟩
  rw [snd_endRow] at reaches
  have equal := same reaches
  unfold endRow
  cases one : q.popOptions with
  | mk first behind =>
    cases other : q'.popOptions with
    | mk first' behind' =>
      rw [one, other] at equal
      cases equal with
      | none => exact .place _
      | some equal =>
        simp only [equal]
        exact .place _

variable (idle : t.kind.command = true → ¬ table.Active t.value)
include idle

theorem beside_plain (o : Options) (c : Context) :
    Plan.ActsBeside W left (plain o table t c q) (plain o table t c q') := by
  have named (command : t.kind.command = true) :
      Plan.ActsBeside W left (Plan.command o table t c q) (Plan.command o table t c q') := by
    obtain ⟨meaning, means, other⟩ := Plan.meaning?_of_idle (idle command)
    rw [Plan.command_of_meaning? o means, Plan.command_of_meaning? o means]
    exact Plan.beside_perform beside other o t c
  unfold plain
  simp only
  repeat' split
  all_goals first | exact named ‹_› | exact ⟨beside, fun _ => .skip⟩ |
    exact ⟨beside, fun _ => .add (.done _)⟩

theorem beside_single (o : Options) (c : Context) :
    Plan.ActsBeside W left (single o table t c q) (single o table t c q') := by
  unfold single
  split
  · exact ⟨beside, fun _ => .place _⟩
  · split
    · exact beside_endRow beside
    · split
      · exact ⟨beside, fun _ => .promote _⟩
      · exact beside_plain beside idle o c

end Single

theorem token_ofExpr (o : Options) (table : Macro.Table) (c : Context) (e : Expr) (rest : Queue) :
    (ofExpr o table c e rest).token = e.first := by
  obtain ⟨kind, first, tail⟩ := e
  cases kind <;> rfl

/-- A step in front of two queues that differ in one place behind it is the same unless the place
is taken. -/
theorem beside_ofExpr (beside : Queue.Beside W left (e :: rest) (e' :: rest'))
    (stops : ¬ W (e :: rest) (e' :: rest'))
    (idle : e.first.kind.command = true → ¬ table.Active e.first.value) (o : Options)
    (c : Context) :
    Queue.Beside W left (ofExpr o table c e rest).rest.val (ofExpr o table c e' rest').rest.val ∧
      (left ≤ (ofExpr o table c e rest).rest.val.weight →
        Action.Alike .nothing Eq (ofExpr o table c e rest).action
          (ofExpr o table c e' rest').action) := by
  have acts (e e' : Expr) (rest rest' : Queue) (q : Queue.Below (e :: rest))
      (q' : Queue.Below (e' :: rest')) (more : Queue.Beside W left q.val q'.val) (t : Token)
      (idle : t.kind.command = true → ¬ table.Active t.value) :=
    beside_single more idle o c
  cases beside with
  | past gone =>
    have behind := Nat.lt_trans (ofExpr o table c e rest).rest.property gone
    exact ⟨.past behind, fun reaches => absurd reaches (Nat.not_le.mpr behind)⟩
  | wall given => exact absurd given stops
  | here similar composite length gone reaches filled deeper inside =>
    have never (reached : left ≤ rest.weight) : False := Nat.not_le.mpr gone reached
    obtain ⟨kind, first, tail⟩ := e
    obtain ⟨kind', first', tail'⟩ := e'
    obtain rfl : kind = kind' := similar.kind
    obtain rfl : first = first' := similar.first
    cases kind with
    | single | whitespace => cases composite
    | group | environment | fenced => exact ⟨.past gone, fun reached => (never reached).elim⟩
    | options =>
      obtain ⟨more, same⟩ := acts _ _ rest rest (Below.opened ⟨.options, first, tail⟩ rest)
        (Below.opened ⟨.options, first, tail'⟩ rest) (inside rfl) first idle
      exact ⟨more, same⟩
  | there reaches more =>
    have aligned (l : List Token) : Aligned .nothing False l l := .refl fun _ _ => trivial
    obtain ⟨kind, first, tail⟩ := e
    have marks := Token.marks_nothing first
    cases kind with
    | whitespace => exact ⟨more, fun _ => alike_whitespace rfl marks⟩
    | group => exact ⟨more, fun _ => .add (Plan.alike_readTokens rfl (aligned _) none)⟩
    | environment => exact ⟨more, fun _ => .add (alike_environment rfl marks (aligned _))⟩
    | fenced =>
      have closer : Option.Rel (Token.Alike .nothing) (Expr.closer? ⟨.fenced, first, tail⟩)
          (Expr.closer? ⟨.fenced, first, tail⟩) := (Expr.alike_self fun _ _ => trivial).closer?
      exact ⟨more, fun _ => .add (alike_fenced rfl marks closer (aligned _))⟩
    | options =>
      obtain ⟨last, same⟩ := acts _ _ rest rest' (Below.opened ⟨.options, first, tail⟩ rest)
        (Below.opened ⟨.options, first, tail⟩ rest') (more.prepend reaches _) first idle
      exact ⟨last, same⟩
    | single =>
      obtain ⟨last, same⟩ := acts _ _ rest rest' (Below.tail ⟨.single, first, tail⟩ rest)
        (Below.tail ⟨.single, first, tail⟩ rest') more first idle
      exact ⟨last, same⟩

end Step

end TexFormula
