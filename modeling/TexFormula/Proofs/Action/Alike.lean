import TexFormula.Plan.Command
import TexFormula.Proofs.Definition.Alike

/-! Commands of two readings. What a command does, and what it leaves of the queue behind it, is the
same but for what the readings differ in (`Plan.alike_command`). Two sorts of commands hear the
comments in an argument: the one that names a function, and those that define a macro with the
number of its arguments in square brackets. Where these are used the comments must be empty. -/
namespace TexFormula
open Token

/-- What a command does to a row in two readings. The macros that are called are only known to be
related by `R`. -/
inductive Action.Alike (D : Difference) (R : Macro → Macro → Prop) {bound bound' : Queue} :
    Action bound → Action bound' → Prop
  | skip : Alike D R .skip .skip
  | promote (marks : Marks) : Alike D R (.promote marks) (.promote marks)
  | place (nodes : List Node) : Alike D R (.place nodes) (.place nodes)
  | add {plan : Plan bound (Option Node)} {plan' : Plan bound' (Option Node)}
    (plans : Plan.Alike D plan plan') : Alike D R (.add plan) (.add plan')
  | define {m m' : Macro} {name : String} (binds : D.Binds name) (alike : Macro.Alike D m m') :
    Alike D R (.define name m) (.define name m')
  | call {m m' : Macro} (name : String) (related : R m m') :
    Alike D R (.call name m) (.call name m')

/-- An action and what it leaves of a queue. -/
abbrev Action.Acts (D : Difference) (R : Macro → Macro → Prop) {bound bound' : Queue}
    (one : Action bound × Queue.Below bound) (other : Action bound' × Queue.Below bound') : Prop :=
  Action.Alike D R one.1 other.1 ∧ Queue.Alike D True one.2.val other.2.val

/-- A plan and what it leaves of a queue. -/
abbrev Plan.Acts (D : Difference) {bound bound' : Queue} {α : Type}
    (one : Plan bound α × Queue.Below bound) (other : Plan bound' α × Queue.Below bound') : Prop :=
  Plan.Alike D one.1 other.1 ∧ Queue.Alike D True one.2.val other.2.val

/-- What a command means, if it is no call of a macro that a formula defines. -/
def Command.meaning? (macros : Macro.Table) (name : String) : Option Command :=
  match fixed? name with
  | some meaning => some meaning
  | none =>
    match (macros.get? name).filter (·.inFormula) with
    | some _ => none
    | none => some (.named name)

/-- The tokens behind a command that it takes as they are, with the comments among them. -/
def Command.heard : Command → Queue → List Token
  | .definition .define, _ => []
  | .definition _, q => q.popArgument.2.popOptions.1.elim [] Expr.inner
  | .structural (.unary .functionName), q => q.popArgument.1.elim [] Expr.argument
  | _, _ => []

variable {D : Difference} {ends : Prop} {t t' : Token} {c c' : Context} {l l' : List Token}
  {bound bound' : Queue} {p p' : Queue} {e e' : Expr} {R : Macro → Macro → Prop}

/-! ### Commands -/

namespace Plan

variable {q : Queue.Below bound} {q' : Queue.Below bound'}
  (queues : Queue.Alike D True q.val q'.val)

theorem alike_definition {macros macros' : Macro.Table}
    (tables : macros.Related D R macros') (command : Definition.Command)
    (queues : Queue.Alike D True q.val q'.val)
    (mute : D.comments → Mute ((Command.definition command).heard q.val)) :
    Action.Acts D R (definition macros command q) (definition macros' command q') := by
  obtain ⟨outcome, left⟩ := Definition.alike_read queues command fun other allowed => by
    cases command with
    | define => exact absurd rfl other
    | newcommand => exact mute allowed
    | renewcommand => exact mute allowed
    | providecommand => exact mute allowed
  unfold definition
  simp only
  generalize (Definition.read command q.val).1 = given at outcome ⊢
  generalize (Definition.read command q'.val).1 = given' at outcome ⊢
  cases outcome with
  | error e => exact ⟨.add (.done _), left⟩
  | @ok d d' alike =>
    simp only [← alike.isRecursive, ← alike.name, ← tables.contains_eq alike.binds.names]
    split
    · exact ⟨.add (.done _), left⟩
    · split
      · exact ⟨.skip, left⟩
      · exact ⟨.define alike.binds alike.toMacro, left⟩

section Context
variable (same : c.plain = c'.plain)
include same queues

theorem alike_alphabet (name : String) (variant : Variant) :
    Plan.Acts D (alphabet name variant c q) (alphabet name variant c' q') := by
  have same := Context.plain_eq same (f := (·.withVariant variant)) fun _ => rfl
  obtain ⟨found, left⟩ := Queue.Below.taken_takeArgument queues
  unfold alphabet
  cases one : q.takeArgument with
  | mk first behind =>
    cases other : q'.takeArgument with
    | mk first' behind' =>
      rw [one, other] at found left
      cases found with
      | none => exact ⟨.done _, left⟩
      | some alike =>
        refine ⟨?_, left⟩
        simp only
        split
        · exact alike_readInto same alike _
        · exact alike_readArgument same alike

theorem alike_readSwitched (switch : Switch) (style : Node) :
    Plan.Alike D (readSwitched switch c style q) (readSwitched switch c' style q') :=
  (alike_readQueue (Context.plain_eq same (f := (·.switch switch.context)) fun _ => rfl) queues
    _).bind fun node => .done (node.getD {})

theorem alike_switched (name : String) (switch : Switch) :
    Plan.Acts D (switched name switch c q) (switched name switch c' q') := by
  obtain ⟨bodies, rests⟩ := Queue.Below.alike_splitAtBreak queues
  obtain ⟨found, left⟩ := Queue.Below.taken_popArgument bodies
  unfold switched
  simp only
  split
  · cases one : q.splitAtBreak.1.popArgument with
    | mk first behind =>
      cases other : q'.splitAtBreak.1.popArgument with
      | mk first' behind' =>
        rw [one, other] at found left
        cases found with
        | none => exact ⟨.done _, rests⟩
        | some alike =>
          refine ⟨?_, rests⟩
          simp only [argumentText_eq alike]
          exact alike_readSwitched left same switch _
  · exact ⟨alike_readSwitched bodies same switch _, rests⟩

omit queues same in
/-- The only argument of a command is the next one in the queue. -/
theorem popArgument_of_takeArguments {q : Queue.Below bound} {e : Expr.Below bound}
    (taken : e ∈ (q.takeArguments 1).1) : q.val.popArgument.1 = some e.val := by
  have found : q.popArgument.1.map Subtype.val = q.val.popArgument.1 := Queue.Below.fst_split _ _ _
  have argument : q.takeArgument.1 = some e := by
    unfold Queue.Below.takeArguments at taken
    cases one : q.takeArgument with
    | mk first behind =>
      rw [one] at taken
      cases first with
      | none => cases taken
      | some first => rw [List.mem_singleton.mp taken]
  unfold Queue.Below.takeArgument at argument
  split at argument
  · cases argument
  · split at argument
    · cases argument
    · rw [← found, argument]
      rfl

omit queues same in
/-- The name of a function has no comments where the command that reads it hears none. -/
theorem mute_of_functionName {q : Queue.Below bound}
    (mute : Mute ((Command.structural (.unary .functionName)).heard q.val)) :
    ∀ e ∈ (q.takeArguments 1).1, Mute e.val.argument := by
  intro e member
  rwa [Command.heard, popArgument_of_takeArguments member] at mute

omit queues in
/-- A command goes together with itself if it finds the same behind it. -/
theorem alike_of_arguments (command : Command.Structural) (marks : SameMarks D t t')
    (breaks : q.val.peekArgument?.all Expr.isBreak = q'.val.peekArgument?.all Expr.isBreak)
    (options : Queue.Below.Found D
      (if command.takesOptional then q.popOptions else (none, q)).1
      (if command.takesOptional then q'.popOptions else (none, q')).1)
    (arguments : List.Forall₂ (fun e e' => Expr.Alike D e.val e'.val)
      ((if command.takesOptional then q.popOptions else (none, q)).2.takeArguments command.arity).1
      ((if command.takesOptional then q'.popOptions else (none, q')).2.takeArguments
        command.arity).1)
    (mute : command = .unary .functionName → D.comments →
      ∀ e ∈ ((if command.takesOptional then q.popOptions else (none, q)).2.takeArguments
        command.arity).1, Mute e.val.argument) :
    Plan.Alike D (structural command t c q).1 (structural command t' c' q').1 := by
  unfold structural
  rw [← breaks, ← marks.value]
  split
  · exact .done _
  · generalize (if command.takesOptional then q.popOptions else (none, q)) = taken
      at options arguments mute
    generalize (if command.takesOptional then q'.popOptions else (none, q')) = taken'
      at options arguments
    obtain ⟨option, behind⟩ := taken
    obtain ⟨option', behind'⟩ := taken'
    simp only at options arguments mute ⊢
    generalize (behind.takeArguments command.arity).1 = given at arguments mute ⊢
    generalize (behind'.takeArguments command.arity).1 = given' at arguments ⊢
    have count : List.length given = List.length given' := arguments.length_eq
    have refused : Plan.Alike D
        (pure (.error t.value (Error.argumentCount t.value command.arity given.length).message) :
          Plan bound Node)
        (pure (.error t.value (Error.argumentCount t.value command.arity given'.length).message) :
          Plan bound' Node) := alike_pure (by rw [count])
    cases command with
    | unary command =>
      cases arguments with
      | nil => exact refused
      | @cons e e' _ _ alike more =>
        cases more with
        | nil =>
          refine alike_unary same command marks options alike fun named allowed => ?_
          exact mute (congrArg _ named) allowed e List.mem_cons_self
        | cons _ _ => exact refused
    | binary command =>
      cases arguments with
      | nil => exact refused
      | cons first more =>
        cases more with
        | nil => exact refused
        | cons second more =>
          cases more with
          | nil => exact alike_binary same command first second
          | cons _ _ => exact refused
    | ternary command =>
      cases arguments with
      | nil => exact refused
      | cons first more =>
        cases more with
        | nil => exact refused
        | cons second more =>
          cases more with
          | nil => exact refused
          | cons third more =>
            cases more with
            | nil => exact alike_ternary same command first second third
            | cons _ _ => exact refused

theorem alike_structural (command : Command.Structural) (marks : SameMarks D t t')
    (mute : D.comments → Mute ((Command.structural command).heard q.val)) :
    Plan.Acts D (structural command t c q) (structural command t' c' q') := by
  have breaks := Queue.Below.peekArgument?_isBreak queues
  obtain ⟨options, left⟩ := Queue.Below.taken_optional queues command.takesOptional
  obtain ⟨arguments, rest⟩ := Queue.Below.taken_takeArguments left command.arity
  refine ⟨alike_of_arguments same command marks breaks options arguments ?_, ?_⟩
  · rintro rfl allowed
    exact mute_of_functionName (mute allowed)
  · unfold structural
    rw [← breaks]
    split
    · exact queues
    · exact rest

theorem alike_accent (above : Bool) (glyph : String) :
    Plan.Acts D (accent above glyph c q) (accent above glyph c' q') := by
  obtain ⟨found, left⟩ := Queue.Below.taken_takeArgument queues
  unfold accent
  cases one : q.takeArgument with
  | mk first behind =>
    cases other : q'.takeArgument with
    | mk first' behind' =>
      rw [one, other] at found left
      cases found with
      | none => exact ⟨.done _, left⟩
      | some alike => exact ⟨(alike_readArgument same alike).map _, left⟩

end Context

/-! ### Lengths -/

/-- The text of a length ends where a blank follows. -/
theorem extendLength_of_gap (text : String) {q : Queue} (gap : Queue.Gap ends q) :
    extendLength text q = (text, q) := by
  cases q with
  | nil => rfl
  | cons e q =>
    have blank : e.kind = .whitespace := gap
    rw [extendLength]
    simp [blank]

theorem gap_of_alike (queues : Queue.Alike D ends p p') (gap : Queue.Gap ends p) :
    Queue.Gap ends p' := by
  induction queues with
  | nil => exact gap
  | drop _ _ behind _ ih => exact ih behind
  | cons alike _ => exact alike.kind.symm.trans gap

theorem alike_extendLength {text text' : String} (read : text = text')
    (queues : Queue.Alike D True p p') :
    (extendLength text p).1 = (extendLength text' p').1 ∧
      Queue.Alike D True (extendLength text p).2 (extendLength text' p').2 := by
  subst read
  induction queues generalizing text with
  | nil => exact ⟨rfl, .nil⟩
  | @drop c q q' allowed comment gap more ih =>
    have here : Queue.Gap True (⟨.whitespace, c, []⟩ :: q) := rfl
    rw [extendLength_of_gap text here, extendLength_of_gap text (gap_of_alike more gap)]
    exact ⟨rfl, .drop allowed comment gap more⟩
  | @cons e e' q q' alike more ih =>
    rw [extendLength, extendLength]
    simp only [← alike.kind, ← alike.first.kind, ← alike.first.value]
    split
    · exact ⟨rfl, .cons alike more⟩
    · split
      · exact ih
      · exact ⟨rfl, .cons alike more⟩

include queues in
theorem alike_takeLength :
    (takeLength q).1 = (takeLength q').1 ∧
      Queue.Alike D True (takeLength q).2.val (takeLength q').2.val := by
  obtain ⟨found, left⟩ := Queue.Below.taken_takeArgument queues
  unfold takeLength
  cases one : q.takeArgument with
  | mk first behind =>
    cases other : q'.takeArgument with
    | mk first' behind' =>
      rw [one, other] at found left
      cases found with
      | none => exact ⟨rfl, left⟩
      | some alike =>
        simp only [← alike.kind]
        split
        · exact ⟨congrArg some alike.inner.thins.spellingAll_eq, left⟩
        · obtain ⟨text, rest⟩ := alike_extendLength alike.tokens.thins.spellingAll_eq left
          exact ⟨congrArg some text, rest⟩

include queues in
theorem alike_kern (name : String) :
    (kern name q).1 = (kern name q').1 ∧
      Queue.Alike D True (kern name q).2.val (kern name q').2.val := by
  obtain ⟨text, left⟩ := alike_takeLength queues
  unfold kern
  cases one : takeLength q with
  | mk first behind =>
    cases other : takeLength q' with
    | mk first' behind' =>
      rw [one, other] at text left
      obtain rfl : first = first' := text
      cases first with
      | none => exact ⟨rfl, left⟩
      | some length => exact ⟨rfl, left⟩

/-! ### All commands -/

theorem alike_node {node node' : Node} (same : node = node') :
    Action.Alike D R (Action.node node : Action bound) (Action.node node' : Action bound') :=
  .add (alike_pure (congrArg some same))

theorem alike_build {plan : Plan bound Node} {plan' : Plan bound' Node}
    (plans : Plan.Alike D plan plan') : Action.Alike D R (Action.build plan) (Action.build plan') :=
  .add (plans.map some)

variable (same : c.plain = c'.plain) {macros macros' : Macro.Table}
  (tables : macros.Related D R macros') (sorted : ∀ m m', R m m' → m.inFormula = m'.inFormula)
include queues same tables

theorem alike_perform (o : Options) (meaning : Command) (marks : SameMarks D t t')
    (mute : D.comments → Mute (meaning.heard q.val)) :
    Action.Acts D R (perform o macros meaning t c q) (perform o macros' meaning t' c' q') := by
  have finished : ∀ {plan : Plan bound Node} {plan' : Plan bound' Node},
      Plan.Alike D plan plan' →
      Action.Alike D R (.build ((·.finish t c) <$> plan))
        (.build ((·.finish t' c') <$> plan')) := by
    intro plan plan' plans
    refine alike_build (plans.bind fun n => alike_pure ?_)
    exact marks.eq_at same (f := fun t c => n.finish t c) fun _ _ => rfl
  have named := marks.value
  unfold perform
  cases meaning with
  | definition command => exact alike_definition tables command queues mute
  | logo node => exact ⟨alike_node rfl, queues⟩
  | identifier marked =>
    exact ⟨alike_node (marks.eq_at same (f := Node.ofIdentifier marked) fun _ _ => rfl), queues⟩
  | symbol symbol =>
    exact ⟨alike_node (marks.eq_at same (f := Node.ofSymbol symbol) fun _ _ => rfl), queues⟩
  | built node =>
    exact ⟨alike_node (marks.eq_of_blind (f := node.fromToken) fun _ => rfl), queues⟩
  | alphabet variant =>
    obtain ⟨plans, left⟩ := alike_alphabet queues same t.value variant
    rw [named] at plans left
    exact ⟨alike_build (named ▸ plans), named ▸ left⟩
  | space width =>
    exact ⟨alike_node (marks.eq_of_blind (f := fixedSpace width) fun _ => rfl), queues⟩
  | switch found =>
    obtain ⟨plans, left⟩ := alike_switched queues same t.value found
    exact ⟨alike_build (named ▸ plans), named ▸ left⟩
  | structural found =>
    obtain ⟨plans, left⟩ := alike_structural queues same found marks mute
    exact ⟨finished plans, left⟩
  | kern =>
    obtain ⟨node, left⟩ := alike_kern queues t.value
    refine ⟨finished (alike_pure ?_), ?_⟩
    · rw [← named]; exact node
    · rw [← named]; exact left
  | accent above glyph =>
    obtain ⟨plans, left⟩ := alike_accent queues same above glyph
    exact ⟨finished plans, left⟩
  | unknown =>
    exact ⟨finished (alike_pure (by rw [named])), queues⟩

include sorted in
/-- What a command does, and what it leaves. -/
theorem alike_command (o : Options) (marks : SameMarks D t t') (command : t.kind.command = true)
    (mute : D.comments → ∀ meaning ∈ Command.meaning? macros t.value, Mute (meaning.heard q.val)) :
    Action.Acts D R (Plan.command o macros t c q) (Plan.command o macros' t' c' q') := by
  have bound := tables.filter (p := (·.inFormula)) ⟨t, marks.holds, command, rfl⟩
    sorted
  unfold Plan.command
  unfold Command.meaning? at mute
  rw [← marks.value]
  cases fixed : Command.fixed? t.value with
  | some meaning =>
    rw [fixed] at mute
    exact alike_perform queues same tables o meaning marks fun allowed => mute allowed meaning rfl
  | none =>
    rw [fixed] at mute
    generalize (macros.get? t.value).filter (·.inFormula) = found at bound mute ⊢
    generalize (macros'.get? t.value).filter (·.inFormula) = found' at bound ⊢
    cases bound with
    | none =>
      exact alike_perform queues same tables o _ marks fun allowed => mute allowed _ rfl
    | some alike => exact ⟨.call _ alike, queues⟩

end Plan

end TexFormula
