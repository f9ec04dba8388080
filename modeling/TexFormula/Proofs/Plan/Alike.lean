import TexFormula.Plan.Structural
import TexFormula.Proofs.Expr.Alike

/-! Plans of two readings. Of a context a plan only uses what is not a matter of style, and of a
token what is not its partner. So the plans for arguments that go together have the same jobs, but
for what the readings differ in, and go on in the same way with the nodes that these give. -/
namespace TexFormula
open Token

/-- What the reading of a formula uses of a context. The root of a formula, brackets around it, the
style and the size are not among it. -/
def Context.plain (c : Context) : Context :=
  { text := c.text, table := c.table, takesArgument := c.takesArgument, variant := c.variant }

/-- Pieces of two readings that are to be read. -/
structure Job.Alike (D : Difference) (job job' : Job) : Prop where
  queue : Queue.Alike D True job.queue job'.queue
  context : job.context.plain = job'.context.plain
  parent : job.parent = job'.parent
  option : job.option = job'.option

/-- Plans of two readings. -/
inductive Plan.Alike (D : Difference) {bound bound' : Queue} {α : Type} :
    Plan bound α → Plan bound' α → Prop
  | done (value : α) : Alike D (.done value) (.done value)
  | read {job job' fits fits'} {next : Option Node → Plan bound α}
    {next' : Option Node → Plan bound' α} (jobs : Job.Alike D job job')
    (go : ∀ node, Alike D (next node) (next' node)) :
    Alike D (.read job fits next) (.read job' fits' next')

/-- Comments among the tokens say nothing. -/
def Token.Mute (tokens : List Token) : Prop :=
  ∀ t ∈ tokens, t.kind.comment = true → t.value = ""

variable {D : Difference} {ends : Prop} {t t' : Token} {c c' : Context} {l l' : List Token}
  {bound bound' : Queue}

/-! ### Contexts and texts -/

/-- What neither depends on the partner of a token nor on the style is the same. -/
theorem Token.SameMarks.eq_at {α : Type} {f : Token → Context → α} (marks : SameMarks D t t')
    (same : c.plain = c'.plain) (blind : ∀ t c, f t c = f t.unpaired c.plain) :
    f t c = f t' c' := by
  rw [blind, blind t', marks.same, same]

namespace Context

variable (same : c.plain = c'.plain)
include same

theorem text_eq : c.text = c'.text :=
  show c.plain.text = c'.plain.text from congrArg Context.text same

theorem table_eq : c.table = c'.table :=
  show c.plain.table = c'.plain.table from congrArg Context.table same

theorem takesArgument_eq : c.takesArgument = c'.takesArgument :=
  show c.plain.takesArgument = c'.plain.takesArgument from congrArg Context.takesArgument same

/-- A change of what is used of a context changes both contexts alike. -/
theorem plain_eq {f : Context → Context} (blind : ∀ c, (f c).plain = (f c.plain).plain) :
    (f c).plain = (f c').plain := by
  rw [blind, blind c', same]

end Context

/-- The text of tokens that are not asked for their spelling. Comments come into it. -/
theorem Thins.join_eq {p : Token → Bool} (thins : Thins D ends l l')
    (blind : ∀ t : Token, p t = p t.unpaired) (mute : D.comments → Mute l) :
    String.join ((l.filter p).map (·.value)) = String.join ((l'.filter p).map (·.value)) := by
  induction thins with
  | nil => rfl
  | @drop c l l' allowed comment _ _ ih =>
    have rest := ih fun allowed => (List.forall_mem_cons.mp (mute allowed)).2
    have silent : c.value = "" :=
      (List.forall_mem_cons.mp (mute allowed)).1 (by rw [comment])
    cases passes : p c with
    | true => rw [List.filter_cons_of_pos passes, List.map_cons, String.join_cons, silent,
        String.empty_append, rest]
    | false => rw [List.filter_cons_of_neg (by simp [passes]), rest]
  | @keep t t' l l' alike _ ih =>
    have rest := ih fun allowed => (List.forall_mem_cons.mp (mute allowed)).2
    have passes : p t' = p t := (alike.eq_of_blind blind).symm
    cases kept : p t with
    | true =>
      rw [List.filter_cons_of_pos kept, List.filter_cons_of_pos (passes.trans kept), List.map_cons,
        List.map_cons, String.join_cons, String.join_cons, rest, alike.value]
    | false =>
      rw [List.filter_cons_of_neg (by simp [kept]),
        List.filter_cons_of_neg (by simp [passes, kept]), rest]

/-! ### Reading -/

namespace Plan

variable {α β : Type}

theorem Alike.bind {plan : Plan bound α} {plan' : Plan bound' α} (plans : Plan.Alike D plan plan')
    {f : α → Plan bound β} {f' : α → Plan bound' β}
    (next : ∀ value, Plan.Alike D (f value) (f' value)) :
    Plan.Alike D (plan >>= f) (plan' >>= f') := by
  induction plans with
  | done value => exact next value
  | read jobs _ ih => exact .read jobs ih

theorem Alike.map {plan : Plan bound α} {plan' : Plan bound' α} (plans : Plan.Alike D plan plan')
    (f : α → β) : Plan.Alike D (f <$> plan) (f <$> plan') :=
  plans.bind fun value => .done (f value)

theorem alike_pure {value value' : α} (same : value = value') :
    Plan.Alike D (pure value : Plan bound α) (pure value' : Plan bound' α) :=
  same ▸ .done value

end Plan

/-- Jobs are started alike. -/
theorem Job.alike_start {q q' : Queue} (queues : Queue.Alike D True q q')
    (same : c.plain = c'.plain) (parent : Option Node) :
    Job.Alike D (.start q c parent) (.start q' c' parent) := by
  have inner : ({ c with takesArgument := false } : Context).plain =
      ({ c' with takesArgument := false } : Context).plain :=
    Context.plain_eq same (f := fun c => { c with takesArgument := false }) fun _ => rfl
  have plainly : Job.Alike D
      { queue := q, context := { c with takesArgument := false }, parent }
      { queue := q', context := { c' with takesArgument := false }, parent } :=
    ⟨queues, inner, rfl, rfl⟩
  obtain ⟨found, left⟩ := Queue.taken_popArgument Queue.unconses_alike queues
  unfold start
  rw [← Context.takesArgument_eq same]
  cases c.takesArgument with
  | false => exact plainly
  | true =>
    cases one : q.popArgument with
    | mk first behind =>
      cases other : q'.popArgument with
      | mk first' behind' =>
        rw [one, other] at found left
        cases found with
        | none => exact plainly
        | @some e e' alike =>
          have asked : isOption e = isOption e' := by rw [isOption, isOption, alike.kind]
          simp only [← asked]
          split
          · exact ⟨left, inner, rfl, congrArg some alike.argument.thins.spellingAll_eq⟩
          · exact plainly

namespace Plan

section Reading
variable {q : Queue.Below bound} {q' : Queue.Below bound'} {e first second third : Expr.Below bound}
  {e' first' second' third' : Expr.Below bound'} (same : c.plain = c'.plain)
include same

theorem alike_readQueue (queues : Queue.Alike D True q.val q'.val) (parent : Option Node) :
    Plan.Alike D (readQueue q c parent) (readQueue q' c' parent) :=
  .read (Job.alike_start queues same parent) fun node => .done node

theorem alike_readTokens {short : l.length < bound.weight} {short' : l'.length < bound'.weight}
    (aligned : Aligned D False l l') (parent : Option Node) :
    Plan.Alike D (readTokens l short c parent) (readTokens l' short' c' parent) :=
  alike_readQueue same aligned.queue.anywhere parent

theorem alike_readArgument (alike : Expr.Alike D e.val e'.val) :
    Plan.Alike D (readArgument c e) (readArgument c' e') :=
  (alike_readTokens same alike.argument none).bind fun node => .done (node.getD (.row []))

theorem alike_readInto (alike : Expr.Alike D e.val e'.val) (parent : Node) :
    Plan.Alike D (readInto c parent e) (readInto c' parent e') :=
  (alike_readTokens same alike.argument (some parent)).bind fun node => .done (node.getD {})

/-! ### Commands with a fixed number of arguments -/

omit same in
theorem argumentText_eq {e e' : Expr} (alike : Expr.Alike D e e') :
    argumentText e = argumentText e' := by
  rw [argumentText, argumentText, alike.argument.thins.spellingAll_eq]

theorem alike_negation (alike : Expr.Alike D e.val e'.val) :
    Plan.Alike D (negation c e) (negation c' e') := by
  have tokens := alike.argument.thins.filter_eq (p := (!·.isBlank)) (fun _ => rfl)
    fun t comment => by simp [isBlank, comment]
  unfold negation
  have count := congrArg List.length tokens
  rw [List.length_map, List.length_map] at count
  split
  case h_1 empty =>
    rw [empty] at count
    rw [List.length_eq_zero_iff.mp count.symm]
    exact .done _
  case h_2 t single =>
    rw [single] at count tokens
    obtain ⟨t', single'⟩ := List.length_eq_one_iff.mp count.symm
    rw [single'] at tokens ⊢
    have alone : t.unpaired = t'.unpaired := (List.cons.inj tokens).1
    have value : t.unpaired.value = t'.unpaired.value := by rw [alone]
    rw [value_unpaired, value_unpaired] at value
    exact alike_pure (by rw [negated, negated, value])
  case h_3 several single =>
    split
    case h_1 empty =>
      rw [empty] at count
      exact absurd (List.length_eq_zero_iff.mp count) several
    case h_2 t' one =>
      rw [one] at count
      obtain ⟨t, alone⟩ := List.length_eq_one_iff.mp count
      exact absurd alone (single t)
    case h_3 => exact alike_readInto same alike _

theorem alike_unary (command : Command.Unary) (marks : SameMarks D t t')
    {optional : Option (Expr.Below bound)} {optional' : Option (Expr.Below bound')}
    (options : Queue.Below.Found D optional optional') (alike : Expr.Alike D e.val e'.val)
    (mute : command = .functionName → D.comments → Mute e.val.argument) :
    Plan.Alike D (unary command t c optional e) (unary command t' c' optional' e') := by
  have argument := alike_readArgument same alike
  cases command with
  | strike strike => exact alike_readInto same alike _
  | box text =>
    exact alike_readInto (Context.plain_eq same (f := fun c => { c with text := c.text || text })
      fun _ => rfl) alike _
  | phantom => exact alike_readInto same alike _
  | operator => exact alike_pure (by rw [argumentText_eq alike])
  | functionName =>
    have named : functionText e.val = functionText e'.val := by
      rw [functionText, functionText,
        alike.argument.thins.join_eq (p := (!·.kind.command)) (fun _ => rfl) (mute rfl)]
    exact alike_pure (by rw [marks.kind, named])
  | modulus parenthesized => exact argument.map _
  | lines =>
    exact (alike_readInto (Context.plain_eq same (f := fun c => { c with table := true })
      fun _ => rfl) alike _).bind fun content => .done _
  | brace above => exact argument.bind fun content => .done _
  | negation => exact alike_negation same alike
  | radical =>
    refine argument.bind fun radicand => ?_
    cases options with
    | none => exact .done _
    | some index => exact (alike_readArgument same index).bind fun n => .done _
  | text => exact alike_pure (by rw [alike.argument.thins.spellingAll_eq])
  | textAlphabet variant =>
    exact alike_readArgument (Context.plain_eq same
      (f := fun c => { c with text := true, variant }) fun _ => rfl) alike
  | arrow toRight =>
    refine argument.bind fun above => ?_
    cases options with
    | none => exact .done _
    | some label => exact (alike_readArgument same label).bind fun n => .done _
  | space => exact alike_pure (by rw [marks.value, argumentText_eq alike])

theorem alike_binary (command : Command.Binary) (one : Expr.Alike D first.val first'.val)
    (other : Expr.Alike D second.val second'.val) :
    Plan.Alike D (binary command c first second) (binary command c' first' second') := by
  have upper := alike_readArgument same one
  have lower := alike_readArgument same other
  cases command with
  | fraction fraction => exact upper.bind fun _ => lower.bind fun _ => .done _
  | decoration name =>
    exact lower.bind fun content => alike_pure (by rw [argumentText_eq one])
  | stack above => exact lower.bind fun _ => upper.bind fun _ => .done _
  | raise =>
    unfold binary
    rw [argumentText_eq one]
    exact alike_readInto same other _

/-! ### Scripts on one side -/

/-- Scripts of two readings. -/
abbrev SameScript (D : Difference) (script : SideScript (Option (Expr.Below bound)))
    (script' : SideScript (Option (Expr.Below bound'))) : Prop :=
  script.above = script'.above ∧ Queue.Below.Found D script.content script'.content

omit same in
theorem sideScripts_of_none {q : Queue.Below bound} (nothing : q.popArgument.1 = none) :
    sideScripts q = [] := by
  rw [sideScripts]
  split
  · rfl
  case h_2 taken => cases nothing.symm.trans taken

omit same in
theorem sideScripts_of_some {q : Queue.Below bound} {e : Expr.Below bound}
    (found : q.popArgument.1 = some e) :
    sideScripts q =
      if e.val.kind == .single && e.val.first.kind.script then
        ⟨e.val.first.value == "^", q.popArgument.2.popArgument.1⟩ ::
          sideScripts q.popArgument.2.popArgument.2
      else sideScripts q.popArgument.2 := by
  rw [sideScripts]
  split
  case h_1 nothing => cases nothing.symm.trans found
  case h_2 taken =>
    cases taken.symm.trans found
    rfl

omit same in
theorem alike_sideScripts {q : Queue.Below bound} {q' : Queue.Below bound'}
    (queues : Queue.Alike D True q.val q'.val) :
    List.Forall₂ (SameScript D) (sideScripts q) (sideScripts q') := by
  obtain ⟨found, left⟩ := Queue.Below.taken_popArgument queues
  cases taken : q.popArgument.1 <;> cases taken' : q'.popArgument.1 <;>
    rw [taken, taken'] at found <;> cases found
  · rw [sideScripts_of_none taken, sideScripts_of_none taken']
    exact .nil
  case some.some e e' alike =>
    have lighter := Queue.Below.weight_popArgument_lt taken
    have behind := q.popArgument.2.weight_popArgument_le
    rw [sideScripts_of_some taken, sideScripts_of_some taken', ← alike.kind, ← alike.first.kind,
      ← alike.first.value]
    split
    · obtain ⟨script, others⟩ := Queue.Below.taken_popArgument left
      exact .cons ⟨rfl, script⟩ (alike_sideScripts others)
    · exact alike_sideScripts left
termination_by q.val.weight

theorem alike_readSideScripts {scripts : List (SideScript (Option (Expr.Below bound)))}
    {scripts' : List (SideScript (Option (Expr.Below bound')))}
    (together : List.Forall₂ (SameScript D) scripts scripts') :
    Plan.Alike D (readSideScripts c scripts) (readSideScripts c' scripts') := by
  induction together with
  | nil => exact .done _
  | @cons script script' rest rest' one _ ih =>
    obtain ⟨above, content⟩ := one
    have more : ∀ n : Node,
        Plan.Alike D (do return ⟨script.above, n⟩ :: (← readSideScripts c rest) : Plan bound _)
          (do return ⟨script'.above, n⟩ :: (← readSideScripts c' rest') : Plan bound' _) :=
      fun n => ih.bind fun others => alike_pure (by rw [above])
    unfold readSideScripts
    generalize script.content = given at content ⊢
    generalize script'.content = given' at content ⊢
    cases content with
    | none => exact more _
    | some alike => exact (alike_readArgument same alike).bind more

theorem alike_readSide (alike : Expr.Alike D e.val e'.val) :
    Plan.Alike D (readSide c e) (readSide c' e') :=
  (alike_readSideScripts same (alike_sideScripts alike.argument.queue.anywhere)).bind
    fun read => .done (read.foldl SidePairs.add {}).nodes

theorem alike_ternary (command : Command.Ternary) (one : Expr.Alike D first.val first'.val)
    (two : Expr.Alike D second.val second'.val) (three : Expr.Alike D third.val third'.val) :
    Plan.Alike D (ternary command c first second third)
      (ternary command c' first' second' third') := by
  have base := alike_readArgument same three
  cases command with
  | span name => exact base.bind fun content => alike_pure (by rw [argumentText_eq one])
  | prescript =>
    exact base.bind fun _ => (alike_readArgument same two).bind fun _ =>
      (alike_readArgument same one).bind fun _ => .done _
  | sideset =>
    exact base.bind fun _ => (alike_readSide same two).bind fun _ =>
      (alike_readSide same one).bind fun _ => .done _

end Reading

end Plan

end TexFormula
