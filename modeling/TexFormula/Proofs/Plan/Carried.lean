import TexFormula.Proofs.Command.Stable
import TexFormula.Proofs.Plan.Yields
import TexFormula.Proofs.Table.Division

/-! Nodes that commands hand on. What a command builds of its arguments is an element of its own, or
it is the node of an argument with other attributes. So the node of a command is a break or a switch
only if an argument is one (`carries_perform`), and a break that comes out of a group or a command
is as bare as the break of a table (`carries_ofExpr`). -/
namespace TexFormula

/-- A node that is neither a break nor a limit switch. -/
structure Node.Ordinary (n : Node) : Prop where
  inside : n.marks.isBreak = false
  noSwitch : n.marks.isLimitSwitch = false

/-- A property that ordinary nodes have, and that a node keeps with other attributes, with variants
of the letters in it, and as a table. -/
class Node.Carried (A : Node → Prop) : Prop where
  fresh : ∀ {n : Node}, n.Ordinary → A n
  same : ∀ {n m : Node}, m.marks = n.marks → (m.tag = n.tag ∨ m.tag = "mtable") →
    (n.text = "" → m.text = "") → A n → A m

/-- A job that reads into an ordinary node, if it reads into a node. -/
def Job.IntoOrdinary (job : Job) : Prop :=
  ∀ parent ∈ job.parent, parent.Ordinary

/-- A plan that gives a node with a property if all its jobs do. -/
def Plan.Carries {bound : Queue} (A : Node → Prop) (plan : Plan bound Node) : Prop :=
  plan.Yields Job.IntoOrdinary A A

/-- An action that only adds nodes with a property, if all jobs give such nodes. -/
def Action.Carries {bound : Queue} (A : Node → Prop) : Action bound → Prop
  | .promote marks => marks.IsPromise
  | .place nodes => ∀ n ∈ nodes, A n
  | .add plan => plan.Yields Job.IntoOrdinary A fun node => ∀ n ∈ node, A n
  | _ => True

/-- A command whose own node is ordinary, if it has one and is no identifier. -/
def Command.IsOrdinary : Command → Prop
  | .logo node => node.Ordinary
  | .identifier marks => marks.isBreak = false
  | .symbol found => found.marks.isBreak = false ∧ found.marks.isLimitSwitch = false
  | .built node => node.Ordinary
  | _ => True

variable {A : Node → Prop} {bound : Queue}

/-! ### Nodes -/

namespace Node

instance : Carried Ordinary where
  fresh ordinary := ordinary
  same marks _ _ ordinary := ⟨by rw [marks]; exact ordinary.inside,
    by rw [marks]; exact ordinary.noSwitch⟩

instance : Carried Bare where
  fresh ordinary ends := nomatch ordinary.inside.symm.trans ends
  same marks tag text bare ends := by
    obtain ⟨named, blank, shown, noSwitch⟩ := bare (marks ▸ ends)
    refine ⟨?_, text blank, by rw [marks]; exact shown, by rw [marks]; exact noSwitch⟩
    rcases tag with same | table
    · rw [same]
      exact named
    · exact .inr table

/-- A node without marks for the row around it. -/
theorem ordinary_of_marks {n : Node} (marks : n.marks = {}) : n.Ordinary :=
  ⟨by rw [marks]; rfl, by rw [marks]; rfl⟩

variable [Carried A] {n : Node}

theorem carried_of_marks (marks : n.marks = {}) : A n :=
  Carried.fresh (ordinary_of_marks marks)

theorem carried_setAttribute (holds : A n) (name value : String) : A (n.setAttribute name value) :=
  Carried.same (n := n) rfl (.inl rfl) id holds

theorem carried_setAttributes (holds : A n) (entries : List (String × String)) :
    A (n.setAttributes entries) := by
  induction entries generalizing n with
  | nil => exact holds
  | cons entry rest ih => exact ih (carried_setAttribute holds _ _)

theorem carried_setAttributeIf (holds : A n) (name value : String) (condition : Prop)
    [Decidable condition] : A (if condition then n.setAttribute name value else n) := by
  split
  · exact carried_setAttribute holds _ _
  · exact holds

theorem carried_fromToken (holds : A n) (t : Token) : A (n.fromToken t) :=
  Carried.same (n := n) rfl (.inl rfl) id holds

theorem carried_withSelector (holds : A n) (selector : Char) : A (n.withSelector selector) := by
  refine Carried.same (n := n) rfl (.inl rfl) (fun blank => ?_) holds
  simp [withSelector, blank]

theorem carried_applyVariant (holds : A n) (v : Variant) : A (n.applyVariant v) := by
  unfold applyVariant
  split
  · exact holds
  · simp only
    have classed := carried_setAttributeIf (carried_setAttribute holds "mathvariant" ‹_›) "class"
      "calligraphic" (v = { chancery := true })
    split
    · exact classed
    · exact carried_withSelector classed _

theorem carried_reflectMarks (holds : A n) : A n.reflectMarks := by
  unfold reflectMarks
  exact carried_setAttributeIf (carried_setAttributeIf (carried_setAttributeIf holds _ _ _) _ _ _)
    _ _ _

theorem carried_finish (holds : A n) (t : Token) (c : Context) : A (n.finish t c) := by
  have made := carried_fromToken holds t
  unfold finish
  refine carried_reflectMarks ?_
  split
  · exact carried_applyVariant made _
  · exact made

theorem carried_error (text title : String) : A (error text title) :=
  carried_of_marks rfl

theorem carried_fraction (f : Fraction) (upper lower : Node) : A (f.node upper lower) :=
  Carried.fresh (by cases f <;> exact ordinary_of_marks rfl)

theorem carried_space (command length : String) : A (space command length) := by
  unfold space
  split
  · exact carried_of_marks rfl
  · exact carried_error _ _

theorem carried_ofPlain (t : Token) (c : Context) : A (ofPlain t c) := by
  have made : A ((leaf (plainTag t c) (if isTie t then "\u00a0" else t.value)).fromToken t) :=
    carried_of_marks rfl
  unfold ofPlain
  simp only
  split
  · exact carried_applyVariant made _
  · exact made

theorem carried_delimiter {t : Token} {c : Context} : ∀ n ∈ delimiter? t c, A n := by
  have made : A ((leaf "mo" (delimiterText t)).fromToken t) := carried_of_marks rfl
  have fenced := carried_setAttributes made [("fence", "true"), ("stretchy", "true")]
  intro n given
  unfold delimiter? at given
  split at given
  · cases given
  · cases given
    have dressed : A (if t.kind.fence then
        let n := ((leaf "mo" (delimiterText t)).fromToken t).setAttributes
          [("fence", "true"), ("stretchy", "true")]
        if n.text == "|" then n.setAttribute "symmetric" "true" else n
      else if t.kind.escaped then
        ((leaf "mo" (delimiterText t)).fromToken t).setAttribute "stretchy" "true"
      else ((leaf "mo" (delimiterText t)).fromToken t).setAttribute "stretchy" "false") := by
      split
      · exact carried_setAttributeIf fenced _ _ _
      · split <;> exact carried_setAttribute made _ _
    simp only
    split
    · exact carried_applyVariant dressed _
    · exact dressed

theorem carried_ofSymbol {s : Symbol} (inside : s.marks.isBreak = false)
    (noSwitch : s.marks.isLimitSwitch = false) (t : Token) (c : Context) :
    A (ofSymbol s t c) := by
  have marks : (symbolMarks s).isBreak = false ∧ (symbolMarks s).isLimitSwitch = false := by
    unfold symbolMarks
    split <;> exact ⟨inside, noSwitch⟩
  have union : (({} : Marks).union (symbolMarks s)) = symbolMarks s := by
    simp [Marks.union]
  have made : A (((leaf (symbolTag s t) s.glyph).mark (symbolMarks s)).fromToken t) := by
    refine Carried.fresh ⟨?_, ?_⟩
    · exact (congrArg Marks.isBreak union).trans marks.1
    · exact (congrArg Marks.isLimitSwitch union).trans marks.2
  unfold ofSymbol
  exact carried_reflectMarks (carried_applyVariant (carried_setAttributeIf made _ _ _) _)

theorem carried_ofRow (holds : A n) : A (Table.ofRow n) := by
  have marked : (Table.ofRow n).marks = n.marks ∧ (Table.ofRow n).text = n.text := by
    unfold Table.ofRow
    simp only
    split <;> split <;> exact ⟨rfl, rfl⟩
  exact Carried.same marked.1 (.inr rfl) (fun blank => marked.2.trans blank) holds

theorem carried_frame (holds : A n) (name : String) (c : Context) :
    A (Environment.frame n name c) := by
  unfold Environment.frame
  simp only
  split
  · split
    · exact carried_ofRow holds
    · exact holds
  · exact carried_of_marks rfl

end Node

namespace Plan

open Node (carried_of_marks carried_setAttribute carried_setAttributes carried_setAttributeIf
  carried_error carried_fraction carried_space)

/-! ### Arguments -/

theorem intoOrdinary_start {queue : Queue} {c : Context} {parent : Option Node}
    (ordinary : ∀ n ∈ parent, n.Ordinary) : (Job.start queue c parent).IntoOrdinary := by
  unfold Job.IntoOrdinary
  rw [parent_start]
  exact ordinary

theorem ordinary_none : ∀ n ∈ (none : Option Node), n.Ordinary :=
  nofun

theorem ordinary_some {n : Node} (ordinary : n.Ordinary) : ∀ m ∈ some n, m.Ordinary :=
  fun _ same => Option.some.inj same ▸ ordinary

variable [Node.Carried A]

theorem carries_readArgument (c : Context) (e : Expr.Below bound) :
    (readArgument c e).Carries A :=
  yields_getD (intoOrdinary_start ordinary_none) (carried_of_marks rfl)

theorem carries_readInto (c : Context) {parent : Node} (marks : parent.marks = {})
    (e : Expr.Below bound) : (readInto c parent e).Carries A :=
  yields_getD (intoOrdinary_start (ordinary_some (Node.ordinary_of_marks marks)))
    (carried_of_marks rfl)

/-! ### Commands with a fixed number of arguments -/

theorem carries_negation (c : Context) (e : Expr.Below bound) : (negation c e).Carries A := by
  unfold negation
  split
  · exact carried_error _ _
  · exact carried_of_marks rfl
  · exact carries_readInto c rfl e

theorem carries_unary (command : Command.Unary) (t : Token) (c : Context)
    (optional : Option (Expr.Below bound)) (e : Expr.Below bound) :
    (unary command t c optional e).Carries A := by
  have argument := carries_readArgument (A := A) c e
  have built {tag : String} {children : List Node} : A (.branch tag children) :=
    carried_of_marks rfl
  have limits {n : Node} (marks : n.marks = {}) : A (n.mark Command.limitMarks) := by
    refine Node.Carried.fresh ⟨?_, ?_⟩ <;> simp only [Node.mark, marks] <;> rfl
  cases command with
  | strike strike => exact carries_readInto c rfl e
  | box text => exact carries_readInto _ rfl e
  | phantom => exact carries_readInto c rfl e
  | operator => exact limits rfl
  | functionName =>
    show A (if t.kind.star then _ else _)
    split
    · exact limits rfl
    · exact carried_of_marks rfl
  | modulus parenthesized =>
    refine argument.map fun n _ => ?_
    cases parenthesized <;> exact carried_of_marks rfl
  | lines =>
    exact (carries_readInto _ rfl e).bind fun n holds =>
      carried_setAttributes (Node.carried_ofRow holds) _
  | brace above => exact argument.bind fun n _ => Node.Carried.fresh ⟨rfl, rfl⟩
  | negation => exact carries_negation c e
  | radical =>
    refine argument.bind fun radicand _ => ?_
    cases optional with
    | none => exact built
    | some index => exact (carries_readArgument c index).bind fun n _ => built
  | text => exact carried_of_marks rfl
  | textAlphabet variant => exact carries_readArgument _ e
  | arrow toRight =>
    refine argument.bind fun above _ => ?_
    cases optional with
    | none => exact built
    | some label => exact (carries_readArgument c label).bind fun n _ => built
  | space => exact carried_space _ _

theorem carries_binary (command : Command.Binary) (c : Context) (first second : Expr.Below bound) :
    (binary command c first second).Carries A := by
  have one := carries_readArgument (A := A) c first
  have other := carries_readArgument (A := A) c second
  cases command with
  | fraction fraction =>
    exact one.bind fun upper _ => other.bind fun lower _ => carried_fraction fraction upper lower
  | decoration name => exact other.bind fun n holds => carried_setAttribute holds _ _
  | stack above => exact other.bind fun base _ => one.bind fun script _ => carried_of_marks rfl
  | raise => exact carries_readInto c rfl second

theorem yields_readSide_carried (c : Context) (e : Expr.Below bound) :
    (readSide c e).Yields Job.IntoOrdinary A fun nodes => ∀ n ∈ nodes, A n :=
  yields_iff_delivers.mpr (delivers_readSide (carried_of_marks rfl)
    (fun e => yields_iff_delivers.mp (carries_readArgument c e)) e)

theorem carries_ternary (command : Command.Ternary) (c : Context)
    (first second third : Expr.Below bound) : (ternary command c first second third).Carries A := by
  have base := carries_readArgument (A := A) c third
  cases command with
  | span name => exact base.bind fun n holds => carried_setAttribute holds _ _
  | prescript =>
    exact base.bind fun base _ => (carries_readArgument c second).bind fun sub _ =>
      (carries_readArgument c first).bind fun sup _ => carried_of_marks rfl
  | sideset =>
    exact base.bind fun base _ => (yields_readSide_carried c second).bind fun right _ =>
      (yields_readSide_carried c first).bind fun left _ => Node.Carried.fresh ⟨rfl, rfl⟩

/-! ### Commands -/

theorem carries_alphabet (name : String) (variant : Variant) (c : Context)
    (q : Queue.Below bound) : (alphabet name variant c q).1.Carries A := by
  unfold alphabet
  simp only
  split
  · show A (if name == "mathrm" then _ else _)
    split <;> exact carried_of_marks rfl
  · split
    · exact carries_readInto _ rfl _
    · exact carries_readArgument _ _

theorem carries_readSwitched (switch : Switch) (c : Context) {style : Node}
    (marks : style.marks = {}) (body : Queue.Below bound) :
    (readSwitched switch c style body).Carries A := by
  have styled : (style.setAttributes switch.attributes).Ordinary :=
    carried_setAttributes (Node.ordinary_of_marks marks) _
  exact yields_getD (intoOrdinary_start (ordinary_some styled)) (carried_of_marks rfl)

theorem carries_switched (name : String) (switch : Switch) (c : Context) (q : Queue.Below bound) :
    (switched name switch c q).1.Carries A := by
  unfold switched
  simp only
  split
  · split
    · exact carried_error _ _
    · exact carries_readSwitched _ _ rfl _
  · exact carries_readSwitched _ _ rfl _

theorem carries_structural (command : Command.Structural) (t : Token) (c : Context)
    (q : Queue.Below bound) : (structural command t c q).1.Carries A := by
  unfold structural
  split
  · exact carried_error _ _
  · simp only
    split
    · exact carries_unary _ _ _ _ _
    · exact carries_binary _ _ _ _
    · exact carries_ternary _ _ _ _ _
    · exact carried_error _ _

theorem carried_kern (name : String) (q : Queue.Below bound) : A (kern name q).1 := by
  unfold kern
  split
  · simp only
    exact carried_error _ _
  · simp only
    exact carried_space _ _

theorem carries_accent (above : Bool) (glyph : String) (c : Context) (q : Queue.Below bound) :
    (accent above glyph c q).1.Carries A := by
  have placed (tag : String) (children : List Node) :
      A ((Node.branch tag children).setAttribute "accent" "true") :=
    carried_setAttribute (carried_of_marks rfl) _ _
  unfold accent
  simp only
  split
  · exact placed _ _
  · exact (carries_readArgument c _).map fun _ _ => placed _ _

theorem carried_unknown (o : Options) (name : String) : A (unknown o name) := by
  unfold unknown
  split
  · exact carried_of_marks rfl
  · exact carried_error _ _

theorem carries_definition (macros : Macro.Table) (command : Definition.Command)
    (q : Queue.Below bound) : (definition macros command q).1.Carries A := by
  have refusal (text title : String) : (Action.node (.error text title) : Action bound).Carries A :=
    fun _ given => Option.some.inj given ▸ carried_error text title
  unfold definition
  simp only
  split
  · exact refusal _ _
  · split
    · exact refusal _ _
    · split <;> trivial

/-- A command gives an ordinary node, or one that it was given as an argument. -/
theorem carries_perform (o : Options) (macros : Macro.Table) {meaning : Command}
    (known : meaning.IsOrdinary) {t : Token} {c : Context}
    (identifiers : ∀ marks, meaning = .identifier marks → A (.ofIdentifier marks t c))
    (q : Queue.Below bound) : (perform o macros meaning t c q).1.Carries A := by
  have node {n : Node} (holds : A n) : (Action.node n : Action bound).Carries A :=
    fun _ given => Option.some.inj given ▸ holds
  have build {plan : Plan bound Node} (carries : plan.Carries A) :
      (Action.build plan).Carries A :=
    carries.map fun _ holds _ given => Option.some.inj given ▸ holds
  have finished (plan : Plan bound Node) (carries : plan.Carries A) :
      (Action.build ((·.finish t c) <$> plan)).Carries A :=
    build (carries.map fun _ holds => Node.carried_finish holds t c)
  unfold perform
  cases meaning with
  | definition command => exact carries_definition macros command q
  | logo n => exact node (Node.Carried.fresh known)
  | identifier marks => exact node (identifiers marks rfl)
  | symbol symbol => exact node (Node.carried_ofSymbol known.1 known.2 t c)
  | built n => exact node (Node.carried_fromToken (Node.Carried.fresh known) t)
  | alphabet variant => exact build (carries_alphabet t.value variant c q)
  | space width =>
    refine node (carried_of_marks ?_)
    unfold fixedSpace
    simp only
    split <;> rfl
  | switch found => exact build (carries_switched t.value found c q)
  | structural found => exact finished _ (carries_structural found t c q)
  | kern => exact finished (pure (kern t.value q).1) (carried_kern t.value q)
  | accent above glyph => exact finished _ (carries_accent above glyph c q)
  | unknown => exact finished (pure (unknown o t.value)) (carried_unknown o t.value)

end Plan

/-! ### Commands by name -/

namespace Command

open Option (forall_mem_map)

theorem isOrdinary_fixed? {name : String} : ∀ command ∈ fixed? name, command.IsOrdinary := by
  refine forall_mem_orElse (forall_mem_map.mpr fun _ _ => trivial)
    (forall_mem_map.mpr fun n found => ?_)
  unfold logo? at found
  split at found <;> cases found <;> exact Node.ordinary_of_marks rfl

theorem isOrdinary_identifier? {name : String} :
    ∀ marks ∈ identifierMarks? name, marks.isBreak = false := by
  intro marks given
  unfold identifierMarks? at given
  split at given
  · cases given
    rfl
  · split at given
    · cases given
      rfl
    · split at given <;> cases given <;> rfl

theorem isOrdinary_symbol? {name : String} :
    ∀ found ∈ Symbol.named? name,
      found.marks.isBreak = false ∧ found.marks.isLimitSwitch = false := by
  intro found given
  obtain ⟨group, member, inside⟩ := List.exists_of_findSome?_eq_some given
  have all : ∀ group ∈ Symbol.groups,
      group.marks.isBreak = false ∧ group.marks.isLimitSwitch = false := by decide
  obtain ⟨glyph, _, same⟩ := Option.map_eq_some_iff.mp inside
  exact same ▸ all group member

theorem isOrdinary_built? {name : String} : ∀ n ∈ builtLimit? name, n.Ordinary := by
  intro n found
  unfold builtLimit? at found
  split at found <;> cases found <;> exact ⟨rfl, rfl⟩

theorem isOrdinary_kern? {name : String} : ∀ command ∈ kern? name, command.IsOrdinary := by
  unfold kern?
  split
  · exact fun _ member => Option.some.inj member ▸ trivial
  · exact fun _ member => nomatch member

theorem isOrdinary_named (name : String) : (named name).IsOrdinary := by
  unfold named
  refine holds_getD ?_ trivial
  refine forall_mem_orElse (forall_mem_map.mpr isOrdinary_identifier?) ?_
  refine forall_mem_orElse (forall_mem_map.mpr isOrdinary_symbol?) ?_
  refine forall_mem_orElse (forall_mem_map.mpr isOrdinary_built?) ?_
  refine forall_mem_orElse (forall_mem_map.mpr fun _ _ => trivial) ?_
  refine forall_mem_orElse (forall_mem_map.mpr fun _ _ => trivial) ?_
  refine forall_mem_orElse (forall_mem_map.mpr fun _ _ => trivial) ?_
  refine forall_mem_orElse (forall_mem_map.mpr fun _ _ => trivial) ?_
  refine forall_mem_orElse isOrdinary_kern? ?_
  exact forall_mem_orElse (forall_mem_map.mpr fun _ _ => trivial)
    (forall_mem_map.mpr fun _ _ => trivial)

theorem isOrdinary_meaning? {macros : Macro.Table} {name : String} :
    ∀ command ∈ meaning? macros name, command.IsOrdinary := by
  intro command given
  unfold meaning? at given
  split at given
  case h_1 found => exact Option.some.inj given ▸ isOrdinary_fixed? _ found
  case h_2 =>
    split at given
    · cases given
    · exact Option.some.inj given ▸ isOrdinary_named name

end Command

/-! ### Steps -/

namespace Step

variable [Node.Carried A]

/-- An environment always gives a node. -/
theorem yields_environment (t : Token) (c : Context) (content : List Token)
    (short : content.length < bound.weight) :
    (environment t c content short).Yields Job.IntoOrdinary A fun node =>
      ∃ n, node = some n ∧ A n := by
  have ordinary : ∀ n ∈ some (Node.element "mrow"), n.Ordinary :=
    Plan.ordinary_some (Node.ordinary_of_marks rfl)
  refine (Plan.yields_readQueue (Plan.intoOrdinary_start ordinary)).bind fun n given => ?_
  have content : A (n.getD {}) := by
    cases n with
    | none => exact Node.carried_of_marks rfl
    | some n => exact given n rfl
  exact ⟨_, rfl, Node.carried_frame content _ _⟩

/-- A pair of fences always gives a node. -/
theorem yields_fenced (opener : Token) (closer : Option Token) (c : Context)
    (content : List Token) (short : content.length < bound.weight) :
    (fenced opener closer c content short).Yields Job.IntoOrdinary A fun node =>
      ∃ n, node = some n ∧ A n :=
  (Plan.yields_readQueue (Plan.intoOrdinary_start Plan.ordinary_none)).bind fun _ _ =>
    ⟨_, rfl, Node.carried_of_marks rfl⟩

omit [Node.Carried A] in
theorem carries_of_yields {plan : Plan bound (Option Node)}
    (yields : plan.Yields Job.IntoOrdinary A fun node => ∃ n, node = some n ∧ A n) :
    (Action.add plan).Carries A := by
  refine yields.mono fun node given m member => ?_
  obtain ⟨n, rfl, holds⟩ := given
  exact Option.some.inj member ▸ holds

omit [Node.Carried A] in
theorem carries_group (c : Context) (content : List Token)
    (short : content.length < bound.weight) :
    (Action.add (Plan.readTokens content short c none)).Carries A :=
  Plan.yields_readQueue (Plan.intoOrdinary_start Plan.ordinary_none)

/-! ### Breaks that are bare -/

theorem bare_of_inside {n : Node} (inside : n.marks.isBreak = false) : n.Bare :=
  fun ends => nomatch inside.symm.trans ends

theorem isPromise_pendingMarks? {t : Token} : ∀ marks ∈ pendingMarks? t, marks.IsPromise := by
  intro marks given
  unfold pendingMarks? operandMarks? at given
  split at given
  · cases given
    split <;> exact ⟨rfl, rfl, rfl⟩
  · split at given
    · split at given <;> cases given <;> exact ⟨rfl, rfl, rfl⟩
    · cases given

theorem bare_ofIdentifier {marks : Marks} (inside : marks.isBreak = false) (t : Token)
    (c : Context) : (Node.ofIdentifier marks t c).Bare := by
  have union : ({} : Marks).union marks = marks := by simp [Marks.union]
  have start : (((Node.element "mi").mark marks).fromToken t).Bare :=
    bare_of_inside ((congrArg Marks.isBreak union).trans inside)
  unfold Node.ofIdentifier
  refine Node.carried_reflectMarks (Node.carried_applyVariant ?_ _)
  split
  · exact bare_of_inside ((congrArg Marks.isBreak union).trans inside)
  · exact Node.carried_setAttribute
      (bare_of_inside ((congrArg Marks.isBreak union).trans inside)) _ _

theorem carries_endRow (q : Queue.Below bound) : (endRow q).1.Carries Node.Bare := by
  have row : rowBreak.Bare := fun _ => ⟨.inl rfl, rfl, rfl, rfl⟩
  unfold endRow
  split
  · exact List.forall_mem_cons.mpr ⟨bare_of_inside rfl, List.forall_mem_singleton.mpr row⟩
  · exact List.forall_mem_singleton.mpr row

theorem carries_plain (o : Options) (macros : Macro.Table) (t : Token) (c : Context)
    (q : Queue.Below bound) : (plain o macros t c q).1.Carries Node.Bare := by
  have node {n : Node} (holds : n.Bare) : (Action.node n : Action bound).Carries Node.Bare :=
    fun _ given => Option.some.inj given ▸ holds
  have known {meaning : Command} (ordinary : meaning.IsOrdinary) :
      (Plan.perform o macros meaning t c q).1.Carries Node.Bare := by
    refine Plan.carries_perform o macros ordinary (fun marks same => ?_) q
    subst same
    exact bare_ofIdentifier ordinary t c
  unfold plain
  simp only
  split
  · trivial
  · split
    · exact node (Node.carried_of_marks rfl)
    · split
      · exact node (Node.carried_of_marks rfl)
      · split
        · exact Node.carried_delimiter
        · split
          · exact node (Node.carried_of_marks rfl)
          · split
            · unfold Plan.command
              split
              case h_1 found => exact known (Command.isOrdinary_fixed? _ found)
              case h_2 =>
                split
                · trivial
                · exact known (Command.isOrdinary_named t.value)
            · exact node (Node.carried_ofPlain t c)

theorem carries_single (o : Options) (macros : Macro.Table) (t : Token) (c : Context)
    (q : Queue.Below bound) : (single o macros t c q).1.Carries Node.Bare := by
  unfold single
  split
  · exact List.forall_mem_singleton.mpr fun _ => ⟨.inl rfl, rfl, rfl, rfl⟩
  · split
    · exact carries_endRow q
    · split
      case h_1 marks found => exact isPromise_pendingMarks? marks found
      case h_2 => exact carries_plain o macros t c q

/-- The breaks that a step adds to a row are bare. -/
theorem carries_ofExpr (o : Options) (macros : Macro.Table) (c : Context) (e : Expr)
    (rest : Queue) : (ofExpr o macros c e rest).action.Carries Node.Bare := by
  unfold ofExpr
  simp only
  split
  · unfold whitespace
    split
    · exact List.forall_mem_singleton.mpr (Node.carried_of_marks rfl)
    · trivial
  · exact carries_group _ _ _
  · exact carries_of_yields (yields_environment _ _ _ _)
  · exact carries_of_yields (yields_fenced _ _ _ _ _)
  · exact carries_single _ _ _ _ _
  · exact carries_single _ _ _ _ _

end Step

end TexFormula
