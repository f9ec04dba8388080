import TexFormula.Plan.Step
import TexFormula.Proofs.Command.Stable
import TexFormula.Proofs.Node.Shape
import TexFormula.Proofs.Plan.Yields
import TexFormula.Proofs.Row.Shape
import TexFormula.Proofs.Table.Shape

/-! Commands keep elements in shape. A command puts the nodes of its arguments into an element with
as many children as it has arguments; so the element is in shape if all these nodes can be put
there. An argument in which nothing shows is an empty row. -/

/-! ### Tables of commands

The tables of commands: the elements that a table gives are in shape, a symbol is never hidden,
an identifier is no arrow, and no accent is a character that is written as another one. -/

namespace TexFormula.Command

open Node (Fit Made Solid plain_of_tag solid_element solid_leaf solid_branch solid_two solid_row)
open Option (forall_mem_map)

variable {F : Fit}

/-- A command all of whose nodes can be put where they come. -/
def IsSolid (F : Fit) : Command → Prop
  | .logo node => node.Made F
  | .identifier marks => marks.horizontalArrow = false
  | .symbol found => found.marks.hidden = false
  | .built node => node.Made F
  | .accent _ glyph => (Node.leaf "mo" glyph).IsPlain
  | _ => True

/-! ### Logos and limits -/

theorem solid_letter (text : String) : (Node.leaf "mtext" text).Solid F :=
  solid_leaf _ text (by decide) (plain_of_tag (by decide : "mtext" ≠ "mo"))

theorem solid_shiftedLetter (text offset padding : String) :
    (shiftedLetter text offset padding).Solid F := by
  have letter : (Node.leaf "mtext" text).Solid F := solid_letter text
  have style := solid_branch "mstyle" (List.forall_mem_singleton.mpr letter.toInner) (by decide)
  have sized := style.setAttributes [("scriptlevel", "0"), ("displaystyle", "false")]
  have padded := solid_branch "mpadded" (List.forall_mem_singleton.mpr sized.toInner) (by decide)
  exact padded.setAttributes _

theorem solid_tighten (width : String) : (tighten width).Solid F :=
  (solid_element _ (by decide)).setAttributes _

theorem solid_logoTail : ∀ n ∈ logoTail, n.Solid F := by
  simp only [logoTail, List.forall_mem_cons]
  exact ⟨solid_letter _, solid_tighten _, solid_shiftedLetter _ _ _, solid_tighten _,
    solid_letter _, List.forall_mem_nil _⟩

theorem solid_logoHead : ∀ n ∈ logoHead, n.Solid F := by
  have space : (Node.element "mspace").Solid F := solid_element _ (by decide)
  simp only [logoHead, List.forall_mem_cons]
  exact ⟨solid_letter _, space.setAttribute _ _, solid_shiftedLetter _ _ _, solid_tighten _,
    List.forall_mem_nil _⟩

theorem made_logo? {name : String} {n : Node} (given : logo? name = some n) : n.Made F := by
  have tail : ∀ n ∈ logoTail, n.Inner F := fun n member => (solid_logoTail n member).toInner
  have head : ∀ n ∈ logoHead, n.Inner F := fun n member => (solid_logoHead n member).toInner
  unfold logo? at given
  split at given
  all_goals cases given
  · exact (solid_row (List.forall_mem_append.mpr ⟨head, tail⟩)).toMade
  · exact (solid_row tail).toMade

theorem made_arrowLimit (arrow : String) (plain : (Node.leaf "mo" arrow).IsPlain) :
    (arrowLimit arrow).Made F := by
  have below : (Node.leaf "mo" arrow).Solid F := solid_leaf _ _ (by decide) plain
  have word : (Node.leaf "mo" "lim").Solid F := solid_leaf _ _ (by decide) (by decide)
  exact (solid_two "munder" rfl word (below.setAttribute _ _)).toMade.mark rfl

theorem made_linedLimit (padding side : String) : (linedLimit padding side).Made F := by
  have word : (Node.leaf "mo" "lim").Solid F := solid_leaf _ _ (by decide) (by decide)
  have lined := (word.setCss "padding" padding).setCss side "0.065em solid"
  exact (solid_branch "mpadded" (List.forall_mem_singleton.mpr lined.toInner)
    (by decide)).toMade.mark rfl

theorem made_builtLimit? {name : String} {n : Node} (given : builtLimit? name = some n) :
    n.Made F := by
  unfold builtLimit? at given
  split at given
  all_goals cases given
  · exact made_arrowLimit _ (by decide)
  · exact made_arrowLimit _ (by decide)
  · exact made_linedLimit _ _
  · exact made_linedLimit _ _

/-! ### Tables -/

theorem horizontalArrow_identifierMarks? {name : String} :
    ∀ marks ∈ identifierMarks? name, marks.horizontalArrow = false := by
  intro marks given
  unfold identifierMarks? at given
  split at given
  · cases given
    rfl
  · split at given
    · cases given
      rfl
    · split at given
      · cases given
        rfl
      · cases given
        rfl
      · cases given

theorem hidden_named? {name : String} :
    ∀ found ∈ Symbol.named? name, found.marks.hidden = false := by
  intro found given
  obtain ⟨group, member, inside⟩ := List.exists_of_findSome?_eq_some given
  have all : ∀ group ∈ Symbol.groups, group.marks.hidden = false := by decide
  obtain ⟨glyph, _, same⟩ := Option.map_eq_some_iff.mp inside
  exact same ▸ all group member

theorem plain_of_lookup {table : List (String × String)} {name glyph : String}
    (plain : ∀ entry ∈ table, (Node.leaf "mo" entry.2).IsPlain)
    (found : table.lookup name = some glyph) : (Node.leaf "mo" glyph).IsPlain :=
  plain _ (Entries.mem_of_lookup found)

theorem isSolid_fixed? {name : String} : ∀ command ∈ fixed? name, command.IsSolid F :=
  forall_mem_orElse (forall_mem_map.mpr fun _ _ => trivial)
    (forall_mem_map.mpr fun _ found => made_logo? found)

theorem isSolid_kern? {name : String} : ∀ command ∈ kern? name, command.IsSolid F := by
  unfold kern?
  split
  · exact fun _ member => Option.some.inj member ▸ trivial
  · exact fun _ member => nomatch member

theorem isSolid_named (name : String) : (named name).IsSolid F := by
  unfold named
  refine holds_getD ?_ trivial
  refine forall_mem_orElse (forall_mem_map.mpr horizontalArrow_identifierMarks?) ?_
  refine forall_mem_orElse (forall_mem_map.mpr hidden_named?) ?_
  refine forall_mem_orElse (forall_mem_map.mpr fun _ found => made_builtLimit? found) ?_
  refine forall_mem_orElse (forall_mem_map.mpr fun _ _ => trivial) ?_
  refine forall_mem_orElse (forall_mem_map.mpr fun _ _ => trivial) ?_
  refine forall_mem_orElse (forall_mem_map.mpr fun _ _ => trivial) ?_
  refine forall_mem_orElse (forall_mem_map.mpr fun _ _ => trivial) ?_
  refine forall_mem_orElse isSolid_kern? ?_
  exact forall_mem_orElse (forall_mem_map.mpr fun _ => plain_of_lookup (by decide))
    (forall_mem_map.mpr fun _ => plain_of_lookup (by decide))

end TexFormula.Command

/-! ### Plans -/

namespace TexFormula

open Node (Fit IsFree Made Solid Usable Arranged plain_of_tag made_leaf solid_element solid_leaf
  solid_branch solid_two solid_of_parts solid_row made_error made_ite solid_ite)

variable {F : Fit}

/-- A node to read into: any children can be put there, and there are none yet. -/
structure Node.IsBlank (n : Node) : Prop where
  free : IsFree n.tag
  visible : n.marks.hidden = false
  bare : n.children = []

/-- A node that nodes were read into, which a command can give and which can be made a table of. -/
structure Node.IsContent (F : Fit) (n : Node) : Prop where
  made : n.Made F
  visible : n.marks.hidden = false
  below : ∀ child ∈ n.children, child.Arranged F

theorem Node.isBlank_none : ∀ n ∈ (none : Option Node), n.IsBlank :=
  nofun

/-- A job that reads into a blank node, if it reads into a node. -/
def Job.IsBlank (job : Job) : Prop :=
  ∀ parent ∈ job.parent, parent.IsBlank

/-- What a job gives: a node that can stand in a row, and always a node if it reads into one. -/
structure Job.Gives (F : Fit) (job : Job) (node : Option Node) : Prop where
  usable : ∀ n ∈ node, n.Usable F
  content : job.parent.isSome = true → ∃ n, node = some n ∧ n.IsContent F

/-- What a job gives if that can be put into every element. -/
structure Job.GivesSolid (F : Fit) (job : Job) (node : Option Node) : Prop where
  solid : ∀ n ∈ node, n.Solid F
  content : job.parent.isSome = true → ∃ n, node = some n ∧ n.IsContent F

/-- A plan whose value satisfies `R` if all that its jobs give can be put into every element. -/
def Plan.Makes {bound : Queue} {α : Type} (F : Fit) (R : α → Prop) (plan : Plan bound α) :
    Prop :=
  plan.Delivers Job.IsBlank (Job.GivesSolid F) R

/-! ### Jobs -/

theorem Node.Resembles.isBlank {n m : Node} (resembles : n.Resembles m) (blank : n.IsBlank) :
    m.IsBlank :=
  ⟨resembles.tag ▸ blank.free, resembles.marks ▸ blank.visible,
    resembles.children.trans blank.bare⟩

/-- A job gives what it should if its row is put together as it should. -/
theorem Job.gives_finish {job : Job} (blank : job.IsBlank) {nodes : List Node}
    (usable : ∀ n ∈ nodes, n.Usable F) (arranged : ∀ n ∈ Row.arrange nodes, n.Arranged F) :
    job.Gives F (job.finish nodes) := by
  have below : ∀ n ∈ Row.arrange nodes, n.Inner F := fun n member => (arranged n member).toInner
  unfold Job.finish
  split
  case h_1 parent given =>
    obtain ⟨free, visible, bare⟩ := blank parent given
    have content : ({ parent.append nodes with
        tag := if parent.tag == "" then "mrow" else parent.tag
        option := job.option } : Node).arrange.IsContent F := by
      have children : (parent.append nodes).children = nodes := by
        rw [Node.append, bare]
        rfl
      have named : (if parent.tag == "" then "mrow" else parent.tag) = parent.tag :=
        if_neg (by simpa using free.1)
      rw [named]
      unfold Node.arrange
      simp only [children]
      exact ⟨Node.made_of_free free visible below, visible, arranged⟩
    exact ⟨fun n same => Option.some.inj same ▸ content.made.usable, fun _ => ⟨_, rfl, content⟩⟩
  case h_2 none =>
    have orphan : ¬ job.parent.isSome = true := by simp [none]
    split
    · exact ⟨fun n same => absurd same (Option.not_mem_none n), fun some => (orphan some).elim⟩
    · exact ⟨fun n same => Option.some.inj same ▸ usable _ List.mem_cons_self,
        fun some => (orphan some).elim⟩
    · refine ⟨fun n same => Option.some.inj same ▸ Made.usable ?_, fun some => (orphan some).elim⟩
      exact Node.made_of_free (by decide : IsFree "mrow") rfl below

/-- A node of which enough is known can be put wherever the job was read for. -/
theorem Job.Gives.givesSolid {job : Job} {node : Option Node} (gives : job.Gives F node)
    (fits : ∀ n ∈ node, F.inside n ∧ F.part n) : job.GivesSolid F node :=
  ⟨fun n given => ⟨⟨(fits n given).1, (gives.usable n given).shaped⟩, (fits n given).2⟩,
    gives.content⟩

namespace Plan

variable {bound : Queue}

/-! ### Reading arguments -/

theorem isBlank_start {queue : Queue} {c : Context} {parent : Option Node}
    (blank : ∀ n ∈ parent, n.IsBlank) : (Job.start queue c parent).IsBlank := by
  unfold Job.IsBlank
  rw [parent_start]
  exact blank

theorem makes_readQueue (q : Queue.Below bound) (c : Context) {parent : Option Node}
    (blank : ∀ n ∈ parent, n.IsBlank) :
    (readQueue q c parent).Makes F fun node => (∀ n ∈ node, n.Solid F) ∧
      (parent.isSome = true → ∃ n, node = some n ∧ n.IsContent F) := by
  refine ⟨isBlank_start blank, fun node given => ⟨given.solid, fun some => given.content ?_⟩⟩
  rw [parent_start]
  exact some

theorem makes_readArgument (c : Context) (e : Expr.Below bound) :
    (readArgument c e).Makes F (Solid F) :=
  (makes_readQueue _ c Node.isBlank_none).map fun node given => by
    cases node with
    | none => exact solid_row (List.forall_mem_nil _)
    | some n => exact given.1 n rfl

/-- What is read into a node is always there. -/
theorem makes_getD (q : Queue.Below bound) (c : Context) {parent preset : Node}
    (blank : parent.IsBlank) :
    (do return (← readQueue q c (some parent)).getD preset : Plan bound Node).Makes F
      (Node.IsContent F) := by
  have known : ∀ n ∈ some parent, n.IsBlank := fun n same => Option.some.inj same ▸ blank
  refine (makes_readQueue q c known).map fun node given => ?_
  obtain ⟨n, rfl, content⟩ := given.2 rfl
  exact content

theorem makes_readInto (c : Context) {parent : Node} (blank : parent.IsBlank)
    (e : Expr.Below bound) : (readInto c parent e).Makes F (Node.IsContent F) :=
  makes_getD _ c blank

theorem made_readInto (c : Context) {parent : Node} (blank : parent.IsBlank)
    (e : Expr.Below bound) : (readInto c parent e).Makes F (Made F) :=
  (makes_readInto c blank e).mono fun _ content => content.made

theorem isBlank_element (tag : String) (free : IsFree tag) : (Node.element tag).IsBlank :=
  ⟨free, rfl, rfl⟩

theorem isBlank_setAttribute {n : Node} (blank : n.IsBlank) (name value : String) :
    (n.setAttribute name value).IsBlank :=
  ⟨blank.free, blank.visible, blank.bare⟩

/-! ### Commands with a fixed number of arguments -/

theorem solid_stretchy (text : String) (plain : (Node.leaf "mo" text).IsPlain) :
    (stretchy text).Solid F :=
  (solid_leaf _ text (by decide) plain).setAttribute _ _

theorem makes_negation (c : Context) (e : Expr.Below bound) :
    (negation c e).Makes F (Made F) := by
  unfold negation
  split
  · exact made_error _ _
  case h_2 t single =>
    unfold negated
    exact made_leaf _ _ (by split <;> decide)
  · exact made_readInto c (isBlank_setAttribute (isBlank_element _ (by decide)) _ _) e

theorem solid_modulus (parenthesized : Bool) {argument : Node} (solid : argument.Solid F) :
    (modulus parenthesized argument).Solid F := by
  have space : ∀ width, ((Node.element "mspace").setAttribute "width" width).Solid F :=
    fun width => (solid_element _ (by decide)).setAttribute _ width
  have left : (Node.leaf "mo" "(").Solid F := solid_leaf _ _ (by decide) (by decide)
  have right : (Node.leaf "mo" ")").Solid F := solid_leaf _ _ (by decide) (by decide)
  have name : (Node.leaf "mo" "mod").Solid F := solid_leaf _ _ (by decide) (by decide)
  unfold modulus
  refine solid_ite (solid_row ?_) (solid_row ?_)
  · simp only [List.forall_mem_cons]
    exact ⟨(space _).toInner, left.toInner, (name.setAttribute _ _).toInner, solid.toInner,
      right.toInner, List.forall_mem_nil _⟩
  · simp only [List.forall_mem_cons]
    exact ⟨(space _).toInner, name.toInner, solid.toInner, List.forall_mem_nil _⟩

theorem makes_unary (command : Command.Unary) (t : Token) (c : Context)
    (optional : Option (Expr.Below bound)) (e : Expr.Below bound) :
    (unary command t c optional e).Makes F (Made F) := by
  have argument : (readArgument c e).Makes F (Solid F) := makes_readArgument c e
  cases command with
  | strike strike =>
    exact made_readInto c (isBlank_setAttribute (isBlank_element _ (by decide)) _ _) e
  | box text =>
    exact made_readInto _ (isBlank_setAttribute (isBlank_element _ (by decide)) _ _) e
  | phantom => exact made_readInto c (isBlank_element _ (by decide)) e
  | operator => exact ((made_leaf _ _ (by decide)).setAttribute _ _).mark rfl
  | functionName =>
    have name : (Node.leaf "mi" (functionText e.val)).Made F := made_leaf _ _ (by decide)
    exact made_ite ((name.setAttribute _ _).mark rfl) (name.setAttribute _ _)
  | modulus parenthesized =>
    exact argument.map fun n solid => (solid_modulus parenthesized solid).toMade
  | lines =>
    refine (makes_readInto _ (isBlank_element _ (by decide)) e).bind fun n content => ?_
    exact (Table.isTable_ofRow content.visible content.below).solid.toMade.setAttributes _
  | brace above =>
    refine argument.bind fun n solid => ?_
    have brace : (stretchy (if above then "⏞" else "⏟")).Solid F :=
      solid_stretchy _ (by cases above <;> decide)
    exact (solid_two _ (by split <;> rfl) solid brace).toMade.mark rfl
  | negation => exact makes_negation c e
  | radical =>
    refine argument.bind fun radicand solid => ?_
    cases optional with
    | none =>
      exact (solid_branch _ (List.forall_mem_singleton.mpr solid.toInner) (by decide)).toMade
    | some index =>
      exact (makes_readArgument c index).bind fun n other => (solid_two _ rfl solid other).toMade
  | text => exact made_leaf _ _ (by decide)
  | textAlphabet variant => exact (makes_readArgument _ e).mono fun _ => Solid.toMade
  | arrow toRight =>
    have arrow : (stretchy (if toRight then "→" else "←")).Solid F :=
      solid_stretchy _ (by cases toRight <;> decide)
    refine argument.bind fun above solid => ?_
    cases optional with
    | none => exact (solid_two _ rfl arrow solid).toMade
    | some label =>
      refine (makes_readArgument c label).bind fun n other => ?_
      have both : (Node.branch "munderover" [stretchy (if toRight then "→" else "←"), n,
          above]).Solid F :=
        solid_of_parts rfl (List.forall_mem_cons.mpr ⟨arrow, List.forall_mem_cons.mpr
          ⟨other, List.forall_mem_singleton.mpr solid⟩⟩)
      exact both.toMade
  | space => exact Node.made_space _ _

theorem makes_binary (command : Command.Binary) (c : Context) (first second : Expr.Below bound) :
    (binary command c first second).Makes F (Made F) := by
  have one : (readArgument c first).Makes F (Solid F) := makes_readArgument c first
  have other : (readArgument c second).Makes F (Solid F) := makes_readArgument c second
  cases command with
  | fraction fraction =>
    refine one.bind fun upper above => other.bind fun lower below => ?_
    exact (Node.solid_fraction fraction above below).toMade
  | decoration name => exact other.bind fun n solid => solid.toMade.setAttribute _ _
  | stack above =>
    refine other.bind fun base solid => one.bind fun script onTop => ?_
    have stretched : (if base.tag == "mo" then base.setAttribute "stretchy" "true"
        else base).Solid F := solid_ite (solid.setAttribute _ _) solid
    have both := solid_two (if above then "mover" else "munder") (by split <;> rfl) stretched onTop
    exact (solid_row (List.forall_mem_singleton.mpr both.toInner)).toMade
  | raise =>
    exact made_readInto c (isBlank_setAttribute (isBlank_element _ (by decide)) _ _) second

/-! ### Commands with three arguments -/

theorem solid_none : (Node.element "none").Solid F :=
  solid_element _ (by decide)

theorem makes_readSide (c : Context) (e : Expr.Below bound) :
    (readSide c e).Makes F fun nodes => ∀ n ∈ nodes, n.Solid F :=
  delivers_readSide solid_none (makes_readArgument c) e

theorem makes_ternary (command : Command.Ternary) (c : Context)
    (first second third : Expr.Below bound) :
    (ternary command c first second third).Makes F (Made F) := by
  have base : (readArgument c third).Makes F (Solid F) := makes_readArgument c third
  have separator : (Node.element "mprescripts").Solid F := solid_element _ (by decide)
  cases command with
  | span name => exact base.bind fun n solid => solid.toMade.setAttribute _ _
  | prescript =>
    refine base.bind fun base solid => (makes_readArgument c second).bind fun sub below =>
      (makes_readArgument c first).bind fun sup above =>
        (solid_branch _ ?_ (by decide)).toMade
    simp only [List.forall_mem_cons]
    exact ⟨solid.toInner, solid_none.toInner, solid_none.toInner, separator.toInner,
      below.toInner, above.toInner, List.forall_mem_nil _⟩
  | sideset =>
    refine base.bind fun base solid => (makes_readSide c second).bind fun right onRight =>
      (makes_readSide c first).bind fun left onLeft => ?_
    refine (solid_branch _ (fun n member => ?_) (by decide)).toMade.mark rfl
    have nodes : ∀ n ∈ base :: right ++ .element "mprescripts" :: left, n.Solid F :=
      List.forall_mem_cons.mpr ⟨solid, List.forall_mem_append.mpr
        ⟨onRight, List.forall_mem_cons.mpr ⟨separator, onLeft⟩⟩⟩
    exact (nodes n member).toInner

end Plan

end TexFormula
