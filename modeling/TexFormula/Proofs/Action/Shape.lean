import TexFormula.Proofs.Plan.Shape

/-! Steps keep a row in shape (`Step.shaped_ofExpr`). What a step adds to a row is written or
hidden, or it is the end of a cell or a row, and then no mark is meant for it; and a mark that a
step leaves for the next node does not hide that node. -/
namespace TexFormula

open Node (Fit IsFree Made Solid Placed Usable ForNext PassedOver made_leaf made_error made_ite
  solid_element solid_two solid_row solid_ite)

variable {F : Fit} {bound : Queue}

/-- An action that adds nothing to a row but what can stand there. -/
def Action.Shaped (F : Fit) : Action bound → Prop
  | .promote marks => ForNext marks
  | .place nodes => ∀ n ∈ nodes, n.Usable F
  | .add plan => plan.Makes F fun node => ∀ n ∈ node, n.Placed F
  | _ => True

theorem Action.shaped_node {n : Node} (placed : n.Placed F) :
    (Action.node n : Action bound).Shaped F :=
  fun _ given => Option.some.inj given ▸ placed

theorem Action.shaped_build {plan : Plan bound Node} (makes : plan.Makes F (Made F)) :
    (Action.build plan).Shaped F :=
  Plan.Delivers.map makes fun _ made _ given => Option.some.inj given ▸ made.placed

namespace Plan

theorem shaped_definition (macros : Macro.Table) (command : Definition.Command)
    (q : Queue.Below bound) : (definition macros command q).1.Shaped F := by
  unfold definition
  simp only
  split
  · exact Action.shaped_node (made_error _ _).placed
  · split
    · exact Action.shaped_node (made_error _ _).placed
    · split <;> trivial

theorem makes_alphabet (name : String) (variant : Variant) (c : Context) (q : Queue.Below bound) :
    (alphabet name variant c q).1.Makes F (Made F) := by
  have upright : ((Node.element "mpadded").setAttribute "lspace" "0").Made F :=
    (solid_element _ (by decide)).toMade.setAttribute _ _
  unfold alphabet
  simp only
  split
  · exact made_ite upright (solid_row (List.forall_mem_nil _)).toMade
  · split
    · exact made_readInto _ (isBlank_setAttribute (isBlank_element _ (by decide)) _ _) _
    · exact (makes_readArgument _ _).mono fun _ => Solid.toMade

theorem made_fixedSpace (width : Int) (t : Token) : (fixedSpace width t).Made F := by
  have space : ((Node.element "mspace").fromToken t).Made F :=
    (solid_element _ (by decide)).toMade.fromToken t
  exact made_ite (space.setAttribute _ _) (space.setAttribute _ _)

theorem makes_switched (name : String) (found : Switch) (c : Context) (q : Queue.Below bound) :
    (switched name found c q).1.Makes F (Made F) := by
  have read : ∀ {n : Node} (body : Queue.Below bound), n.IsBlank →
      (readSwitched found c n body).Makes F (Made F) := fun {n} body blank =>
    (makes_getD body _ ((Node.resembles_setAttributes n _).isBlank blank)).mono
      fun _ content => content.made
  unfold switched
  simp only
  split
  · split
    · exact made_error _ _
    · exact read _ (isBlank_setAttribute (isBlank_element _ (by decide)) _ _)
  · exact read _ (isBlank_element _ (by decide))

theorem makes_structural (found : Command.Structural) (t : Token) (c : Context)
    (q : Queue.Below bound) : (structural found t c q).1.Makes F (Made F) := by
  unfold structural
  split
  · exact made_error _ _
  · simp only
    split
    · exact makes_unary _ _ _ _ _
    · exact makes_binary _ _ _ _
    · exact makes_ternary _ _ _ _ _
    · exact made_error _ _

theorem made_kern (name : String) (q : Queue.Below bound) : (kern name q).1.Made F := by
  unfold kern
  split
  · exact made_error _ _
  · simp only
    exact Node.made_space _ _

theorem makes_accent (above : Bool) {glyph : String} (plain : (Node.leaf "mo" glyph).IsPlain)
    (c : Context) (q : Queue.Below bound) : (accent above glyph c q).1.Makes F (Made F) := by
  have place : ∀ {base : Node}, base.Solid F →
      ((Node.branch (if above then "mover" else "munder") [if base.tag == "mi" then
        base.setAttribute "style" "font-feature-settings: 'dtls' on;" else base,
        stretchy glyph]).setAttribute "accent" "true").Made F := fun {base} solid => by
    have styled : (if base.tag == "mi" then
        base.setAttribute "style" "font-feature-settings: 'dtls' on;" else base).Solid F :=
      solid_ite (solid.setAttribute _ _) solid
    have both := solid_two (if above then "mover" else "munder") (by split <;> rfl) styled
      (solid_stretchy glyph plain)
    exact both.toMade.setAttribute _ _
  unfold accent
  simp only
  split
  · exact place (solid_row (List.forall_mem_nil _))
  · exact (makes_readArgument c _).map fun n solid => place solid

theorem made_unknown (o : Options) (name : String) : (unknown o name).Made F :=
  made_ite (made_leaf _ _ (by decide)) (made_error _ _)

theorem shaped_perform (o : Options) (macros : Macro.Table) {meaning : Command}
    (known : meaning.IsSolid F) (t : Token) (c : Context) (q : Queue.Below bound) :
    (perform o macros meaning t c q).1.Shaped F := by
  have finished : ∀ plan : Plan bound Node, plan.Makes F (Made F) →
      (Action.build ((·.finish t c) <$> plan)).Shaped F := fun _ makes =>
    Action.shaped_build (makes.map fun n made => (Node.resembles_finish n t c).made made)
  unfold perform
  cases meaning with
  | definition command => exact shaped_definition macros command q
  | logo node => exact Action.shaped_node (Made.placed known)
  | identifier marks => exact Action.shaped_node (Node.placed_ofIdentifier known t c)
  | symbol symbol => exact Action.shaped_node (Node.made_ofSymbol known t c).placed
  | built node => exact Action.shaped_node (Made.fromToken known t).placed
  | alphabet variant => exact Action.shaped_build (makes_alphabet t.value variant c q)
  | space width => exact Action.shaped_node (made_fixedSpace width t).placed
  | switch found => exact Action.shaped_build (makes_switched t.value found c q)
  | structural found => exact finished _ (makes_structural found t c q)
  | kern => exact finished (pure (kern t.value q).1) (made_kern t.value q)
  | accent above glyph => exact finished _ (makes_accent above known c q)
  | unknown => exact finished (pure (unknown o t.value)) (made_unknown o t.value)

theorem shaped_command (o : Options) (macros : Macro.Table) (t : Token) (c : Context)
    (q : Queue.Below bound) : (command o macros t c q).1.Shaped F := by
  unfold command
  split
  case h_1 meaning found =>
    exact shaped_perform o macros (Command.isSolid_fixed? meaning found) t c q
  case h_2 =>
    split
    · trivial
    · exact shaped_perform o macros (Command.isSolid_named t.value) t c q

end Plan

/-! ### Steps -/

namespace Step

theorem forNext_pendingMarks? {t : Token} : ∀ marks ∈ pendingMarks? t, ForNext marks := by
  intro marks given
  unfold pendingMarks? operandMarks? at given
  split at given
  · cases given
    split <;> exact ⟨rfl, rfl⟩
  · split at given
    · split at given
      all_goals cases given
      all_goals exact ⟨rfl, rfl⟩
    · cases given

theorem usable_cellBreak : cellBreak.Usable F :=
  ⟨.inr ⟨rfl, .inr ⟨rfl, rfl⟩⟩, Node.shaped_of_nameless rfl rfl⟩

theorem usable_rowBreak : rowBreak.Usable F :=
  ⟨.inr ⟨rfl, .inr ⟨rfl, rfl⟩⟩, Node.shaped_of_nameless rfl rfl⟩

theorem usable_spacing (e : Expr) : (spacing e).Usable F :=
  ⟨.inr ⟨rfl, .inl rfl⟩,
    Node.shaped_of_free (by decide : IsFree "rowspacing") (List.forall_mem_nil _)⟩

theorem shaped_endRow (q : Queue.Below bound) : (endRow q).1.Shaped F := by
  unfold endRow
  split
  · exact List.forall_mem_cons.mpr
      ⟨usable_spacing _, List.forall_mem_singleton.mpr usable_rowBreak⟩
  · exact List.forall_mem_singleton.mpr usable_rowBreak

theorem shaped_plain (o : Options) (macros : Macro.Table) (t : Token) (c : Context)
    (q : Queue.Below bound) : (plain o macros t c q).1.Shaped F := by
  have refusal : ∀ text title, (Action.node ((Node.error text title).fromToken t) :
      Action bound).Shaped F := fun text title =>
    Action.shaped_node ((made_error text title).fromToken t).placed
  unfold plain
  simp only
  split
  · trivial
  · split
    · exact refusal _ _
    · split
      · exact refusal _ _
      · split
        · exact fun n given => (Node.made_delimiter given).placed
        · split
          · exact Action.shaped_node ((made_leaf _ _ (by decide)).fromToken t).placed
          · split
            · exact Plan.shaped_command o macros t c q
            · exact Action.shaped_node (Node.made_ofPlain t c).placed

theorem shaped_single (o : Options) (macros : Macro.Table) (t : Token) (c : Context)
    (q : Queue.Below bound) : (single o macros t c q).1.Shaped F := by
  unfold single
  split
  · exact List.forall_mem_singleton.mpr usable_cellBreak
  · split
    · exact shaped_endRow q
    · split
      case h_1 marks given => exact forNext_pendingMarks? marks given
      case h_2 => exact shaped_plain o macros t c q

theorem shaped_whitespace (t : Token) (c : Context) :
    (whitespace t c : Action bound).Shaped F := by
  unfold whitespace
  split
  · have space : (Node.element "mspace").Made F := (solid_element _ (by decide)).toMade
    exact List.forall_mem_singleton.mpr ((space.setAttribute _ _).fromToken t).usable
  · trivial

theorem makes_environment (t : Token) (c : Context) (content : List Token)
    (short : content.length < bound.weight) :
    (environment t c content short).Makes F fun node => ∀ n ∈ node, n.Placed F := by
  have known : ∀ n ∈ some (Node.element "mrow"), n.IsBlank := fun n same =>
    Option.some.inj same ▸ Plan.isBlank_element _ (by decide)
  refine (Plan.makes_readQueue _ _ known).bind fun node given => ?_
  obtain ⟨n, rfl, content⟩ := given.2 rfl
  exact fun m same => Option.some.inj same ▸
    (Environment.made_frame t.value t.kind.star c content.made content.visible
      content.below).placed

theorem makes_fenced {opener : Token} {closer : Option Token} {c : Context}
    (left : ∀ n ∈ Node.delimiter? opener c, F.inside n)
    (right : ∀ n ∈ closer.bind (Node.delimiter? · c), F.inside n) (content : List Token)
    (short : content.length < bound.weight) :
    (fenced opener closer c content short).Makes F fun node => ∀ n ∈ node, n.Placed F := by
  refine (Plan.makes_readQueue _ c Node.isBlank_none).bind fun node given m same =>
    Option.some.inj same ▸ (solid_row ?_).toMade.placed
  refine List.forall_mem_append.mpr ⟨List.forall_mem_append.mpr ⟨?_, ?_⟩, ?_⟩
  · intro n member
    have found := Option.mem_toList.mp member
    exact ⟨left n found, (Node.made_delimiter found).shaped⟩
  · exact fun n member => (given.1 n (Option.mem_toList.mp member)).toInner
  · intro n member
    obtain ⟨t, same, found⟩ := Option.bind_eq_some_iff.mp (Option.mem_toList.mp member)
    have there : n ∈ closer.bind (Node.delimiter? · c) := Option.mem_toList.mp member
    exact ⟨right n there, (Node.made_delimiter found).shaped⟩

/-- A step adds nothing to a row but what can stand there, as long as the fences that it puts around
something can be put there. -/
theorem shaped_ofExpr (o : Options) (macros : Macro.Table) {c : Context} {e : Expr} (rest : Queue)
    (left : e.kind = .fenced → ∀ n ∈ Node.delimiter? e.first c, F.inside n)
    (right : e.kind = .fenced → ∀ n ∈ e.closer?.bind (Node.delimiter? · c), F.inside n) :
    (ofExpr o macros c e rest).action.Shaped F := by
  unfold ofExpr
  simp only
  split
  · exact shaped_whitespace _ _
  · exact (Plan.makes_readQueue _ _ Node.isBlank_none).mono fun _ given n member =>
      (given.1 n member).toMade.placed
  · exact makes_environment _ _ _ _
  case h_4 kind => exact makes_fenced (left kind) (right kind) _ _
  · exact shaped_single _ _ _ _ _
  · exact shaped_single _ _ _ _ _

end Step

end TexFormula
