import TexFormula.Proofs.Command.Stable
import TexFormula.Proofs.Plan.Stable

/-! What is stable holds of all that a step adds to a row, whatever tokens the step reads
(`stable_ofExpr`). -/
namespace TexFormula

open Node (Stable stable_element stable_leaf stable_two stable_row stable_error
  everywhere_none everywhere_some stable_default everywhere_ite)

variable {A : Node → Prop} {bound : Queue}

/-- A plan that gives nodes with a property everywhere if all its jobs do, and perhaps none. -/
def Plan.EverywhereOption (A : Node → Prop) (plan : Plan bound (Option Node)) : Prop :=
  plan.Yields (Job.Everywhere A) (Node.Everywhere A) fun node => ∀ n ∈ node, n.Everywhere A

/-- An action that only adds nodes with a property everywhere. -/
def Action.Everywhere (A : Node → Prop) : Action bound → Prop
  | .place nodes => ∀ n ∈ nodes, n.Everywhere A
  | .add plan => plan.EverywhereOption A
  | _ => True

theorem Action.stable_node {n : Node} (holds : n.Everywhere A) :
    (Action.node n : Action bound).Everywhere A :=
  everywhere_some holds

theorem Action.stable_build {plan : Plan bound Node} (holds : plan.Everywhere A) :
    (Action.build plan).Everywhere A :=
  holds.map fun _ given => everywhere_some given

variable [Stable A]

namespace Plan

theorem stable_definition (macros : Macro.Table) (command : Definition.Command)
    (q : Queue.Below bound) : (definition macros command q).1.Everywhere A := by
  unfold definition
  simp only
  split
  · exact Action.stable_node (stable_error _ _)
  · split
    · exact Action.stable_node (stable_error _ _)
    · split <;> trivial

theorem stable_alphabet (name : String) (variant : Variant) (c : Context)
    (q : Queue.Below bound) : (alphabet name variant c q).1.Everywhere A := by
  have upright := (stable_element (A := A) "mpadded" (by decide)).setAttribute
    "lspace" "0" (by decide)
  unfold alphabet
  simp only
  split
  · exact everywhere_ite (fun _ => upright) fun _ => stable_row (List.forall_mem_nil _)
  · split
    · exact stable_readInto _ upright _
    · exact stable_readArgument _ _

theorem stable_fixedSpace (width : Int) (t : Token) : (fixedSpace width t).Everywhere A := by
  have space := (stable_element (A := A) "mspace" (by decide)).fromToken t
  exact everywhere_ite (fun _ => space.setAttribute _ _ (by decide))
    fun _ => space.setAttribute _ _ (by decide)

theorem stable_switched {found : Switch} (known : (Command.switch found).Everywhere A)
    (name : String) (c : Context) (q : Queue.Below bound) :
    (switched name found c q).1.Everywhere A := by
  have style := stable_element (A := A) "mstyle" (by decide)
  have read : ∀ {n : Node} (body : Queue.Below bound), n.Everywhere A →
      (readSwitched found c n body).Everywhere A := fun body holds =>
    yields_getD (stable_start (everywhere_some (holds.setAttributes _ known))) stable_default
  unfold switched
  simp only
  split
  · split
    · exact stable_error _ _
    · exact read _ (style.setAttribute "mathcolor" _ (by decide))
  · exact read _ style

theorem stable_structural {found : Command.Structural}
    (known : (Command.structural found).Everywhere A) (t : Token) (c : Context)
    (q : Queue.Below bound) : (structural found t c q).1.Everywhere A := by
  unfold structural
  split
  · exact stable_error _ _
  · simp only
    split
    · exact stable_unary _ _ _ _ _
    · refine stable_binary c (fun name same => known name ?_) _ _
      rw [same]
      exact List.mem_singleton.mpr rfl
    · refine stable_ternary c (fun name same => known name ?_) _ _ _
      rw [same]
      exact List.mem_singleton.mpr rfl
    · exact stable_error _ _

theorem stable_kern (name : String) (q : Queue.Below bound) : (kern name q).1.Everywhere A := by
  unfold kern
  split
  · exact stable_error _ _
  · simp only
    exact Node.stable_space _ _

theorem stable_accent (above : Bool) (glyph : String) (c : Context) (q : Queue.Below bound) :
    (accent above glyph c q).1.Everywhere A := by
  have place : ∀ {base : Node}, base.Everywhere A →
      ((Node.branch (if above then "mover" else "munder") [if base.tag == "mi" then
        base.setAttribute "style" "font-feature-settings: 'dtls' on;" else base,
        stretchy glyph]).setAttribute "accent" "true").Everywhere A := fun {base} holds => by
    have styled := holds.setAttributeIf "style" "font-feature-settings: 'dtls' on;"
      ((base.tag == "mi") = true) (by decide)
    have both := stable_two (if above then "mover" else "munder") styled
      (stable_stretchy glyph) (by split <;> decide)
    exact both.setAttribute _ _ (by decide)
  unfold accent
  simp only
  split
  · exact place (stable_row (List.forall_mem_nil _))
  · exact (stable_readArgument c _).map fun n holds => place holds

theorem stable_unknown (o : Options) (name : String) : (unknown o name).Everywhere A :=
  everywhere_ite (fun _ => stable_leaf _ _ (by decide)) fun _ => stable_error _ _

theorem stable_perform (o : Options) (macros : Macro.Table) {meaning : Command}
    (known : meaning.Everywhere A) (t : Token) (c : Context) (q : Queue.Below bound) :
    (perform o macros meaning t c q).1.Everywhere A := by
  have finished : ∀ plan : Plan bound Node, plan.Everywhere A →
      (Action.build ((·.finish t c) <$> plan)).Everywhere A := fun _ holds =>
    Action.stable_build (holds.map fun _ given => given.finish t c)
  unfold perform
  cases meaning with
  | definition command => exact stable_definition macros command q
  | logo node => exact Action.stable_node known
  | identifier marks => exact Action.stable_node (Node.stable_ofIdentifier known t c)
  | symbol symbol => exact Action.stable_node (Node.stable_ofSymbol known t c)
  | built node => exact Action.stable_node (Node.Everywhere.fromToken known t)
  | alphabet variant => exact Action.stable_build (stable_alphabet t.value variant c q)
  | space width => exact Action.stable_node (stable_fixedSpace width t)
  | switch found => exact Action.stable_build (stable_switched known t.value c q)
  | structural found => exact finished _ (stable_structural known t c q)
  | kern => exact finished (pure (kern t.value q).1) (stable_kern t.value q)
  | accent above glyph => exact finished _ (stable_accent above glyph c q)
  | unknown => exact finished (pure (unknown o t.value)) (stable_unknown o t.value)

theorem stable_command (o : Options) (macros : Macro.Table) (t : Token) (c : Context)
    (q : Queue.Below bound) : (command o macros t c q).1.Everywhere A := by
  unfold command
  split
  case h_1 meaning found =>
    exact stable_perform o macros (Command.stable_fixed? meaning found) t c q
  case h_2 =>
    split
    · trivial
    · exact stable_perform o macros (Command.stable_named t.value) t c q

end Plan

/-! ### Steps -/

namespace Step

theorem stable_cellBreak : cellBreak.Everywhere A :=
  Node.stable_of_bare (.inl rfl) rfl rfl fun _ child => nomatch child

theorem stable_rowBreak : rowBreak.Everywhere A :=
  Node.stable_of_bare (.inl rfl) rfl rfl fun _ child => nomatch child

/-- A spacing is never written, so its name does not matter. -/
theorem stable_spacing (e : Expr) : (spacing e).Everywhere A :=
  Node.Everywhere.setAttribute
    (.node (Stable.hidden _ rfl rfl) (List.forall_mem_nil _)) _ _ (by decide)

theorem stable_endRow (q : Queue.Below bound) : (endRow q).1.Everywhere A := by
  unfold endRow
  split
  · exact List.forall_mem_cons.mpr
      ⟨stable_spacing _, List.forall_mem_singleton.mpr stable_rowBreak⟩
  · exact List.forall_mem_singleton.mpr stable_rowBreak

theorem stable_plain (o : Options) (macros : Macro.Table) (t : Token) (c : Context)
    (q : Queue.Below bound) : (plain o macros t c q).1.Everywhere A := by
  have refusal : ∀ text title, (Action.node ((Node.error text title).fromToken t) :
      Action bound).Everywhere A := fun text title =>
    Action.stable_node ((stable_error text title).fromToken t)
  unfold plain
  simp only
  split
  · trivial
  · split
    · exact refusal _ _
    · split
      · exact refusal _ _
      · split
        · exact fun n given => Node.stable_delimiter given
        · split
          · exact Action.stable_node ((stable_leaf _ _ (by decide)).fromToken t)
          · split
            · exact Plan.stable_command o macros t c q
            · exact Action.stable_node (Node.stable_ofPlain t c)

theorem stable_single (o : Options) (macros : Macro.Table) (t : Token) (c : Context)
    (q : Queue.Below bound) : (single o macros t c q).1.Everywhere A := by
  unfold single
  split
  · exact List.forall_mem_singleton.mpr stable_cellBreak
  · split
    · exact stable_endRow q
    · split
      · trivial
      · exact stable_plain o macros t c q

theorem stable_whitespace (t : Token) (c : Context) :
    (whitespace t c : Action bound).Everywhere A := by
  unfold whitespace
  split
  · exact List.forall_mem_singleton.mpr
      (((stable_element _ (by decide)).setAttribute _ _ (by decide)).fromToken t)
  · trivial

theorem stable_environment (t : Token) (c : Context) (content : List Token)
    (short : content.length < bound.weight) :
    (environment t c content short).EverywhereOption A := by
  have row := stable_element (A := A) "mrow" (by decide)
  refine (Plan.yields_readTokens _ short _ (everywhere_some row)).bind fun n given => ?_
  have content : (n.getD {}).Everywhere A := by
    cases n with
    | none => exact stable_default
    | some n => exact given n rfl
  exact everywhere_some (Environment.stable_frame content _ _)

theorem stable_fenced (opener : Token) (closer : Option Token) (c : Context)
    (content : List Token) (short : content.length < bound.weight) :
    (fenced opener closer c content short).EverywhereOption A := by
  refine (Plan.yields_readTokens content short c everywhere_none).bind fun n given =>
    everywhere_some (stable_row ?_)
  refine List.forall_mem_append.mpr ⟨List.forall_mem_append.mpr ⟨?_, ?_⟩, ?_⟩
  · exact fun m member => Node.stable_delimiter (Option.mem_toList.mp member)
  · exact fun m member => given m (Option.mem_toList.mp member)
  · intro m member
    obtain ⟨t, -, found⟩ := Option.bind_eq_some_iff.mp (Option.mem_toList.mp member)
    exact Node.stable_delimiter found

/-- What is stable holds of all that a step adds. -/
theorem stable_ofExpr (o : Options) (macros : Macro.Table) (c : Context) (e : Expr)
    (rest : Queue) : (ofExpr o macros c e rest).action.Everywhere A := by
  unfold ofExpr
  simp only
  split
  · exact stable_whitespace _ _
  · exact Plan.yields_readTokens _ _ _ everywhere_none
  · exact stable_environment _ _ _ _
  · exact stable_fenced _ _ _ _ _
  · exact stable_single _ _ _ _ _
  · exact stable_single _ _ _ _ _

end Step

end TexFormula
