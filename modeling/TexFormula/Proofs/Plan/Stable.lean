import TexFormula.Plan.Step
import TexFormula.Proofs.Plan.Yields
import TexFormula.Proofs.Table.Stable

/-! Commands keep what is stable of the nodes that they are given. The texts of their arguments
become texts of nodes or values of attributes and nothing else. -/
namespace TexFormula

open Node (Stable stable_element stable_leaf stable_branch stable_one stable_two stable_row
  stable_error everywhere_none everywhere_some stable_default attributeNames)

variable {A : Node → Prop}

/-- A job that reads into a node with a property everywhere, if it reads into a node. -/
def Job.Everywhere (A : Node → Prop) (job : Job) : Prop :=
  ∀ parent ∈ job.parent, parent.Everywhere A

/-- A plan that gives a node with a property everywhere if all its jobs do. -/
def Plan.Everywhere {bound : Queue} (A : Node → Prop) (plan : Plan bound Node) : Prop :=
  plan.Yields (Job.Everywhere A) (Node.Everywhere A) (Node.Everywhere A)

namespace Plan

variable {bound : Queue}

/-! ### Reading arguments -/

theorem stable_start {queue : Queue} {c : Context} {parent : Option Node}
    (holds : ∀ n ∈ parent, n.Everywhere A) : (Job.start queue c parent).Everywhere A := by
  unfold Job.Everywhere
  rw [parent_start]
  exact holds

theorem yields_readTokens (tokens : List Token) (short : tokens.length < bound.weight)
    (c : Context) {parent : Option Node} (holds : ∀ n ∈ parent, n.Everywhere A) :
    (readTokens tokens short c parent).Yields (Job.Everywhere A) (Node.Everywhere A)
      fun node => ∀ n ∈ node, n.Everywhere A :=
  yields_readQueue (stable_start holds)

variable [Stable A]

theorem stable_readArgument (c : Context) (e : Expr.Below bound) :
    (readArgument c e).Everywhere A :=
  yields_getD (stable_start everywhere_none) (stable_row (List.forall_mem_nil _))

theorem stable_readInto (c : Context) {parent : Node} (holds : parent.Everywhere A)
    (e : Expr.Below bound) : (readInto c parent e).Everywhere A :=
  yields_getD (stable_start (everywhere_some holds)) stable_default

/-! ### Commands with a fixed number of arguments -/

theorem stable_stretchy (text : String) : (stretchy text).Everywhere A :=
  (stable_leaf _ text (by decide)).setAttribute _ _ (by decide)

theorem stable_negation (c : Context) (e : Expr.Below bound) : (negation c e).Everywhere A := by
  unfold negation
  split
  · exact stable_error _ _
  case h_2 t single =>
    unfold negated
    exact stable_leaf _ _ (by split <;> decide)
  · have struck := (stable_element (A := A) "menclose" (by decide)).setAttribute
      "notation" Command.Strike.up.name (by decide)
    exact stable_readInto c struck e

theorem stable_modulus (parenthesized : Bool) {argument : Node} (holds : argument.Everywhere A) :
    (modulus parenthesized argument).Everywhere A := by
  have space : ∀ width, ((Node.element "mspace").setAttribute "width" width).Everywhere A :=
    fun width => (stable_element _ (by decide)).setAttribute _ width (by decide)
  have operator : ∀ text, (Node.leaf "mo" text).Everywhere A := fun text =>
    stable_leaf _ text (by decide)
  have name := (operator "mod").setAttribute "lspace" "0" (by decide)
  unfold modulus
  refine Node.everywhere_ite (fun _ => stable_row ?_) fun _ => stable_row ?_
  · simp only [List.forall_mem_cons]
    exact ⟨space _, operator _, name, holds, operator _, List.forall_mem_nil _⟩
  · simp only [List.forall_mem_cons]
    exact ⟨space _, operator _, holds, List.forall_mem_nil _⟩

theorem stable_unary (command : Command.Unary) (t : Token) (c : Context)
    (optional : Option (Expr.Below bound)) (e : Expr.Below bound) :
    (unary command t c optional e).Everywhere A := by
  have argument := stable_readArgument (A := A) c e
  cases command with
  | strike strike =>
    exact stable_readInto c ((stable_element _ (by decide)).setAttribute _ _ (by decide)) e
  | box text =>
    exact stable_readInto _ ((stable_element _ (by decide)).setAttribute _ _ (by decide)) e
  | phantom => exact stable_readInto c (stable_element _ (by decide)) e
  | operator => exact ((stable_leaf _ _ (by decide)).setAttribute _ _ (by decide)).mark rfl
  | functionName =>
    have name := (stable_leaf (A := A) "mi" (functionText e.val) (by decide)).setAttribute
      "lspace" "0.11111em" (by decide)
    exact Node.everywhere_ite (fun _ => name.mark rfl) fun _ => name
  | modulus parenthesized =>
    exact argument.map fun n holds => stable_modulus parenthesized holds
  | lines =>
    refine (stable_readInto _ (stable_element _ (by decide)) e).bind fun n holds => ?_
    exact (Table.stable_ofRow holds).setAttributes _ (by decide)
  | brace above =>
    refine argument.bind fun n holds => ?_
    exact (stable_two _ holds (stable_stretchy _) (by split <;> decide)).mark rfl
  | negation => exact stable_negation c e
  | radical =>
    refine argument.bind fun radicand holds => ?_
    cases optional with
    | none => exact stable_one _ holds (by decide)
    | some index =>
      exact (stable_readArgument c index).bind fun n other =>
        stable_two _ holds other (by decide)
  | text => exact stable_leaf _ _ (by decide)
  | textAlphabet variant => exact stable_readArgument _ e
  | arrow toRight =>
    have arrow := stable_stretchy (A := A) (if toRight then "→" else "←")
    refine argument.bind fun above holds => ?_
    cases optional with
    | none => exact stable_two _ arrow holds (by decide)
    | some label =>
      refine (stable_readArgument c label).bind fun n other => ?_
      refine stable_branch _ ?_ (by decide)
      simp only [List.forall_mem_cons]
      exact ⟨arrow, other, holds, List.forall_mem_nil _⟩
  | space => exact Node.stable_space _ _

/-- A command whose arguments become values of attributes names an attribute of the vocabulary. -/
theorem stable_binary {command : Command.Binary} (c : Context)
    (known : ∀ name, command = .decoration name → name ∈ attributeNames)
    (first second : Expr.Below bound) : (binary command c first second).Everywhere A := by
  have one := stable_readArgument (A := A) c first
  have other := stable_readArgument (A := A) c second
  cases command with
  | fraction fraction =>
    refine one.bind fun upper above => other.bind fun lower below => ?_
    exact Node.stable_fraction fraction above below
  | decoration name =>
    exact other.bind fun n holds => Node.Everywhere.setAttribute holds _ _ (known name rfl)
  | stack above =>
    refine other.bind fun base holds => one.bind fun script onTop => ?_
    have stretched := Node.Everywhere.setAttributeIf holds "stretchy" "true"
      ((base.tag == "mo") = true) (by decide)
    exact stable_row (List.forall_mem_singleton.mpr
      (stable_two _ stretched onTop (by split <;> decide)))
  | raise =>
    have raised := (stable_element (A := A) "mpadded" (by decide)).setAttribute
      "voffset" (argumentText first.val) (by decide)
    exact stable_readInto c raised second

/-! ### Commands with three arguments -/

theorem stable_none : (Node.element "none").Everywhere A :=
  stable_element _ (by decide)

theorem yields_readSide (c : Context) (e : Expr.Below bound) :
    (readSide c e).Yields (Job.Everywhere A) (Node.Everywhere A)
      fun nodes => ∀ n ∈ nodes, n.Everywhere A :=
  yields_iff_delivers.mpr (delivers_readSide stable_none
    (fun e => yields_iff_delivers.mp (stable_readArgument c e)) e)

theorem stable_ternary {command : Command.Ternary} (c : Context)
    (known : ∀ name, command = .span name → name ∈ attributeNames)
    (first second third : Expr.Below bound) :
    (ternary command c first second third).Everywhere A := by
  have base := stable_readArgument (A := A) c third
  cases command with
  | span name =>
    exact base.bind fun n holds => Node.Everywhere.setAttribute holds _ _ (known name rfl)
  | prescript =>
    refine base.bind fun base holds => ?_
    refine (stable_readArgument c second).bind fun sub below => ?_
    refine (stable_readArgument c first).bind fun sup above => ?_
    refine stable_branch _ ?_ (by decide)
    simp only [List.forall_mem_cons]
    exact ⟨holds, stable_none, stable_none, stable_element _ (by decide), below, above,
      List.forall_mem_nil _⟩
  | sideset =>
    refine base.bind fun base holds => ?_
    refine (yields_readSide c second).bind fun right onRight => ?_
    refine (yields_readSide c first).bind fun left onLeft => ?_
    have nodes : ∀ n ∈ base :: right ++ .element "mprescripts" :: left, n.Everywhere A :=
      List.forall_mem_cons.mpr ⟨holds, List.forall_mem_append.mpr
        ⟨onRight, List.forall_mem_cons.mpr ⟨stable_element _ (by decide), onLeft⟩⟩⟩
    exact (stable_branch _ nodes (by decide)).mark rfl

end Plan

end TexFormula
