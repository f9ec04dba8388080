import Mathlib
import TexFormula.Proofs.Document.Reading
import TexFormula.Proofs.Document.Table
import TexFormula.Proofs.Formula.Alike
import TexFormula.Proofs.Macro.Exhaustion

/-! Comments. They are tokens, and every pass over tokens has to pass over them. So the tokens of a
source are read twice, as they are and without the comments among them, and both readings come to
the same formula and to the same macros (`comments_do_not_matter`). Two commands do not pass over
comments: the name of an operator is put together from all tokens of its argument
(`comment_in_operator_name`), and so is the number of arguments of a macro that is defined. -/
namespace TexFormula

/-- Readings of which the second one has only some of the comments of the first one. -/
def Difference.uncommented : Difference where
  comments := True
  macros := True
  holds t := t.kind.Coherent
  lasts := Token.persistent_coherent
  coherent _ _ coherent := coherent
  stored _ := trivial

/-- Readings of the same coherent tokens. -/
def Difference.unchanged : Difference where
  comments := False
  macros := False
  holds t := t.kind.Coherent
  lasts := Token.persistent_coherent
  coherent := False.elim
  stored := False.elim

/-- The tokens of a source without the comments among them. -/
def Token.lexUncommented (source : String) : List Token :=
  (lex source).filter (!·.kind.comment)

/-- Tokens without the comments among them, and without the partners that they have found. -/
def Token.uncommented (tokens : List Token) : List Token :=
  (tokens.filter (!·.kind.comment)).map Token.unpaired

/-- Macros that are the same up to comments in what they store. The partners of stored tokens are of
no account: they are found anew whenever a macro is called. -/
structure Macro.SameUncommented (m m' : Macro) : Prop where
  body : Token.uncommented m.body = Token.uncommented m'.body
  optional : m.optional.map Token.uncommented = m'.optional.map Token.uncommented
  arity : m.arity = m'.arity
  inFormula : m.inFormula = m'.inFormula

namespace Macro

variable {D : Difference} {m m' : Macro}

theorem Alike.sameUncommented (alike : Macro.Alike D m m') : m.SameUncommented m' := by
  have same : ∀ {l l' : List Token}, Thins D False l l' →
      Token.uncommented l = Token.uncommented l' := fun thins =>
    thins.filter_eq (fun _ => rfl) fun t comment => by rw [comment]; rfl
  obtain ⟨body, optional, arity, inFormula⟩ := alike
  refine ⟨same body, ?_, arity, inFormula⟩
  generalize m.optional = preset at optional ⊢
  generalize m'.optional = preset' at optional ⊢
  cases optional with
  | none => rfl
  | some thins => exact congrArg some (same thins)

end Macro

namespace Document

variable {d next : Document} {source : String} {style : Style} {tokens : List Token}

/-- The tree of a formula that is cut into tokens, and the document with the macros that it defines.
-/
def readTokens (d : Document) (tokens : List Token) (style : Style) :
    Except Error (Node × Document) := do
  let prepared ← Token.prepare tokens
  let expanded ← Macro.expand d.macros prepared
  let (node, scope) := Formula.read d.options style.context expanded { macros := d.macros }
  return (body node, { d with macros := scope.macros })

/-- Renders a formula that is cut into tokens, without the element around it. -/
def renderTokens (d : Document) (tokens : List Token) : Except Error String × Document :=
  match d.readTokens tokens .inlined with
  | .error e => (.error e, d)
  | .ok (formula, d) => (.ok (formula.toXml d.options.pretty), d)

/-- A source is rendered as its tokens are. -/
theorem renderBody_eq_renderTokens (d : Document) (source : String) :
    d.renderBody source = d.renderTokens (Token.lex source) :=
  rfl

/-! ### Coherent documents -/

/-- All tokens that a document stores are coherent. -/
def Coherent (d : Document) : Prop :=
  ∀ name m, d.macros.get? name = some m →
    (∀ t ∈ m.body, t.kind.Coherent) ∧ ∀ preset ∈ m.optional, ∀ t ∈ preset, t.kind.Coherent

theorem coherent_declared {sources : List (String × String)} {name : String} {m : Macro}
    (found : (Macro.declareAll sources).get? name = some m) :
    (∀ t ∈ m.body, t.kind.Coherent) ∧ ∀ preset ∈ m.optional, ∀ t ∈ preset, t.kind.Coherent :=
  (Macro.assembled_declareAll sources).coherent name m found
    (Macro.Table.declared_declareAll sources name m found).2

/-- However a document came about, all tokens that it stores are coherent. -/
theorem invariant_coherent : Invariant Coherent where
  read := by
    intro d after source style formula coherent succeeds
    obtain ⟨tokens, expanded, prepared, done, -, rfl⟩ := read_eq_ok_iff.mp succeeds
    have tables : Macro.Table.Alike .unchanged d.macros d.macros :=
      Macro.Table.alike_self fun name m found =>
        Macro.alike_self (coherent name m found).1 (coherent name m found).2
    have aligned : Aligned .unchanged True tokens tokens :=
      .refl (Token.persistent_coherent.prepare (Token.coherent_lex source) prepared)
    have outcome := Macro.alike_expand tables aligned
    rw [done] at outcome
    cases outcome with
    | ok aligned =>
      have start : Scope.Alike .unchanged { macros := d.macros } { macros := d.macros } :=
        ⟨tables, rfl⟩
      obtain ⟨-, scopes⟩ := Formula.alike_read (o := d.options) (c := style.context) rfl aligned
        start False.elim
      intro name m found
      have bound := scopes.macros.related name
        ⟨{ kind := { command := true }, value := name }, ⟨by simp, by simp⟩, rfl, rfl⟩
      rw [show Registry.get? _ name = some m from found] at bound
      cases bound with
      | some alike => exact alike.holds
  declare := by
    intro d declarations coherent name m found
    have kept := (Macro.Table.get?_keepDefined _ d.macros name).symm.trans found
    rw [Option.orElse_eq_some] at kept
    rcases kept with declared | ⟨-, defined⟩
    · exact coherent_declared declared
    · exact coherent name m (Option.filter_eq_some_iff.mp defined).1
  setOptions _ coherent := coherent
  count _ coherent := coherent

theorem coherent_ofMacros (declarations : List (String × String)) (options : Options) :
    (ofMacros declarations options).Coherent :=
  fun _ _ found => coherent_declared found

/-! ### Readings without comments -/

section Uncommented
variable (coherent : d.Coherent)
include coherent

theorem Coherent.alike : Macro.Table.Alike .uncommented d.macros d.macros :=
  Macro.Table.alike_self fun name m found =>
    Macro.alike_self (coherent name m found).1 (coherent name m found).2

/-- A source is read without its comments as it is read with them. -/
theorem Coherent.alike_readTokens (silent : ∀ m, d.Reaches source style m → m.Silent d.options) :
    Outcome .uncommented
      (fun read read' => read.1 = read'.1 ∧ read.2.options = read'.2.options ∧
        Macro.Table.Alike .uncommented read.2.macros read'.2.macros)
      (d.readTokens (Token.lex source) style)
      (d.readTokens (Token.lexUncommented source) style) := by
  have thins : Thins .uncommented True _ _ :=
    thins_lex trivial source (Token.coherent_lex source)
  have start : Scope.Alike .uncommented { macros := d.macros } { macros := d.macros } :=
    ⟨coherent.alike, rfl⟩
  refine thins.prepare.known.bind fun tokens tokens' ⟨prepared, aligned⟩ => ?_
  refine (Macro.alike_expand coherent.alike aligned).known.bind
    fun expanded expanded' ⟨done, aligned⟩ => ?_
  obtain ⟨node, scopes⟩ := Formula.alike_read (o := d.options) (c := style.context) rfl aligned
    start fun _ m reached => silent m ⟨tokens, expanded, prepared, done, reached⟩
  exact .ok ⟨congrArg body node, rfl, scopes.macros⟩

/-- A source is rendered without its comments as it is rendered with them. -/
theorem Coherent.alike_renderTokens
    (silent : ∀ m, d.Reaches source .inlined m → m.Silent d.options) :
    let whole := d.renderTokens (Token.lex source)
    let bare := d.renderTokens (Token.lexUncommented source)
    Outcome .uncommented (· = ·) whole.1 bare.1 ∧
      Macro.Table.Alike .uncommented whole.2.macros bare.2.macros := by
  have read := coherent.alike_readTokens silent
  unfold renderTokens
  dsimp only
  generalize d.readTokens (Token.lex source) .inlined = one at read ⊢
  generalize d.readTokens (Token.lexUncommented source) .inlined = other at read ⊢
  cases read with
  | error e => exact ⟨.error e, coherent.alike⟩
  | mismatched allowed b i x b' i' x' =>
    exact ⟨.mismatched allowed b i x b' i' x', coherent.alike⟩
  | @ok read read' related =>
    obtain ⟨formula, d⟩ := read
    obtain ⟨formula', d'⟩ := read'
    obtain ⟨rfl, options, tables⟩ := related
    refine ⟨.ok ?_, tables⟩
    rw [show d.options = d'.options from options]

end Uncommented

/-- Comments make no difference. A source is rendered as its tokens without the comments are, to the
same text or with the same error, and the macros that are known afterwards are the same up to
comments in what they store; in an error about a bracket without its partner the position can be
another one. This is so for every document that comes of a session and every source, if no command
takes the spelling of a comment for its own, as the name of an operator and the number of arguments
in a definition do, and no call of a macro that a formula has defined fails for such a bracket,
since the error in the formula says where it is. -/
theorem comments_do_not_matter (declarations : List (String × String)) (options : Options)
    (session : List Operation) (source : String)
    (silent : let d := (ofMacros declarations options).after session
      ∀ m, d.Reaches source .inlined m → m.Silent d.options) :
    let d := (ofMacros declarations options).after session
    let bare := d.renderTokens (Token.lexUncommented source)
    Outcome .uncommented (· = ·) (d.renderBody source).1 bare.1 ∧
      ∀ name, Option.Rel Macro.SameUncommented ((d.renderBody source).2.macros.get? name)
        (bare.2.macros.get? name) := by
  intro d bare
  have coherent : d.Coherent :=
    invariant_coherent.holds_after (coherent_ofMacros declarations options) session
  obtain ⟨outcome, tables⟩ := coherent.alike_renderTokens silent
  refine ⟨outcome, fun name => ?_⟩
  have bound := tables.related name
    ⟨{ kind := { command := true }, value := name }, ⟨by simp, by simp⟩, rfl, rfl⟩
  rw [renderBody_eq_renderTokens]
  generalize Registry.get? _ name = found at bound ⊢
  generalize Registry.get? _ name = found' at bound ⊢
  cases bound with
  | none => exact .none
  | some alike => exact .some alike.sameUncommented

set_option maxRecDepth 4096 in
/-- A comment before a subscript and one inside a superscript. -/
theorem comments_do_not_matter_scripts :
    (∀ m, (ofMacros [] {}).Reaches "x%c\n_1^\x7b%d\n2\x7d" .inlined m → m.Silent {}) ∧
      (Token.lex "x%c\n_1^\x7b%d\n2\x7d").countP (·.kind.comment) = 2 ∧
      ((ofMacros [] {}).renderTokens (Token.lexUncommented "x%c\n_1^\x7b%d\n2\x7d")).1 =
        .ok "<mrow><msubsup><mi>x</mi><mn>1</mn><mn>2</mn></msubsup></mrow>" := by
  have checked : (ofMacros [] {}).passes (Formula.Machine.isSilent {}) "x%c\n_1^\x7b%d\n2\x7d"
      .inlined 40 = true := by cbv
  have silent : ∀ m, (ofMacros [] {}).Reaches "x%c\n_1^\x7b%d\n2\x7d" .inlined m →
      m.Silent {} := fun m reached =>
    reached.of_passes (fun _ => Formula.Machine.silent_of_isSilent) checked
  have shown : ((ofMacros [] {}).renderBody "x%c\n_1^\x7b%d\n2\x7d").1 =
      .ok "<mrow><msubsup><mi>x</mi><mn>1</mn><mn>2</mn></msubsup></mrow>" := by cbv
  refine ⟨silent, by cbv, ?_⟩
  have outcome : Outcome .uncommented (· = ·) ((ofMacros [] {}).renderBody _).1
      ((ofMacros [] {}).renderTokens _).1 := (comments_do_not_matter [] {} [] _ silent).1
  rw [shown] at outcome
  generalize ((ofMacros [] {}).renderTokens _).1 = other at outcome ⊢
  cases outcome with
  | ok equal => exact congrArg _ equal.symm

set_option maxRecDepth 4096 in
theorem render_operatorName_commented :
    (({} : Document).renderBody "\\operatorname\x7ba%secret\nb\x7d").1 =
      .ok "<mrow><mi lspace=\"0.11111em\">asecret b</mi></mrow>" := by cbv

set_option maxRecDepth 4096 in
theorem render_operatorName_uncommented :
    (({} : Document).renderTokens (Token.lexUncommented "\\operatorname\x7ba%secret\nb\x7d")).1 =
      .ok "<mrow><mi lspace=\"0.11111em\">a b</mi></mrow>" := by cbv

/-- The name of an operator is put together from all tokens of the argument, with the comments among
them, which then show in the formula. -/
theorem comment_in_operator_name :
    (({} : Document).renderBody "\\operatorname\x7ba%secret\nb\x7d").1 =
        .ok "<mrow><mi lspace=\"0.11111em\">asecret b</mi></mrow>" ∧
      (({} : Document).renderTokens (Token.lexUncommented "\\operatorname\x7ba%secret\nb\x7d")).1 =
        .ok "<mrow><mi lspace=\"0.11111em\">a b</mi></mrow>" :=
  ⟨render_operatorName_commented, render_operatorName_uncommented⟩

end Document

end TexFormula
