import TexFormula.Proofs.Document.Reading
import TexFormula.Proofs.Formula.Alike

/-! Styles. A formula is the same in every style: what is asked for of the style, the size and the
place of a formula is handed down while it is read, and nothing is ever made of it. So a formula is
rendered in a style as it is without the element around it, in an element that the style alone
decides (`render_frames_body`). -/
namespace TexFormula

/-- The tag before a formula of a style. -/
def Style.openTag (s : Style) : String :=
  ((Node.element "math").setAttributes s.attributes).openTag

namespace Formula

/-- Tokens are read into the same node, and the same macros are left, in contexts that agree in what
is used of them. -/
theorem readJob_start_eq {c c' : Context} (same : c.plain = c'.plain) (o : Options) (depth : Nat)
    (tokens : List Token) (parent : Option Node) (s : Scope) :
    readJob o depth (.start (.ofTokens tokens) c parent) s =
      readJob o depth (.start (.ofTokens tokens) c' parent) s := by
  have aligned : Aligned .nothing True tokens tokens := .refl fun _ _ => trivial
  obtain ⟨node, scopes⟩ := alike_readJob depth (Job.alike_start aligned.queue same parent)
    (Scope.alike_self s) (o := o) False.elim
  exact Prod.ext node scopes.eq

end Formula

namespace Document

variable {d : Document} {source : String} {style : Style}

/-- A formula is read in every style as in any other. -/
theorem read_eq (d : Document) (source : String) (style style' : Style) :
    d.read source style = d.read source style' := by
  have plain : style.context.plain = style'.context.plain := by
    cases style <;> cases style' <;> rfl
  have same : ∀ tokens s, Formula.read d.options style.context tokens s =
      Formula.read d.options style'.context tokens s :=
    fun tokens s => Formula.readJob_start_eq plain d.options 0 tokens none s
  unfold Document.read
  simp only [same]

theorem render_whole (style : Style) (content : Node) :
    (whole style content).render = style.openTag ++ content.render ++ "</math>" := by
  have opened : (whole style content).openTag = style.openTag := by cases style <;> rfl
  have shape : ∃ n : Node, whole style content = n ∧ n.tag = "math" ∧ n.children = [content] ∧
      n.marks.hidden = false := ⟨_, rfl, by cases style <;> exact ⟨rfl, rfl, rfl⟩⟩
  obtain ⟨n, same, tag, children, shown⟩ := shape
  rw [same] at opened ⊢
  have written : n.isWritten = true := by simp [Node.isWritten, tag, shown]
  have closed : n.closeTag = "</math>" := by rw [Node.closeTag, tag]; rfl
  rw [← opened, ← closed]
  obtain ⟨name, text, attributes, css, marks, inside, option, links⟩ := n
  cases tag
  cases children
  rw [Node.render, if_pos written, if_neg (by decide), if_neg (by simp), Node.renderAll,
    Node.renderAll, String.append_empty]

/-- The style never changes a formula. Where no source and no number come beside it, and all is
written on one line, what a formula is rendered as is the tag of the style, what it is rendered as
without the element around it, and the closing tag; or both fail with the same error. Both leave the
same document. The reason is that whatever is read inside a formula, at any depth of calls, is read
into the same node and leaves the same macros and the same count of calls, whether or not its
context is at the root, in brackets, in some style or in some size. -/
theorem render_frames_body (d : Document) (source : String) (style : Style)
    (bare : d.options.annotate = false) (compact : d.options.pretty = false)
    (unnumbered : d.numbers style = false) :
    (d.render source style).1 =
        (d.renderBody source).1.map (fun body => style.openTag ++ body ++ "</math>") ∧
      (d.render source style).2 = (d.renderBody source).2 ∧
      ∀ (o : Options) (depth : Nat) (tokens : List Token) (c : Context) (parent : Option Node)
        (s : Scope) (root bracketed : Bool) (styles : StyleMarks) (size : Fin 16),
        Formula.readJob o depth
            (.start (.ofTokens tokens) { c with root, bracketed, styles, size } parent) s =
          Formula.readJob o depth (.start (.ofTokens tokens) c parent) s := by
  have agrees : ∀ (c : Context) root bracketed styles size,
      ({ c with root, bracketed, styles, size } : Context).plain = c.plain :=
    fun _ _ _ _ _ => rfl
  have inside := fun o depth tokens c parent s root bracketed styles size =>
    Formula.readJob_start_eq (agrees c root bracketed styles size) o depth tokens parent s
  have same := d.read_eq source style .inlined
  cases result : d.read source .inlined with
  | error e =>
    have failed := same.trans result
    rw [render_of_error failed, renderBody_of_error result]
    exact ⟨rfl, rfl, inside⟩
  | ok read =>
    obtain ⟨formula, after⟩ := read
    have options : after.options = d.options := by
      obtain ⟨_, _, _, _, _, rfl⟩ := read_eq_ok_iff.mp result
      rfl
    have uncounted : after.numbers style = false := by rw [numbers, options]; exact unnumbered
    rw [render_of_ok (same.trans result), renderBody_of_ok result]
    refine ⟨?_, ?_, inside⟩
    · simp only [number, annotate, options, bare, uncounted, compact, Node.toXml, Except.map]
      exact congrArg Except.ok (render_whole style formula)
    · rw [snd_number, uncounted]
      rfl

/-- A document in which formulas are written without their sources. -/
def bareDocument : Document :=
  ofMacros [] { annotate := false }

/-- A formula that defines a macro and calls it behind a switch of the style, in an environment. -/
def switchedSource : String :=
  "\\def\\a\x7bx\x7d\\begin\x7bmatrix\x7d\\displaystyle\\a\\end\x7bmatrix\x7d"

/-- Its tokens. -/
def switchedTokens : List Token :=
  let command (value : String) : Token := { kind := { command := true }, value }
  [command "def", command "a",
    { kind := { curly := true, opens := true }, value := "\x7b", offset := 2 },
    { kind := { letter := true }, value := "x" },
    { kind := { curly := true, closes := true }, value := "\x7d", offset := -2 },
    { kind := { env := true, opens := true }, value := "matrix", offset := 3 },
    command "displaystyle", command "a",
    { kind := { env := true, closes := true }, value := "matrix", offset := -3 }]

theorem tokenize_switchedSource : Token.tokenize switchedSource = .ok switchedTokens := by
  cbv

set_option maxRecDepth 4096 in
theorem expand_switchedTokens :
    Macro.expand bareDocument.macros switchedTokens = .ok switchedTokens := by
  cbv

/-- What the formula is read into. -/
def switchedFormula : Node × Scope :=
  (Formula.read bareDocument.options Style.inlined.context switchedTokens
    { macros := bareDocument.macros }).map body id

set_option maxRecDepth 4096 in
theorem render_switchedFormula :
    switchedFormula.1.render =
      "<mrow><mtable columnalign=\"center\" rowalign=\"center\"><mtr><mtd>" ++
        "<mstyle displaystyle=\"true\" scriptlevel=\"0\"><mi>x</mi></mstyle>" ++
        "</mtd></mtr></mtable></mrow>" := by
  cbv

/-- The style that a formula is in and the one that it switches to are not the same, and a call in
an environment is read in both. -/
theorem render_frames_body_switched :
    bareDocument.options.annotate = false ∧ bareDocument.options.pretty = false ∧
      bareDocument.numbers .display = false ∧
      (bareDocument.render switchedSource .display).1 = .ok (Style.display.openTag ++
        ("<mrow><mtable columnalign=\"center\" rowalign=\"center\"><mtr><mtd>" ++
          "<mstyle displaystyle=\"true\" scriptlevel=\"0\"><mi>x</mi></mstyle>" ++
          "</mtd></mtr></mtable></mrow>") ++ "</math>") := by
  refine ⟨rfl, rfl, rfl, ?_⟩
  have read : bareDocument.read switchedSource .inlined =
      .ok (switchedFormula.1, { bareDocument with macros := switchedFormula.2.macros }) :=
    read_eq_ok_iff.mpr
      ⟨_, _, tokenize_switchedSource, expand_switchedTokens, rfl, rfl⟩
  rw [(render_frames_body bareDocument switchedSource .display rfl rfl rfl).1,
    renderBody_of_ok read, ← render_switchedFormula]
  rfl

end Document

end TexFormula
