import TexFormula.Document.Session
import TexFormula.Proofs.Formula.Machine
import TexFormula.Proofs.Token.Preparation

/-! What it takes to read a formula of a document, and what a document is after a formula. What
reading a formula and declaring macros keep is kept in every session (`Invariant.holds_after`). The
states that the machine comes to on the way are all that its last state comes after
(`reaches_of_read`). -/
namespace TexFormula.Document

variable {d after : Document} {source : String} {style : Style} {formula : Node} {e : Error}

/-- A formula is read if its tokens can be prepared and its calls expanded. Then the document only
has other macros. -/
theorem read_eq_ok_iff {n : Node} :
    d.read source style = .ok (n, after) ↔
      ∃ tokens expanded, Token.tokenize source = .ok tokens ∧
        Macro.expand d.macros tokens = .ok expanded ∧
        n = body (Formula.read d.options style.context expanded { macros := d.macros }).1 ∧
        after = { d with
          macros := (Formula.read d.options style.context expanded { macros := d.macros }).2.macros
          } := by
  simp only [read, Token.bind_eq_ok_iff, pure, Except.pure, Except.ok.injEq, Prod.mk.injEq]
  constructor
  · rintro ⟨tokens, prepared, expanded, done, same, rest⟩
    exact ⟨tokens, expanded, prepared, done, same.symm, rest.symm⟩
  · rintro ⟨tokens, expanded, prepared, done, same, rest⟩
    exact ⟨tokens, prepared, expanded, done, same.symm, rest.symm⟩

/-- Giving a formula a number only changes how many equations there are. -/
theorem snd_number (d : Document) (style : Style) (formula : Node) :
    (d.number style formula).2 =
      { d with equations := d.equations + if d.numbers style then 1 else 0 } := by
  unfold number
  split <;> rfl

theorem render_of_error (fails : d.read source style = .error e) :
    d.render source style = (.error e, d) := by
  unfold render
  rw [fails]

theorem render_of_ok (succeeds : d.read source style = .ok (formula, after)) :
    d.render source style =
      (.ok ((whole style (after.annotate source (after.number style formula).1)).toXml
        after.options.pretty), (after.number style formula).2) := by
  unfold render
  rw [succeeds]
  simp only [annotate, snd_number]

theorem renderBody_of_error (fails : d.read source .inlined = .error e) :
    d.renderBody source = (.error e, d) := by
  unfold renderBody
  rw [fails]

theorem renderBody_of_ok (succeeds : d.read source .inlined = .ok (formula, after)) :
    d.renderBody source = (.ok (formula.toXml after.options.pretty), after) := by
  unfold renderBody
  rw [succeeds]

/-- A formula that is rendered without the element around it can be read. -/
theorem exists_read_of_renderBody {xml : String} (rendered : (d.renderBody source).1 = .ok xml) :
    ∃ formula after, d.read source .inlined = .ok (formula, after) ∧
      xml = formula.toXml after.options.pretty := by
  cases outcome : d.read source .inlined with
  | error e =>
    rw [renderBody_of_error outcome] at rendered
    cases rendered
  | ok result =>
    rw [renderBody_of_ok outcome] at rendered
    cases rendered
    exact ⟨result.1, result.2, rfl, rfl⟩

/-! ### Sessions -/

/-- What every operation on a document keeps. -/
structure Invariant (P : Document → Prop) : Prop where
  read : ∀ {d after : Document} {source style formula}, P d →
    d.read source style = .ok (formula, after) → P after
  declare : ∀ {d : Document} declarations, P d → P (d.addMacros declarations)
  setOptions : ∀ {d : Document} options, P d → P { d with options }
  count : ∀ {d : Document} equations, P d → P { d with equations }

namespace Invariant

variable {P : Document → Prop} (invariant : Invariant P)
include invariant

theorem perform (holds : P d) (operation : Operation) : P (d.perform operation).2 := by
  cases operation with
  | render source style =>
    change P (d.render source style).2
    cases result : d.read source style with
    | error e => rw [render_of_error result]; exact holds
    | ok read =>
      rw [render_of_ok result, snd_number]
      exact invariant.count _ (invariant.read holds result)
  | renderBody source =>
    change P (d.renderBody source).2
    cases result : d.read source .inlined with
    | error e => rw [renderBody_of_error result]; exact holds
    | ok read => rw [renderBody_of_ok result]; exact invariant.read holds result
  | addMacros declarations => exact invariant.declare declarations holds
  | setOptions options => exact invariant.setOptions options holds

/-- What every operation keeps is kept in every session. -/
theorem holds_after (holds : P d) (session : List Operation) : P (d.after session) := by
  induction session generalizing d with
  | nil => exact holds
  | cons operation rest ih => exact ih (invariant.perform holds operation)

end Invariant

/-! ### The states of reading a formula -/

section States

open Formula (Machine)

variable {d after : Document} {source : String} {style : Style} {formula : Node}

/-- The state in which the machine starts to read the tokens of a formula. -/
def start (d : Document) (style : Style) (tokens : List Token) : Machine :=
  .start 0 { macros := d.macros } (.start (.ofTokens tokens) style.context none)

/-- Whether the machine comes to a state when it reads a formula of the document. -/
def Reaches (d : Document) (source : String) (style : Style) (m : Machine) : Prop :=
  ∃ tokens expanded, Token.tokenize source = .ok tokens ∧
    Macro.expand d.macros tokens = .ok expanded ∧ Machine.Run d.options (d.start style expanded) m

/-- A formula that is read is the body of what the machine stops with, after all other states. -/
theorem reaches_of_read (succeeds : d.read source style = .ok (formula, after)) :
    ∃ m node, d.Reaches source style m ∧ m.focus = .done node ∧ m.waiting = [] ∧
      formula = body node ∧
      ∀ other, d.Reaches source style other → Machine.Run d.options other m := by
  obtain ⟨tokens, expanded, prepared, found, same, -⟩ := read_eq_ok_iff.mp succeeds
  have does : Machine.Does d.options 0 (.start (.ofTokens expanded) style.context none) _ :=
    Machine.does_readJob _
  have run := does { macros := d.macros } []
  refine ⟨_, _, ⟨tokens, expanded, prepared, found, run⟩, rfl, rfl, same, ?_⟩
  rintro other ⟨tokens', expanded', prepared', found', reached⟩
  cases prepared.symm.trans prepared'
  cases found.symm.trans found'
  exact Machine.run_of_last rfl run reached

/-- A check of the states of reading a formula, if it takes at most a number of steps. -/
def passes (d : Document) (check : Machine → Bool) (source : String) (style : Style)
    (steps : Nat) : Bool :=
  match Token.tokenize source with
  | .error _ => true
  | .ok tokens =>
    match Macro.expand d.macros tokens with
    | .error _ => true
    | .ok expanded => (d.start style expanded).allFor check d.options steps

theorem Reaches.of_passes {check : Machine → Bool} {P : Machine → Prop} {m : Machine} {steps : Nat}
    (reached : d.Reaches source style m) (sound : ∀ m, check m = true → P m)
    (checked : d.passes check source style steps = true) : P m := by
  obtain ⟨tokens, expanded, prepared, found, run⟩ := reached
  unfold passes at checked
  simp only [prepared, found] at checked
  exact Machine.of_allFor sound checked run

end States

end TexFormula.Document
