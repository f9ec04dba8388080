import TexFormula.Token

/-! Expressions: the units that a formula source is read in. An expression is a single token, or a
run of tokens from a delimiter to its partner, which is read as a whole. -/
namespace TexFormula

/-- The shapes of an expression. -/
inductive Expr.Kind where
  | single
  /-- Plain square brackets and what is between them. -/
  | options
  /-- A pair of fences and what is between them. -/
  | fenced
  /-- Curly braces and what is between them. -/
  | group
  | environment
  | whitespace
deriving DecidableEq, Repr, Inhabited

/-- An expression. It has at least one token, and the delimiters are among its tokens. -/
structure Expr where
  kind : Expr.Kind
  first : Token
  rest : List Token
deriving DecidableEq, Repr, Inhabited

namespace Expr

/-- All tokens of an expression. -/
def tokens (e : Expr) : List Token :=
  e.first :: e.rest

/-- Whether the expression has delimiters around its content. -/
def isComposite (e : Expr) : Bool :=
  match e.kind with
  | .single | .whitespace => false
  | _ => true

/-- The closing delimiter, if the expression has one. -/
def closer? (e : Expr) : Option Token :=
  if e.isComposite then e.tokens.getLast? else none

/-- The tokens between the delimiters. An expression without delimiters is its own content. -/
def inner (e : Expr) : List Token :=
  if e.isComposite then e.rest.dropLast else e.tokens

/-- The tokens that the expression stands for as an argument: braces and square brackets around an
argument do not belong to it, and fences and environments do. -/
def argument (e : Expr) : List Token :=
  match e.kind with
  | .group | .options => e.inner
  | _ => e.tokens

/-- Whether the expression is whitespace or a comment. -/
def isWhitespace (e : Expr) : Bool :=
  e.kind == .whitespace

/-- Whether the expression ends a cell or a row. -/
def isBreak (e : Expr) : Bool :=
  e.kind == .single && (e.first.isCellBreak || e.first.isRowBreak)

/-- The content of an expression is no longer than the expression. -/
theorem inner_length_le (e : Expr) : e.inner.length ≤ e.tokens.length := by
  unfold inner
  split
  · simp only [List.length_dropLast, tokens, List.length_cons]
    omega
  · exact Nat.le_refl _

/-- The content of a composite expression is shorter than the expression. -/
theorem inner_length_lt (e : Expr) (composite : e.isComposite = true) :
    e.inner.length < e.tokens.length := by
  simp only [inner, composite, if_true, List.length_dropLast, tokens, List.length_cons]
  omega

/-- An argument is no longer than the expression it is taken from. -/
theorem argument_length_le (e : Expr) : e.argument.length ≤ e.tokens.length := by
  unfold argument
  split
  · exact inner_length_le e
  · exact inner_length_le e
  · exact Nat.le_refl _

end Expr

end TexFormula
