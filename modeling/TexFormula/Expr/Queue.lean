import TexFormula.Expr

/-! Queues of expressions. A source is cut into expressions once, and these are then taken from the
front one after the other. The weight of a queue, the number of tokens in it, says how much is left
to read: everything taken from a queue is paid for by its weight. -/
namespace TexFormula

/-- Expressions that wait to be read, the next one first. -/
abbrev Queue := List Expr

namespace Queue

/-- The number of tokens in a queue. -/
def weight : Queue → Nat
  | [] => 0
  | e :: rest => e.tokens.length + weight rest

@[simp] theorem weight_nil : weight [] = 0 := rfl

@[simp] theorem weight_cons (e : Expr) (q : Queue) :
    weight (e :: q) = e.tokens.length + weight q := rfl

@[simp] theorem weight_append (p q : Queue) : weight (p ++ q) = weight p + weight q := by
  induction p with
  | nil => simp
  | cons e p ih => simp only [List.cons_append, weight_cons, ih]; omega

/-- The shape of the expression that a token opens, if its partner closes it. Parentheses and sized
brackets that are no fences open none. -/
def compositeKind? (t : Token) : Option Expr.Kind :=
  if t.kind.curly then some .group
  else if t.kind.env then some .environment
  else if t.kind.fence then some .fenced
  else if t.value == "[" && !t.kind.escaped then some .options
  else none

/-- The shape and the number of further tokens of the expression that a token opens in front of the
tokens in `rest`. -/
def composite? (t : Token) (rest : List Token) : Option (Expr.Kind × Nat) :=
  if 0 < t.offset ∧ t.offset ≤ rest.length then
    (compositeKind? t).map fun kind => (kind, t.offset.toNat)
  else none

/-- The expressions of a token list. -/
def ofTokens : List Token → Queue
  | [] => []
  | t :: rest =>
    if t.isBlank then ⟨.whitespace, t, []⟩ :: ofTokens rest
    else match composite? t rest with
      | some (kind, n) => ⟨kind, t, rest.take n⟩ :: ofTokens (rest.drop n)
      | none => ⟨.single, t, []⟩ :: ofTokens rest
termination_by tokens => tokens.length
decreasing_by all_goals simp only [List.length_cons, List.length_drop]; omega

/-- The first expression that does not satisfy `p`, and the queue behind it. -/
def popWhile (p : Expr → Bool) : Queue → Option Expr × Queue
  | [] => (none, [])
  | e :: rest => if p e then popWhile p rest else (some e, rest)

/-- The next expression that is not whitespace, and the queue behind it. -/
def popArgument (q : Queue) : Option Expr × Queue :=
  q.popWhile Expr.isWhitespace

/-- The next expression that is not whitespace. -/
def peekArgument? (q : Queue) : Option Expr :=
  q.find? (!·.isWhitespace)

/-- The next expression that is not whitespace, if that is in square brackets, and the queue behind
it. Otherwise the queue stays as it is. -/
def popOptions (q : Queue) : Option Expr × Queue :=
  match q.popArgument with
  | (some e, rest) => if e.kind = .options then (some e, rest) else (none, q)
  | (none, _) => (none, q)

/-- The expressions before the first end of a cell or row, and the queue from there on. -/
def splitAtBreak (q : Queue) : Queue × Queue :=
  (q.takeWhile (!·.isBreak), q.dropWhile (!·.isBreak))

/-- The queue with the expressions of a token list in front of it. -/
def splice (tokens : List Token) (q : Queue) : Queue :=
  ofTokens tokens ++ q

/-- No token is lost or doubled by cutting a list into expressions. -/
theorem weight_ofTokens (tokens : List Token) : weight (ofTokens tokens) = tokens.length := by
  fun_induction ofTokens tokens with
  | case1 => rfl
  | case2 t rest blank ih => simp [ih, Expr.tokens]; omega
  | case3 t rest blank kind n composite ih =>
    have inside : n ≤ rest.length := by
      unfold composite? at composite
      split at composite
      case isTrue within =>
        simp only [Option.map_eq_some_iff, Prod.mk.injEq] at composite
        omega
      case isFalse => simp at composite
    simp only [weight_cons, ih, Expr.tokens, List.length_cons, List.length_take, List.length_drop]
    omega
  | case4 t rest blank composite ih => simp [ih, Expr.tokens]; omega

/-- What is taken from a queue and what remains weigh no more than the queue. -/
theorem weight_popWhile (p : Expr → Bool) (q : Queue) :
    ((q.popWhile p).1.elim 0 fun e => e.tokens.length) + (q.popWhile p).2.weight ≤ q.weight := by
  induction q with
  | nil => simp [popWhile]
  | cons e rest ih =>
    simp only [popWhile, weight_cons]
    split
    · omega
    · simp

theorem weight_popArgument (q : Queue) :
    (q.popArgument.1.elim 0 fun e => e.tokens.length) + q.popArgument.2.weight ≤ q.weight :=
  weight_popWhile _ q

theorem weight_popOptions (q : Queue) :
    (q.popOptions.1.elim 0 fun e => e.tokens.length) + q.popOptions.2.weight ≤ q.weight := by
  have popped := weight_popArgument q
  unfold popOptions
  split
  case h_1 e rest taken =>
    rw [taken] at popped
    split
    · exact popped
    · simp
  case h_2 => simp

/-- A split queue weighs as much as its two parts. -/
theorem weight_splitAtBreak (q : Queue) :
    q.splitAtBreak.1.weight + q.splitAtBreak.2.weight = q.weight := by
  rw [← weight_append, splitAtBreak, List.takeWhile_append_dropWhile]

/-- A queue weighs less than it did with an expression in front. -/
theorem weight_lt_cons (e : Expr) (q : Queue) : q.weight < weight (e :: q) := by
  simp only [weight_cons, Expr.tokens, List.length_cons]
  omega

/-- A queue weighs less with the rest of an expression in front than with the expression. -/
theorem weight_splice_rest_lt (e : Expr) (q : Queue) :
    (splice e.rest q).weight < weight (e :: q) := by
  simp only [splice, weight_append, weight_ofTokens, weight_cons, Expr.tokens, List.length_cons]
  omega

/-- The content of a composite expression is shorter than a queue with the expression in front. -/
theorem inner_length_lt_weight (e : Expr) (q : Queue) (composite : e.isComposite = true) :
    e.inner.length < weight (e :: q) :=
  Nat.lt_of_lt_of_le (e.inner_length_lt composite) (Nat.le_add_right _ _)

end Queue

end TexFormula
