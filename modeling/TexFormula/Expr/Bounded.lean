import TexFormula.Expr.Queue

/-! Queues and expressions with a bound on their weight. What is read behind an expression, and
every argument taken from there, weighs less than the queue that the expression was taken from. That
queue goes along in the type as a bound, so that reading an argument is known to come to an end. -/
namespace TexFormula

/-- A queue that weighs less than `bound`. -/
abbrev Queue.Below (bound : Queue) := { q : Queue // q.weight < bound.weight }

/-- An expression that alone weighs less than `bound`. -/
abbrev Expr.Below (bound : Queue) := { e : Expr // e.tokens.length < bound.weight }

theorem Expr.Below.argument_length_lt {bound : Queue} (e : Expr.Below bound) :
    e.val.argument.length < bound.weight :=
  Nat.lt_of_le_of_lt e.val.argument_length_le e.property

namespace Queue.Below

variable {bound : Queue}

/-- What an operation takes from a queue and what it leaves, if both weigh no more than the queue.
-/
def split (taken : Option Expr) (rest : Queue)
    (fits : (taken.elim 0 fun e => e.tokens.length) + rest.weight < bound.weight) :
    Option (Expr.Below bound) × Queue.Below bound :=
  match taken, fits with
  | none, fits => (none, ⟨rest, by simpa using fits⟩)
  | some e, fits =>
    (some ⟨e, Nat.lt_of_le_of_lt (Nat.le_add_right _ _) fits⟩,
      ⟨rest, Nat.lt_of_le_of_lt (Nat.le_add_left _ _) fits⟩)

/-- The next expression that is not whitespace. -/
def popArgument (q : Queue.Below bound) : Option (Expr.Below bound) × Queue.Below bound :=
  split q.val.popArgument.1 q.val.popArgument.2
    (Nat.lt_of_le_of_lt (Queue.weight_popArgument q.val) q.property)

theorem snd_split (taken : Option Expr) (rest : Queue)
    (fits : (taken.elim 0 fun e => e.tokens.length) + rest.weight < bound.weight) :
    (split taken rest fits).2.val = rest := by
  cases taken <;> rfl

theorem fst_split (taken : Option Expr) (rest : Queue)
    (fits : (taken.elim 0 fun e => e.tokens.length) + rest.weight < bound.weight) :
    (split taken rest fits).1.map Subtype.val = taken := by
  cases taken <;> rfl

/-- Taking an argument adds nothing to the queue. -/
theorem weight_popArgument_le (q : Queue.Below bound) :
    q.popArgument.2.val.weight ≤ q.val.weight := by
  rw [popArgument, snd_split]
  exact Nat.le_trans (Nat.le_add_left _ _) (Queue.weight_popArgument q.val)

/-- Taking an argument takes a token. -/
theorem weight_popArgument_lt {q : Queue.Below bound} {e : Expr.Below bound}
    (taken : q.popArgument.1 = some e) : q.popArgument.2.val.weight < q.val.weight := by
  have popped := Queue.weight_popArgument q.val
  have same : q.val.popArgument.1 = some e.val := by
    rw [← @fst_split bound q.val.popArgument.1 q.val.popArgument.2
      (Nat.lt_of_le_of_lt (Queue.weight_popArgument q.val) q.property)]
    exact congrArg (Option.map Subtype.val) taken
  rw [same, Option.elim_some, Expr.tokens, List.length_cons] at popped
  rw [popArgument, snd_split]
  omega

/-- The next expression that is not whitespace, if it is in square brackets. -/
def popOptions (q : Queue.Below bound) : Option (Expr.Below bound) × Queue.Below bound :=
  split q.val.popOptions.1 q.val.popOptions.2
    (Nat.lt_of_le_of_lt (Queue.weight_popOptions q.val) q.property)

/-- The argument of a command: the next expression that is not whitespace, unless it ends a cell or
row. -/
def takeArgument (q : Queue.Below bound) : Option (Expr.Below bound) × Queue.Below bound :=
  match q.val.peekArgument? with
  | none => (none, q)
  | some e => if e.isBreak then (none, q) else q.popArgument

/-- Up to `count` arguments of a command. -/
def takeArguments (count : Nat) (q : Queue.Below bound) :
    List (Expr.Below bound) × Queue.Below bound :=
  match count with
  | 0 => ([], q)
  | count + 1 =>
    match q.takeArgument with
    | (none, rest) => ([], rest)
    | (some e, rest) =>
      let more := takeArguments count rest
      (e :: more.1, more.2)

/-- The expressions up to the end of the cell or row, and the queue from there on. -/
def splitAtBreak (q : Queue.Below bound) : Queue.Below bound × Queue.Below bound :=
  have both := Queue.weight_splitAtBreak q.val
  (⟨q.val.splitAtBreak.1, by have := q.property; omega⟩,
    ⟨q.val.splitAtBreak.2, by have := q.property; omega⟩)

/-- The expressions of a token list. -/
def ofTokens (tokens : List Token) (short : tokens.length < bound.weight) : Queue.Below bound :=
  ⟨Queue.ofTokens tokens, by rw [Queue.weight_ofTokens]; exact short⟩

end Queue.Below

end TexFormula
