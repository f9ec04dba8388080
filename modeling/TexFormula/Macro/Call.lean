import TexFormula.Decimal
import TexFormula.Error
import TexFormula.Expr.Queue
import TexFormula.Macro

/-! Calls of macros: taking the arguments that follow a call, and putting them into the body. -/
namespace TexFormula.Macro

/-- Whether an expression is a closing delimiter whose partner stands before it. Such a delimiter is
no argument. -/
def closesOutside (e : Expr) : Bool :=
  e.kind == .single && e.first.kind.closes && e.first.offset != 0

/-- Takes up to `n` arguments off a queue. Where the queue ends or a delimiter closes around the
call there are fewer. -/
def takeArguments : Nat → Queue → List (List Token) × Queue
  | 0, q => ([], q)
  | n + 1, q =>
    match q.popArgument with
    | (none, rest) => ([], rest)
    | (some e, rest) =>
      if closesOutside e then ([], rest)
      else
        let more := takeArguments n rest
        (e.argument :: more.1, more.2)

/-- The optional argument of a call, if the macro has one, and the queue behind it. -/
def takeOptional (m : Macro) (q : Queue) : List (List Token) × Queue :=
  match m.optional with
  | none => ([], q)
  | some preset =>
    if m.arity = 0 then ([], q)
    else match q.popOptions with
      | (some e, rest) => ([e.inner], rest)
      | (none, rest) => ([preset], rest)

/-- The arguments of a call and the queue behind them. -/
def collectArguments (name : String) (m : Macro) (q : Queue) :
    Except Error (List (List Token)) × Queue :=
  let first := m.takeOptional q
  let others := takeArguments (m.arity - first.1.length) first.2
  let arguments := first.1 ++ others.1
  if arguments.length < m.arity then
    (.error (.argumentCount name m.arity arguments.length), others.2)
  else (.ok arguments, others.2)

/-- The tokens that a token of a body becomes in a call with the given arguments. A placeholder
without an argument stays. The result has no pairs, for they are found anew where it is put. -/
def substituteToken (name : String) (arguments : List (List Token)) (t : Token) :
    Except Error (List Token) :=
  if t.kind.argument then
    match Decimal.readCount? t.value with
    | none => .error (.failedExpansion name (.badReference t.value))
    | some 0 => .ok [t.unpaired]
    | some (k + 1) =>
      match arguments[k]? with
      | some tokens => .ok (tokens.map Token.unpaired)
      | none => .ok [t.unpaired]
  else .ok [t.unpaired]

/-- The body with the arguments in place of the placeholders. -/
def substitute (name : String) (arguments : List (List Token)) :
    List Token → Except Error (List Token)
  | [] => .ok []
  | t :: rest => do
    let here ← substituteToken name arguments t
    let others ← substitute name arguments rest
    return here ++ others

/-- What a call with the given arguments stands for. -/
def expandCall (name : String) (m : Macro) (arguments : List (List Token)) :
    Except Error (List Token) :=
  substitute name arguments m.body

theorem weight_takeArguments (n : Nat) (q : Queue) :
    (takeArguments n q).2.weight ≤ q.weight := by
  induction n generalizing q with
  | zero => exact Nat.le_refl _
  | succ n ih =>
    have popped := q.weight_popArgument
    unfold takeArguments
    split
    case h_1 rest taken => rw [taken] at popped; simpa using popped
    case h_2 e rest taken =>
      rw [taken] at popped
      simp only [Option.elim_some] at popped
      split
      · exact Nat.le_trans (Nat.le_add_left _ _) popped
      · have := ih rest
        simp only
        omega

theorem weight_takeOptional (m : Macro) (q : Queue) : (m.takeOptional q).2.weight ≤ q.weight := by
  have popped := q.weight_popOptions
  unfold takeOptional
  split
  · exact Nat.le_refl _
  · split
    · exact Nat.le_refl _
    · split
      case h_1 e rest taken =>
        rw [taken] at popped
        exact Nat.le_trans (Nat.le_add_left _ _) popped
      case h_2 rest taken =>
        rw [taken] at popped
        exact Nat.le_trans (Nat.le_add_left _ _) popped

/-- Taking the arguments of a call adds nothing to the queue. -/
theorem weight_collectArguments (name : String) (m : Macro) (q : Queue) :
    (m.collectArguments name q).2.weight ≤ q.weight := by
  have first := m.weight_takeOptional q
  have others := weight_takeArguments (m.arity - (m.takeOptional q).1.length) (m.takeOptional q).2
  unfold collectArguments
  simp only
  split <;> exact Nat.le_trans others first

end TexFormula.Macro
