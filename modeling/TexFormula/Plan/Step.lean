import TexFormula.Environment
import TexFormula.Plan.Command

/-! One step of reading a row: what the first expression of a queue does to the row, and what is
left of the queue. -/
namespace TexFormula

/-- A step. -/
structure Step (bound : Queue) where
  /-- The token that decides the size of the node that is added. -/
  token : Token
  action : Action bound
  /-- What is left of the queue. -/
  rest : Queue.Below bound

namespace Step

variable {bound : Queue}

/-- The marks for the node behind an operator that builds a fraction. -/
def operandMarks? (t : Token) : Option Marks :=
  if t.kind.command then
    match t.value with
    | "over" => some { overOperand := true }
    | "choose" => some { chooseOperand := true }
    | "atop" => some { atopOperand := true }
    | _ => none
  else none

/-- The marks that a token gives to the next node. -/
def pendingMarks? (t : Token) : Option Marks :=
  if t.kind.script then
    some (if t.value == "^" then { superscript := true } else { subscript := true })
  else operandMarks? t

/-- What stands between two cells. -/
def cellBreak : Node :=
  { marks := { cellBreak := true } }

/-- What stands between two rows. -/
def rowBreak : Node :=
  { marks := { rowBreak := true } }

/-- The spacing that is asked for at the end of a row. -/
def spacing (e : Expr) : Node :=
  ((Node.element "rowspacing").mark { hidden := true }).setAttribute "rowspacing"
    (Token.spellingAll e.inner)

/-- The end of a row, which may be followed by a spacing in square brackets. -/
def endRow (q : Queue.Below bound) : Action bound × Queue.Below bound :=
  match q.popOptions with
  | (some e, rest) => (.place [spacing e.val, rowBreak], rest)
  | (none, rest) => (.place [rowBreak], rest)

/-- What a token does that is neither a break nor a mark for the next node. -/
def plain (o : Options) (macros : Macro.Table) (t : Token) (c : Context) (q : Queue.Below bound) :
    Action bound × Queue.Below bound :=
  let k := t.kind
  if (k.closes && (k.curly || k.env)) || t.isBlank then (.skip, q)
  else if k.cyclic then
    (.node ((Node.error t.value "cyclic dependency in macro definition").fromToken t), q)
  else if k.argument then
    (.node ((Node.error ("?" ++ t.value) "unexpanded macro argument").fromToken t), q)
  else if k.opens || k.closes || k.fence || k.null then (.add (pure (Node.delimiter? t c)), q)
  else if k.escaped then (.node ((Node.leaf "mo" t.value).fromToken t), q)
  else if k.command then Plan.command o macros t c q
  else (.node (.ofPlain t c), q)

/-- What a single token does. -/
def single (o : Options) (macros : Macro.Table) (t : Token) (c : Context) (q : Queue.Below bound) :
    Action bound × Queue.Below bound :=
  if c.table && t.isCellBreak then (.place [cellBreak], q)
  else if c.table && t.isRowBreak then endRow q
  else match pendingMarks? t with
    | some marks => (.promote marks, q)
    | none => plain o macros t c q

/-- Whitespace shows in text only, and comments never do. -/
def whitespace (t : Token) (c : Context) : Action bound :=
  if c.text && !t.kind.comment then
    .place [((Node.element "mspace").setAttribute "width" "1em").fromToken t]
  else .skip

/-- An environment. -/
def environment (t : Token) (c : Context) (content : List Token)
    (short : content.length < bound.weight) : Plan bound (Option Node) := do
  let inner := Environment.context t.value t.kind.star c
  let node ← Plan.readTokens content short inner (some (.element "mrow"))
  return some (Environment.frame (node.getD {}) t.value inner)

/-- What is between two fences, with the fences. -/
def fenced (opener : Token) (closer : Option Token) (c : Context) (content : List Token)
    (short : content.length < bound.weight) : Plan bound (Option Node) := do
  let node ← Plan.readTokens content short c none
  return some (.row ((Node.delimiter? opener c).toList ++ node.toList
    ++ (closer.bind (Node.delimiter? · c)).toList))

/-- The step for an expression in front of a queue. Square brackets that no command took as an
argument are delimiters. -/
def ofExpr (o : Options) (macros : Macro.Table) (c : Context) (e : Expr) (rest : Queue) :
    Step (e :: rest) :=
  let behind : Queue.Below (e :: rest) := ⟨rest, Queue.weight_lt_cons e rest⟩
  have short := Queue.inner_length_lt_weight e rest
  match kind : e.kind with
  | .whitespace => ⟨e.first, whitespace e.first c, behind⟩
  | .group =>
    have short := short (by simp [Expr.isComposite, kind])
    ⟨e.first, .add (Plan.readTokens e.inner short c none), behind⟩
  | .environment =>
    have short := short (by simp [Expr.isComposite, kind])
    ⟨e.first, .add (environment e.first c e.inner short), behind⟩
  | .fenced =>
    have short := short (by simp [Expr.isComposite, kind])
    ⟨e.first, .add (fenced e.first e.closer? c e.inner short), behind⟩
  | .options =>
    let spliced : Queue.Below (e :: rest) :=
      ⟨rest.splice e.rest, Queue.weight_splice_rest_lt e rest⟩
    let (action, rest) := single o macros e.first c spliced
    ⟨e.first, action, rest⟩
  | .single =>
    let (action, rest) := single o macros e.first c behind
    ⟨e.first, action, rest⟩

end Step

end TexFormula
