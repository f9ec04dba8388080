import TexFormula.Context
import TexFormula.Expr.Bounded
import TexFormula.Node
import TexFormula.Row

/-! Plans. The node of a command is built from nodes that are read from its arguments. A plan says
which arguments are read, in which order and in which context, and what is built from the result; it
does not read them itself. -/
namespace TexFormula

/-- A piece of a formula that is to be read. -/
structure Job where
  queue : Queue
  context : Context
  /-- The node that takes what is read as its children. Without one, a single node stands for itself
  and several nodes become a row. -/
  parent : Option Node := none
  /-- The argument of the environment. -/
  option : Option String := none

namespace Job

/-- Whether an expression can be the argument of an environment. -/
def isOption (e : Expr) : Bool :=
  e.kind == .group || e.kind == .options

/-- The job for a queue. If the context asks for the argument of an environment, that is taken from
the queue first; it is only asked for once. -/
def start (queue : Queue) (context : Context) (parent : Option Node) : Job :=
  let inner := { context with takesArgument := false }
  match context.takesArgument, queue.popArgument with
  | true, (some e, rest) =>
    if isOption e then
      { queue := rest, context := inner, parent, option := some (Token.spellingAll e.argument) }
    else { queue, context := inner, parent }
  | _, _ => { queue, context := inner, parent }

/-- The node for the nodes that were read. -/
def finish (job : Job) (nodes : List Node) : Option Node :=
  match job.parent with
  | some parent =>
    let tag := if parent.tag == "" then "mrow" else parent.tag
    some ({ parent.append nodes with tag, option := job.option }).arrange
  | none =>
    match nodes with
    | [] => none
    | [n] => some n
    | nodes => some ({ Node.row nodes with option := job.option }).arrange

/-- Taking an argument adds nothing to the queue. -/
theorem weight_start (queue : Queue) (context : Context) (parent : Option Node) :
    (start queue context parent).queue.weight ≤ queue.weight := by
  have popped := queue.weight_popArgument
  unfold start
  split
  case h_1 e rest _ taken =>
    rw [taken] at popped
    split
    · exact Nat.le_trans (Nat.le_add_left _ _) popped
    · exact Nat.le_refl _
  case h_2 => exact Nat.le_refl _

end Job

/-- A plan that reads queues lighter than `bound`. -/
inductive Plan (bound : Queue) (α : Type) where
  /-- Nothing is left to read. -/
  | done (value : α)
  /-- A job is to be done, and its result decides how to go on. -/
  | read (job : Job) (fits : job.queue.weight < bound.weight) (next : Option Node → Plan bound α)

namespace Plan

variable {bound : Queue} {α β : Type}

/-- The plan that goes on with the result of another one. -/
def bind : Plan bound α → (α → Plan bound β) → Plan bound β
  | done value, f => f value
  | read job fits next, f => read job fits fun node => (next node).bind f

instance : Monad (Plan bound) where
  pure := done
  bind := bind

/-- The result of a plan, with the jobs done one after the other by `perform`. -/
def run {σ : Type} (perform : (job : Job) → job.queue.weight < bound.weight → σ → Option Node × σ) :
    Plan bound α → σ → α × σ
  | done value, s => (value, s)
  | read job fits next, s =>
    let result := perform job fits s
    (next result.1).run perform result.2

/-- A plan that goes on with the result of another one is done after it. -/
theorem run_bind {σ : Type}
    (perform : (job : Job) → job.queue.weight < bound.weight → σ → Option Node × σ)
    (plan : Plan bound α) (f : α → Plan bound β) (s : σ) :
    (plan.bind f).run perform s =
      (f (plan.run perform s).1).run perform (plan.run perform s).2 := by
  induction plan generalizing s with
  | done value => rfl
  | read job fits next ih => exact ih _ _

/-- Reads a queue. -/
def readQueue (q : Queue.Below bound) (c : Context) (parent : Option Node) :
    Plan bound (Option Node) :=
  read (.start q.val c parent) (Nat.lt_of_le_of_lt (Job.weight_start _ _ _) q.property) done

/-- Reads a token list. -/
def readTokens (tokens : List Token) (short : tokens.length < bound.weight) (c : Context)
    (parent : Option Node) : Plan bound (Option Node) :=
  readQueue (.ofTokens tokens short) c parent

/-- Reads an argument. An argument without content is an empty row. -/
def readArgument (c : Context) (e : Expr.Below bound) : Plan bound Node := do
  let node ← readTokens e.val.argument e.argument_length_lt c none
  return node.getD (.row [])

/-- Reads an argument into a node. -/
def readInto (c : Context) (parent : Node) (e : Expr.Below bound) : Plan bound Node := do
  let node ← readTokens e.val.argument e.argument_length_lt c (some parent)
  return node.getD {}

end Plan

end TexFormula
