import TexFormula.Macro.Expansion
import TexFormula.Node
import TexFormula.Plan.Step
import TexFormula.Row.Draft

/-! Reading formulas. A queue is read step by step into a row. What a step asks to be read is either
a part of the queue, which weighs less than the queue, or the expansion of a call, which lies one
level deeper; and the number of levels is limited. So every formula is read in the end, whatever its
macros call. -/
namespace TexFormula

/-! ### Scopes

What the parts of a formula share while it is read: a macro that one part defines is known in
all that come after it, and the calls of such macros are counted. -/

/-- The known macros, and how often a macro defined in a formula was called. -/
structure Scope where
  macros : Macro.Table := .empty
  calls : Nat := 0

namespace Scope

/-- How many calls of macros defined in formulas one formula may have. -/
def maxCalls : Nat := 1024

/-- The scope with a macro bound to a name. -/
def define (s : Scope) (name : String) (m : Macro) : Scope :=
  { s with macros := s.macros.insert name m }

/-- The scope with one more call counted. -/
def count (s : Scope) : Scope :=
  { s with calls := s.calls + 1 }

/-- The tokens that a call with the given arguments stands for, ready to be parsed. -/
def callTokens (s : Scope) (name : String) (m : Macro)
    (arguments : Except Error (List (List Token))) : Except Error (List Token) := do
  let expanded ← m.expandCall name (← arguments)
  let prepared ← Token.prepare expanded
  Macro.expand s.macros prepared

/-- What is shown for a call that there is no room for. -/
def refusal (name : String) : Node :=
  .error name (Error.cyclicMacro name).message

/-- What is shown for a call that has no expansion. -/
def failure (name : String) (e : Error) : Node :=
  .error name ("error expanding macro: " ++ e.message)

end Scope

end TexFormula

/-! ### Reading -/

namespace TexFormula.Formula

/-- How the jobs of a step are done. -/
structure Readers (bound : Queue) where
  /-- Reads a part of the queue. -/
  part : (job : Job) → job.queue.weight < bound.weight → Scope → Option Node × Scope
  /-- Reads the expansion of a call, if there is a level left for it. -/
  call? : Option (Job → Scope → Option Node × Scope)

/-- What a step leads to. -/
structure Progress (bound : Queue) where
  draft : Row.Draft
  scope : Scope
  rest : Queue.Below bound

variable {bound : Queue}

/-- The step for a call. A call without room leaves its arguments in the queue. -/
def call (readers : Readers bound) (c : Context) (t : Token) (name : String) (m : Macro)
    (rest : Queue.Below bound) (d : Row.Draft) (s : Scope) : Progress bound :=
  match readers.call? with
  | none => ⟨d.add c t (Scope.refusal name), s, rest⟩
  | some read =>
    if s.calls < Scope.maxCalls then
      let behind : Queue.Below bound := ⟨(m.collectArguments name rest.val).2,
        Nat.lt_of_le_of_lt (m.weight_collectArguments name rest.val) rest.property⟩
      match s.callTokens name m (m.collectArguments name rest.val).1 with
      | .error e => ⟨d.add c t (Scope.failure name e), s.count, behind⟩
      | .ok tokens =>
        let (node, s) := read (.start (.ofTokens tokens) c none) s.count
        ⟨d.add c t (node.getD (.row [])), s, behind⟩
    else ⟨d.add c t (Scope.refusal name), s, rest⟩

/-- What a step leads to. -/
def perform (readers : Readers bound) (c : Context) (step : Step bound) (d : Row.Draft)
    (s : Scope) : Progress bound :=
  match step.action with
  | .skip => ⟨d, s, step.rest⟩
  | .promote marks => ⟨d.promote marks, s, step.rest⟩
  | .place nodes => ⟨d.place nodes, s, step.rest⟩
  | .add plan =>
    let (node, s) := plan.run readers.part s
    ⟨d.addOption c step.token node, s, step.rest⟩
  | .define name m => ⟨d, s.define name m, step.rest⟩
  | .call name m => call readers c step.token name m step.rest d s

/-- The result of a job whose queue was read into a row. -/
def close (job : Job) (row : Row.Draft × Scope) : Option Node × Scope :=
  (job.finish row.1.nodes, row.2)

/-- Reads a queue at the end of a row. -/
def readRow (o : Options) (depth : Nat) (c : Context) (q : Queue) (d : Row.Draft) (s : Scope) :
    Row.Draft × Scope :=
  match q with
  | [] => (d, s)
  | e :: rest =>
    let readers : Readers (e :: rest) :=
      { part := fun job _fits s => close job (readRow o depth job.context job.queue {} s)
        call? :=
          if _room : depth < Macro.maxDepth then
            some fun job s => close job (readRow o (depth + 1) job.context job.queue {} s)
          else none }
    let progress := perform readers c (Step.ofExpr o s.macros c e rest) d s
    readRow o depth c progress.rest.val progress.draft progress.scope
termination_by (Macro.maxDepth - depth, q.weight)
decreasing_by
  · exact Prod.Lex.right _ _fits
  · exact Prod.Lex.left _ _ (by omega)
  · exact Prod.Lex.right _ progress.rest.property

/-- Does a job at a depth of calls inside each other. -/
def readJob (o : Options) (depth : Nat) (job : Job) (s : Scope) : Option Node × Scope :=
  close job (readRow o depth job.context job.queue {} s)

/-- The node of a token list that is ready to be parsed. A list in which nothing shows has none. -/
def read (o : Options) (c : Context) (tokens : List Token) (s : Scope) : Option Node × Scope :=
  readJob o 0 (.start (.ofTokens tokens) c none) s

end TexFormula.Formula
