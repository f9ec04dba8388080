import TexFormula.Command
import TexFormula.Error
import TexFormula.Options
import TexFormula.Plan.Structural

/-! Plans of commands. A command takes its arguments from the queue behind it. What goes wrong is
shown as a node in place of the command, and the arguments that were taken are gone. -/
namespace TexFormula

/-- What a command or another token does to the row it stands in. -/
inductive Action (bound : Queue) where
  /-- Nothing. -/
  | skip
  /-- The next node of the row gets marks. -/
  | promote (marks : Marks)
  /-- The row gets nodes as they are. -/
  | place (nodes : List Node)
  /-- The row gets the node of a plan, if it gives one. -/
  | add (plan : Plan bound (Option Node))
  /-- A name is bound to a macro. -/
  | define (name : String) (m : Macro)
  /-- A macro is called, and the arguments are still in the queue. -/
  | call (name : String) (m : Macro)

namespace Action

variable {bound : Queue}

/-- The row gets a node. -/
def node (node : Node) : Action bound :=
  .add (pure (some node))

/-- The row gets the node of a plan that gives one. -/
def build (plan : Plan bound Node) : Action bound :=
  .add (some <$> plan)

end Action

namespace Plan

variable {bound : Queue}

/-- A definition of a macro. A macro that would call itself is not defined, and a name is only
defined anew by a command that says so. -/
def definition (macros : Macro.Table) (command : Definition.Command) (q : Queue.Below bound) :
    Action bound × Queue.Below bound :=
  let label := "\\" ++ command.name
  let rest := ⟨(Definition.read command q.val).2,
    Nat.lt_of_le_of_lt (Definition.weight_read command q.val) q.property⟩
  match (Definition.read command q.val).1 with
  | .error e => (.node (.error label e.message), rest)
  | .ok d =>
    if d.isRecursive then (.node (.error label "recursive macro definition"), rest)
    else if !command.overwrites && macros.contains d.name then (.skip, rest)
    else (.define d.name d.toMacro, rest)

/-- A command of an alphabet. The upright one is set in an element of its own. -/
def alphabet (name : String) (variant : Variant) (c : Context) (q : Queue.Below bound) :
    Plan bound Node × Queue.Below bound :=
  let c := c.withVariant variant
  let upright := (Node.element "mpadded").setAttribute "lspace" "0"
  match q.takeArgument with
  | (none, rest) => (pure (if name == "mathrm" then upright else .row []), rest)
  | (some e, rest) => (if name == "mathrm" then readInto c upright e else readArgument c e, rest)

/-- A space of a fixed width, or a line break. -/
def fixedSpace (width : Int) (t : Token) : Node :=
  let space := (Node.element "mspace").fromToken t
  if width = 0 then space.setAttribute "linebreak" "newline"
  else space.setAttribute "width" (Length.ofEighteenths width)

/-- Reads what a switch acts on. -/
def readSwitched (switch : Switch) (c : Context) (style : Node) (body : Queue.Below bound) :
    Plan bound Node := do
  let node ← readQueue body (c.switch switch.context) (some (style.setAttributes switch.attributes))
  return node.getD {}

/-- A switch. It acts on what follows up to the end of the cell or row. -/
def switched (name : String) (switch : Switch) (c : Context) (q : Queue.Below bound) :
    Plan bound Node × Queue.Below bound :=
  let (body, rest) := q.splitAtBreak
  let style := Node.element "mstyle"
  if switch.takesColor then
    match body.popArgument with
    | (none, _) => (pure (.error name (name ++ " expects an argument")), rest)
    | (some e, body) =>
      (readSwitched switch c (style.setAttribute "mathcolor" (argumentText e.val)) body, rest)
  else (readSwitched switch c style body, rest)

/-- A command that builds a node from a fixed number of arguments. -/
def structural (command : Command.Structural) (t : Token) (c : Context) (q : Queue.Below bound) :
    Plan bound Node × Queue.Below bound :=
  if q.val.peekArgument?.all Expr.isBreak then
    (pure (.error t.value (t.value ++ " requires one or more arguments")), q)
  else
    let (optional, q) := if command.takesOptional then q.popOptions else (none, q)
    let (arguments, rest) := q.takeArguments command.arity
    let plan := match command, arguments with
      | .unary command, [e] => unary command t c optional e
      | .binary command, [first, second] => binary command c first second
      | .ternary command, [first, second, third] => ternary command c first second third
      | command, arguments =>
        pure (.error t.value
          (Error.argumentCount t.value command.arity arguments.length).message)
    (plan, rest)

/-- The text of a length that starts with the given text and goes on with single characters of the
queue, until it is complete or something else follows; and the queue behind it. -/
def extendLength (text : String) : Queue → String × Queue
  | [] => (text, [])
  | e :: rest =>
    if (Length.parse? text).isSome then (text, e :: rest)
    else
      let k := e.first.kind
      if e.kind == .single && (k.letter || k.number || k.char) then
        extendLength (text ++ e.first.value) rest
      else (text, e :: rest)

theorem weight_extendLength (text : String) (q : Queue) :
    (extendLength text q).2.weight ≤ q.weight := by
  induction q generalizing text with
  | nil => exact Nat.le_refl _
  | cons e rest ih =>
    unfold extendLength
    split
    · exact Nat.le_refl _
    · simp only
      split
      · exact Nat.le_trans (ih _) (Nat.le_add_left _ _)
      · exact Nat.le_refl _

/-- The text of the length behind a command: what is in curly braces, or the characters up to the
end of the first complete length. -/
def takeLength (q : Queue.Below bound) : Option String × Queue.Below bound :=
  match q.takeArgument with
  | (none, rest) => (none, rest)
  | (some e, rest) =>
    if e.val.kind = .group then (some (Token.spellingAll e.val.inner), rest)
    else
      let text := Token.spellingAll e.val.tokens
      (some (extendLength text rest.val).1,
        ⟨(extendLength text rest.val).2,
          Nat.lt_of_le_of_lt (weight_extendLength text rest.val) rest.property⟩)

/-- A space of the length behind the command. -/
def kern (name : String) (q : Queue.Below bound) : Node × Queue.Below bound :=
  match takeLength q with
  | (none, rest) => (.error name (name ++ " expects a dimension"), rest)
  | (some text, rest) => (.space name text, rest)

/-- A glyph above or below an argument. -/
def accent (above : Bool) (glyph : String) (c : Context) (q : Queue.Below bound) :
    Plan bound Node × Queue.Below bound :=
  let place := fun (base : Node) =>
    let base :=
      if base.tag == "mi" then base.setAttribute "style" "font-feature-settings: 'dtls' on;"
      else base
    (Node.branch (if above then "mover" else "munder") [base, stretchy glyph]).setAttribute
      "accent" "true"
  match q.takeArgument with
  | (none, rest) => (pure (place (.row [])), rest)
  | (some e, rest) => (place <$> readArgument c e, rest)

/-- A command that has no meaning. -/
def unknown (o : Options) (name : String) : Node :=
  if o.unknownAsOperator then .leaf "mo" name
  else .error name ("unknown command \\" ++ name)

/-- What a command does, given its meaning, and the queue behind it and its arguments. -/
def perform (o : Options) (macros : Macro.Table) (command : Command) (t : Token) (c : Context)
    (q : Queue.Below bound) : Action bound × Queue.Below bound :=
  let name := t.value
  let finished := fun (plan : Plan bound Node × Queue.Below bound) =>
    (Action.build ((·.finish t c) <$> plan.1), plan.2)
  match command with
  | .definition command => definition macros command q
  | .logo node => (.node node, q)
  | .identifier marks => (.node (.ofIdentifier marks t c), q)
  | .symbol symbol => (.node (.ofSymbol symbol t c), q)
  | .built node => (.node (node.fromToken t), q)
  | .alphabet variant => (alphabet name variant c q).map .build id
  | .space width => (.node (fixedSpace width t), q)
  | .switch switch => (switched name switch c q).map .build id
  | .structural command => finished (structural command t c q)
  | .kern => finished ((kern name q).map pure id)
  | .accent above glyph => finished (accent above glyph c q)
  | .unknown => finished (pure (unknown o name), q)

/-- What the command of a token does. A macro that was defined in a formula hides all other meanings
but those that are fixed. -/
def command (o : Options) (macros : Macro.Table) (t : Token) (c : Context) (q : Queue.Below bound) :
    Action bound × Queue.Below bound :=
  match Command.fixed? t.value with
  | some meaning => perform o macros meaning t c q
  | none =>
    match (macros.get? t.value).filter (·.inFormula) with
    | some m => (.call t.value m, q)
    | none => perform o macros (.named t.value) t c q

end Plan

end TexFormula
