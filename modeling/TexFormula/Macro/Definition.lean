import TexFormula.Decimal
import TexFormula.Error
import TexFormula.Expr.Queue
import TexFormula.Macro
import TexFormula.Text.Trim

/-! Definitions inside a formula: reading the name, the parameters and the body that follow one of
the four commands that define a macro. -/
namespace TexFormula

/-- The commands that define a macro. -/
inductive Definition.Command where
  | newcommand
  | renewcommand
  | providecommand
  | define
deriving DecidableEq, Repr

namespace Definition.Command

/-- The name of a command. -/
def name : Definition.Command → String
  | newcommand => "newcommand"
  | renewcommand => "renewcommand"
  | providecommand => "providecommand"
  | define => "def"

/-- The command of a name. -/
def named? (name : String) : Option Definition.Command :=
  match name with
  | "newcommand" => some .newcommand
  | "renewcommand" => some .renewcommand
  | "providecommand" => some .providecommand
  | "def" => some .define
  | _ => none

/-- Whether a command gives a new meaning to a name that already has one. -/
def overwrites : Definition.Command → Bool
  | renewcommand | define => true
  | newcommand | providecommand => false

end Definition.Command

/-- A definition inside a formula. -/
structure Definition where
  command : Definition.Command
  name : String
  arity : Nat := 0
  optional : Option (List Token) := none
  body : List Token
deriving DecidableEq, Repr

namespace Definition

/-- Whether the body calls the macro that is being defined. -/
def isRecursive (d : Definition) : Bool :=
  d.body.any (·.isNamed d.name)

/-- The macro that is defined. -/
def toMacro (d : Definition) : Macro :=
  { body := d.body, optional := d.optional, arity := d.arity, inFormula := true }

/-- The name in a token list that is a single command and nothing else but blanks. -/
def singleName? (tokens : List Token) : Option String :=
  match tokens.filter (!·.isBlank) with
  | [t] => if t.isCommand then some t.value else none
  | _ => none

/-- The error for a fault in a definition. -/
def fault (command : Command) (fault : DefinitionFault) : Error :=
  .badDefinition command.name fault

/-- The name that an expression gives: a command, or a command in curly braces. -/
def bracedName? (e : Expr) : Option String :=
  match e.kind with
  | .single | .group => singleName? e.argument
  | _ => none

/-- The name that an expression gives if it must stand without braces. -/
def bareName? (e : Expr) : Option String :=
  match e.kind with
  | .single => singleName? e.tokens
  | _ => none

/-- The number of arguments that an expression in square brackets gives. There are at most nine. -/
def readArity? (e : Expr) : Option Nat :=
  (Decimal.readCount? (Text.trim (String.join (e.inner.map (·.value))))).filter (· ≤ 9)

/-- The number of arguments and the preset of the first one, both in square brackets. -/
def readParameters (q : Queue) : Option (Nat × Option (List Token)) × Queue :=
  match q.popOptions with
  | (none, rest) => (some (0, none), rest)
  | (some count, rest) =>
    match readArity? count with
    | none => (none, rest)
    | some arity =>
      match rest.popOptions with
      | (none, rest) => (some (arity, none), rest)
      | (some preset, rest) => (some (arity, some preset.inner), rest)

/-- Reads a definition of the form name, parameters in square brackets, body. -/
def readBracketed (command : Command) (q : Queue) : Except Error Definition × Queue :=
  match q.popArgument with
  | (none, rest) => (.error (fault command .noSingleName), rest)
  | (some e, rest) =>
    match bracedName? e with
    | none => (.error (fault command .noSingleName), rest)
    | some name =>
      match readParameters rest with
      | (none, rest) => (.error (fault command .argumentCount), rest)
      | (some (arity, optional), rest) =>
        match rest.popArgument with
        | (none, rest) => (.error (fault command .noBody), rest)
        | (some e, rest) => (.ok { command, name, arity, optional, body := e.argument }, rest)

/-- Reads numbered placeholders and the body in curly braces after them. The next placeholder must
have the number after `count`. -/
def readPlaceholders (name : String) (count : Nat) : Queue → Except Error Definition × Queue
  | [] => (.error (fault .define .noBody), [])
  | e :: rest =>
    match e.kind with
    | .whitespace => readPlaceholders name count rest
    | .single =>
      if e.first.kind.argument then
        if e.first.value = toString (count + 1) then readPlaceholders name (count + 1) rest
        else (.error (fault .define .argumentOrder), rest)
      else (.error (fault .define .noBody), rest)
    | .group => (.ok { command := .define, name, arity := count, body := e.inner }, rest)
    | _ => (.error (fault .define .noBody), rest)

/-- Reads a definition of the form name, numbered placeholders, body. -/
def readPlain (q : Queue) : Except Error Definition × Queue :=
  match q.popArgument with
  | (none, rest) => (.error (fault .define .noName), rest)
  | (some e, rest) =>
    match bareName? e with
    | none => (.error (fault .define .noName), rest)
    | some name => readPlaceholders name 0 rest

/-- Reads what follows a command that defines a macro, and returns the queue behind it. -/
def read (command : Command) (q : Queue) : Except Error Definition × Queue :=
  match command with
  | .define => readPlain q
  | _ => readBracketed command q

theorem weight_readParameters (q : Queue) : (readParameters q).2.weight ≤ q.weight := by
  have popped := q.weight_popOptions
  unfold readParameters
  split
  case h_1 rest taken => rw [taken] at popped; simpa using popped
  case h_2 count rest taken =>
    have again := rest.weight_popOptions
    rw [taken] at popped
    simp only [Option.elim_some] at popped
    split
    · simp only; omega
    · split <;> simp_all <;> omega

theorem weight_readBracketed (command : Command) (q : Queue) :
    (readBracketed command q).2.weight ≤ q.weight := by
  have popped := q.weight_popArgument
  unfold readBracketed
  split
  case h_1 rest taken => rw [taken] at popped; simpa using popped
  case h_2 e rest taken =>
    have parameters := weight_readParameters rest
    rw [taken] at popped
    simp only [Option.elim_some] at popped
    split
    · simp only; omega
    · split
      case h_1 rest' read => rw [read] at parameters; simp only at parameters ⊢; omega
      case h_2 arity optional rest' read =>
        have body := rest'.weight_popArgument
        rw [read] at parameters
        simp only at parameters
        split <;> simp_all <;> omega

theorem weight_readPlaceholders (name : String) (count : Nat) (q : Queue) :
    (readPlaceholders name count q).2.weight ≤ q.weight := by
  fun_induction readPlaceholders name count q <;> simp_all <;> omega

theorem weight_readPlain (q : Queue) : (readPlain q).2.weight ≤ q.weight := by
  have popped := q.weight_popArgument
  unfold readPlain
  split
  case h_1 rest taken => rw [taken] at popped; simpa using popped
  case h_2 e rest taken =>
    rw [taken] at popped
    simp only [Option.elim_some] at popped
    split
    · simp only; omega
    · have := weight_readPlaceholders ‹String› 0 rest
      omega

/-- Reading a definition adds nothing to the queue. -/
theorem weight_read (command : Command) (q : Queue) : (read command q).2.weight ≤ q.weight := by
  unfold read
  split
  · exact weight_readPlain q
  · exact weight_readBracketed command q

end Definition

end TexFormula
