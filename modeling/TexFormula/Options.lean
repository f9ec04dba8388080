import TexFormula.Json

/-! The options of a document. -/
namespace TexFormula

/-- How the formulas of a document are written. -/
structure Options where
  /-- An unknown command is an operator of its name and not an error. -/
  unknownAsOperator : Bool := false
  /-- Formulas in display style are numbered. -/
  numbering : Bool := false
  /-- The source of a formula is written beside it. -/
  annotate : Bool := true
  /-- Every element is on a line of its own. -/
  pretty : Bool := false
deriving DecidableEq, Repr, Inhabited

namespace Options

/-- The names of the options in the JSON format, in the order of a list of their values. -/
def names : List String :=
  ["unknown_commands_as_ops", "numbering", "annotate", "pretty"]

/-- The options with the option of a name set. Other names set nothing. -/
def set (o : Options) (name : String) (value : Bool) : Options :=
  match name with
  | "unknown_commands_as_ops" => { o with unknownAsOperator := value }
  | "numbering" => { o with numbering := value }
  | "annotate" => { o with annotate := value }
  | "pretty" => { o with pretty := value }
  | _ => o

/-- The options that a list of values gives in order. Missing values leave the presets. -/
def ofValues? (values : List Json.Value) : Option Options :=
  if values.length ≤ names.length then
    (values.mapM Json.Value.bool?).map fun bools =>
      (names.zip bools).foldl (fun o (name, value) => o.set name value) {}
  else none

/-- The options that the entries of an object give. An option is given at most once, and names that
are no options do not matter. -/
def ofEntries? (entries : List (String × Json.Value)) : Option Options :=
  let known := entries.filter fun entry => names.contains entry.1
  if (known.map (·.1)).Nodup then
    known.foldlM (fun o entry => (Json.Value.bool? entry.2).map (o.set entry.1)) {}
  else none

/-- The options that a text in the JSON format gives, as an object or as a list. -/
def ofJson? (source : String) : Option Options :=
  match Json.parse? source with
  | some (.list values) => ofValues? values
  | some value => value.entries?.bind ofEntries?
  | none => none

end Options

end TexFormula
