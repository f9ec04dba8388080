import TexFormula.Macro.Definition
import TexFormula.Proofs.Macro.Alike
import TexFormula.Proofs.Plan.Alike

/-! Definitions of two readings. The name, the parameters and the body that follow a command go
together if the queues do (`Definition.alike_read`). Only the number of arguments in square brackets
is read from all tokens between the brackets: comments there must be empty. -/
namespace TexFormula
open Token

/-- Definitions of two readings. -/
structure Definition.Alike (D : Difference) (d d' : Definition) : Prop where
  name : d.name = d'.name
  binds : D.Binds d.name
  arity : d.arity = d'.arity
  optional : Option.Rel (Thins D False) d.optional d'.optional
  body : Thins D False d.body d'.body

/-- What comes of reading a definition. -/
inductive Definition.Outcomes (D : Difference) :
    Except Error Definition → Except Error Definition → Prop
  | error (e : Error) : Outcomes D (.error e) (.error e)
  | ok {d d' : Definition} (alike : Definition.Alike D d d') : Outcomes D (.ok d) (.ok d')

variable {D : Difference} {ends : Prop} {l l' : List Token} {p p' : Queue} {e e' : Expr}

namespace Definition

theorem singleName?_map (tokens : List Token) :
    singleName? ((tokens.filter (!·.isBlank)).map unpaired) = singleName? tokens := by
  have solid : ∀ t ∈ (tokens.filter (!·.isBlank)).map unpaired, (!t.isBlank) = true := by
    simp only [List.mem_map, List.mem_filter]
    rintro _ ⟨t, ⟨-, shown⟩, rfl⟩
    exact shown
  rw [singleName?, singleName?, List.filter_eq_self.mpr solid]
  generalize tokens.filter (!·.isBlank) = shown
  obtain _ | ⟨t, _ | ⟨u, rest⟩⟩ := shown <;> rfl

theorem singleName?_eq (thins : Thins D ends l l') : singleName? l = singleName? l' := by
  have tokens := thins.filter_eq (p := (!·.isBlank)) (fun _ => rfl)
    fun t comment => by simp [isBlank, comment]
  rw [← singleName?_map l, tokens, singleName?_map l']

theorem binds_of_singleName? {name : String} (thins : Thins D ends l l')
    (single : singleName? l' = some name) : D.Binds name := by
  unfold singleName? at single
  split at single
  case h_1 t alone =>
    split at single
    case isTrue command =>
      have member : t ∈ l'.filter (!·.isBlank) := alone ▸ List.mem_cons_self
      exact ⟨t, thins.holds t (List.mem_filter.mp member).1, command, Option.some.inj single⟩
    case isFalse => cases single
  case h_2 => cases single

theorem bracedName?_eq (alike : Expr.Alike D e e') : bracedName? e = bracedName? e' := by
  unfold bracedName?
  rw [← alike.kind, singleName?_eq alike.argument.thins]

theorem binds_of_bracedName? {name : String} (alike : Expr.Alike D e e')
    (given : bracedName? e' = some name) : D.Binds name := by
  unfold bracedName? at given
  split at given
  · exact binds_of_singleName? alike.argument.thins given
  · exact binds_of_singleName? alike.argument.thins given
  · cases given

theorem bareName?_eq (alike : Expr.Alike D e e') : bareName? e = bareName? e' := by
  unfold bareName?
  rw [← alike.kind, singleName?_eq alike.tokens.thins]

theorem binds_of_bareName? {name : String} (alike : Expr.Alike D e e')
    (given : bareName? e' = some name) : D.Binds name := by
  unfold bareName? at given
  split at given
  · exact binds_of_singleName? alike.tokens.thins given
  · cases given

/-- The number of arguments is read from all tokens in the brackets, comments among them. -/
theorem readArity?_eq (alike : Expr.Alike D e e') (mute : D.comments → Mute e.inner) :
    readArity? e = readArity? e' := by
  have text := alike.inner.thins.join_eq (p := fun _ => true) (fun _ => rfl) mute
  rw [List.filter_true, List.filter_true] at text
  rw [readArity?, readArity?, text]

/-- Parameters of two readings. -/
abbrev SameParameters (D : Difference) (one other : Nat × Option (List Token)) : Prop :=
  one.1 = other.1 ∧ Option.Rel (Thins D False) one.2 other.2

section Reading
variable (queues : Queue.Alike D True p p')
include queues

theorem alike_readParameters (mute : D.comments → Mute (p.popOptions.1.elim [] Expr.inner)) :
    Option.Rel (SameParameters D) (readParameters p).1 (readParameters p').1 ∧
      Queue.Alike D True (readParameters p).2 (readParameters p').2 := by
  obtain ⟨found, left⟩ := Queue.taken_popOptions Queue.unconses_alike queues
  unfold readParameters
  cases one : p.popOptions with
  | mk first behind =>
    cases other : p'.popOptions with
    | mk first' behind' =>
      rw [one, other] at found left
      rw [one] at mute
      cases found with
      | none => exact ⟨.some ⟨rfl, .none⟩, left⟩
      | @some count count' alike =>
        simp only [← readArity?_eq alike mute]
        split
        · exact ⟨.none, left⟩
        · obtain ⟨preset, rest⟩ := Queue.taken_popOptions Queue.unconses_alike left
          cases one : behind.popOptions with
          | mk second behind =>
            cases other : behind'.popOptions with
            | mk second' behind' =>
              rw [one, other] at preset rest
              cases preset with
              | none => exact ⟨.some ⟨rfl, .none⟩, rest⟩
              | some same => exact ⟨.some ⟨rfl, .some same.inner.thins⟩, rest⟩

/-- What is read of a definition, and what is left behind it. -/
abbrev Reads (D : Difference) (one other : Except Error Definition × Queue) : Prop :=
  Outcomes D one.1 other.1 ∧ Queue.Alike D True one.2 other.2

theorem alike_readBracketed (command : Definition.Command)
    (mute : D.comments → Mute (p.popArgument.2.popOptions.1.elim [] Expr.inner)) :
    Reads D (readBracketed command p) (readBracketed command p') := by
  obtain ⟨found, left⟩ := Queue.taken_popArgument Queue.unconses_alike queues
  unfold readBracketed
  cases one : p.popArgument with
  | mk first behind =>
    cases other : p'.popArgument with
    | mk first' behind' =>
      rw [one, other] at found left
      rw [one] at mute
      cases found with
      | none => exact ⟨.error _, left⟩
      | @some e e' alike =>
        simp only [bracedName?_eq alike]
        split
        · exact ⟨.error _, left⟩
        case h_2 name named =>
          obtain ⟨parameters, rest⟩ := alike_readParameters left mute
          cases one : readParameters behind with
          | mk given behind =>
            cases other : readParameters behind' with
            | mk given' behind' =>
              rw [one, other] at parameters rest
              cases parameters with
              | none => exact ⟨.error _, rest⟩
              | @some given given' same =>
                obtain ⟨arity, optional⟩ := given
                obtain ⟨arity', optional'⟩ := given'
                obtain ⟨rfl, presets⟩ : arity = arity' ∧ _ := same
                obtain ⟨body, after⟩ := Queue.taken_popArgument Queue.unconses_alike rest
                simp only
                cases one : behind.popArgument with
                | mk last behind =>
                  cases other : behind'.popArgument with
                  | mk last' behind' =>
                    rw [one, other] at body after
                    cases body with
                    | none => exact ⟨.error _, after⟩
                    | some same =>
                      exact ⟨.ok ⟨rfl, binds_of_bracedName? alike named, rfl, presets,
                        same.argument.thins⟩, after⟩

theorem alike_readPlaceholders {name : String} (binds : D.Binds name) (count : Nat) :
    Reads D (readPlaceholders name count p) (readPlaceholders name count p') := by
  induction queues generalizing count with
  | nil => exact ⟨.error _, .nil⟩
  | drop _ _ _ _ ih =>
    rw [readPlaceholders]
    exact ih count
  | @cons e e' q q' alike more ih =>
    rw [readPlaceholders.eq_def _ _ (e :: q), readPlaceholders.eq_def _ _ (e' :: q')]
    simp only [← alike.kind, ← alike.first.kind, ← alike.first.value]
    split
    · exact ih count
    · split
      · split
        · exact ih (count + 1)
        · exact ⟨.error _, more⟩
      · exact ⟨.error _, more⟩
    · exact ⟨.ok ⟨rfl, binds, rfl, .none, alike.inner.thins⟩, more⟩
    · exact ⟨.error _, more⟩

theorem alike_readPlain : Reads D (readPlain p) (readPlain p') := by
  obtain ⟨found, left⟩ := Queue.taken_popArgument Queue.unconses_alike queues
  unfold readPlain
  cases one : p.popArgument with
  | mk first behind =>
    cases other : p'.popArgument with
    | mk first' behind' =>
      rw [one, other] at found left
      cases found with
      | none => exact ⟨.error _, left⟩
      | @some e e' alike =>
        simp only [bareName?_eq alike]
        split
        · exact ⟨.error _, left⟩
        case h_2 name named => exact alike_readPlaceholders left (binds_of_bareName? alike named) 0

/-- A definition is read in the same way. -/
theorem alike_read (command : Definition.Command)
    (mute : command ≠ .define → D.comments →
      Mute (p.popArgument.2.popOptions.1.elim [] Expr.inner)) :
    Reads D (read command p) (read command p') := by
  cases command with
  | define => exact alike_readPlain queues
  | newcommand => exact alike_readBracketed queues _ (mute nofun)
  | renewcommand => exact alike_readBracketed queues _ (mute nofun)
  | providecommand => exact alike_readBracketed queues _ (mute nofun)

end Reading

namespace Alike

variable {d d' : Definition}

theorem isRecursive (alike : Definition.Alike D d d') : d.isRecursive = d'.isRecursive := by
  have calls : ∀ body : List Token, body.any (·.isNamed d.name) =
      !(body.filterMap fun t => if t.isNamed d.name then some t.value else none).isEmpty := by
    intro body
    rw [Bool.eq_iff_iff]
    simp
  have same := alike.body.filterMap_eq
    (f := fun t => if t.isNamed d.name then some t.value else none) (fun _ => rfl)
    fun t comment => by simp [isNamed, comment]
  rw [Definition.isRecursive, Definition.isRecursive, ← alike.name, calls, calls, same]

theorem toMacro (alike : Definition.Alike D d d') : Macro.Alike D d.toMacro d'.toMacro :=
  ⟨alike.body, alike.optional, alike.arity, rfl⟩

end Alike

end Definition

end TexFormula
