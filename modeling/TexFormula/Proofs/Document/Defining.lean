import Mathlib
import TexFormula.Macro.Definition
import TexFormula.Proofs.Document.Reading
import TexFormula.Proofs.Expr.Spans
import TexFormula.Proofs.Macro.Locality

/-! Definitions as formulas. A formula that consists of a definition shows nothing and binds the
name that is written in it, and nothing else. This needs the definition to reach the parser as it is
written: a declared macro whose call stands in it is replaced before that, and so is the name that
is to be defined. -/

/-! ### Definitions without parameters

Definitions without parameters. Such a definition consists of a command that defines, the name
that is defined, by itself or alone in a group, and a group that holds the body. It is read as it is
written. -/

namespace TexFormula

namespace Token

/-- The command of a name, as a source spells it. -/
structure IsCommandOf (t : Token) (name : String) : Prop where
  value : t.value = name
  kind : ∃ star, t.kind = { command := true, star }
  alone : t.offset = 0

/-- Curly braces that are partners, with tokens between them. -/
structure IsGroup (opener : Token) (inner : List Token) (closer : Token) : Prop where
  curly : opener.kind.curly = true ∧ closer.kind.curly = true
  solid : opener.isBlank = false
  offset : opener.offset = inner.length + 1

theorem IsCommandOf.isCommand {t : Token} {name : String} (spells : t.IsCommandOf name) :
    t.isCommand = true := by
  obtain ⟨star, kind⟩ := spells.kind
  rw [Token.isCommand, kind]
  rfl

theorem IsCommandOf.solid {t : Token} {name : String} (spells : t.IsCommandOf name) :
    t.isBlank = false := by
  obtain ⟨star, kind⟩ := spells.kind
  rw [isBlank, kind]
  rfl

end Token

namespace Definition
open Token

/-- The tokens that give a name: a command, or a command and nothing else but blanks in a group. -/
inductive NamedBy (name : String) : List Token → Prop
  | bare {call} (spells : IsCommandOf call name) : NamedBy name [call]
  | braced {opener before call after closer}
    (group : IsGroup opener (before ++ call :: after) closer) (spells : IsCommandOf call name)
    (blank : ∀ t ∈ before ++ after, t.isBlank = true) :
    NamedBy name (opener :: (before ++ call :: after ++ [closer]))

/-- The tokens of a definition without parameters. There can be blanks between its parts. -/
inductive Written (command : Command) (name : String) (body : List Token) : List Token → Prop
  | intro {head gap names gap' opener closer} (defines : IsCommandOf head command.name)
    (blank : ∀ t ∈ gap ++ gap', t.isBlank = true) (named : NamedBy name names)
    (unbraced : command = .define → names.length = 1) (group : IsGroup opener body closer) :
    Written command name body
      (head :: (gap ++ (names ++ (gap' ++ opener :: (body ++ [closer])))))

variable {command : Command} {name : String} {t opener closer : Token}
  {gap gap' names body inner rest : List Token}

/-! ### The name -/

theorem singleName?_of_blank {before after : List Token} (spells : IsCommandOf t name)
    (blank : ∀ u ∈ before ++ after, u.isBlank = true) :
    singleName? (before ++ t :: after) = some name := by
  have skipped : ∀ part : List Token, (∀ u ∈ part, u.isBlank = true) →
      part.filter (!·.isBlank) = [] := fun part blank => by simpa using blank
  obtain ⟨front, back⟩ := List.forall_mem_append.mp blank
  have alone : (before ++ t :: after).filter (!·.isBlank) = [t] := by
    rw [List.filter_append, skipped before front, List.filter_cons_of_pos (by simp [spells.solid]),
      skipped after back, List.nil_append]
  rw [singleName?, alone]
  simp [spells.isCommand, spells.value]

/-- The tokens of a name are one expression, and it gives the name. -/
theorem NamedBy.popArgument (named : NamedBy name names) (rest : List Token) :
    ∃ e, (Queue.ofTokens (names ++ rest)).popArgument = (some e, Queue.ofTokens rest) ∧
      bracedName? e = some name ∧ (names.length = 1 → bareName? e = some name) := by
  cases named with
  | @bare call spells =>
    have given : singleName? ([] ++ [call]) = some name := singleName?_of_blank spells (by simp)
    refine ⟨⟨.single, call, []⟩, ?_, given, fun _ => given⟩
    rw [List.singleton_append, Queue.ofTokens_alone spells.solid spells.alone]
    rfl
  | @braced opener before call after closer group spells blank =>
    have given : singleName? (before ++ call :: after) = some name :=
      singleName?_of_blank spells blank
    have argument : (⟨.group, opener, before ++ call :: after ++ [closer]⟩ : Expr).argument =
        before ++ call :: after := List.dropLast_concat
    refine ⟨⟨.group, opener, before ++ call :: after ++ [closer]⟩, ?_, ?_, fun short => ?_⟩
    · rw [List.cons_append, List.append_assoc, List.singleton_append,
        Queue.ofTokens_curly group.solid group.curly.1 group.offset]
      rfl
    · rw [bracedName?, argument]
      exact given
    · simp at short

/-! ### The body -/

theorem ofTokens_group (group : IsGroup opener body closer) :
    Queue.ofTokens (opener :: (body ++ [closer])) = [⟨.group, opener, body ++ [closer]⟩] := by
  rw [Queue.ofTokens_curly group.solid group.curly.1 group.offset, Queue.ofTokens]

/-- Without square brackets there are no parameters. -/
theorem readParameters_of_group (blank : ∀ t ∈ gap, t.isBlank = true)
    (group : IsGroup opener body closer) :
    readParameters (Queue.ofTokens (gap ++ opener :: (body ++ [closer]))) =
      (some (0, none), Queue.ofTokens (gap ++ opener :: (body ++ [closer]))) := by
  have none : (Queue.ofTokens (gap ++ opener :: (body ++ [closer]))).popOptions =
      (none, Queue.ofTokens (gap ++ opener :: (body ++ [closer]))) := by
    rw [Queue.popOptions, Queue.popArgument_gap blank, ofTokens_group group]
    rfl
  rw [readParameters, none]

theorem readPlaceholders_of_group (blank : ∀ t ∈ gap, t.isBlank = true)
    (group : IsGroup opener body closer) :
    readPlaceholders name 0 (Queue.ofTokens (gap ++ opener :: (body ++ [closer]))) =
      (.ok { command := .define, name, body }, []) := by
  induction gap with
  | nil =>
    have inner : (⟨.group, opener, body ++ [closer]⟩ : Expr).inner = body := List.dropLast_concat
    rw [List.nil_append, ofTokens_group group, readPlaceholders]
    simp only [inner]
  | cons t gap ih =>
    obtain ⟨here, later⟩ := List.forall_mem_cons.mp blank
    rw [List.cons_append, Queue.ofTokens_blank here, readPlaceholders]
    exact ih later

/-! ### Main result -/

/-- What is written behind the command of a definition is read, and nothing is left. -/
theorem read_of_written (blank : ∀ t ∈ gap ++ gap', t.isBlank = true) (named : NamedBy name names)
    (unbraced : command = .define → names.length = 1) (group : IsGroup opener body closer) :
    read command (Queue.ofTokens (gap ++ (names ++ (gap' ++ opener :: (body ++ [closer]))))) =
      (.ok { command, name, body }, []) := by
  obtain ⟨blank, blank'⟩ := List.forall_mem_append.mp blank
  obtain ⟨e, popped, braced, bare⟩ := named.popArgument (gap' ++ opener :: (body ++ [closer]))
  have found := (Queue.popArgument_gap blank).trans popped
  have argument : (⟨.group, opener, body ++ [closer]⟩ : Expr).argument = body :=
    List.dropLast_concat
  have last : (Queue.ofTokens (gap' ++ opener :: (body ++ [closer]))).popArgument =
      (some ⟨.group, opener, body ++ [closer]⟩, []) := by
    rw [Queue.popArgument_gap blank', ofTokens_group group]
    rfl
  have bracketed : readBracketed command
      (Queue.ofTokens (gap ++ (names ++ (gap' ++ opener :: (body ++ [closer]))))) =
        (.ok { command, name, body }, []) := by
    rw [readBracketed, found]
    simp only [braced, readParameters_of_group blank' group, last, argument]
  cases command with
  | define =>
    rw [read, readPlain, found]
    simp only [bare (unbraced rfl), readPlaceholders_of_group blank' group]
  | newcommand | renewcommand | providecommand => exact bracketed

end Definition

end TexFormula

/-! ### Formulas -/

namespace TexFormula
open Token Definition

variable {command : Definition.Command} {name : String} {head : Token} {body tokens : List Token}
  {bound : Queue}

/-- The table in which a command has defined a name. -/
def Macro.Table.redefine (table : Macro.Table) (command : Definition.Command) (name : String)
    (m : Macro) : Macro.Table :=
  if !command.overwrites && table.contains name then table else table.insert name m

/-- A command that defines does so wherever it stands. -/
theorem Step.single_of_defines (defines : IsCommandOf head command.name) (o : Options)
    (macros : Macro.Table) (c : Context) (q : Queue.Below bound) :
    Step.single o macros head c q = Plan.definition macros command q := by
  obtain ⟨value, ⟨star, kind⟩, _⟩ := defines
  have plain : Step.pendingMarks? head = none := by
    unfold Step.pendingMarks? Step.operandMarks?
    rw [kind, value]
    cases command <;> rfl
  have unbroken : head.isCellBreak = false ∧ head.isRowBreak = false := by
    unfold isCellBreak isRowBreak isNamed
    rw [kind, value]
    cases command <;> exact ⟨rfl, rfl⟩
  have fixed : Command.fixed? head.value = some (.definition command) := by
    rw [value]
    cases command <;> rfl
  unfold Step.single Step.plain Plan.command
  rw [unbroken.1, unbroken.2, plain, fixed]
  simp [kind, isBlank, Plan.perform]

/-- The action of a definition that was read. -/
theorem Plan.definition_of_read (macros : Macro.Table) {q : Queue.Below bound}
    (read : Definition.read command q.val = (.ok { command, name, body }, []))
    (plain : ∀ t ∈ body, t.isNamed name = false) :
    (Plan.definition macros command q).1 =
        (if !command.overwrites && macros.contains name then .skip
          else .define name { body, inFormula := true }) ∧
      (Plan.definition macros command q).2.val = [] := by
  have steady : isRecursive { command, name, body } = false := by
    simpa [isRecursive] using plain
  unfold Plan.definition
  simp only [read, steady, Bool.false_eq_true, if_false]
  split <;> exact ⟨rfl, rfl⟩

/-- The step for a command that defines adds nothing to the row. -/
theorem Formula.perform_of_read {o : Options} {c : Context} {s : Scope} {rest : Queue}
    (defines : IsCommandOf head command.name)
    (read : Definition.read command rest = (.ok { command, name, body }, []))
    (plain : ∀ t ∈ body, t.isNamed name = false)
    (readers : Formula.Readers (⟨.single, head, []⟩ :: rest)) (d : Row.Draft) :
    let progress :=
      Formula.perform readers c (Step.ofExpr o s.macros c ⟨.single, head, []⟩ rest) d s
    progress.rest.val = [] ∧ progress.draft = d ∧ progress.scope =
      { s with macros := s.macros.redefine command name { body, inFormula := true } } := by
  have step : Step.ofExpr o s.macros c ⟨.single, head, []⟩ rest =
      ⟨head, (Step.single o s.macros head c ⟨rest, Queue.weight_lt_cons _ rest⟩).1,
        (Step.single o s.macros head c ⟨rest, Queue.weight_lt_cons _ rest⟩).2⟩ := rfl
  rw [step, Step.single_of_defines defines]
  obtain ⟨action, left⟩ := Plan.definition_of_read s.macros
    (q := ⟨rest, Queue.weight_lt_cons (⟨.single, head, []⟩ : Expr) rest⟩) read plain
  unfold Formula.perform Macro.Table.redefine
  rw [action]
  cases !command.overwrites && s.macros.contains name <;> exact ⟨left, rfl, rfl⟩

/-- A definition shows nothing, and is all that reading it changes. -/
theorem Formula.read_of_written (written : Written command name body tokens)
    (plain : ∀ t ∈ body, t.isNamed name = false) (o : Options) {c : Context}
    (unasked : c.takesArgument = false) (s : Scope) :
    Formula.read o c tokens s =
      (none, { s with macros := s.macros.redefine command name { body, inFormula := true } }) := by
  obtain ⟨defines, blank, named, unbraced, group⟩ := written
  have job : ∀ queue : Queue, Job.start queue c none =
      { queue, context := { c with takesArgument := false } } := by
    intro queue
    unfold Job.start
    rw [unasked]
  rw [Formula.read, job, Formula.readJob, Queue.ofTokens_alone defines.solid defines.alone]
  have progress := fun readers => Formula.perform_of_read (o := o)
    (c := { c with takesArgument := false }) (s := s) defines
    (read_of_written blank named unbraced group) plain readers {}
  simp only at progress ⊢
  rw [Formula.readRow]
  simp only [progress]
  rw [Formula.readRow]
  rfl

/-- Whether a name is the name of a declared macro. -/
def Macro.Table.Declares (table : Macro.Table) (name : String) : Prop :=
  ∃ m, table.get? name = some m ∧ m.inFormula = false

theorem Macro.Table.get?_redefine (table : Macro.Table) (command : Definition.Command)
    (name other : String) (m : Macro) :
    (table.redefine command name m).get? other =
      if other = name ∧ (command.overwrites = true ∨ table.get? name = none) then some m
      else table.get? other := by
  have absent : table.contains name = false ↔ table.get? name = none := by
    rw [Bool.eq_false_iff, Ne, Registry.contains_iff, Registry.mem_names_iff,
      Option.eq_none_iff_forall_ne_some, not_exists]
  unfold redefine
  cases overwrites : command.overwrites with
  | true => simp [Registry.get?_insert]
  | false =>
    cases known : table.contains name with
    | true =>
      have bound : table.get? name ≠ none := fun none => by simp [absent.mpr none] at known
      simp [bound]
    | false => simp [absent.mp known, Registry.get?_insert]

/-- A name that is not declared is called by no command. -/
theorem Token.IsCommandOf.callee? {t : Token} {table : Macro.Table} (spells : t.IsCommandOf name)
    (undeclared : ¬ table.Declares name) : table.callee? t = none := by
  rw [Option.eq_none_iff_forall_ne_some]
  intro m called
  obtain ⟨_, found, declared⟩ := Macro.Table.callee?_eq_some.mp called
  exact undeclared ⟨m, spells.value ▸ found, declared⟩

section Uncalled
variable {table : Macro.Table}

theorem Token.callee?_of_isBlank {t : Token} (blank : t.isBlank = true) :
    table.callee? t = none := by
  simp [Macro.Table.callee?, isCommand_of_isBlank blank]

theorem Token.callee?_of_curly {t : Token} (coherent : t.kind.Coherent)
    (curly : t.kind.curly = true) : table.callee? t = none := by
  simp [Macro.Table.callee?, isCommand_of_curly coherent curly]

theorem Definition.NamedBy.uncalled {names : List Token} (named : NamedBy name names)
    (coherent : ∀ t ∈ names, t.kind.Coherent) (undeclared : ¬ table.Declares name) :
    ∀ t ∈ names, table.callee? t = none := by
  cases named with
  | bare spells => exact List.forall_mem_singleton.mpr (spells.callee? undeclared)
  | braced group spells blank =>
    simp only [List.forall_mem_append, List.forall_mem_cons] at coherent blank ⊢
    obtain ⟨coherent_opener, _, coherent_closer, _⟩ := coherent
    exact ⟨callee?_of_curly coherent_opener group.curly.1,
      ⟨fun t member => callee?_of_isBlank (blank.1 t member), spells.callee? undeclared,
        fun t member => callee?_of_isBlank (blank.2 t member)⟩,
      callee?_of_curly coherent_closer group.curly.2, by simp⟩

/-- No token of a definition is replaced before it is read if its command, its name and its body
call nothing. -/
theorem Definition.Written.uncalled (written : Written command name body tokens)
    (coherent : ∀ t ∈ tokens, t.kind.Coherent) (command_free : ¬ table.Declares command.name)
    (name_free : ¬ table.Declares name) (body_free : ∀ t ∈ body, table.callee? t = none) :
    ∀ t ∈ tokens, table.callee? t = none := by
  obtain ⟨defines, blank, named, _, group⟩ := written
  simp only [List.forall_mem_append, List.forall_mem_cons] at coherent blank ⊢
  obtain ⟨_, _, coherent_names, _, coherent_opener, _, coherent_closer, _⟩ := coherent
  exact ⟨defines.callee? command_free, fun t member => callee?_of_isBlank (blank.1 t member),
    named.uncalled coherent_names name_free, fun t member => callee?_of_isBlank (blank.2 t member),
    callee?_of_curly coherent_opener group.curly.1, body_free,
    callee?_of_curly coherent_closer group.curly.2, by simp⟩

end Uncalled

namespace Document

/-- A definition written as a formula of its own shows nothing. It binds the name that it gives to
the body that it gives, if the name had no meaning or the command overwrites, and changes no other
name, whatever macros the document has: but neither the command nor the name may be the name of a
declared macro. -/
theorem definition_binds_name (d : Document) (source : String) (command : Definition.Command)
    (name : String) (body tokens : List Token) (read : tokenize source = .ok tokens)
    (written : Written command name body tokens)
    (plain : ∀ t ∈ body, t.isNamed name = false ∧ d.macros.callee? t = none)
    (command_free : ¬ d.macros.Declares command.name) (name_free : ¬ d.macros.Declares name) :
    ∃ after : Document,
      (∀ style, d.read source style = .ok (.row [], after)) ∧
      d.renderBody source = (.ok "<mrow></mrow>", after) ∧
      (∀ style, let shown := after.number style (.row [])
        d.render source style =
          (.ok ((whole style (shown.2.annotate source shown.1)).toXml d.options.pretty), shown.2)) ∧
      after = { d with macros := after.macros } ∧
      (∀ other, other ≠ name → after.macros.get? other = d.macros.get? other) ∧
      after.macros.get? name =
        if command.overwrites = true ∨ d.macros.get? name = none then
          some { body, inFormula := true }
        else d.macros.get? name := by
  have coherent := persistent_coherent.prepare (coherent_lex source) read
  have uncalled := written.uncalled coherent command_free name_free fun t member =>
    (plain t member).2
  have expanded := Macro.expand_of_uncalled uncalled
  have shown : ∀ style, d.read source style = .ok (.row [],
      { d with macros := d.macros.redefine command name { body, inFormula := true } }) := by
    intro style
    refine read_eq_ok_iff.mpr ⟨tokens, tokens, read, expanded, ?_⟩
    rw [Formula.read_of_written written (fun t member => (plain t member).1) d.options rfl]
    exact ⟨rfl, rfl⟩
  refine ⟨_, shown, ?_, fun style => ?_, rfl, fun other different => ?_, ?_⟩
  · have empty : ∀ pretty, (Node.row []).toXml pretty = "<mrow></mrow>" := by
      intro pretty
      cases pretty <;> cbv
    rw [renderBody, shown]
    simp only [empty]
  · rw [render, shown]
    unfold number
    simp only
    split <;> rfl
  · rw [Macro.Table.get?_redefine, if_neg fun both => different both.1]
  · rw [Macro.Table.get?_redefine]
    simp

theorem not_declares {table : Macro.Table} (absent : table.get? name = none) :
    ¬ table.Declares name := by
  rintro ⟨m, found, _⟩
  rw [absent] at found
  cases found

set_option maxRecDepth 4096 in
/-- A new name is bound beside a declared macro. -/
theorem definition_binds_name_vector :
    ∃ d after : Document, d = .ofMacros [("R", "\\mathbb\x7bR\x7d")] {} ∧
      d.renderBody "\\def\\v\x7b\\vec x\x7d" = (.ok "<mrow></mrow>", after) ∧
      (after.macros.get? "v").map (fun m => spellingAll m.body) = some "\\vec x" ∧
      after.macros.get? "R" = d.macros.get? "R" := by
  let command (value : String) : Token := { kind := { command := true }, value }
  let space : Token := { kind := { whitespace := true }, value := " " }
  let opener : Token := { kind := { curly := true, opens := true }, value := "\x7b", offset := 4 }
  let closer : Token := { kind := { curly := true, closes := true }, value := "\x7d", offset := -4 }
  let body : List Token := [command "vec", space, { kind := { letter := true }, value := "x" }]
  have read : tokenize "\\def\\v\x7b\\vec x\x7d" =
      .ok (command "def" :: command "v" :: opener :: (body ++ [closer])) := by cbv
  have spells : ∀ name, IsCommandOf (command name) name := fun name => ⟨rfl, ⟨false, rfl⟩, rfl⟩
  have group : IsGroup opener body closer := ⟨⟨rfl, rfl⟩, rfl, rfl⟩
  have written : Written .define "v" body
      (command "def" :: ([] ++ ([command "v"] ++ ([] ++ opener :: (body ++ [closer]))))) :=
    .intro (spells "def") (by simp) (.bare (spells "v")) (fun _ => rfl) group
  have bare : ∀ name, (ofMacros [("R", "\\mathbb\x7bR\x7d")] {}).macros.get? name = none →
      (ofMacros [("R", "\\mathbb\x7bR\x7d")] {}).macros.callee? (command name) = none :=
    fun name absent => (spells name).callee? (not_declares absent)
  obtain ⟨after, _, shown, _, _, others, bound⟩ := definition_binds_name
    (.ofMacros [("R", "\\mathbb\x7bR\x7d")] {}) _ .define "v" body _ read written
    (List.forall_mem_cons.mpr ⟨⟨rfl, bare "vec" (by cbv)⟩,
      List.forall_mem_cons.mpr ⟨⟨rfl, rfl⟩, List.forall_mem_singleton.mpr ⟨rfl, rfl⟩⟩⟩)
    (not_declares (by cbv)) (not_declares (by cbv))
  refine ⟨_, after, rfl, shown, ?_, others "R" (by decide)⟩
  rw [bound]
  cbv

set_option maxRecDepth 4096 in
/-- The name of a declared macro is not bound. Its call is replaced before the definition is read,
so that a definition of it defines what its text names. -/
theorem declared_name_not_bound :
    ∃ d after : Document, ∃ tokens body, d = .ofMacros [("R", "\\S")] {} ∧
      tokenize "\\renewcommand\x7b\\R\x7d\x7bx\x7d" = .ok tokens ∧
      Written .renewcommand "R" body tokens ∧
      (∀ t ∈ body, t.isNamed "R" = false ∧ d.macros.callee? t = none) ∧
      d.renderBody "\\renewcommand\x7b\\R\x7d\x7bx\x7d" = (.ok "<mrow></mrow>", after) ∧
      after.macros.get? "R" = d.macros.get? "R" ∧ d.macros.get? "S" = none ∧
      after.macros.get? "S" = some { body, inFormula := true } := by
  let command (value : String) : Token := { kind := { command := true }, value }
  let opener (offset : Int) : Token :=
    { kind := { curly := true, opens := true }, value := "\x7b", offset }
  let closer (offset : Int) : Token :=
    { kind := { curly := true, closes := true }, value := "\x7d", offset }
  let x : Token := { kind := { letter := true }, value := "x" }
  have read : tokenize "\\renewcommand\x7b\\R\x7d\x7bx\x7d" = .ok [command "renewcommand",
      opener 2, command "R", closer (-2), opener 2, x, closer (-2)] := by cbv
  have spells : ∀ name, IsCommandOf (command name) name := fun name => ⟨rfl, ⟨false, rfl⟩, rfl⟩
  have named : NamedBy "R" (opener 2 :: ([] ++ command "R" :: [] ++ [closer (-2)])) :=
    .braced ⟨⟨rfl, rfl⟩, rfl, rfl⟩ (spells "R") (by simp)
  have written : Written .renewcommand "R" [x] (command "renewcommand" ::
      ([] ++ ((opener 2 :: ([] ++ command "R" :: [] ++ [closer (-2)])) ++
        ([] ++ opener 2 :: ([x] ++ [closer (-2)]))))) :=
    .intro (spells "renewcommand") (by simp) named (by simp) ⟨⟨rfl, rfl⟩, rfl, rfl⟩
  refine ⟨_, _, _, _, rfl, read, written, ?_, by cbv, by cbv, by cbv, by cbv⟩
  exact List.forall_mem_singleton.mpr ⟨rfl, rfl⟩

end Document

end TexFormula
