import Mathlib
import TexFormula.Proofs.Document.Table
import TexFormula.Proofs.Formula.Alike
import TexFormula.Proofs.Formula.Invariant
import TexFormula.Proofs.Macro.Arguments
import TexFormula.Proofs.Macro.Exhaustion
import TexFormula.Proofs.Macro.Restriction
import TexFormula.Proofs.Step.Alike

/-! Macros that nothing mentions. Further declarations change the dependencies between macros, the
order in which they are flattened and what is looked up while a formula is read. None of this makes
a difference for a formula if no command in it, in the declared bodies or in the macros that
formulas have defined has one of the new names
(`unmentioned_macros_do_not_interfere`). -/

/-! ### Declared macros

Declared macros while a formula is read. All calls of them are replaced before tokens are read,
those in the expansion of a macro of the formula as well, so that no token names one of them any
more; and what no token names is not bound. So they are the same afterwards
(`get?_read_of_declared`). -/

namespace TexFormula

/-- Tokens of which none calls a name of a set. -/
def Difference.uncalled (S : String → Prop) : Difference where
  comments := False
  macros := True
  holds t := t.isCommand = true → ¬ S t.value
  lasts := Token.lasting_command.persistent (¬ S ·)
  coherent := False.elim
  stored := False.elim

namespace Formula

/-- Whether no expression of a queue calls a name of a set. -/
def Free (S : String → Prop) (q : Queue) : Prop :=
  ∀ e ∈ q, ∀ t ∈ e.tokens, t.isCommand = true → ¬ S t.value

/-- Whether a table declares a name. -/
def Declared (table : Macro.Table) (name : String) : Prop :=
  ∃ m, table.get? name = some m ∧ m.inFormula = false

/-- What is read calls no macro that a table declares, and these stay as they are. -/
def declarations (table : Macro.Table) : Invariant where
  job job := Free (Declared table) job.queue
  queue _ q := Free (Declared table) q
  node _ := True
  draft _ _ := True
  scope s := ∀ name, Declared table name → s.macros.get? name = table.get? name

variable {S : String → Prop} {bound : Queue} {q : Queue} {o : Options} {table : Macro.Table}
  {s : Scope} {tokens : List Token}

theorem Free.alike (free : Free S q) : Queue.Alike (.uncalled S) True q q :=
  Queue.alike_self free

theorem free_of_alike {q' : Queue} (alike : Queue.Alike (.uncalled S) True q q') : Free S q' :=
  alike.holds

theorem free_ofTokens (uncalled : ∀ t ∈ tokens, t.isCommand = true → ¬ S t.value) :
    Free S (.ofTokens tokens) := by
  have aligned : Aligned (.uncalled S) True tokens tokens := .refl uncalled
  exact free_of_alike aligned.queue

theorem free_start (free : Free S q) (c : Context) (parent : Option Node) :
    Free S (Job.start q c parent).queue :=
  free_of_alike (Job.alike_start free.alike rfl parent).queue

/-- The jobs of a plan that goes together with itself call no name of the set. -/
theorem yields_of_alike {α : Type} {bound bound' : Queue} {plan : Plan bound α}
    {plan' : Plan bound' α} (plans : Plan.Alike (.uncalled S) plan plan') :
    plan'.Yields (fun job => Free S job.queue) (fun _ => True) fun _ => True := by
  induction plans with
  | done => trivial
  | read jobs _ ih => exact ⟨free_of_alike jobs.queue, fun node _ => ih node⟩

theorem free_collectArguments (free : Free S q) (name : String) (m : Macro) :
    Free S (m.collectArguments name q).2 :=
  fun e member => free e (Macro.mem_of_mem_collectArguments e member)

/-- Where no declared macro has changed, what an expansion leaves calls none of them. -/
theorem uncalled_of_expand
    (scope : ∀ name, Declared table name → s.macros.get? name = table.get? name)
    {expanded : List Token} (done : Macro.expand s.macros tokens = .ok expanded) :
    ∀ t ∈ expanded, t.isCommand = true → ¬ Declared table t.value := by
  rintro t member command ⟨m, found, declared⟩
  have uncalled := Macro.uncalled_of_expand done t member
  rw [← scope t.value ⟨m, found, declared⟩] at found
  cases uncalled.symm.trans (Macro.Table.callee?_eq_some.mpr ⟨command, found, declared⟩)

theorem kept_declarations (table : Macro.Table) (o : Options) : (declarations table).Kept o where
  start asked := ⟨asked, trivial⟩
  step {c e rest s} free scope := by
    obtain ⟨here, later⟩ := List.forall_mem_cons.mp free
    have tables : s.macros.Related (.uncalled (Declared table)) Eq s.macros := fun name _ => by
      cases s.macros.get? name with
      | none => exact .none
      | some m => exact .some rfl
    have step := Step.alike_ofExpr o tables (fun _ _ same => congrArg _ same) (c := c) rfl
      (Expr.alike_self here) (Queue.alike_self later) False.elim
    have actions := step.action
    refine ⟨free_of_alike step.rest, ?_⟩
    generalize (Step.ofExpr o s.macros c e rest).action = action at actions ⊢
    cases actions with
    | skip => trivial
    | promote => exact fun _ _ => trivial
    | place => exact fun _ _ => trivial
    | add plans => exact (yields_of_alike plans).mono fun _ _ _ _ => trivial
    | define binds _ =>
      obtain ⟨t, holds, command, rfl⟩ := binds
      intro name declared
      have other : name ≠ t.value := by
        rintro rfl
        exact holds command declared
      exact (Registry.get?_insert _ _ _ _).trans ((if_neg other).trans (scope name declared))
    | call name _ =>
      refine ⟨free_collectArguments (free_of_alike step.rest) name _, fun tokens called => ?_⟩
      simp only [Scope.callTokens, Token.bind_eq_ok_iff] at called
      obtain ⟨_, _, _, _, _, _, done⟩ := called
      exact free_start (free_ofTokens (uncalled_of_expand scope done)) c none
  add _ _ := trivial
  blank := trivial
  refusal _ := trivial
  failure _ _ := trivial
  count scope := scope
  finish _ _ _ _ := trivial

/-- A declared macro is the same after a formula is read. -/
theorem get?_read_of_declared (o : Options) (c : Context) {s : Scope}
    (expands : ∃ before, Macro.expand s.macros before = .ok tokens) {name : String}
    (declared : Declared s.macros name) :
    (read o c tokens s).2.macros.get? name = s.macros.get? name := by
  obtain ⟨before, done⟩ := expands
  have free := free_start (free_ofTokens (uncalled_of_expand (fun _ _ => rfl) done)) c none
  exact ((kept_declarations s.macros o).readJob 0 free fun _ _ => rfl).2 name declared

end Formula

end TexFormula

/-! ### Macros that nothing mentions -/

namespace TexFormula

/-- Readings with macros that may differ under some names, which no command has. -/
def Difference.unmentioned (names : List String) : Difference where
  comments := False
  macros := True
  holds t := t.kind.command = true → t.value ∉ names
  lasts := Token.lasting_anyCommand.persistent (· ∉ names)
  coherent := False.elim
  stored := False.elim

/-- Whether no command among the tokens has one of the names. -/
def Token.Avoids (names : List String) (tokens : List Token) : Prop :=
  ∀ t ∈ tokens, t.kind.command = true → t.value ∉ names

namespace Macro

variable {table old : Table} {name : String} {m : Macro}

/-! ### Names -/

/-- A name without the backslashes before it has no backslash before it. -/
theorem plainName_plainName (name : String) : plainName (plainName name) = plainName name := by
  unfold plainName Text.trimLeading
  rw [String.toList_ofList, List.dropWhile_idempotent]

theorem get?_readAll_entries {sources : Registry String}
    (plain : ∀ name ∈ sources.names, plainName name = name) (name : String) :
    (readAll sources.entries).get? name = (sources.get? name).bind fun source =>
      (Token.tokenize source).toOption.map fun body => { body, arity := countArguments body } := by
  have names : sources.entries.map (plainName ·.1) = sources.names := by
    refine List.map_congr_left fun entry member => ?_
    exact plain entry.1 (List.mem_map_of_mem member)
  refine Option.ext fun m => ?_
  rw [get?_readAll_iff (names ▸ sources.nodup_names), Option.bind_eq_some_iff]
  constructor
  · rintro ⟨⟨key, source⟩, member, body, ⟨same, read⟩, rfl⟩
    have here : key = name := (plain key (List.mem_map_of_mem member)).symm.trans same
    refine ⟨source, Registry.mem_entries_iff.mp (here ▸ member), ?_⟩
    rw [show Token.tokenize source = .ok body from read]
    rfl
  · rintro ⟨source, found, read⟩
    obtain ⟨body, prepared, rfl⟩ := Option.map_eq_some_iff.mp read
    have member := Registry.mem_entries_iff.mpr found
    refine ⟨(name, source), member, body, ⟨plain name (List.mem_map_of_mem member), ?_⟩, rfl⟩
    cases result : Token.tokenize source with
    | error e => rw [result] at prepared; cases prepared
    | ok body' => rw [result] at prepared; cases prepared; rfl

end Macro

namespace Document

variable {d next : Document} {names : List String} {name : String}

/-! ### Macros of formulas -/

/-- No formula has bound a declared name. -/
def Faithful (d : Document) : Prop :=
  ∀ name ∈ (Macro.declareAll d.sources.entries).names,
    d.macros.get? name = (Macro.declareAll d.sources.entries).get? name

theorem Faithful.read {source : String} {style : Style} {n : Node} (faithful : d.Faithful)
    (succeeds : d.read source style = .ok (n, next)) : next.Faithful := by
  obtain ⟨tokens, expanded, _, done, _, rfl⟩ := read_eq_ok_iff.mp succeeds
  intro name member
  have bound := faithful name member
  obtain ⟨m, found⟩ := Registry.mem_names_iff.mp member
  have declared : Formula.Declared d.macros name :=
    ⟨m, bound.trans found, (Macro.Table.declared_declareAll _ name m found).2⟩
  exact (Formula.get?_read_of_declared d.options style.context ⟨tokens, done⟩ declared).trans bound

theorem Faithful.addMacros (d : Document) (declarations : List (String × String)) :
    (d.addMacros declarations).Faithful := by
  intro name member
  obtain ⟨m, found⟩ := Registry.mem_names_iff.mp member
  have prepared : (Macro.declareAll (declareSources d.sources declarations).entries).get? name =
      some m := found
  have kept := Macro.Table.get?_keepDefined
    (Macro.declareAll (declareSources d.sources declarations).entries) d.macros name
  rw [prepared] at kept
  exact kept.trans found.symm

/-- However a document came about, no formula has bound a declared name. -/
theorem invariant_faithful : Invariant Faithful where
  read faithful succeeds := faithful.read succeeds
  declare declarations _ := Faithful.addMacros _ declarations
  setOptions _ faithful := faithful
  count _ faithful := faithful

theorem faithful_ofMacros (declarations : List (String × String)) (options : Options) :
    (ofMacros declarations options).Faithful :=
  fun _ _ => rfl

/-- A name is bound to the macro that is declared for it, or to one of a formula. -/
theorem get?_of_faithful (prepared : d.Prepared) (faithful : d.Faithful) (name : String) :
    d.macros.get? name = ((Macro.declareAll d.sources.entries).get? name <|>
      (d.macros.get? name).filter (·.inFormula)) := by
  cases declared : (Macro.declareAll d.sources.entries).get? name with
  | some m =>
    rw [faithful name (Registry.mem_names_iff.mpr ⟨m, declared⟩), declared]
    rfl
  | none =>
    have undeclared : name ∉ (Macro.declareAll d.sources.entries).names := fun member => by
      obtain ⟨m, found⟩ := Registry.mem_names_iff.mp member
      cases declared.symm.trans found
    cases found : d.macros.get? name with
    | none => rfl
    | some m =>
      have inside := Macro.Table.Extends.inFormula prepared found undeclared
      rw [Option.filter_some, if_pos inside]
      rfl

/-! ### Further declarations -/

/-- Sources are kept under plain names. -/
theorem plain_declareSources {sources : Registry String}
    (plain : ∀ name ∈ sources.names, Macro.plainName name = name)
    (declarations : List (String × String)) :
    ∀ name ∈ (declareSources sources declarations).names, Macro.plainName name = name := by
  intro name member
  rcases Registry.names_insertAll member with old | new
  · exact plain name old
  · rw [List.map_map, List.mem_map] at new
    obtain ⟨declaration, -, rfl⟩ := new
    exact Macro.plainName_plainName declaration.1

/-- The names of declarations, without backslashes before them. -/
def declaredNames (declarations : List (String × String)) : List String :=
  declarations.map fun declaration => Macro.plainName declaration.1

theorem get?_declareSources_of_new {sources : Registry String}
    {declarations : List (String × String)} (new : name ∉ declaredNames declarations) :
    (declareSources sources declarations).get? name = sources.get? name := by
  refine Registry.get?_insertAll_of_new ?_
  rw [List.map_map]
  exact new

/-- Whether nothing that a document knows mentions one of the names: no declared body that can be
read, and no body and no preset of a macro that a formula has defined. -/
structure Avoids (d : Document) (names : List String) : Prop where
  sources : ∀ name source tokens, d.sources.get? name = some source →
    Token.tokenize source = .ok tokens → Token.Avoids names tokens
  bodies : ∀ name m, d.macros.get? name = some m → m.inFormula = true →
    Token.Avoids names m.body
  presets : ∀ name m, d.macros.get? name = some m → m.inFormula = true →
    ∀ preset ∈ m.optional, Token.Avoids names preset

section Avoids
variable (avoids : d.Avoids names) (plain : ∀ name ∈ d.sources.names, Macro.plainName name = name)
include avoids plain

theorem Avoids.readAll {m : Macro}
    (found : (Macro.readAll d.sources.entries).get? name = some m) : Token.Avoids names m.body := by
  rw [Macro.get?_readAll_entries plain, Option.bind_eq_some_iff] at found
  obtain ⟨source, declared, read⟩ := found
  obtain ⟨body, prepared, rfl⟩ := Option.map_eq_some_iff.mp read
  cases result : Token.tokenize source with
  | error e => rw [result] at prepared; cases prepared
  | ok tokens =>
    rw [result] at prepared
    cases prepared
    exact avoids.sources name source _ declared result

/-- What is prepared mentions a name only if something that is declared does. -/
theorem Avoids.declareAll {m : Macro}
    (found : (Macro.declareAll d.sources.entries).get? name = some m) :
    Token.Avoids names m.body := by
  have lasts := Token.lasting_anyCommand.persistent (· ∉ names)
  have bodies := (Macro.flattens_declareAll d.sources.entries).forall_mem_body
    (Macro.declared_markCyclic_readAll _) (Macro.acyclic_markCyclic _) lasts ?_ name m found
  · exact fun t member => (bodies t member).1
  · intro name m found t member
    by_cases cycle : (Macro.readAll d.sources.entries).OnCycle name
    · rw [Macro.get?_markCyclic_of_onCycle cycle] at found
      cases found
      rw [List.mem_singleton.mp member]
      exact nofun
    · rw [Macro.get?_markCyclic_of_acyclic cycle] at found
      exact avoids.readAll plain found t member

theorem Avoids.calls {a b : String} (call : (Macro.readAll d.sources.entries).Calls a b) :
    b ∉ names := by
  obtain ⟨m, found, t, member, command, rfl⟩ := call
  simp only [Token.isCommand, Bool.and_eq_true] at command
  exact avoids.readAll plain found t member command.1

end Avoids

section Added
variable {added : List (String × String)} (avoids : d.Avoids (declaredNames added))
  (plain : ∀ name ∈ d.sources.names, Macro.plainName name = name) (prepared : d.Prepared)
  (faithful : d.Faithful)
include avoids plain prepared faithful

/-- Further declarations leave all macros of other names as they are, if nothing mentions the new
names. -/
theorem get?_addMacros (new : name ∉ declaredNames added) :
    (d.addMacros added).macros.get? name = d.macros.get? name := by
  have read : ∀ name, name ∉ declaredNames added →
      (Macro.readAll (declareSources d.sources added).entries).get? name =
        (Macro.readAll d.sources.entries).get? name := by
    intro name new
    rw [Macro.get?_readAll_entries plain,
      Macro.get?_readAll_entries (plain_declareSources plain added),
      get?_declareSources_of_new new]
  have same := Macro.get?_declareAll_among read
    (fun a b _ call => avoids.calls plain call) new
  rw [get?_of_faithful prepared faithful name, ← same]
  exact Macro.Table.get?_keepDefined _ _ name

theorem alike_addMacros :
    Macro.Table.Alike (.unmentioned (declaredNames added)) d.macros (d.addMacros added).macros where
  same := .inl trivial
  related name names := by
    obtain ⟨t, holds, command, rfl⟩ := names
    rw [get?_addMacros avoids plain prepared faithful (holds command)]
    cases found : d.macros.get? t.value with
    | none => exact .none
    | some m =>
      refine .some (Macro.alike_self ?_ ?_)
      · cases inside : m.inFormula with
        | true => exact avoids.bodies t.value m found inside
        | false => exact avoids.declareAll plain (prepared.declared t.value m found inside)
      · cases inside : m.inFormula with
        | true => exact avoids.presets t.value m found inside
        | false =>
          have declared := prepared.declared t.value m found inside
          have bare := (Macro.Table.declared_declareAll _ _ _ declared).1
          rw [bare]
          exact nofun

omit avoids plain prepared faithful in
theorem fst_number (d : Document) (style : Style) (formula : Node) :
    (d.number style formula).1 =
      if d.numbers style then numbered (d.equations + 1) formula else formula := by
  unfold number
  split <;> rfl

/-- A formula that does not mention the new names is read in the same way. -/
theorem read_addMacros {source : String}
    (unnamed : ∀ tokens, Token.tokenize source = .ok tokens →
      Token.Avoids (declaredNames added) tokens) (style : Style) :
    (∃ e, d.read source style = .error e ∧ (d.addMacros added).read source style = .error e) ∨
      ∃ formula table table', d.read source style = .ok (formula, { d with macros := table }) ∧
        (d.addMacros added).read source style =
          .ok (formula, { d.addMacros added with macros := table' }) ∧
        ∀ name, name ∉ declaredNames added → table.get? name = table'.get? name := by
  have tables := alike_addMacros avoids plain prepared faithful
  unfold Document.read
  cases result : Token.tokenize source with
  | error e => exact .inl ⟨e, rfl, rfl⟩
  | ok tokens =>
    have aligned : Aligned (.unmentioned (declaredNames added)) True tokens tokens :=
      .refl (unnamed tokens result)
    have outcome := Macro.alike_expand tables aligned
    simp only [bind, Except.bind]
    generalize Macro.expand d.macros tokens = expanded at outcome ⊢
    generalize Macro.expand (d.addMacros added).macros tokens = expanded' at outcome ⊢
    cases outcome with
    | error e => exact .inl ⟨e, rfl, rfl⟩
    | mismatched allowed => exact allowed.elim
    | @ok before before' aligned =>
      have start : Scope.Alike (.unmentioned (declaredNames added)) { macros := d.macros }
          { macros := (d.addMacros added).macros } := ⟨tables, rfl⟩
      obtain ⟨node, scopes⟩ := Formula.alike_read (o := d.options) (c := style.context) rfl aligned
        start False.elim
      refine .inr ⟨_, _, (Formula.read d.options style.context before'
        { macros := (d.addMacros added).macros }).2.macros, rfl, ?_, fun name new => ?_⟩
      · rw [node]
        rfl
      · have bound := scopes.macros.related name
          ⟨{ kind := { command := true }, value := name }, fun _ => new, rfl, rfl⟩
        generalize Registry.get? _ name = found at bound ⊢
        generalize Registry.get? _ name = found' at bound ⊢
        cases bound with
        | none => rfl
        | some alike => rw [alike.eq id]

end Added

/-- Macros that nothing mentions do not interfere. A source is rendered in the same way, to the same
text or with the same error, before and after further macros are declared for a document, and all
other names are bound to the same macros afterwards. This is so for every document that comes of a
session, whatever the bodies of the new macros are, whether they call macros of the document, each
other or themselves, if no command has one of the new names: none in the source as it is prepared,
none in the declared bodies that can be read, and none in the bodies and presets of the macros that
formulas have defined. -/
theorem unmentioned_macros_do_not_interfere (declarations : List (String × String))
    (options : Options) (session : List Operation) (added : List (String × String))
    (source : String)
    (avoids : ((ofMacros declarations options).after session).Avoids (declaredNames added))
    (unnamed : ∀ tokens, Token.tokenize source = .ok tokens →
      Token.Avoids (declaredNames added) tokens) :
    let d := (ofMacros declarations options).after session
    let extended := d.addMacros added
    (∀ style, (d.render source style).1 = (extended.render source style).1 ∧
      ∀ name, name ∉ declaredNames added →
        (d.render source style).2.macros.get? name =
          (extended.render source style).2.macros.get? name) ∧
      (d.renderBody source).1 = (extended.renderBody source).1 ∧
      ∀ name, name ∉ declaredNames added →
        (d.renderBody source).2.macros.get? name =
          (extended.renderBody source).2.macros.get? name := by
  intro d extended
  obtain ⟨prepared, sources⟩ := (prepared_ofMacros declarations options).after session
  have faithful := invariant_faithful.holds_after (faithful_ofMacros declarations options) session
  have plain : ∀ name ∈ d.sources.names, Macro.plainName name = name := by
    rw [sources]
    refine plain_declareSources (plain_declareSources ?_ declarations) _
    exact fun _ member => nomatch member
  have read := read_addMacros avoids plain prepared faithful unnamed
  have kept : ∀ name, name ∉ declaredNames added →
      d.macros.get? name = extended.macros.get? name := fun name new =>
    (get?_addMacros avoids plain prepared faithful new).symm
  refine ⟨fun style => ?_, ?_⟩
  · rcases read style with ⟨e, fails, fails'⟩ | ⟨formula, table, table', reads, reads', same⟩
    · rw [render_of_error fails, render_of_error fails']
      exact ⟨rfl, kept⟩
    · rw [render_of_ok reads, render_of_ok reads', snd_number, snd_number, fst_number, fst_number]
      exact ⟨rfl, same⟩
  · rcases read .inlined with ⟨e, fails, fails'⟩ | ⟨formula, table, table', reads, reads', same⟩
    · rw [renderBody_of_error fails, renderBody_of_error fails']
      exact ⟨rfl, kept⟩
    · rw [renderBody_of_ok reads, renderBody_of_ok reads']
      exact ⟨rfl, same⟩

/-- A document with a declared macro and one that a formula has defined. -/
def definingFence : Document :=
  (ofMacros [("a", "\\alpha")] {}).after
    [.renderBody "\\newcommand\\f[1]\x7b(#1)\x7d"]

set_option maxRecDepth 8192 in
/-- Two macros on a cycle, of which one also calls a macro of the document. -/
theorem unmentioned_macros_do_not_interfere_cycle :
    definingFence.macros.names = ["a", "f"] ∧
      ((definingFence.addMacros [("x", "\\y\\a"), ("y", "\\x")]).renderBody
        "\\f\x7b\\a\x7d").1 =
        .ok "<mrow><mo stretchy=\"false\">(</mo><mi>α</mi><mo stretchy=\"false\">)</mo></mrow>" := by
  have sources : definingFence.sources.entries = [("a", "\\alpha")] := by cbv
  have apart : definingFence.macros.entries.all (fun entry => entry.2.optional.isNone &&
      entry.2.body.all fun t => !(t.kind.command && ["x", "y"].contains t.value)) = true := by cbv
  have known : ∀ name m, definingFence.macros.get? name = some m →
      m.optional = none ∧ Token.Avoids ["x", "y"] m.body := by
    intro name m found
    have entry := List.all_eq_true.mp apart _ (Registry.mem_entries_iff.mpr found)
    simp only [Bool.and_eq_true, Option.isNone_iff_eq_none, List.all_eq_true] at entry
    exact ⟨entry.1, fun t member command => by simpa [command] using entry.2 t member⟩
  have declared : Token.tokenize "\\alpha" =
      .ok [{ kind := { command := true }, value := "alpha" }] := by cbv
  have avoids : definingFence.Avoids ["x", "y"] := by
    refine ⟨fun name source tokens found read => ?_, fun name m found _ => (known name m found).2,
      fun name m found _ preset given => ?_⟩
    · have entry := Registry.mem_entries_iff.mpr found
      rw [sources, List.mem_singleton] at entry
      cases entry
      cases declared.symm.trans read
      exact List.forall_mem_singleton.mpr (by decide)
    · rw [(known name m found).1] at given
      cases given
  have unnamed : ∀ tokens, Token.tokenize "\\f\x7b\\a\x7d" = .ok tokens →
      Token.Avoids ["x", "y"] tokens := by
    intro tokens read
    have written : (Token.tokenize "\\f\x7b\\a\x7d").toOption.all (fun tokens =>
        tokens.all fun t => !(t.kind.command && ["x", "y"].contains t.value)) = true := by cbv
    rw [read] at written
    intro t member command
    simpa [command] using List.all_eq_true.mp written t member
  refine ⟨by cbv, ?_⟩
  have same := (unmentioned_macros_do_not_interfere _ _ _ [("x", "\\y\\a"), ("y", "\\x")] _
    avoids unnamed).2.1
  exact same.symm.trans (by cbv)

end Document

end TexFormula
