import TexFormula.Document.Session
import TexFormula.Proofs.Document.Reading
import TexFormula.Proofs.Formula.Definitions
import TexFormula.Proofs.Macro.Declaration
import TexFormula.Proofs.Registry

/-! The macros that a document knows. Formulas define macros while they are read, and declarations
prepare the whole table anew, so it has to be said what the table is after any session: what all
declarations so far prepare, with some of the names bound anew and other names bound besides, all of
them by formulas (`table_after`). Declarations can be given together or one after the other; this
makes a difference only for a macro of a formula whose name is declared on the way and is not
declared in the end, since its last body cannot be read. -/
namespace TexFormula

/-- A table that has the macros that are declared, unless formulas have defined others in their
place, and otherwise only macros that formulas have defined. -/
structure Macro.Table.Extends (table prepared : Macro.Table) : Prop where
  declared : ∀ name m, table.get? name = some m → m.inFormula = false →
    prepared.get? name = some m
  bound : ∀ name ∈ prepared.names, name ∈ table.names
  defined : ∀ name m, table.get? name = some m → m.inFormula = true → m.Defined name

namespace Macro.Table

variable {table old prepared : Macro.Table} {name : String} {m : Macro}

/-- Names that are not declared belong to macros that formulas have defined. -/
theorem Extends.inFormula (extension : table.Extends prepared) (found : table.get? name = some m)
    (undeclared : name ∉ prepared.names) : m.inFormula = true := by
  cases defined : m.inFormula with
  | true => rfl
  | false =>
    have declared := extension.declared name m found defined
    exact absurd (Registry.mem_names_iff.mpr ⟨m, declared⟩) undeclared

/-- A definition in a formula takes nothing from the table but what was bound to its name. -/
theorem Extends.insert (extension : table.Extends prepared) (new : m.Defined name) :
    Extends (Registry.insert table name m) prepared where
  declared other f found undefined := by
    rw [Registry.get?_insert] at found
    split at found
    · cases found
      cases new.inFormula.symm.trans undefined
    · exact extension.declared other f found undefined
  bound other member := by
    have old := extension.bound other member
    rw [Registry.names_insert]
    split
    · exact old
    · exact List.mem_append_left _ old
  defined other f found defined := by
    rw [Registry.get?_insert] at found
    split at found
    case isTrue same =>
      cases found
      exact same ▸ new
    case isFalse => exact extension.defined other f found defined

theorem declared_declareAll (sources : List (String × String)) :
    (Macro.declareAll sources).Declared :=
  (flattens_declareAll sources).declared (declared_markCyclic_readAll sources)

theorem extends_declareAll (sources : List (String × String)) :
    (Macro.declareAll sources).Extends (Macro.declareAll sources) where
  declared _ _ found _ := found
  bound _ member := member
  defined name m found defined := by
    cases (declared_declareAll sources name m found).2.symm.trans defined

/-- What is kept of an old table comes behind what is prepared. -/
theorem entries_keepDefined (table old : Macro.Table) :
    (Document.keepDefined table old).entries = table.entries ++
      old.entries.filter fun entry => entry.2.inFormula && !table.contains entry.1 := by
  refine Registry.entries_insertAll_of_new ?_ ?_
  · exact old.nodup.sublist (List.filter_sublist.map _)
  · intro entry kept
    obtain ⟨_, free⟩ := List.mem_filter.mp kept
    have free : entry.2.inFormula = true ∧ entry.1 ∉ table.names := by
      simpa [← Registry.contains_iff] using free
    exact free.2

/-- What is prepared hides what formulas have defined. -/
theorem get?_keepDefined (table old : Macro.Table) (name : String) :
    (Document.keepDefined table old).get? name =
      (table.get? name <|> (old.get? name).filter (·.inFormula)) := by
  refine Option.ext fun m => ?_
  rw [← Registry.mem_entries_iff, entries_keepDefined, List.mem_append, List.mem_filter,
    Registry.mem_entries_iff, Registry.mem_entries_iff, Bool.and_eq_true, Bool.not_eq_true',
    Bool.eq_false_iff, Ne, Registry.contains_iff, Registry.mem_names_iff]
  cases table.get? name with
  | none => simp [Option.filter_eq_some_iff]
  | some prepared => simp

theorem extends_keepDefined {sources : List (String × String)}
    (defined : ∀ name m, old.get? name = some m → m.inFormula = true → m.Defined name) :
    (Document.keepDefined (Macro.declareAll sources) old).Extends (Macro.declareAll sources) := by
  have entries := entries_keepDefined (Macro.declareAll sources) old
  -- every entry is either prepared or kept from the old table
  have origin : ∀ name m,
      (Document.keepDefined (Macro.declareAll sources) old).get? name = some m →
      (Macro.declareAll sources).get? name = some m ∨
        old.get? name = some m ∧ m.inFormula = true := by
    intro name m found
    rw [← Registry.mem_entries_iff, entries, List.mem_append, List.mem_filter,
      Registry.mem_entries_iff, Registry.mem_entries_iff, Bool.and_eq_true] at found
    exact found.imp_right fun kept => ⟨kept.1, kept.2.1⟩
  refine ⟨fun name m found undefined => ?_, fun name member => ?_, fun name m found inside => ?_⟩
  · rcases origin name m found with declared | ⟨_, inside⟩
    · exact declared
    · cases inside.symm.trans undefined
  · obtain ⟨m, found⟩ := Registry.mem_names_iff.mp member
    rw [← Registry.mem_entries_iff] at found
    refine Registry.mem_names_iff.mpr ⟨m, Registry.mem_entries_iff.mp ?_⟩
    rw [entries]
    exact List.mem_append_left _ found
  · rcases origin name m found with declared | ⟨kept, _⟩
    · cases (declared_declareAll sources name m declared).2.symm.trans inside
    · exact defined name m kept inside

end Macro.Table

namespace Document

/-- The declarations that an operation adds to a document. -/
def Operation.declarations : Operation → List (String × String)
  | .addMacros declarations => declarations
  | _ => []

theorem declareSources_append (sources : Registry String) (first others : List (String × String)) :
    declareSources sources (first ++ others) =
      declareSources (declareSources sources first) others := by
  unfold declareSources Registry.insertAll
  rw [List.map_append, List.foldl_append]

/-- Of several bodies that are declared for a name the last one counts. -/
theorem get?_declareSources_of_last (sources : Registry String) (before : List (String × String))
    (name body : String) {others : List (String × String)}
    (last : ∀ later ∈ others, Macro.plainName later.1 ≠ Macro.plainName name) :
    (declareSources sources (before ++ (name, body) :: others)).get? (Macro.plainName name) =
      some body := by
  have behind : ∀ sources : Registry String, sources.get? (Macro.plainName name) = some body →
      (declareSources sources others).get? (Macro.plainName name) = some body := by
    induction others with
    | nil => exact fun _ found => found
    | cons later rest ih =>
      intro sources found
      have apart := last later List.mem_cons_self
      refine ih (fun other member => last other (List.mem_cons_of_mem _ member))
        (sources.insert (Macro.plainName later.1) later.2) ?_
      rw [Registry.get?_insert, if_neg (Ne.symm apart)]
      exact found
  rw [declareSources_append]
  refine behind ((declareSources sources before).insert (Macro.plainName name) body) ?_
  rw [Registry.get?_insert, if_pos rfl]

/-! ### Sessions -/

/-- The macros of a document extend those that its sources declare. -/
def Prepared (d : Document) : Prop :=
  d.macros.Extends (Macro.declareAll d.sources.entries)

variable {d next : Document}

/-- Reading a formula only adds what it defines. -/
theorem Prepared.read {source : String} {style : Style} {n : Node} (prepared : d.Prepared)
    (succeeds : d.read source style = .ok (n, next)) :
    next.Prepared ∧ next.sources = d.sources := by
  obtain ⟨tokens, expanded, _, _, _, rfl⟩ := read_eq_ok_iff.mp succeeds
  have kept := Formula.macros_read (P := (·.Extends (Macro.declareAll d.sources.entries)))
    (fun _ _ _ new extension => extension.insert new) d.options style.context expanded
    (s := { macros := d.macros }) prepared
  exact ⟨kept, rfl⟩

/-- Every operation keeps to what is declared, and only declarations change that. -/
theorem Prepared.perform (prepared : d.Prepared) (operation : Operation) :
    (d.perform operation).2.Prepared ∧
      (d.perform operation).2.sources = declareSources d.sources operation.declarations := by
  cases operation with
  | render source style =>
    change (d.render source style).2.Prepared ∧ (d.render source style).2.sources = d.sources
    cases result : d.read source style with
    | error e => rw [render_of_error result]; exact ⟨prepared, rfl⟩
    | ok read =>
      obtain ⟨kept, same⟩ := prepared.read result
      rw [render_of_ok result, snd_number]
      exact ⟨kept, same⟩
  | renderBody source =>
    change (d.renderBody source).2.Prepared ∧ (d.renderBody source).2.sources = d.sources
    cases result : d.read source .inlined with
    | error e => rw [renderBody_of_error result]; exact ⟨prepared, rfl⟩
    | ok read => rw [renderBody_of_ok result]; exact prepared.read result
  | addMacros declarations =>
    exact ⟨Macro.Table.extends_keepDefined prepared.defined, rfl⟩
  | setOptions options => exact ⟨prepared, rfl⟩

theorem Prepared.after (prepared : d.Prepared) (session : List Operation) :
    (d.after session).Prepared ∧ (d.after session).sources =
      declareSources d.sources (session.flatMap Operation.declarations) := by
  induction session generalizing d with
  | nil => exact ⟨prepared, rfl⟩
  | cons operation rest ih =>
    obtain ⟨here, sources⟩ := prepared.perform operation
    obtain ⟨kept, others⟩ := ih here
    refine ⟨kept, others.trans ?_⟩
    rw [sources, List.flatMap_cons, declareSources_append]

theorem prepared_ofMacros (declarations : List (String × String)) (options : Options) :
    (ofMacros declarations options).Prepared :=
  Macro.Table.extends_declareAll _

/-! ### Declarations in parts -/

/-- The tables that are prepared on the way while declarations are added in several parts. -/
def preparedTables (sources : Registry String) :
    List (List (String × String)) → List Macro.Table
  | [] => []
  | part :: others =>
    Macro.declareAll (declareSources sources part).entries ::
      preparedTables (declareSources sources part) others

theorem sources_foldl_addMacros (parts : List (List (String × String))) (d : Document) :
    (parts.foldl addMacros d).sources = declareSources d.sources parts.flatten := by
  induction parts generalizing d with
  | nil => rfl
  | cons part others ih =>
    rw [List.foldl_cons, ih, List.flatten_cons, declareSources_append]
    rfl

/-- A macro of a formula is kept over several parts if none of them declares its name. -/
theorem entries_foldl_addMacros (first : List (String × String))
    (others : List (List (String × String))) (d : Document) :
    ((first :: others).foldl addMacros d).macros.entries =
      (Macro.declareAll (declareSources d.sources (first :: others).flatten).entries).entries ++
      d.macros.entries.filter fun entry => entry.2.inFormula &&
        (preparedTables d.sources (first :: others)).all (!·.contains entry.1) := by
  induction others generalizing first d with
  | nil =>
    have kept := Macro.Table.entries_keepDefined
      (Macro.declareAll (declareSources d.sources first).entries) d.macros
    simpa [preparedTables, addMacros] using kept
  | cons second others ih =>
    have kept := Macro.Table.entries_keepDefined
      (Macro.declareAll (declareSources d.sources first).entries) d.macros
    -- nothing that the first part declares is a macro of a formula
    have none : (Macro.declareAll (declareSources d.sources first).entries).entries.filter
        (fun entry => entry.2.inFormula && (preparedTables (declareSources d.sources first)
          (second :: others)).all (!·.contains entry.1)) = [] := by
      rw [List.filter_eq_nil_iff]
      rintro ⟨name, m⟩ member
      have undefined := (Macro.Table.declared_declareAll _ name m
        (Registry.mem_entries_iff.mp member)).2
      simp [undefined]
    have step := ih second (d.addMacros first)
    have declared : (d.addMacros first).sources = declareSources d.sources first := rfl
    have macros : (d.addMacros first).macros.entries = _ := kept
    rw [declared, macros, List.filter_append, none, List.nil_append, List.filter_filter,
      ← declareSources_append] at step
    rw [List.foldl_cons, step]
    congr 2
    funext entry
    simp only [preparedTables, List.all_cons]
    cases entry.2.inFormula <;> simp [Bool.and_comm]

/-- The table that is prepared after the last part is one of them. -/
theorem declareAll_mem_preparedTables (first : List (String × String))
    (others : List (List (String × String))) (sources : Registry String) :
    Macro.declareAll (declareSources sources (first :: others).flatten).entries ∈
      preparedTables sources (first :: others) := by
  induction others generalizing first sources with
  | nil => simp [preparedTables]
  | cons second others ih =>
    have last := ih second (declareSources sources first)
    rw [← declareSources_append] at last
    exact List.mem_cons_of_mem _ last

/-- Where the parts of a list of declarations take the same names from formulas, they lead to the
same table. -/
theorem macros_foldl_addMacros_eq_iff (first : List (String × String))
    (others : List (List (String × String))) (d : Document) :
    ((first :: others).foldl addMacros d).macros =
        (d.addMacros (first :: others).flatten).macros ↔
      ∀ name m, d.macros.get? name = some m → m.inFormula = true →
        (∃ table ∈ preparedTables d.sources (first :: others), name ∈ table.names) →
        name ∈ (Macro.declareAll
          (declareSources d.sources (first :: others).flatten).entries).names := by
  have apart := entries_foldl_addMacros first others d
  have together := Macro.Table.entries_keepDefined
    (Macro.declareAll (declareSources d.sources (first :: others).flatten).entries) d.macros
  have last := declareAll_mem_preparedTables first others d.sources
  constructor
  · intro same name m found inside taken
    obtain ⟨table, among, member⟩ := taken
    by_cases kept : name ∈ (Macro.declareAll
        (declareSources d.sources (first :: others).flatten).entries).names
    · exact kept
    · rw [same] at apart
      have filters := List.append_cancel_left (apart.symm.trans together)
      have here : (name, m) ∈ d.macros.entries := Registry.mem_entries_iff.mpr found
      have stays : (name, m) ∈ d.macros.entries.filter fun entry => entry.2.inFormula &&
          (preparedTables d.sources (first :: others)).all (!·.contains entry.1) := by
        rw [filters, List.mem_filter]
        simpa [here, inside, ← Registry.contains_iff] using kept
      have free := (List.mem_filter.mp stays).2
      simp only [inside, Bool.true_and, List.all_eq_true] at free
      have absent := free table among
      rw [Registry.contains_iff.mpr member] at absent
      cases absent
  · intro taken
    refine Registry.eq_of_entries ?_
    refine apart.trans (Eq.trans ?_ together.symm)
    congr 1
    refine List.filter_congr fun entry member => ?_
    obtain ⟨name, m⟩ := entry
    have found := Registry.mem_entries_iff.mp member
    cases inside : m.inFormula with
    | false => rfl
    | true =>
      simp only [Bool.true_and]
      rw [Bool.eq_iff_iff, List.all_eq_true]
      constructor
      · exact fun free => free _ last
      · intro free table among
        rw [Bool.not_eq_true', Bool.eq_false_iff] at free ⊢
        intro member
        have named := taken name m found inside
          ⟨table, among, Registry.contains_iff.mp member⟩
        exact free (Registry.contains_iff.mpr named)

/-- The table of a document after a session. Every macro in it that no formula has defined is the
one that is prepared from all declarations so far, of which the last one of a name counts; every
name that is prepared is bound; and all other names are bound to macros that formulas have defined,
none of which calls itself by its name. Further declarations lead to the same sources in one call
and in several calls, and they lead to the same table exactly if every macro of a formula whose name
is prepared after one of the calls has its name prepared after all of them. -/
theorem table_after (declarations : List (String × String)) (options : Options)
    (session : List Operation) :
    let given := declarations ++ session.flatMap Operation.declarations
    let d := (ofMacros declarations options).after session
    let prepared := Macro.declareAll (declareSources .empty given).entries
    d.sources = declareSources .empty given ∧
      (∀ before name body others, given = before ++ (name, body) :: others →
        (∀ later ∈ others, Macro.plainName later.1 ≠ Macro.plainName name) →
        d.sources.get? (Macro.plainName name) = some body) ∧
      d.macros.Extends prepared ∧
      (∀ name m, d.macros.get? name = some m → name ∉ prepared.names → m.inFormula = true) ∧
      ∀ first others,
        let parts := first :: others
        let apart := parts.foldl addMacros d
        let together := d.addMacros parts.flatten
        apart.sources = together.sources ∧
          (apart.macros = together.macros ↔
            ∀ name m, d.macros.get? name = some m → m.inFormula = true →
              (∃ table ∈ preparedTables d.sources parts, name ∈ table.names) →
              name ∈ (Macro.declareAll together.sources.entries).names) := by
  intro given d prepared
  obtain ⟨extension, sources⟩ := (prepared_ofMacros declarations options).after session
  have sources : d.sources = declareSources .empty given := by
    rw [declareSources_append]
    exact sources
  have extension : d.macros.Extends prepared := by
    have here : d.macros.Extends (Macro.declareAll d.sources.entries) := extension
    rwa [sources] at here
  refine ⟨sources, fun before name body others split last => ?_, extension,
    fun _ _ found => extension.inFormula found, fun first others => ⟨?_, ?_⟩⟩
  · rw [sources, split]
    exact get?_declareSources_of_last _ before name body last
  · exact sources_foldl_addMacros _ _
  · exact macros_foldl_addMacros_eq_iff first others d

/-- A document in which a formula has defined a macro. -/
def definingFoo : Document :=
  (ofMacros [] {}).after [.renderBody "\\newcommand\x7b\\foo\x7d\x7bx\x7d"]

set_option maxRecDepth 4096 in
/-- A macro of a formula whose name is declared with a body that can be read and then with one that
cannot is lost if the two declarations come apart, and kept if they come together. -/
theorem definition_lost_between_declarations :
    ([[("foo", "y")], [("foo", "\x7b")]].foldl addMacros definingFoo).macros ≠
      (definingFoo.addMacros [[("foo", "y")], [("foo", "\x7b")]].flatten).macros := by
  intro same
  have defined : (definingFoo.macros.get? "foo").map (·.inFormula) = some true := by cbv
  obtain ⟨m, found, inside⟩ := Option.map_eq_some_iff.mp defined
  have taken : (Macro.declareAll (declareSources definingFoo.sources [("foo", "y")]).entries).names =
      ["foo"] := by cbv
  have free : (Macro.declareAll (declareSources definingFoo.sources
      [[("foo", "y")], [("foo", "\x7b")]].flatten).entries).names = [] := by cbv
  have kept := (macros_foldl_addMacros_eq_iff _ _ definingFoo).mp same "foo" m found inside
    ⟨_, List.mem_cons_self, taken ▸ List.mem_cons_self⟩
  rw [free] at kept
  cases kept

end Document

end TexFormula
