import Mathlib
import Mathlib.Data.List.Nodup
import TexFormula.Macro.Declaration
import TexFormula.Proofs.Macro.Flattening
import TexFormula.Proofs.Token.Lexeme

/-! Tables of declared macros. Such a table is a flattening of the table of the bodies that were
read, in which the macros on a cycle have been replaced by their stand-ins. -/

/-! ### Sources

Sources of macros. A macro is read from the last source of its name that can be read, and all
sources that can be read declare their names. -/

namespace TexFormula.Macro

/-- A source that declares a name: it spells the name, and its body can be read. -/
def Declares (source : String × String) (name : String) (body : List Token) : Prop :=
  plainName source.1 = name ∧ Token.tokenize source.2 = .ok body

variable {table : Table} {sources : List (String × String)} {source : String × String}
  {name : String} {body : List Token} {m : Macro}

theorem get?_declare (declares : Declares source name body) (other : String) :
    (declare table source.1 source.2).get? other =
      if other = name then some { body, arity := countArguments body } else table.get? other := by
  unfold declare
  rw [declares.2, ← declares.1]
  exact Registry.get?_insert _ _ _ _

/-- A source declares its name, or nothing. -/
theorem declares_or_declare_eq (table : Table) (source : String × String) :
    (∃ name body, Declares source name body) ∨ declare table source.1 source.2 = table := by
  unfold declare
  cases read : Token.tokenize source.2 with
  | ok body => exact .inl ⟨_, body, rfl, read⟩
  | error e => exact .inr rfl

theorem get?_foldl_declare
    (found : (sources.foldl (fun table source => declare table source.1 source.2) table).get? name =
      some m) :
    table.get? name = some m ∨
      ∃ source ∈ sources, ∃ body, Declares source name body ∧
        m = { body, arity := countArguments body } := by
  induction sources generalizing table with
  | nil => exact .inl found
  | cons source rest ih =>
    rcases ih found with early | ⟨later, member, spelled⟩
    · rcases declares_or_declare_eq table source with ⟨other, body, declares⟩ | same
      · rw [get?_declare declares] at early
        split at early
        case isTrue here =>
          cases early
          exact .inr ⟨source, List.mem_cons_self, body, here ▸ declares, rfl⟩
        case isFalse => exact .inl early
      · exact .inl (by simpa only [same] using early)
    · exact .inr ⟨later, List.mem_cons_of_mem _ member, spelled⟩

/-- Every macro is read from a source that declares it, and its arity is the largest number of a
placeholder. -/
theorem get?_readAll (found : (readAll sources).get? name = some m) :
    ∃ source ∈ sources, ∃ body, Declares source name body ∧
      m = { body, arity := countArguments body } := by
  rcases get?_foldl_declare found with early | read
  · cases early
  · exact read

theorem names_foldl_declare
    (declared : name ∈ table.names ∨ ∃ source ∈ sources, ∃ body, Declares source name body) :
    name ∈ (sources.foldl (fun table source => declare table source.1 source.2) table).names := by
  induction sources generalizing table with
  | nil => simpa using declared
  | cons source rest ih =>
    refine ih ?_
    rcases declared with old | ⟨later, member, body, declares⟩
    · left
      obtain ⟨m, found⟩ := Registry.mem_names_iff.mp old
      rcases declares_or_declare_eq table source with ⟨other, body, declares⟩ | same
      · rw [Registry.mem_names_iff]
        simp only [get?_declare declares]
        split
        · exact ⟨_, rfl⟩
        · exact ⟨m, found⟩
      · simpa only [same] using old
    · rcases List.mem_cons.mp member with rfl | later
      · exact .inl (Registry.mem_names_iff.mpr ⟨_, by rw [get?_declare declares, if_pos rfl]⟩)
      · exact .inr ⟨_, later, body, declares⟩

/-- The macros of a table are those that a source declares. -/
theorem mem_names_readAll :
    name ∈ (readAll sources).names ↔ ∃ source ∈ sources, ∃ body, Declares source name body := by
  constructor
  · intro member
    obtain ⟨m, found⟩ := Registry.mem_names_iff.mp member
    obtain ⟨source, inside, body, declares, _⟩ := get?_readAll found
    exact ⟨source, inside, body, declares⟩
  · exact fun declared => names_foldl_declare (.inr declared)

/-- Where no two sources spell one name, every source that can be read is the one that counts. -/
theorem get?_readAll_iff (distinct : (sources.map (plainName ·.1)).Nodup) :
    (readAll sources).get? name = some m ↔
      ∃ source ∈ sources, ∃ body, Declares source name body ∧
        m = { body, arity := countArguments body } := by
  refine ⟨get?_readAll, ?_⟩
  rintro ⟨source, member, body, declares, rfl⟩
  obtain ⟨m, found⟩ :=
    Registry.mem_names_iff.mp (mem_names_readAll.mpr ⟨source, member, body, declares⟩)
  obtain ⟨other, inside, read, declares', rfl⟩ := get?_readAll found
  have same : other = source :=
    List.inj_on_of_nodup_map distinct inside member (declares'.1.trans declares.1.symm)
  subst same
  cases declares.2.symm.trans declares'.2
  exact found

end TexFormula.Macro

/-! ### Tables -/

namespace TexFormula.Macro
open Token Relation

variable {table : Table} {sources : List (String × String)} {name other : String} {m : Macro}

/-! ### Stand-ins -/

theorem get?_markCyclic_of_onCycle (cycle : table.OnCycle name) :
    (markCyclic table).get? name = some (cyclic name) := by
  obtain ⟨m, found⟩ := Registry.mem_names_iff.mp cycle.mem_names
  have marked : table.cyclicNames.contains name = true := by
    simpa using Table.mem_cyclicNames.mpr cycle
  simp only [markCyclic]
  rw [Registry.get?_mapValues, found, Option.map_some, if_pos marked]

theorem get?_markCyclic_of_acyclic (acyclic : ¬ table.OnCycle name) :
    (markCyclic table).get? name = table.get? name := by
  have unmarked : ¬ table.cyclicNames.contains name = true := by
    simpa using mt Table.mem_cyclicNames.mp acyclic
  simp only [markCyclic]
  rw [Registry.get?_mapValues]
  simp only [if_neg unmarked]
  exact Option.map_id'

theorem names_markCyclic (table : Table) : (markCyclic table).names = table.names :=
  Registry.names_mapValues _ _

/-- A stand-in calls nothing. -/
theorem not_isCommand_of_mem_cyclic {t : Token} (member : t ∈ (cyclic name).body) :
    ¬ t.isCommand = true := by
  rw [List.mem_singleton.mp member]
  exact Bool.false_ne_true

/-- The macros on a cycle call nothing any more, and all others call what they called. -/
theorem calls_markCyclic :
    (markCyclic table).Calls name other ↔ table.Calls name other ∧ ¬ table.OnCycle name := by
  by_cases cycle : table.OnCycle name
  · refine iff_of_false ?_ fun both => both.2 cycle
    rintro ⟨m, found, t, inside, command, _⟩
    rw [get?_markCyclic_of_onCycle cycle] at found
    cases found
    exact not_isCommand_of_mem_cyclic inside command
  · unfold Table.Calls
    rw [get?_markCyclic_of_acyclic cycle]
    exact (and_iff_left cycle).symm

/-- Behind the stand-ins nothing is on a cycle. -/
theorem acyclic_markCyclic (table : Table) (name : String) : ¬ (markCyclic table).OnCycle name := by
  intro cycle
  obtain ⟨other, first, _⟩ := TransGen.head'_iff.mp cycle
  exact (calls_markCyclic.mp first).2
    (TransGen.mono (fun _ _ call => (calls_markCyclic.mp call).1) _ _ cycle)

/-! ### Flattening -/

theorem declared_markCyclic_readAll (sources : List (String × String)) :
    (markCyclic (readAll sources)).Declared := by
  intro name m found
  by_cases cycle : (readAll sources).OnCycle name
  · rw [get?_markCyclic_of_onCycle cycle] at found
    cases found
    exact ⟨rfl, rfl⟩
  · rw [get?_markCyclic_of_acyclic cycle] at found
    obtain ⟨_, _, body, _, rfl⟩ := get?_readAll found
    exact ⟨rfl, rfl⟩

/-- Before anything is flattened only the stand-ins are done. -/
theorem stage_start (table : Table) :
    Stage (markCyclic table) table.flattenOrder (markCyclic table) := by
  have stand_in : ∀ name, name ∉ table.flattenOrder → ∀ m, (markCyclic table).get? name = some m →
      m = cyclic name := by
    intro name absent m found
    by_cases cycle : table.OnCycle name
    · exact Option.some.inj (found.symm.trans (get?_markCyclic_of_onCycle cycle))
    · have member : name ∈ table.names :=
        names_markCyclic table ▸ Registry.mem_names_iff.mpr ⟨m, found⟩
      exact absurd (Table.mem_flattenOrder.mpr ⟨member, cycle⟩) absent
  have clear : ∀ name, name ∉ table.flattenOrder → ∀ m, (markCyclic table).get? name = some m →
      ∀ t ∈ m.body, Clear table.flattenOrder t := by
    intro name absent m found t inside command
    rw [stand_in name absent m found] at inside
    exact absurd command (not_isCommand_of_mem_cyclic inside)
  refine ⟨rfl, fun _ _ => rfl, fun name absent => ?_, clear, clear⟩
  cases found : (markCyclic table).get? name with
  | none => rfl
  | some m =>
    have uncalled : ∀ t ∈ m.body, (markCyclic table).callee? t = none := by
      intro t inside
      rw [stand_in name absent m found] at inside
      simp [Table.callee?, not_isCommand_of_mem_cyclic inside]
    rw [Option.map_some, settled_of_uncalled uncalled]

/-- The order in which macros are flattened keeps to the calls that the stand-ins leave. -/
theorem scheduled_flattenOrder (table : Table) :
    Scheduled (markCyclic table) (table.names.filter (!table.cyclicNames.contains ·)) []
      table.flattenOrder := by
  refine ⟨table.ordered_flattenOrder.mono fun name _ other depends => ?_, fun name active => ?_⟩
  · obtain ⟨call, member⟩ := Table.mem_dependencies.mp depends
    rw [names_markCyclic] at member
    exact Table.mem_dependencies.mpr ⟨(calls_markCyclic.mp call).1, member⟩
  · rw [names_markCyclic]
    exact (List.mem_filter.mp active).1

/-- The table of declared macros is a flattening. -/
theorem flattens_declareAll (sources : List (String × String)) :
    Flattens (declareAll sources) (markCyclic (readAll sources)) := by
  have scheduled := scheduled_flattenOrder (readAll sources)
  have stage := stage_start (readAll sources)
  rw [← List.append_nil (readAll sources).flattenOrder] at scheduled stage
  exact (stage.run scheduled (declared_markCyclic_readAll sources)).1.flattens

theorem names_declareAll (sources : List (String × String)) :
    (declareAll sources).names = (readAll sources).names :=
  (flattens_declareAll sources).names.trans (names_markCyclic _)

theorem get?_declareAll_of_onCycle (cycle : (readAll sources).OnCycle name) :
    (declareAll sources).get? name = some (cyclic name) := by
  have uncalled : ∀ t ∈ (cyclic name).body, (declareAll sources).callee? t = none := fun t inside =>
    by simp [Table.callee?, not_isCommand_of_mem_cyclic inside]
  rw [(flattens_declareAll sources).get?, get?_markCyclic_of_onCycle cycle, Option.map_some,
    settled_of_uncalled uncalled]

/-- A macro that is not on a cycle has the body that the finished table makes of the one that was
read. -/
theorem get?_declareAll_of_acyclic (acyclic : ¬ (readAll sources).OnCycle name) :
    (declareAll sources).get? name = ((readAll sources).get? name).map fun m =>
      { m with body := (declareAll sources).settled m.body } := by
  rw [(flattens_declareAll sources).get?, get?_markCyclic_of_acyclic acyclic]

/-- The marks in a table of declared macros name macros on a cycle. -/
theorem onCycle_of_mem_declareAll (found : (declareAll sources).get? name = some m) {t : Token}
    (inside : t ∈ m.body) (marked : t.kind.cyclic = true) : (readAll sources).OnCycle t.value := by
  refine ((flattens_declareAll sources).forall_mem_body (declared_markCyclic_readAll sources)
    (acyclic_markCyclic _) (lasting_cyclic.persistent (readAll sources).OnCycle) ?_ name m found t
    inside).1 marked
  intro name m found t inside marked
  by_cases cycle : (readAll sources).OnCycle name
  · rw [get?_markCyclic_of_onCycle cycle] at found
    cases found
    rw [List.mem_singleton.mp inside]
    exact cycle
  · rw [get?_markCyclic_of_acyclic cycle] at found
    obtain ⟨_, _, body, declares, rfl⟩ := get?_readAll found
    rw [acyclic_of_tokenize declares.2 t inside] at marked
    cases marked

/-- Each macro that is not on a cycle was flattened once, and the finished table expands its body as
the table did then. -/
theorem expand_declareAll_of_acyclic (found : (readAll sources).get? name = some m)
    (acyclic : ¬ (readAll sources).OnCycle name) :
    ∃ before after, (readAll sources).flattenOrder = before ++ name :: after ∧
      expand (before.foldl flatten (markCyclic (readAll sources))) m.body =
        expand (declareAll sources) m.body := by
  have member : name ∈ (readAll sources).flattenOrder :=
    Table.mem_flattenOrder.mpr ⟨Registry.mem_names_iff.mpr ⟨m, found⟩, acyclic⟩
  obtain ⟨before, after, split⟩ := List.append_of_mem member
  refine ⟨before, after, split, ?_⟩
  have declared := declared_markCyclic_readAll sources
  have scheduled := scheduled_flattenOrder (readAll sources)
  have stage := stage_start (readAll sources)
  rw [split] at scheduled stage
  have next := (stage.run scheduled declared).1
  obtain ⟨done, ordered⟩ := scheduled.ordered.drop
  have later : Scheduled (markCyclic (readAll sources)) _ done (name :: after) :=
    ⟨ordered, scheduled.known⟩
  have clear := later.clear ((get?_markCyclic_of_acyclic acyclic).trans found)
  rw [← List.append_nil (name :: after)] at later next clear
  rw [← (next.run later declared).2 m.body clear, ← List.foldl_append, ← split]
  rfl

theorem onCycle_congr {another : Table} (same : ∀ name, another.get? name = table.get? name) :
    another.OnCycle = table.OnCycle := by
  have calls : another.Calls = table.Calls := by
    funext a b
    unfold Table.Calls
    rw [same]
  unfold Table.OnCycle
  rw [calls]

/-! ### Main results -/

/-- A declared macro is the mark of its own name exactly if it is on a cycle of calls. All others,
those that only lead to a cycle among them, are flattened once, and each of them after those that it
calls, directly or through others that are not on a cycle either. -/
theorem stand_in_iff_onCycle (sources : List (String × String)) :
    (∀ name, name ∈ (declareAll sources).names ↔
      ∃ source ∈ sources, ∃ body, Declares source name body) ∧
    (∀ name m, (readAll sources).get? name = some m →
      ∃ source ∈ sources, Declares source name m.body) ∧
    (∀ name m, (declareAll sources).get? name = some m →
      ((∃ t, m.body = [t] ∧ t.kind.cyclic = true ∧ t.value = name) ↔
        (readAll sources).OnCycle name) ∧
      ((readAll sources).OnCycle name → m = cyclic name)) ∧
    (readAll sources).flattenOrder.Nodup ∧
    (∀ name, name ∈ (readAll sources).flattenOrder ↔
      name ∈ (readAll sources).names ∧ ¬ (readAll sources).OnCycle name) ∧
    ∀ before name after, (readAll sources).flattenOrder = before ++ name :: after → ∀ other,
      TransGen (fun a b => (readAll sources).Calls a b ∧ b ∈ (readAll sources).names ∧
        ¬ (readAll sources).OnCycle b) name other → other ∈ before := by
  have ordered := (readAll sources).ordered_flattenOrder
  refine ⟨fun name => ?_, fun name m found => ?_, fun name m found => ⟨⟨?_, fun cycle => ?_⟩,
    fun cycle => ?_⟩, ordered.nodup, fun name => Table.mem_flattenOrder, ?_⟩
  · rw [names_declareAll, mem_names_readAll]
  · obtain ⟨source, member, body, declares, rfl⟩ := get?_readAll found
    exact ⟨source, member, declares⟩
  · rintro ⟨t, only, marked, rfl⟩
    exact onCycle_of_mem_declareAll found (only ▸ List.mem_singleton_self t) marked
  · cases found.symm.trans (get?_declareAll_of_onCycle cycle)
    exact ⟨_, rfl, rfl, rfl⟩
  · exact Option.some.inj (found.symm.trans (get?_declareAll_of_onCycle cycle))
  · intro before name after split other way
    rw [split] at ordered
    refine ordered.before_of_way (TransGen.mono (fun a b step => ?_) _ _ way)
    obtain ⟨call, member, acyclic⟩ := step
    exact ⟨Table.mem_dependencies.mpr ⟨call, member⟩,
      List.mem_filter.mpr ⟨member, by simpa using mt Table.mem_cyclicNames.mp acyclic⟩⟩

set_option maxRecDepth 4096 in
/-- A macro that only leads to a cycle is not on it. -/
theorem stand_in_iff_onCycle_leading :
    (readAll [("a", "\\a"), ("c", "\\a")]).OnCycle "a" ∧
    ¬ (readAll [("a", "\\a"), ("c", "\\a")]).OnCycle "c" ∧
    (readAll [("a", "\\a"), ("c", "\\a")]).flattenOrder = ["c"] := by
  obtain ⟨_, _, stand_in, _⟩ := stand_in_iff_onCycle [("a", "\\a"), ("c", "\\a")]
  have cycles : (declareAll [("a", "\\a"), ("c", "\\a")]).get? "a" = some (cyclic "a") := by cbv
  have leads : (declareAll [("a", "\\a"), ("c", "\\a")]).get? "c" = some (cyclic "a") := by cbv
  refine ⟨(stand_in "a" (cyclic "a") cycles).1.mp ⟨_, rfl, rfl, rfl⟩, fun cycle => ?_, by cbv⟩
  obtain ⟨t, only, _, own⟩ := (stand_in "c" (cyclic "a") leads).1.mpr cycle
  cases only
  exact absurd own (by decide)

/-- Sources that spell distinct names declare the same macros in whatever order they come. -/
theorem declareAll_perm {sources others : List (String × String)} (perm : sources.Perm others)
    (distinct : (sources.map (plainName ·.1)).Nodup) :
    (declareAll sources).names.Perm (declareAll others).names ∧
      ∀ name, (declareAll sources).get? name = (declareAll others).get? name := by
  have distinct' : (others.map (plainName ·.1)).Nodup := (perm.map _).nodup_iff.mp distinct
  have read : ∀ name, (readAll others).get? name = (readAll sources).get? name := by
    refine fun name => Option.ext fun m => ?_
    rw [get?_readAll_iff distinct, get?_readAll_iff distinct']
    simp only [perm.mem_iff]
  have marked : ∀ name,
      (markCyclic (readAll others)).get? name = (markCyclic (readAll sources)).get? name := by
    intro name
    by_cases cycle : (readAll sources).OnCycle name
    · rw [get?_markCyclic_of_onCycle cycle,
        get?_markCyclic_of_onCycle (onCycle_congr read ▸ cycle)]
    · rw [get?_markCyclic_of_acyclic cycle,
        get?_markCyclic_of_acyclic (onCycle_congr read ▸ cycle), read]
  have same : ∀ name, (declareAll others).get? name = (declareAll sources).get? name :=
    (flattens_declareAll sources).unique (flattens_declareAll others)
      (declared_markCyclic_readAll sources) (acyclic_markCyclic _) marked
  refine ⟨?_, fun name => (same name).symm⟩
  refine (List.perm_ext_iff_of_nodup (Registry.nodup_names _) (Registry.nodup_names _)).mpr ?_
  intro name
  rw [Registry.mem_names_iff, Registry.mem_names_iff, same]

/-- A macro whose body lacks an argument, one on a cycle, one that waits for neither and a body that
cannot be read, in both orders. -/
theorem declareAll_perm_reverse :
    (declareAll [("b", "\\c"), ("a", "\\a"), ("c", "#1"), ("d", "\x7b")]).names = ["b", "a", "c"] ∧
    (declareAll [("d", "\x7b"), ("c", "#1"), ("a", "\\a"), ("b", "\\c")]).names = ["c", "a", "b"] ∧
    ∀ name, (declareAll [("b", "\\c"), ("a", "\\a"), ("c", "#1"), ("d", "\x7b")]).get? name =
      (declareAll [("d", "\x7b"), ("c", "#1"), ("a", "\\a"), ("b", "\\c")]).get? name := by
  refine ⟨by cbv, by cbv, (declareAll_perm (List.reverse_perm _).symm ?_).2⟩
  decide

end TexFormula.Macro
