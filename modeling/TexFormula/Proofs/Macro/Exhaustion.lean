import TexFormula.Proofs.Macro.Declaration
import TexFormula.Proofs.Macro.Reassembly

/-! Expansion goes on until nothing is left to expand. What comes out of it is ready for parsing if
what went in was, and no token of it calls a declared macro. In a table of declared macros this is
true of every body whose flattening went through. -/
namespace TexFormula.Macro
open Token

/-- A table whose declared macros stand for coherent tokens. -/
def Table.Coherent (table : Table) : Prop :=
  ∀ name m, table.get? name = some m → m.inFormula = false →
    (∀ t ∈ m.body, t.kind.Coherent) ∧ ∀ preset ∈ m.optional, ∀ t ∈ preset, t.kind.Coherent

/-- A list that was made ready for parsing out of tokens with a property. -/
def Ready (Q : Token → Prop) (tokens : List Token) : Prop :=
  ∃ raw, (∀ t ∈ raw, Q t) ∧ prepare raw = .ok tokens

variable {Q : Token → Prop} {table : Table} {tokens expanded : List Token}
  {sources : List (String × String)} {name : String} {m : Macro}

theorem Table.Assembled.coherent (bodies : table.Assembled) : table.Coherent := by
  intro name m found declared
  obtain ⟨body, presets⟩ := bodies name m found declared
  exact ⟨body.coherent, fun preset member => (presets preset member).coherent⟩

theorem Table.Coherent.closed (coherent : table.Coherent) :
    table.Closed fun t => t.kind.Coherent := by
  intro t m _ called
  obtain ⟨_, found, declared⟩ := Table.callee?_eq_some.mp called
  exact coherent t.value m found declared

theorem Ready.holds (persistent : Persistent Q) (ready : Ready Q tokens) : ∀ t ∈ tokens, Q t := by
  obtain ⟨raw, holds, done⟩ := ready
  exact persistent.prepare holds done

/-! ### Rounds -/

/-- Rounds leave a list as it is or end with one that is made ready again. -/
theorem ready_of_expandRounds (persistent : Persistent Q) (closed : table.Closed Q) {n : Nat}
    (ready : Ready Q tokens) (done : expandRounds table n tokens = .ok expanded) :
    Ready Q expanded :=
  expandRounds_invariant (fun _ _ _ before ran again =>
    ⟨_, forall_mem_expandRound persistent closed (before.holds persistent) ran, again⟩) ready done

theorem ready_of_expand (persistent : Persistent Q) (closed : table.Closed Q)
    (ready : Ready Q tokens) (done : expand table tokens = .ok expanded) : Ready Q expanded := by
  rw [expand_eq_expandRounds] at done
  exact ready_of_expandRounds persistent closed ready done

theorem uncalled_of_expand (done : expand table tokens = .ok expanded) :
    ∀ t ∈ expanded, table.callee? t = none := by
  rw [expand_eq_expandRounds] at done
  exact uncalled_of_expandRounds done

/-! ### Flattened bodies -/

/-- In a table of declared macros every macro that is not on a cycle has its flattened body, which
calls nothing, or the body that was read, if that could not be flattened. -/
theorem body_declareAll (found : (readAll sources).get? name = some m)
    (acyclic : ¬ (readAll sources).OnCycle name) :
    ∃ body, (declareAll sources).get? name = some { m with body } ∧
      ((∀ t ∈ body, t.isCommand = true → t.value ∉ (declareAll sources).names) ∨
        (body = m.body ∧ ∃ before after e,
          (readAll sources).flattenOrder = before ++ name :: after ∧
          expand (before.foldl flatten (markCyclic (readAll sources))) m.body = .error e)) := by
  obtain ⟨before, after, split, same⟩ := expand_declareAll_of_acyclic found acyclic
  have stored := get?_declareAll_of_acyclic acyclic
  rw [found, Option.map_some] at stored
  refine ⟨_, stored, ?_⟩
  unfold Table.settled
  cases ran : expand (declareAll sources) m.body with
  | error e => exact .inr ⟨rfl, before, after, e, split, same.trans ran⟩
  | ok body =>
    refine .inl fun t member command known => ?_
    obtain ⟨other, entered⟩ := Registry.mem_names_iff.mp known
    have declared := (flattens_declareAll sources).declared (declared_markCyclic_readAll sources)
    have calls := callee?_eq_none_iff.mp (uncalled_of_expand ran t member) command other entered
    rw [(declared t.value other entered).2] at calls
    cases calls

/-! ### Main results -/

/-- An expansion that ends leaves no call of a declared macro, and makes its result ready for
parsing, with every delimiter paired, if it was given a list that is; without a call it changes
nothing. So the bodies of declared macros that are not on a cycle call no macro of their table, but
for those that could not be flattened, and these are as they were read. -/
theorem expand_leaves_no_call :
    (∀ table tokens expanded, expand table tokens = .ok expanded →
      (∀ t ∈ expanded, t.isCommand = true → ∀ m, table.get? t.value = some m →
        m.inFormula = true) ∧
      ((∃ raw, prepare raw = .ok tokens) → ∃ raw, prepare raw = .ok expanded) ∧
      (table.Coherent → Ready (·.kind.Coherent) tokens →
        Ready (·.kind.Coherent) expanded ∧ Matched expanded)) ∧
    (∀ source tokens, tokenize source = .ok tokens → Ready (·.kind.Coherent) tokens) ∧
    (∀ table : Table, table.Assembled → table.Coherent) ∧
    (∀ (table : Table) tokens, (∀ t ∈ tokens, t.isCommand = true → ∀ m,
      table.get? t.value = some m → m.inFormula = true) → expand table tokens = .ok tokens) ∧
    ∀ sources name m, (readAll sources).get? name = some m → ¬ (readAll sources).OnCycle name →
      (∃ source ∈ sources, Declares source name m.body) ∧
      ∃ body, (declareAll sources).get? name = some { m with body } ∧
        ((∀ t ∈ body, t.isCommand = true → t.value ∉ (declareAll sources).names) ∨
          (body = m.body ∧ ∃ before after e,
            (readAll sources).flattenOrder = before ++ name :: after ∧
            expand (before.foldl flatten (markCyclic (readAll sources))) m.body = .error e)) := by
  refine ⟨fun table tokens expanded done => ⟨fun t member => ?_, ?_, fun bodies ready => ?_⟩,
    fun source tokens read => ?_, fun table bodies => bodies.coherent,
    fun table tokens uncalled => ?_, fun sources name m found acyclic => ⟨?_, ?_⟩⟩
  · exact callee?_eq_none_iff.mp (uncalled_of_expand done t member)
  · rintro ⟨raw, prepared⟩
    have closed : table.Closed fun _ => True := by simp [Table.Closed]
    obtain ⟨again, _, result⟩ :=
      ready_of_expand persistent_true closed ⟨raw, by simp, prepared⟩ done
    exact ⟨again, result⟩
  · have result := ready_of_expand persistent_coherent bodies.closed ready done
    obtain ⟨raw, coherent, prepared⟩ := id result
    exact ⟨result, matched_of_prepare coherent prepared⟩
  · exact ⟨lex source, coherent_lex source, read⟩
  · exact expand_of_uncalled fun t member => callee?_eq_none_iff.mpr (uncalled t member)
  · obtain ⟨source, member, body, declares, rfl⟩ := get?_readAll found
    exact ⟨source, member, declares⟩
  · exact body_declareAll found acyclic

set_option maxRecDepth 4096 in
/-- The body of a call that lacks its argument cannot be flattened and stays as it was read. It is
expanded where the argument follows. -/
theorem expand_leaves_no_call_late :
    ∃ tokens expanded m before after e, tokenize "\\a x" = .ok tokens ∧
      expand (declareAll [("a", "\\b"), ("b", "#1")]) tokens = .ok expanded ∧
      (∀ t ∈ expanded, t.isCommand = true → ∀ m,
        (declareAll [("a", "\\b"), ("b", "#1")]).get? t.value = some m → m.inFormula = true) ∧
      Matched expanded ∧
      (declareAll [("a", "\\b"), ("b", "#1")]).get? "a" = some m ∧
      (readAll [("a", "\\b"), ("b", "#1")]).flattenOrder = before ++ "a" :: after ∧
      expand (before.foldl flatten (markCyclic (readAll [("a", "\\b"), ("b", "#1")]))) m.body =
        .error e := by
  obtain ⟨expansion, sources, tables, _, bodies⟩ := expand_leaves_no_call
  let call : Token := { kind := { command := true }, value := "b" }
  have found : (readAll [("a", "\\b"), ("b", "#1")]).get? "a" = some { body := [call] } := by cbv
  have stored : (declareAll [("a", "\\b"), ("b", "#1")]).get? "a" = some { body := [call] } := by
    cbv
  have acyclic : ¬ (readAll [("a", "\\b"), ("b", "#1")]).OnCycle "a" := by
    have none : (readAll [("a", "\\b"), ("b", "#1")]).cyclicNames = [] := by cbv
    rw [← Table.mem_cyclicNames, none]
    exact List.not_mem_nil
  have flattened : ∃ before after e,
      (readAll [("a", "\\b"), ("b", "#1")]).flattenOrder = before ++ "a" :: after ∧
      expand (before.foldl flatten (markCyclic (readAll [("a", "\\b"), ("b", "#1")]))) [call] =
        .error e := by
    obtain ⟨_, body, kept, quiet | ⟨_, failed⟩⟩ := bodies _ "a" _ found acyclic
    · cases stored.symm.trans kept
      have names : (declareAll [("a", "\\b"), ("b", "#1")]).names = ["a", "b"] := by cbv
      have absent := names ▸ quiet call List.mem_cons_self rfl
      exact absurd (by decide) absent
    · exact failed
  obtain ⟨before, after, e, order, failed⟩ := flattened
  have result : ∀ tokens expanded, tokenize "\\a x" = .ok tokens →
      expand (declareAll [("a", "\\b"), ("b", "#1")]) tokens = .ok expanded →
      (∀ t ∈ expanded, t.isCommand = true → ∀ m,
        (declareAll [("a", "\\b"), ("b", "#1")]).get? t.value = some m → m.inFormula = true) ∧
      Matched expanded := by
    intro tokens expanded read done
    obtain ⟨quiet, _, ready⟩ := expansion _ tokens expanded done
    exact ⟨quiet, (ready (tables _ (assembled_declareAll _)) (sources _ tokens read)).2⟩
  obtain ⟨quiet, matched⟩ := result
    [{ kind := { command := true }, value := "a" },
      { kind := { whitespace := true }, value := " " },
      { kind := { letter := true }, value := "x" }]
    [{ kind := { letter := true }, value := "x" }] (by cbv) (by cbv)
  exact ⟨_, _, { body := [call] }, before, after, e, by cbv, by cbv, quiet, matched, stored, order,
    failed⟩

end TexFormula.Macro
