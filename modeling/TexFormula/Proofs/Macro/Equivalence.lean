import TexFormula.Proofs.Macro.Exhaustion
import TexFormula.Proofs.Macro.Rounds

/-! Flattening and meaning. A flattened table is the table of the bodies that were read with some
bodies unfolded, so what a list unfolds to with the one it unfolds to with the other, as far as
calls are complete. Where the argument of an inner call is a bare placeholder they are not: such a
call takes the placeholder whole while a macro is flattened, and the first token of what stands in
its place otherwise. -/
namespace TexFormula.Macro
open Token Pairing

/-- A table with the macros of another one, some of them with their bodies unfolded. -/
def Unfolded (plain table : Table) : Prop :=
  ∀ name, table.get? name = plain.get? name ∨
    ∃ m body, plain.get? name = some m ∧ table.get? name = some { m with body } ∧
      Unfolds plain m.body (body.map unpaired) ∧ ∀ t ∈ body, t.Settled ∧ t.kind.Coherent

variable {plain table : Table} {t : Token} {m : Macro} {tokens out expanded others : List Token}
  {name source : String} {sources : List (String × String)}

/-! ### Unfolded tables -/

theorem Unfolded.callee? (unfolded : Unfolded plain table) (called : table.callee? t = some m) :
    ∃ old, plain.callee? t = some old ∧
      (m = old ∨ ∃ body, m = { old with body } ∧ Unfolds plain old.body (body.map unpaired) ∧
        ∀ u ∈ body, u.Settled ∧ u.kind.Coherent) := by
  obtain ⟨command, found, declared⟩ := Table.callee?_eq_some.mp called
  rcases unfolded t.value with same | ⟨old, body, before, after, unfolds, steady⟩
  · exact ⟨m, Table.callee?_eq_some.mpr ⟨command, same ▸ found, declared⟩, .inl rfl⟩
  · cases found.symm.trans after
    exact ⟨old, Table.callee?_eq_some.mpr ⟨command, before, declared⟩,
      .inr ⟨body, rfl, unfolds, steady⟩⟩

theorem Unfolded.arity (unfolded : Unfolded plain table) (t : Token) :
    (table.callee? t).map Macro.arity = (plain.callee? t).map Macro.arity := by
  unfold Table.callee?
  rcases unfolded t.value with same | ⟨old, body, before, after, _⟩
  · rw [same]
  · rw [before, after]
    split
    · cases declared : old.inFormula <;> simp [Option.filter, declared]
    · rfl

theorem Unfolded.orderly (unfolded : Unfolded plain table) (bodies : plain.Orderly) :
    table.Orderly := by
  have each : ∀ t m, table.callee? t = some m → Macro.Orderly table m.body ∧
      (∀ u ∈ m.body, u.kind.Coherent) ∧ m.optional = none := by
    intro t m called
    obtain ⟨old, before, rfl | ⟨body, rfl, unfolds, steady⟩⟩ := unfolded.callee? called
    · obtain ⟨complete, settled⟩ := bodies.body t m before
      exact ⟨⟨complete.congr unfolded.arity, settled⟩, bodies.coherent t m before,
        bodies.required t m before⟩
    · have complete : Macro.Complete plain body := .of_map_unpaired unfolds.complete
      exact ⟨⟨complete.congr unfolded.arity, fun u inside => (steady u inside).1⟩,
        fun u inside => (steady u inside).2, bodies.required t old before⟩
  exact ⟨fun t m called => (each t m called).1, fun t m called => (each t m called).2.1,
    fun t m called => (each t m called).2.2⟩

/-- A complete list unfolds to the same with unfolded bodies as with the bodies themselves. -/
theorem Unfolded.unfolds (unfolded : Unfolded plain table) (bodies : plain.Orderly)
    (bounded : plain.Bounded) (unfolds : Unfolds table tokens out)
    (complete : Complete plain tokens) : Unfolds plain tokens out := by
  have complete_bodies : plain.Complete := fun t m called => (bodies.body t m called).complete
  induction unfolds with
  | nil => exact .nil
  | @token t rest out uncalled plain_token _ ih =>
    have absent : plain.callee? t = none :=
      Option.map_eq_none_iff.mp ((unfolded.arity t).symm.trans (by rw [uncalled]; rfl))
    exact .token absent plain_token (ih (complete.of_token absent plain_token))
  | group braces inside _ inside_ih ih =>
    obtain ⟨within, behind⟩ := complete.of_group braces inside.nested
    exact .group braces (inside_ih within) (ih behind)
  | @call t m rest arguments after here out called plain_token takes _ _ body_ih ih =>
    obtain ⟨old, before, rfl | ⟨body, rfl, unfolds, _⟩⟩ := unfolded.callee? called
    · obtain ⟨_, given, behind⟩ := complete.of_call before takes
      have filled := (complete_bodies t m before).fill fun a member => (given a member).map_unpaired
      exact .call before plain_token takes (body_ih filled) (ih behind)
    · obtain ⟨_, given, behind⟩ := complete.of_call before takes
      have complete_body : Complete plain body := .of_map_unpaired unfolds.complete
      have filled := complete_body.fill fun a member => (given a member).map_unpaired
      have body_unfolds : Unfolds plain (fill arguments (body.map unpaired)) here := by
        rw [fill_map_unpaired]
        exact body_ih filled
      exact .call before plain_token takes
        (unfolds.fill complete_bodies bounded (complete_bodies t old before) given body_unfolds)
        (ih behind)

/-! ### Flattening -/

/-- Flattening one more macro of an unfolded table unfolds its body. -/
theorem Unfolded.flatten (unfolded : Unfolded plain table) (bodies : plain.Orderly)
    (bounded : plain.Bounded)
    (read : ∀ name m, plain.get? name = some m → Macro.Orderly plain m.body ∧ Paired m.body ∧
      ∀ t ∈ m.body, t.kind.Coherent) (name : String) :
    Unfolded plain (Macro.flatten table name) := by
  intro other
  rw [get?_flatten]
  split
  case isFalse => exact unfolded other
  case isTrue same =>
    subst same
    rcases unfolded other with same | ⟨m, body, before, after, unfolds, steady⟩
    · rw [same]
      cases before : plain.get? other with
      | none => exact .inl rfl
      | some m =>
        rw [Option.map_some, Table.settled]
        cases ran : expand table m.body with
        | error e => exact .inl rfl
        | ok body =>
          obtain ⟨orderly, paired, coherent⟩ := read other m before
          have steady : ∀ t ∈ m.body, t.Settled ∧ t.kind.Coherent := fun t inside =>
            ⟨orderly.settled t inside, coherent t inside⟩
          have table_bodies := unfolded.orderly bodies
          rw [expand_eq_expandRounds] at ran
          have unfolds := unfolds_of_expandRounds table_bodies
            (orderly.complete.congr unfolded.arity) paired steady ran
          exact .inr ⟨m, body, rfl, rfl, unfolded.unfolds bodies bounded unfolds orderly.complete,
            forall_mem_expandRounds persistent_steady table_bodies.closed steady ran⟩
    · have uncalled : ∀ t ∈ body, table.callee? t = none := by
        intro t inside
        have bare := unfolds.uncalled t.unpaired (List.mem_map_of_mem inside)
        exact Option.map_eq_none_iff.mp ((unfolded.arity t).trans (by
          rw [show plain.callee? t = none from bare]; rfl))
      refine .inr ⟨m, body, before, ?_, unfolds, steady⟩
      rw [after, Option.map_some]
      simp only [settled_of_uncalled uncalled]

/-- The number of arguments of a body that was read covers its placeholders. -/
theorem bounded_readAll (sources : List (String × String)) : (readAll sources).Bounded := by
  intro t m called u inside k number
  obtain ⟨_, found, _⟩ := Table.callee?_eq_some.mp called
  obtain ⟨_, _, body, _, rfl⟩ := get?_readAll found
  have counted : k ∈ body.filterMap placeholder? := List.mem_filterMap.mpr ⟨u, inside, number⟩
  rw [countArguments, List.foldl_eq_foldr]
  exact List.le_max_of_le' 0 counted (Nat.le_refl k)

/-- The bodies that were read are paired and coherent. -/
theorem paired_of_tokenize (read : tokenize source = .ok tokens) :
    Paired tokens ∧ ∀ t ∈ tokens, t.kind.Coherent :=
  ⟨paired_of_prepare (coherent_lex source) read,
    persistent_coherent.prepare (coherent_lex source) read⟩

theorem orderly_readAll
    (bodies : ∀ name m, (readAll sources).get? name = some m → Orderly (readAll sources) m.body) :
    (readAll sources).Orderly := by
  refine ⟨fun t m called => ?_, fun t m called => ?_, fun t m called => ?_⟩
  all_goals
    obtain ⟨_, found, _⟩ := Table.callee?_eq_some.mp called
    obtain ⟨_, _, body, ⟨_, read⟩, made⟩ := get?_readAll found
  · exact bodies t.value m found
  · rw [made]
    exact (paired_of_tokenize read).2
  · rw [made]

/-- Without cycles the table of declared macros is that of the bodies that were read, unfolded. -/
theorem unfolded_declareAll (acyclic : ∀ name, ¬ (readAll sources).OnCycle name)
    (bodies : ∀ name m, (readAll sources).get? name = some m → Orderly (readAll sources) m.body) :
    Unfolded (readAll sources) (declareAll sources) := by
  have start : Unfolded (readAll sources) (markCyclic (readAll sources)) := fun name =>
    .inl (get?_markCyclic_of_acyclic (acyclic name))
  refine List.foldlRecOn _ _ start fun table unfolded name _ => ?_
  refine unfolded.flatten (orderly_readAll bodies) (bounded_readAll sources) ?_ name
  intro other m found
  obtain ⟨_, _, body, ⟨_, read⟩, rfl⟩ := get?_readAll found
  exact ⟨bodies other _ found, paired_of_tokenize read⟩

/-! ### Main results -/

/-- What comes out of an expansion is known by its tokens, without their offsets. -/
theorem prepare_expanded (bodies : table.Orderly) (read : tokenize source = .ok tokens)
    (settled : ∀ t ∈ tokens, t.Settled) (done : expand table tokens = .ok expanded) :
    prepare expanded = .ok expanded ∧ ∀ t ∈ expanded, t.Settled := by
  have closed : table.Closed fun t => t.kind.Coherent := fun t m _ called =>
    ⟨bodies.coherent t m called, by simp [bodies.required t m called]⟩
  obtain ⟨raw, kinds, prepared⟩ := ready_of_expand persistent_coherent closed
    ⟨lex source, coherent_lex source, read⟩ done
  have steady : ∀ t ∈ tokens, t.Settled ∧ t.kind.Coherent := fun t member =>
    ⟨settled t member, (paired_of_tokenize read).2 t member⟩
  rw [expand_eq_expandRounds] at done
  have kept := forall_mem_expandRounds persistent_steady bodies.closed steady done
  have left : ∀ t ∈ expanded, t.Settled := fun t member => (kept t member).1
  exact ⟨prepare_prepared kinds left prepared, left⟩

/-- Where every call is complete, in the bodies as in the tokens, flattening preserves meaning: the
flattened macros and the macros as they were read expand the tokens in the same way. -/
theorem expand_declareAll_of_orderly (acyclic : ∀ name, ¬ (readAll sources).OnCycle name)
    (bodies : ∀ name m, (readAll sources).get? name = some m → Orderly (readAll sources) m.body)
    (read : tokenize source = .ok tokens) (orderly : Orderly (readAll sources) tokens)
    (plainly : expand (readAll sources) tokens = .ok expanded)
    (flatly : expand (declareAll sources) tokens = .ok others) : others = expanded := by
  have plain_bodies := orderly_readAll bodies
  have unfolded := unfolded_declareAll acyclic bodies
  have flat_bodies := unfolded.orderly plain_bodies
  obtain ⟨paired, coherent⟩ := paired_of_tokenize read
  have steady : ∀ t ∈ tokens, t.Settled ∧ t.kind.Coherent := fun t member =>
    ⟨orderly.settled t member, coherent t member⟩
  obtain ⟨again, settled⟩ := prepare_expanded plain_bodies read orderly.settled plainly
  obtain ⟨again', _⟩ := prepare_expanded flat_bodies read orderly.settled flatly
  rw [expand_eq_expandRounds] at plainly flatly
  have plain_unfolds :=
    unfolds_of_expandRounds plain_bodies orderly.complete paired steady plainly
  have flat_unfolds := unfolded.unfolds plain_bodies (bounded_readAll sources)
    (unfolds_of_expandRounds flat_bodies (orderly.complete.congr unfolded.arity) paired steady
      flatly) orderly.complete
  have same := flat_unfolds.unique plain_unfolds
  rw [prepare_congr settled same, again] at again'
  exact (Except.ok.inj again').symm

/-- Two macros of which one calls the other with its own argument in braces. -/
def bracedCall : List (String × String) :=
  [("b", "(#1)"), ("a", "\\b\x7b#1\x7d")]

set_option maxRecDepth 4096 in
/-- Where the placeholder stands in braces, the inner call takes all that comes in its place, before
flattening and afterwards. -/
theorem expand_declareAll_of_orderly_braces :
    ∃ tokens expanded others, tokenize "\\a\x7bxy\x7d" = .ok tokens ∧
      expand (readAll bracedCall) tokens = .ok expanded ∧
      expand (declareAll bracedCall) tokens = .ok others ∧
      spellingAll expanded = "(xy)" ∧ others = expanded := by
  let o (offset : Int) : Token :=
    { kind := { curly := true, opens := true }, value := "\x7b", offset }
  let c (offset : Int) : Token :=
    { kind := { curly := true, closes := true }, value := "\x7d", offset }
  let l (value : String) : Token := { kind := { letter := true }, value }
  let first : Token := { kind := { argument := true }, value := "1" }
  let left : Token := { kind := { opens := true }, value := "(", offset := 2 }
  let right : Token := { kind := { closes := true }, value := ")", offset := -2 }
  let call (value : String) : Token := { kind := { command := true }, value }
  have body_b : tokenize "(#1)" = .ok [left, first, right] := by cbv
  have body_a : tokenize "\\b\x7b#1\x7d" = .ok [call "b", o 2, first, c (-2)] := by cbv
  have read : tokenize "\\a\x7bxy\x7d" = .ok [call "a", o 3, l "x", l "y", c (-3)] := by cbv
  have called_b : (readAll bracedCall).callee? (call "b") =
      some { body := [left, first, right], arity := 1 } := by cbv
  have called_a : (readAll bracedCall).callee? (call "a") =
      some { body := [call "b", o 2, first, c (-2)], arity := 1 } := by cbv
  have braces : ∀ i j, Braces (o i) (c j) := fun i j =>
    ⟨⟨rfl, rfl⟩, ⟨rfl, rfl, rfl⟩, ⟨rfl, rfl⟩, ⟨rfl, rfl⟩, ⟨rfl, rfl⟩⟩
  have complete_of_group : ∀ name m inner i j, (readAll bracedCall).callee? (call name) = some m →
      m.arity = 1 → Complete (readAll bracedCall) inner →
      Complete (readAll bracedCall) (call name :: o i :: (inner ++ [c j])) := by
    intro name m inner i j called one inside
    have takes : Takes m.arity (o i :: (inner ++ [c j])) [inner] [] :=
      one ▸ .group (braces i j) inside.nested .done
    exact .call called rfl rfl takes (List.forall_mem_singleton.mpr inside) .nil
  have acyclic : ∀ name, ¬ (readAll bracedCall).OnCycle name := by
    intro name
    have none : (readAll bracedCall).cyclicNames = [] := by cbv
    rw [← Table.mem_cyclicNames, none]
    exact List.not_mem_nil
  have orderly : Orderly (readAll bracedCall) [call "a", o 3, l "x", l "y", c (-3)] :=
    ⟨complete_of_group "a" _ [l "x", l "y"] 3 (-3) called_a rfl
      (.token rfl rfl (.token rfl rfl .nil)), by decide⟩
  have bodies : ∀ name m, (readAll bracedCall).get? name = some m →
      Orderly (readAll bracedCall) m.body := by
    intro name m found
    obtain ⟨source, member, body, ⟨_, spelled⟩, rfl⟩ := get?_readAll found
    rcases List.mem_pair.mp member with rfl | rfl
    · cases body_b.symm.trans spelled
      exact ⟨.token rfl rfl (.token rfl rfl (.token rfl rfl .nil)), by decide⟩
    · cases body_a.symm.trans spelled
      exact ⟨complete_of_group "b" _ [first] 2 (-2) called_b rfl (.token rfl rfl .nil), by decide⟩
  have plainly : expand (readAll bracedCall) [call "a", o 3, l "x", l "y", c (-3)] =
      .ok [{ left with offset := 3 }, l "x", l "y", { right with offset := -3 }] := by cbv
  have flatly : expand (declareAll bracedCall) [call "a", o 3, l "x", l "y", c (-3)] =
      .ok [{ left with offset := 3 }, l "x", l "y", { right with offset := -3 }] := by cbv
  exact ⟨_, _, _, read, plainly, flatly, by cbv,
    expand_declareAll_of_orderly acyclic bodies read orderly plainly flatly⟩

/-- Two macros of which one calls the other with its own argument without braces. -/
def bareCall : List (String × String) :=
  [("b", "(#1)"), ("a", "\\b#1")]

set_option maxRecDepth 4096 in
/-- Without braces, flattening changes the meaning: the inner call takes its placeholder whole when
the macro is flattened, and the first letter of the argument otherwise. -/
theorem flattening_takes_placeholder_whole :
    (∀ name, ¬ (readAll bareCall).OnCycle name) ∧
    ∃ tokens expanded others, tokenize "\\a\x7bxy\x7d" = .ok tokens ∧
      expand (readAll bareCall) tokens = .ok expanded ∧
      expand (declareAll bareCall) tokens = .ok others ∧
      spellingAll expanded = "(x)y" ∧ spellingAll others = "(xy)" ∧ others ≠ expanded := by
  refine ⟨fun name => ?_, _, _, _, by cbv, by cbv, by cbv, by cbv, by cbv, by decide⟩
  have none : (readAll bareCall).cyclicNames = [] := by cbv
  rw [← Table.mem_cyclicNames, none]
  exact List.not_mem_nil

end TexFormula.Macro
