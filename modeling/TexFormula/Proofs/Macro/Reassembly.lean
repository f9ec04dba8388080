import Mathlib
import TexFormula.Proofs.Macro.Locality
import TexFormula.Proofs.Token.Partners

/-! Reassembled token lists. Expansion cuts arguments out of prepared lists and puts them between
the tokens of bodies, and the result is prepared again. All such lists come from sources by a few
steps, and each of these steps keeps what the pairing relies on. -/
namespace TexFormula.Macro

/-- Token lists that come from sources by cutting, joining, calls of macros and preparation. -/
inductive Assembled : List Token → Prop
  | read {source tokens} (done : Token.tokenize source = .ok tokens) : Assembled tokens
  | stand_in (name : String) : Assembled (cyclic name).body
  | cut {tokens whole} (piece : tokens <:+: whole) (assembled : Assembled whole) : Assembled tokens
  | join {first second} (front : Assembled first) (back : Assembled second) :
    Assembled (first ++ second)
  | unpair {tokens} (assembled : Assembled tokens) : Assembled (tokens.map Token.unpaired)
  | call {m name arguments tokens} (body : Assembled m.body)
    (assembled : ∀ a ∈ arguments, Assembled a)
    (expanded : expandCall name m arguments = .ok tokens) : Assembled tokens
  | prepare {tokens prepared} (assembled : Assembled tokens)
    (done : Token.prepare tokens = .ok prepared) : Assembled prepared

/-- A table whose declared macros stand for assembled lists. Macros that a formula defines are not
expanded in it beforehand. -/
def Table.Assembled (table : Table) : Prop :=
  ∀ name m, table.get? name = some m → m.inFormula = false →
    Macro.Assembled m.body ∧ ∀ preset ∈ m.optional, Macro.Assembled preset

/-- Whatever is assembled from sources is coherent. -/
theorem Assembled.coherent {tokens : List Token} (assembled : Assembled tokens) :
    ∀ t ∈ tokens, t.kind.Coherent := by
  induction assembled with
  | @read source tokens done =>
    exact Token.persistent_coherent.prepare (Token.coherent_lex source) done
  | stand_in name => simpa [cyclic] using ⟨by simp, by simp⟩
  | cut piece _ ih => exact fun t member => ih t (piece.subset member)
  | join _ _ first second => exact List.forall_mem_append.mpr ⟨first, second⟩
  | unpair _ ih => exact Token.persistent_coherent.map_unpaired ih
  | call _ _ expanded body given =>
    exact forall_mem_substitute Token.persistent_coherent body given expanded
  | prepare _ done ih => exact Token.persistent_coherent.prepare ih done

/-! ### Rounds -/

/-- The arguments of a call are cut out of what follows it, unless one is a preset. -/
theorem assembled_collectArguments {name : String} {m : Macro} {rest : List Token}
    {arguments : List (List Token)} (preset : ∀ preset ∈ m.optional, Assembled preset)
    (assembled : Assembled rest)
    (taken : (m.collectArguments name (Queue.ofTokens rest)).1 = .ok arguments) :
    ∀ a ∈ arguments, Assembled a := by
  intro a member
  rcases infix_of_mem_collectArguments taken a member with piece | given
  · exact .cut piece assembled
  · exact preset a given

/-- A round of expansion assembles its result from the tokens, the bodies and the arguments. -/
theorem assembled_expandRound {table : Table} (bodies : table.Assembled) {tokens : List Token}
    {round : List Token × Bool} (assembled : Assembled tokens)
    (done : expandRound table tokens = .ok round) : Assembled round.1 := by
  induction tokens using expandRound.induct table generalizing round with
  | case1 =>
    rw [expandRound] at done
    cases done
    exact assembled
  | case2 t rest uncalled ih =>
    simp only [expandRound, uncalled, Token.bind_eq_ok_iff] at done
    obtain ⟨others, later, result⟩ := done
    cases result
    have first : Assembled [t] := .cut (List.prefix_append [t] rest).isInfix assembled
    have here : Assembled [t.unpaired] := .unpair first
    exact .join here (ih (.cut (List.suffix_cons t rest).isInfix assembled) later)
  | case3 t rest m called taken =>
    rename_i ih
    simp only [expandRound, called, Token.bind_eq_ok_iff] at done
    obtain ⟨arguments, collected, expanded, substituted, others, later, result⟩ := done
    cases result
    have behind : Assembled rest := .cut (List.suffix_cons t rest).isInfix assembled
    obtain ⟨_, found, declared⟩ := Table.callee?_eq_some.mp called
    obtain ⟨body, preset⟩ := bodies t.value m found declared
    have given := assembled_collectArguments preset behind collected
    exact .join (.call body given substituted)
      (ih (.cut (List.drop_suffix _ rest).isInfix behind) later)

/-- Rounds only prepare what earlier rounds assembled, and the last of them changes nothing. -/
theorem expandRounds_keeps {table : Table} (bodies : table.Assembled) {n : Nat}
    {tokens expanded : List Token} (assembled : Assembled tokens)
    (done : expandRounds table n tokens = .ok expanded) :
    Assembled expanded ∧ (Token.Matched tokens → Token.Matched expanded) := by
  refine expandRounds_invariant
    (P := fun list => Assembled list ∧ (Token.Matched tokens → Token.Matched list))
    (fun before round prepared kept ran again => ?_) ⟨assembled, id⟩ done
  have ready := assembled_expandRound bodies kept.1 ran
  exact ⟨.prepare ready again, fun _ => Token.matched_of_prepare ready.coherent again⟩

theorem expand_keeps {table : Table} (bodies : table.Assembled) {tokens expanded : List Token}
    (assembled : Assembled tokens) (done : expand table tokens = .ok expanded) :
    Assembled expanded ∧ (Token.Matched tokens → Token.Matched expanded) := by
  unfold expand at done
  split at done
  · cases done
    exact ⟨assembled, id⟩
  · exact expandRounds_keeps bodies assembled done

/-! ### Declarations -/

theorem assembled_insert {table : Table} (bodies : table.Assembled) {name : String} {m : Macro}
    (body : m.inFormula = false → Assembled m.body ∧ ∀ preset ∈ m.optional, Assembled preset) :
    Table.Assembled (table.insert name m) := by
  intro other found entered declared
  rw [Registry.get?_insert] at entered
  split at entered
  · cases entered
    exact body declared
  · exact bodies other found entered declared

theorem assembled_declare {table : Table} (bodies : table.Assembled) (name source : String) :
    (declare table name source).Assembled := by
  unfold declare
  split
  case h_1 body done => exact assembled_insert bodies fun _ => ⟨.read done, by simp⟩
  case h_2 => exact bodies

theorem assembled_markCyclic {table : Table} (bodies : table.Assembled) :
    (markCyclic table).Assembled := by
  intro name m found declared
  rw [markCyclic, Registry.get?_mapValues] at found
  obtain ⟨old, before, rfl⟩ := Option.map_eq_some_iff.mp found
  split
  · exact ⟨.stand_in name, by simp [cyclic]⟩
  case isFalse acyclic =>
    rw [if_neg acyclic] at declared
    exact bodies name old before declared

theorem assembled_flatten {table : Table} (bodies : table.Assembled) (name : String) :
    (flatten table name).Assembled := by
  unfold flatten
  split
  case h_1 => exact bodies
  case h_2 m found =>
    split
    case h_1 body done =>
      refine assembled_insert bodies fun declared => ?_
      obtain ⟨before, preset⟩ := bodies name m found declared
      exact ⟨(expand_keeps bodies before done).1, preset⟩
    case h_2 => exact bodies

/-- The table of declared macros holds assembled bodies only, whatever the sources. -/
theorem assembled_declareAll (sources : List (String × String)) :
    (declareAll sources).Assembled := by
  have none : Table.Assembled .empty := by
    intro name m found
    simp [Registry.get?, Registry.empty] at found
  have read : (readAll sources).Assembled := List.foldlRecOn _ _ none
    fun _ bodies source _ => assembled_declare bodies source.1 source.2
  exact List.foldlRecOn _ _ (assembled_markCyclic read) fun _ bodies name _ =>
    assembled_flatten bodies name

/-! ### Matched lists -/

/-- In every list that is made ready for parsing each offset leads to a partner that faces it, and
no brace and no environment delimiter is alone. This holds of sources, of whatever is assembled from
sources, and in particular of what the rounds of an expansion prepare. -/
theorem matched_wherever_prepared :
    (∀ source tokens, Token.tokenize source = .ok tokens → Token.Matched tokens) ∧
    (∀ tokens prepared, Assembled tokens → Token.prepare tokens = .ok prepared →
      Token.Matched prepared) ∧
    (∀ sources, (declareAll sources).Assembled) ∧
    ∀ table : Table, table.Assembled → ∀ tokens, Assembled tokens →
      (∀ round, expandRound table tokens = .ok round → Assembled round.1) ∧
      ∀ expanded, expand table tokens = .ok expanded →
        Token.Matched tokens → Token.Matched expanded := by
  refine ⟨?_, ?_, assembled_declareAll, ?_⟩
  · intro source tokens done
    exact Token.matched_of_prepare (fun t member => (Token.fresh_lex source t member).1) done
  · intro tokens prepared assembled done
    exact Token.matched_of_prepare assembled.coherent done
  · intro table bodies tokens assembled
    exact ⟨fun round ran => assembled_expandRound bodies assembled ran,
      fun expanded done => (expand_keeps bodies assembled done).2⟩

/-- The fences of a body are matched around the argument of its call. -/
theorem matched_wherever_prepared_call :
    ∃ tokens expanded, Token.tokenize "\x7b\\f x\x7d" = .ok tokens ∧
      expand (declareAll [("f", "\\left(#1\\right)")]) tokens = .ok expanded ∧
      expanded.map (·.offset) = [4, 2, 0, -2, -4] ∧ Token.Matched expanded := by
  obtain ⟨sources, _, declared, calls⟩ := matched_wherever_prepared
  have call : ∀ tokens expanded, Token.tokenize "\x7b\\f x\x7d" = .ok tokens →
      expand (declareAll [("f", "\\left(#1\\right)")]) tokens = .ok expanded →
      Token.Matched expanded := fun tokens expanded read done =>
    (calls _ (declared _) tokens (.read read)).2 expanded done (sources _ tokens read)
  exact ⟨_, _, by cbv, by cbv, by cbv, call _ _ (by cbv) (by cbv)⟩

end TexFormula.Macro
