import Mathlib.Data.List.Induction
import TexFormula.Proofs.Macro.Exhaustion
import TexFormula.Proofs.Token.Inlining

/-! Expansion as substitution in the source. A macro without arguments stands for its source text:
where its calls reach the expansion as they were read, expanding them comes to the same as writing
the text in their place before anything else is done. -/
namespace TexFormula.Macro
open Token Relation

/-- The source text of a declared macro, which is the last one of its name that can be read. -/
def sourceOf? (sources : List (String × String)) (name : String) : Option String :=
  (sources.reverse.find? fun source =>
    plainName source.1 == name && (tokenize source.2).toBool).map Prod.snd

/-- The source text of a macro that takes no arguments, calls nothing and leaves nothing to
complete. -/
structure Standalone (sources : List (String × String)) (text : String) : Prop where
  whole : Whole text
  argumentless : ∀ body, tokenize text = .ok body → countArguments body = 0
  uncalled : ∀ t ∈ lex text, hasText (sourceOf? sources) t = false

variable {sources : List (String × String)} {source name text : String} {t : Token}
  {body tokens prepared : List Token}

/-! ### The table -/

theorem get?_readAll_of_sourceOf? (spelled : sourceOf? sources name = some text)
    (read : tokenize text = .ok body) :
    (readAll sources).get? name = some { body, arity := countArguments body } := by
  induction sources using List.reverseRecOn with
  | nil => cases spelled
  | append_singleton front last ih =>
    have step : readAll (front ++ [last]) = declare (readAll front) last.1 last.2 :=
      List.foldl_append
    rw [sourceOf?, List.reverse_append, List.reverse_singleton, List.singleton_append,
      List.find?_cons] at spelled
    rw [step]
    split at spelled
    case h_1 here =>
      cases spelled
      simp only [Bool.and_eq_true, beq_iff_eq] at here
      rw [get?_declare ⟨here.1, read⟩, if_pos rfl]
    case h_2 other =>
      rcases declares_or_declare_eq (readAll front) last with ⟨declared, made, declares⟩ | same
      · have different : name ≠ declared := by
          rintro rfl
          simp [declares.1, declares.2, Except.toBool] at other
        rw [get?_declare declares, if_neg different]
        exact ih spelled
      · rw [same]
        exact ih spelled

theorem get?_readAll_of_unspelled (unspelled : sourceOf? sources name = none) :
    (readAll sources).get? name = none := by
  rw [Option.eq_none_iff_forall_ne_some]
  intro m found
  obtain ⟨source, member, body, ⟨named, read⟩, _⟩ := get?_readAll found
  have absent := List.find?_eq_none.mp (Option.map_eq_none_iff.mp unspelled) source
    (List.mem_reverse.mpr member)
  simp [named, read, Except.toBool] at absent

/-- What is no command, or has no source, calls nothing. -/
theorem callee?_of_bare (bare : hasText (sourceOf? sources) t = false) :
    (declareAll sources).callee? t = none := by
  rw [callee?_eq_none_iff]
  intro command m found
  have unspelled : sourceOf? sources t.value = none := by
    simpa [hasText, textOf?, command] using bare
  have known : t.value ∈ (declareAll sources).names := Registry.mem_names_iff.mpr ⟨m, found⟩
  rw [names_declareAll, Registry.mem_names_iff, get?_readAll_of_unspelled unspelled] at known
  simp at known

/-- The passes over tokens make no calls. -/
theorem bare_of_prepare (bare : ∀ t ∈ tokens, hasText (sourceOf? sources) t = false)
    (done : prepare tokens = .ok prepared) :
    ∀ t ∈ prepared, hasText (sourceOf? sources) t = false := by
  have persistent := lasting_command.persistent fun value => sourceOf? sources value = none
  have same : ∀ t : Token, (t.isCommand = true → sourceOf? sources t.value = none) ↔
      hasText (sourceOf? sources) t = false := by
    intro t
    cases command : t.isCommand <;> simp [hasText, textOf?, command]
  have unspelled := persistent.prepare (fun t member => (same t).mpr (bare t member)) done
  exact fun t member => (same t).mp (unspelled t member)

/-- A call of such a macro stands for its body, as it is read. -/
theorem Standalone.callee? (standalone : Standalone sources text)
    (stands : textOf? (sourceOf? sources) t = some text) (read : tokenize text = .ok body) :
    (declareAll sources).callee? t = some { body } := by
  have command : t.isCommand = true := isCommand_of_hasText (hasText_of_some stands)
  have spelled : sourceOf? sources t.value = some text := by simpa [textOf?, command] using stands
  have found := get?_readAll_of_sourceOf? spelled read
  rw [standalone.argumentless body read] at found
  have bare := bare_of_prepare standalone.uncalled read
  have acyclic : ¬ (readAll sources).OnCycle t.value := by
    intro cycle
    obtain ⟨other, call, back⟩ := TransGen.head'_iff.mp cycle
    have known : other ∈ (readAll sources).names :=
      Table.OnCycle.mem_names (TransGen.tail' back call)
    obtain ⟨m, found', u, inside, command, rfl⟩ := call
    cases found.symm.trans found'
    have unspelled : sourceOf? sources u.value = none := by
      simpa [hasText, textOf?, command] using bare u inside
    rw [Registry.mem_names_iff, get?_readAll_of_unspelled unspelled] at known
    simp at known
  have declared : (declareAll sources).get? t.value = some { body } := by
    rw [get?_declareAll_of_acyclic acyclic, found, Option.map_some,
      settled_of_uncalled fun u inside => callee?_of_bare (bare u inside)]
  exact Table.callee?_eq_some.mpr ⟨command, declared, rfl⟩

/-! ### Rounds -/

/-- Without arguments a body stays as it is. -/
theorem substitute_no_arguments
    (numbered : ∀ t ∈ body, t.kind.argument = true → ∃ n, Decimal.readCount? t.value = some n) :
    substitute name [] body = .ok (body.map unpaired) := by
  induction body with
  | nil => rfl
  | cons t rest ih =>
    obtain ⟨here, later⟩ := List.forall_mem_cons.mp numbered
    have stays : substituteToken name [] t = .ok [t.unpaired] := by
      unfold substituteToken
      split
      case isTrue argument =>
        obtain ⟨n, number⟩ := here argument
        rw [number]
        cases n <;> rfl
      case isFalse => rfl
    rw [substitute, stays, ih later]
    rfl

/-- A round puts the bodies in place of the calls. -/
theorem expandRound_of_standalone
    (standalone : ∀ t ∈ tokens, ∀ text, textOf? (sourceOf? sources) t = some text →
      Standalone sources text) :
    expandRound (declareAll sources) tokens =
      .ok (inline (sourceOf? sources) bodyOf (tokens.map unpaired),
        tokens.any (hasText (sourceOf? sources))) := by
  induction tokens with
  | nil => rw [expandRound]; rfl
  | cons t rest ih =>
    obtain ⟨here, later⟩ := List.forall_mem_cons.mp standalone
    cases stands : textOf? (sourceOf? sources) t with
    | none =>
      have bare := hasText_eq_false.mpr stands
      rw [expandRound, callee?_of_bare bare, ih later, List.map_cons,
        inline_cons_of_none (t := t.unpaired) stands, List.any_cons, bare]
      rfl
    | some text =>
      obtain ⟨body, read, _⟩ := (here text stands).whole
      have called := (here text stands).callee? stands read
      have collected : collectArguments t.value { body } (Queue.ofTokens rest) =
          (.ok [], Queue.ofTokens rest) := rfl
      have behind : rest.drop (rest.length - (Queue.ofTokens rest).weight) = rest := by
        rw [Queue.weight_ofTokens, Nat.sub_self, List.drop_zero]
      have expanded : expandCall t.value { body } [] = .ok (body.map unpaired) :=
        substitute_no_arguments (numbered_of_tokenize read)
      have spelled : bodyOf text = body.map unpaired := by rw [bodyOf, read]
      rw [expandRound, called]
      simp only [collected, behind, ih later, bind, Except.bind, expanded]
      rw [List.map_cons, inline_cons_of_some (t := t.unpaired) stands, List.any_cons,
        hasText_of_some stands, spelled]
      rfl

/-- Where the passes leave nothing to complete and every call as it was read, macros without
arguments can be expanded in the source: expansion gives what the passes make of the source with the
text of each macro, as it is read, in place of its calls. -/
theorem expand_eq_prepare_inline (sources : List (String × String)) (source : String)
    (standalone : ∀ t ∈ lex source, ∀ text, textOf? (sourceOf? sources) t = some text →
      Standalone sources text)
    (tokens : List Token) (read : tokenize source = .ok tokens) (settled : ∀ t ∈ tokens, t.Settled)
    (kept : (tokens.map unpaired).filter (hasText (sourceOf? sources)) =
      (lex source).filter (hasText (sourceOf? sources))) :
    expand (declareAll sources) tokens = prepare (inline (sourceOf? sources) lex (lex source)) := by
  have standalone' : ∀ t ∈ tokens, ∀ text, textOf? (sourceOf? sources) t = some text →
      Standalone sources text := by
    intro t member text stands
    have inside : t.unpaired ∈ (lex source).filter (hasText (sourceOf? sources)) :=
      kept ▸ List.mem_filter.mpr ⟨List.mem_map_of_mem member, hasText_of_some stands⟩
    exact standalone _ (List.mem_filter.mp inside).1 text stands
  have whole := fun t member text stands => (standalone t member text stands).whole
  have inlined := prepare_inline whole read settled kept
  have round := expandRound_of_standalone standalone'
  cases called : tokens.any (hasText (sourceOf? sources)) with
  | false =>
    -- Without a call there is nothing to put in place, neither before the passes nor behind them.
    have bare : ∀ t ∈ tokens, hasText (sourceOf? sources) t = false := by simpa using called
    have bare_source : ∀ t ∈ lex source, hasText (sourceOf? sources) t = false := by
      have none : (tokens.map unpaired).filter (hasText (sourceOf? sources)) = [] :=
        List.filter_eq_nil_iff.mpr (by simpa using bare)
      simpa using List.filter_eq_nil_iff.mp (kept.symm.trans none)
    rw [expand_of_uncalled fun t member => callee?_of_bare (bare t member),
      inline_of_bare bare_source, ← read]
    rfl
  | true =>
    rw [called] at round
    rw [expand_eq_expandRounds, maxDepth, expandRounds, round, ← inlined]
    simp only [bind, Except.bind]
    cases again : prepare (inline (sourceOf? sources) bodyOf (tokens.map unpaired)) with
    | error fault => rfl
    | ok prepared =>
      -- The bodies call nothing, so that the second round is the last one.
      have bare : ∀ t ∈ inline (sourceOf? sources) bodyOf (tokens.map unpaired),
          hasText (sourceOf? sources) t = false := by
        intro t member
        rcases mem_inline member with ⟨_, stands⟩ | ⟨u, member, text, stands, inside⟩
        · exact hasText_eq_false.mpr stands
        · obtain ⟨v, among, rfl⟩ := List.mem_map.mp member
          have alone := standalone' v among text stands
          obtain ⟨body, spelled, _⟩ := alone.whole
          simp only [bodyOf, spelled] at inside
          obtain ⟨w, within, rfl⟩ := List.mem_map.mp inside
          exact bare_of_prepare alone.uncalled spelled w within
      exact expandRounds_of_uncalled 62 fun t member =>
        callee?_of_bare (bare_of_prepare bare again t member)

/-- A text that calls nothing and has no placeholder, with its tokens. -/
theorem standalone_of_read (read : tokenize text = .ok body) (settled : ∀ t ∈ body, t.Settled)
    (argumentless : countArguments body = 0)
    (uncalled : (lex text).any (hasText (sourceOf? sources)) = false) : Standalone sources text :=
  ⟨⟨body, read, settled⟩, fun _ read' => Except.ok.inj (read.symm.trans read') ▸ argumentless,
    by simpa using uncalled⟩

/-- The sign of the real numbers. -/
def realMacro : List (String × String) :=
  [("R", "\\mathbb\x7bR\x7d")]

set_option maxRecDepth 4096 in
/-- Between fences a macro is expanded as if its text stood there. -/
theorem expand_eq_prepare_inline_fence :
    ∃ tokens, tokenize "\\left(\\R\\right)" = .ok tokens ∧
      expand (declareAll realMacro) tokens =
        prepare (inline (sourceOf? realMacro) lex (lex "\\left(\\R\\right)")) ∧
      (expand (declareAll realMacro) tokens).map spellingAll = .ok "(\\mathbb\x7bR\x7d)" := by
  have body : tokenize "\\mathbb\x7bR\x7d" =
    .ok [{ kind := { command := true }, value := "mathbb" },
      { kind := { curly := true, opens := true }, value := "\x7b", offset := 2 },
      { kind := { letter := true }, value := "R" },
      { kind := { curly := true, closes := true }, value := "\x7d", offset := -2 }] := by cbv
  have read : tokenize "\\left(\\R\\right)" =
    .ok [{ kind := { opens := true, fence := true }, value := "(", offset := 2 },
      { kind := { command := true }, value := "R" },
      { kind := { closes := true, fence := true }, value := ")", offset := -2 }] := by cbv
  have alone : Standalone realMacro "\\mathbb\x7bR\x7d" :=
    standalone_of_read body (by decide) rfl (by cbv)
  have standalone : ∀ t ∈ lex "\\left(\\R\\right)", ∀ text,
      textOf? (sourceOf? realMacro) t = some text → Standalone realMacro text := by
    intro t _ text stands
    have command := isCommand_of_hasText (hasText_of_some stands)
    rw [textOf?, if_pos command] at stands
    obtain ⟨source, found, rfl⟩ := Option.map_eq_some_iff.mp stands
    cases List.mem_singleton.mp (List.mem_of_find?_eq_some found)
    exact alone
  exact ⟨_, read, expand_eq_prepare_inline realMacro _ standalone _ read (by decide) (by cbv),
    by cbv⟩

/-- A parenthesis. -/
def parenthesisMacro : List (String × String) :=
  [("m", "(")]

set_option maxRecDepth 4096 in
/-- Behind a fence command a parenthesis is a fence if it is written there, and none if a macro
stands for it: the mark of the command is put on the call and goes away with it. -/
theorem fence_lost_on_call :
    Standalone parenthesisMacro "(" ∧ sourceOf? parenthesisMacro "m" = some "(" ∧
    ∃ tokens expanded written, tokenize "\\left\\m x\\right)" = .ok tokens ∧
      expand (declareAll parenthesisMacro) tokens = .ok expanded ∧
      prepare (inline (sourceOf? parenthesisMacro) lex (lex "\\left\\m x\\right)")) =
        .ok written ∧
      expanded.map (·.kind.fence) = [false, false, false, true] ∧
      written.map (·.kind.fence) = [true, false, false, true] ∧ expanded ≠ written := by
  have read : tokenize "(" = .ok [{ kind := { opens := true }, value := "(" }] := by cbv
  exact ⟨standalone_of_read read (by decide) rfl (by cbv), by cbv, _, _, _, by cbv, by cbv, by cbv,
    by decide, by decide, by decide⟩

end TexFormula.Macro
